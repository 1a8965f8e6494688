import ClosedLoop.Decimal.Text
import ClosedLoop.Endpoint.Mock
import ClosedLoop.Endpoint.ResourceModel
import ClosedLoop.Setup.LogEntry

/-!
# Settings of the endpoint of a run

Every setting may be left undefined. Settings given by the user win over those of a scenario.

* `EndpointSettings.merge` — two sets of settings, the second one winning, with a log entry each.
* `EndpointSettings.mockConfig`, `resourceConfig` — the settings of the two endpoints.
* `EndpointSettings.ignoredFailures` — the failure settings that the resource model has no use for.
-/

namespace ClosedLoop

/-- The endpoint that a run uses. -/
inductive EndpointKind where
  | mock
  | model
  deriving DecidableEq, Repr

/-- The settings of an endpoint, as far as they are defined. -/
structure EndpointSettings where
  baseLatency : Option Float
  jitter : Option Float
  errorRate : Option Float32
  timeoutRate : Option Float32
  timeout : Option Float
  rpcHandlers : Option Nat
  dataNodes : Option Nat
  remoteReadBandwidth : Option Float

namespace EndpointSettings

/-- Nothing defined. -/
def undefined : EndpointSettings := ⟨none, none, none, none, none, none, none, none⟩

/-- One setting: the user's value, else that of the scenario, and the entry that says which. -/
def pick {α : Type} (name : String) (text : α → String) (scenario user : Option α) :
    Option α × LogEntry :=
  match user, scenario with
  | some v, _ => (some v, ⟨.info, s!"property '{name}': use overwrite: {text v}"⟩)
  | none, some v => (some v, ⟨.info, s!"property '{name}': use scenario: {text v}"⟩)
  | none, none => (none, ⟨.debug, s!"property '{name}': undefined"⟩)

/-- The settings of the user on top of those of a scenario, with one log entry per setting. -/
def merge (scenario user : EndpointSettings) : EndpointSettings × List LogEntry :=
  let baseLatency := pick "base_latency" Decimal.plain scenario.baseLatency user.baseLatency
  let jitter := pick "jitter" Decimal.plain scenario.jitter user.jitter
  let errorRate := pick "error_rate" Decimal.plain32 scenario.errorRate user.errorRate
  let timeoutRate := pick "timeout_rate" Decimal.plain32 scenario.timeoutRate user.timeoutRate
  let timeout := pick "timeout" Decimal.plain scenario.timeout user.timeout
  let rpcHandlers := pick "rpc_handlers" toString scenario.rpcHandlers user.rpcHandlers
  let dataNodes := pick "datanodes" toString scenario.dataNodes user.dataNodes
  let remoteReadBandwidth := pick "remote_read_bandwidth" Decimal.plain
    scenario.remoteReadBandwidth user.remoteReadBandwidth
  ({ baseLatency := baseLatency.1
     jitter := jitter.1
     errorRate := errorRate.1
     timeoutRate := timeoutRate.1
     timeout := timeout.1
     rpcHandlers := rpcHandlers.1
     dataNodes := dataNodes.1
     remoteReadBandwidth := remoteReadBandwidth.1 },
    [baseLatency.2, jitter.2, errorRate.2, timeoutRate.2, timeout.2, rpcHandlers.2, dataNodes.2,
      remoteReadBandwidth.2])

/-- The settings of a mock endpoint: nothing by default, except one second for a timeout. -/
def mockConfig (s : EndpointSettings) : MockConfig where
  baseLatency := s.baseLatency.getD 0
  jitter := s.jitter.getD 0
  errorRate := s.errorRate.getD 0
  timeoutRate := s.timeoutRate.getD 0
  timeout := s.timeout.getD 1

/-- The capacities of a resource model: the standard ones where nothing else is defined. -/
def resourceConfig (s : EndpointSettings) : ResourceConfig :=
  { ResourceConfig.standard with
    rpcHandlers := s.rpcHandlers.getD ResourceConfig.standard.rpcHandlers
    dataNodes := s.dataNodes.getD ResourceConfig.standard.dataNodes
    remoteReadBandwidth :=
      s.remoteReadBandwidth.getD ResourceConfig.standard.remoteReadBandwidth }

/-- The names of the defined settings that a resource model has no use for. -/
def ignoredFailures (s : EndpointSettings) : List String :=
  (if s.errorRate.isSome then ["error_rate"] else []) ++
  (if s.timeoutRate.isSome then ["timeout_rate"] else []) ++
  (if s.timeout.isSome then ["timeout"] else [])

end EndpointSettings

end ClosedLoop
