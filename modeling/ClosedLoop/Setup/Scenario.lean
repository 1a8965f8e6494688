import ClosedLoop.Setup.EndpointSettings

/-!
# Scenarios

A scenario is a ready-made set of client profiles with an endpoint that suits them.

* `Scenario.profiles`, `endpointKind`, `endpointSettings` — what a scenario consists of.
* `Scenario.ofName?` — the scenario with a name.
-/

namespace ClosedLoop

/-- The ready-made scenarios. -/
inductive Scenario where
  /-- Point reads, small writes and a few long scans side by side. -/
  | hbaseMixed
  /-- Many readers at once, mostly served from the local disk. -/
  | readHeavy
  /-- The mixed clients against slow and unreliable storage. -/
  | flakyStorage
  deriving DecidableEq, Repr

namespace Scenario

/-- The name of a scenario. -/
def name : Scenario → String
  | hbaseMixed => "hbase-mixed"
  | readHeavy => "read-heavy"
  | flakyStorage => "flaky-storage"

/-- All scenarios. -/
def all : List Scenario := [hbaseMixed, readHeavy, flakyStorage]

/-- The scenario with a name. -/
def ofName? (name : String) : Option Scenario := all.find? (·.name = name)

/-- The scenario that is used if none is named. -/
def standard : Scenario := hbaseMixed

/-! ### Clients -/

/-- Clients that read single rows. -/
def pointReads (id : ClientId) (instances : UInt64) (shortCircuitRatio : Float) : Profile :=
  { Profile.blank id "get" with
    instances
    rpcSize := 0.0005
    replySize := 0.004
    rpcTime := 0.0002
    lookupTime := 0.0005
    readSize := 0.064
    shortCircuitRatio
    thinkTime := 0.01
    monitorInterval := 1 }

/-- Clients that write single rows. -/
def smallWrites (id : ClientId) (instances : UInt64) : Profile :=
  { Profile.blank id "put" with
    instances
    rpcSize := 0.004
    replySize := 0.0002
    rpcTime := 0.0001
    memUpdateSize := 0.004
    logAppendSize := 0.004
    thinkTime := 0.005
    monitorInterval := 1 }

/-- Clients that read many rows at a time, of varying number. -/
def longScans (id : ClientId) (instances : UInt64) : Profile :=
  { Profile.blank id "scan" with
    instances
    rpcSize := 0.001
    replySize := 0.5
    rpcTime := 0.001
    lookupTime := 0.001
    readSize := 0.5
    shortCircuitRatio := 0.3
    thinkTime := 0.05
    monitorInterval := 1
    distribution := .exponential }

/-- The clients of a scenario. -/
def profiles : Scenario → List Profile
  | readHeavy => [pointReads 1 32 0.9, longScans 2 8]
  | _ => [pointReads 1 8 0.7, smallWrites 2 4, longScans 3 2]

/-! ### Endpoints -/

/-- The endpoint of a scenario; only the mock fails calls. -/
def endpointKind : Scenario → EndpointKind
  | flakyStorage => .mock
  | _ => .model

/-- The settings of the endpoint of a scenario. -/
def endpointSettings : Scenario → EndpointSettings
  | hbaseMixed =>
    { EndpointSettings.undefined with
      baseLatency := some 0.002
      jitter := some 0.001 }
  | readHeavy =>
    { EndpointSettings.undefined with
      baseLatency := some 0.005
      jitter := some 0.002
      rpcHandlers := some 16 }
  | flakyStorage =>
    { EndpointSettings.undefined with
      baseLatency := some 0.02
      jitter := some 0.015
      errorRate := some (Binary.toSingle 0.05)
      timeoutRate := some (Binary.toSingle 0.02)
      timeout := some 0.5
      dataNodes := some 2
      remoteReadBandwidth := some 50 }

end Scenario

end ClosedLoop
