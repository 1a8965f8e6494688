import ClosedLoop.Cost
import ClosedLoop.Fault
import ClosedLoop.Service.Itinerary

/-!
# The resource model

A coarse queueing model of a storage server above a distributed file system. A request looks up
names under a lock, is processed by a handler, which also writes, reads locally, reads remotely
from a data node, and sends its response. Stages without cost are left out, except that every
request passes a handler and sends a response.

* `ResourceConfig`, `ResourceModel.build` — the capacities, and the model if they make sense and
  there is room for its pools.
* `ResourceModel.itinerary` — the stages of a request.
* `ResourceModel.capacity` — the places of each pool.
-/

namespace ClosedLoop

/-- The capacities of a resource model; bandwidths are in megabytes per second. -/
structure ResourceConfig where
  rpcHandlers : Nat
  dataNodes : Nat
  xceivers : Nat
  replication : Nat
  networkBandwidth : Float
  localReadBandwidth : Float
  remoteReadBandwidth : Float
  memtableBandwidth : Float
  logBandwidth : Float

/-- The capacities of a region server in a small cluster. -/
def ResourceConfig.standard : ResourceConfig where
  rpcHandlers := 30
  dataNodes := 3
  xceivers := 8
  replication := 3
  networkBandwidth := 1250
  localReadBandwidth := 500
  remoteReadBandwidth := 200
  memtableBandwidth := 4000
  logBandwidth := 150

/-- A resource model whose capacities were checked. -/
structure ResourceModel where
  config : ResourceConfig

/-- Why there is no resource model with the given capacities. -/
inductive ResourceError where
  /-- The capacities make no sense. -/
  | refused (cause : SetupError)
  /-- There is no room for the pools. -/
  | noRoom (fault : Fault)

namespace ResourceModel

/-- The time that a data node computes for every remote read or write, in seconds. -/
def nodeTime : Float := 50e-6

/-- The acknowledgement traffic of written data, relative to its volume. -/
def ackShare : Float := 48 / 64e3

/-- The bandwidths with their names, in the order in which they are checked. -/
def bandwidths (c : ResourceConfig) : List (String × Float) :=
  [("network_bandwidth", c.networkBandwidth), ("local_read_bandwidth", c.localReadBandwidth),
    ("remote_read_bandwidth", c.remoteReadBandwidth), ("memtable_bandwidth", c.memtableBandwidth),
    ("log_bandwidth", c.logBandwidth)]

/-- Is this a usable bandwidth? -/
def isBandwidth (x : Float) : Bool := x.isFinite && 0 < x

/-- No pool may be empty and every bandwidth must be positive. -/
def check (c : ResourceConfig) : Except SetupError Unit :=
  if c.rpcHandlers = 0 ∨ c.dataNodes = 0 ∨ c.xceivers = 0 then
    .error ⟨"rpc_handlers, datanodes and datanode_xceivers must be at least 1"⟩
  else
    match (bandwidths c).find? fun (_, x) => !isBandwidth x with
    | some (name, x) =>
      .error ⟨s!"{name} must be a positive bandwidth, got {Decimal.plain x}"⟩
    | none => .ok ()

/-- The most data nodes that memory can have room for: forty bytes for each and sixteen for all of
them, at least eight short of half the address space. -/
def mostDataNodes : Nat := (UInt64.size / 2 - 8 - 16) / 40

/-- There must be room for the data nodes, and each pool must be able to count its places. -/
def checkRoom (c : ResourceConfig) : Except Fault Unit := do
  if mostDataNodes < c.dataNodes then throw .tooManyDataNodes
  checkPlaces c.xceivers
  checkPlaces c.rpcHandlers

/-- The model with these capacities, if they make sense and there is room for its pools. -/
def build (c : ResourceConfig) : Except ResourceError ResourceModel := do
  (check c).mapError .refused
  (checkRoom c).mapError .noRoom
  return ⟨c⟩

/-- The places of each pool. -/
def capacity (m : ResourceModel) : Pool → Nat
  | .namespaceLock => 1
  | .handlers => m.config.rpcHandlers
  | .xceivers node => if node < m.config.dataNodes then m.config.xceivers else 0

/-! ### Times of the stages -/

/-- The time to send data over the network. -/
def transferTime (m : ResourceModel) (megabytes : Float) : Span :=
  Span.ofSeconds (megabytes / m.config.networkBandwidth)

/-- The seconds to append to the log: every replica is written and acknowledged. -/
def logSeconds (m : ResourceModel) (megabytes : Float) : Float :=
  let replicas := Binary.ofWhole (max m.config.replication 1)
  if 0 < megabytes then
    megabytes / m.config.logBandwidth + nodeTime * replicas +
      megabytes * ackShare * replicas / m.config.networkBandwidth
  else 0

/-- The time to update the memory table and append to the log. -/
def writeTime (m : ResourceModel) (c : Cost) : Span :=
  Span.ofSeconds (c.memWrite / m.config.memtableBandwidth + m.logSeconds c.logWrite)

/-- The time of a handler for receiving and processing a request. -/
def rpcTime (m : ResourceModel) (c : Cost) : Span :=
  (m.transferTime c.request).addSaturating (Span.ofSeconds c.cpuTime)

/-- The time of a read from the local disk. -/
def localReadTime (m : ResourceModel) (c : Cost) : Span :=
  Span.ofSeconds (c.localRead / m.config.localReadBandwidth)

/-- The time of a read from a data node. -/
def remoteReadTime (m : ResourceModel) (c : Cost) : Span :=
  ((Span.ofSeconds nodeTime).addSaturating
    (Span.ofSeconds (c.remoteRead / m.config.remoteReadBandwidth))).addSaturating
      (m.transferTime c.remoteRead)

/-! ### Stages -/

/-- The stages of a request that reads remotely from the given data node. -/
def stages (m : ResourceModel) (c : Cost) (node : Nat) : List Stage :=
  (if 0 < c.lookupTime then [⟨some .namespaceLock, [Span.ofSeconds c.lookupTime]⟩] else []) ++
  [⟨some .handlers,
    m.rpcTime c :: (if 0 < c.memWrite || 0 < c.logWrite then [m.writeTime c] else [])⟩] ++
  (if 0 < c.localRead then [⟨none, [m.localReadTime c]⟩] else []) ++
  (if 0 < c.remoteRead then [⟨some (.xceivers node), [m.remoteReadTime c]⟩] else []) ++
  [⟨none, [m.transferTime c.response]⟩]

/-- The itinerary of a request: it goes well and reports the time of its stages. -/
def itinerary (m : ResourceModel) (c : Cost) (node : Nat) : Itinerary :=
  let stages := m.stages c node
  let served := Itinerary.serviceTime ⟨stages, none⟩
  ⟨stages, some (.ok ⟨some served⟩)⟩

variable {σ : Type} [WordSource σ]

/-- The itinerary of a call; the data node is drawn only for a remote read. -/
def answer (m : ResourceModel) (c : Cost) : StateM σ Itinerary := do
  if 0 < c.remoteRead then
    let word ← drawWord
    return m.itinerary c (word.toNat % m.config.dataNodes)
  else return m.itinerary c 0

end ResourceModel

end ClosedLoop
