import RtcCore.Core.LTS
import RtcCore.Core.StableSort
import RtcCore.L4P2p.IceRole

/-!
# The connections of a `P2PTransportChannel`

A channel sorts its connections whenever the state of one of them changes:
it switches to the head of the list if that is better than the best connection it
has, prunes what is no better than a writable connection on the same network, and
keeps a flag that says whether the best connection is writable. A connection that
changes its state calls the channel back, during the sorting too.

Connections are told apart by `id`, which stands for the pointer, and networks by
a number. What `UpdateState` makes of the pings of a connection is a parameter
(`Timing`): the three comparisons with the clock. The sort is the stable one.
Left out are the allocator sessions, the signals to the layer above and what does
not bear on the choice of a connection.
-/
namespace RtcCore.L4.Ice

/-! ## Connections -/

/-- mirrors webrtc/p2p/base/port.h:437-442 -/
inductive WriteState where
  | writable | unreliable | init | timeout
  deriving DecidableEq, Repr

def WriteState.value : WriteState → Nat
  | .writable => 0
  | .unreliable => 1
  | .init => 2
  | .timeout => 3

/-- mirrors webrtc/p2p/base/port.h:428-433 -/
inductive ReadState where
  | init | readable | timeout
  deriving DecidableEq, Repr

inductive IceProtocolType where
  | hybrid | google | rfc5245
  deriving DecidableEq, Repr

/-- `iceRole`, `portGeneration` and `network` are those of its port.
mirrors webrtc/p2p/base/port.h:568-604, port.cc:857-885 -/
structure Connection where
  id : Nat
  network : Nat
  iceRole : IceRole
  localPriority : UInt32
  remotePriority : UInt32
  portGeneration : UInt32
  remoteGeneration : UInt32
  readState : ReadState := .init
  writeState : WriteState := .init
  pruned : Bool := false
  rtt : UInt32 := 3000
  deriving DecidableEq

/-- What the clock says of a connection: no ping or data for too long, too many pings have failed
and the last response is too long ago, and none at all has come for too long. -/
structure Timing where
  unread : Bool := false
  failing : Bool := false
  unanswered : Bool := false
  deriving DecidableEq

namespace Connection

variable (a b : Connection)

/-- The sum is one of 32-bit numbers before it is added.
mirrors webrtc/p2p/base/port.cc:893-916 -/
def priority : Nat :=
  match a.iceRole with
  | .unknown => 0
  | .controlling => pair a.localPriority a.remotePriority
  | .controlled => pair a.remotePriority a.localPriority
where
  pair (g d : UInt32) : Nat :=
    (min g d).toNat * 4294967296 + (2 * max g d + if d < g then 1 else 0).toNat

def writable : Bool := a.writeState = .writable

/-- mirrors webrtc/p2p/base/p2ptransportchannel.cc:57-68 -/
def compareConnectionCandidates : Int :=
  if b.priority < a.priority then 1
  else if a.priority < b.priority then -1
  else ((a.remoteGeneration + a.portGeneration) -
    (b.remoteGeneration + b.portGeneration)).toInt32.toInt

/-- mirrors webrtc/p2p/base/p2ptransportchannel.cc:71-80 -/
def compareConnections : Int :=
  if a.writeState.value < b.writeState.value then 1
  else if b.writeState.value < a.writeState.value then -1
  else compareConnectionCandidates a b

/-- `ConnectionCompare`.
mirrors webrtc/p2p/base/p2ptransportchannel.cc:84-107 -/
def connectionCompare : Bool :=
  if 0 < compareConnections a b then true
  else if compareConnections a b < 0 then false
  else a.rtt < b.rtt

end Connection

/-- mirrors webrtc/p2p/base/p2ptransportchannel.cc:43-44 -/
def kMinImprovement : Nat := 10

/-- mirrors webrtc/p2p/base/p2ptransportchannel.cc:122-138 -/
def shouldSwitch : Option Connection → Option Connection → Bool
  | none, none => false
  | none, some _ => true
  | some _, none => true
  | some a, some b =>
    if a.id = b.id then false
    else if a.compareConnections b < 0 then true
    else if 0 < a.compareConnections b then false
    else b.rtt.toNat ≤ a.rtt.toNat + kMinImprovement

/-! ## The channel -/

/-- mirrors webrtc/p2p/base/p2ptransportchannel.h:222-251 -/
structure P2PTransportChannel where
  connections : List Connection := []
  best : Option Nat := none
  pendingBest : Option Nat := none
  sortDirty : Bool := false
  wasWritable : Bool := false
  writable : Bool := false
  readable : Bool := false
  protocolType : IceProtocolType := .hybrid
  iceRole : IceRole := .unknown
  deriving DecidableEq

namespace P2PTransportChannel

variable (s : P2PTransportChannel)

def find (id : Nat) : Option Connection := s.connections.find? (·.id == id)

def bestConnection : Option Connection := s.best.bind s.find

/-- A connection changed in its place. -/
def modify (id : Nat) (f : Connection → Connection) : P2PTransportChannel :=
  { s with connections := s.connections.map fun c => if c.id = id then f c else c }

/-- mirrors webrtc/p2p/base/p2ptransportchannel.cc:936-941 -/
def requestSort : P2PTransportChannel := { s with sortDirty := true }

/-- mirrors webrtc/p2p/base/p2ptransportchannel.cc:1042-1058 -/
def switchBestConnectionTo (id : Option Nat) : P2PTransportChannel := { s with best := id }

/-- mirrors webrtc/p2p/base/p2ptransportchannel.cc:1241-1256 -/
def onConnectionStateChange (id : Nat) : P2PTransportChannel :=
  if s.protocolType = .rfc5245 ∧ s.iceRole = .controlled ∧ s.pendingBest = some id ∧
      (s.find id).any (·.writable) = true then
    ({ s with pendingBest := none }.switchBestConnectionTo (some id)).requestSort
  else s.requestSort

/-- mirrors webrtc/p2p/base/port.cc:918-926 -/
def setReadState (id : Nat) (value : ReadState) : P2PTransportChannel :=
  match s.find id with
  | none => s
  | some c =>
    let s := s.modify id ({ · with readState := value })
    if value ≠ c.readState then s.onConnectionStateChange id else s

/-- mirrors webrtc/p2p/base/port.cc:928-937 -/
def setWriteState (id : Nat) (value : WriteState) : P2PTransportChannel :=
  match s.find id with
  | none => s
  | some c =>
    let s := s.modify id ({ · with writeState := value })
    if value ≠ c.writeState then s.onConnectionStateChange id else s

/-- mirrors webrtc/p2p/base/port.cc:1083-1090 -/
def prune (id : Nat) : P2PTransportChannel :=
  match s.find id with
  | none => s
  | some c =>
    if c.pruned then s
    else (s.modify id ({ · with pruned := true })).setWriteState id .timeout

def readTimesOut (t : Timing) (c : Connection) : Bool := t.unread && c.readState = .readable

def becomesUnreliable (t : Timing) (c : Connection) : Bool := t.failing && c.writeState = .writable

def writeTimesOut (t : Timing) (c : Connection) : Bool :=
  t.unanswered && (c.writeState = .unreliable || c.writeState = .init)

/-- mirrors webrtc/p2p/base/port.cc:1098-1178 -/
def updateState (t : Timing) (id : Nat) : P2PTransportChannel :=
  let s := if (s.find id).any (readTimesOut t) = true then s.setReadState id .timeout else s
  let s :=
    if (s.find id).any (becomesUnreliable t) = true then s.setWriteState id .unreliable else s
  if (s.find id).any (writeTimesOut t) = true then s.setWriteState id .timeout else s

/-- mirrors webrtc/p2p/base/p2ptransportchannel.cc:926-933 -/
def updateConnectionStates (timing : Nat → Timing) : P2PTransportChannel :=
  (s.connections.map (·.id)).foldl (fun s id => s.updateState (timing id) id) s

/-- mirrors webrtc/p2p/base/p2ptransportchannel.cc:1111-1125 -/
def getBestConnectionOnNetwork (network : Nat) : Option Connection :=
  match s.bestConnection with
  | some c => if c.network = network then some c else s.connections.find? (·.network == network)
  | none => s.connections.find? (·.network == network)

/-- mirrors webrtc/p2p/base/p2ptransportchannel.cc:1002-1014 -/
def pruneOnNetwork (network : Nat) : P2PTransportChannel :=
  match s.getBestConnectionOnNetwork network with
  | none => s
  | some primier =>
    if primier.writeState ≠ .writable then s
    else
      (s.connections.map (·.id)).foldl (fun s id =>
        if (s.find id).any (fun c => decide (c.id ≠ primier.id) && c.network == network &&
            decide (0 ≤ primier.compareConnectionCandidates c)) = true then s.prune id
        else s) s

/-- `std::set` of the networks. -/
def networks : List Nat := (s.connections.map (·.network)).dedup.insertionSort (· ≤ ·)

/-- mirrors webrtc/p2p/base/p2ptransportchannel.cc:1085-1095 -/
def handleWritable : P2PTransportChannel := { s with wasWritable := true, writable := true }

/-- mirrors webrtc/p2p/base/p2ptransportchannel.cc:1098-1109 -/
def handleNotWritable : P2PTransportChannel :=
  if s.wasWritable then { s with wasWritable := false, writable := false } else s

/-- What `UpdateChannelState` asserts of the flag.
mirrors webrtc/p2p/base/p2ptransportchannel.cc:1061-1068 -/
def asserts : Bool := s.writable == s.bestConnection.any (·.writable)

/-- mirrors webrtc/p2p/base/p2ptransportchannel.cc:1061-1081 -/
def updateChannelState : P2PTransportChannel :=
  { s with readable := s.connections.any fun c => c.readState = .readable }

def sorted : P2PTransportChannel :=
  { s with
    connections := stableSort Connection.connectionCompare s.connections
    sortDirty := false }

/-- The channel does not leave the choice to the other side. -/
def choosesItself : Bool := s.protocolType ≠ .rfc5245 || s.iceRole = .controlling

/-- The states the connections are in are the ones after the update.
mirrors webrtc/p2p/base/p2ptransportchannel.cc:951-993 -/
def chosen : P2PTransportChannel :=
  if s.choosesItself && shouldSwitch s.bestConnection s.connections.head? then
    s.switchBestConnectionTo (s.connections.head?.map (·.id))
  else s

/-- mirrors webrtc/p2p/base/p2ptransportchannel.cc:995-1015 -/
def prunedOn (networks : List Nat) : P2PTransportChannel :=
  networks.foldl pruneOnNetwork s

/-- mirrors webrtc/p2p/base/p2ptransportchannel.cc:1017-1034 -/
def handleWritability : P2PTransportChannel :=
  if s.bestConnection.any (·.writable) then s.handleWritable else s.handleNotWritable

/-- mirrors webrtc/p2p/base/p2ptransportchannel.cc:945-1039 -/
def sortConnections (timing : Nat → Timing) : P2PTransportChannel :=
  let s := s.updateConnectionStates timing
  if s.protocolType = .hybrid then s.updateChannelState
  else (s.sorted.chosen.prunedOn s.networks).handleWritability.updateChannelState

/-- mirrors webrtc/p2p/base/p2ptransportchannel.cc:622-637 -/
def onUseCandidate (id : Nat) : P2PTransportChannel :=
  match s.find id with
  | none => s
  | some c =>
    if c.writable then
      if s.best ≠ some id then
        ({ s with pendingBest := none }.switchBestConnectionTo (some id)).requestSort
      else s
    else { s with pendingBest := some id }

/-- mirrors webrtc/p2p/base/p2ptransportchannel.cc:1260-1291 -/
def onConnectionDestroyed (id : Nat) : P2PTransportChannel :=
  let s := { s with
    connections := s.connections.eraseP (·.id == id)
    pendingBest := if s.pendingBest = some id then none else s.pendingBest }
  if s.best = some id then (s.switchBestConnectionTo none).requestSort else s

/-- mirrors webrtc/p2p/base/p2ptransportchannel.cc:340-371 -/
def reset : P2PTransportChannel :=
  { s with
    connections := []
    best := none
    readable := false
    writable := false
    sortDirty := false }

end P2PTransportChannel

/-! ## Runs -/

/-- `candidates`: a peer reflexive candidate or the role of the port changes what the priority is
made of; the first signals a change of state. -/
inductive ChannelEvent where
  | addConnection (c : Connection)
  | readState (id : Nat) (value : ReadState)
  | writeState (id : Nat) (value : WriteState)
  | estimate (id : Nat) (rtt : UInt32)
  | candidates (id : Nat) (iceRole : IceRole) (localPriority remotePriority : UInt32)
      (signalled : Bool)
  | useCandidate (id : Nat)
  | destroyed (id : Nat)
  | updateStates (timing : Nat → Timing)
  | sort (timing : Nat → Timing)
  | setIceRole (role : IceRole)
  | setIceProtocolType (type : IceProtocolType)
  | reset

namespace P2PTransportChannel

variable (s : P2PTransportChannel)

/-- A new connection has an address of its own, is in no state yet and not pruned. -/
def next : ChannelEvent → Option P2PTransportChannel
  | .addConnection c =>
    if c.id ∈ s.connections.map (·.id) ∨ c.readState ≠ .init ∨ c.writeState ≠ .init ∨
        c.pruned = true then none
    else some { s with connections := s.connections ++ [c] }
  | .readState id value => some (s.setReadState id value)
  | .writeState id value => some (s.setWriteState id value)
  | .estimate id rtt => some (s.modify id ({ · with rtt }))
  | .candidates id iceRole localPriority remotePriority signalled =>
    let s := s.modify id ({ · with iceRole, localPriority, remotePriority })
    some (if signalled then s.onConnectionStateChange id else s)
  | .useCandidate id =>
    if s.iceRole = .controlled ∧ s.protocolType = .rfc5245 then some (s.onUseCandidate id)
    else none
  | .destroyed id => if (s.find id).isSome then some (s.onConnectionDestroyed id) else none
  | .updateStates timing => some (s.updateConnectionStates timing)
  | .sort timing => some (s.sortConnections timing)
  | .setIceRole iceRole => some { s with iceRole }
  | .setIceProtocolType protocolType => some { s with protocolType }
  | .reset => some s.reset

def system : LTS P2PTransportChannel ChannelEvent := .ofFn (· = {}) next

end P2PTransportChannel
end RtcCore.L4.Ice
