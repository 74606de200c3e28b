import RtcCore.L1Wire.Stun

/-!
# `TurnServer` and `TurnServerAllocation`

A server keeps one allocation for each client connection; an allocation keeps
its permissions (by IP address) and channels (by number and peer address).
Each of these objects has a timer, kept here as the time it is due at; the
timers of an allocation are a list because a repeated allocate request posts a
second one. What the handlers send is a list of outputs, what they create or
refresh a list of grants.

The hooks and the two HMAC functions are parameters (`Env`). `allocations_` is
keyed by equal connections: two connections neither of which is less than the
other are equal. A read of the integrity check outside of the message counts as
a check that failed. Left out are the sockets themselves, the order of their
destruction, and the serialisation of what is sent.
-/
namespace RtcCore.L4.Turn

open Bytes L1.Stun

/-! ## Constants -/

/-- mirrors webrtc/p2p/base/turnserver.cc:29-38 -/
def kNonceTimeout : Nat := 60 * 60 * 1000
def kDefaultAllocationTimeout : Nat := 10 * 60 * 1000
def kPermissionTimeout : Nat := 5 * 60 * 1000
def kChannelTimeout : Nat := 10 * 60 * 1000
def kMinChannelNumber : Nat := 0x4000
def kMaxChannelNumber : Nat := 0x7FFF
def kNonceSize : Nat := 40
def kTurnChannelHeaderSize : Nat := 4

/-- mirrors webrtc/p2p/base/stun.h:28-31, 39-53, 543-565 -/
def stunBindingRequest : UInt16 := 0x0001
def stunAllocateRequest : UInt16 := 0x0003
def turnRefreshRequest : UInt16 := 0x0004
def turnCreatePermissionRequest : UInt16 := 0x0008
def turnChannelBindRequest : UInt16 := 0x0009
def turnSendIndication : UInt16 := 0x0016
def attrUsername : UInt16 := 0x0006
def attrMessageIntegrity : UInt16 := 0x0008
def attrErrorCode : UInt16 := 0x0009
def attrChannelNumber : UInt16 := 0x000C
def attrLifetime : UInt16 := 0x000D
def attrXorPeerAddress : UInt16 := 0x0012
def attrData : UInt16 := 0x0013
def attrRealm : UInt16 := 0x0014
def attrNonce : UInt16 := 0x0015
def attrXorRelayedAddress : UInt16 := 0x0016
def attrRequestedTransport : UInt16 := 0x0019
def attrXorMappedAddress : UInt16 := 0x0020
def attrSoftware : UInt16 := 0x8022
def attrAlternateServer : UInt16 := 0x8023
def attrOrigin : UInt16 := 0x802F

/-- mirrors webrtc/p2p/base/turnserver.cc:46-49 -/
def isTurnChannelData (msgType : Nat) : Bool := msgType &&& 0xC000 == 0x4000

/-- mirrors webrtc/p2p/base/stun.cc:875-877 -/
def isStunRequestType (type : UInt16) : Bool := type &&& 0x0110 == 0

/-! ## State -/

inductive ProtocolType where
  | udp | tcp | ssltcp
  deriving DecidableEq, Repr

/-- What `operator==` compares.
mirrors webrtc/p2p/base/turnserver.cc:529-544 -/
structure Connection where
  src : SocketAddress
  dst : SocketAddress
  proto : ProtocolType
  deriving DecidableEq, Repr

structure Permission where
  peer : IPAddress
  due : Nat
  deriving DecidableEq, Repr

structure Channel where
  id : Nat
  peer : SocketAddress
  due : Nat
  deriving DecidableEq, Repr

/-- mirrors webrtc/p2p/base/turnserver.h:127-138 -/
structure Allocation where
  conn : Connection
  external : SocketAddress
  key : Bytes
  transactionId : Bytes := []
  username : Bytes := []
  origin : Bytes := []
  lastNonce : Bytes := []
  perms : List Permission := []
  channels : List Channel := []
  timers : List Nat := []
  deriving DecidableEq, Repr

/-- The hooks, the hash functions and the settings of a server. -/
structure Env where
  hmac : Bytes → Bytes → Bytes
  hmacMd5 : Bytes → Bytes → Bytes
  authHook : Option (Bytes → Option Bytes)
  redirectHook : SocketAddress → Option SocketAddress := fun _ => none
  realm : Bytes := []
  software : Bytes := []
  nonceKey : Bytes := []
  enableOtuNonce : Bool := false

/-- `toPeer` is `SendExternal`; a STUN message goes out with the key its MESSAGE-INTEGRITY is made
with, if it has one; the transaction id of a data indication is random. -/
inductive Output where
  | toPeer (data : Bytes) (peer : SocketAddress)
  | channelMessage (id : Nat) (data : Bytes)
  | dataIndication (peer : SocketAddress) (data : Bytes)
  | stun (message : StunMessage) (key : Option Bytes)
  deriving DecidableEq, Repr

/-- What was created or refreshed. -/
inductive Grant where
  | allocation (key username : Bytes)
  | lifetime (seconds : Nat)
  | permission (peer : IPAddress)
  | channel (id : Nat) (peer : SocketAddress)
  deriving DecidableEq, Repr

/-- An object after a call, with what was sent and granted. -/
structure Done (α : Type) where
  state : α
  out : List Output := []
  grants : List Grant := []

/-! ## Responses -/

def ascii (s : String) : Bytes := s.toUTF8.toList

/-- `SOFTWARE` is added to everything a server sends.
mirrors webrtc/p2p/base/turnserver.cc:485-494 -/
def sendStun (env : Env) (type : UInt16) (id : Bytes) (attrs : List StunAttribute)
    (key : Option Bytes) : Output :=
  let software := if env.software = [] then [] else [.byteString attrSoftware env.software]
  .stun { type, transactionId := id, attrs := attrs ++ software } key

/-- `InitErrorResponse` does nothing for a message that is no request; it is sent all the same.
mirrors webrtc/p2p/base/turnserver.cc:104-115, 452-460 -/
def sendErrorResponse (env : Env) (req : StunMessage) (code : Nat) (reason : String)
    (attrs : List StunAttribute) : Output :=
  if isStunRequestType req.type then
    sendStun env (req.type ||| 0x0110) req.transactionId
      (.ofCode attrErrorCode code (ascii reason) :: attrs) none
  else sendStun env 0 (List.replicate 16 0x30) attrs none

/-- mirrors webrtc/p2p/base/turnserver.cc:95-102 -/
def sendResponse (env : Env) (req : StunMessage) (attrs : List StunAttribute) (key : Option Bytes) :
    Output :=
  sendStun env (req.type ||| 0x0100) req.transactionId attrs key

/-! ## Nonces -/

/-- mirrors webrtc/base/stringencode.cc:413-416 -/
def hexEncodeDigit (v : Nat) : UInt8 := .ofNat (if v < 10 then 48 + v else 87 + v)

/-- mirrors webrtc/base/stringencode.cc:418-429 -/
def hexDecodeDigit (ch : UInt8) : Option Nat :=
  if 48 ≤ ch ∧ ch ≤ 57 then some (ch.toNat - 48)
  else if 65 ≤ ch ∧ ch ≤ 90 then some (ch.toNat - 65 + 10)
  else if 97 ≤ ch ∧ ch ≤ 122 then some (ch.toNat - 97 + 10)
  else none

def hexEncode (b : Bytes) : Bytes :=
  b.flatMap fun x => [hexEncodeDigit (x.toNat / 16), hexEncodeDigit (x.toNat % 16)]

/-- No value: 0 is returned.
mirrors webrtc/base/stringencode.cc:491-524 -/
def hexDecode : Bytes → Option Bytes
  | [] => some []
  | [_] => none
  | a :: b :: rest => do
    let h1 ← hexDecodeDigit a
    let h2 ← hexDecodeDigit b
    let tail ← hexDecode rest
    some (.ofNat (h1 * 16 ||| h2) :: tail)

/-- The octets of a `uint32` in memory, least significant first. -/
def littleEndian (v : UInt32) : Bytes := (be32 v.toNat).reverse

/-- mirrors webrtc/p2p/base/turnserver.cc:395-403 -/
def generateNonce (env : Env) (now : Nat) : Bytes :=
  let input := littleEndian (.ofNat now)
  hexEncode input ++ env.hmacMd5 env.nonceKey input

/-- mirrors webrtc/p2p/base/turnserver.cc:405-428 -/
def validateNonce (env : Env) (now : Nat) (nonce : Bytes) : Bool :=
  if nonce.length ≠ kNonceSize then false
  else
    match hexDecode (nonce.take 8) with
    | none => false
    | some stamp =>
      if nonce.drop 8 ≠ env.hmacMd5 env.nonceKey stamp then false
      else
        let since : UInt32 := .ofNat now - .ofNat (beValue stamp.reverse)
        decide (since.toInt32.toInt < (kNonceTimeout : Int))

/-- mirrors webrtc/p2p/base/turnserver.cc:462-472 -/
def sendErrorResponseWithRealmAndNonce (env : Env) (now : Nat) (req : StunMessage) (code : Nat)
    (reason : String) : Output :=
  sendErrorResponse env req code reason
    [.byteString attrNonce (generateNonce env now), .byteString attrRealm env.realm]

/-! ## The allocation -/

namespace Allocation

variable (env : Env) (now : Nat) (a : Allocation)

/-- mirrors webrtc/p2p/base/turnserver.cc:817-819, 833-841 -/
def hasPermission (ip : IPAddress) : Bool := a.perms.any (·.peer == ip)

/-- mirrors webrtc/p2p/base/turnserver.cc:843-861 -/
def findChannelId (id : Nat) : Option Nat := a.channels.findIdx? (·.id == id)
def findChannelPeer (peer : SocketAddress) : Option Nat := a.channels.findIdx? (·.peer == peer)

/-- mirrors webrtc/p2p/base/turnserver.cc:821-831, 903-916 -/
def addPermission (ip : IPAddress) : Allocation :=
  match a.perms.findIdx? (·.peer == ip) with
  | none => { a with perms := a.perms ++ [⟨ip, now + kPermissionTimeout⟩] }
  | some i => { a with perms := a.perms.modify i ({ · with due := now + kPermissionTimeout }) }

/-- mirrors webrtc/p2p/base/turnserver.cc:807-815 -/
def computeLifetime (msg : StunMessage) : Nat :=
  let lifetime := kDefaultAllocationTimeout / 1000
  match msg.getUInt32 attrLifetime with
  | some v => if v.toNat < lifetime then v.toNat else lifetime
  | none => lifetime

/-- mirrors webrtc/p2p/base/turnserver.cc:869-876 -/
def sendBadRequestResponse (msg : StunMessage) : Output :=
  sendErrorResponse env msg 400 "Bad Request" []

/-- mirrors webrtc/p2p/base/turnserver.cc:613-648 -/
def handleAllocateRequest (msg : StunMessage) : Done Allocation :=
  let seconds := computeLifetime msg
  let username := (msg.getByteString attrUsername).getD []
  { state := { a with
      transactionId := msg.transactionId
      username
      origin := (msg.getByteString attrOrigin).getD a.origin
      timers := a.timers ++ [now + seconds * 1000] }
    out := [sendResponse env msg [.xorAddress attrXorMappedAddress a.conn.src,
      .xorAddress attrXorRelayedAddress a.external, .uint32 attrLifetime (.ofNat seconds)]
      (some a.key)]
    grants := [.allocation a.key username, .lifetime seconds] }

/-- mirrors webrtc/p2p/base/turnserver.cc:650-669 -/
def handleRefreshRequest (msg : StunMessage) : Done Allocation :=
  let seconds := computeLifetime msg
  { state := { a with timers := [now + seconds * 1000] }
    out := [sendResponse env msg [.uint32 attrLifetime (.ofNat seconds)] (some a.key)]
    grants := [.lifetime seconds] }

/-- mirrors webrtc/p2p/base/turnserver.cc:671-689 -/
def handleSendIndication (msg : StunMessage) : Done Allocation :=
  match msg.getByteString attrData, msg.getAddress attrXorPeerAddress with
  | some data, some peer =>
    { state := a, out := if a.hasPermission peer.ip then [.toPeer data peer] else [] }
  | _, _ => { state := a }

/-- mirrors webrtc/p2p/base/turnserver.cc:691-711 -/
def handleCreatePermissionRequest (msg : StunMessage) : Done Allocation :=
  match msg.getAddress attrXorPeerAddress with
  | none => { state := a, out := [sendBadRequestResponse env msg] }
  | some peer =>
    { state := a.addPermission now peer.ip
      out := [sendResponse env msg [] (some a.key)]
      grants := [.permission peer.ip] }

/-- mirrors webrtc/p2p/base/turnserver.cc:741-749, 924-937 -/
def bindChannel (id : Nat) (peer : SocketAddress) : Option Nat → Allocation
  | none => { a with channels := a.channels ++ [⟨id, peer, now + kChannelTimeout⟩] }
  | some i => { a with channels := a.channels.modify i ({ · with due := now + kChannelTimeout }) }

/-- mirrors webrtc/p2p/base/turnserver.cc:713-760 -/
def handleChannelBindRequest (msg : StunMessage) : Done Allocation :=
  match msg.getUInt32 attrChannelNumber, msg.getAddress attrXorPeerAddress with
  | some number, some peer =>
    let id := number.toNat / 65536
    if id < kMinChannelNumber ∨ id > kMaxChannelNumber then
      { state := a, out := [sendBadRequestResponse env msg] }
    else if a.findChannelId id ≠ a.findChannelPeer peer then
      { state := a, out := [sendBadRequestResponse env msg] }
    else
      { state := (a.bindChannel now id peer (a.findChannelId id)).addPermission now peer.ip
        out := [sendResponse env msg [] (some a.key)]
        grants := [.channel id peer, .permission peer.ip] }
  | _, _ => { state := a, out := [sendBadRequestResponse env msg] }

/-- mirrors webrtc/p2p/base/turnserver.cc:588-611 -/
def handleTurnMessage (msg : StunMessage) : Done Allocation :=
  if msg.type = stunAllocateRequest then a.handleAllocateRequest env now msg
  else if msg.type = turnRefreshRequest then a.handleRefreshRequest env now msg
  else if msg.type = turnSendIndication then a.handleSendIndication msg
  else if msg.type = turnCreatePermissionRequest then a.handleCreatePermissionRequest env now msg
  else if msg.type = turnChannelBindRequest then a.handleChannelBindRequest env now msg
  else { state := a }

/-- mirrors webrtc/p2p/base/turnserver.cc:762-774 -/
def handleChannelData (data : Bytes) : List Output :=
  match a.channels.find? (·.id == rd16 data 0) with
  | some channel => [.toPeer (data.drop kTurnChannelHeaderSize) channel.peer]
  | none => []

/-- mirrors webrtc/p2p/base/turnserver.cc:776-805 -/
def onExternalPacket (addr : SocketAddress) (data : Bytes) : List Output :=
  match a.channels.find? (·.peer == addr) with
  | some channel => [.channelMessage channel.id data]
  | none => if a.hasPermission addr.ip then [.dataIndication addr data] else []

end Allocation

/-! ## The server -/

structure Server where
  allocations : List Allocation := []
  deriving DecidableEq, Repr

namespace Server

variable (env : Env) (now : Nat) (s : Server)

/-- The search of `std::map` finds an equal key as long as the connections in the map are
comparable: `operator<` is a strict weak order on those of one protocol only.
mirrors webrtc/p2p/base/turnserver.cc:430-433 -/
def findAllocation (conn : Connection) : Option Allocation := s.allocations.find? (·.conn == conn)

/-- An allocation in the place of the one of its connection. -/
def put (a : Allocation) : Server :=
  ⟨s.allocations.map fun b => if b.conn = a.conn then a else b⟩

/-- The empty key where there is none.
mirrors webrtc/p2p/base/turnserver.cc:279-288 -/
def getKey (msg : StunMessage) : Bytes :=
  match msg.getByteString attrUsername, env.authHook with
  | some username, some hook => (hook username).getD []
  | _, _ => []

/-- The key for the integrity check: an allocation has it already.
mirrors webrtc/p2p/base/turnserver.cc:240-248 -/
def lookUpKey (conn : Connection) (msg : StunMessage) : Bytes :=
  match s.findAllocation conn with
  | none => getKey env msg
  | some a => a.key

/-- mirrors webrtc/p2p/base/turnserver.cc:290-348 -/
def checkAuthorization (conn : Connection) (msg : StunMessage) (data key : Bytes) :
    Except Output Server :=
  match msg.getByteString attrMessageIntegrity, msg.getByteString attrUsername,
      msg.getByteString attrRealm, msg.getByteString attrNonce with
  | none, _, _, _ =>
    .error (sendErrorResponseWithRealmAndNonce env now msg 401 "Unauthorized")
  | some _, some _, some _, some nonce =>
    if !validateNonce env now nonce then
      .error (sendErrorResponseWithRealmAndNonce env now msg 438 "Stale Nonce")
    else if key = [] ∨ StunMessage.validateMessageIntegrity env.hmac data key ≠ some true then
      .error (sendErrorResponseWithRealmAndNonce env now msg 401 "Unauthorized")
    else
      match s.findAllocation conn with
      | none => .ok s
      | some a =>
        if env.enableOtuNonce ∧ a.lastNonce = nonce then
          .error (sendErrorResponseWithRealmAndNonce env now msg 438 "Stale Nonce")
        else .ok (s.put { a with lastNonce := nonce })
  | some _, _, _, _ => .error (sendErrorResponse env msg 400 "Bad Request" [])

/-- `external`: the address of the socket the factory made, if it did.
mirrors webrtc/p2p/base/turnserver.cc:364-393, 435-450 -/
def handleAllocateRequest (conn : Connection) (msg : StunMessage) (key : Bytes)
    (external : Option SocketAddress) : Done Server :=
  match msg.getUInt32 attrRequestedTransport, external with
  | none, _ => { state := s, out := [sendErrorResponse env msg 400 "Bad Request" []] }
  | some transport, external =>
    if transport.toNat / 16777216 ≠ 17 then
      { state := s, out := [sendErrorResponse env msg 442 "Unsupported Protocol" []] }
    else
      match external with
      | none => { state := s, out := [sendErrorResponse env msg 500 "Failed to allocate socket" []] }
      | some external =>
        let r := ({ conn, external, key } : Allocation).handleTurnMessage env now msg
        { state := ⟨s.allocations ++ [r.state]⟩, out := r.out, grants := r.grants }

/-- What comes behind the authorization.
mirrors webrtc/p2p/base/turnserver.cc:255-276 -/
def dispatch (conn : Connection) (msg : StunMessage) (key : Bytes)
    (external : Option SocketAddress) : Done Server :=
  match s.findAllocation conn with
  | none =>
    if msg.type = stunAllocateRequest then s.handleAllocateRequest env now conn msg key external
    else { state := s, out := [sendErrorResponse env msg 437 "Allocation Mismatch" []] }
  | some a =>
    if msg.type ≠ stunAllocateRequest ∨ msg.transactionId = a.transactionId then
      if isStunRequestType msg.type ∧ msg.getByteString attrUsername ≠ some a.username then
        { state := s, out := [sendErrorResponse env msg 441 "Wrong Credentials" []] }
      else
        let r := a.handleTurnMessage env now msg
        { state := s.put r.state, out := r.out, grants := r.grants }
    else { state := s, out := [sendErrorResponse env msg 437 "Allocation Mismatch" []] }

/-- mirrors webrtc/p2p/base/turnserver.cc:216-277 -/
def handleStunMessage (conn : Connection) (data : Bytes) (external : Option SocketAddress) :
    Done Server :=
  match StunMessage.read .turn data with
  | none => { state := s }
  | some msg =>
    if msg.type = stunBindingRequest then
      { state := s, out := [sendResponse env msg [.xorAddress attrXorMappedAddress conn.src] none] }
    else
      match if msg.type = stunAllocateRequest then env.redirectHook conn.src else none with
      | some address =>
        { state := s, out := [sendErrorResponse env msg 300 "Try Alternate Server"
            [.address attrAlternateServer address]] }
      | none =>
        let key := s.lookUpKey env conn msg
        if isStunRequestType msg.type then
          match s.checkAuthorization env now conn msg data key with
          | .error out => { state := s, out := [out] }
          | .ok s => s.dispatch env now conn msg key external
        else s.dispatch env now conn msg key external

/-- mirrors webrtc/p2p/base/turnserver.cc:192-214 -/
def onInternalPacket (conn : Connection) (data : Bytes) (external : Option SocketAddress) :
    Done Server :=
  if data.length < kTurnChannelHeaderSize then { state := s }
  else if !isTurnChannelData (rd16 data 0) then s.handleStunMessage env now conn data external
  else
    match s.findAllocation conn with
    | some a => { state := s, out := a.handleChannelData data }
    | none => { state := s }

end Server

end RtcCore.L4.Turn
