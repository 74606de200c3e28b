import RtcCore.Core.TimedTable
import RtcCore.L4P2p.TurnLifetime

/-!
# The permissions and channels of an allocation

The two lists of an allocation hold pointers to objects of their own, each with
a delayed message that destroys it. `Tables` keeps the objects by address, and the
messages apart from the objects they are for: a binding compares the pointers of
two lookups, and a message that is delivered looks for its object in the list and
asserts that it is there. A new object is at any address no object of its kind has;
a message is delivered when it is due or later.

Results:
* `Represents`: without the addresses these are the handlers of `Allocation`.
* `channel_table`: in every run the channels are a partial bijection of numbers
  in range and peers, permissions are for distinct addresses, no assertion fails,
  a refused binding changes nothing, and what goes out as channel data has the
  number that leads back.
-/
namespace RtcCore.L4.Turn

open Bytes L1.Stun

/-- What a `Channel` holds. -/
structure Binding where
  id : Nat
  peer : SocketAddress
  deriving DecidableEq

/-- mirrors webrtc/p2p/base/turnserver.h:127-138 -/
structure Tables where
  key : Bytes := []
  perms : TimedTable IPAddress := {}
  channels : TimedTable Binding := {}
  deriving DecidableEq

namespace Tables

variable (env : Env) (now : Nat) (t : Tables)

/-! ## Handlers -/

/-- mirrors webrtc/p2p/base/turnserver.cc:833-841 -/
def findPermission (ip : IPAddress) : Option Nat := t.perms.find? (· == ip)

/-- mirrors webrtc/p2p/base/turnserver.cc:843-861 -/
def findChannelId (id : Nat) : Option Nat := t.channels.find? (·.id == id)
def findChannelPeer (peer : SocketAddress) : Option Nat := t.channels.find? (·.peer == peer)

/-- `address`: of the object, if one is created.
mirrors webrtc/p2p/base/turnserver.cc:821-831, 903-916 -/
def addPermission (address : Nat) (ip : IPAddress) : Tables :=
  match t.findPermission ip with
  | none => { t with perms := t.perms.add address ip (now + kPermissionTimeout) }
  | some p => { t with perms := t.perms.refresh p (now + kPermissionTimeout) }

/-- mirrors webrtc/p2p/base/turnserver.cc:741-749, 924-937 -/
def bindChannel (address id : Nat) (peer : SocketAddress) : Option Nat → Tables
  | none => { t with channels := t.channels.add address ⟨id, peer⟩ (now + kChannelTimeout) }
  | some c => { t with channels := t.channels.refresh c (now + kChannelTimeout) }

/-- mirrors webrtc/p2p/base/turnserver.cc:691-711 -/
def handleCreatePermissionRequest (permAt : Nat) (msg : StunMessage) : Done Tables :=
  match msg.getAddress attrXorPeerAddress with
  | none => { state := t, out := [Allocation.sendBadRequestResponse env msg] }
  | some peer =>
    { state := t.addPermission now permAt peer.ip
      out := [sendResponse env msg [] (some t.key)]
      grants := [.permission peer.ip] }

/-- mirrors webrtc/p2p/base/turnserver.cc:713-760 -/
def handleChannelBindRequest (channelAt permAt : Nat) (msg : StunMessage) : Done Tables :=
  match msg.getUInt32 attrChannelNumber, msg.getAddress attrXorPeerAddress with
  | some number, some peer =>
    let id := number.toNat / 65536
    if id < kMinChannelNumber ∨ id > kMaxChannelNumber then
      { state := t, out := [Allocation.sendBadRequestResponse env msg] }
    else if t.findChannelId id ≠ t.findChannelPeer peer then
      { state := t, out := [Allocation.sendBadRequestResponse env msg] }
    else
      { state := (t.bindChannel now channelAt id peer (t.findChannelId id)).addPermission now permAt
          peer.ip
        out := [sendResponse env msg [] (some t.key)]
        grants := [.channel id peer, .permission peer.ip] }
  | _, _ => { state := t, out := [Allocation.sendBadRequestResponse env msg] }

/-- The other handlers do not touch the tables.
mirrors webrtc/p2p/base/turnserver.cc:588-611 -/
def handleTurnMessage (channelAt permAt : Nat) (msg : StunMessage) : Tables :=
  if msg.type = turnCreatePermissionRequest then
    (t.handleCreatePermissionRequest env now permAt msg).state
  else if msg.type = turnChannelBindRequest then
    (t.handleChannelBindRequest env now channelAt permAt msg).state
  else t

/-- mirrors webrtc/p2p/base/turnserver.cc:762-774 -/
def handleChannelData (data : Bytes) : List Output :=
  match t.channels.entries.find? (·.2.id == rd16 data 0) with
  | some channel => [.toPeer (data.drop kTurnChannelHeaderSize) channel.2.peer]
  | none => []

/-- mirrors webrtc/p2p/base/turnserver.cc:776-805 -/
def onExternalPacket (addr : SocketAddress) (data : Bytes) : List Output :=
  match t.channels.entries.find? (·.2.peer == addr) with
  | some channel => [.channelMessage channel.2.id data]
  | none => if (t.findPermission addr.ip).isSome then [.dataIndication addr data] else []

end Tables

/-! ## Runs -/

structure TablesAt where
  tables : Tables := {}
  now : Nat := 0
  deriving DecidableEq

inductive TablesEvent where
  | message (msg : StunMessage) (channelAt permAt : Nat)
  | permissionTimeout (address : Nat)
  | channelTimeout (address : Nat)
  | tick (now : Nat)
  deriving DecidableEq

namespace TablesAt

variable (env : Env) (s : TablesAt)

/-- A message for the object is due. -/
def isDue {κ : Type} (table : TimedTable κ) (now address : Nat) : Bool :=
  table.queue.any fun m => m.1 == address && m.2 ≤ now

/-- mirrors webrtc/p2p/base/turnserver.cc:884-943 -/
def next : TablesEvent → Option TablesAt
  | .message msg channelAt permAt =>
    if channelAt ∈ s.tables.channels.addresses ∨ permAt ∈ s.tables.perms.addresses then none
    else some { s with tables := s.tables.handleTurnMessage env s.now channelAt permAt msg }
  | .permissionTimeout p =>
    if isDue s.tables.perms s.now p then
      some { s with tables := { s.tables with perms := s.tables.perms.destroy p } }
    else none
  | .channelTimeout c =>
    if isDue s.tables.channels s.now c then
      some { s with tables := { s.tables with channels := s.tables.channels.destroy c } }
    else none
  | .tick now => if s.now < now then some { s with now } else none

def system : LTS TablesAt TablesEvent :=
  .ofFn (fun s => s.tables.perms = {} ∧ s.tables.channels = {}) (next env)

end TablesAt

namespace Tables

/-- `it != channels_.end()` in `OnChannelDestroyed`, and the same in `OnPermissionDestroyed`, for
each message that can be delivered.
mirrors webrtc/p2p/base/turnserver.cc:890-901 -/
def Asserts (t : Tables) : Prop :=
  (∀ m ∈ t.channels.queue, m.1 ∈ t.channels.addresses) ∧
    ∀ m ∈ t.perms.queue, m.1 ∈ t.perms.addresses

/-- The channel table of a partial bijection. -/
structure PartialBijection (env : Env) (t : Tables) : Prop where
  ids : ∀ c ∈ t.channels.entries, kMinChannelNumber ≤ c.2.id ∧ c.2.id ≤ kMaxChannelNumber
  idsDistinct : t.channels.Distinct Binding.id
  peersDistinct : t.channels.Distinct Binding.peer
  permsDistinct : t.perms.Distinct id
  asserts : t.Asserts
  refused : ∀ now channelAt permAt msg code reason, msg.type = turnChannelBindRequest →
    (t.handleChannelBindRequest env now channelAt permAt msg).out =
        [sendErrorResponse env msg code reason []] →
      t.handleTurnMessage env now channelAt permAt msg = t
  routed : ∀ addr data id payload reply, t.onExternalPacket addr data = [.channelMessage id payload] →
    rd16 reply 0 = id → t.handleChannelData reply = [.toPeer (reply.drop kTurnChannelHeaderSize) addr]

variable {env : Env} {now channelAt permAt : Nat} {t : Tables} {msg : StunMessage}

/-! ## The invariant -/

/-- What every operation keeps. -/
structure Inv (t : Tables) : Prop where
  channels : t.channels.Sound
  perms : t.perms.Sound
  ids : ∀ c ∈ t.channels.entries, kMinChannelNumber ≤ c.2.id ∧ c.2.id ≤ kMaxChannelNumber
  idsDistinct : t.channels.Distinct Binding.id
  peersDistinct : t.channels.Distinct Binding.peer
  permsDistinct : t.perms.Distinct id

/-- Permissions that are sound and distinct in the place of the others. -/
theorem Inv.setPerms (h : Inv t) {perms : TimedTable IPAddress} (hs : perms.Sound)
    (hd : perms.Distinct id) : Inv { t with perms } :=
  ⟨h.channels, hs, h.ids, h.idsDistinct, h.peersDistinct, hd⟩

theorem Inv.addPermission (h : Inv t) (hp : permAt ∉ t.perms.addresses) (ip : IPAddress) :
    Inv (t.addPermission now permAt ip) := by
  unfold Tables.addPermission
  split
  · rename_i hnone
    exact h.setPerms (h.perms.add hp) (h.permsDistinct.add hnone)
  · rename_i p hfound
    exact h.setPerms (h.perms.refresh (TimedTable.find?_mem hfound)) h.permsDistinct

/-- A binding that passes the checks. -/
theorem Inv.bindChannel (h : Inv t) (hc : channelAt ∉ t.channels.addresses) {id : Nat}
    {peer : SocketAddress} (hlow : kMinChannelNumber ≤ id) (hhigh : id ≤ kMaxChannelNumber)
    (hsame : t.findChannelId id = t.findChannelPeer peer) :
    Inv (t.bindChannel now channelAt id peer (t.findChannelId id)) := by
  cases hfound : t.findChannelId id with
  | none =>
    have hpeer := hsame.symm.trans hfound
    refine ⟨h.channels.add hc, h.perms, ?_, h.idsDistinct.add hfound, h.peersDistinct.add hpeer,
      h.permsDistinct⟩
    intro c hmem
    rcases List.mem_append.1 hmem with hmem | hmem
    · exact h.ids c hmem
    · rw [List.mem_singleton.1 hmem]
      exact ⟨hlow, hhigh⟩
  | some c =>
    exact ⟨h.channels.refresh (TimedTable.find?_mem hfound), h.perms, h.ids, h.idsDistinct,
      h.peersDistinct, h.permsDistinct⟩

@[simp] theorem bindChannel_perms (id : Nat) (peer : SocketAddress) (c : Option Nat) :
    (t.bindChannel now channelAt id peer c).perms = t.perms := by
  cases c <;> rfl

/-- A request to bind a channel binds it or is refused, and then it was nothing. -/
theorem handleChannelBindRequest_cases :
    ((t.handleChannelBindRequest env now channelAt permAt msg).state = t ∧
        (t.handleChannelBindRequest env now channelAt permAt msg).out =
          [Allocation.sendBadRequestResponse env msg]) ∨
      ∃ id peer, kMinChannelNumber ≤ id ∧ id ≤ kMaxChannelNumber ∧
        t.findChannelId id = t.findChannelPeer peer ∧
        (t.handleChannelBindRequest env now channelAt permAt msg).state =
          (t.bindChannel now channelAt id peer (t.findChannelId id)).addPermission now permAt peer.ip ∧
        (t.handleChannelBindRequest env now channelAt permAt msg).out =
          [sendResponse env msg [] (some t.key)] := by
  unfold handleChannelBindRequest
  split
  · rename_i number peer _ _
    dsimp only
    split
    · exact .inl ⟨rfl, rfl⟩
    · rename_i hrange
      rw [not_or] at hrange
      split
      · exact .inl ⟨rfl, rfl⟩
      · rename_i hsame
        exact .inr ⟨_, peer, Nat.not_lt.1 hrange.1, Nat.not_lt.1 hrange.2, not_not.1 hsame, rfl, rfl⟩
  · exact .inl ⟨rfl, rfl⟩

theorem Inv.handleTurnMessage (h : Inv t) (hc : channelAt ∉ t.channels.addresses)
    (hp : permAt ∉ t.perms.addresses) :
    Inv (t.handleTurnMessage env now channelAt permAt msg) := by
  unfold Tables.handleTurnMessage
  split
  · unfold handleCreatePermissionRequest
    split
    · exact h
    · exact h.addPermission hp _
  · split
    · rcases @handleChannelBindRequest_cases env now channelAt permAt t msg with
        ⟨hstate, -⟩ | ⟨id, peer, hlow, hhigh, hsame, hstate, -⟩
      · rw [hstate]
        exact h
      · rw [hstate]
        exact (h.bindChannel hc hlow hhigh hsame).addPermission (by simpa using hp) _
    · exact h

theorem Inv.destroyPermission (h : Inv t) (p : Nat) :
    Inv { t with perms := t.perms.destroy p } :=
  h.setPerms h.perms.destroy h.permsDistinct.destroy

theorem Inv.destroyChannel (h : Inv t) (c : Nat) :
    Inv { t with channels := t.channels.destroy c } where
  channels := h.channels.destroy
  perms := h.perms
  ids e he := h.ids e (List.eraseP_sublist.subset he)
  idsDistinct := h.idsDistinct.destroy
  peersDistinct := h.peersDistinct.destroy
  permsDistinct := h.permsDistinct

/-! ## What follows from it -/

/-- The answer to a binding that is accepted is no error. -/
theorem sendResponse_ne_error (htype : msg.type = turnChannelBindRequest) (code : Nat)
    (reason : String) (attrs attrs' : List StunAttribute) (k : Option Bytes) :
    sendResponse env msg attrs k ≠ sendErrorResponse env msg code reason attrs' := by
  have hreq : isStunRequestType msg.type = true := by
    rw [htype]
    decide
  rw [sendErrorResponse, if_pos hreq, htype]
  intro h
  injection h with h
  have htypes := congrArg StunMessage.type h
  change msg.type ||| 0x0100 = turnChannelBindRequest ||| 0x0110 at htypes
  rw [htype] at htypes
  exact absurd htypes (by decide)

theorem handleTurnMessage_refused {code : Nat} {reason : String}
    (htype : msg.type = turnChannelBindRequest)
    (hout : (t.handleChannelBindRequest env now channelAt permAt msg).out =
      [sendErrorResponse env msg code reason []]) :
    t.handleTurnMessage env now channelAt permAt msg = t := by
  have hne : msg.type ≠ turnCreatePermissionRequest := by
    rw [htype]
    decide
  rw [handleTurnMessage, if_neg hne, if_pos htype]
  rcases @handleChannelBindRequest_cases env now channelAt permAt t msg with
    ⟨hstate, -⟩ | ⟨-, -, -, -, -, -, haccepted⟩
  · exact hstate
  · rw [haccepted] at hout
    injection hout with hsame
    exact absurd hsame (sendResponse_ne_error htype code reason [] [] _)

/-- The number on the way out leads back in. -/
theorem Inv.routed (h : Inv t) {addr : SocketAddress} {data payload reply : Bytes} {id : Nat}
    (hout : t.onExternalPacket addr data = [.channelMessage id payload]) (hid : rd16 reply 0 = id) :
    t.handleChannelData reply = [.toPeer (reply.drop kTurnChannelHeaderSize) addr] := by
  unfold onExternalPacket at hout
  split at hout
  · rename_i channel hfound
    cases hout
    have hback := h.idsDistinct.find? (List.mem_of_find?_eq_some hfound)
    have hpeer : channel.2.peer = addr := by
      simpa using List.find?_some hfound
    rw [handleChannelData, hid, hback, ← hpeer]
  · split at hout
    · cases hout
    · cases hout

theorem Inv.partialBijection (h : Inv t) : PartialBijection env t where
  ids := h.ids
  idsDistinct := h.idsDistinct
  peersDistinct := h.peersDistinct
  permsDistinct := h.permsDistinct
  asserts := ⟨fun m hm => (h.channels.armed m.1).1 (List.mem_map_of_mem hm),
    fun m hm => (h.perms.armed m.1).1 (List.mem_map_of_mem hm)⟩
  refused _ _ _ _ _ _ htype hout := handleTurnMessage_refused htype hout
  routed _ _ _ _ _ hout hid := h.routed hout hid

/-! ## Without the addresses -/

def permission (v : IPAddress × Nat) : Permission := ⟨v.1, v.2⟩

def channel (v : Binding × Nat) : Channel := ⟨v.1.id, v.1.peer, v.2⟩

/-- The lists of the allocation are the tables, with the timers in the place of the messages. -/
structure Represents (t : Tables) (a : Allocation) : Prop where
  key : a.key = t.key
  perms : a.perms = t.perms.values.map permission
  channels : a.channels = t.channels.values.map channel

theorem map_modify {α β : Type} (l : List α) (i : Nat) (f : α → α) (g : α → β) (e : β → β)
    (h : ∀ x, g (f x) = e (g x)) : (l.modify i f).map g = (l.map g).modify i e := by
  apply List.ext_getElem
  · simp
  · intro j _ _
    simp only [List.getElem_map, List.getElem_modify, apply_ite g, h]

variable {a : Allocation}

theorem Represents.findPermission (h : Represents t a) (ip : IPAddress) :
    a.perms.findIdx? (·.peer == ip) = t.perms.entries.findIdx? fun e => e.2 == ip := by
  rw [h.perms, TimedTable.values, List.map_map, List.findIdx?_map]
  rfl

theorem Represents.findChannel (h : Represents t a) (f : Channel → Bool) (g : Binding → Bool)
    (hfg : ∀ v, f (channel v) = g v.1) :
    a.channels.findIdx? f = t.channels.entries.findIdx? fun e => g e.2 := by
  rw [h.channels, TimedTable.values, List.map_map, List.findIdx?_map]
  congr 1
  funext e
  exact hfg _

theorem Represents.addPermission (h : Represents t a) (ht : t.Inv)
    (hp : permAt ∉ t.perms.addresses) (ip : IPAddress) :
    Represents (t.addPermission now permAt ip) (a.addPermission now ip) := by
  unfold Tables.addPermission Allocation.addPermission
  rw [h.findPermission ip]
  rcases t.perms.find?_place (· == ip) with ⟨hnone, hplace⟩ | ⟨i, hi, hplace, hfound⟩
  · rw [show t.findPermission ip = none from hnone, hplace]
    refine ⟨h.key, ?_, h.channels⟩
    rw [TimedTable.values_add hp, List.map_append, ← h.perms]
    rfl
  · rw [show t.findPermission ip = some t.perms.entries[i].1 from hfound, hplace]
    refine ⟨h.key, ?_, h.channels⟩
    rw [TimedTable.values_refresh ht.perms hi rfl, h.perms]
    exact (map_modify _ i (fun v => (v.1, now + kPermissionTimeout)) permission
      ({ · with due := now + kPermissionTimeout }) fun _ => rfl).symm

theorem Represents.bindChannel (h : Represents t a) (ht : t.Inv)
    (hc : channelAt ∉ t.channels.addresses) (id : Nat) (peer : SocketAddress) :
    Represents (t.bindChannel now channelAt id peer (t.findChannelId id))
      (a.bindChannel now id peer (a.findChannelId id)) := by
  unfold Allocation.findChannelId
  rw [h.findChannel _ (·.id == id) fun _ => rfl]
  rcases t.channels.find?_place (·.id == id) with ⟨hnone, hplace⟩ | ⟨i, hi, hplace, hfound⟩
  · rw [show t.findChannelId id = none from hnone, hplace]
    refine ⟨h.key, h.perms, ?_⟩
    simp only [Allocation.bindChannel, Tables.bindChannel]
    rw [TimedTable.values_add hc, List.map_append, ← h.channels]
    rfl
  · rw [show t.findChannelId id = some t.channels.entries[i].1 from hfound, hplace]
    refine ⟨h.key, h.perms, ?_⟩
    simp only [Allocation.bindChannel, Tables.bindChannel]
    rw [TimedTable.values_refresh ht.channels hi rfl, h.channels]
    exact (map_modify _ i (fun v => (v.1, now + kChannelTimeout)) channel
      ({ · with due := now + kChannelTimeout }) fun _ => rfl).symm

/-- Two pointers are equal when the objects they were found as are at the same place. -/
theorem Represents.findChannel_eq_iff (h : Represents t a) (ht : t.Inv) (id : Nat)
    (peer : SocketAddress) :
    t.findChannelId id = t.findChannelPeer peer ↔ a.findChannelId id = a.findChannelPeer peer := by
  unfold Allocation.findChannelId Allocation.findChannelPeer
  rw [h.findChannel _ (·.id == id) fun _ => rfl, h.findChannel _ (·.peer == peer) fun _ => rfl]
  rcases t.channels.find?_place (·.id == id) with ⟨hid, hidx⟩ | ⟨i, hi, hidx, hid⟩ <;>
    rcases t.channels.find?_place (·.peer == peer) with ⟨hpeer, hpidx⟩ | ⟨j, hj, hpidx, hpeer⟩ <;>
    simp only [findChannelId, findChannelPeer, hid, hpeer, hidx, hpidx, Option.some.injEq,
      reduceCtorEq]
  have hil : i < t.channels.addresses.length := by simpa [TimedTable.addresses] using hi
  have hjl : j < t.channels.addresses.length := by simpa [TimedTable.addresses] using hj
  have hinj : t.channels.addresses[i] = t.channels.addresses[j] ↔ i = j :=
    ht.channels.objects.getElem_inj_iff
  simpa only [TimedTable.addresses, List.getElem_map] using hinj

/-- The handlers without the addresses are those of the allocation. -/
theorem Represents.handleTurnMessage (h : Represents t a) (ht : t.Inv)
    (hc : channelAt ∉ t.channels.addresses) (hp : permAt ∉ t.perms.addresses) :
    Represents (t.handleTurnMessage env now channelAt permAt msg)
      (a.handleTurnMessage env now msg).state := by
  unfold Tables.handleTurnMessage Allocation.handleTurnMessage
  by_cases hcreate : msg.type = turnCreatePermissionRequest
  · rw [if_pos hcreate, hcreate, if_neg (by decide), if_neg (by decide), if_neg (by decide),
      if_pos rfl]
    unfold handleCreatePermissionRequest Allocation.handleCreatePermissionRequest
    cases msg.getAddress attrXorPeerAddress with
    | none => exact h
    | some peer => exact h.addPermission ht hp peer.ip
  · rw [if_neg hcreate]
    by_cases hbind : msg.type = turnChannelBindRequest
    · rw [if_pos hbind, hbind, if_neg (by decide), if_neg (by decide), if_neg (by decide),
        if_neg (by decide), if_pos rfl]
      unfold handleChannelBindRequest Allocation.handleChannelBindRequest
      cases msg.getUInt32 attrChannelNumber with
      | none => exact h
      | some number =>
        cases msg.getAddress attrXorPeerAddress with
        | none => exact h
        | some peer =>
          dsimp only
          split
          · exact h
          · rename_i hrange
            rw [not_or] at hrange
            have hsame := h.findChannel_eq_iff ht (number.toNat / 65536) peer
            by_cases heq : t.findChannelId (number.toNat / 65536) = t.findChannelPeer peer
            · rw [if_neg (not_not_intro heq), if_neg (not_not_intro (hsame.1 heq))]
              exact (h.bindChannel ht hc _ peer).addPermission
                (ht.bindChannel hc (Nat.not_lt.1 hrange.1) (Nat.not_lt.1 hrange.2) heq)
                (by simpa using hp) peer.ip
            · rw [if_pos heq, if_pos fun hc => heq (hsame.2 hc)]
              exact h
    · rw [if_neg hbind, if_neg hcreate, if_neg hbind]
      split
      · exact ⟨h.key, h.perms, h.channels⟩
      · split
        · exact ⟨h.key, h.perms, h.channels⟩
        · split
          · unfold Allocation.handleSendIndication
            split <;> exact h
          · exact h

theorem Represents.find_channel (h : Represents t a) (f : Channel → Bool) (g : Binding → Bool)
    (hfg : ∀ v, f (channel v) = g v.1) :
    a.channels.find? f = (t.channels.entries.find? fun e => g e.2).map fun e =>
      channel (e.2, TimedTable.due t.channels.queue e.1) := by
  rw [h.channels, TimedTable.values, List.map_map, List.find?_map]
  congr 2
  funext e
  exact hfg _

theorem Represents.handleChannelData (h : Represents t a) (data : Bytes) :
    t.handleChannelData data = a.handleChannelData data := by
  rw [Tables.handleChannelData, Allocation.handleChannelData,
    h.find_channel _ (·.id == rd16 data 0) fun _ => rfl]
  cases t.channels.entries.find? fun e => e.2.id == rd16 data 0 with
  | none => rfl
  | some c => rfl

theorem Represents.onExternalPacket (h : Represents t a) (addr : SocketAddress) (data : Bytes) :
    t.onExternalPacket addr data = a.onExternalPacket addr data := by
  have hpermission : (t.findPermission addr.ip).isSome = a.hasPermission addr.ip := by
    rw [Allocation.hasPermission, h.perms, TimedTable.values, List.any_map, List.any_map]
    simp only [Tables.findPermission, TimedTable.find?, Option.isSome_map,
      Function.comp_def, permission]
    rw [Bool.eq_iff_iff, List.any_eq_true]
    simp
  rw [Tables.onExternalPacket, Allocation.onExternalPacket,
    h.find_channel _ (·.peer == addr) fun _ => rfl, hpermission]
  cases t.channels.entries.find? fun e => e.2.peer == addr with
  | none => rfl
  | some c => rfl

end Tables

namespace TablesAt

variable {env : Env} {s s' : TablesAt} {ev : TablesEvent}

theorem inv_next (h : s.tables.Inv) (hs : s.next env ev = some s') : s'.tables.Inv := by
  cases ev with
  | message msg channelAt permAt =>
    simp only [next] at hs
    split at hs
    · cases hs
    · rename_i hnew
      rw [not_or] at hnew
      cases hs
      exact h.handleTurnMessage hnew.1 hnew.2
  | permissionTimeout p =>
    simp only [next] at hs
    split at hs
    · cases hs
      exact h.destroyPermission p
    · cases hs
  | channelTimeout c =>
    simp only [next] at hs
    split at hs
    · cases hs
      exact h.destroyChannel c
    · cases hs
  | tick now =>
    simp only [next] at hs
    split at hs
    · cases hs
      exact h
    · cases hs

theorem system_inductive (env : Env) : (system env).Inductive fun s => s.tables.Inv where
  init s h := by
    obtain ⟨hperms, hchannels⟩ := h
    constructor
    · rw [hchannels]
      exact TimedTable.sound_empty
    · rw [hperms]
      exact TimedTable.sound_empty
    · rw [hchannels]
      exact fun _ hc => nomatch hc
    · rw [hchannels]
      exact List.nodup_nil
    · rw [hchannels]
      exact List.nodup_nil
    · rw [hperms]
      exact List.nodup_nil
  step _ _ _ h hs := inv_next h hs

/-- Of every run. -/
theorem channel_table (hr : (system env).Reachable s) : s.tables.PartialBijection env :=
  ((system_inductive env).reachable s hr).partialBijection

/-! ## Two peers on two channels, one of them on both -/

def bindRequest (number : UInt32) (ip : UInt32) : StunMessage where
  type := turnChannelBindRequest
  attrs := [.uint32 attrChannelNumber number, .xorAddress attrXorPeerAddress ⟨.ipv4 ip, 9⟩]

/-- The third request is refused, the first channel expires, and its number is bound again. -/
def bindings : List TablesEvent := [
  .message (bindRequest 0x40000000 1) 1 1,
  .tick 1000,
  .message (bindRequest 0x40010000 2) 2 2,
  .message (bindRequest 0x40000000 2) 3 3,
  .tick 600000,
  .channelTimeout 1,
  .message (bindRequest 0x40000000 3) 1 3]

theorem bindings_run : (bindings.foldlM (next ServerAt.zeroEnv) {}).isSome = true := by
  decide

def rebound : TablesAt := (bindings.foldlM (next ServerAt.zeroEnv) {}).get bindings_run

theorem rebound_channel_table :
    (system ServerAt.zeroEnv).Reachable rebound ∧
      rebound.tables.channels.entries =
        [(2, ⟨0x4001, ⟨.ipv4 2, 9⟩⟩), (1, ⟨0x4000, ⟨.ipv4 3, 9⟩⟩)] ∧
        rebound.tables.PartialBijection ServerAt.zeroEnv := by
  have hr : (system ServerAt.zeroEnv).Reachable rebound :=
    ⟨{}, bindings, ⟨rfl, rfl⟩, LTS.Run.of_foldlM (Option.some_get bindings_run).symm⟩
  exact ⟨hr, by decide, channel_table hr⟩

end TablesAt
end RtcCore.L4.Turn
