import RtcCore.Core.LTS
import RtcCore.L4P2p.TurnServer

/-!
# Relaying needs a live permission

An allocation against a clock of milliseconds. A posted message is delivered
at its due time, so the clock does not pass the due time of a timer that is
still there. A send indication and a packet without a channel are relayed only
under a permission; channel data and a packet from a bound address go by the
channel alone, and a channel lives twice as long as the permission its binding
created.

Results:
- `relayed_under_permission`: in every run in which a channel is used only
  while there is a permission for its peer, whatever is relayed is relayed within
  `kPermissionTimeout` of a request that created or refreshed the permission.
- `channel_outlives_permission`: channel data relayed after it has expired.
-/
namespace RtcCore.L4.Turn

open Bytes L1.Stun

/-- An allocation at a time, with the permissions requests have created or refreshed so far and
when they did. -/
structure Relay where
  alloc : Allocation
  now : Nat := 0
  granted : List (IPAddress × Nat) := []
  deriving DecidableEq

inductive RelayEvent where
  | message (msg : StunMessage)
  | channelData (data : Bytes)
  | external (addr : SocketAddress) (data : Bytes)
  | permissionTimeout (i : Nat)
  | channelTimeout (i : Nat)
  | tick (now : Nat)
  deriving DecidableEq

namespace Relay

def Grant.peer? : Grant → Option IPAddress
  | .permission ip => some ip
  | _ => none

variable (env : Env) (s : Relay)

/-- The due times of the timers that are there. -/
def dues : List Nat :=
  s.alloc.perms.map (·.due) ++ s.alloc.channels.map (·.due) ++ s.alloc.timers

/-- What an event makes the allocation send. -/
def sends : RelayEvent → List Output
  | .message msg => (s.alloc.handleTurnMessage env s.now msg).out
  | .channelData data => s.alloc.handleChannelData data
  | .external addr data => s.alloc.onExternalPacket addr data
  | _ => []

/-- When the timer of the allocation itself is due the object is gone.
mirrors webrtc/p2p/base/turnserver.cc:884-900, 918-922, 939-943 -/
def next : RelayEvent → Option Relay
  | .message msg =>
    let r := s.alloc.handleTurnMessage env s.now msg
    some { s with
      alloc := r.state
      granted := s.granted ++ (r.grants.filterMap Grant.peer?).map ((·, s.now)) }
  | .channelData _ | .external _ _ => some s
  | .permissionTimeout i =>
    match s.alloc.perms[i]? with
    | some p =>
      if p.due = s.now then
        some { s with alloc := { s.alloc with perms := s.alloc.perms.eraseIdx i } }
      else none
    | none => none
  | .channelTimeout i =>
    match s.alloc.channels[i]? with
    | some c =>
      if c.due = s.now then
        some { s with alloc := { s.alloc with channels := s.alloc.channels.eraseIdx i } }
      else none
    | none => none
  | .tick now => if s.now < now ∧ s.dues.all (now ≤ ·) then some { s with now } else none

/-- A permission for the address was created or refreshed not longer ago than it lasts. -/
def Live (ip : IPAddress) : Prop :=
  ∃ t, (ip, t) ∈ s.granted ∧ t ≤ s.now ∧ s.now ≤ t + kPermissionTimeout

/-- Nothing the event makes the allocation relay, to a peer or from one, is relayed without. -/
def RelaysUnderPermission (ev : RelayEvent) : Prop :=
  (∀ data peer, .toPeer data peer ∈ s.sends env ev → s.Live peer.ip) ∧
    ∀ addr data, ev = .external addr data → s.sends env ev ≠ [] → s.Live addr.ip

/-- The channel the event goes through, if it does, has a peer with a permission. -/
def ChannelPermitted : RelayEvent → Prop
  | .channelData data => ∀ c ∈ s.alloc.channels.find? (·.id == rd16 data 0),
      s.alloc.hasPermission c.peer.ip = true
  | .external addr _ => ∀ c ∈ s.alloc.channels.find? (·.peer == addr),
      s.alloc.hasPermission addr.ip = true
  | _ => True

/-- The runs of a new allocation. -/
def relay : LTS Relay RelayEvent :=
  .ofFn (fun s => s.alloc.perms = [] ∧ s.alloc.channels = [] ∧ s.granted = []) (next env)

def permittedRelay : LTS Relay RelayEvent := (relay env).within ChannelPermitted

/-! ## Permissions and what granted them -/

variable {env s} {ev : RelayEvent} {now : Nat} {a : Allocation} {msg : StunMessage}

theorem addPermission_perms {ip : IPAddress} {p : Permission}
    (h : p ∈ (a.addPermission now ip).perms) :
    p ∈ a.perms ∨ (p.peer = ip ∧ p.due = now + kPermissionTimeout) := by
  unfold Allocation.addPermission at h
  split at h
  · rcases List.mem_append.1 h with h | h
    · exact .inl h
    · rw [List.mem_singleton.1 h]
      exact .inr ⟨rfl, rfl⟩
  · rename_i i hi
    obtain ⟨hlt, hpeer, -⟩ := List.findIdx?_eq_some_iff_getElem.1 hi
    obtain ⟨j, hj, rfl⟩ := List.getElem_of_mem h
    rw [List.length_modify] at hj
    simp only [List.getElem_modify]
    by_cases hij : i = j
    · subst hij
      rw [if_pos rfl]
      exact .inr ⟨eq_of_beq hpeer, rfl⟩
    · rw [if_neg hij]
      exact .inl (List.getElem_mem _)

/-- A permission is there as before, or a request has just granted it. -/
theorem handleTurnMessage_perms {p : Permission}
    (h : p ∈ (a.handleTurnMessage env now msg).state.perms) :
    p ∈ a.perms ∨ (.permission p.peer ∈ (a.handleTurnMessage env now msg).grants ∧
      p.due = now + kPermissionTimeout) := by
  unfold Allocation.handleTurnMessage at h ⊢
  split at h
  · exact .inl h
  split at h
  · exact .inl h
  split at h
  · unfold Allocation.handleSendIndication at h
    split at h <;> exact .inl h
  split at h
  · rename_i hcreate
    rw [if_neg ‹_›, if_neg ‹_›, if_neg ‹_›, if_pos hcreate]
    unfold Allocation.handleCreatePermissionRequest at h ⊢
    cases hpeer : msg.getAddress attrXorPeerAddress with
    | none =>
      rw [hpeer] at h
      exact .inl h
    | some peer =>
      rw [hpeer] at h
      rcases addPermission_perms h with h | ⟨hp, hd⟩
      · exact .inl h
      · exact .inr ⟨List.mem_singleton.2 (congrArg Grant.permission hp), hd⟩
  split at h
  · rename_i hbind
    rw [if_neg ‹_›, if_neg ‹_›, if_neg ‹_›, if_neg ‹_›, if_pos hbind]
    unfold Allocation.handleChannelBindRequest at h ⊢
    cases hnum : msg.getUInt32 attrChannelNumber with
    | none =>
      rw [hnum] at h
      exact .inl h
    | some number =>
      cases hpeer : msg.getAddress attrXorPeerAddress with
      | none =>
        rw [hnum, hpeer] at h
        exact .inl h
      | some peer =>
        rw [hnum, hpeer] at h
        dsimp only at h ⊢
        by_cases hrange : number.toNat / 65536 < kMinChannelNumber ∨
            number.toNat / 65536 > kMaxChannelNumber
        · rw [if_pos hrange] at h
          exact .inl h
        · rw [if_neg hrange] at h ⊢
          by_cases hfind : a.findChannelId (number.toNat / 65536) ≠ a.findChannelPeer peer
          · rw [if_pos hfind] at h
            exact .inl h
          · rw [if_neg hfind] at h ⊢
            have hbound : ∀ o, (a.bindChannel now (number.toNat / 65536) peer o).perms = a.perms := by
              intro o
              cases o with
              | none => rfl
              | some i => rfl
            rcases addPermission_perms h with h | ⟨hp, hd⟩
            · rw [hbound] at h
              exact .inl h
            · exact .inr ⟨List.mem_cons_of_mem _
                (List.mem_singleton.2 (congrArg Grant.permission hp)), hd⟩
  · exact .inl h

/-- Only a permission lets a message through to a peer. -/
theorem handleTurnMessage_toPeer {data : Bytes} {peer : SocketAddress}
    (h : .toPeer data peer ∈ (a.handleTurnMessage env now msg).out) :
    a.hasPermission peer.ip = true := by
  have hstun : ∀ {m : StunMessage} {k : Option Bytes}, Output.toPeer data peer ≠ .stun m k :=
    fun hc => nomatch hc
  have herr : ∀ {code : Nat} {reason : String} {attrs : List StunAttribute},
      .toPeer data peer ≠ sendErrorResponse env msg code reason attrs := by
    intro code reason attrs hc
    unfold sendErrorResponse at hc
    split at hc <;> exact hstun hc
  unfold Allocation.handleTurnMessage at h
  split at h
  · exact absurd (List.mem_singleton.1 h) hstun
  split at h
  · exact absurd (List.mem_singleton.1 h) hstun
  split at h
  · unfold Allocation.handleSendIndication at h
    split at h
    · dsimp only at h
      split at h
      · rename_i hp
        cases List.mem_singleton.1 h
        exact hp
      · cases h
    · cases h
  split at h
  · unfold Allocation.handleCreatePermissionRequest at h
    split at h
    · exact absurd (List.mem_singleton.1 h) herr
    · exact absurd (List.mem_singleton.1 h) hstun
  split at h
  · unfold Allocation.handleChannelBindRequest at h
    split at h
    · dsimp only at h
      split at h
      · exact absurd (List.mem_singleton.1 h) herr
      · split at h
        · exact absurd (List.mem_singleton.1 h) herr
        · exact absurd (List.mem_singleton.1 h) hstun
    · exact absurd (List.mem_singleton.1 h) herr
  · cases h

/-! ## Runs -/

/-- Every permission was granted when its timer was set, which is not overdue. -/
def Inv (s : Relay) : Prop :=
  ∀ p ∈ s.alloc.perms, s.now ≤ p.due ∧
    ∃ t, (p.peer, t) ∈ s.granted ∧ t ≤ s.now ∧ p.due = t + kPermissionTimeout

theorem Inv.live (h : Inv s) {ip : IPAddress} (hp : s.alloc.hasPermission ip = true) :
    s.Live ip := by
  obtain ⟨p, hp, heq⟩ := List.any_eq_true.1 hp
  obtain ⟨hdue, t, hg, ht, hd⟩ := h p hp
  rw [eq_of_beq heq] at hg
  exact ⟨t, hg, ht, by omega⟩

theorem inv_next {s' : Relay} (h : Inv s) (hs : next env s ev = some s') : Inv s' := by
  cases ev with
  | message msg =>
    cases hs
    intro p hp
    rcases handleTurnMessage_perms hp with hp | ⟨hg, hd⟩
    · obtain ⟨hdue, t, hg, ht, hd⟩ := h p hp
      exact ⟨hdue, t, List.mem_append_left _ hg, ht, hd⟩
    · refine ⟨by rw [hd]; exact Nat.le_add_right _ _, s.now, List.mem_append_right _ ?_,
        Nat.le_refl _, hd⟩
      exact List.mem_map.2 ⟨p.peer, List.mem_filterMap.2 ⟨_, hg, rfl⟩, rfl⟩
  | channelData data =>
    cases hs
    exact h
  | external addr data =>
    cases hs
    exact h
  | permissionTimeout i =>
    simp only [next] at hs
    split at hs
    · split at hs
      · cases hs
        exact fun p hp => h p ((List.eraseIdx_sublist _ i).subset hp)
      · cases hs
    · cases hs
  | channelTimeout i =>
    simp only [next] at hs
    split at hs
    · split at hs
      · cases hs
        exact h
      · cases hs
    · cases hs
  | tick now =>
    simp only [next] at hs
    split at hs
    · rename_i hc
      cases hs
      intro p hp
      obtain ⟨-, t, hg, ht, hd⟩ := h p hp
      have hmem : p.due ∈ s.dues :=
        List.mem_append_left _ (List.mem_append_left _ (List.mem_map.2 ⟨p, hp, rfl⟩))
      have hall := of_decide_eq_true (List.all_eq_true.1 hc.2 p.due hmem)
      exact ⟨hall, t, hg, Nat.le_of_lt (Nat.lt_of_le_of_lt ht hc.1), hd⟩
    · cases hs

theorem permittedRelay_inductive (env : Env) : (permittedRelay env).Inductive Inv where
  init s h := by
    intro p hp
    rw [h.1] at hp
    cases hp
  step s ev s' h hs := inv_next h hs.2

theorem relayed_under_permission (hr : (permittedRelay env).Reachable s)
    (hc : s.ChannelPermitted ev) : s.RelaysUnderPermission env ev := by
  have h := (permittedRelay_inductive env).reachable s hr
  refine ⟨fun data peer ho => ?_, fun addr data he ho => ?_⟩
  · cases ev with
    | message msg => exact h.live (handleTurnMessage_toPeer ho)
    | channelData data' =>
      change _ ∈ s.alloc.handleChannelData data' at ho
      unfold Allocation.handleChannelData at ho
      split at ho
      · rename_i c hf
        cases List.mem_singleton.1 ho
        exact h.live (hc c hf)
      · cases ho
    | external addr data' =>
      change _ ∈ s.alloc.onExternalPacket addr data' at ho
      unfold Allocation.onExternalPacket at ho
      split at ho
      · cases List.mem_singleton.1 ho
      · split at ho
        · cases List.mem_singleton.1 ho
        · cases ho
    | permissionTimeout i => cases ho
    | channelTimeout i => cases ho
    | tick now => cases ho
  · subst he
    change s.alloc.onExternalPacket addr data ≠ [] at ho
    unfold Allocation.onExternalPacket at ho
    split at ho
    · rename_i c hf
      exact h.live (hc c hf)
    · split at ho
      · rename_i hp
        exact h.live hp
      · exact absurd rfl ho

/-! ## A channel without a permission -/

def plainEnv : Env := { hmac := fun _ _ => [], hmacMd5 := fun _ _ => [], authHook := none }

def peerAddress : SocketAddress := ⟨.ipv4 0x0A000001, 9⟩

def newRelay : Relay where
  alloc := { conn := ⟨⟨.ipv4 0x0A000002, 1⟩, ⟨.unspec, 0⟩, .udp⟩, external := ⟨.ipv4 0x0A000003, 2⟩,
             key := [1] }

/-- Allocate for ten minutes and bind channel 0x4000. -/
def bindEvents : List RelayEvent := [
  .message { type := stunAllocateRequest, attrs := [.byteString attrUsername [7]] },
  .message { type := turnChannelBindRequest
             attrs := [.uint32 attrChannelNumber 0x40000000,
               .xorAddress attrXorPeerAddress peerAddress] }]

theorem newRelay_init : (permittedRelay plainEnv).init newRelay := ⟨rfl, rfl, rfl⟩

theorem bindEvents_run : (bindEvents.foldlM (next plainEnv) newRelay).isSome = true := by
  decide

def boundRelay : Relay := (bindEvents.foldlM (next plainEnv) newRelay).get bindEvents_run

/-- Right behind the binding both directions are open. -/
theorem bound_relays_under_permission : (permittedRelay plainEnv).Reachable boundRelay ∧
    boundRelay.sends plainEnv (.channelData [0x40, 0, 0, 1, 5]) = [.toPeer [5] peerAddress] ∧
    boundRelay.RelaysUnderPermission plainEnv (.channelData [0x40, 0, 0, 1, 5]) := by
  have hr : (permittedRelay plainEnv).Reachable boundRelay :=
    ⟨newRelay, bindEvents, newRelay_init, .cons ⟨trivial, rfl⟩ <| .cons ⟨trivial, rfl⟩ <| .nil _⟩
  have hp : boundRelay.ChannelPermitted (.channelData [0x40, 0, 0, 1, 5]) := by
    change ∀ c ∈ List.find? _ _, _
    decide
  exact ⟨hr, by decide, relayed_under_permission hr hp⟩

/-- Five minutes after the binding the permission is gone and the channel is not. -/
def expiredEvents : List RelayEvent :=
  bindEvents ++ [.tick 300000, .permissionTimeout 0, .tick 300001]

theorem expiredEvents_run : (expiredEvents.foldlM (next plainEnv) newRelay).isSome = true := by
  decide

def expiredRelay : Relay := (expiredEvents.foldlM (next plainEnv) newRelay).get expiredEvents_run

theorem channel_outlives_permission : (relay plainEnv).Reachable expiredRelay ∧
    expiredRelay.sends plainEnv (.channelData [0x40, 0, 0, 1, 5]) = [.toPeer [5] peerAddress] ∧
    expiredRelay.sends plainEnv (.external peerAddress [6]) = [.channelMessage 0x4000 [6]] ∧
    ¬expiredRelay.RelaysUnderPermission plainEnv (.channelData [0x40, 0, 0, 1, 5]) := by
  have hr : (relay plainEnv).Reachable expiredRelay :=
    ⟨newRelay, expiredEvents, ⟨rfl, rfl, rfl⟩,
      LTS.Run.of_foldlM (Option.some_get expiredEvents_run).symm⟩
  have hgranted : expiredRelay.granted = [(peerAddress.ip, 0)] := by decide
  have hnow : expiredRelay.now = 300001 := by decide
  refine ⟨hr, by decide, by decide, fun hc => ?_⟩
  obtain ⟨t, hg, -, ht⟩ := hc.1 [5] peerAddress (by decide)
  rw [hgranted] at hg
  rw [hnow] at ht
  cases List.mem_singleton.1 hg
  exact absurd ht (by decide)

end Relay

end RtcCore.L4.Turn
