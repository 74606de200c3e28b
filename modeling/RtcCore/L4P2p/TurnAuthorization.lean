import RtcCore.Core.LTS
import RtcCore.L1Wire.StunIntegrity
import RtcCore.L4P2p.TurnServer

/-!
# A TURN server creates and refreshes for authorized requests only

A server against a clock, with client packets of any octets from any connection,
peer packets and timers. `NothingNew` says of a step that it created and
refreshed nothing, `Authorized` of a packet that it is a request of the user the
allocation belongs to, checked under the key of that user.

Results:
- `step_authorized`: every step that creates or refreshes something handles
  such a request, and keeps every key the one the hook has for the user.
-/
namespace RtcCore.L4.Turn

open Bytes L1.Stun

/-- `a'` is `a` with nothing new. -/
structure Allocation.Within (a' a : Allocation) : Prop where
  conn : a'.conn = a.conn
  key : a'.key = a.key
  username : a'.username = a.username
  perms : ∀ p ∈ a'.perms, p ∈ a.perms
  channels : ∀ c ∈ a'.channels, c ∈ a.channels
  timers : ∀ t ∈ a'.timers, t ∈ a.timers

theorem Allocation.Within.refl (a : Allocation) : a.Within a :=
  ⟨rfl, rfl, rfl, fun _ h => h, fun _ h => h, fun _ h => h⟩

namespace Server

variable {env : Env} {now : Nat} {s s' : Server} {a b : Allocation} {conn : Connection}
  {msg : StunMessage} {data key : Bytes} {external : Option SocketAddress}

/-! ## Lookup and update -/

theorem findAllocation_mem (h : s.findAllocation conn = some a) :
    a ∈ s.allocations ∧ a.conn = conn :=
  ⟨List.mem_of_find?_eq_some h, by simpa using List.find?_some h⟩

theorem mem_put (h : b ∈ (s.put a).allocations) : b = a ∨ (b ∈ s.allocations ∧ b.conn ≠ a.conn) := by
  obtain ⟨c, hc, rfl⟩ := List.mem_map.1 h
  by_cases hconn : c.conn = a.conn
  · rw [if_pos hconn]
    exact .inl rfl
  · rw [if_neg hconn]
    exact .inr ⟨hc, hconn⟩

theorem findAllocation_put (h : s.findAllocation a.conn = some b) :
    (s.put a).findAllocation a.conn = some a := by
  obtain ⟨l⟩ := s
  change l.find? _ = some b at h
  change (l.map _).find? _ = some a
  induction l with
  | nil => cases h
  | cons c l ih =>
    rw [List.map_cons, List.find?_cons]
    by_cases hc : c.conn = a.conn
    · rw [if_pos hc]
      simp
    · have hne : (c.conn == a.conn) = false := beq_false_of_ne hc
      rw [List.find?_cons, hne] at h
      rw [if_neg hc, hne]
      exact ih h

/-! ## What a step may leave behind -/

/-- Nothing was created or refreshed. -/
def NothingNew (s s' : Server) : Prop :=
  ∀ a' ∈ s'.allocations, ∃ a ∈ s.allocations, a'.Within a

/-- The key of an allocation is the one the hook has for its user. -/
def KeyOfUser (env : Env) (a : Allocation) : Prop :=
  ∃ hook, env.authHook = some hook ∧ hook a.username = some a.key

def Keyed (env : Env) (s : Server) : Prop := ∀ a ∈ s.allocations, KeyOfUser env a

theorem NothingNew.refl (s : Server) : NothingNew s s := fun a ha => ⟨a, ha, .refl a⟩

theorem NothingNew.keyed (h : NothingNew s s') (hk : Keyed env s) : Keyed env s' := by
  intro a' ha'
  obtain ⟨a, ha, hw⟩ := h a' ha'
  obtain ⟨hook, h1, h2⟩ := hk a ha
  exact ⟨hook, h1, by rw [hw.username, hw.key]; exact h2⟩

theorem nothingNew_put (ha : a ∈ s.allocations) (hw : b.Within a) : NothingNew s (s.put b) := by
  intro c hc
  rcases mem_put hc with rfl | ⟨hc, -⟩
  · exact ⟨a, ha, hw⟩
  · exact ⟨c, hc, .refl c⟩

/-- The allocation of `conn` belongs to the user the message names, the other ones are as they
were. -/
structure ActsFor (env : Env) (conn : Connection) (msg : StunMessage) (key : Bytes)
    (s s' : Server) (a : Allocation) : Prop where
  found : s'.findAllocation conn = some a
  username : msg.getByteString attrUsername = some a.username
  key : a.key = key
  keyOfUser : KeyOfUser env a
  others : ∀ b ∈ s'.allocations, b = a ∨ (b ∈ s.allocations ∧ b.conn ≠ conn)

/-- The packet is a request that the integrity check accepts for the allocation's user, with a
valid nonce. -/
def Authorized (env : Env) (now : Nat) (conn : Connection) (data : Bytes) (s s' : Server) : Prop :=
  ∃ msg a nonce, StunMessage.read .turn data = some msg ∧ isStunRequestType msg.type = true ∧
    ActsFor env conn msg a.key s s' a ∧
    StunMessage.validateMessageIntegrity env.hmac data a.key = some true ∧
    msg.getByteString attrNonce = some nonce ∧ validateNonce env now nonce = true

/-! ## The handlers -/

/-- A handler that does something handles a request, and it keeps connection and key. -/
theorem handleTurnMessage_identity (env : Env) (now : Nat) (a : Allocation) (msg : StunMessage) :
    (a.handleTurnMessage env now msg).state.conn = a.conn ∧
      (a.handleTurnMessage env now msg).state.key = a.key ∧
      ((a.handleTurnMessage env now msg).state.username = a.username ∨
        (a.handleTurnMessage env now msg).state.username =
          (msg.getByteString attrUsername).getD []) := by
  have hperm : ∀ (c : Allocation) (ip : IPAddress), (c.addPermission now ip).conn = c.conn ∧
      (c.addPermission now ip).key = c.key ∧ (c.addPermission now ip).username = c.username := by
    intro c ip
    unfold Allocation.addPermission
    split
    · exact ⟨rfl, rfl, rfl⟩
    · exact ⟨rfl, rfl, rfl⟩
  have hbind : ∀ (id : Nat) (peer : SocketAddress) (o : Option Nat),
      (a.bindChannel now id peer o).conn = a.conn ∧ (a.bindChannel now id peer o).key = a.key ∧
        (a.bindChannel now id peer o).username = a.username := by
    intro id peer o
    cases o with
    | none => exact ⟨rfl, rfl, rfl⟩
    | some i => exact ⟨rfl, rfl, rfl⟩
  unfold Allocation.handleTurnMessage
  split
  · exact ⟨rfl, rfl, .inr rfl⟩
  split
  · exact ⟨rfl, rfl, .inl rfl⟩
  split
  · unfold Allocation.handleSendIndication
    split
    · exact ⟨rfl, rfl, .inl rfl⟩
    · exact ⟨rfl, rfl, .inl rfl⟩
  split
  · unfold Allocation.handleCreatePermissionRequest
    split
    · exact ⟨rfl, rfl, .inl rfl⟩
    · obtain ⟨h1, h2, h3⟩ := hperm a ‹SocketAddress›.ip
      exact ⟨h1, h2, .inl h3⟩
  split
  · unfold Allocation.handleChannelBindRequest
    split
    · rename_i number peer _ _
      dsimp only
      split
      · exact ⟨rfl, rfl, .inl rfl⟩
      · split
        · exact ⟨rfl, rfl, .inl rfl⟩
        · obtain ⟨h1, h2, h3⟩ := hperm (a.bindChannel now (number.toNat / 65536) peer
            (a.findChannelId (number.toNat / 65536))) peer.ip
          obtain ⟨g1, g2, g3⟩ := hbind (number.toNat / 65536) peer
            (a.findChannelId (number.toNat / 65536))
          exact ⟨h1.trans g1, h2.trans g2, .inl (h3.trans g3)⟩
    · exact ⟨rfl, rfl, .inl rfl⟩
  · exact ⟨rfl, rfl, .inl rfl⟩

theorem handleTurnMessage_other (h : isStunRequestType msg.type = false) :
    (a.handleTurnMessage env now msg).state = a ∧
      (a.handleTurnMessage env now msg).grants = [] := by
  have hne : ∀ t, isStunRequestType t = true → msg.type ≠ t := by
    intro t ht hc
    rw [hc, ht] at h
    cases h
  unfold Allocation.handleTurnMessage
  rw [if_neg (hne _ (by decide)), if_neg (hne _ (by decide))]
  split
  · unfold Allocation.handleSendIndication
    split
    · exact ⟨rfl, rfl⟩
    · exact ⟨rfl, rfl⟩
  · rw [if_neg (hne _ (by decide)), if_neg (hne _ (by decide))]
    exact ⟨rfl, rfl⟩

/-- What `CheckAuthorization` lets through. -/
theorem checkAuthorization_ok (h : s.checkAuthorization env now conn msg data key = .ok s') :
    (∃ username, msg.getByteString attrUsername = some username) ∧
      (∃ nonce, msg.getByteString attrNonce = some nonce ∧ validateNonce env now nonce = true) ∧
      key ≠ [] ∧ StunMessage.validateMessageIntegrity env.hmac data key = some true ∧
      ((s.findAllocation conn = none ∧ s' = s) ∨
        ∃ a nonce, s.findAllocation conn = some a ∧ s' = s.put { a with lastNonce := nonce }) := by
  unfold checkAuthorization at h
  split at h
  · cases h
  · rename_i mi username realm nonce hmi hu hr hn
    by_cases hnonce : validateNonce env now nonce = true
    · rw [hnonce, Bool.not_true, if_neg Bool.false_ne_true] at h
      by_cases hkey : key = [] ∨
          StunMessage.validateMessageIntegrity env.hmac data key ≠ some true
      · rw [if_pos hkey] at h
        cases h
      · rw [if_neg hkey] at h
        rw [not_or, Decidable.not_not] at hkey
        refine ⟨⟨username, hu⟩, ⟨nonce, hn, hnonce⟩, hkey.1, hkey.2, ?_⟩
        cases hf : s.findAllocation conn with
        | none =>
          rw [hf] at h
          cases h
          exact .inl ⟨rfl, rfl⟩
        | some a =>
          rw [hf] at h
          dsimp only at h
          split at h
          · cases h
          · cases h
            exact .inr ⟨a, nonce, rfl, rfl⟩
    · rw [Bool.eq_false_iff.2 hnonce, Bool.not_false, if_pos rfl] at h
      cases h
  · cases h

/-- What it does not let through is answered with an error. -/
theorem checkAuthorization_error {o : Output}
    (h : s.checkAuthorization env now conn msg data key = .error o) :
    ∃ code reason attrs, o = sendErrorResponse env msg code reason attrs := by
  have herror {code : Nat} {reason : String} {attrs : List StunAttribute}
      (he : Except.error (sendErrorResponse env msg code reason attrs) = (.error o : Except _ Server)) :
      ∃ code reason attrs, o = sendErrorResponse env msg code reason attrs := by
    cases he
    exact ⟨_, _, _, rfl⟩
  unfold checkAuthorization at h
  split at h
  · exact herror h
  · split at h
    · exact herror h
    · split at h
      · exact herror h
      · split at h
        · cases h
        · split at h
          · exact herror h
          · cases h
  · exact herror h

/-- Behind the authorization of a request. -/
theorem dispatch_request (hk : Keyed env s) {username : Bytes}
    (hu : msg.getByteString attrUsername = some username) (hne : key ≠ [])
    (hkey : key = s.lookUpKey env conn msg) (hreq : isStunRequestType msg.type = true) :
    (s.dispatch env now conn msg key external).state = s ∧
        (s.dispatch env now conn msg key external).grants = [] ∨
      ∃ a, ActsFor env conn msg key s (s.dispatch env now conn msg key external).state a := by
  unfold dispatch
  cases hf : s.findAllocation conn with
  | none =>
    rw [lookUpKey, hf] at hkey
    dsimp only at hkey ⊢
    by_cases ht : msg.type = stunAllocateRequest
    · rw [if_pos ht]
      unfold handleAllocateRequest
      split
      · exact .inl ⟨rfl, rfl⟩
      · split
        · exact .inl ⟨rfl, rfl⟩
        · split
          · exact .inl ⟨rfl, rfl⟩
          · rename_i external'
            -- the new allocation stands last, under a connection that had none
            refine .inr ⟨(({ conn, external := external', key } : Allocation).handleTurnMessage env now
              msg).state, ?_⟩
            obtain ⟨h1, h2, -⟩ := handleTurnMessage_identity env now
              ({ conn, external := external', key } : Allocation) msg
            have h3 : (({ conn, external := external', key } : Allocation).handleTurnMessage env now
                msg).state.username = username := by
              rw [Allocation.handleTurnMessage, if_pos ht]
              change (msg.getByteString attrUsername).getD [] = username
              rw [hu]
              rfl
            refine ⟨?_, by rw [hu, h3], h2, ?_, fun b hb => ?_⟩
            · have hnone := hf
              unfold findAllocation at hnone ⊢
              rw [List.find?_append, hnone, Option.none_or, List.find?_cons]
              rw [show ((({ conn, external := external', key } : Allocation).handleTurnMessage env
                now msg).state.conn == conn) = true from beq_iff_eq.2 h1]
            · rw [getKey, hu] at hkey
              cases hh : env.authHook with
              | none =>
                rw [hh] at hkey
                exact absurd hkey hne
              | some hook =>
                rw [hh] at hkey
                dsimp only at hkey
                refine ⟨hook, hh, ?_⟩
                rw [h2, h3]
                cases hk' : hook username with
                | none =>
                  rw [hk'] at hkey
                  exact absurd hkey hne
                | some k =>
                  rw [hk'] at hkey
                  exact congrArg some hkey.symm
            · rcases List.mem_append.1 hb with hb | hb
              · refine .inr ⟨hb, fun hc => ?_⟩
                exact absurd (beq_iff_eq.2 hc) (List.find?_eq_none.1 hf b hb)
              · exact .inl (List.mem_singleton.1 hb)
    · rw [if_neg ht]
      exact .inl ⟨rfl, rfl⟩
  | some a =>
    rw [lookUpKey, hf] at hkey
    dsimp only at hkey ⊢
    split
    · split
      · exact .inl ⟨rfl, rfl⟩
      · rename_i hname
        have hname : msg.getByteString attrUsername = some a.username :=
          Decidable.not_not.1 fun hc => hname ⟨hreq, hc⟩
        obtain ⟨hmem, hconn⟩ := findAllocation_mem hf
        obtain ⟨h1, h2, h3⟩ := handleTurnMessage_identity env now a msg
        have h3 : (a.handleTurnMessage env now msg).state.username = a.username := by
          rcases h3 with h3 | h3
          · exact h3
          · rw [h3, hname]
            rfl
        refine .inr ⟨(a.handleTurnMessage env now msg).state, ?_, by rw [hname, h3],
          h2.trans hkey.symm, ?_, fun b hb => ?_⟩
        · rw [← hconn, ← h1]
          refine findAllocation_put (b := a) ?_
          rw [h1, hconn]
          exact hf
        · obtain ⟨hook, hh, hk'⟩ := hk a hmem
          exact ⟨hook, hh, by rw [h3, h2]; exact hk'⟩
        · rcases mem_put hb with hb | ⟨hb, hbc⟩
          · exact .inl hb
          · rw [h1, hconn] at hbc
            exact .inr ⟨hb, hbc⟩
    · exact .inl ⟨rfl, rfl⟩

/-- Without a request behind it nothing is done. -/
theorem dispatch_other (h : isStunRequestType msg.type = false) :
    NothingNew s (s.dispatch env now conn msg key external).state ∧
      (s.dispatch env now conn msg key external).grants = [] := by
  have hne : msg.type ≠ stunAllocateRequest := by
    intro hc
    rw [hc] at h
    exact absurd h (by decide)
  unfold dispatch
  cases hf : s.findAllocation conn with
  | none =>
    dsimp only
    rw [if_neg hne]
    exact ⟨.refl s, rfl⟩
  | some a =>
    dsimp only
    rw [if_pos (.inl hne), if_neg fun hc => Bool.false_ne_true (h.symm.trans hc.1)]
    have hother : (a.handleTurnMessage env now msg).state = a ∧
        (a.handleTurnMessage env now msg).grants = [] := handleTurnMessage_other h
    obtain ⟨h1, h2⟩ := hother
    refine ⟨?_, h2⟩
    dsimp only
    rw [h1]
    exact nothingNew_put (findAllocation_mem hf).1 (.refl a)

/-- The server behind `CheckAuthorization`. -/
theorem checked_server (h : (s.findAllocation conn = none ∧ s' = s) ∨
    ∃ a nonce, s.findAllocation conn = some a ∧ s' = s.put { a with lastNonce := nonce }) :
    NothingNew s s' ∧ (s'.findAllocation conn).map (·.key) = (s.findAllocation conn).map (·.key) ∧
      ∀ b ∈ s'.allocations, b.conn ≠ conn → b ∈ s.allocations := by
  rcases h with ⟨-, rfl⟩ | ⟨a, nonce, hf, rfl⟩
  · exact ⟨.refl _, rfl, fun b hb _ => hb⟩
  · obtain ⟨hmem, hconn⟩ := findAllocation_mem hf
    refine ⟨nothingNew_put hmem ⟨rfl, rfl, rfl, fun _ h => h, fun _ h => h, fun _ h => h⟩, ?_,
      fun b hb hbc => ?_⟩
    · have hput : (s.put { a with lastNonce := nonce }).findAllocation conn =
          some { a with lastNonce := nonce } := by
        rw [← hconn]
        exact findAllocation_put (b := a) (by rw [← hf, ← hconn])
      rw [hput, hf]
      rfl
    · rcases mem_put hb with rfl | ⟨hb, -⟩
      · exact absurd hconn hbc
      · exact hb

theorem handleStunMessage_authorized (hk : Keyed env s) :
    Keyed env (s.handleStunMessage env now conn data external).state ∧
      ((NothingNew s (s.handleStunMessage env now conn data external).state ∧
          (s.handleStunMessage env now conn data external).grants = []) ∨
        Authorized env now conn data s (s.handleStunMessage env now conn data external).state) := by
  unfold handleStunMessage
  split
  · exact ⟨hk, .inl ⟨.refl s, rfl⟩⟩
  · rename_i msg hread
    split
    · exact ⟨hk, .inl ⟨.refl s, rfl⟩⟩
    · split
      · exact ⟨hk, .inl ⟨.refl s, rfl⟩⟩
      · dsimp only
        split
        · rename_i hreq
          split
          · exact ⟨hk, .inl ⟨.refl s, rfl⟩⟩
          · rename_i s' hok
            obtain ⟨⟨username, hu⟩, ⟨nonce, hn, hvalid⟩, hne, hmi, hserver⟩ :=
              checkAuthorization_ok hok
            obtain ⟨hnew, hkeys, hothers⟩ := checked_server hserver
            have hkey : s.lookUpKey env conn msg = s'.lookUpKey env conn msg := by
              unfold lookUpKey
              cases h1 : s.findAllocation conn with
              | none =>
                rw [h1] at hkeys
                rw [Option.map_eq_none_iff.1 hkeys]
              | some a =>
                rw [h1] at hkeys
                obtain ⟨a', ha', hka⟩ := Option.map_eq_some_iff.1 hkeys
                rw [ha']
                exact hka.symm
            have hdispatch := @dispatch_request env now s' conn msg _ external (hnew.keyed hk) _ hu
              hne hkey hreq
            rcases hdispatch with ⟨hst, hg⟩ | ⟨a, hacts⟩
            · rw [hst]
              exact ⟨hnew.keyed hk, .inl ⟨hnew, hg⟩⟩
            · refine ⟨fun b hb => ?_, .inr ⟨msg, a, nonce, hread, hreq, ?_, ?_, hn, hvalid⟩⟩
              · rcases hacts.others b hb with rfl | ⟨hb, -⟩
                · exact hacts.keyOfUser
                · exact hnew.keyed hk b hb
              · refine ⟨hacts.found, hacts.username, rfl, hacts.keyOfUser, fun b hb => ?_⟩
                rcases hacts.others b hb with hb | ⟨hb, hbc⟩
                · exact .inl hb
                · exact .inr ⟨hothers b hb hbc, hbc⟩
              · rw [hacts.key]
                exact hmi
        · rename_i hreq
          have hother := @dispatch_other env now s conn msg (s.lookUpKey env conn msg) external
            (Bool.eq_false_iff.2 hreq)
          exact ⟨hother.1.keyed hk, .inl hother⟩

theorem onInternalPacket_authorized (hk : Keyed env s) :
    Keyed env (s.onInternalPacket env now conn data external).state ∧
      ((NothingNew s (s.onInternalPacket env now conn data external).state ∧
          (s.onInternalPacket env now conn data external).grants = []) ∨
        Authorized env now conn data s (s.onInternalPacket env now conn data external).state) := by
  unfold onInternalPacket
  split
  · exact ⟨hk, .inl ⟨.refl s, rfl⟩⟩
  · split
    · exact handleStunMessage_authorized hk
    · split
      · exact ⟨hk, .inl ⟨.refl s, rfl⟩⟩
      · exact ⟨hk, .inl ⟨.refl s, rfl⟩⟩

end Server

/-! ## Runs -/

structure ServerAt where
  server : Server := {}
  now : Nat := 0
  deriving DecidableEq

inductive ServerEvent where
  | packet (conn : Connection) (data : Bytes) (external : Option SocketAddress)
  | peerPacket (conn : Connection) (addr : SocketAddress) (data : Bytes)
  | permissionTimeout (conn : Connection) (i : Nat)
  | channelTimeout (conn : Connection) (i : Nat)
  | allocationTimeout (conn : Connection)
  | tick (now : Nat)

namespace ServerAt

variable (env : Env) (s : ServerAt)

/-- The due times of the timers that are there. -/
def dues : List Nat := s.server.allocations.flatMap fun a =>
  a.perms.map (·.due) ++ a.channels.map (·.due) ++ a.timers

def next : ServerEvent → Option ServerAt
  | .packet conn data external =>
    some { s with server := (s.server.onInternalPacket env s.now conn data external).state }
  | .peerPacket _ _ _ => some s
  | .permissionTimeout conn i => do
    let a ← s.server.findAllocation conn
    let p ← a.perms[i]?
    if p.due = s.now then
      some { s with server := s.server.put { a with perms := a.perms.eraseIdx i } }
    else none
  | .channelTimeout conn i => do
    let a ← s.server.findAllocation conn
    let c ← a.channels[i]?
    if c.due = s.now then
      some { s with server := s.server.put { a with channels := a.channels.eraseIdx i } }
    else none
  | .allocationTimeout conn => do
    let a ← s.server.findAllocation conn
    if s.now ∈ a.timers then
      some { s with server := ⟨s.server.allocations.filter (·.conn ≠ conn)⟩ }
    else none
  | .tick now => if s.now < now ∧ s.dues.all (now ≤ ·) then some { s with now } else none

def grants : ServerEvent → List Grant
  | .packet conn data external => (s.server.onInternalPacket env s.now conn data external).grants
  | _ => []

def turn : LTS ServerAt ServerEvent := .ofFn (fun s => s.server = {}) (next env)

/-- Whatever the step creates or refreshes, it does for an authorized request. -/
def StepAuthorized (ev : ServerEvent) (s' : ServerAt) : Prop :=
  (s.server.NothingNew s'.server ∧ s.grants env ev = []) ∨
    ∃ conn data external, ev = .packet conn data external ∧
      Server.Authorized env s.now conn data s.server s'.server

variable {env s} {ev : ServerEvent} {s' : ServerAt}

theorem step_authorized (hk : s.server.Keyed env) (h : next env s ev = some s') :
    s'.server.Keyed env ∧ s.StepAuthorized env ev s' := by
  have hnothing : s.server.NothingNew s'.server → s.grants env ev = [] →
      s'.server.Keyed env ∧ s.StepAuthorized env ev s' := fun hn hg =>
    ⟨hn.keyed hk, .inl ⟨hn, hg⟩⟩
  cases ev with
  | packet conn data external =>
    cases h
    obtain ⟨h1, h2⟩ := @Server.onInternalPacket_authorized env s.now s.server conn data external hk
    exact ⟨h1, h2.imp id fun h => ⟨conn, data, external, rfl, h⟩⟩
  | peerPacket conn addr data =>
    cases h
    exact hnothing (.refl _) rfl
  | permissionTimeout conn i =>
    obtain ⟨a, ha, h⟩ := Option.bind_eq_some_iff.1 h
    obtain ⟨p, hp, h⟩ := Option.bind_eq_some_iff.1 h
    split at h
    · cases h
      refine hnothing (Server.nothingNew_put (Server.findAllocation_mem ha).1 ?_) rfl
      exact ⟨rfl, rfl, rfl, fun q hq => (List.eraseIdx_sublist _ i).subset hq, fun _ h => h,
        fun _ h => h⟩
    · cases h
  | channelTimeout conn i =>
    obtain ⟨a, ha, h⟩ := Option.bind_eq_some_iff.1 h
    obtain ⟨c, hc, h⟩ := Option.bind_eq_some_iff.1 h
    split at h
    · cases h
      refine hnothing (Server.nothingNew_put (Server.findAllocation_mem ha).1 ?_) rfl
      exact ⟨rfl, rfl, rfl, fun _ h => h, fun q hq => (List.eraseIdx_sublist _ i).subset hq,
        fun _ h => h⟩
    · cases h
  | allocationTimeout conn =>
    obtain ⟨a, ha, h⟩ := Option.bind_eq_some_iff.1 h
    split at h
    · cases h
      exact hnothing (fun b hb => ⟨b, (List.mem_filter.1 hb).1, .refl b⟩) rfl
    · cases h
  | tick now =>
    simp only [next] at h
    split at h
    · cases h
      exact hnothing (.refl _) rfl
    · cases h

theorem turn_inductive (env : Env) : (turn env).Inductive fun s => s.server.Keyed env where
  init s h := by
    rw [h]
    exact fun a ha => absurd ha List.not_mem_nil
  step s ev s' hk h := (step_authorized hk h).1

end ServerAt

end RtcCore.L4.Turn
