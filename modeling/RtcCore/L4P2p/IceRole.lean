import RtcCore.Core.LTS

/-!
# ICE role conflicts

Two sessions, each with any number of transports, over a network that keeps
every binding request and every 487 response for ever: each may be delivered at
any time, any number of times, in any order, or never. A transport checks the
role in a request against its own; a conflict it loses is posted to the signaling
thread, where the session reverses the role of its transports, one after the
other, once. A request carries the role its transport has when it is sent.

The ports of a transport have the role of the transport. A transport is made
in the role its session started with, at any time. ICE restarts and ice-lite
remotes, which set roles in other ways, are left out.

Results:
- `role_agreement`: no transport changes its role twice, only the session that
  loses the comparison of the tiebreakers changes roles, and complementary roles
  stay complementary.
-/
namespace RtcCore.L4.Ice

/-! ## The port -/

inductive IceRole where
  | controlling | controlled | unknown
  deriving DecidableEq, Repr

/-- What a binding request carries of its sender's role.
mirrors webrtc/p2p/base/port.cc:773-806 -/
structure BindingRequest where
  iceControlling : Option UInt64 := none
  iceControlled : Option UInt64 := none
  deriving DecidableEq, Repr

/-- What `MaybeIceRoleConflict` does: it returns `true` but for `errorResponse`. -/
inductive Conflict where
  | none | signal | errorResponse
  deriving DecidableEq, Repr

/-- mirrors webrtc/p2p/base/port.cc:790-810 -/
def prepare (role : IceRole) (tiebreaker : UInt64) : BindingRequest :=
  match role with
  | .controlling => { iceControlling := some tiebreaker }
  | .controlled => { iceControlled := some tiebreaker }
  | .unknown => {}

/-- `loopback`: the request has the port's own username fragment.
mirrors webrtc/p2p/base/port.cc:522-581 -/
def maybeIceRoleConflict (iceRole : IceRole) (tiebreaker : UInt64) (loopback : Bool)
    (msg : BindingRequest) : Conflict :=
  let remote : IceRole × UInt64 :=
    match msg.iceControlling with
    | some v => (.controlling, v)
    | none => (.unknown, 0)
  if remote.1 = .controlling ∧ loopback = true ∧ remote.2 = tiebreaker then .none
  else
    let remote : IceRole × UInt64 :=
      match msg.iceControlled with
      | some v => (.controlled, v)
      | none => remote
    match iceRole with
    | .controlling =>
      if remote.1 = .controlling then
        if tiebreaker ≤ remote.2 then .signal else .errorResponse
      else .none
    | .controlled =>
      if remote.1 = .controlled then
        if remote.2 < tiebreaker then .signal else .errorResponse
      else .none
    | .unknown => .none

/-! ## The session -/

/-- `changes` counts how often the role has changed. -/
structure Transport where
  content : Nat
  iceRole : IceRole
  changes : Nat := 0
  deriving DecidableEq, Repr

/-- `posted`: the role-conflict messages on the signaling thread. `pending`: the transports
`OnRoleConflict` has still to go through. -/
structure Session where
  roleSwitch : Bool := false
  transports : List Transport := []
  posted : Nat := 0
  pending : List Nat := []
  deriving DecidableEq, Repr

/-- What is fixed for the two sessions. -/
structure Setup where
  initiator : Bool → Bool
  tiebreaker : Bool → UInt64
  loopback : Bool
  different : tiebreaker true ≠ tiebreaker false

namespace Setup

variable (u : Setup)

/-- mirrors webrtc/p2p/base/session.cc:495 -/
def initialRole (e : Bool) : IceRole := if u.initiator e then .controlling else .controlled

/-- mirrors webrtc/p2p/base/session.cc:749-750 -/
def reversedRole (e : Bool) : IceRole := if u.initiator e then .controlled else .controlling

end Setup

/-- mirrors webrtc/p2p/base/transport.cc:704-711, webrtc/p2p/base/p2ptransportchannel.cc:207-216 -/
def Transport.setIceRole (role : IceRole) (t : Transport) : Transport :=
  if t.iceRole ≠ role then { t with iceRole := role, changes := t.changes + 1 } else t

namespace Session

/-- mirrors webrtc/p2p/base/session.cc:487-515 -/
def getOrCreateTransport (role : IceRole) (content : Nat) (s : Session) : Session :=
  if s.transports.any (·.content == content) then s
  else { s with transports := s.transports ++ [{ content, iceRole := role }] }

/-- mirrors webrtc/p2p/base/transport.cc:651-653 -/
def postRoleConflict (s : Session) : Session := { s with posted := s.posted + 1 }

/-- The signaling thread gets to the message.
mirrors webrtc/p2p/base/session.cc:740-748 -/
def onRoleConflict (s : Session) : Session :=
  let s := { s with posted := s.posted - 1 }
  if s.roleSwitch then s
  else { s with roleSwitch := true, pending := s.transports.map (·.content) }

/-- The next transport of the loop.
mirrors webrtc/p2p/base/session.cc:747-752 -/
def switchNext (role : IceRole) (s : Session) : Session :=
  match s.pending with
  | [] => s
  | content :: rest =>
    { s with
      pending := rest
      transports := s.transports.map fun t =>
        if t.content = content then t.setIceRole role else t }

def roleOf (s : Session) (content : Nat) : Option IceRole :=
  (s.transports.find? (·.content == content)).map (·.iceRole)

end Session

/-! ## Two sessions and the network -/

/-- `requests e`: what `e` has ever sent, with the transport; `errors e`: the 487 responses that
were ever sent to `e`. -/
structure Link where
  session : Bool → Session := fun _ => {}
  requests : Bool → List (Nat × BindingRequest) := fun _ => []
  errors : Bool → List Nat := fun _ => []

inductive Event where
  | create (e : Bool) (content : Nat)
  | ping (e : Bool) (content : Nat)
  | request (e : Bool) (i : Nat)
  | error (e : Bool) (i : Nat)
  | roleConflict (e : Bool)
  | switchNext (e : Bool)

namespace Link

variable (l : Link)

def setSession (e : Bool) (s : Session) : Link := { l with session := update l.session e s }

def send (e : Bool) (content : Nat) (msg : BindingRequest) : Link :=
  { l with requests := update l.requests e (l.requests e ++ [(content, msg)]) }

def sendBindingErrorResponse (e : Bool) (content : Nat) : Link :=
  { l with errors := update l.errors e (l.errors e ++ [content]) }

end Link

variable (u : Setup)

/-- `request`: `e` receives a request of the other end on its transport of the same content;
`error`: `e` receives a 487 response. -/
def next (l : Link) : Event → Option Link
  | .create e content =>
    if (l.session e).pending = [] then
      some (l.setSession e ((l.session e).getOrCreateTransport (u.initialRole e) content))
    else none
  | .ping e content => do
    let role ← (l.session e).roleOf content
    some (l.send e content (prepare role (u.tiebreaker e)))
  | .request e i => do
    let (content, msg) ← (l.requests !e)[i]?
    let role ← (l.session e).roleOf content
    match maybeIceRoleConflict role (u.tiebreaker e) u.loopback msg with
    | .none => some l
    | .signal => some (l.setSession e (l.session e).postRoleConflict)
    | .errorResponse => some (l.sendBindingErrorResponse (!e) content)
  | .error e i => do
    let _ ← (l.errors e)[i]?
    some (l.setSession e (l.session e).postRoleConflict)
  | .roleConflict e =>
    if 0 < (l.session e).posted ∧ (l.session e).pending = [] then
      some (l.setSession e (l.session e).onRoleConflict)
    else none
  | .switchNext e =>
    if (l.session e).pending ≠ [] then
      some (l.setSession e ((l.session e).switchNext (u.reversedRole e)))
    else none

def link : LTS Link Event := .ofFn (· = {}) (next u)

/-! ## Who yields -/

/-- The session whose role gives way when both start in the same one. -/
def Setup.Yields (e : Bool) : Prop :=
  u.initiator e = u.initiator (!e) ∧
    if u.initiator e then u.tiebreaker e < u.tiebreaker (!e)
    else u.tiebreaker (!e) < u.tiebreaker e

/-- A role `e` may be in. -/
def Setup.MayHave (e : Bool) (role : IceRole) : Prop :=
  role = u.initialRole e ∨ (u.Yields e ∧ role = u.reversedRole e)

variable {u}

theorem Setup.yields_other {e : Bool} (h : u.Yields e) : ¬u.Yields (!e) := by
  intro h'
  obtain ⟨heq, hlt⟩ := h
  obtain ⟨-, hlt'⟩ := h'
  rw [Bool.not_not, ← heq] at hlt'
  cases hi : u.initiator e <;> simp only [hi, if_true, Bool.false_eq_true, if_false] at hlt hlt' <;>
    exact absurd hlt (UInt64.not_lt.2 (UInt64.le_of_lt hlt'))

theorem Setup.tiebreaker_ne (e : Bool) : u.tiebreaker (!e) ≠ u.tiebreaker e := by
  cases e
  · exact u.different
  · exact u.different.symm

theorem Setup.yields_of_initiator {e : Bool} (hi : u.initiator e = u.initiator (!e)) :
    u.Yields e ∨ u.Yields (!e) := by
  have htot := UInt64.lt_or_lt_of_ne (u.tiebreaker_ne e)
  unfold Setup.Yields
  rw [Bool.not_not, ← hi]
  cases hb : u.initiator e
  · rcases htot with h | h
    · exact Or.inl ⟨rfl, h⟩
    · exact Or.inr ⟨rfl, h⟩
  · rcases htot with h | h
    · exact Or.inr ⟨rfl, h⟩
    · exact Or.inl ⟨rfl, h⟩

@[simp] theorem conflict_controlling (role : IceRole) (own v : UInt64) (loopback : Bool)
    (h : v ≠ own) :
    maybeIceRoleConflict role own loopback (prepare .controlling v) =
      if role = .controlling then if own ≤ v then .signal else .errorResponse else .none := by
  cases role with
  | controlling =>
    simp [maybeIceRoleConflict, prepare, h]
    rfl
  | controlled => simp [maybeIceRoleConflict, prepare]
  | unknown => simp [maybeIceRoleConflict, prepare]

@[simp] theorem conflict_controlled (role : IceRole) (own v : UInt64) (loopback : Bool) :
    maybeIceRoleConflict role own loopback (prepare .controlled v) =
      if role = .controlled then if v < own then .signal else .errorResponse else .none := by
  cases role with
  | controlling => simp [maybeIceRoleConflict, prepare]
  | controlled =>
    simp [maybeIceRoleConflict, prepare]
    rfl
  | unknown => simp [maybeIceRoleConflict, prepare]

theorem initialRole_controlling {e : Bool} :
    u.initialRole e = .controlling ↔ u.initiator e = true := by
  unfold Setup.initialRole
  cases u.initiator e <;> decide

theorem initialRole_controlled {e : Bool} :
    u.initialRole e = .controlled ↔ u.initiator e = false := by
  unfold Setup.initialRole
  cases u.initiator e <;> decide

/-- Two ends in the same role both started in it. -/
theorem Setup.MayHave.same {e : Bool} {role : IceRole} (h : u.MayHave e role)
    (h' : u.MayHave (!e) role) :
    u.initiator e = u.initiator (!e) ∧
      role = if u.initiator e then .controlling else .controlled := by
  have hy : u.Yields e → ¬u.Yields (!e) := u.yields_other
  unfold Setup.MayHave Setup.initialRole Setup.reversedRole at h h'
  rcases h with h | ⟨hye, h⟩ <;> rcases h' with h' | ⟨hyo, h'⟩
  · cases hi : u.initiator e <;> cases hj : u.initiator (!e) <;> simp_all
  · have := hyo.1
    rw [Bool.not_not] at this
    cases hi : u.initiator e <;> simp_all
  · have := hye.1
    cases hi : u.initiator e <;> simp_all
  · exact absurd hyo (hy hye)

/-- A conflict between roles the two ends may have is one the right end loses. -/
theorem conflict_yields {e : Bool} {role remote : IceRole} {c : Conflict} (h : u.MayHave e role)
    (h' : u.MayHave (!e) remote)
    (hc : maybeIceRoleConflict role (u.tiebreaker e) u.loopback
      (prepare remote (u.tiebreaker !e)) = c) :
    (c = .signal → u.Yields e) ∧ (c = .errorResponse → u.Yields (!e)) := by
  have hne := u.tiebreaker_ne e
  by_cases hs : role = remote
  · subst hs
    obtain ⟨heq, hrole⟩ := h.same h'
    cases hi : u.initiator e
    · rw [hi, if_neg Bool.false_ne_true] at hrole
      subst hrole
      rw [conflict_controlled, if_pos rfl] at hc
      split at hc
      · rename_i hlt
        subst hc
        exact ⟨fun _ => ⟨heq, by rw [hi]; exact hlt⟩, nofun⟩
      · rename_i hlt
        subst hc
        refine ⟨nofun, fun _ => (u.yields_of_initiator heq).resolve_left fun hy => hlt ?_⟩
        have := hy.2
        rwa [hi] at this
    · rw [hi, if_pos rfl] at hrole
      subst hrole
      rw [conflict_controlling _ _ _ _ hne, if_pos rfl] at hc
      split at hc
      · rename_i hle
        subst hc
        exact ⟨fun _ => ⟨heq, by rw [hi]; exact UInt64.lt_of_le_of_ne hle hne.symm⟩, nofun⟩
      · rename_i hle
        subst hc
        refine ⟨nofun, fun _ => (u.yields_of_initiator heq).resolve_left fun hy => hle ?_⟩
        have := hy.2
        rw [hi] at this
        exact UInt64.le_of_lt this
  · have hnone : c = .none := by
      rw [← hc]
      cases role <;> cases remote <;> simp_all [maybeIceRoleConflict, prepare]
    rw [hnone]
    exact ⟨nofun, nofun⟩

/-! ## The invariant of a session -/

/-- A role has changed once or not at all, and only where the session yields; a session that does
not is never told of a conflict. -/
structure SessionInv (u : Setup) (e : Bool) (s : Session) : Prop where
  roles : ∀ t ∈ s.transports, (t.iceRole = u.initialRole e ∧ t.changes = 0) ∨
    (u.Yields e ∧ t.iceRole = u.reversedRole e ∧ t.changes = 1)
  idle : ¬u.Yields e → s.posted = 0 ∧ s.pending = []

variable {e : Bool} {s : Session}

theorem initial_ne_reversed : u.initialRole e ≠ u.reversedRole e := by
  unfold Setup.initialRole Setup.reversedRole
  cases u.initiator e <;> decide

theorem SessionInv.create (h : SessionInv u e s) (content : Nat) :
    SessionInv u e (s.getOrCreateTransport (u.initialRole e) content) := by
  unfold Session.getOrCreateTransport
  split
  · exact h
  · refine ⟨fun t ht => ?_, h.idle⟩
    rcases List.mem_append.1 ht with ht | ht
    · exact h.roles t ht
    · rw [List.mem_singleton] at ht
      subst ht
      exact Or.inl ⟨rfl, rfl⟩

theorem SessionInv.post (h : SessionInv u e s) (hy : u.Yields e) :
    SessionInv u e s.postRoleConflict :=
  ⟨h.roles, fun hn => absurd hy hn⟩

theorem onRoleConflict_transports : s.onRoleConflict.transports = s.transports := by
  unfold Session.onRoleConflict
  dsimp only
  split <;> rfl

theorem SessionInv.onRoleConflict (h : SessionInv u e s) (hy : u.Yields e) :
    SessionInv u e s.onRoleConflict := by
  refine ⟨?_, fun hn => absurd hy hn⟩
  rw [onRoleConflict_transports]
  exact h.roles

theorem SessionInv.switchNext (h : SessionInv u e s) (hy : u.Yields e) :
    SessionInv u e (s.switchNext (u.reversedRole e)) := by
  refine ⟨?_, fun hn => absurd hy hn⟩
  unfold Session.switchNext
  split
  · exact h.roles
  · intro t' ht'
    obtain ⟨t, ht, rfl⟩ := List.mem_map.1 ht'
    split
    · unfold Transport.setIceRole
      rcases h.roles t ht with ⟨hr, hc⟩ | ⟨-, hr, hc⟩
      · rw [if_pos (by rw [hr]; exact initial_ne_reversed)]
        exact Or.inr ⟨hy, rfl, by rw [hc]⟩
      · rw [if_neg (Decidable.not_not.2 hr)]
        exact Or.inr ⟨hy, hr, hc⟩
    · exact h.roles t ht

theorem SessionInv.mayHave (h : SessionInv u e s) {content : Nat} {role : IceRole}
    (hr : s.roleOf content = some role) : u.MayHave e role := by
  obtain ⟨t, ht, rfl⟩ := Option.map_eq_some_iff.1 hr
  rcases h.roles t (List.mem_of_find?_eq_some ht) with ⟨h, -⟩ | ⟨hy, h, -⟩
  · exact Or.inl h
  · exact Or.inr ⟨hy, h⟩

/-! ## The role of one transport over a step -/

theorem roleOf_getOrCreateTransport {content c : Nat} {role r : IceRole}
    (h : s.roleOf content = some r) : (s.getOrCreateTransport role c).roleOf content = some r := by
  unfold Session.getOrCreateTransport
  split
  · exact h
  · unfold Session.roleOf at h ⊢
    rw [List.find?_append]
    obtain ⟨t, ht, rfl⟩ := Option.map_eq_some_iff.1 h
    rw [ht]
    rfl

theorem roleOf_onRoleConflict {content : Nat} :
    s.onRoleConflict.roleOf content = s.roleOf content := by
  unfold Session.roleOf
  rw [onRoleConflict_transports]

theorem setIceRole_content (role : IceRole) (t : Transport) :
    (t.setIceRole role).content = t.content := by
  unfold Transport.setIceRole
  split <;> rfl

theorem setIceRole_iceRole (role : IceRole) (t : Transport) :
    (t.setIceRole role).iceRole = role := by
  unfold Transport.setIceRole
  split
  · rfl
  · rename_i h
    exact Decidable.not_not.1 h

theorem roleOf_switchNext {content : Nat} {role r : IceRole} (h : s.roleOf content = some r) :
    (s.switchNext role).roleOf content = some r ∨
      (s.switchNext role).roleOf content = some role := by
  unfold Session.switchNext
  split
  · exact Or.inl h
  · rename_i c rest _
    unfold Session.roleOf at h ⊢
    obtain ⟨t, ht, rfl⟩ := Option.map_eq_some_iff.1 h
    have hp : ((fun t : Transport => t.content == content) ∘ fun t : Transport =>
        if t.content = c then t.setIceRole role else t) = fun t => t.content == content := by
      funext t
      simp only [Function.comp]
      split
      · rw [setIceRole_content]
      · rfl
    rw [List.find?_map, hp, ht]
    simp only [Option.map_some]
    split
    · exact Or.inr (congrArg some (setIceRole_iceRole role t))
    · exact Or.inl rfl

/-! ## The invariant of the two sessions -/

/-- Every request carries a role its sender may have, and only the session that yields is ever
sent a 487 response. -/
structure Inv (u : Setup) (l : Link) : Prop where
  session : ∀ e, SessionInv u e (l.session e)
  requests : ∀ e, ∀ r ∈ l.requests e,
    ∃ role, u.MayHave e role ∧ r.2 = prepare role (u.tiebreaker e)
  errors : ∀ e, l.errors e ≠ [] → u.Yields e

variable {l l' : Link} {ev : Event}

theorem forall_update {α : Type} (P : Bool → α → Prop) {f : Bool → α} {x : α}
    (h : ∀ i, P i (f i)) (hx : P e x) : ∀ i, P i (update f e x i) := by
  intro i
  unfold update
  split
  · rename_i hi
    rw [hi]
    exact hx
  · exact h i

theorem Inv.setSession (h : Inv u l) (hs : SessionInv u e s) : Inv u (l.setSession e s) :=
  ⟨forall_update (SessionInv u) h.session hs, h.requests, h.errors⟩

theorem Inv.send (h : Inv u l) {role : IceRole} (hr : u.MayHave e role) (content : Nat) :
    Inv u (l.send e content (prepare role (u.tiebreaker e))) := by
  refine ⟨h.session, forall_update (fun e (rs : List (Nat × BindingRequest)) => ∀ r ∈ rs,
    ∃ role, u.MayHave e role ∧ r.2 = prepare role (u.tiebreaker e)) h.requests ?_, h.errors⟩
  intro r hmem
  rcases List.mem_append.1 hmem with hmem | hmem
  · exact h.requests e r hmem
  · rw [List.mem_singleton] at hmem
    subst hmem
    exact ⟨role, hr, rfl⟩

theorem Inv.sendBindingErrorResponse (h : Inv u l) (hy : u.Yields e) (content : Nat) :
    Inv u (l.sendBindingErrorResponse e content) :=
  ⟨h.session, h.requests,
    forall_update (fun e es => es ≠ [] → u.Yields e) h.errors fun _ => hy⟩

/-- What a step does: only a session that yields is told of a conflict or switches. -/
theorem next_cases (h : Inv u l) (hs : next u l ev = some l') :
    l' = l ∨
    (∃ e c, l' = l.setSession e ((l.session e).getOrCreateTransport (u.initialRole e) c)) ∨
    (∃ e c role, u.MayHave e role ∧ l' = l.send e c (prepare role (u.tiebreaker e))) ∨
    (∃ e, u.Yields e ∧ (l' = l.setSession e (l.session e).postRoleConflict ∨
      l' = l.setSession e (l.session e).onRoleConflict ∨
      l' = l.setSession e ((l.session e).switchNext (u.reversedRole e)) ∨
      ∃ c, l' = l.sendBindingErrorResponse e c)) := by
  cases ev with
  | create e c =>
    simp only [next] at hs
    split at hs
    · cases hs
      exact Or.inr (Or.inl ⟨e, c, rfl⟩)
    · cases hs
  | ping e c =>
    obtain ⟨role, hr, hs⟩ := Option.bind_eq_some_iff.1 hs
    cases hs
    exact Or.inr (Or.inr (Or.inl ⟨e, c, role, (h.session e).mayHave hr, rfl⟩))
  | request e i =>
    obtain ⟨⟨c, msg⟩, hm, hs⟩ := Option.bind_eq_some_iff.1 hs
    obtain ⟨role, hr, hs⟩ := Option.bind_eq_some_iff.1 hs
    obtain ⟨remote, hrem, hmsg⟩ := h.requests _ _ (List.mem_of_getElem? hm)
    dsimp only at hs hmsg
    subst hmsg
    have hy := conflict_yields ((h.session e).mayHave hr) hrem rfl
    split at hs
    · cases hs
      exact Or.inl rfl
    · rename_i hc
      cases hs
      exact Or.inr (Or.inr (Or.inr ⟨e, hy.1 hc, Or.inl rfl⟩))
    · rename_i hc
      cases hs
      exact Or.inr (Or.inr (Or.inr ⟨!e, hy.2 hc, Or.inr (Or.inr (Or.inr ⟨c, rfl⟩))⟩))
  | error e i =>
    obtain ⟨c, hc, hs⟩ := Option.bind_eq_some_iff.1 hs
    cases hs
    have hy := h.errors e (List.ne_nil_of_mem (List.mem_of_getElem? hc))
    exact Or.inr (Or.inr (Or.inr ⟨e, hy, Or.inl rfl⟩))
  | roleConflict e =>
    simp only [next] at hs
    split at hs
    · rename_i hp
      cases hs
      have hy : u.Yields e := Classical.byContradiction fun hn =>
        absurd ((h.session e).idle hn).1 (Nat.pos_iff_ne_zero.1 hp.1)
      exact Or.inr (Or.inr (Or.inr ⟨e, hy, Or.inr (Or.inl rfl)⟩))
    · cases hs
  | switchNext e =>
    simp only [next] at hs
    split at hs
    · rename_i hp
      cases hs
      have hy : u.Yields e := Classical.byContradiction fun hn => hp ((h.session e).idle hn).2
      exact Or.inr (Or.inr (Or.inr ⟨e, hy, Or.inr (Or.inr (Or.inl rfl))⟩))
    · cases hs

theorem Inv.next (h : Inv u l) (hs : next u l ev = some l') : Inv u l' := by
  rcases next_cases h hs with rfl | ⟨e, c, rfl⟩ | ⟨e, c, role, hr, rfl⟩ | ⟨e, hy, hs⟩
  · exact h
  · exact h.setSession ((h.session e).create c)
  · exact h.send hr c
  · rcases hs with rfl | rfl | rfl | ⟨c, rfl⟩
    · exact h.setSession ((h.session e).post hy)
    · exact h.setSession ((h.session e).onRoleConflict hy)
    · exact h.setSession ((h.session e).switchNext hy)
    · exact h.sendBindingErrorResponse hy c

theorem inv_inductive : (link u).Inductive (Inv u) where
  init := by
    rintro s rfl
    exact ⟨fun e => ⟨nofun, fun _ => ⟨rfl, rfl⟩⟩, nofun, fun e h => absurd rfl h⟩
  step _ _ _ h hs := h.next hs

/-! ## Complementary roles -/

/-- One end controls the transports of `content`, the other is controlled. -/
def Complementary (l : Link) (content : Nat) : Prop :=
  ∃ e, (l.session e).roleOf content = some .controlling ∧
    (l.session !e).roleOf content = some .controlled

theorem roleOf_setSession {i : Bool} {content : Nat} {r : IceRole}
    (hr : (l.session i).roleOf content = some r)
    (h : i = e → s.roleOf content = some r ∨
      u.Yields e ∧ s.roleOf content = some (u.reversedRole e)) :
    ((l.setSession e s).session i).roleOf content = some r ∨
      u.Yields i ∧ ((l.setSession e s).session i).roleOf content = some (u.reversedRole i) := by
  unfold Link.setSession update
  dsimp only
  split
  · rename_i hi
    subst hi
    exact h rfl
  · exact Or.inl hr

/-- A step leaves a transport in its role, or its session yields and reverses it. -/
theorem next_roleOf (h : Inv u l) (hs : next u l ev = some l') {i : Bool} {content : Nat}
    {r : IceRole} (hr : (l.session i).roleOf content = some r) :
    (l'.session i).roleOf content = some r ∨
      u.Yields i ∧ (l'.session i).roleOf content = some (u.reversedRole i) := by
  rcases next_cases h hs with rfl | ⟨e, c, rfl⟩ | ⟨e, c, role, -, rfl⟩ | ⟨e, hy, hs⟩
  · exact Or.inl hr
  · refine roleOf_setSession hr ?_
    rintro rfl
    exact Or.inl (roleOf_getOrCreateTransport hr)
  · exact Or.inl hr
  · rcases hs with rfl | rfl | rfl | ⟨c, rfl⟩
    · refine roleOf_setSession hr ?_
      rintro rfl
      exact Or.inl hr
    · refine roleOf_setSession hr ?_
      rintro rfl
      rw [roleOf_onRoleConflict]
      exact Or.inl hr
    · refine roleOf_setSession hr ?_
      rintro rfl
      rcases roleOf_switchNext hr with hr | hr
      · exact Or.inl hr
      · exact Or.inr ⟨hy, hr⟩
    · exact Or.inl hr

theorem Setup.MayHave.initial {role : IceRole} (h : u.MayHave e role) (hy : ¬u.Yields e) :
    role = u.initialRole e := by
  rcases h with h | ⟨h, -⟩
  · exact h
  · exact absurd h hy

theorem reversedRole_eq {i : Bool} (h : u.initiator e = u.initiator i) :
    u.reversedRole e =
      if u.initialRole i = .controlling then .controlled else .controlling := by
  unfold Setup.reversedRole Setup.initialRole
  rw [h]
  cases u.initiator i <;> rfl

/-- The session that yields is already in the role it would switch to. -/
theorem Complementary.next {content : Nat} (hc : Complementary l content) (h : Inv u l)
    (hs : next u l ev = some l') : Complementary l' content := by
  obtain ⟨e, h1, h2⟩ := hc
  have hm1 := (h.session e).mayHave h1
  have hm2 := (h.session !e).mayHave h2
  refine ⟨e, ?_, ?_⟩
  · rcases next_roleOf h hs h1 with h1' | ⟨hy, h1'⟩
    · exact h1'
    · have hi := hm2.initial (u.yields_other hy)
      rw [h1', reversedRole_eq hy.1, ← hi]
      rfl
  · rcases next_roleOf h hs h2 with h2' | ⟨hy, h2'⟩
    · exact h2'
    · have hn : ¬u.Yields e := by
        have := u.yields_other hy
        rwa [Bool.not_not] at this
      have hi := hm1.initial hn
      have heq := hy.1
      rw [Bool.not_not] at heq
      rw [h2', reversedRole_eq heq, ← hi]
      rfl

theorem Complementary.run {content : Nat} {ls : List Event} (r : (link u).Run l ls l')
    (hc : Complementary l content) (h : Inv u l) : Complementary l' content := by
  have hboth := r.keeps (P := fun l => Inv u l ∧ Complementary l content)
    (fun _ _ _ h hs => ⟨h.1.next hs, h.2.next h.1 hs⟩) ⟨h, hc⟩
  exact hboth.2

theorem Inv.unchanged (h : Inv u l) (hy : ¬u.Yields e) :
    ∀ t ∈ (l.session e).transports, t.iceRole = u.initialRole e ∧ t.changes = 0 := by
  intro t ht
  rcases (h.session e).roles t ht with hr | ⟨hn, -⟩
  · exact hr
  · exact absurd hn hy

theorem Inv.changes_le (h : Inv u l) :
    ∀ t ∈ (l.session e).transports, t.changes ≤ 1 := by
  intro t ht
  rcases (h.session e).roles t ht with ⟨-, hc⟩ | ⟨-, -, hc⟩ <;> omega

theorem Setup.not_yields_of_ne (h : u.initialRole true ≠ u.initialRole false) (e : Bool) :
    ¬u.Yields e := by
  intro hy
  refine h ?_
  have := hy.1
  unfold Setup.initialRole
  cases e
  · rw [this]
    rfl
  · rw [this]
    rfl

/-- In every reachable state and for all that follows: a transport has changed its role at most
once; not at all if the sessions started in different roles, if both started controlling and its
tiebreaker is the larger, or if both started controlled and its tiebreaker is the smaller; and
complementary roles stay complementary. -/
theorem role_agreement (u : Setup) (l : Link) (hr : (link u).Reachable l) :
    (∀ e, ∀ t ∈ (l.session e).transports, t.changes ≤ 1) ∧
    (u.initialRole true ≠ u.initialRole false → ∀ e, ∀ t ∈ (l.session e).transports,
      t.iceRole = u.initialRole e ∧ t.changes = 0) ∧
    (∀ e, u.initialRole e = .controlling → u.initialRole (!e) = .controlling →
      u.tiebreaker (!e) < u.tiebreaker e → ∀ t ∈ (l.session e).transports,
      t.iceRole = u.initialRole e ∧ t.changes = 0) ∧
    (∀ e, u.initialRole e = .controlled → u.initialRole (!e) = .controlled →
      u.tiebreaker e < u.tiebreaker (!e) → ∀ t ∈ (l.session e).transports,
      t.iceRole = u.initialRole e ∧ t.changes = 0) ∧
    ∀ content, Complementary l content →
      ∀ ls l', (link u).Run l ls l' → Complementary l' content := by
  have h := inv_inductive.reachable l hr
  refine ⟨fun e => h.changes_le, fun hne e => h.unchanged (u.not_yields_of_ne hne e), ?_, ?_,
    fun content hc ls l' r => hc.run r h⟩
  · intro e h1 _ hlt
    refine h.unchanged fun hy => ?_
    have := hy.2
    rw [initialRole_controlling.1 h1, if_pos rfl] at this
    exact absurd hlt (UInt64.not_lt.2 (UInt64.le_of_lt this))
  · intro e h1 _ hlt
    refine h.unchanged fun hy => ?_
    have := hy.2
    rw [initialRole_controlled.1 h1, if_neg Bool.false_ne_true] at this
    exact absurd hlt (UInt64.not_lt.2 (UInt64.le_of_lt this))

/-- Both sessions start controlling. -/
def glare : Setup where
  initiator _ := true
  tiebreaker e := if e then 5 else 10
  loopback := false
  different := by decide

/-- Both ends find the conflict; the request of the first one is delivered again after it has
switched. -/
def glareEvents : List Event :=
  [.create true 0, .create false 0, .ping true 0, .ping false 0, .request true 0,
    .request false 0, .roleConflict true, .error true 0, .switchNext true, .roleConflict true,
    .ping true 0, .request false 1, .request false 0]

theorem glare_runs : (glareEvents.foldlM (next glare) {}).isSome = true := by decide

def glared : Link := (glareEvents.foldlM (next glare) {}).get glare_runs

theorem glared_reachable : (link glare).Reachable glared :=
  ⟨{}, glareEvents, rfl, .of_foldlM (Option.some_get glare_runs).symm⟩

theorem glare_resolved :
    (glared.session true).transports = [{ content := 0, iceRole := .controlled, changes := 1 }] ∧
    (∀ t ∈ (glared.session false).transports, t.iceRole = .controlling ∧ t.changes = 0) ∧
    ∀ ls l, (link glare).Run glared ls l → Complementary l 0 := by
  have h := role_agreement glare glared glared_reachable
  refine ⟨by decide, h.2.2.1 false rfl rfl (by decide), ?_⟩
  exact h.2.2.2.2 0 ⟨false, by decide, by decide⟩

end RtcCore.L4.Ice
