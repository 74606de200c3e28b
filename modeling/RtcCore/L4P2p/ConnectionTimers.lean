import RtcCore.Core.FirstBest
import RtcCore.L4P2p.ConnectionSwitching

/-!
# The clock of a connection

`rtc::Time()` is a 32-bit number of milliseconds that wraps. `UpdateState` and
`FindNextPingableConnection` add their limits to recorded times and compare the sums
with now as numbers, and the oldest connection is the one with the smallest number.

The age of a recorded time is what has passed since; a shift of the clock keeps the
ages. At now = 0 no time is overdue, and at now = 2^32 - 1 every time is, except for a
time that is exactly as old as its limit.

Results:
* `updateState_timing`: the tests are what the model of the channel calls `Timing`.
* `steady_iff`, `pick_steady_iff`: the states in which no shift of the clock matters.
* `agrees_iff`: both, and that the clock matters only near the wrap.
-/
namespace RtcCore.L4.Ice

/-! ## The code -/

/-- mirrors webrtc/p2p/base/port.cc:80-91 -/
def conservativeRTTEstimate (rtt : UInt32) : UInt32 := max 100 (min 3000 (2 * rtt))

/-- mirrors webrtc/p2p/base/port.cc:29-44 -/
def tooManyFailures (pings : List UInt32) (maximumFailures : Nat) (rttEstimate now : UInt32) :
    Bool :=
  if pings.length < maximumFailures then false
  else pings[maximumFailures - 1]?.any fun ping => ping + rttEstimate < now

/-- mirrors webrtc/p2p/base/port.cc:46-56 -/
def tooLongWithoutResponse (pings : List UInt32) (maximumTime now : UInt32) : Bool :=
  pings.head?.any fun ping => ping + maximumTime < now

def CONNECTION_READ_TIMEOUT : UInt32 := 30000

def CONNECTION_WRITE_TIMEOUT : UInt32 := 15000

def CONNECTION_WRITE_CONNECT_TIMEOUT : UInt32 := 5000

def CONNECTION_WRITE_CONNECT_FAILURES : Nat := 5

def MAX_CURRENT_WRITABLE_DELAY : UInt32 := 900

/-- A connection with its clock; `googleIce` is the protocol of its port.
mirrors webrtc/p2p/base/port.h:568-604 -/
structure TimedConnection extends Connection where
  googleIce : Bool
  connected : Bool
  pingsSinceLastResponse : List UInt32
  lastPingSent : UInt32
  lastPingReceived : UInt32
  lastDataReceived : UInt32
  deriving DecidableEq

namespace TimedConnection

variable (x : TimedConnection) (now : UInt32)

/-- mirrors webrtc/p2p/base/port.cc:1098-1178 -/
def updateState : TimedConnection :=
  let rtt := conservativeRTTEstimate x.rtt
  let c := x.toConnection
  let c := if x.googleIce ∧ c.readState = .readable ∧
      x.lastPingReceived + CONNECTION_READ_TIMEOUT ≤ now ∧
      x.lastDataReceived + CONNECTION_READ_TIMEOUT ≤ now then { c with readState := .timeout }
    else c
  let c := if c.writeState = .writable ∧
      tooManyFailures x.pingsSinceLastResponse CONNECTION_WRITE_CONNECT_FAILURES rtt now ∧
      tooLongWithoutResponse x.pingsSinceLastResponse CONNECTION_WRITE_CONNECT_TIMEOUT now then
      { c with writeState := .unreliable }
    else c
  let c := if (c.writeState = .unreliable ∨ c.writeState = .init) ∧
      tooLongWithoutResponse x.pingsSinceLastResponse CONNECTION_WRITE_TIMEOUT now then
      { c with writeState := .timeout }
    else c
  { x with toConnection := c }

end TimedConnection

/-- What a choice of the next connection to ping reads. -/
structure TimedChannel where
  connections : List TimedConnection
  best : Option Nat
  writable : Bool
  deriving DecidableEq

namespace TimedChannel

variable (s : TimedChannel) (now : UInt32)

/-- mirrors webrtc/p2p/base/p2ptransportchannel.cc:1165-1184 -/
def isPingable (conn : TimedConnection) : Bool :=
  if !conn.connected then false
  else if s.writable then conn.writeState ≠ .timeout
  else conn.writeState ≠ .timeout || conn.readState ≠ .timeout

def bestConnection : Option TimedConnection :=
  s.best.bind fun id => s.connections.find? (·.id == id)

/-- The loop over the connections.
mirrors webrtc/p2p/base/p2ptransportchannel.cc:1199-1208 -/
def oldestConnection : Option TimedConnection :=
  (FirstBest.scan s.isPingable (·.lastPingSent.toNat) 0xFFFFFFFF s.connections).1

/-- mirrors webrtc/p2p/base/p2ptransportchannel.cc:1189-1209 -/
def findNextPingableConnection : Option TimedConnection :=
  match s.bestConnection with
  | some best =>
    if best.writeState = .writable ∧ best.lastPingSent + MAX_CURRENT_WRITABLE_DELAY ≤ now then
      some best
    else s.oldestConnection
  | none => s.oldestConnection

end TimedChannel

/-! ## Clocks that are shifted -/

section Clock

variable {t limit now c : UInt32}

theorem add_shift (t limit c : UInt32) : t + c + limit = t + limit + c := by
  rw [UInt32.add_assoc, UInt32.add_comm c, ← UInt32.add_assoc]

theorem shift_to (now n : UInt32) : now + (n - now) = n := by
  rw [UInt32.add_comm, UInt32.sub_add_cancel]

theorem not_lt_of_exact (h : t + limit = now) (c : UInt32) : ¬t + c + limit < now + c := by
  rw [add_shift, h]
  exact UInt32.lt_irrefl _

theorem le_of_exact (h : t + limit = now) (c : UInt32) : t + c + limit ≤ now + c := by
  rw [add_shift, h]
  exact UInt32.le_refl _

theorem exact_of_zero (h : t + (0 - now) + limit ≤ now + (0 - now)) : t + limit = now := by
  rw [shift_to, UInt32.le_zero_iff, add_shift] at h
  exact (UInt32.add_left_inj (0 - now)).1 (h.trans (shift_to now 0).symm)

theorem exact_of_max (h : ¬t + (0xFFFFFFFF - now) + limit < now + (0xFFFFFFFF - now)) :
    t + limit = now := by
  rw [shift_to, add_shift] at h
  refine (UInt32.add_left_inj (0xFFFFFFFF - now)).1 (Eq.trans ?_ (shift_to now _).symm)
  rw [UInt32.lt_iff_toNat_lt] at h
  have hlt := (t + limit + (0xFFFFFFFF - now)).toNat_lt
  have hmax : (0xFFFFFFFF : UInt32).toNat = 4294967295 := rfl
  exact UInt32.toNat_inj.1 (by omega)

theorem le_max (h : UInt32) : h ≤ now + (0xFFFFFFFF - now) := by
  rw [shift_to, UInt32.le_iff_toNat_le]
  have hlt := h.toNat_lt
  have hmax : (0xFFFFFFFF : UInt32).toNat = 4294967295 := rfl
  omega

theorem not_lt_zero (h : UInt32) : ¬h < now + (0 - now) := by
  rw [shift_to]
  exact UInt32.not_lt_zero

end Clock

namespace TimedConnection

variable {x : TimedConnection} {now c : UInt32}

/-- The clock and all that was recorded of it moved by `c`. -/
def shift (c : UInt32) (x : TimedConnection) : TimedConnection :=
  { x with
    pingsSinceLastResponse := x.pingsSinceLastResponse.map (· + c)
    lastPingSent := x.lastPingSent + c
    lastPingReceived := x.lastPingReceived + c
    lastDataReceived := x.lastDataReceived + c }

/-- What the clock says of the connection. -/
def timing (x : TimedConnection) (now : UInt32) : Timing where
  unread := x.googleIce && x.lastPingReceived + CONNECTION_READ_TIMEOUT ≤ now &&
    x.lastDataReceived + CONNECTION_READ_TIMEOUT ≤ now
  failing := tooManyFailures x.pingsSinceLastResponse CONNECTION_WRITE_CONNECT_FAILURES
      (conservativeRTTEstimate x.rtt) now &&
    tooLongWithoutResponse x.pingsSinceLastResponse CONNECTION_WRITE_CONNECT_TIMEOUT now
  unanswered := tooLongWithoutResponse x.pingsSinceLastResponse CONNECTION_WRITE_TIMEOUT now

/-- The read state after an update. -/
def readAfter (unread : Bool) (state : ReadState) : ReadState :=
  if unread = true ∧ state = .readable then .timeout else state

theorem readAfter_inj (u v : Bool) (state : ReadState) :
    readAfter u state = readAfter v state ↔ (state = .readable → u = v) := by
  cases state <;> cases u <;> cases v <;> decide

theorem updated_readState (t : Timing) (c : Connection) :
    (c.updated t).readState = readAfter t.unread c.readState := by
  unfold Connection.updated
  dsimp only
  rw [apply_ite Connection.readState, ite_self, apply_ite Connection.readState, ite_self,
    apply_ite Connection.readState, readAfter]
  simp only [P2PTransportChannel.readTimesOut, Bool.and_eq_true, decide_eq_true_eq]

/-- The write state after an update. -/
def writeAfter (t : Timing) : WriteState → WriteState
  | .writable => if t.failing then (if t.unanswered then .timeout else .unreliable) else .writable
  | .unreliable => if t.unanswered then .timeout else .unreliable
  | .init => if t.unanswered then .timeout else .init
  | .timeout => .timeout

theorem updated_writeState (t : Timing) (c : Connection) :
    (c.updated t).writeState = writeAfter t c.writeState := by
  have hread : (if P2PTransportChannel.readTimesOut t c = true then
      { c with readState := .timeout } else c).writeState = c.writeState := by
    split <;> rfl
  have hwrite (d : Connection) : (let e := if P2PTransportChannel.becomesUnreliable t d = true then
        { d with writeState := .unreliable }
      else d
      if P2PTransportChannel.writeTimesOut t e = true then { e with writeState := .timeout }
      else e).writeState = writeAfter t d.writeState := by
    obtain ⟨unread, failing, unanswered⟩ := t
    obtain ⟨id, network, iceRole, localPriority, remotePriority, portGeneration, remoteGeneration,
      readState, writeState, pruned, rtt⟩ := d
    cases writeState <;> cases failing <;> cases unanswered <;> rfl
  rw [← hread]
  exact hwrite _

/-- The code's tests are the ones of the channel's model. -/
theorem updateState_timing (x : TimedConnection) (now : UInt32) :
    (x.updateState now).toConnection = x.toConnection.updated (x.timing now) := by
  have hread (c : Connection) : P2PTransportChannel.readTimesOut (x.timing now) c = true ↔
      x.googleIce ∧ c.readState = .readable ∧
        x.lastPingReceived + CONNECTION_READ_TIMEOUT ≤ now ∧
        x.lastDataReceived + CONNECTION_READ_TIMEOUT ≤ now := by
    simp only [P2PTransportChannel.readTimesOut, timing, Bool.and_eq_true, decide_eq_true_eq]
    exact ⟨fun ⟨⟨⟨hg, hp⟩, hd⟩, hr⟩ => ⟨hg, hr, hp, hd⟩,
      fun ⟨hg, hr, hp, hd⟩ => ⟨⟨⟨hg, hp⟩, hd⟩, hr⟩⟩
  have hfail (c : Connection) :
      P2PTransportChannel.becomesUnreliable (x.timing now) c = true ↔ c.writeState = .writable ∧
        tooManyFailures x.pingsSinceLastResponse CONNECTION_WRITE_CONNECT_FAILURES
          (conservativeRTTEstimate x.rtt) now ∧
        tooLongWithoutResponse x.pingsSinceLastResponse CONNECTION_WRITE_CONNECT_TIMEOUT now := by
    simp only [P2PTransportChannel.becomesUnreliable, timing, Bool.and_eq_true, decide_eq_true_eq]
    exact and_comm
  have htimeout (c : Connection) :
      P2PTransportChannel.writeTimesOut (x.timing now) c = true ↔
        (c.writeState = .unreliable ∨ c.writeState = .init) ∧
        tooLongWithoutResponse x.pingsSinceLastResponse CONNECTION_WRITE_TIMEOUT now := by
    simp only [P2PTransportChannel.writeTimesOut, timing, Bool.and_eq_true, Bool.or_eq_true,
      decide_eq_true_eq]
    exact and_comm
  unfold updateState Connection.updated
  simp only [hread, hfail, htimeout]

/-! ### States on which no shift has an effect -/

theorem unread_shift (x : TimedConnection) (now c : UInt32) :
    ((x.shift c).timing (now + c)).unread = true ↔
    x.googleIce = true ∧ x.lastPingReceived + c + CONNECTION_READ_TIMEOUT ≤ now + c ∧
    x.lastDataReceived + c + CONNECTION_READ_TIMEOUT ≤ now + c := by
  show (x.googleIce && decide (x.lastPingReceived + c + CONNECTION_READ_TIMEOUT ≤ now + c) &&
    decide (x.lastDataReceived + c + CONNECTION_READ_TIMEOUT ≤ now + c)) = true ↔ _
  rw [Bool.and_eq_true, Bool.and_eq_true, decide_eq_true_iff, decide_eq_true_iff, and_assoc]

theorem tooLongWithoutResponse_shift (pings : List UInt32) (maximumTime c : UInt32) :
    tooLongWithoutResponse (pings.map (· + c)) maximumTime (now + c) = true ↔
      ∃ t ∈ pings.head?, t + c + maximumTime < now + c := by
  rw [tooLongWithoutResponse, List.head?_map]
  cases pings.head? with
  | none => exact iff_of_false nofun fun ⟨t, ht, _⟩ => nomatch ht
  | some ping =>
    exact decide_eq_true_iff.trans ⟨fun h => ⟨ping, rfl, h⟩, fun ⟨t, ht, h⟩ => by cases ht; exact h⟩

theorem tooManyFailures_shift (pings : List UInt32) (rtt c : UInt32) :
    tooManyFailures (pings.map (· + c)) CONNECTION_WRITE_CONNECT_FAILURES rtt (now + c) = true ↔
      ∃ t ∈ pings[4]?, t + c + rtt < now + c := by
  rw [tooManyFailures, List.length_map]
  by_cases hlen : pings.length < CONNECTION_WRITE_CONNECT_FAILURES
  · rw [if_pos hlen, List.getElem?_eq_none (Nat.le_of_lt_succ hlen)]
    exact iff_of_false nofun fun ⟨t, ht, _⟩ => nomatch ht
  · rw [if_neg hlen, List.getElem?_map]
    show (pings[4]?.map (· + c)).any _ = true ↔ _
    cases pings[4]? with
    | none => exact iff_of_false nofun fun ⟨t, ht, _⟩ => nomatch ht
    | some ping =>
      exact decide_eq_true_iff.trans
        ⟨fun h => ⟨ping, rfl, h⟩, fun ⟨t, ht, h⟩ => by cases ht; exact h⟩

theorem unanswered_shift (x : TimedConnection) (now c : UInt32) :
    ((x.shift c).timing (now + c)).unanswered = true ↔
    ∃ t ∈ x.pingsSinceLastResponse.head?, t + c + CONNECTION_WRITE_TIMEOUT < now + c :=
  tooLongWithoutResponse_shift _ _ c

theorem failing_shift (x : TimedConnection) (now c : UInt32) :
    ((x.shift c).timing (now + c)).failing = true ↔
    (∃ t ∈ x.pingsSinceLastResponse[4]?, t + c + conservativeRTTEstimate x.rtt < now + c) ∧
    ∃ t ∈ x.pingsSinceLastResponse.head?, t + c + CONNECTION_WRITE_CONNECT_TIMEOUT < now + c := by
  rw [← tooManyFailures_shift, ← tooLongWithoutResponse_shift]
  exact Bool.and_eq_true_iff

theorem timing_zero (x : TimedConnection) (now : UInt32) :
    x.timing now = (x.shift 0).timing (now + 0) := by
  unfold shift
  simp only [UInt32.add_zero, List.map_id_fun', id]

theorem writeAfter_writable (t : Timing) :
    writeAfter t .writable = .writable ↔ t.failing = false := by
  unfold writeAfter
  cases t.failing <;> cases t.unanswered <;> simp

theorem writeAfter_waiting {state : WriteState} (hs : state = .unreliable ∨ state = .init)
    (t : Timing) : writeAfter t state = state ↔ t.unanswered = false := by
  rcases hs with rfl | rfl
  all_goals
    unfold writeAfter
    cases t.unanswered <;> simp

/-- The updates leave the same states behind. -/
def SameStates (x : TimedConnection) (now c : UInt32) : Prop :=
  ((x.shift c).updateState (now + c)).readState = (x.updateState now).readState ∧
    ((x.shift c).updateState (now + c)).writeState = (x.updateState now).writeState

/-- No recorded time is looked at but one that is as old as its limit. -/
structure Steady (x : TimedConnection) (now : UInt32) : Prop where
  read : x.googleIce = true → x.readState = .readable →
    x.lastPingReceived + CONNECTION_READ_TIMEOUT = now ∧
      x.lastDataReceived + CONNECTION_READ_TIMEOUT = now
  fail : x.writeState = .writable →
    (∀ t ∈ x.pingsSinceLastResponse[4]?, t + conservativeRTTEstimate x.rtt = now) ∨
      ∀ t ∈ x.pingsSinceLastResponse.head?, t + CONNECTION_WRITE_CONNECT_TIMEOUT = now
  timeout : x.writeState = .unreliable ∨ x.writeState = .init →
    ∀ t ∈ x.pingsSinceLastResponse.head?, t + CONNECTION_WRITE_TIMEOUT = now

theorem sameStates_iff : x.SameStates now c ↔
    (x.readState = .readable →
      ((x.shift c).timing (now + c)).unread = (x.timing now).unread) ∧
    writeAfter ((x.shift c).timing (now + c)) x.writeState =
      writeAfter (x.timing now) x.writeState := by
  unfold SameStates
  rw [updateState_timing, updateState_timing, updated_readState, updated_readState,
    updated_writeState, updated_writeState]
  exact and_congr_left fun _ => readAfter_inj _ _ _

theorem steady_of_same (h : ∀ c, x.SameStates now c) : x.Steady now := by
  have hread (c : UInt32) (hr : x.readState = .readable) := (sameStates_iff.1 (h c)).1 hr
  have hwrite (c : UInt32) := (sameStates_iff.1 (h c)).2
  refine ⟨fun hg hr => ?_, fun hw => ?_, fun hw => ?_⟩
  · have hlate := unread_shift x now (0xFFFFFFFF - now)
    rw [hread _ hr, ← hread (0 - now) hr, unread_shift] at hlate
    obtain ⟨-, hping, hdata⟩ := hlate.2 ⟨hg, le_max _, le_max _⟩
    exact ⟨exact_of_zero hping, exact_of_zero hdata⟩
  · have hearly : ((x.shift (0 - now)).timing (now + (0 - now))).failing = false := by
      rw [← Bool.not_eq_true, failing_shift]
      rintro ⟨⟨t, -, hlt⟩, -⟩
      exact not_lt_zero _ hlt
    have hlate : ((x.shift (0xFFFFFFFF - now)).timing (now + (0xFFFFFFFF - now))).failing =
        false := by
      have hz := hwrite (0 - now)
      have hm := hwrite (0xFFFFFFFF - now)
      rw [hw] at hz hm
      rw [← writeAfter_writable, hm, ← hz, writeAfter_writable, hearly]
    rw [← Bool.not_eq_true, failing_shift] at hlate
    rcases not_and_or.1 hlate with hnone | hnone
    · exact .inl fun t ht => exact_of_max fun hlt => hnone ⟨t, ht, hlt⟩
    · exact .inr fun t ht => exact_of_max fun hlt => hnone ⟨t, ht, hlt⟩
  · have hearly : ((x.shift (0 - now)).timing (now + (0 - now))).unanswered = false := by
      rw [← Bool.not_eq_true, unanswered_shift]
      rintro ⟨t, -, hlt⟩
      exact not_lt_zero _ hlt
    have hlate : ((x.shift (0xFFFFFFFF - now)).timing (now + (0xFFFFFFFF - now))).unanswered =
        false := by
      rw [← writeAfter_waiting hw, hwrite, ← hwrite (0 - now), writeAfter_waiting hw, hearly]
    rw [← Bool.not_eq_true, unanswered_shift] at hlate
    exact fun t ht => exact_of_max fun hlt => hlate ⟨t, ht, hlt⟩

theorem same_of_steady (h : x.Steady now) (c : UInt32) : x.SameStates now c := by
  have hread (c : UInt32) (hr : x.readState = .readable) :
      ((x.shift c).timing (now + c)).unread = x.googleIce := by
    rw [Bool.eq_iff_iff, unread_shift]
    refine ⟨fun hu => hu.1, fun hg => ?_⟩
    obtain ⟨hping, hdata⟩ := h.read hg hr
    exact ⟨hg, le_of_exact hping c, le_of_exact hdata c⟩
  have hwrite (c : UInt32) :
      writeAfter ((x.shift c).timing (now + c)) x.writeState = x.writeState := by
    have hwaiting (hw : x.writeState = .unreliable ∨ x.writeState = .init) :
        writeAfter ((x.shift c).timing (now + c)) x.writeState = x.writeState := by
      rw [writeAfter_waiting hw, ← Bool.not_eq_true, unanswered_shift]
      rintro ⟨t, ht, hlt⟩
      exact not_lt_of_exact (h.timeout hw t ht) c hlt
    cases hw : x.writeState with
    | writable =>
      rw [writeAfter_writable, ← Bool.not_eq_true, failing_shift]
      rintro ⟨⟨t, ht, hlt⟩, t', ht', hlt'⟩
      rcases h.fail hw with hexact | hexact
      · exact not_lt_of_exact (hexact t ht) c hlt
      · exact not_lt_of_exact (hexact t' ht') c hlt'
    | unreliable => exact hw ▸ hwaiting (.inl hw)
    | init => exact hw ▸ hwaiting (.inr hw)
    | timeout => rfl
  rw [sameStates_iff, timing_zero x now]
  exact ⟨fun hr => (hread c hr).trans (hread 0 hr).symm, (hwrite c).trans (hwrite 0).symm⟩

theorem steady_iff : (∀ c, x.SameStates now c) ↔ x.Steady now :=
  ⟨steady_of_same, same_of_steady⟩

end TimedConnection

/-! ## The choice by age -/

section Ages

variable {α : Type} {fits : α → Bool} {age : α → Nat} {xs : List α} {b : α} {n a : Nat}

/-- The time that is `a` before `n`. -/
def stamp (n a : Nat) : Nat := if a ≤ n then n - a else n + 4294967296 - a

/-- The limit of the best connection has passed, as the sum is compared. -/
def due (n a : Nat) : Bool := (stamp n a + 900) % 4294967296 ≤ n

theorem due_iff (hn : n < 4294967296) (ha : a < 4294967296) : due n a = true ↔
    a = 900 ∨ (a < 900 ∧ 4294967296 ≤ n + (900 - a)) ∨ (900 < a ∧ a ≤ n + 900) := by
  unfold due stamp
  rw [decide_eq_true_iff]
  split <;> omega

def oldest (fits : α → Bool) (age : α → Nat) (xs : List α) (n : Nat) : Option α :=
  (FirstBest.scan fits (fun y => stamp n (age y)) 4294967295 xs).1

/-- The first of the oldest. -/
def Oldest (fits : α → Bool) (age : α → Nat) (xs : List α) (b : α) : Prop :=
  fits b = true ∧ ∃ before behind, xs = before ++ b :: behind ∧
    (∀ y ∈ before, fits y = true → age y < age b) ∧
    ∀ y ∈ behind, fits y = true → age y ≤ age b

theorem stamp_lt_iff {a' : Nat} (ha : a < 4294967296) (ha' : a' < 4294967296)
    (h : a' ≤ n ↔ a ≤ n) : stamp n a < stamp n a' ↔ a' < a := by
  unfold stamp
  split <;> split <;> omega

theorem stamp_le_iff {a' : Nat} (ha' : a' < 4294967296)
    (h : a' ≤ n ↔ a ≤ n) : stamp n a ≤ stamp n a' ↔ a' ≤ a := by
  unfold stamp
  split <;> split <;> omega

/-- Where no time is on the other side of the wrap, or all are, the smallest is the oldest. -/
theorem oldest_of_aligned (hb : Oldest fits age xs b) (hlt : stamp n (age b) < 4294967295)
    (hages : ∀ y ∈ xs, fits y = true → age y < 4294967296 ∧ (age y ≤ n ↔ age b ≤ n)) :
    oldest fits age xs n = some b := by
  obtain ⟨hfits, before, behind, rfl, hbefore, hbehind⟩ := hb
  have hb := (hages b (List.mem_append_right _ List.mem_cons_self) hfits).1
  refine FirstBest.Chosen.scan_eq ⟨hfits, hlt, before, behind, rfl, fun y hy hf => ?_,
    fun y hy hf => ?_⟩
  · obtain ⟨hy', hsame⟩ := hages y (List.mem_append_left _ hy) hf
    exact (stamp_lt_iff hb hy' hsame).2 (hbefore y hy hf)
  · obtain ⟨hy', hsame⟩ := hages y (List.mem_append_right _ (List.mem_cons_of_mem _ hy)) hf
    exact (stamp_le_iff hy' hsame).2 (hbehind y hy hf)

theorem oldest_of_chosen (h : oldest fits age xs n = some b)
    (hages : ∀ y ∈ xs, fits y = true → age y < 4294967296 ∧ (age y ≤ n ↔ age b ≤ n)) :
    Oldest fits age xs b := by
  have hchosen : FirstBest.Chosen fits (fun y => stamp n (age y)) 4294967295 xs b :=
    FirstBest.scan_some h
  have hb := (hages b hchosen.mem hchosen.1).1
  obtain ⟨hfits, -, before, behind, rfl, hbefore, hbehind⟩ := hchosen
  refine ⟨hfits, before, behind, rfl, fun y hy hf => ?_, fun y hy hf => ?_⟩
  · obtain ⟨hy', hsame⟩ := hages y (List.mem_append_left _ hy) hf
    exact (stamp_lt_iff hb hy' hsame).1 (hbefore y hy hf)
  · obtain ⟨hy', hsame⟩ := hages y (List.mem_append_right _ (List.mem_cons_of_mem _ hy)) hf
    exact (stamp_le_iff hy' hsame).1 (hbehind y hy hf)

theorem stamp_of_chosen (h : oldest fits age xs n = some b) : stamp n (age b) < 4294967295 :=
  (FirstBest.scan_some h).2.1

theorem stamp_least (h : oldest fits age xs n = some b) {y : α} (hy : y ∈ xs)
    (hf : fits y = true) : stamp n (age b) ≤ stamp n (age y) :=
  (FirstBest.scan_some h).least hy hf

/-- A choice of the loop that is the same at all times is none. -/
theorem none_of_constant {v : Option α} (hages : ∀ y ∈ xs, fits y = true → age y < 4294967296)
    (h : ∀ n < 4294967296, oldest fits age xs n = v) : ∀ y ∈ xs, fits y = false := by
  intro y hy
  by_contra hf
  rw [Bool.not_eq_false] at hf
  cases v with
  | some x =>
    -- a millisecond before its own time the connection has the time that nothing is below
    have hx : age x < 4294967296 := by
      have hchosen := FirstBest.scan_some (h 0 (by decide))
      exact hages x hchosen.mem hchosen.1
    by_cases hzero : age x = 0
    · have hlt := stamp_of_chosen (h 4294967295 (by decide))
      rw [hzero] at hlt
      exact absurd hlt (by decide)
    · have hlt := stamp_of_chosen (h (age x - 1) (by omega))
      unfold stamp at hlt
      rw [if_neg (by omega)] at hlt
      omega
  | none =>
    have hle := FirstBest.scan_eq_none_iff.1 (h (age y) (hages y hy hf)) y hy hf
    unfold stamp at hle
    rw [if_pos (Nat.le_refl _)] at hle
    omega

/-- The best connection is what the loop chooses whenever its limit has not passed. -/
theorem constant_iff (hb : age b < 1073741824)
    (hages : ∀ y ∈ xs, fits y = true → age y < 1073741824) :
    (∀ n < 4294967296, due n (age b) = false → oldest fits age xs n = some b) ↔
      age b = 900 ∨ (Oldest fits age xs b ∧
        (age b = 0 ∨ 900 < age b ∧ ∀ y ∈ xs, fits y = true → age b ≤ age y + 900)) := by
  have hnot {n : Nat} (hn : n < 4294967296) : due n (age b) = false ↔ age b ≠ 900 ∧
      (age b < 900 → n + (900 - age b) < 4294967296) ∧ (900 < age b → n + 900 < age b) := by
    rw [← Bool.not_eq_true, due_iff hn (by omega)]
    omega
  constructor
  · intro h
    by_cases h900 : age b = 900
    · exact .inl h900
    refine .inr ?_
    rcases Nat.lt_or_gt_of_ne h900 with hless | hmore
    · by_cases hzero : age b = 0
      · -- long after the wrap every time is on this side of it
        have hn := h 1073741824 (by decide) ((hnot (by decide)).2 ⟨h900, by omega, by omega⟩)
        refine ⟨oldest_of_chosen hn fun y hy hf => ?_, .inl hzero⟩
        have := hages y hy hf
        omega
      · have hn := h (age b - 1) (by omega) ((hnot (by omega)).2 ⟨h900, by omega, by omega⟩)
        have hlt := stamp_of_chosen hn
        unfold stamp at hlt
        rw [if_neg (by omega)] at hlt
        omega
    · -- the last time before its limit passes, where the wrap is behind the others too
      have hn := h (age b - 901) (by omega) ((hnot (by omega)).2 ⟨h900, by omega, by omega⟩)
      have hlate (y : α) (hy : y ∈ xs) (hf : fits y = true) : age b ≤ age y + 900 := by
        have hle := stamp_least hn hy hf
        have := hages y hy hf
        unfold stamp at hle
        rw [if_neg (by omega)] at hle
        split at hle <;> omega
      refine ⟨oldest_of_chosen hn fun y hy hf => ?_, .inr ⟨hmore, hlate⟩⟩
      have := hages y hy hf
      have := hlate y hy hf
      omega
  · rintro h n hn hdue
    obtain ⟨h900, hless, hmore⟩ := (hnot hn).1 hdue
    obtain ⟨holdest, hcase⟩ := h.resolve_left h900
    rcases hcase with hzero | ⟨hgt, hlate⟩
    · have hage (y : α) (hy : y ∈ xs) (hf : fits y = true) : age y = 0 := by
        obtain ⟨-, before, behind, rfl, hbefore, hbehind⟩ := holdest
        rcases List.mem_append.1 hy with hy | hy
        · have := hbefore y hy hf
          omega
        · rcases List.mem_cons.1 hy with rfl | hy
          · exact hzero
          · have := hbehind y hy hf
            omega
      refine oldest_of_aligned holdest ?_ fun y hy hf => ?_
      · have := hless (by omega)
        unfold stamp
        rw [hzero, if_pos (Nat.zero_le _)]
        omega
      · rw [hage y hy hf, hzero]
        omega
    · have := hmore hgt
      refine oldest_of_aligned holdest ?_ fun y hy hf => ?_
      · unfold stamp
        rw [if_neg (by omega)]
        omega
      · have := hages y hy hf
        have := hlate y hy hf
        omega

end Ages

/-! ## The choice -/

section Wrap

variable {t limit now c : UInt32}

/-- A time on this side of the wrap, whose limit is as well. -/
theorem add_lt_iff (ht : (now - t).toNat ≤ now.toNat) (hn : now.toNat + 30000 < 4294967296)
    (hl : limit.toNat ≤ 30000) : t + limit < now ↔ limit.toNat < (now - t).toNat := by
  rw [UInt32.lt_iff_toNat_lt, UInt32.toNat_add]
  rw [UInt32.toNat_sub] at ht ⊢
  have := t.toNat_lt
  have := now.toNat_lt
  omega

theorem add_le_iff (ht : (now - t).toNat ≤ now.toNat) (hn : now.toNat + 30000 < 4294967296)
    (hl : limit.toNat ≤ 30000) : t + limit ≤ now ↔ limit.toNat ≤ (now - t).toNat := by
  rw [UInt32.le_iff_toNat_le, UInt32.toNat_add]
  rw [UInt32.toNat_sub] at ht ⊢
  have := t.toNat_lt
  have := now.toNat_lt
  omega

theorem age_shift (now t c : UInt32) : now + c - (t + c) = now - t := by grind

theorem conservativeRTTEstimate_le (rtt : UInt32) :
    (conservativeRTTEstimate rtt).toNat ≤ 30000 := by
  have hmin : min 3000 (2 * rtt) ≤ 3000 := by
    show (if (3000 : UInt32) ≤ 2 * rtt then 3000 else 2 * rtt) ≤ 3000
    split
    · exact UInt32.le_refl _
    · exact UInt32.le_of_lt (UInt32.not_le.1 ‹_›)
  rw [UInt32.le_iff_toNat_le] at hmin
  show (if 100 ≤ min 3000 (2 * rtt) then min 3000 (2 * rtt) else 100).toNat ≤ 30000
  split
  · exact hmin.trans (by decide)
  · decide

end Wrap

theorem toNat_shift (t now c : UInt32) :
    (t + c).toNat = stamp (now + c).toNat (now - t).toNat := by
  have hback : t + c = now + c - (now - t) := by grind
  rw [hback, UInt32.toNat_sub, stamp]
  have h1 := (now + c).toNat_lt
  have h2 := (now - t).toNat_lt
  split <;> omega

namespace TimedConnection

variable {x : TimedConnection} {now c : UInt32}

/-- What has passed since the last ping was sent. -/
def age (now : UInt32) (x : TimedConnection) : Nat := (now - x.lastPingSent).toNat

theorem lastPingSent_shift (x : TimedConnection) (now c : UInt32) :
    (x.shift c).lastPingSent.toNat = stamp (now + c).toNat (x.age now) :=
  toNat_shift x.lastPingSent now c

theorem due_shift (x : TimedConnection) (now c : UInt32) :
    (x.shift c).lastPingSent + MAX_CURRENT_WRITABLE_DELAY ≤ now + c ↔
      due (now + c).toNat (x.age now) = true := by
  rw [UInt32.le_iff_toNat_le, UInt32.toNat_add, lastPingSent_shift x now, due, decide_eq_true_iff]
  rfl

theorem shift_shift (c d : UInt32) : (x.shift c).shift d = x.shift (c + d) := by
  unfold shift
  simp only [List.map_map, Function.comp_def, UInt32.add_assoc]

theorem shift_zero : x.shift 0 = x := by
  unfold shift
  simp only [UInt32.add_zero, List.map_id_fun', id]

theorem shift_injective (c : UInt32) : Function.Injective (shift c) := by
  intro x y h
  have h' := congrArg (shift (0 - c)) h
  rwa [shift_shift, shift_shift, shift_to, shift_zero, shift_zero] at h'

end TimedConnection

namespace TimedChannel

variable {s : TimedChannel} {now c : UInt32} {n : Nat}

def shift (c : UInt32) (s : TimedChannel) : TimedChannel :=
  { s with connections := s.connections.map (·.shift c) }

/-- The choice at the time `n` of connections with the ages they have. -/
def pick (s : TimedChannel) (now : UInt32) (n : Nat) : Option TimedConnection :=
  match s.bestConnection with
  | some best =>
    if best.writeState = .writable ∧ due n (best.age now) = true then some best
    else oldest s.isPingable (·.age now) s.connections n
  | none => oldest s.isPingable (·.age now) s.connections n

theorem bestConnection_shift (s : TimedChannel) (c : UInt32) :
    (s.shift c).bestConnection = s.bestConnection.map (·.shift c) := by
  unfold bestConnection shift
  cases s.best with
  | none => rfl
  | some id =>
    show (s.connections.map (·.shift c)).find? (·.id == id) = _
    rw [List.find?_map]
    rfl

theorem oldestConnection_shift (s : TimedChannel) (now c : UInt32) :
    (s.shift c).oldestConnection =
      (oldest s.isPingable (·.age now) s.connections (now + c).toNat).map (·.shift c) := by
  have hcost : (fun x : TimedConnection => x.lastPingSent.toNat) ∘ TimedConnection.shift c =
      fun x => stamp (now + c).toNat (TimedConnection.age now x) :=
    funext fun x => TimedConnection.lastPingSent_shift x now c
  unfold oldestConnection
  rw [show (s.shift c).connections = s.connections.map (TimedConnection.shift c) from rfl,
    FirstBest.scan_map, hcost]
  rfl

theorem findNextPingableConnection_shift (s : TimedChannel) (now c : UInt32) :
    (s.shift c).findNextPingableConnection (now + c) =
      (s.pick now (now + c).toNat).map (·.shift c) := by
  unfold findNextPingableConnection pick
  rw [bestConnection_shift]
  cases s.bestConnection with
  | none => exact oldestConnection_shift s now c
  | some best =>
    rw [oldestConnection_shift s now]
    have hdue := TimedConnection.due_shift best now c
    dsimp only
    by_cases h : best.writeState = .writable ∧ due (now + c).toNat (best.age now) = true
    · rw [if_pos h]
      exact if_pos ⟨h.1, hdue.2 h.2⟩
    · rw [if_neg h]
      exact if_neg fun h' => h ⟨h'.1, hdue.1 h'.2⟩

/-- The same connection is picked. -/
def SamePick (s : TimedChannel) (now c : UInt32) : Prop :=
  (s.shift c).findNextPingableConnection (now + c) =
    (s.findNextPingableConnection now).map (·.shift c)

theorem findNextPingableConnection_eq (s : TimedChannel) (now : UInt32) :
    s.findNextPingableConnection now = s.pick now now.toNat := by
  have hzero : TimedConnection.shift 0 = id := funext fun x => TimedConnection.shift_zero
  have hshift : s.shift 0 = s := by
    unfold shift
    rw [hzero, List.map_id]
  have h := findNextPingableConnection_shift s now 0
  rwa [hshift, UInt32.add_zero, hzero, Option.map_id] at h

theorem samePick_iff : s.SamePick now c ↔ s.pick now (now + c).toNat = s.pick now now.toNat := by
  rw [SamePick, findNextPingableConnection_shift, findNextPingableConnection_eq]
  exact (Option.map_injective (TimedConnection.shift_injective c)).eq_iff

/-- The best connection where it is writable. -/
def writableBest (s : TimedChannel) : Option TimedConnection :=
  s.bestConnection.filter (·.writeState = .writable)

theorem pick_of_none (h : s.writableBest = none) :
    s.pick now n = oldest s.isPingable (·.age now) s.connections n := by
  unfold pick
  cases hbest : s.bestConnection with
  | none => rfl
  | some best =>
    rw [writableBest, hbest, Option.filter_eq_none_iff] at h
    exact if_neg fun hw => h best rfl (decide_eq_true hw.1)

theorem pick_of_some {best : TimedConnection} (h : s.writableBest = some best) :
    s.pick now n = if due n (best.age now) = true then some best
      else oldest s.isPingable (·.age now) s.connections n := by
  obtain ⟨hbest, hw⟩ := Option.filter_eq_some_iff.1 h
  unfold pick
  rw [hbest]
  dsimp only
  rw [if_congr (and_iff_right (of_decide_eq_true hw)) rfl rfl]

theorem writableBest_mem {best : TimedConnection} (h : s.writableBest = some best) :
    best ∈ s.connections := by
  obtain ⟨id, -, hfind⟩ := Option.bind_eq_some_iff.1 (Option.filter_eq_some_iff.1 h).1
  exact List.mem_of_find?_eq_some hfind

/-- There is no choice to make, or the best connection is chosen whatever the clock says. -/
def PickSteady (s : TimedChannel) (now : UInt32) : Prop :=
  match s.writableBest with
  | some best => best.age now = 900 ∨ (Oldest s.isPingable (·.age now) s.connections best ∧
      (best.age now = 0 ∨ 900 < best.age now ∧
        ∀ y ∈ s.connections, s.isPingable y = true → best.age now ≤ y.age now + 900))
  | none => ∀ y ∈ s.connections, s.isPingable y = false

theorem pick_steady_iff (hages : ∀ x ∈ s.connections, x.age now < 1073741824) :
    (∀ c, s.SamePick now c) ↔ s.PickSteady now := by
  have hall : (∀ c, s.SamePick now c) ↔ ∀ n < 4294967296, s.pick now n = s.pick now now.toNat := by
    constructor
    · intro h n hn
      have hpick := samePick_iff.1 (h (.ofNat n - now))
      rwa [shift_to, UInt32.toNat_ofNat_of_lt' hn] at hpick
    · exact fun h c => samePick_iff.2 (h _ (now + c).toNat_lt)
  rw [hall]
  unfold PickSteady
  cases hbest : s.writableBest with
  | none =>
    constructor
    · intro h
      refine none_of_constant (v := s.pick now now.toNat)
        (fun y hy _ => (hages y hy).trans (by decide)) fun n hn => ?_
      rw [← pick_of_none hbest]
      exact h n hn
    · intro h n hn
      have hnone (n : Nat) : oldest s.isPingable (·.age now) s.connections n = none :=
        FirstBest.scan_eq_none_iff.2 fun y hy hf => nomatch (h y hy).symm.trans hf
      rw [pick_of_none hbest, pick_of_none hbest, hnone, hnone]
  | some best =>
    have hage := hages best (writableBest_mem hbest)
    refine Iff.trans ?_ (constant_iff hage fun y hy _ => hages y hy)
    constructor
    · intro h n hn hdue
      have hmax : due 4294967295 (best.age now) = true :=
        (due_iff (by decide) (by omega)).2 (by omega)
      have hlast := h 4294967295 (by decide)
      rw [pick_of_some hbest, if_pos hmax, ← h n hn, pick_of_some hbest, hdue] at hlast
      exact hlast.symm
    · intro h
      have hsome (n : Nat) (hn : n < 4294967296) : s.pick now n = some best := by
        rw [pick_of_some hbest]
        split
        · rfl
        · rename_i hdue
          exact h n hn (Bool.eq_false_iff.2 hdue)
      exact fun n hn => (hsome n hn).trans (hsome _ now.toNat_lt).symm

end TimedChannel

/-! ## Far from the wrap -/

theorem oldest_eq {α : Type} {fits : α → Bool} {age : α → Nat} {xs : List α} {n n' : Nat}
    (hn : n < 4294967295) (hn' : n' < 4294967295)
    (hages : ∀ y ∈ xs, fits y = true → age y ≤ n ∧ age y ≤ n') :
    oldest fits age xs n = oldest fits age xs n' := by
  have hlt (m : Nat) (hm : m < 4294967295) {y : α} (hy : age y ≤ m) :
      stamp m (age y) < 4294967295 := by
    unfold stamp
    rw [if_pos hy]
    omega
  have haligned (m : Nat) (hm : m < 4294967295) (b : α) (hb : age b ≤ m)
      (h : ∀ y ∈ xs, fits y = true → age y ≤ m) :
      ∀ y ∈ xs, fits y = true → age y < 4294967296 ∧ (age y ≤ m ↔ age b ≤ m) := by
    intro y hy hf
    have := h y hy hf
    omega
  cases hb : oldest fits age xs n with
  | none =>
    refine (FirstBest.scan_eq_none_iff.2 fun y hy hf => ?_).symm
    have hle := FirstBest.scan_eq_none_iff.1 hb y hy hf
    exact absurd (hlt n hn (hages y hy hf).1) (not_lt_of_ge hle)
  | some b =>
    have hchosen := FirstBest.scan_some hb
    obtain ⟨hage, hage'⟩ := hages b hchosen.mem hchosen.1
    have holdest := oldest_of_chosen hb (haligned n hn b hage fun y hy hf => (hages y hy hf).1)
    exact (oldest_of_aligned holdest (hlt n' hn' hage')
      (haligned n' hn' b hage' fun y hy hf => (hages y hy hf).2)).symm

namespace TimedConnection

variable {x : TimedConnection} {now c : UInt32}

/-- All that was recorded. -/
def times (x : TimedConnection) : List UInt32 :=
  x.pingsSinceLastResponse ++ [x.lastPingSent, x.lastPingReceived, x.lastDataReceived]

theorem times_shift (x : TimedConnection) (c : UInt32) :
    (x.shift c).times = x.times.map (· + c) := by
  rw [times, times, List.map_append]
  rfl

theorem times_of_all {p : UInt32 → Prop} [DecidablePred p] (h : x.times.all (p ·) = true) :
    ∀ t ∈ x.times, p t := fun t ht => of_decide_eq_true (List.all_eq_true.1 h t ht)

/-- No recorded time is on the other side of the wrap. -/
def Apart (x : TimedConnection) (now : UInt32) : Prop :=
  ∀ t ∈ x.times, (now - t).toNat ≤ now.toNat

theorem Apart.of_shift (h : (x.shift c).Apart (now + c)) {t : UInt32} (ht : t ∈ x.times) :
    (now - t).toNat ≤ (now + c).toNat := by
  have hshift := h (t + c) (by rw [times_shift]; exact List.mem_map_of_mem ht)
  rwa [age_shift] at hshift

theorem same_of_apart (h : x.Apart now) (hs : (x.shift c).Apart (now + c))
    (hn : now.toNat + 30000 < 4294967296) (hc : (now + c).toNat + 30000 < 4294967296) :
    x.SameStates now c := by
  have hlt {t limit : UInt32} (ht : t ∈ x.times) (hl : limit.toNat ≤ 30000) :
      t + c + limit < now + c ↔ t + 0 + limit < now + 0 := by
    have hage := hs.of_shift ht
    rw [← age_shift now t c] at hage
    rw [add_lt_iff hage hc hl, age_shift, UInt32.add_zero, UInt32.add_zero,
      add_lt_iff (h t ht) hn hl]
  have hle {t limit : UInt32} (ht : t ∈ x.times) (hl : limit.toNat ≤ 30000) :
      t + c + limit ≤ now + c ↔ t + 0 + limit ≤ now + 0 := by
    have hage := hs.of_shift ht
    rw [← age_shift now t c] at hage
    rw [add_le_iff hage hc hl, age_shift, UInt32.add_zero, UInt32.add_zero,
      add_le_iff (h t ht) hn hl]
  have hpings {t : UInt32} (ht : t ∈ x.pingsSinceLastResponse) : t ∈ x.times :=
    List.mem_append_left _ ht
  have hlast {t : UInt32} (ht : t ∈ [x.lastPingSent, x.lastPingReceived, x.lastDataReceived]) :
      t ∈ x.times := List.mem_append_right _ ht
  have hhead {limit : UInt32} (hl : limit.toNat ≤ 30000) :
      (∃ t ∈ x.pingsSinceLastResponse.head?, t + c + limit < now + c) ↔
        ∃ t ∈ x.pingsSinceLastResponse.head?, t + 0 + limit < now + 0 :=
    exists_congr fun t => and_congr_right fun ht => hlt (hpings (List.mem_of_mem_head? ht)) hl
  have hunread : ((x.shift c).timing (now + c)).unread = (x.timing now).unread := by
    rw [Bool.eq_iff_iff, timing_zero x now, unread_shift, unread_shift,
      hle (hlast (by simp)) (by decide), hle (hlast (by simp)) (by decide)]
  have hfailing : ((x.shift c).timing (now + c)).failing = (x.timing now).failing := by
    rw [Bool.eq_iff_iff, timing_zero x now, failing_shift, failing_shift, hhead (by decide)]
    refine and_congr_left fun _ => exists_congr fun t => and_congr_right fun ht => ?_
    exact hlt (hpings (List.mem_of_getElem? ht)) (conservativeRTTEstimate_le x.rtt)
  have hunanswered : ((x.shift c).timing (now + c)).unanswered = (x.timing now).unanswered := by
    rw [Bool.eq_iff_iff, timing_zero x now, unanswered_shift, unanswered_shift, hhead (by decide)]
  have htiming : (x.shift c).timing (now + c) = x.timing now :=
    (Timing.mk.injEq ..).mpr ⟨hunread, hfailing, hunanswered⟩
  rw [sameStates_iff, htiming]
  exact ⟨fun _ => rfl, rfl⟩

end TimedConnection

namespace TimedChannel

variable {s : TimedChannel} {now c : UInt32}

/-- Neither the recorded times nor the limits are on the other side of the wrap from now. -/
def Apart (s : TimedChannel) (now : UInt32) : Prop :=
  now.toNat + 30000 < 4294967296 ∧ ∀ x ∈ s.connections, x.Apart now

theorem pick_of_apart (h : s.Apart now) (hs : (s.shift c).Apart (now + c)) : s.SamePick now c := by
  have hold (x : TimedConnection) (hx : x ∈ s.connections) :
      x.age now ≤ now.toNat ∧ x.age now ≤ (now + c).toNat := by
    have ht : x.lastPingSent ∈ x.times := List.mem_append_right _ (by simp)
    exact ⟨h.2 x hx _ ht, (hs.2 _ (List.mem_map_of_mem hx)).of_shift ht⟩
  have hdue {n a : Nat} (hn : n + 30000 < 4294967296) (ha : a ≤ n) :
      due n a = true ↔ 900 ≤ a := by
    rw [due_iff (by omega) (by omega)]
    omega
  have hn := h.1
  have hc := hs.1
  have holdest : oldest s.isPingable (·.age now) s.connections (now + c).toNat =
      oldest s.isPingable (·.age now) s.connections now.toNat :=
    oldest_eq (by omega) (by omega) fun y hy _ => (hold y hy).symm
  rw [samePick_iff]
  cases hbest : s.writableBest with
  | none => rw [pick_of_none hbest, pick_of_none hbest, holdest]
  | some best =>
    obtain ⟨hage, hage'⟩ := hold best (writableBest_mem hbest)
    rw [pick_of_some hbest, pick_of_some hbest, holdest]
    exact if_congr ((hdue hc hage').trans (hdue hn hage).symm) rfl rfl

/-- The states are the same after the updates, and the same connection is pinged next. -/
def Agrees (s : TimedChannel) (now c : UInt32) : Prop :=
  (∀ x ∈ s.connections, x.SameStates now c) ∧ s.SamePick now c

/-- The clock's origin does not matter for the states in which the clock does not, and for no
other one; far from the wrap it does not matter. -/
theorem agrees_iff (hrecent : ∀ x ∈ s.connections, ∀ t ∈ x.times, (now - t).toNat < 1073741824) :
    ((∀ c, s.Agrees now c) ↔ (∀ x ∈ s.connections, x.Steady now) ∧ s.PickSteady now) ∧
    ∀ c, s.Apart now → (s.shift c).Apart (now + c) → s.Agrees now c := by
  constructor
  · rw [← pick_steady_iff fun x hx => hrecent x hx _ (List.mem_append_right _ (by simp))]
    constructor
    · exact fun h => ⟨fun x hx => TimedConnection.steady_iff.1 fun c => (h c).1 x hx,
        fun c => (h c).2⟩
    · exact fun h c => ⟨fun x hx => TimedConnection.steady_iff.2 (h.1 x hx) c, h.2 c⟩
  · intro c h hs
    refine ⟨fun x hx => ?_, pick_of_apart h hs⟩
    exact TimedConnection.same_of_apart (h.2 x hx) (hs.2 _ (List.mem_map_of_mem hx)) h.1 hs.1

/-- A new connection after its first ping, at 100 ms before the wrap. -/
def justPinged : TimedConnection where
  id := 1
  network := 1
  iceRole := .controlling
  localPriority := 1
  remotePriority := 1
  portGeneration := 0
  remoteGeneration := 0
  googleIce := false
  connected := true
  pingsSinceLastResponse := [4294967196]
  lastPingSent := 4294967196
  lastPingReceived := 4294967196
  lastDataReceived := 4294967196

/-- The same connection half of the clock later: a second more makes no difference. -/
theorem agrees_iff_far :
    (⟨[justPinged.shift 2147483648], none, false⟩ : TimedChannel).Agrees 2147483558 1000 := by
  have hrecent : ∀ x ∈ [justPinged.shift 2147483648], ∀ t ∈ x.times,
      ((2147483558 : UInt32) - t).toNat < 1073741824 := fun x hx => by
    obtain rfl := List.mem_singleton.1 hx
    exact TimedConnection.times_of_all (by decide)
  refine (agrees_iff hrecent).2 1000 ⟨by decide, fun x hx => ?_⟩ ⟨by decide, fun x hx => ?_⟩
  · obtain rfl := List.mem_singleton.1 hx
    exact TimedConnection.times_of_all (by decide)
  · obtain rfl := List.mem_singleton.1 hx
    exact TimedConnection.times_of_all (by decide)

/-- Ten milliseconds after its first ping the connection has timed out, and half of the clock later
it has not. -/
theorem wrapped_timeout :
    (∀ x ∈ [justPinged], ∀ t ∈ x.times, ((4294967206 : UInt32) - t).toNat < 1073741824) ∧
    (justPinged.updateState 4294967206).writeState = .timeout ∧
    ((justPinged.shift 2147483648).updateState (4294967206 + 2147483648)).writeState = .init ∧
    ¬(⟨[justPinged], none, false⟩ : TimedChannel).Agrees 4294967206 2147483648 := by
  have hearly : (justPinged.updateState 4294967206).writeState = .timeout := by decide
  have hlate : ((justPinged.shift 2147483648).updateState (4294967206 + 2147483648)).writeState =
      .init := by decide
  refine ⟨fun x hx => ?_, hearly, hlate, fun h => ?_⟩
  · obtain rfl := List.mem_singleton.1 hx
    exact TimedConnection.times_of_all (by decide)
  have hsame := (h.1 justPinged List.mem_cons_self).2
  rw [hearly, hlate] at hsame
  exact nomatch hsame

end TimedChannel

end RtcCore.L4.Ice
