import RtcCore.Core.Int32
import Mathlib.Data.List.Pairwise
import Mathlib.Data.UInt

/-!
# When packets were sent (`send_time_history.cc`)

`SendTimeHistory` keeps the times of recent packets in a `std::map` by 16-bit
sequence number. The map's order is that of the numbers, which wrap around;
where the circle of packets starts is the key `oldest_sequence_number_`,
moved on to the next key around the circle when its packet leaves the map.
A call has no value where an assertion fails or the subtraction of the age
limit does not fit an `int64_t`.

Results:
* `run_anchored`: the oldest number is a stored key whenever there is one, so
  no assertion of a run fails and every loop ends.
* `nextKey_least`: the key that follows around the circle.
* `eraseOld_live`: on packets numbered in order, the loop removes those that
  are too old and no others.
* `run_retains`: `GetSendTime` finds the packets that were neither removed nor
  are too old.
-/
namespace RtcCore.L2

structure SendTimeHistory where
  packetAgeLimit : Int
  oldestSequenceNumber : UInt16 := 0
  history : List (UInt16 × Int) := []
  deriving DecidableEq, Repr

namespace SendTimeHistory

variable (s : SendTimeHistory)

def find (sequenceNumber : UInt16) : Option (UInt16 × Int) :=
  s.history.find? fun it => it.1 = sequenceNumber

def upperBound (sequenceNumber : UInt16) : Option (UInt16 × Int) :=
  s.history.find? fun it => sequenceNumber < it.1

def erase (sequenceNumber : UInt16) : SendTimeHistory :=
  { s with history := s.history.filter fun it => it.1 ≠ sequenceNumber }

/-- `history_[sequence_number] = timestamp`. -/
def assign (sequenceNumber : UInt16) (timestamp : Int) : SendTimeHistory :=
  { s with history := (s.history.filter fun it => it.1 < sequenceNumber) ++
      (sequenceNumber, timestamp) :: s.history.filter fun it => sequenceNumber < it.1 }

/-- The key behind the oldest one, around the circle.
mirrors send_time_history.cc:61-69 -/
def nextKey : Option (UInt16 × Int) :=
  (s.upperBound s.oldestSequenceNumber).or ((s.find 0).or (s.upperBound 0))

/-- mirrors send_time_history.cc:55-72 -/
def updateOldestSequenceNumber : Option SendTimeHistory :=
  if s.history.isEmpty then some s
  else s.nextKey.map fun it => { s with oldestSequenceNumber := it.1 }

/-- The loop takes a packet out in each round, so that there are as many rounds
as packets at most.
mirrors send_time_history.cc:40-53 -/
def eraseOld (limit : Int) : Nat → SendTimeHistory → Option SendTimeHistory
  | 0, s => if s.history.isEmpty then some s else none
  | rounds + 1, s =>
    if s.history.isEmpty then some s
    else do
      let it ← s.find s.oldestSequenceNumber
      if limit < it.2 then return s
      else
        let s ← (s.erase s.oldestSequenceNumber).updateOldestSequenceNumber
        eraseOld limit rounds s

/-- mirrors send_time_history.cc:30-38 -/
def addAndRemoveOldSendTimes (sequenceNumber : UInt16) (timestamp : Int) :
    Option SendTimeHistory := do
  let limit ← int64 (timestamp - s.packetAgeLimit)
  let s ← eraseOld limit s.history.length s
  let s := if s.history.isEmpty then { s with oldestSequenceNumber := sequenceNumber } else s
  return s.assign sequenceNumber timestamp

/-- What is found, and the state behind.
mirrors send_time_history.cc:74-87 -/
def getSendTime (sequenceNumber : UInt16) (remove : Bool) :
    Option (Option Int × SendTimeHistory) :=
  match s.find sequenceNumber with
  | none => some (none, s)
  | some it =>
    if remove then
      if sequenceNumber = s.oldestSequenceNumber then
        (s.erase sequenceNumber).updateOldestSequenceNumber.map fun s => (some it.2, s)
      else some (some it.2, s.erase sequenceNumber)
    else some (some it.2, s)

/-- mirrors send_time_history.cc:26-28 -/
def clear : SendTimeHistory := { s with history := [] }

inductive Call where
  | add (sequenceNumber : UInt16) (timestamp : Int)
  | get (sequenceNumber : UInt16) (remove : Bool)
  | clear
  deriving DecidableEq, Repr

def call : Call → Option SendTimeHistory
  | .add sequenceNumber timestamp => s.addAndRemoveOldSendTimes sequenceNumber timestamp
  | .get sequenceNumber remove => (s.getSendTime sequenceNumber remove).map Prod.snd
  | .clear => some s.clear

def run : List Call → SendTimeHistory → Option SendTimeHistory
  | [], s => some s
  | c :: cs, s => (s.call c).bind (run cs)

/-! ## The oldest number is a key -/

variable {s : SendTimeHistory} {k : UInt16}

/-- Keys in order, and the oldest number among them. -/
structure Anchored (s : SendTimeHistory) : Prop where
  sorted : s.history.Pairwise fun a b => a.1 < b.1
  oldest : s.history ≠ [] → ∃ it ∈ s.history, it.1 = s.oldestSequenceNumber

theorem find_key {it : UInt16 × Int} (h : s.find k = some it) : it ∈ s.history ∧ it.1 = k :=
  ⟨List.mem_of_find?_eq_some h, by simpa using List.find?_some h⟩

theorem find_isSome_iff : (s.find k).isSome ↔ ∃ it ∈ s.history, it.1 = k := by
  simp [find]

/-- Some key follows, the smallest one if no greater one does. -/
theorem nextKey_isSome (hne : s.history ≠ []) : ∃ it, s.nextKey = some it ∧ it ∈ s.history := by
  obtain ⟨it, hit⟩ := List.exists_mem_of_ne_nil _ hne
  rw [nextKey]
  cases hup : s.upperBound s.oldestSequenceNumber with
  | some r => exact ⟨r, rfl, List.mem_of_find?_eq_some hup⟩
  | none =>
    cases hzero : s.find 0 with
    | some r => exact ⟨r, rfl, List.mem_of_find?_eq_some hzero⟩
    | none =>
      cases hpos : s.upperBound 0 with
      | some r => exact ⟨r, rfl, List.mem_of_find?_eq_some hpos⟩
      | none =>
        have h0 := List.find?_eq_none.1 hzero it hit
        have h1 := List.find?_eq_none.1 hpos it hit
        simp only [decide_eq_true_eq] at h0 h1
        exact absurd (UInt16.pos_iff_ne_zero.2 h0) h1

theorem erase_sorted (h : s.history.Pairwise fun a b => a.1 < b.1) (k : UInt16) :
    (s.erase k).history.Pairwise fun a b => a.1 < b.1 := h.filter _

theorem updateOldest_anchored (h : s.history.Pairwise fun a b => a.1 < b.1) :
    ∃ s', s.updateOldestSequenceNumber = some s' ∧ s'.history = s.history ∧
      s'.packetAgeLimit = s.packetAgeLimit ∧ Anchored s' := by
  rw [updateOldestSequenceNumber]
  by_cases hempty : s.history = []
  · refine ⟨s, by rw [if_pos (by rwa [List.isEmpty_iff])], rfl, rfl, h, fun hne => absurd hempty hne⟩
  · obtain ⟨it, hnext, hmem⟩ := nextKey_isSome hempty
    rw [if_neg (by rwa [List.isEmpty_iff]), hnext]
    exact ⟨_, rfl, rfl, rfl, h, fun _ => ⟨it, hmem, rfl⟩⟩

theorem erase_length_lt (h : (s.find k).isSome) :
    (s.erase k).history.length < s.history.length := by
  obtain ⟨it, hmem, hk⟩ := find_isSome_iff.1 h
  refine List.length_filter_lt_length_iff_exists.2 ⟨it, hmem, ?_⟩
  simp [hk]

theorem eraseOld_anchored (limit : Int) (rounds : Nat) : ∀ {s : SendTimeHistory}, Anchored s →
    s.history.length ≤ rounds →
    ∃ s', eraseOld limit rounds s = some s' ∧ s'.packetAgeLimit = s.packetAgeLimit ∧
      Anchored s' := by
  induction rounds with
  | zero =>
    intro s h hlen
    have hempty : s.history.isEmpty := by simpa using hlen
    exact ⟨s, by rw [eraseOld, if_pos hempty], rfl, h⟩
  | succ rounds ih =>
    intro s h hlen
    rw [eraseOld]
    by_cases hempty : s.history = []
    · exact ⟨s, by rw [if_pos (by rwa [List.isEmpty_iff])], rfl, h⟩
    · have hfind := find_isSome_iff.2 (h.oldest hempty)
      obtain ⟨it, hit⟩ := Option.isSome_iff_exists.1 hfind
      rw [if_neg (by rwa [List.isEmpty_iff]), hit, Option.bind_eq_bind, Option.bind_some]
      by_cases hyoung : limit < it.2
      · exact ⟨s, by rw [if_pos hyoung]; rfl, rfl, h⟩
      · obtain ⟨s₁, hs₁, hhistory, hlimit, h₁⟩ :=
          updateOldest_anchored (erase_sorted h.sorted s.oldestSequenceNumber)
        have hlt := erase_length_lt hfind
        obtain ⟨s', hs', hlimit', h'⟩ := ih h₁ (by rw [hhistory]; omega)
        refine ⟨s', ?_, hlimit'.trans hlimit, h'⟩
        rw [if_neg hyoung, hs₁]
        exact hs'

theorem assign_mem_iff {it : UInt16 × Int} {t : Int} :
    it ∈ (s.assign k t).history ↔ it = (k, t) ∨ (it ∈ s.history ∧ it.1 ≠ k) := by
  simp only [assign, List.mem_append, List.mem_cons, List.mem_filter, decide_eq_true_eq,
    ← UInt16.toNat_inj, UInt16.lt_iff_toNat_lt, ne_eq]
  constructor
  · rintro (⟨h, hlt⟩ | h | ⟨h, hlt⟩)
    · exact .inr ⟨h, by omega⟩
    · exact .inl h
    · exact .inr ⟨h, by omega⟩
  · rintro (h | ⟨h, hne⟩)
    · exact .inr (.inl h)
    · obtain hlt | hgt := Nat.lt_or_gt_of_ne hne
      · exact .inl ⟨h, hlt⟩
      · exact .inr (.inr ⟨h, hgt⟩)

theorem assign_sorted (h : s.history.Pairwise fun a b => a.1 < b.1) (k : UInt16) (t : Int) :
    (s.assign k t).history.Pairwise fun a b => a.1 < b.1 := by
  refine List.pairwise_append.2 ⟨h.filter _, List.pairwise_cons.2 ⟨?_, h.filter _⟩, ?_⟩
  · intro a ha
    simpa using (List.mem_filter.1 ha).2
  · intro a ha b hb
    have hlt : a.1 < k := by simpa using (List.mem_filter.1 ha).2
    obtain rfl | hb := List.mem_cons.1 hb
    · exact hlt
    · exact UInt16.lt_trans hlt (by simpa using (List.mem_filter.1 hb).2)

theorem add_anchored (h : Anchored s) {t : Int} (k : UInt16)
    (hlow : -9223372036854775808 ≤ t - s.packetAgeLimit)
    (hhigh : t - s.packetAgeLimit < 9223372036854775808) :
    ∃ s', s.addAndRemoveOldSendTimes k t = some s' ∧ s'.packetAgeLimit = s.packetAgeLimit ∧
      Anchored s' := by
  obtain ⟨s₁, hs₁, hlimit, h₁⟩ :=
    eraseOld_anchored (t - s.packetAgeLimit) s.history.length h (Nat.le_refl _)
  rw [addAndRemoveOldSendTimes, int64_of_fits hlow hhigh, Option.bind_eq_bind, Option.bind_some,
    hs₁, Option.bind_eq_bind, Option.bind_some]
  by_cases hempty : s₁.history = []
  · rw [if_pos (by rwa [List.isEmpty_iff])]
    exact ⟨_, rfl, hlimit, assign_sorted (s := { s₁ with oldestSequenceNumber := k }) h₁.sorted k t,
      fun _ => ⟨(k, t), assign_mem_iff.2 (.inl rfl), rfl⟩⟩
  · rw [if_neg (by rwa [List.isEmpty_iff])]
    refine ⟨_, rfl, hlimit, assign_sorted h₁.sorted k t, fun _ => ?_⟩
    obtain ⟨it, hmem, hold⟩ := h₁.oldest hempty
    by_cases hk : it.1 = k
    · exact ⟨(k, t), assign_mem_iff.2 (.inl rfl), hk.symm.trans hold⟩
    · exact ⟨it, assign_mem_iff.2 (.inr ⟨hmem, hk⟩), hold⟩

theorem getSendTime_anchored (h : Anchored s) (k : UInt16) (remove : Bool) :
    ∃ r s', s.getSendTime k remove = some (r, s') ∧ s'.packetAgeLimit = s.packetAgeLimit ∧
      Anchored s' := by
  rw [getSendTime]
  cases hfind : s.find k with
  | none => exact ⟨none, s, rfl, rfl, h⟩
  | some it =>
    cases remove with
    | false => exact ⟨some it.2, s, rfl, rfl, h⟩
    | true =>
      by_cases hold : k = s.oldestSequenceNumber
      · obtain ⟨s₁, hs₁, -, hlimit, h₁⟩ := updateOldest_anchored (erase_sorted h.sorted k)
        exact ⟨some it.2, s₁, by simp [hold ▸ hs₁, hold], hlimit, h₁⟩
      · refine ⟨some it.2, s.erase k, by simp [hold], rfl, erase_sorted h.sorted k, fun hne => ?_⟩
        obtain ⟨it', hmem, hkey⟩ := h.oldest fun he => hne (by simp [erase, he])
        refine ⟨it', List.mem_filter.2 ⟨hmem, ?_⟩, hkey⟩
        simpa [hkey] using fun he => hold he.symm

/-- The times from which the age limit can be taken. -/
def Call.Fits (packetAgeLimit : Int) : Call → Prop
  | .add _ t => -9223372036854775808 ≤ t - packetAgeLimit ∧
      t - packetAgeLimit < 9223372036854775808
  | _ => True

theorem call_anchored (h : Anchored s) {c : Call} (hc : c.Fits s.packetAgeLimit) :
    ∃ s', s.call c = some s' ∧ s'.packetAgeLimit = s.packetAgeLimit ∧ Anchored s' := by
  cases c with
  | add k t => exact add_anchored h k hc.1 hc.2
  | get k remove =>
    obtain ⟨r, s', hs', hlimit, h'⟩ := getSendTime_anchored h k remove
    exact ⟨s', by simp [call, hs'], hlimit, h'⟩
  | clear => exact ⟨s.clear, rfl, rfl, List.Pairwise.nil, fun hne => absurd rfl hne⟩

theorem run_anchored (calls : List Call) : ∀ {s : SendTimeHistory}, Anchored s →
    (∀ c ∈ calls, c.Fits s.packetAgeLimit) →
    ∃ s', run calls s = some s' ∧ s'.packetAgeLimit = s.packetAgeLimit ∧ Anchored s' := by
  induction calls with
  | nil => exact fun h _ => ⟨_, rfl, rfl, h⟩
  | cons c cs ih =>
    intro s h hcalls
    obtain ⟨s₁, hs₁, hlimit, h₁⟩ := call_anchored h (hcalls c (List.mem_cons_self ..))
    obtain ⟨s', hs', hlimit', h'⟩ := ih h₁ fun d hd => hlimit ▸ hcalls d (.tail _ hd)
    exact ⟨s', by rw [run, hs₁, Option.bind_some, hs'], hlimit'.trans hlimit, h'⟩

/-! ## Around the circle -/

/-- How far `b` is behind `a`, going up. -/
def ahead (a b : UInt16) : Nat := (b.toNat + 65536 - a.toNat) % 65536

theorem find?_least {P : UInt16 × Int → Prop} [DecidablePred P] {l : List (UInt16 × Int)}
    (h : l.Pairwise fun a b => a.1 < b.1) {r : UInt16 × Int}
    (hr : l.find? (fun it => P it) = some r) : ∀ it ∈ l, P it → r.1.toNat ≤ it.1.toNat := by
  induction l with
  | nil => cases hr
  | cons a l ih =>
    obtain ⟨hfirst, hpair⟩ := List.pairwise_cons.1 h
    rw [List.find?_cons] at hr
    by_cases ha : P a
    · simp only [ha, decide_true, Option.some.injEq] at hr
      subst hr
      rintro it (_ | ⟨_, hit⟩) _
      · exact Nat.le_refl _
      · exact Nat.le_of_lt (UInt16.lt_iff_toNat_lt.1 (hfirst it hit))
    · simp only [ha, decide_false] at hr
      rintro it (_ | ⟨_, hit⟩) hP
      · exact absurd hP ha
      · exact ih hpair hr it hit hP

/-- Of the keys that are left, the next one is the closest behind the old one. -/
theorem nextKey_least (h : s.history.Pairwise fun a b => a.1 < b.1)
    (hnot : ∀ it ∈ s.history, it.1 ≠ s.oldestSequenceNumber) {r : UInt16 × Int}
    (hr : s.nextKey = some r) :
    ∀ it ∈ s.history, ahead s.oldestSequenceNumber r.1 ≤ ahead s.oldestSequenceNumber it.1 := by
  intro it hit
  have hk := s.oldestSequenceNumber.toNat_lt
  have hit' := it.1.toNat_lt
  have hne := hnot it hit
  rw [ne_eq, ← UInt16.toNat_inj] at hne
  rw [nextKey] at hr
  cases hup : s.upperBound s.oldestSequenceNumber with
  | some r' =>
    -- a greater key: the smallest of them
    obtain rfl : r' = r := by simpa [hup] using hr
    have hgt : s.oldestSequenceNumber.toNat < r'.1.toNat := by
      have := List.find?_some hup
      simpa [UInt16.lt_iff_toNat_lt] using this
    have hleast := find?_least h hup it hit
    rw [UInt16.lt_iff_toNat_lt] at hleast
    have := r'.1.toNat_lt
    rw [ahead, ahead]
    by_cases hcase : s.oldestSequenceNumber.toNat < it.1.toNat
    · have := hleast hcase
      omega
    · omega
  | none =>
    -- none: the smallest of all, which is 0 if that is a key
    have hle : ∀ it ∈ s.history, it.1.toNat < s.oldestSequenceNumber.toNat := by
      intro d hd
      have h1 := List.find?_eq_none.1 hup d hd
      have h2 := hnot d hd
      rw [ne_eq, ← UInt16.toNat_inj] at h2
      simp only [decide_eq_true_eq, UInt16.lt_iff_toNat_lt] at h1
      omega
    have hsmallest : r ∈ s.history ∧ r.1.toNat ≤ it.1.toNat := by
      rw [hup, Option.none_or] at hr
      cases hzero : s.find 0 with
      | some r' =>
        obtain rfl : r' = r := by simpa [hzero] using hr
        have h0 : r'.1 = 0 := by simpa using List.find?_some hzero
        refine ⟨List.mem_of_find?_eq_some hzero, ?_⟩
        rw [h0]
        exact Nat.zero_le _
      | none =>
        rw [hzero, Option.none_or] at hr
        refine ⟨List.mem_of_find?_eq_some hr, find?_least h hr it hit ?_⟩
        have h0 := List.find?_eq_none.1 hzero it hit
        simp only [decide_eq_true_eq] at h0
        exact UInt16.pos_iff_ne_zero.2 h0
    have h1 := hle r hsmallest.1
    have h2 := hle it hit
    rw [ahead, ahead]
    omega

/-! ## Packets numbered in order -/

/-- The number of the packet at position `i`, the packets being numbered from
`first` on. -/
def seqOf (first : UInt16) (i : Nat) : UInt16 := first + UInt16.ofNat i

theorem seqOf_toNat (first : UInt16) (i : Nat) :
    (seqOf first i).toNat = (first.toNat + i) % 65536 := by
  rw [seqOf, UInt16.toNat_add, UInt16.toNat_ofNat']
  omega

theorem seqOf_inj {first : UInt16} {i j : Nat} (h : seqOf first i = seqOf first j)
    (hi : i < j + 65536) (hj : j < i + 65536) : i = j := by
  rw [← UInt16.toNat_inj, seqOf_toNat, seqOf_toNat] at h
  omega

theorem ahead_seqOf (first : UInt16) {i j : Nat} (h : i ≤ j) (hj : j < i + 65536) :
    ahead (seqOf first i) (seqOf first j) = j - i := by
  rw [ahead, seqOf_toNat, seqOf_toNat]
  omega

/-- A packet by its position, with its time. -/
abbrev Packet := Nat × Int

def entry (first : UInt16) (p : Packet) : UInt16 × Int := (seqOf first p.1, p.2)

/-- The map holds the packets `L`, the first of which is the oldest. -/
structure Circle (first : UInt16) (s : SendTimeHistory) (L : List Packet) : Prop where
  perm : s.history.Perm (L.map (entry first))
  sorted : s.history.Pairwise fun a b => a.1 < b.1
  oldest : ∀ p ∈ L.head?, s.oldestSequenceNumber = seqOf first p.1
  order : L.Pairwise fun p q => p.1 < q.1
  near : ∀ p ∈ L, ∀ q ∈ L, q.1 < p.1 + 65536

variable {first : UInt16} {L : List Packet} {p : Packet}

theorem Circle.mem_iff (hc : Circle first s L) {it : UInt16 × Int} :
    it ∈ s.history ↔ ∃ p ∈ L, entry first p = it := by
  rw [hc.perm.mem_iff, List.mem_map]

theorem Circle.key_inj (hc : Circle first s L) {q : Packet} (hp : p ∈ L) (hq : q ∈ L)
    (h : seqOf first p.1 = seqOf first q.1) : p.1 = q.1 :=
  seqOf_inj h (hc.near q hq p hp) (hc.near p hp q hq)

theorem Circle.pos_inj (hc : Circle first s L) {q : Packet} (hp : p ∈ L) (hq : q ∈ L)
    (h : p.1 = q.1) : p = q := by
  by_contra hne
  have hpair : L.Pairwise fun p q => p.1 ≠ q.1 := hc.order.imp fun h => Nat.ne_of_lt h
  have hsymm : Std.Symm fun p q : Packet => p.1 ≠ q.1 := ⟨fun _ _ h => h.symm⟩
  exact hpair.forall hp hq hne h

theorem Circle.find_eq_some (hc : Circle first s L) {k : UInt16} {it : UInt16 × Int} :
    s.find k = some it ↔ ∃ p ∈ L, entry first p = it ∧ seqOf first p.1 = k := by
  constructor
  · intro h
    obtain ⟨p, hp, rfl⟩ := hc.mem_iff.1 (find_key h).1
    exact ⟨p, hp, rfl, (find_key h).2⟩
  · rintro ⟨p, hp, rfl, hk⟩
    have hsome : (s.find k).isSome := find_isSome_iff.2 ⟨_, hc.mem_iff.2 ⟨p, hp, rfl⟩, hk⟩
    obtain ⟨it, hit⟩ := Option.isSome_iff_exists.1 hsome
    obtain ⟨q, hq, rfl⟩ := hc.mem_iff.1 (find_key hit).1
    have hkq : seqOf first q.1 = k := (find_key hit).2
    rw [hit, hc.pos_inj hq hp (hc.key_inj hq hp (hkq.trans hk.symm))]

/-- The packets but those of one number. -/
def without (first : UInt16) (k : UInt16) (L : List Packet) : List Packet :=
  L.filter fun p => seqOf first p.1 ≠ k

theorem mem_without {k : UInt16} : p ∈ without first k L ↔ p ∈ L ∧ seqOf first p.1 ≠ k := by
  simp [without]

theorem Circle.erase_perm (hc : Circle first s L) (k : UInt16) :
    (s.erase k).history.Perm ((without first k L).map (entry first)) := by
  have hfilter := hc.perm.filter fun it => decide (it.1 ≠ k)
  rw [List.filter_map] at hfilter
  exact hfilter

theorem Circle.without_head (hc : Circle first s (p :: L)) :
    without first s.oldestSequenceNumber (p :: L) = L := by
  have hold : s.oldestSequenceNumber = seqOf first p.1 := hc.oldest p rfl
  rw [without, hold, List.filter_cons_of_neg (by simp), List.filter_eq_self]
  intro q hq
  have hlt := (List.pairwise_cons.1 hc.order).1 q hq
  have hne : seqOf first q.1 ≠ seqOf first p.1 := fun h =>
    absurd (hc.key_inj (.tail _ hq) (.head _) h) (by omega)
  simpa using hne

/-- Without the first packet, the next one in order is the oldest. -/
theorem Circle.drop_head (hc : Circle first s (p :: L)) :
    ∃ s', (s.erase s.oldestSequenceNumber).updateOldestSequenceNumber = some s' ∧
      s'.packetAgeLimit = s.packetAgeLimit ∧ Circle first s' L := by
  have hold : s.oldestSequenceNumber = seqOf first p.1 := hc.oldest p rfl
  obtain ⟨hfirst, horder⟩ := List.pairwise_cons.1 hc.order
  have hnear : ∀ q ∈ L, ∀ r ∈ L, r.1 < q.1 + 65536 :=
    fun q hq r hr => hc.near q (.tail _ hq) r (.tail _ hr)
  have hperm := hc.erase_perm s.oldestSequenceNumber
  have hsorted := erase_sorted hc.sorted s.oldestSequenceNumber
  rw [hc.without_head] at hperm
  rw [updateOldestSequenceNumber]
  obtain _ | ⟨q, L⟩ := L
  · have hempty : (s.erase s.oldestSequenceNumber).history = [] := by simpa using hperm
    exact ⟨s.erase s.oldestSequenceNumber, by rw [if_pos (by rw [hempty]; rfl)], rfl, hperm,
      hsorted, fun q hq => (nomatch hq), horder, hnear⟩
  · have hne : (s.erase s.oldestSequenceNumber).history ≠ [] := by
      intro he
      rw [he] at hperm
      simpa using hperm.length_eq
    obtain ⟨it, hnext, hmem⟩ := nextKey_isSome hne
    have hleast := nextKey_least hsorted
      (fun d hd => of_decide_eq_true (List.mem_filter.1 hd).2) hnext
    rw [if_neg (by rwa [List.isEmpty_iff]), hnext]
    refine ⟨_, rfl, rfl, hperm, hsorted, ?_, horder, hnear⟩
    rintro _ ⟨⟩
    -- the key found is no farther than that of the next packet, which is the closest
    obtain ⟨r, hr, rfl⟩ := List.mem_map.1 (hperm.mem_iff.1 hmem)
    have hq := hleast _ (hperm.mem_iff.2 (List.mem_map_of_mem (.head _)))
    have hpq := hfirst q (.head _)
    have hpr := hfirst r hr
    have hqfar := hc.near p (.head _) q (.tail _ (.head _))
    have hrfar := hc.near p (.head _) r (.tail _ hr)
    have hqr : q.1 ≤ r.1 := by
      obtain rfl | hr := List.mem_cons.1 hr
      · exact Nat.le_refl _
      · exact Nat.le_of_lt ((List.pairwise_cons.1 horder).1 r hr)
    simp only [erase, hold, entry] at hq
    rw [ahead_seqOf first (Nat.le_of_lt hpr) hrfar, ahead_seqOf first (Nat.le_of_lt hpq) hqfar]
      at hq
    show seqOf first r.1 = seqOf first q.1
    rw [show r.1 = q.1 by omega]

/-- The packets younger than the limit. -/
def younger (limit : Int) (L : List Packet) : List Packet := L.filter fun p => limit < p.2

theorem mem_younger {limit : Int} : p ∈ younger limit L ↔ p ∈ L ∧ limit < p.2 := by
  simp [younger]

/-- Where no packet is older than one in front of it, the loop ends at the
first young one. -/
theorem eraseOld_live (limit : Int) (rounds : Nat) : ∀ {s : SendTimeHistory} {L : List Packet},
    Circle first s L → (L.Pairwise fun p q => p.2 ≤ q.2) → L.length ≤ rounds →
    ∃ s', eraseOld limit rounds s = some s' ∧ s'.packetAgeLimit = s.packetAgeLimit ∧
      Circle first s' (younger limit L) := by
  induction rounds with
  | zero =>
    intro s L hc _ hlen
    obtain rfl : L = [] := by simpa using hlen
    have hempty : s.history = [] := by simpa using hc.perm
    exact ⟨s, by rw [eraseOld, if_pos (by rw [hempty]; rfl)], rfl, hc⟩
  | succ rounds ih =>
    intro s L hc hmono hlen
    obtain _ | ⟨p, L⟩ := L
    · have hempty : s.history = [] := by simpa using hc.perm
      exact ⟨s, by rw [eraseOld, if_pos (by rw [hempty]; rfl)], rfl, hc⟩
    · obtain ⟨hfirst, hmono'⟩ := List.pairwise_cons.1 hmono
      have hne : ¬ s.history.isEmpty := by
        rw [List.isEmpty_iff]
        intro he
        simpa [he] using hc.perm.length_eq
      have hfind : s.find s.oldestSequenceNumber = some (entry first p) :=
        hc.find_eq_some.2 ⟨p, .head _, rfl, (hc.oldest p rfl).symm⟩
      rw [eraseOld, if_neg hne, hfind, Option.bind_eq_bind, Option.bind_some]
      by_cases hyoung : limit < p.2
      · have hall : younger limit (p :: L) = p :: L := by
          rw [younger, List.filter_eq_self]
          intro q hq
          obtain rfl | hq := List.mem_cons.1 hq
          · simpa using hyoung
          · have := hfirst q hq
            simp only [decide_eq_true_eq]
            omega
        rw [if_pos (show limit < (entry first p).2 from hyoung), hall]
        exact ⟨s, rfl, rfl, hc⟩
      · obtain ⟨s₁, hs₁, hlimit, hc₁⟩ := hc.drop_head
        obtain ⟨s', hs', hlimit', hc'⟩ := ih hc₁ hmono' (by simpa using hlen)
        have hdrop : younger limit (p :: L) = younger limit L := by
          rw [younger, List.filter_cons_of_neg (by simpa using hyoung)]
          rfl
        refine ⟨s', ?_, hlimit'.trans hlimit, hdrop ▸ hc'⟩
        rw [if_neg (show ¬ limit < (entry first p).2 from hyoung), hs₁]
        exact hs'

theorem Circle.filter (hc : Circle first s L) {s' : SendTimeHistory} {P : Packet → Bool}
    (hperm : s'.history.Perm ((L.filter P).map (entry first)))
    (hsorted : s'.history.Pairwise fun a b => a.1 < b.1)
    (hold : ∀ p ∈ (L.filter P).head?, s'.oldestSequenceNumber = seqOf first p.1) :
    Circle first s' (L.filter P) :=
  ⟨hperm, hsorted, hold, hc.order.filter _,
    fun p hp q hq => hc.near p (List.mem_filter.1 hp).1 q (List.mem_filter.1 hq).1⟩

/-- A packet taken out, the oldest one or another. -/
theorem getSendTime_circle (hc : Circle first s L) (k : UInt16) (remove : Bool) :
    ∃ r s', s.getSendTime k remove = some (r, s') ∧ s'.packetAgeLimit = s.packetAgeLimit ∧
      (∀ t, r = some t ↔ ∃ p ∈ L, seqOf first p.1 = k ∧ p.2 = t) ∧
      Circle first s' (if remove then without first k L else L) := by
  rw [getSendTime]
  cases hfind : s.find k with
  | none =>
    have hnot : ∀ p ∈ L, seqOf first p.1 ≠ k := by
      intro p hp hk
      have := hc.find_eq_some.2 ⟨p, hp, rfl, hk⟩
      simp [hfind] at this
    have hsame : without first k L = L := by
      rw [without, List.filter_eq_self]
      intro p hp
      simpa using hnot p hp
    refine ⟨none, s, rfl, rfl, fun t => ⟨fun h => (nomatch h), ?_⟩, by rw [hsame, ite_self]; exact hc⟩
    rintro ⟨p, hp, hk, -⟩
    exact absurd hk (hnot p hp)
  | some it =>
    obtain ⟨p, hp, rfl, hk⟩ := hc.find_eq_some.1 hfind
    have hfound : ∀ t, some p.2 = some t ↔ ∃ q ∈ L, seqOf first q.1 = k ∧ q.2 = t := by
      intro t
      constructor
      · rintro ⟨⟩
        exact ⟨p, hp, hk, rfl⟩
      · rintro ⟨q, hq, hkq, rfl⟩
        rw [hc.pos_inj hq hp (hc.key_inj hq hp (hkq.trans hk.symm))]
    cases remove with
    | false => exact ⟨some p.2, s, rfl, rfl, hfound, hc⟩
    | true =>
      obtain _ | ⟨q, L⟩ := L
      · exact absurd hp List.not_mem_nil
      have hold := hc.oldest q rfl
      by_cases hkold : k = s.oldestSequenceNumber
      · -- the oldest: what is left starts with the packet behind it
        subst hkold
        obtain ⟨s', hs', hlimit, hc'⟩ := hc.drop_head
        refine ⟨some p.2, s', by simp [hs', entry], hlimit, hfound, ?_⟩
        rw [if_pos rfl, hc.without_head]
        exact hc'
      · refine ⟨some p.2, s.erase k, by simp [hkold, entry], rfl, hfound, ?_⟩
        refine hc.filter (hc.erase_perm k) (erase_sorted hc.sorted k) ?_
        rw [List.filter_cons_of_pos (by simpa [← hold] using fun h => hkold h.symm)]
        rintro _ ⟨⟩
        exact hold

theorem assign_perm {k : UInt16} (h : ∀ it ∈ s.history, it.1 ≠ k) (t : Int) :
    (s.assign k t).history.Perm ((k, t) :: s.history) := by
  have hgt : (s.history.filter fun it => decide (k < it.1)) =
      s.history.filter fun it => !decide (it.1 < k) := by
    refine List.filter_congr fun it hit => ?_
    have hne := h it hit
    rw [ne_eq, ← UInt16.toNat_inj] at hne
    rw [← decide_not, decide_eq_decide, UInt16.lt_iff_toNat_lt, UInt16.lt_iff_toNat_lt]
    omega
  rw [assign, hgt]
  exact List.perm_middle.trans (.cons _ (List.filter_append_perm _ _))

/-- The next packet, at a position less than a circle behind all others. -/
theorem Circle.assign (hc : Circle first s L) {n : Nat} (t : Int)
    (hn : ∀ p ∈ L, p.1 < n ∧ n < p.1 + 65536) :
    Circle first ((if s.history.isEmpty then { s with oldestSequenceNumber := seqOf first n }
      else s).assign (seqOf first n) t) (L ++ [(n, t)]) := by
  have hnew : ∀ it ∈ s.history, it.1 ≠ seqOf first n := by
    intro it hit
    obtain ⟨p, hp, rfl⟩ := hc.mem_iff.1 hit
    obtain ⟨h1, h2⟩ := hn p hp
    exact fun h => absurd (seqOf_inj h (by omega) h2) (by omega)
  have hhistory : ∀ s' : SendTimeHistory, s'.history = s.history →
      (s'.assign (seqOf first n) t).history.Perm ((L ++ [(n, t)]).map (entry first)) := by
    intro s' hs'
    refine (assign_perm (fun it hit => hnew it (hs' ▸ hit)) t).trans ?_
    rw [List.map_append]
    refine List.Perm.trans ?_ (List.perm_append_singleton _ _).symm
    rw [hs']
    exact hc.perm.cons _
  have horder : (L ++ [(n, t)]).Pairwise fun p q => p.1 < q.1 :=
    List.pairwise_append.2 ⟨hc.order, List.pairwise_singleton _ _, fun p hp q hq => by
      obtain rfl := List.mem_singleton.1 hq
      exact (hn p hp).1⟩
  have hnear : ∀ p ∈ L ++ [(n, t)], ∀ q ∈ L ++ [(n, t)], q.1 < p.1 + 65536 := by
    intro p hp q hq
    obtain hp | hp := List.mem_append.1 hp <;> obtain hq | hq := List.mem_append.1 hq
    · exact hc.near p hp q hq
    · obtain rfl := List.mem_singleton.1 hq
      exact (hn p hp).2
    · obtain rfl := List.mem_singleton.1 hp
      have := (hn q hq).1
      show q.1 < n + 65536
      omega
    · obtain rfl := List.mem_singleton.1 hp
      obtain rfl := List.mem_singleton.1 hq
      show n < n + 65536
      omega
  by_cases hempty : s.history = []
  · obtain rfl : L = [] := by simpa [hempty] using hc.perm.symm
    rw [if_pos (by rwa [List.isEmpty_iff])]
    refine ⟨hhistory _ rfl, assign_sorted (s := { s with oldestSequenceNumber := _ }) hc.sorted _ _,
      ?_, horder, hnear⟩
    rintro _ ⟨⟩
    rfl
  · rw [if_neg (by rwa [List.isEmpty_iff])]
    refine ⟨hhistory _ rfl, assign_sorted hc.sorted _ _, ?_, horder, hnear⟩
    obtain _ | ⟨p, L⟩ := L
    · exact absurd (by simpa using hc.perm) hempty
    · rintro _ ⟨⟩
      exact hc.oldest p rfl

/-! ## What was sent -/

/-- The times of all packets added, in order, and the positions of those that
were asked to leave. -/
structure Log where
  times : List Int := []
  gone : List Nat := []
  deriving DecidableEq, Repr

namespace Log

def call (first : UInt16) (l : Log) : Call → Log
  | .add _ t => { l with times := l.times ++ [t] }
  | .get k true =>
    { l with gone := (List.range l.times.length).filter (fun i => seqOf first i = k) ++ l.gone }
  | .get _ false => l
  | .clear => { l with gone := List.range l.times.length }

/-- Packet `i`, sent at `t`, was not removed, and is younger than the limit. -/
def Young (limit : Int) (l : Log) (i : Nat) (t : Int) : Prop :=
  l.times[i]? = some t ∧ i ∉ l.gone ∧ ∀ last ∈ l.times.getLast?, last - limit < t

/-- So is, or is the one added last. -/
def Retained (limit : Int) (l : Log) (i : Nat) (t : Int) : Prop :=
  l.times[i]? = some t ∧ i ∉ l.gone ∧
    (i + 1 = l.times.length ∨ ∀ last ∈ l.times.getLast?, last - limit < t)

end Log

/-- Consecutive numbers, times that do not go back, fewer than 2^16 packets
within the limit. -/
def Call.InOrder (first : UInt16) (limit : Int) (l : Log) : Call → Prop
  | .add k t => k = seqOf first l.times.length ∧ (∀ last ∈ l.times.getLast?, last ≤ t) ∧
      (l.times.filter fun u => t - limit < u).length < 65536
  | _ => True

def InOrder (first : UInt16) (limit : Int) : Log → List Call → Prop
  | _, [] => True
  | l, c :: cs => c.InOrder first limit l ∧ InOrder first limit (l.call first c) cs

/-- The map holds the packets retained. -/
structure Live (first : UInt16) (limit : Int) (l : Log) (s : SendTimeHistory) (L : List Packet) :
    Prop where
  circle : Circle first s L
  mem : ∀ p, p ∈ L ↔ l.Retained limit p.1 p.2
  mono : l.times.Pairwise (· ≤ ·)
  past : ∀ i ∈ l.gone, i < l.times.length
  limit_eq : s.packetAgeLimit = limit

variable {l : Log} {limit t : Int} {n : Nat}

theorem Log.Retained.lt {i : Nat} (h : l.Retained limit i t) : i < l.times.length :=
  (List.getElem?_eq_some_iff.1 h.1).1

theorem Live.times_mono (hl : Live first limit l s L) : L.Pairwise fun p q => p.2 ≤ q.2 := by
  refine hl.circle.order.imp_of_mem fun {p q} hp hq hlt => ?_
  obtain ⟨hip, htp⟩ := List.getElem?_eq_some_iff.1 ((hl.mem p).1 hp).1
  obtain ⟨hiq, htq⟩ := List.getElem?_eq_some_iff.1 ((hl.mem q).1 hq).1
  rw [← htp, ← htq]
  exact List.pairwise_iff_getElem.1 hl.mono _ _ hip hiq hlt

theorem le_getLast (hmono : l.times.Pairwise (· ≤ ·)) {i : Nat} {u last : Int}
    (hi : l.times[i]? = some u) (hlast : l.times.getLast? = some last) : u ≤ last := by
  obtain ⟨hlt, rfl⟩ := List.getElem?_eq_some_iff.1 hi
  rw [List.getLast?_eq_getElem?] at hlast
  obtain ⟨hlt', rfl⟩ := List.getElem?_eq_some_iff.1 hlast
  obtain heq | hlt'' := Nat.eq_or_lt_of_le (show i ≤ l.times.length - 1 by omega)
  · exact Int.le_of_eq (by simp [heq])
  · exact List.pairwise_iff_getElem.1 hmono _ _ hlt hlt' hlt''

/-- A young packet has only young ones behind it, of which there are few. -/
theorem position_near (hmono : l.times.Pairwise (· ≤ ·)) {i : Nat} {u : Int}
    (hi : l.times[i]? = some u) (hyoung : limit < u)
    (hcount : (l.times.filter fun v => limit < v).length < 65536) :
    l.times.length < i + 65536 := by
  obtain ⟨hlt, rfl⟩ := List.getElem?_eq_some_iff.1 hi
  have hall : (l.times.drop i).filter (fun v => limit < v) = l.times.drop i := by
    rw [List.filter_eq_self]
    intro v hv
    obtain ⟨j, hj, rfl⟩ := List.mem_drop_iff_getElem.1 hv
    have hle : l.times[i] ≤ l.times[i + j] := by
      obtain rfl | hpos := Nat.eq_zero_or_pos j
      · exact Int.le_refl _
      · exact List.pairwise_iff_getElem.1 hmono _ _ hlt (by omega) (by omega)
    simp only [decide_eq_true_eq]
    exact Int.lt_of_lt_of_le hyoung hle
  have hsub := ((List.drop_sublist i l.times).filter fun v => decide (limit < v)).length_le
  rw [hall, List.length_drop] at hsub
  omega

theorem retained_add (hl : Live first limit l s L)
    (hlast : ∀ last ∈ l.times.getLast?, last ≤ t) (p : Packet) :
    Log.Retained limit { l with times := l.times ++ [t] } p.1 p.2 ↔
      p ∈ younger (t - limit) L ++ [(l.times.length, t)] := by
  rw [List.mem_append, mem_younger, hl.mem, List.mem_singleton, Log.Retained, Log.Retained,
    List.length_append, List.length_singleton, List.getLast?_concat]
  simp only [Option.mem_some_iff, forall_eq', Nat.add_right_cancel_iff]
  constructor
  · rintro ⟨hget, hgone, hkeep⟩
    by_cases hnew : p.1 = l.times.length
    · rw [hnew, List.getElem?_concat_length] at hget
      exact .inr (Prod.ext hnew (Option.some.inj hget).symm)
    · have hyoung := hkeep.resolve_left hnew
      have hlt : p.1 < l.times.length := by
        have := (List.getElem?_eq_some_iff.1 hget).1
        rw [List.length_append, List.length_singleton] at this
        omega
      rw [List.getElem?_append_left hlt] at hget
      refine .inl ⟨⟨hget, hgone, .inr fun last hmem => ?_⟩, hyoung⟩
      have := hlast last hmem
      omega
  · rintro (⟨⟨hget, hgone, -⟩, hyoung⟩ | rfl)
    · have hlt := (List.getElem?_eq_some_iff.1 hget).1
      exact ⟨by rw [List.getElem?_append_left hlt]; exact hget, hgone, .inr hyoung⟩
    · exact ⟨List.getElem?_concat_length, fun h => absurd (hl.past _ h) (Nat.lt_irrefl _), .inl rfl⟩

theorem add_live (hl : Live first limit l s L) (hlow : -9223372036854775808 ≤ t - limit)
    (hhigh : t - limit < 9223372036854775808) {k : UInt16}
    (hc : Call.InOrder first limit l (.add k t)) :
    ∃ s' L', s.addAndRemoveOldSendTimes k t = some s' ∧
      Live first limit (l.call first (.add k t)) s' L' := by
  obtain ⟨rfl, hlast, hcount⟩ := hc
  have hlimit := hl.limit_eq
  have hlen : L.length = s.history.length := by
    rw [hl.circle.perm.length_eq, List.length_map]
  obtain ⟨s₁, hs₁, hlimit₁, hc₁⟩ := eraseOld_live (t - limit) s.history.length hl.circle
    hl.times_mono (Nat.le_of_eq hlen)
  have hnear : ∀ p ∈ younger (t - limit) L, p.1 < l.times.length ∧
      l.times.length < p.1 + 65536 := by
    intro p hp
    obtain ⟨hp, hyoung⟩ := mem_younger.1 hp
    have hretained := (hl.mem p).1 hp
    exact ⟨hretained.lt, position_near hl.mono hretained.1 hyoung hcount⟩
  refine ⟨_, younger (t - limit) L ++ [(l.times.length, t)], ?_, hc₁.assign t hnear,
    fun p => (retained_add hl hlast p).symm, ?_, fun i hi => ?_, ?_⟩
  · rw [addAndRemoveOldSendTimes, hlimit, int64_of_fits hlow hhigh]
    simp only [Option.bind_eq_bind, Option.bind_some, hs₁]
    rfl
  · refine List.pairwise_append.2 ⟨hl.mono, List.pairwise_singleton _ _, fun u hu v hv => ?_⟩
    obtain rfl := List.mem_singleton.1 hv
    obtain ⟨i, hi⟩ := List.getElem?_of_mem hu
    cases hend : l.times.getLast? with
    | none => simp [List.getLast?_eq_none_iff.1 hend] at hu
    | some last => exact Int.le_trans (le_getLast hl.mono hi hend) (hlast last hend)
  · have := hl.past i hi
    show i < (l.times ++ [t]).length
    rw [List.length_append]
    omega
  · split <;> exact hlimit₁.trans hlimit

theorem retained_remove (hl : Live first limit l s L) (k : UInt16) (p : Packet) :
    (l.call first (.get k true)).Retained limit p.1 p.2 ↔ p ∈ without first k L := by
  rw [mem_without, hl.mem, Log.call, Log.Retained, Log.Retained, List.mem_append, List.mem_filter,
    List.mem_range, decide_eq_true_eq]
  constructor
  · rintro ⟨hget, hgone, hkeep⟩
    have hlt := (List.getElem?_eq_some_iff.1 hget).1
    exact ⟨⟨hget, fun h => hgone (.inr h), hkeep⟩, fun hk => hgone (.inl ⟨hlt, hk⟩)⟩
  · rintro ⟨⟨hget, hgone, hkeep⟩, hk⟩
    exact ⟨hget, fun h => h.elim (fun h => hk h.2) hgone, hkeep⟩

theorem get_live (hl : Live first limit l s L) (k : UInt16) (remove : Bool) :
    ∃ r s' L', s.getSendTime k remove = some (r, s') ∧
      (∀ t, r = some t ↔ ∃ i, seqOf first i = k ∧ l.Retained limit i t) ∧
      Live first limit (l.call first (.get k remove)) s' L' := by
  obtain ⟨r, s', hs', hlimit, hr, hc'⟩ := getSendTime_circle hl.circle k remove
  have hfound : ∀ t, r = some t ↔ ∃ i, seqOf first i = k ∧ l.Retained limit i t := by
    intro t
    rw [hr]
    constructor
    · rintro ⟨p, hp, hk, rfl⟩
      exact ⟨p.1, hk, (hl.mem p).1 hp⟩
    · rintro ⟨i, hk, hi⟩
      exact ⟨(i, t), (hl.mem _).2 hi, hk, rfl⟩
  cases remove with
  | false => exact ⟨r, s', L, hs', hfound, hc', hl.mem, hl.mono, hl.past, hlimit.trans hl.limit_eq⟩
  | true =>
    refine ⟨r, s', without first k L, hs', hfound, hc', fun p => (retained_remove hl k p).symm,
      hl.mono, fun i hi => ?_, hlimit.trans hl.limit_eq⟩
    obtain hi | hi := List.mem_append.1 hi
    · exact List.mem_range.1 (List.mem_filter.1 hi).1
    · exact hl.past i hi

theorem clear_live (hl : Live first limit l s L) :
    Live first limit (l.call first .clear) s.clear [] := by
  refine ⟨⟨List.Perm.nil, List.Pairwise.nil, fun p hp => (nomatch hp), List.Pairwise.nil,
    fun p hp => absurd hp List.not_mem_nil⟩, fun p => ?_, hl.mono,
    fun i hi => List.mem_range.1 hi, hl.limit_eq⟩
  refine ⟨fun hp => absurd hp List.not_mem_nil, fun h => absurd h.lt fun hlt => ?_⟩
  exact h.2.1 (List.mem_range.2 hlt)

theorem call_live (hl : Live first limit l s L) {c : Call} (hfits : c.Fits limit)
    (hc : c.InOrder first limit l) :
    ∃ s' L', s.call c = some s' ∧ Live first limit (l.call first c) s' L' := by
  cases c with
  | add k t => exact add_live hl hfits.1 hfits.2 hc
  | get k remove =>
    obtain ⟨r, s', L', hs', -, hl'⟩ := get_live hl k remove
    exact ⟨s', L', by simp [call, hs'], hl'⟩
  | clear => exact ⟨_, [], rfl, clear_live hl⟩

theorem run_live (calls : List Call) : ∀ {l s L}, Live first limit l s L →
    (∀ c ∈ calls, c.Fits limit) → InOrder first limit l calls →
    ∃ s' L', run calls s = some s' ∧ Live first limit (calls.foldl (Log.call first) l) s' L' := by
  induction calls with
  | nil => exact fun hl _ _ => ⟨_, _, rfl, hl⟩
  | cons c cs ih =>
    intro l s L hl hfits hc
    obtain ⟨s₁, L₁, hs₁, hl₁⟩ := call_live hl (hfits c (List.mem_cons_self ..)) hc.1
    obtain ⟨s', L', hs', hl'⟩ := ih hl₁ (fun d hd => hfits d (.tail _ hd)) hc.2
    exact ⟨s', L', by rw [run, hs₁, Option.bind_some, hs'], hl'⟩

theorem live_empty (first : UInt16) (limit : Int) :
    Live first limit {} { packetAgeLimit := limit } [] :=
  ⟨⟨List.Perm.nil, List.Pairwise.nil, fun _ hp => (nomatch hp), List.Pairwise.nil,
    fun _ hp => absurd hp List.not_mem_nil⟩,
    fun _ => ⟨fun hp => absurd hp List.not_mem_nil, fun h => absurd h.lt (Nat.not_lt_zero _)⟩,
    List.Pairwise.nil, fun _ hi => absurd hi List.not_mem_nil, rfl⟩

/-- What the calls of a run say was sent. -/
def log (first : UInt16) (calls : List Call) : Log := calls.foldl (Log.call first) {}

theorem run_retains {limit : Int} {calls : List Call} (hfits : ∀ c ∈ calls, c.Fits limit) :
    ∃ s, run calls { packetAgeLimit := limit } = some s ∧
      (s.history ≠ [] → ∃ it ∈ s.history, it.1 = s.oldestSequenceNumber) ∧
      ∀ first, InOrder first limit {} calls → ∀ k remove,
        ∃ r s', s.getSendTime k remove = some (r, s') ∧
          ∀ t, r = some t ↔ ∃ i, seqOf first i = k ∧ (log first calls).Retained limit i t := by
  obtain ⟨s, hs, -, hanchored⟩ := run_anchored calls
    (s := { packetAgeLimit := limit }) ⟨List.Pairwise.nil, fun h => absurd rfl h⟩ hfits
  refine ⟨s, hs, hanchored.oldest, fun first horder k remove => ?_⟩
  obtain ⟨s₁, L, hs₁, hl⟩ := run_live calls (live_empty first limit) hfits horder
  obtain rfl : s = s₁ := Option.some.inj (hs.symm.trans hs₁)
  obtain ⟨r, s', L', hs', hr, -⟩ := get_live hl k remove
  exact ⟨r, s', hs', hr⟩

/-- Packets around the wrap, one taken out, and one that makes the first too old. -/
def someCalls : List Call :=
  [.add 65534 0, .add 65535 10, .add 0 20, .get 65535 true, .add 1 105, .get 65534 false]

theorem run_retains_someCalls :
    ∃ s, run someCalls { packetAgeLimit := 100 } = some s ∧
      (s.history ≠ [] → ∃ it ∈ s.history, it.1 = s.oldestSequenceNumber) ∧
      ∀ k remove, ∃ r s', s.getSendTime k remove = some (r, s') ∧
        ∀ t, r = some t ↔ ∃ i, seqOf 65534 i = k ∧ (log 65534 someCalls).Retained 100 i t := by
  have hfits : ∀ c ∈ someCalls, c.Fits 100 := by
    intro c hc
    simp only [someCalls, List.mem_cons, List.not_mem_nil, or_false] at hc
    obtain rfl | rfl | rfl | rfl | rfl | rfl := hc <;> simp [Call.Fits]
  have horder : InOrder 65534 100 {} someCalls := by
    refine ⟨?_, ?_, ?_, trivial, ?_, trivial, trivial⟩ <;> refine ⟨by decide, ?_, by decide⟩ <;>
      simp [Log.call]
  obtain ⟨s, hs, hold, hget⟩ := run_retains hfits
  exact ⟨s, hs, hold, hget 65534 horder⟩

/-- An age limit of zero: the packet just added is found, and is not younger
than the limit. -/
theorem zero_limit_finds_last :
    InOrder 5 0 {} [.add 5 10] ∧
      ((run [.add 5 10] { packetAgeLimit := 0 }).bind (·.getSendTime 5 false)).map Prod.fst =
        some (some 10) ∧
      ¬ ∃ i t, seqOf 5 i = 5 ∧ (log 5 [.add 5 10]).Young 0 i t := by
  refine ⟨⟨⟨by decide, fun _ h => (nomatch h), by decide⟩, trivial⟩, by decide, ?_⟩
  rintro ⟨i, t, -, hget, -, hyoung⟩
  have hlt := hyoung 10 rfl
  have ht : t = 10 := by
    obtain _ | i := i
    · exact (Option.some.inj hget).symm
    · cases hget
  omega

end SendTimeHistory

end RtcCore.L2
