import RtcCore.L2Receive.AudioNack

/-!
# What the audio NACK list contains

`NackRun` puts an observer beside the list: the unwrapped numbers received and
decoded, and the numbers skipped and not received since, each with the estimate
the code makes for it and whether its time-to-play ran out in a 10 ms update.

Results:
- `audio_nack_exact`: in every run whose decode calls are `DecodeOk`, the list
  is ordered, holds exactly the skipped numbers that are newer than the last
  decoded, near enough to the last received and not run out, and marks those
  more than the threshold behind as missing.
- `ran_out_behind_front`: a number behind the front of the list stays when its
  time-to-play has run out.
-/
namespace RtcCore.L2

open Serial

namespace Acm

/-! ## The observer -/

/-- A number skipped by an advance, with the code's estimate for it. -/
structure Skipped where
  n : Nat
  estimatedTimestamp : UInt32
  timeToPlayMs : Int
  ranOut : Bool
  deriving DecidableEq, Repr

structure NackRun where
  nack : Nack
  last : Nat := 0
  received : List Nat := []
  decoded : Option Nat := none
  skipped : List Skipped := []
  deriving DecidableEq, Repr

/-- A decoded number is given unwrapped. -/
inductive Call where
  | received (sequenceNumber : UInt16) (timestamp : UInt32)
  | decoded (n : Nat) (timestamp : UInt32)
  deriving DecidableEq, Repr

namespace NackRun

/-- The number of a packet that comes in, relative to the last one. The first
one is given a cycle, so that older ones have room. -/
def unwrapped (r : NackRun) (sequenceNumber : UInt16) : Nat :=
  if !r.nack.anyRtpReceived then 65536 + sequenceNumber.toNat
  else if isNewerSequenceNumber r.nack.sequenceNumLastReceivedRtp sequenceNumber then
    r.last - (r.nack.sequenceNumLastReceivedRtp - sequenceNumber).toNat
  else r.last + (sequenceNumber - r.nack.sequenceNumLastReceivedRtp).toNat

/-- The numbers an advance to `n` skips. -/
def fresh (r : NackRun) (sequenceNumber : UInt16) (timestamp : UInt32) (n : Nat) : List Skipped :=
  let s := r.nack.updateSamplesPerPacket sequenceNumber timestamp
  (List.range' (r.last + 1) (n - (r.last + 1))).map fun k =>
    ⟨k, s.estimateTimestamp (.ofNat k), s.timeToPlay (s.estimateTimestamp (.ofNat k)), false⟩

/-- 10 ms pass. -/
def tick (k : Skipped) : Skipped :=
  { k with
    timeToPlayMs := k.timeToPlayMs - 10
    ranOut := k.ranOut || decide (k.timeToPlayMs ≤ 10) }

def retime (s : Nack) (k : Skipped) : Skipped :=
  { k with timeToPlayMs := s.timeToPlay k.estimatedTimestamp }

/-- Packets come in with any number; what is decoded was received, and not
before what was decoded last. -/
def step (r : NackRun) : Search UInt16 × Call → Option NackRun
  | (search, .received sequenceNumber timestamp) =>
    let n := r.unwrapped sequenceNumber
    let nack := r.nack.updateLastReceivedPacket search sequenceNumber timestamp
    let skipped := r.skipped.filter (·.n ≠ n)
    if !r.nack.anyRtpReceived then
      some { r with nack := nack, last := n, received := n :: r.received }
    else if r.last < n then
      some { r with
        nack := nack
        last := n
        received := n :: r.received
        skipped := skipped ++ r.fresh sequenceNumber timestamp n }
    else some { r with nack := nack, received := n :: r.received, skipped := skipped }
  | (search, .decoded n timestamp) =>
    if n ∈ r.received ∧ r.decoded.all (· ≤ n) then
      let nack := r.nack.updateLastDecodedPacket search (.ofNat n) timestamp
      some { r with
        nack := nack
        decoded := some n
        skipped := r.skipped.map (if r.decoded = some n then tick else retime nack) }
    else none

/-- A `Nack` of any threshold and any size the code allows. -/
def init (r : NackRun) : Prop :=
  ∃ threshold maxNackListSize search nack,
    Nack.setMaxNackListSize search { nackThresholdPackets := threshold } maxNackListSize =
      some nack ∧ r = { nack := nack }

def lts : LTS NackRun (Search UInt16 × Call) := .ofFn init step

/-! ## What the list has to contain -/

/-- Newer than what was decoded, at most the list's size behind, not run out. -/
def due (r : NackRun) (k : Skipped) : Bool :=
  r.decoded.all (· < k.n) && decide (r.last ≤ k.n + r.nack.maxNackListSize) && !k.ranOut

def listed (r : NackRun) : List Skipped := r.skipped.filter r.due

structure Exact (r : NackRun) : Prop where
  ordered : (r.nack.nackList.map (·.1)).Pairwise fun a b => isNewerSequenceNumber b a = true
  contains : ∀ sequenceNumber, sequenceNumber ∈ r.nack.nackList.map (·.1) ↔
    ∃ k ∈ r.skipped, sequenceNumber = .ofNat k.n ∧ (∀ d, r.decoded = some d → d < k.n) ∧
      r.last ≤ k.n + r.nack.maxNackListSize ∧ k.ranOut = false
  missing : ∀ e ∈ r.nack.nackList, ∃ k ∈ r.skipped, e.1 = .ofNat k.n ∧
    (e.2.isMissing = true ↔ r.nack.nackThresholdPackets < (r.last : Int) - k.n)

/-- The comparison on the circle places the decoded number as it lies among
the last decoded one and the list, and where the same number is decoded again,
the numbers whose time runs out stand in front. -/
structure DecodeOk (r : NackRun) (n : Nat) : Prop where
  last : ∀ d, r.decoded = some d → isNewerSequenceNumber (.ofNat n) (.ofNat d) = decide (d < n)
  listed : r.decoded ≠ some n →
    ∀ k ∈ r.listed, isNewerSequenceNumber (.ofNat k.n) (.ofNat n) = decide (n < k.n)
  playout : r.decoded = some n →
    r.nack.nackList.Pairwise fun a b => b.2.timeToPlayMs ≤ 10 → a.2.timeToPlayMs ≤ 10

def Ok (r : NackRun) : Search UInt16 × Call → Prop
  | (_, .received ..) => True
  | (_, .decoded n _) => r.DecodeOk n

/-! ## The comparisons the calls make -/

theorem newer_limit {m u size : Nat} (hsize : size ≤ 500) (hlt : m < u)
    (hu : u ≤ m + 0x8000 + size) :
    isNewerSequenceNumber (.ofNat m) (.ofNat u - .ofNat size - 1) = decide (u ≤ m + size) := by
  rw [Bool.eq_iff_iff]
  simp only [isNewerSequenceNumber, bne_iff_ne, ne_eq, Bool.and_eq_true, decide_eq_true_eq,
    UInt16.toNat_sub, ← UInt16.toNat_inj, UInt16.toNat_ofNat', UInt16.reduceToNat]
  omega

theorem newer_missing {m u : Nat} {threshold : Int} (h0 : 0 ≤ threshold) (h1 : threshold ≤ 0x8000)
    (hlt : m < u) (hu : u < m + 0x8000) :
    isNewerSequenceNumber (UInt16.ofInt ((UInt16.ofNat u).toNat - threshold)) (.ofNat m) =
      decide (threshold < (u : Int) - m) := by
  rw [Bool.eq_iff_iff]
  simp only [isNewerSequenceNumber, bne_iff_ne, ne_eq, Bool.and_eq_true, decide_eq_true_eq,
    UInt16.toNat_sub, ← UInt16.toNat_inj, UInt16.ofInt, UInt16.toNat_ofNat']
  omega

/-- A bound in the list is one among the numbers it was made from. -/
theorem bound_entries (search : Search UInt16) {l : List Skipped} {p : UInt16 → Bool}
    {q : Skipped → Bool} {e : Skipped → UInt16 × NackElement} (he : ∀ k, (e k).1 = .ofNat k.n)
    (hpq : ∀ k ∈ l, p (.ofNat k.n) = q k) (hq : Downward q l) :
    search.bound p ((l.map e).map (·.1)) = (l.filter q).length ∧
      (l.map e).take (search.bound p ((l.map e).map (·.1))) = (l.filter q).map e ∧
      (l.map e).drop (search.bound p ((l.map e).map (·.1))) = (l.filter (!q ·)).map e := by
  have hkeys : (l.map e).map (·.1) = l.map fun k => UInt16.ofNat k.n := by
    rw [List.map_map]
    exact List.map_congr_left fun k _ => he k
  have hdown : Downward (fun k : Skipped => p (.ofNat k.n)) l := by
    refine hq.imp_of_mem fun {a b} ha hb hab => ?_
    dsimp only
    rw [hpq a ha, hpq b hb]
    exact hab
  have hfilter : (l.filter fun k => p (.ofNat k.n)) = l.filter q := List.filter_congr hpq
  have hfilter' : (l.filter fun k => !p (.ofNat k.n)) = l.filter (!q ·) :=
    List.filter_congr fun k hk => by rw [hpq k hk]
  rw [hkeys, ← List.map_take, ← List.map_drop, search.take_bound hdown, search.drop_bound hdown,
    search.bound_map hdown, hfilter, hfilter']
  exact ⟨rfl, rfl, rfl⟩

theorem downward_lt {l : List Skipped} (h : l.Pairwise (·.n < ·.n)) (n : Nat) :
    Downward (fun k : Skipped => decide (k.n < n)) l := by
  refine h.imp fun {a b} hab hb => ?_
  rw [decide_eq_true_eq] at hb ⊢
  omega

theorem erased_sublist (l : List Skipped) (i j : Nat) :
    (l.take i ++ l.drop (max i j)).Sublist l := by
  have hdrop : (l.drop (max i j)).Sublist (l.drop i) := by
    rw [show max i j = i + (max i j - i) by omega, ← List.drop_drop]
    exact List.drop_sublist ..
  have := (List.Sublist.refl (l.take i)).append hdrop
  rw [List.take_append_drop] at this
  exact this

/-- What `AddToList` puts into the list for a number. -/
def added (s : Nack) (u k : Nat) : UInt16 × NackElement :=
  (.ofNat k, ⟨s.timeToPlay (s.estimateTimestamp (.ofNat k)), s.estimateTimestamp (.ofNat k),
    isNewerSequenceNumber (s.missingBefore (.ofNat u)) (.ofNat k)⟩)

/-- The loop goes up to the new number and appends each one. -/
theorem addLoop_eq (search : Search UInt16) {u : Nat} : ∀ {fuel m : Nat} {s : Nack}, m ≤ u →
    u - m ≤ fuel → u - m < 0x8000 →
    (∀ e, s.nackList.getLast? = some e → isNewerSequenceNumber (.ofNat m) e.1 = true) →
    Nack.addLoop search (.ofNat u) fuel (.ofNat m) s =
      { s with nackList := s.nackList ++ (List.range' m (u - m)).map (added s u) } := by
  intro fuel
  induction fuel with
  | zero =>
    intro m s hle hf _ _
    rw [show u - m = 0 by omega, List.range'_zero, List.map_nil, List.append_nil]
    rfl
  | succ fuel ih =>
    intro m s hle hf hh hlast
    have hnew : isNewerSequenceNumber (.ofNat u) (.ofNat m) = decide (m < u) :=
      newer_ofNat ⟨by omega, by omega⟩
    rw [Nack.addLoop, hnew]
    by_cases hlt : m < u
    · have hins : s.addNumber search (.ofNat u) (.ofNat m) =
          { s with nackList := s.nackList ++ [added s u m] } := by
        rw [Nack.addNumber, NackList.insertEnd]
        cases hg : s.nackList.getLast? with
        | none =>
          rw [List.getLast?_eq_none_iff.1 hg]
          rfl
        | some e =>
          dsimp only
          rw [if_pos (hlast e hg)]
          rfl
      have hnext : (UInt16.ofNat m + 1) = .ofNat (m + 1) := (UInt16.ofNat_add m 1).symm
      rw [decide_eq_true hlt, if_pos rfl, hins, hnext, ih (by omega) (by omega) (by omega)]
      · dsimp only
        rw [show u - m = u - (m + 1) + 1 by omega, List.range'_succ, List.map_cons,
          List.append_assoc, List.singleton_append]
        rfl
      · intro e he
        rw [List.getLast?_concat] at he
        cases he
        exact (newer_ofNat ⟨by omega, by omega⟩).trans (decide_eq_true (by omega))
    · rw [decide_eq_false hlt, if_neg Bool.false_ne_true, show u - m = 0 by omega, List.range'_zero,
        List.map_nil, List.append_nil]

theorem mem_fresh {r : NackRun} {sequenceNumber : UInt16} {timestamp : UInt32} {u : Nat} {k : Skipped}
    (hk : k ∈ r.fresh sequenceNumber timestamp u) :
    r.last < k.n ∧ k.n < u ∧ k.ranOut = false := by
  obtain ⟨n, hn, rfl⟩ := List.mem_map.1 hk
  have := List.mem_range'_1.1 hn
  exact ⟨by dsimp only; omega, by dsimp only; omega, rfl⟩

theorem fresh_sorted (r : NackRun) (sequenceNumber : UInt16) (timestamp : UInt32) (u : Nat) :
    (r.fresh sequenceNumber timestamp u).Pairwise (·.n < ·.n) := by
  rw [fresh, List.pairwise_map]
  exact List.pairwise_lt_range'

/-! ## The invariant -/

/-- The item of the list for a skipped number. -/
def entry (threshold : Int) (last : Nat) (k : Skipped) : UInt16 × NackElement :=
  (.ofNat k.n, ⟨k.timeToPlayMs, k.estimatedTimestamp, decide (threshold < (last : Int) - k.n)⟩)

structure Inv (r : NackRun) : Prop where
  size : r.nack.maxNackListSize ≤ 500
  thresholdFrom : 0 ≤ r.nack.nackThresholdPackets
  thresholdTo : r.nack.nackThresholdPackets ≤ 0x8000
  start : r.nack.anyRtpReceived = false → r.received = [] ∧ r.skipped = [] ∧ r.decoded = none
  cycle : r.nack.anyRtpReceived = true → 65536 ≤ r.last
  last : r.nack.anyRtpReceived = true → r.nack.sequenceNumLastReceivedRtp = .ofNat r.last
  anyDecoded : r.nack.anyRtpDecoded = r.decoded.isSome
  lastDecoded : ∀ d, r.decoded = some d → r.nack.sequenceNumLastDecodedRtp = .ofNat d
  received : ∀ n ∈ r.received, n ≤ r.last
  decoded : ∀ d, r.decoded = some d → d ≤ r.last
  sorted : r.skipped.Pairwise (·.n < ·.n)
  below : ∀ k ∈ r.skipped, k.n < r.last
  list : r.nack.nackList = r.listed.map (entry r.nack.nackThresholdPackets r.last)

section Inv

variable {r : NackRun} (h : r.Inv)
include h

theorem Inv.listed_near {k : Skipped} (hk : k ∈ r.listed) :
    k.n < r.last ∧ r.last ≤ k.n + 500 := by
  obtain ⟨hs, hd⟩ := List.mem_filter.1 hk
  rw [due, Bool.and_eq_true, Bool.and_eq_true, decide_eq_true_eq] at hd
  have := h.size
  exact ⟨h.below k hs, by omega⟩

theorem Inv.listed_sorted : r.listed.Pairwise (·.n < ·.n) := h.sorted.filter _

theorem Inv.exact : r.Exact where
  ordered := by
    rw [h.list, List.map_map, List.pairwise_map]
    refine h.listed_sorted.imp_of_mem fun {a b} ha hb hlt => ?_
    have h1 := h.listed_near ha
    have h2 := h.listed_near hb
    have hnear : Near16 b.n a.n := ⟨by omega, by omega⟩
    exact (newer_ofNat hnear).trans (decide_eq_true hlt)
  contains := by
    intro sequenceNumber
    rw [h.list, List.map_map]
    constructor
    · intro hm
      obtain ⟨k, hk, rfl⟩ := List.mem_map.1 hm
      obtain ⟨hs, hd⟩ := List.mem_filter.1 hk
      rw [due, Bool.and_eq_true, Bool.and_eq_true, decide_eq_true_eq] at hd
      refine ⟨k, hs, rfl, fun d hdec => ?_, hd.1.2, by simpa using hd.2⟩
      have := hd.1.1
      rw [hdec] at this
      simpa using this
    · rintro ⟨k, hs, rfl, hdec, hnear, hout⟩
      refine List.mem_map.2 ⟨k, List.mem_filter.2 ⟨hs, ?_⟩, rfl⟩
      rw [due, hout, decide_eq_true hnear, Bool.and_true, Bool.not_false, Bool.and_true]
      cases hd : r.decoded with
      | none => rfl
      | some d => exact decide_eq_true (hdec d hd)
  missing := by
    intro e he
    rw [h.list] at he
    obtain ⟨k, hk, rfl⟩ := List.mem_map.1 he
    exact ⟨k, (List.mem_filter.1 hk).1, rfl, decide_eq_true_iff⟩

/-- What is asked for: the numbers far enough behind that can still be played
after a round trip. -/
theorem Inv.getNackList_eq (roundTripTimeMs : Int) :
    r.nack.getNackList roundTripTimeMs =
      (r.listed.filter fun k => decide (r.nack.nackThresholdPackets < (r.last : Int) - k.n) &&
        decide (roundTripTimeMs < k.timeToPlayMs)).map fun k => UInt16.ofNat k.n := by
  rw [Nack.getNackList, h.list, List.filter_map, List.map_map]
  rfl

/-- The three ways a packet can come in after the first. -/
theorem Inv.unwrapped_cases (hany : r.nack.anyRtpReceived = true) (sequenceNumber : UInt16) :
    sequenceNumber = .ofNat (r.unwrapped sequenceNumber) ∧
      (sequenceNumber = r.nack.sequenceNumLastReceivedRtp ∧ r.unwrapped sequenceNumber = r.last ∨
        isNewerSequenceNumber r.nack.sequenceNumLastReceivedRtp sequenceNumber = true ∧
          r.unwrapped sequenceNumber < r.last ∧ r.last < r.unwrapped sequenceNumber + 0x8000 ∨
        isNewerSequenceNumber r.nack.sequenceNumLastReceivedRtp sequenceNumber = false ∧
          sequenceNumber ≠ r.nack.sequenceNumLastReceivedRtp ∧
          r.last < r.unwrapped sequenceNumber ∧
          r.unwrapped sequenceNumber ≤ r.last + 0x8000) := by
  have hcycle := h.cycle hany
  rw [unwrapped, hany, h.last hany]
  simp only [Bool.not_true, Bool.false_eq_true, if_false]
  have hlt := sequenceNumber.toNat_lt
  cases hnew : isNewerSequenceNumber (.ofNat r.last) sequenceNumber with
  | true =>
    simp only [isNewerSequenceNumber, bne_iff_ne, ne_eq, Bool.and_eq_true, decide_eq_true_eq,
      UInt16.toNat_sub, ← UInt16.toNat_inj, UInt16.toNat_ofNat'] at hnew
    simp only [if_true, ← UInt16.toNat_inj, UInt16.toNat_ofNat', UInt16.toNat_sub]
    refine ⟨by omega, Or.inr (Or.inl ⟨trivial, by omega, by omega⟩)⟩
  | false =>
    simp only [isNewerSequenceNumber, Bool.and_eq_false_iff, bne_eq_false_iff_eq,
      decide_eq_false_iff_not, UInt16.toNat_sub, ← UInt16.toNat_inj, UInt16.toNat_ofNat'] at hnew
    simp only [Bool.false_eq_true, if_false, ne_eq, ← UInt16.toNat_inj, UInt16.toNat_ofNat',
      UInt16.toNat_sub]
    refine ⟨by omega, ?_⟩
    by_cases heq : sequenceNumber.toNat = r.last % 2 ^ 16
    · exact Or.inl ⟨heq, by omega⟩
    · exact Or.inr (Or.inr ⟨trivial, heq, by omega, by omega⟩)

/-- A number near the list is taken out of it. -/
theorem Inv.erase_old (search : Search UInt16) {n : Nat} (hn : n < r.last)
    (hnear : r.last < n + 0x8000) :
    NackList.erase search (.ofNat n) r.nack.nackList =
      (r.listed.filter (·.n ≠ n)).map (entry r.nack.nackThresholdPackets r.last) := by
  have hlower : ∀ k ∈ r.listed, isNewerSequenceNumber (.ofNat n) (.ofNat k.n) = decide (k.n < n) := by
    intro k hk
    have := h.listed_near hk
    exact newer_ofNat ⟨by omega, by omega⟩
  have hupper : ∀ k ∈ r.listed, isNewerSequenceNumber (.ofNat k.n) (.ofNat n) = decide (n < k.n) := by
    intro k hk
    have := h.listed_near hk
    exact newer_ofNat ⟨by omega, by omega⟩
  have hupper' : ∀ k ∈ r.listed, (!isNewerSequenceNumber (.ofNat k.n) (.ofNat n)) =
      decide (k.n < n + 1) := by
    intro k hk
    rw [hupper k hk, ← decide_not]
    exact decide_eq_decide.2 (by omega)
  obtain ⟨hi, htake, -⟩ := bound_entries search
    (e := entry r.nack.nackThresholdPackets r.last) (fun _ => rfl) hlower
    (downward_lt h.listed_sorted n)
  obtain ⟨hj, -, hdrop⟩ := bound_entries search
    (p := fun e => !isNewerSequenceNumber e (.ofNat n))
    (e := entry r.nack.nackThresholdPackets r.last) (fun _ => rfl) hupper'
    (downward_lt h.listed_sorted (n + 1))
  have hle : (r.listed.filter fun k => decide (k.n < n)).length ≤
      (r.listed.filter fun k => decide (k.n < n + 1)).length := by
    rw [← List.countP_eq_length_filter, ← List.countP_eq_length_filter]
    refine List.countP_mono_left fun k _ hk => ?_
    rw [decide_eq_true_eq] at hk ⊢
    omega
  rw [NackList.erase, NackList.lowerBound, NackList.upperBound, h.list, htake,
    Nat.max_eq_right (by rw [hi, hj]; exact hle), hdrop, ← List.map_append]
  congr 1
  rw [filter_append_filter (downward_lt (h.listed_sorted.filter (·.n ≠ n)) n), List.filter_filter,
    List.filter_filter]
  congr 1
  · refine List.filter_congr fun k _ => ?_
    rw [← Bool.decide_and]
    exact decide_eq_decide.2 (by omega)
  · refine List.filter_congr fun k _ => ?_
    rw [← decide_not, ← decide_not, ← Bool.decide_and]
    exact decide_eq_decide.2 (by omega)

/-- Where an advance stays within half the circle of the whole list, nothing is
erased and the marks are those of the new number. -/
theorem Inv.front_near (search : Search UInt16) {u : Nat} (hlt : r.last < u)
    (hnear : ∀ k ∈ r.listed, u < k.n + 0x8000) {s : Nack}
    (hs : s.nackThresholdPackets = r.nack.nackThresholdPackets)
    (hl : s.nackList = NackList.erase search (.ofNat u) r.nack.nackList) :
    (s.changeFromLateToMissing search (.ofNat u)).nackList =
      r.listed.map (entry r.nack.nackThresholdPackets u) := by
  have hlower : ∀ k ∈ r.listed, isNewerSequenceNumber (.ofNat u) (.ofNat k.n) = true := by
    intro k hk
    have h1 := h.listed_near hk
    have h2 := hnear k hk
    exact (newer_ofNat ⟨by omega, by omega⟩).trans (decide_eq_true (by omega))
  have hall : Downward (fun _ : Skipped => true) r.listed :=
    List.pairwise_of_forall fun _ _ _ => rfl
  obtain ⟨hi, htake, -⟩ := bound_entries search
    (e := entry r.nack.nackThresholdPackets r.last) (fun _ => rfl) hlower hall
  have herase : NackList.erase search (.ofNat u) r.nack.nackList = r.nack.nackList := by
    have hfull : (r.listed.filter fun _ => true) = r.listed := List.filter_eq_self.2 fun _ _ => rfl
    rw [NackList.erase, NackList.lowerBound, h.list, htake, hfull, List.drop_eq_nil_of_le,
      List.append_nil]
    rw [hi, hfull, List.length_map]
    exact Nat.le_max_left ..
  have hmark : ∀ k ∈ r.listed, isNewerSequenceNumber (s.missingBefore (.ofNat u)) (.ofNat k.n) =
      decide (r.nack.nackThresholdPackets < (u : Int) - k.n) := by
    intro k hk
    have h1 := h.listed_near hk
    rw [Nack.missingBefore, hs]
    exact newer_missing h.thresholdFrom h.thresholdTo (by omega) (hnear k hk)
  have hdown : Downward (fun k : Skipped =>
      decide (r.nack.nackThresholdPackets < (u : Int) - k.n)) r.listed := by
    refine h.listed_sorted.imp fun {a b} hab hb => ?_
    rw [decide_eq_true_eq] at hb ⊢
    omega
  obtain ⟨-, htake, hdrop⟩ := bound_entries search
    (e := entry r.nack.nackThresholdPackets r.last) (fun _ => rfl) hmark hdown
  rw [Nack.changeFromLateToMissing, NackList.lowerBound]
  dsimp only
  rw [hl, herase, h.list, htake, hdrop, List.map_map]
  conv => rhs; rw [filter_append_filter hdown, List.map_append]
  congr 1
  · refine List.map_congr_left fun k hk => ?_
    have := (List.mem_filter.1 hk).2
    simp only [Function.comp, entry, this]
  · refine List.map_congr_left fun k hk => ?_
    have := (List.mem_filter.1 hk).2
    rw [Bool.not_eq_true', decide_eq_false_iff_not] at this
    simp only [entry]
    congr 2
    exact decide_eq_decide.2 (by omega)

/-- In any case what is left stands for numbers of the list, in their order. -/
theorem Inv.front_keys (search : Search UInt16) (u : Nat) {s : Nack}
    (hl : s.nackList = NackList.erase search (.ofNat u) r.nack.nackList) :
    ∃ m : List Skipped, m.Sublist r.listed ∧
      (s.changeFromLateToMissing search (.ofNat u)).nackList.map (·.1) =
        m.map fun k => UInt16.ofNat k.n := by
  have hkeys : (s.changeFromLateToMissing search (.ofNat u)).nackList.map (·.1) =
      s.nackList.map (·.1) := by
    rw [Nack.changeFromLateToMissing]
    dsimp only
    rw [List.map_append, List.map_map]
    conv => rhs; rw [← List.take_append_drop
      (NackList.lowerBound search (s.missingBefore (.ofNat u)) s.nackList) s.nackList,
      List.map_append]
    rfl
  rw [hkeys, hl, NackList.erase, h.list, ← List.map_take, ← List.map_drop, ← List.map_append,
    List.map_map]
  refine ⟨_, ?_, rfl⟩
  exact erased_sublist ..

/-- The numbers the limit leaves of it are the listed ones that are still near
enough to the new number. -/
theorem Inv.front_kept (search : Search UInt16) {u : Nat} (hlt : r.last < u)
    (hle : u ≤ r.last + 0x8000) {s : Nack}
    (hs : s.nackThresholdPackets = r.nack.nackThresholdPackets)
    (hl : s.nackList = NackList.erase search (.ofNat u) r.nack.nackList) :
    (s.changeFromLateToMissing search (.ofNat u)).nackList.filter (fun e =>
        isNewerSequenceNumber e.1 (.ofNat u - .ofNat r.nack.maxNackListSize - 1)) =
      (r.listed.filter fun k => decide (u ≤ k.n + r.nack.maxNackListSize)).map
        (entry r.nack.nackThresholdPackets u) := by
  have hsize := h.size
  have hnewer : ∀ k ∈ r.listed, isNewerSequenceNumber (.ofNat k.n)
      (.ofNat u - .ofNat r.nack.maxNackListSize - 1) =
        decide (u ≤ k.n + r.nack.maxNackListSize) := by
    intro k hk
    obtain ⟨hs, hd⟩ := List.mem_filter.1 hk
    rw [due, Bool.and_eq_true, Bool.and_eq_true, decide_eq_true_eq] at hd
    have := h.listed_near hk
    exact newer_limit h.size (by omega) (by omega)
  by_cases hnear : ∀ k ∈ r.listed, u < k.n + 0x8000
  · rw [h.front_near search hlt hnear hs hl, List.filter_map]
    congr 1
    exact List.filter_congr hnewer
  · -- nothing of the list is near enough to a number so far ahead
    have hfar : ∀ k ∈ r.listed, ¬ u ≤ k.n + r.nack.maxNackListSize := by
      intro k hk hc
      refine hnear fun k' hk' => ?_
      have h1 := h.listed_near hk
      have h2 := h.listed_near hk'
      omega
    obtain ⟨m, hm, hkeys⟩ := h.front_keys search u hl
    rw [List.filter_eq_nil_iff.2, List.filter_eq_nil_iff.2, List.map_nil]
    · intro k hk
      rw [decide_eq_true_eq]
      exact hfar k hk
    · intro e he
      have hmem : e.1 ∈ m.map fun k => UInt16.ofNat k.n := by
        rw [← hkeys]
        exact List.mem_map_of_mem he
      obtain ⟨k, hk, heq⟩ := List.mem_map.1 hmem
      rw [← heq, hnewer k (hm.mem hk), decide_eq_true_eq]
      exact hfar k (hm.mem hk)

/-- The list after `UpdateList`. -/
theorem Inv.updateList_nackList (search : Search UInt16) {u : Nat} (hlt : r.last < u)
    (hle : u ≤ r.last + 0x8000) {s : Nack}
    (hl : s.nackList = NackList.erase search (.ofNat u) r.nack.nackList)
    (hlast : s.sequenceNumLastReceivedRtp = .ofNat r.last) :
    s.updateList search (.ofNat u) =
      { s with
        nackList := (s.changeFromLateToMissing search (.ofNat u)).nackList ++
          (List.range' (r.last + 1) (u - (r.last + 1))).map (added s u) } := by
  have hnext : (UInt16.ofNat r.last + 1) = .ofNat (r.last + 1) := (UInt16.ofNat_add r.last 1).symm
  have hnew : isNewerSequenceNumber (.ofNat u) (.ofNat (r.last + 1)) = decide (r.last + 1 < u) :=
    newer_ofNat ⟨by omega, by omega⟩
  obtain ⟨m, hm, hkeys⟩ := h.front_keys search u hl
  have hlastKey : ∀ e, (s.changeFromLateToMissing search (.ofNat u)).nackList.getLast? = some e →
      isNewerSequenceNumber (.ofNat (r.last + 1)) e.1 = true := by
    intro e he
    have hmem : e.1 ∈ m.map fun k => UInt16.ofNat k.n := by
      rw [← hkeys]
      exact List.mem_map_of_mem (List.mem_of_getLast? he)
    obtain ⟨k, hk, heq⟩ := List.mem_map.1 hmem
    have := h.listed_near (hm.mem hk)
    rw [← heq]
    exact (newer_ofNat ⟨by omega, by omega⟩).trans (decide_eq_true (by omega))
  have hlast' : (s.changeFromLateToMissing search (.ofNat u)).sequenceNumLastReceivedRtp =
      .ofNat r.last := hlast
  rw [Nack.updateList, hlast', hnext, hnew]
  by_cases hgap : r.last + 1 < u
  · rw [decide_eq_true hgap, if_pos rfl, Nack.addToList, hlast', hnext,
      addLoop_eq search (by omega) (by omega) (by omega) hlastKey]
    rfl
  · rw [decide_eq_false hgap, if_neg Bool.false_ne_true, show u - (r.last + 1) = 0 by omega,
      List.range'_zero, List.map_nil, List.append_nil]
    rfl

/-- The numbers due after an advance. -/
theorem Inv.listed_advance {sequenceNumber : UInt16} {timestamp : UInt32} {u : Nat} {nack : Nack}
    (hlt : r.last < u) (hsize : nack.maxNackListSize = r.nack.maxNackListSize)
    (received : List Nat) :
    listed { r with
        nack := nack
        last := u
        received := received
        skipped := r.skipped.filter (·.n ≠ u) ++ r.fresh sequenceNumber timestamp u } =
      (r.listed.filter fun k => decide (u ≤ k.n + r.nack.maxNackListSize)) ++
        (r.fresh sequenceNumber timestamp u).filter fun k =>
          decide (u ≤ k.n + r.nack.maxNackListSize) := by
  rw [listed, listed, List.filter_append, List.filter_filter, List.filter_filter]
  congr 1
  · refine List.filter_congr fun k hk => ?_
    have hb := h.below k hk
    rw [Bool.eq_iff_iff]
    simp only [due, hsize, Bool.and_eq_true, decide_eq_true_eq]
    constructor
    · rintro ⟨⟨⟨h1, h2⟩, h3⟩, -⟩
      exact ⟨h2, ⟨⟨h1, by omega⟩, h3⟩⟩
    · rintro ⟨h2, ⟨h1, -⟩, h3⟩
      exact ⟨⟨⟨h1, h2⟩, h3⟩, by omega⟩
  · refine List.filter_congr fun k hk => ?_
    obtain ⟨h1, -, h3⟩ := mem_fresh hk
    have hdec : r.decoded.all (· < k.n) = true := by
      cases hd : r.decoded with
      | none => rfl
      | some d =>
        have := h.decoded d hd
        exact decide_eq_true (by omega)
    simp only [due, hsize, hdec, h3, Bool.not_false, Bool.and_true, Bool.true_and]

/-- The limit leaves the numbers that are near enough. -/
theorem Inv.limit_advance (search : Search UInt16) (timestamp : UInt32) {u : Nat}
    (hle : u ≤ r.last + 0x8000) {front : NackList} {m : List Skipped}
    (hm : m.Sublist r.listed) (hlt : r.last < u)
    (hkeys : front.map (·.1) = m.map fun k => UInt16.ofNat k.n)
    (hkept : front.filter (fun e =>
        isNewerSequenceNumber e.1 (.ofNat u - .ofNat r.nack.maxNackListSize - 1)) =
      (r.listed.filter fun k => decide (u ≤ k.n + r.nack.maxNackListSize)).map
        (entry r.nack.nackThresholdPackets u)) :
    let l := front ++ (r.fresh (.ofNat u) timestamp u).map (entry r.nack.nackThresholdPackets u)
    l.drop (NackList.upperBound search (.ofNat u - .ofNat r.nack.maxNackListSize - 1) l) =
      ((r.listed.filter fun k => decide (u ≤ k.n + r.nack.maxNackListSize)) ++
        (r.fresh (.ofNat u) timestamp u).filter fun k =>
          decide (u ≤ k.n + r.nack.maxNackListSize)).map (entry r.nack.nackThresholdPackets u) := by
  obtain ⟨limit, hlimit⟩ : ∃ x : UInt16, x = .ofNat u - .ofNat r.nack.maxNackListSize - 1 :=
    ⟨_, rfl⟩
  rw [← hlimit] at hkept ⊢
  obtain ⟨fresh, hfresh⟩ : ∃ l, l = r.fresh (.ofNat u) timestamp u := ⟨_, rfl⟩
  rw [← hfresh]
  have hnewer : ∀ k ∈ m ++ fresh, isNewerSequenceNumber (.ofNat k.n) limit =
      decide (u ≤ k.n + r.nack.maxNackListSize) := by
    intro k hk
    rw [hlimit]
    rcases List.mem_append.1 hk with hk | hk
    · have h1 := (List.mem_filter.1 (hm.mem hk)).2
      have h2 := h.listed_near (hm.mem hk)
      rw [due, Bool.and_eq_true, Bool.and_eq_true, decide_eq_true_eq] at h1
      exact newer_limit h.size (by omega) (by omega)
    · rw [hfresh] at hk
      obtain ⟨h1, h2, -⟩ := mem_fresh hk
      exact newer_limit h.size h2 (by omega)
  have hsorted : (m ++ fresh).Pairwise (·.n < ·.n) := by
    rw [hfresh]
    refine List.pairwise_append.2 ⟨h.listed_sorted.sublist hm, fresh_sorted .., ?_⟩
    intro a ha b hb
    have h1 := h.listed_near (hm.mem ha)
    have h2 := mem_fresh hb
    omega
  have hdown : Downward (fun e : UInt16 × NackElement => !isNewerSequenceNumber e.1 limit)
      (front ++ fresh.map (entry r.nack.nackThresholdPackets u)) := by
    have hall : ((front ++ fresh.map (entry r.nack.nackThresholdPackets u)).map (·.1)) =
        (m ++ fresh).map fun k => UInt16.ofNat k.n := by
      rw [List.map_append, hkeys, List.map_map, List.map_append]
      rfl
    have hpairs : ((front ++ fresh.map (entry r.nack.nackThresholdPackets u)).map (·.1)).Pairwise
        fun a b => (!isNewerSequenceNumber b limit) = true →
          (!isNewerSequenceNumber a limit) = true := by
      rw [hall]
      refine List.pairwise_map.2 (hsorted.imp_of_mem fun {a b} ha hb hab => ?_)
      rw [hnewer a ha, hnewer b hb, Bool.not_eq_true', Bool.not_eq_true', decide_eq_false_iff_not,
        decide_eq_false_iff_not]
      omega
    exact List.pairwise_map.1 hpairs
  dsimp only
  rw [NackList.upperBound, search.drop_bound (p := fun e => !isNewerSequenceNumber e limit) hdown,
    List.map_append, List.filter_append]
  simp only [Bool.not_not, hkept]
  congr 1
  rw [List.filter_map]
  congr 1
  exact List.filter_congr fun k hk => hnewer k (List.mem_append_right _ hk)

/-- The fields an advance sets, and the list it leaves. -/
theorem Inv.advance (search : Search UInt16) {timestamp : UInt32} {u : Nat}
    (hany : r.nack.anyRtpReceived = true) (hlt : r.last < u) (hle : u ≤ r.last + 0x8000)
    (hold : isNewerSequenceNumber r.nack.sequenceNumLastReceivedRtp (.ofNat u) = false)
    (hne : UInt16.ofNat u ≠ r.nack.sequenceNumLastReceivedRtp) :
    r.nack.updateLastReceivedPacket search (.ofNat u) timestamp =
      { (r.nack.updateSamplesPerPacket (.ofNat u) timestamp).setLastReceived (.ofNat u) timestamp with
        nackList := ((r.listed.filter fun k => decide (u ≤ k.n + r.nack.maxNackListSize)) ++
          (r.fresh (.ofNat u) timestamp u).filter fun k =>
            decide (u ≤ k.n + r.nack.maxNackListSize)).map
              (entry r.nack.nackThresholdPackets u) } := by
  obtain ⟨s, hs⟩ : ∃ s, s = Nack.updateSamplesPerPacket
    { r.nack with nackList := NackList.erase search (.ofNat u) r.nack.nackList } (.ofNat u)
      timestamp := ⟨_, rfl⟩
  have hl : s.nackList = NackList.erase search (.ofNat u) r.nack.nackList := by rw [hs]; rfl
  have hthr : s.nackThresholdPackets = r.nack.nackThresholdPackets := by rw [hs]; rfl
  have hlast : s.sequenceNumLastReceivedRtp = .ofNat r.last := by
    rw [hs]
    exact h.last hany
  -- what is added is what the observer expects
  have hadded : (List.range' (r.last + 1) (u - (r.last + 1))).map (added s u) =
      (r.fresh (.ofNat u) timestamp u).map (entry r.nack.nackThresholdPackets u) := by
    rw [fresh, List.map_map]
    refine List.map_congr_left fun k hk => ?_
    have hk := List.mem_range'_1.1 hk
    have hmissing : isNewerSequenceNumber (s.missingBefore (.ofNat u)) (.ofNat k) =
        decide (r.nack.nackThresholdPackets < (u : Int) - k) := by
      rw [Nack.missingBefore, hthr]
      exact newer_missing h.thresholdFrom h.thresholdTo (by omega) (by omega)
    rw [added, hmissing, hs]
    rfl
  have hupdate := h.updateList_nackList search hlt hle hl hlast
  obtain ⟨m, hm, hkeys⟩ := h.front_keys search u hl
  have hdrop := h.limit_advance search timestamp hle hm hlt hkeys
    (h.front_kept search hlt hle hthr hl)
  dsimp only at hdrop
  rw [hadded] at hupdate
  have hsize : s.maxNackListSize = r.nack.maxNackListSize := by rw [hs]; rfl
  have hlimit : ∀ l : NackList,
      Nack.limitNackListSize search (Nack.setLastReceived { s with nackList := l } (.ofNat u)
        timestamp) =
      { s.setLastReceived (.ofNat u) timestamp with
        nackList := l.drop (NackList.upperBound search
          (.ofNat u - .ofNat s.maxNackListSize - 1) l) } := fun _ => rfl
  rw [Nack.updateLastReceivedPacket, if_neg (by rw [hany]; decide), if_neg hne,
    if_neg (by rw [hold]; decide), ← hs]
  show Nack.limitNackListSize search ((Nack.updateList search s (.ofNat u)).setLastReceived
    (.ofNat u) timestamp) = _
  rw [hupdate, hlimit, hsize, hdrop, hs]
  rfl

theorem Inv.step_advance (search : Search UInt16) {sequenceNumber : UInt16} {timestamp : UInt32}
    {u : Nat} (hseq : sequenceNumber = .ofNat u) (hany : r.nack.anyRtpReceived = true)
    (hlt : r.last < u) (hle : u ≤ r.last + 0x8000)
    (hold : isNewerSequenceNumber r.nack.sequenceNumLastReceivedRtp sequenceNumber = false)
    (hne : sequenceNumber ≠ r.nack.sequenceNumLastReceivedRtp) :
    Inv { r with
      nack := r.nack.updateLastReceivedPacket search sequenceNumber timestamp
      last := u
      received := u :: r.received
      skipped := r.skipped.filter (·.n ≠ u) ++ r.fresh sequenceNumber timestamp u } := by
  subst hseq
  have hcycle := h.cycle hany
  rw [h.advance search hany hlt hle hold hne]
  refine ⟨h.size, h.thresholdFrom, h.thresholdTo, fun hc => ?_, fun _ => ?_, fun _ => rfl,
    h.anyDecoded, h.lastDecoded, fun n hn => ?_, fun d hd => ?_, ?_, fun k hk => ?_, ?_⟩
  · exact absurd (hany.symm.trans hc) (by decide)
  · dsimp only
    omega
  · dsimp only
    rcases List.mem_cons.1 hn with rfl | hn
    · exact Nat.le_refl _
    · have := h.received n hn
      omega
  · have := h.decoded d hd
    dsimp only
    omega
  · refine List.pairwise_append.2 ⟨h.sorted.filter _, fresh_sorted .., fun a ha b hb => ?_⟩
    have h1 := h.below a (List.mem_filter.1 ha).1
    have h2 := mem_fresh hb
    omega
  · dsimp only
    rcases List.mem_append.1 hk with hk | hk
    · have := h.below k (List.mem_filter.1 hk).1
      omega
    · exact (mem_fresh hk).2.1
  · rw [h.listed_advance hlt]
    · rfl
    · rfl

theorem Inv.step_old (search : Search UInt16) {sequenceNumber : UInt16} {timestamp : UInt32}
    {n : Nat} (hseq : sequenceNumber = .ofNat n) (hany : r.nack.anyRtpReceived = true)
    (hlt : n < r.last) (hnear : r.last < n + 0x8000)
    (hold : isNewerSequenceNumber r.nack.sequenceNumLastReceivedRtp sequenceNumber = true) :
    Inv { r with
      nack := r.nack.updateLastReceivedPacket search sequenceNumber timestamp
      received := n :: r.received
      skipped := r.skipped.filter (·.n ≠ n) } := by
  have hne : sequenceNumber ≠ r.nack.sequenceNumLastReceivedRtp := by
    rintro rfl
    rw [newer_irrefl] at hold
    cases hold
  rw [Nack.updateLastReceivedPacket, if_neg (by rw [hany]; decide), if_neg hne, if_pos hold]
  refine ⟨h.size, h.thresholdFrom, h.thresholdTo, fun hc => ?_, h.cycle, h.last,
    h.anyDecoded, h.lastDecoded, fun m hm => ?_, h.decoded, h.sorted.filter _, fun k hk => ?_, ?_⟩
  · exact absurd (hany.symm.trans hc) (by decide)
  · rcases List.mem_cons.1 hm with rfl | hm
    · exact Nat.le_of_lt hlt
    · exact h.received m hm
  · exact h.below k (List.mem_filter.1 hk).1
  · dsimp only
    rw [hseq, h.erase_old search hlt hnear, listed, listed, List.filter_filter, List.filter_filter]
    congr 1
    exact List.filter_congr fun k _ => Bool.and_comm ..

theorem Inv.step_again (search : Search UInt16) {timestamp : UInt32}
    (hany : r.nack.anyRtpReceived = true) :
    Inv { r with
      nack := r.nack.updateLastReceivedPacket search r.nack.sequenceNumLastReceivedRtp timestamp
      received := r.last :: r.received
      skipped := r.skipped.filter (·.n ≠ r.last) } := by
  have hskipped : r.skipped.filter (·.n ≠ r.last) = r.skipped := by
    refine List.filter_eq_self.2 fun k hk => ?_
    have := h.below k hk
    exact decide_eq_true (by omega)
  rw [Nack.updateLastReceivedPacket, if_neg (by rw [hany]; decide), if_pos rfl, hskipped]
  refine ⟨h.size, h.thresholdFrom, h.thresholdTo, fun hc => ?_, h.cycle, h.last,
    h.anyDecoded, h.lastDecoded, fun m hm => ?_, h.decoded, h.sorted, h.below, h.list⟩
  · exact absurd (hany.symm.trans hc) (by decide)
  · rcases List.mem_cons.1 hm with rfl | hm
    · exact Nat.le_refl _
    · exact h.received m hm

theorem Inv.step_first (search : Search UInt16) {sequenceNumber : UInt16} {timestamp : UInt32}
    (hany : r.nack.anyRtpReceived = false) :
    Inv { r with
      nack := r.nack.updateLastReceivedPacket search sequenceNumber timestamp
      last := 65536 + sequenceNumber.toNat
      received := (65536 + sequenceNumber.toNat) :: r.received } := by
  obtain ⟨hrec, hskip, hdec⟩ := h.start hany
  have hlist : r.nack.nackList = [] := by
    rw [h.list, listed, hskip]
    rfl
  have hnone : r.nack.anyRtpDecoded = false := by
    rw [h.anyDecoded, hdec]
    rfl
  have hwrap : sequenceNumber = .ofNat (65536 + sequenceNumber.toNat) := by
    have := sequenceNumber.toNat_lt
    rw [← UInt16.toNat_inj, UInt16.toNat_ofNat']
    omega
  have hnack : r.nack.updateLastReceivedPacket search sequenceNumber timestamp =
      { r.nack with
        sequenceNumLastReceivedRtp := sequenceNumber
        timestampLastReceivedRtp := timestamp
        anyRtpReceived := true
        sequenceNumLastDecodedRtp := sequenceNumber
        timestampLastDecodedRtp := timestamp } := by
    rw [Nack.updateLastReceivedPacket, if_pos (by rw [hany]; rfl)]
    exact if_pos (show (!r.nack.anyRtpDecoded) = true by rw [hnone]; rfl)
  rw [hnack]
  refine ⟨h.size, h.thresholdFrom, h.thresholdTo, fun hc => (nomatch hc), fun _ => ?_,
    fun _ => hwrap, h.anyDecoded, fun d hd => ?_, fun n hn => ?_, fun d hd => ?_, h.sorted,
      fun k hk => ?_, ?_⟩
  · exact Nat.le_add_right ..
  · exact absurd (hdec.symm.trans hd) (by simp)
  · rw [hrec, List.mem_singleton] at hn
    exact Nat.le_of_eq hn
  · exact absurd (hdec.symm.trans hd) (by simp)
  · rw [hskip] at hk
    cases hk
  · dsimp only
    rw [hlist, listed, hskip]
    rfl

/-- Decoding a number that is not the last one. -/
theorem Inv.step_decoded (search : Search UInt16) {timestamp : UInt32} {n : Nat}
    (hrec : n ∈ r.received) (hle : r.decoded.all (· ≤ n) = true) (hok : r.DecodeOk n)
    (hne : r.decoded ≠ some n) :
    let nack := r.nack.updateLastDecodedPacket search (.ofNat n) timestamp
    Inv { r with nack := nack, decoded := some n, skipped := r.skipped.map (retime nack) } := by
  have hfirst : (isNewerSequenceNumber (.ofNat n) r.nack.sequenceNumLastDecodedRtp ||
      !r.nack.anyRtpDecoded) = true := by
    rw [h.anyDecoded]
    cases hd : r.decoded with
    | none => exact Bool.or_true _
    | some d =>
      rw [hd] at hle hne
      have hle : d ≤ n := of_decide_eq_true hle
      have hlt : d < n := Nat.lt_of_le_of_ne hle fun hc => hne (congrArg some hc)
      rw [h.lastDecoded d hd, hok.last d hd, decide_eq_true hlt]
      rfl
  have hupper : ∀ k ∈ r.listed, (!isNewerSequenceNumber (.ofNat k.n) (.ofNat n)) =
      decide (k.n < n + 1) := by
    intro k hk
    rw [hok.listed hne k hk, ← decide_not]
    exact decide_eq_decide.2 (by omega)
  have hrest : r.nack.nackList.drop (NackList.upperBound search (.ofNat n) r.nack.nackList) =
      (r.listed.filter fun k => !decide (k.n < n + 1)).map
        (entry r.nack.nackThresholdPackets r.last) := by
    obtain ⟨-, -, hdrop⟩ := bound_entries search (p := fun e => !isNewerSequenceNumber e (.ofNat n))
      (e := entry r.nack.nackThresholdPackets r.last) (fun _ => rfl) hupper
      (downward_lt h.listed_sorted (n + 1))
    rw [NackList.upperBound, h.list, hdrop]
  obtain ⟨t, ht⟩ : ∃ t : Nack, t = { r.nack with
      sequenceNumLastDecodedRtp := .ofNat n
      timestampLastDecodedRtp := timestamp
      anyRtpDecoded := true } := ⟨_, rfl⟩
  have hnack : r.nack.updateLastDecodedPacket search (.ofNat n) timestamp = { t with
      nackList := ((r.listed.filter fun k => !decide (k.n < n + 1)).map (retime t)).map
        (entry r.nack.nackThresholdPackets r.last) } := by
    have hmap : ((r.listed.filter fun k => !decide (k.n < n + 1)).map (retime t)).map
        (entry r.nack.nackThresholdPackets r.last) =
        (r.nack.nackList.drop (NackList.upperBound search (.ofNat n) r.nack.nackList)).map
          fun e => (e.1, { e.2 with timeToPlayMs := t.timeToPlay e.2.estimatedTimestamp }) := by
      rw [hrest, List.map_map, List.map_map]
      rfl
    rw [hmap, Nack.updateLastDecodedPacket, if_pos hfirst, ht]
  have hretime : ∀ l : NackList, retime { t with nackList := l } = retime t := fun _ => rfl
  dsimp only
  rw [hnack, hretime]
  refine ⟨?_, ?_, ?_, fun hc => ?_, ?_, ?_, ?_, ?_, h.received, ?_, ?_, fun k hk => ?_, ?_⟩
  · rw [ht]
    exact h.size
  · rw [ht]
    exact h.thresholdFrom
  · rw [ht]
    exact h.thresholdTo
  · rw [ht] at hc
    rw [(h.start hc).1] at hrec
    cases hrec
  · rw [ht]
    exact h.cycle
  · rw [ht]
    exact h.last
  · rw [ht]
    rfl
  · rintro d ⟨⟩
    rw [ht]
  · rintro d ⟨⟩
    exact h.received _ hrec
  · exact List.pairwise_map.2 h.sorted
  · obtain ⟨k', hk', rfl⟩ := List.mem_map.1 hk
    exact h.below k' hk'
  · have hsize : t.maxNackListSize = r.nack.maxNackListSize := by rw [ht]
    have hthr : t.nackThresholdPackets = r.nack.nackThresholdPackets := by rw [ht]
    dsimp only
    rw [hthr, listed, listed, List.filter_map, List.filter_filter]
    congr 2
    refine List.filter_congr fun k _ => ?_
    rw [Bool.eq_iff_iff]
    simp only [due, Function.comp, retime, hsize, Option.all_some, Bool.and_eq_true,
      decide_eq_true_eq, Bool.not_eq_true', decide_eq_false_iff_not]
    constructor
    · rintro ⟨h1, ⟨-, h2⟩, h3⟩
      exact ⟨⟨by omega, h2⟩, h3⟩
    · rintro ⟨⟨h1, h2⟩, h3⟩
      refine ⟨by omega, ⟨?_, h2⟩, h3⟩
      cases hd : r.decoded with
      | none => rfl
      | some d =>
        rw [hd] at hle
        have hle : d ≤ n := of_decide_eq_true hle
        exact decide_eq_true (by omega)

/-- Decoding the last number again: 10 ms pass. -/
theorem Inv.step_repeated (search : Search UInt16) {timestamp : UInt32} {n : Nat}
    (hrec : n ∈ r.received) (hok : r.DecodeOk n) (hn : r.decoded = some n) :
    Inv { r with
      nack := r.nack.updateLastDecodedPacket search (.ofNat n) timestamp
      decoded := some n
      skipped := r.skipped.map tick } := by
  have hany : r.nack.anyRtpDecoded = true := by
    rw [h.anyDecoded, hn]
    rfl
  have hsame : (isNewerSequenceNumber (.ofNat n) r.nack.sequenceNumLastDecodedRtp ||
      !r.nack.anyRtpDecoded) = false := by
    rw [h.lastDecoded n hn, newer_irrefl, hany]
    rfl
  have hdown : Downward (fun e : UInt16 × NackElement => decide (e.2.timeToPlayMs ≤ 10))
      r.nack.nackList := by
    refine (hok.playout hn).imp fun {a b} hab hb => ?_
    rw [decide_eq_true_eq] at hb ⊢
    exact hab hb
  have hlist : (r.nack.nackList.dropWhile fun e => e.2.timeToPlayMs ≤ 10).map (fun e =>
      (e.1, { e.2 with timeToPlayMs := e.2.timeToPlayMs - 10 })) =
      ((r.listed.filter fun k => !decide (k.timeToPlayMs ≤ 10)).map tick).map
        (entry r.nack.nackThresholdPackets r.last) := by
    rw [Search.dropWhile_eq_filter hdown, h.list, List.filter_map, List.map_map, List.map_map]
    rfl
  have hnack : r.nack.updateLastDecodedPacket search (.ofNat n) timestamp = { r.nack with
      nackList := ((r.listed.filter fun k => !decide (k.timeToPlayMs ≤ 10)).map tick).map
        (entry r.nack.nackThresholdPackets r.last)
      timestampLastDecodedRtp := r.nack.timestampLastDecodedRtp + r.nack.sampleRateKhz * 10
      anyRtpDecoded := true } := by
    rw [← hlist, Nack.updateLastDecodedPacket, if_neg (by rw [hsame]; decide)]
    rfl
  rw [hnack]
  refine ⟨h.size, h.thresholdFrom, h.thresholdTo, fun hc => ?_, h.cycle, h.last, rfl, ?_,
    h.received, ?_, List.pairwise_map.2 h.sorted, fun k hk => ?_, ?_⟩
  · rw [(h.start hc).1] at hrec
    cases hrec
  · rintro d ⟨⟩
    exact h.lastDecoded n hn
  · rintro d ⟨⟩
    exact h.received _ hrec
  · obtain ⟨k', hk', rfl⟩ := List.mem_map.1 hk
    exact h.below k' hk'
  · dsimp only
    rw [listed, listed, List.filter_map, List.filter_filter]
    congr 2
    refine List.filter_congr fun k _ => ?_
    simp only [due, Function.comp, tick, hn, Bool.not_or]
    rw [Bool.and_comm, Bool.and_assoc]
    rfl

end Inv

theorem inv_init {r : NackRun} (h : init r) (h0 : 0 ≤ r.nack.nackThresholdPackets)
    (h1 : r.nack.nackThresholdPackets ≤ 0x8000) : r.Inv := by
  obtain ⟨threshold, size, search, nack, hset, rfl⟩ := h
  rw [Nack.setMaxNackListSize] at hset
  split at hset
  · cases hset
  · rename_i hsize
    cases hset
    have hnil : (NackList.upperBound search (0 - .ofNat size - 1) []) = 0 :=
      Nat.le_zero.1 (search.inside ..)
    refine ⟨?_, h0, h1, fun _ => ⟨rfl, rfl, rfl⟩, fun hc => (nomatch hc), fun hc => (nomatch hc),
      rfl, fun d hd => (nomatch hd), fun n hn => (nomatch hn), fun d hd => (nomatch hd), .nil,
      fun k hk => (nomatch hk), ?_⟩
    · have : ¬ size > 500 := fun hc => hsize (Or.inr hc)
      exact Nat.not_lt.1 this
    · exact List.drop_nil

theorem inv_step {r r' : NackRun} {l : Search UInt16 × Call} (h : r.Inv) (hok : r.Ok l)
    (hstep : r.step l = some r') : r'.Inv := by
  obtain ⟨search, call⟩ := l
  cases call with
  | received sequenceNumber timestamp =>
    rw [step] at hstep
    cases hany : r.nack.anyRtpReceived with
    | false =>
      rw [if_pos (by rw [hany]; rfl)] at hstep
      cases hstep
      have hn : r.unwrapped sequenceNumber = 65536 + sequenceNumber.toNat := by
        rw [unwrapped, if_pos (by rw [hany]; rfl)]
      rw [hn]
      exact h.step_first search hany
    | true =>
      rw [if_neg (by rw [hany]; decide)] at hstep
      obtain ⟨hseq, ⟨heq, hlast⟩ | ⟨hold, hlt, hnear⟩ | ⟨hold, hne, hlt, hle⟩⟩ :=
        h.unwrapped_cases hany sequenceNumber
      · rw [hlast, if_neg (Nat.lt_irrefl _)] at hstep
        cases hstep
        rw [heq]
        exact h.step_again search hany
      · rw [if_neg (by omega)] at hstep
        cases hstep
        exact h.step_old search hseq hany hlt hnear hold
      · rw [if_pos hlt] at hstep
        cases hstep
        exact h.step_advance search hseq hany hlt hle hold hne
  | decoded n timestamp =>
    rw [step] at hstep
    split at hstep
    · rename_i hin
      cases hstep
      by_cases hn : r.decoded = some n
      · rw [if_pos hn]
        exact h.step_repeated search hin.1 hok hn
      · rw [if_neg hn]
        exact h.step_decoded search hin.1 hin.2 hok hn
    · cases hstep

/-- The list is exact in every state of a run whose decode calls are in order
for it, with a threshold of at most half the circle. -/
theorem audio_nack_exact (r₀ r : NackRun) (ls : List (Search UInt16 × Call)) (hinit : init r₀)
    (h0 : 0 ≤ r₀.nack.nackThresholdPackets) (h1 : r₀.nack.nackThresholdPackets ≤ 0x8000)
    (hrun : (lts.within Ok).Run r₀ ls r) : r.Exact := by
  have hkeep : ∀ r l r', r.Inv → (lts.within Ok).step r l r' → r'.Inv := by
    rintro r l r' h ⟨hok, hstep⟩
    exact inv_step h hok hstep
  exact (hrun.keeps hkeep (inv_init hinit h0 h1)).exact

/-- A `Nack` with the threshold the receiver uses. -/
def initial : NackRun := { nack := { nackThresholdPackets := 2 } }

theorem init_initial : init initial := by
  refine ⟨2, 500, Search.linear, _, ?_, rfl⟩
  decide

def after (ls : List Call) : NackRun :=
  ((ls.map fun c => (Search.linear, c)).foldlM step initial).getD initial

/-- Packets 10 and 13 come in, 10 is decoded twice, and 11 comes in. -/
theorem audio_nack_exact_gap :
    (after [.received 10 0, .received 13 2880, .decoded 65546 0, .decoded 65546 0,
      .received 11 960]).Exact := by
  have hfirst : (after [.received 10 0, .received 13 2880]).DecodeOk 65546 := by
    have hdec : (after [.received 10 0, .received 13 2880]).decoded = none := by decide
    refine ⟨fun d hd => ?_, fun _ => by decide, fun hd => ?_⟩
    · rw [hdec] at hd
      cases hd
    · rw [hdec] at hd
      cases hd
  have hagain : (after [.received 10 0, .received 13 2880, .decoded 65546 0]).DecodeOk 65546 := by
    have hdec : (after [.received 10 0, .received 13 2880, .decoded 65546 0]).decoded =
        some 65546 := by decide
    refine ⟨fun d hd => ?_, fun hne => absurd hdec hne, fun _ => by decide⟩
    rw [hdec] at hd
    cases hd
    decide
  refine audio_nack_exact initial _ ([.received 10 0, .received 13 2880, .decoded 65546 0,
    .decoded 65546 0, .received 11 960].map fun c => (Search.linear, c)) init_initial (by decide)
    (by decide) ?_
  have hstep : ∀ r c r', step r (Search.linear, c) = some r' →
      lts.step r (Search.linear, c) r' := fun _ _ _ h => h
  refine .cons ⟨trivial, hstep _ _ (after [.received 10 0]) (by decide)⟩ ?_
  refine .cons ⟨trivial, hstep _ _ (after [.received 10 0, .received 13 2880])
    (by decide)⟩ ?_
  refine .cons ⟨hfirst, hstep _ _ (after [.received 10 0, .received 13 2880, .decoded 65546 0])
    (by decide)⟩ ?_
  refine .cons ⟨hagain, hstep _ _ (after [.received 10 0, .received 13 2880, .decoded 65546 0,
    .decoded 65546 0]) (by decide)⟩ ?_
  exact .cons ⟨trivial, hstep _ _ _ (by decide)⟩ (.nil _)

/-- Five packets are lost in a pause of 110 ms. -/
def pause : List Call :=
  [.received 0 0] ++ List.replicate 11 (.decoded 65536 0) ++ [.received 6 5760, .decoded 65536 0]

theorem ran_out_behind_front :
    ¬ ∀ (r₀ r : NackRun) (ls : List (Search UInt16 × Call)), init r₀ →
      0 ≤ r₀.nack.nackThresholdPackets → r₀.nack.nackThresholdPackets ≤ 0x8000 →
      lts.Run r₀ ls r → r.Exact := by
  intro hall
  have hrun : (pause.map fun c => (Search.linear, c)).foldlM step initial = some (after pause) := by
    decide
  have hexact := hall initial (after pause) _ init_initial (by decide) (by decide)
    (LTS.Run.of_foldlM hrun)
  have hin : (5 : UInt16) ∈ (after pause).nack.nackList.map (·.1) := by decide
  obtain ⟨k, hk, heq, -, -, hout⟩ := (hexact.contains 5).1 hin
  have hrun : ∀ k ∈ (after pause).skipped, (5 : UInt16) = .ofNat k.n → k.ranOut = true := by
    decide
  rw [hrun k hk heq] at hout
  cases hout

end NackRun

end Acm

end RtcCore.L2
