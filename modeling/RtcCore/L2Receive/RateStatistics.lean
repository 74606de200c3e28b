import RtcCore.Core.Int32
import RtcCore.Core.Circular
import Mathlib.Algebra.BigOperators.Group.List.Basic
import Mathlib.Data.List.Infix

/-!
# Counting over a sliding window (`rate_statistics.cc`)

`RateStatistics` adds up what was counted in the last `window_size_ms`
milliseconds, in one bucket a millisecond around a circle. A call with a later
time takes the buckets that fell out of the window from the sum, from the
oldest one on, and stops early once nothing is left in the sum. A `size_t` is
64 bits wide. The rate itself, a `float` multiple of the sum, is not modelled:
`rate` is what the call does to the state.

A call has no value where an assertion fails, an index is outside of the
buckets or a signed result does not fit. `History` is what the calls passed,
without buckets.

Results:
* `eraseLoop_spec`: the loop takes out what is older, in at most as many rounds
  as there are times to come.
* `update_spec`, `rate_spec`: each call keeps the buckets and the sum those of
  the history.
* `run_tracks`: so does every run, with both assertions.
-/
namespace RtcCore.L2
open Circular

structure RateStatistics where
  numBuckets : Int
  buckets : List Nat
  accumulatedCount : Nat
  oldestTime : Int
  oldestIndex : Nat
  deriving DecidableEq, Repr

namespace RateStatistics

/-- `num_buckets_` is an `int`; no array has a negative size.
mirrors rate_statistics.cc:17-24 -/
def create (windowSizeMs : Nat) : Option RateStatistics :=
  let numBuckets := int32 ((windowSizeMs + 1) % 4294967296 : Nat)
  if 0 ≤ numBuckets then
    some { numBuckets, buckets := List.replicate numBuckets.toNat 0, accumulatedCount := 0,
           oldestTime := 0, oldestIndex := 0 }
  else none

/-- mirrors rate_statistics.cc:29-36 -/
def reset (s : RateStatistics) : RateStatistics :=
  { s with accumulatedCount := 0, oldestTime := 0, oldestIndex := 0,
           buckets := List.replicate s.buckets.length 0 }

/-- mirrors rate_statistics.cc:72-77 -/
def dropOldest (s : RateStatistics) (countInOldestBucket : Nat) : RateStatistics :=
  { s with accumulatedCount := s.accumulatedCount - countInOldestBucket,
           buckets := s.buckets.set s.oldestIndex 0,
           oldestIndex := if s.numBuckets ≤ s.oldestIndex + 1 then 0 else s.oldestIndex + 1,
           oldestTime := s.oldestTime + 1 }

/-- One round: the oldest bucket leaves the sum.
mirrors rate_statistics.cc:70-77 -/
def eraseOldest (s : RateStatistics) : Option RateStatistics := do
  let countInOldestBucket ← s.buckets[s.oldestIndex]?
  if countInOldestBucket ≤ s.accumulatedCount then some (s.dropOldest countInOldestBucket)
  else none

/-- The state behind the loop and the number of its rounds, of which there are
no more than `fuel` times to pass.
mirrors rate_statistics.cc:69-83 -/
def eraseLoop (newOldestTime : Int) : Nat → RateStatistics → Option (RateStatistics × Nat)
  | 0, s => some (s, 0)
  | fuel + 1, s =>
    if s.oldestTime < newOldestTime then do
      let s ← eraseOldest s
      if s.accumulatedCount = 0 then return (s, 1)
      else
        let r ← eraseLoop newOldestTime fuel s
        return (r.1, r.2 + 1)
    else some (s, 0)

/-- mirrors rate_statistics.cc:63-85 -/
def eraseOld (s : RateStatistics) (nowMs : Int) : Option (RateStatistics × Nat) := do
  let before ← int64 (nowMs - s.numBuckets)
  let newOldestTime ← int64 (before + 1)
  if newOldestTime ≤ s.oldestTime then return (s, 0)
  else
    let r ← eraseLoop newOldestTime (newOldestTime - s.oldestTime).toNat s
    return ({ r.1 with oldestTime := newOldestTime }, r.2)

/-- `bucket` is what `buckets_[index]` holds.
mirrors rate_statistics.cc:54-55 -/
def addAt (s : RateStatistics) (index bucket count : Nat) : RateStatistics :=
  { s with buckets := s.buckets.set index ((bucket + count) % 18446744073709551616),
           accumulatedCount := (s.accumulatedCount + count) % 18446744073709551616 }

/-- mirrors rate_statistics.cc:38-56 -/
def update (s : RateStatistics) (count : Nat) (nowMs : Int) : Option (RateStatistics × Nat) :=
  if nowMs < s.oldestTime then some (s, 0)
  else do
    let r ← eraseOld s nowMs
    let s := r.1
    let nowOffset := int32 (nowMs - s.oldestTime)
    if nowOffset < s.numBuckets then
      let sum := s.oldestIndex + nowOffset
      if -2147483648 ≤ sum ∧ sum < 2147483648 then
        let index := if s.numBuckets ≤ sum then sum - s.numBuckets else sum
        if 0 ≤ index then
          let bucket ← s.buckets[index.toNat]?
          return (s.addAt index.toNat bucket count, r.2)
        else none
      else none
    else none

/-- mirrors rate_statistics.cc:58-59 -/
def rate (s : RateStatistics) (nowMs : Int) : Option (RateStatistics × Nat) := eraseOld s nowMs

inductive Call where
  | update (count : Nat) (nowMs : Int)
  | rate (nowMs : Int)
  | reset
  deriving DecidableEq, Repr

/-- The state and the rounds of its loop. -/
def call (s : RateStatistics) : Call → Option (RateStatistics × Nat)
  | .update count nowMs => s.update count nowMs
  | .rate nowMs => s.rate nowMs
  | .reset => some (s.reset, 0)

/-- A run, and the rounds of each of its calls. -/
def run : RateStatistics → List Call → Option (RateStatistics × List Nat)
  | s, [] => some (s, [])
  | s, c :: cs => do
    let r ← s.call c
    let t ← run r.1 cs
    return (t.1, r.2 :: t.2)

end RateStatistics

/-! ## What was passed -/

/-- The updates that were not too old, and the latest time. -/
structure History where
  accepted : List (Nat × Int) := []
  latest : Option Int := none
  deriving DecidableEq, Repr

namespace History

/-- The start of the window: `max(0, T - window)`. -/
def oldest (w : Nat) (h : History) : Int :=
  match h.latest with
  | none => 0
  | some t => max 0 (t - w)

def pass (h : History) (nowMs : Int) : History :=
  { h with latest := some (match h.latest with
      | none => nowMs
      | some t => max t nowMs) }

def accept (w : Nat) (h : History) (count : Nat) (nowMs : Int) : History :=
  if nowMs < h.oldest w then h else { h with accepted := (count, nowMs) :: h.accepted }

def call (w : Nat) (h : History) : RateStatistics.Call → History
  | .update count nowMs => (h.accept w count nowMs).pass nowMs
  | .rate nowMs => h.pass nowMs
  | .reset => {}

/-- What was counted at the time `t`. -/
def countAt (h : History) (t : Int) : Nat :=
  ((h.accepted.filter fun u => u.2 = t).map Prod.fst).sum

/-- What was counted from the time `t` on. -/
def countFrom (h : History) (t : Int) : Nat :=
  ((h.accepted.filter fun u => t ≤ u.2).map Prod.fst).sum

/-- What was counted in the window. -/
def inWindow (w : Nat) (h : History) : Nat := h.countFrom (h.oldest w)

variable {w : Nat} {h : History} {t t' now : Int} {count : Nat}

theorem oldest_nonneg (w : Nat) (h : History) : 0 ≤ h.oldest w := by
  unfold oldest
  split
  · exact Int.le_refl 0
  · exact Int.le_max_left _ _

theorem oldest_pass (w : Nat) (h : History) (now : Int) :
    (h.pass now).oldest w = max (h.oldest w) (now - w) := by
  obtain ⟨accepted, _ | t⟩ := h
  · rfl
  · show max 0 (max t now - w) = max (max 0 (t - w)) (now - w)
    omega

/-- What is counted at `t` comes first among what is counted from then on. -/
theorem countFrom_eq (h : History) (t : Int) :
    h.countFrom t = h.countAt t + h.countFrom (t + 1) := by
  obtain ⟨accepted, latest⟩ := h
  simp only [countFrom, countAt]
  induction accepted with
  | nil => rfl
  | cons u accepted ih =>
    simp only [List.filter_cons, decide_eq_true_eq]
    obtain hlt | heq | hgt := Int.lt_trichotomy u.2 t
    · rw [if_neg (by omega), if_neg (by omega), if_neg (by omega), ih]
    · rw [if_pos (by omega), if_pos heq, if_neg (by omega), List.map_cons, List.map_cons,
        List.sum_cons, List.sum_cons, ih, Nat.add_assoc]
    · rw [if_pos (by omega), if_neg (by omega), if_pos (by omega), List.map_cons, List.map_cons,
        List.sum_cons, List.sum_cons, ih, Nat.add_left_comm]

theorem countFrom_zero (hu : ∀ u ∈ h.accepted, u.2 < t) : h.countFrom t = 0 := by
  have hnone : (h.accepted.filter fun u => t ≤ u.2) = [] :=
    List.filter_eq_nil_iff.2 fun u hmem => by
      have := hu u hmem
      simpa using this
  rw [countFrom, hnone]
  rfl

theorem countAt_zero (hu : ∀ u ∈ h.accepted, u.2 < t) : h.countAt t = 0 := by
  have hsum := countFrom_eq h t
  rw [countFrom_zero hu] at hsum
  omega

theorem countFrom_anti (h : History) (n : Nat) : h.countFrom (t + n) ≤ h.countFrom t := by
  induction n with
  | zero => rw [Int.natCast_zero, Int.add_zero]
  | succ n ih =>
    have hsum := countFrom_eq h (t + n)
    rw [show t + ((n + 1 : Nat) : Int) = t + n + 1 by omega]
    omega

theorem countFrom_mono (ht : t ≤ t') : h.countFrom t' ≤ h.countFrom t := by
  have := countFrom_anti (t := t) h (t' - t).toNat
  rwa [show t + ((t' - t).toNat : Int) = t' by omega] at this

theorem countAt_le (ht : t ≤ t') : h.countAt t' ≤ h.countFrom t := by
  have hsum := countFrom_eq h t'
  have hle := countFrom_mono (h := h) ht
  omega

theorem countAt_cons (h : History) (count : Nat) (now t : Int) :
    countAt { h with accepted := (count, now) :: h.accepted } t =
      (if now = t then count else 0) + h.countAt t := by
  simp only [countAt, List.filter_cons, decide_eq_true_eq]
  split
  · rfl
  · exact (Nat.zero_add _).symm

theorem countFrom_cons (h : History) (count : Nat) (ht : t ≤ now) :
    countFrom { h with accepted := (count, now) :: h.accepted } t = count + h.countFrom t := by
  simp only [countFrom, List.filter_cons, decide_eq_true_eq, if_pos ht]
  rfl

/-- Nothing accepted is later than the latest time. -/
def Recent (h : History) : Prop := ∀ u ∈ h.accepted, ∃ t, h.latest = some t ∧ u.2 ≤ t

theorem Recent.le (hr : h.Recent) (w : Nat) : ∀ u ∈ h.accepted, u.2 ≤ h.oldest w + w := by
  intro u hu
  obtain ⟨t, hlatest, hle⟩ := hr u hu
  rw [oldest, hlatest]
  show u.2 ≤ max 0 (t - w) + w
  omega

theorem Recent.pass (hr : h.Recent) (now : Int) : (h.pass now).Recent := by
  intro u hu
  obtain ⟨t, hlatest, hle⟩ := hr u hu
  refine ⟨max t now, ?_, Int.le_trans hle (Int.le_max_left _ _)⟩
  rw [History.pass, hlatest]

theorem le_latest_pass (h : History) (now : Int) : ∃ t, (h.pass now).latest = some t ∧ now ≤ t := by
  obtain ⟨accepted, _ | t⟩ := h
  · exact ⟨now, rfl, Int.le_refl _⟩
  · exact ⟨max t now, rfl, Int.le_max_right _ _⟩

theorem Recent.accept_pass (hr : h.Recent) (w count : Nat) (now : Int) :
    ((h.accept w count now).pass now).Recent := by
  rw [accept]
  split
  · exact hr.pass now
  · rintro u (_ | ⟨_, hu⟩)
    · exact le_latest_pass { h with accepted := (count, now) :: h.accepted } now
    · exact hr.pass now u hu

end History

/-! ## Buckets and sum are those of the history -/

namespace RateStatistics
open History

variable {w count fuel m : Nat} {h : History} {o now newOldest : Int} {s s' : RateStatistics}

/-- From `o` on, the buckets hold what was counted at each time. -/
structure Tracks (w : Nat) (h : History) (o : Int) (s : RateStatistics) : Prop where
  num : s.numBuckets = w + 1
  length : s.buckets.length = w + 1
  index : s.oldestIndex < w + 1
  time : s.oldestTime = o
  bucket : ∀ j < w + 1, ringAt s.buckets s.oldestIndex j = some (h.countAt (o + j))
  sum : s.accumulatedCount = h.countFrom o

theorem eraseOldest_spec (ht : Tracks w h o s) (hu : ∀ u ∈ h.accepted, u.2 ≤ o + w) :
    ∃ s', eraseOldest s = some s' ∧ Tracks w h (o + 1) s' := by
  have hfirst := ht.bucket 0 (by omega)
  rw [ringAt_zero (by rw [ht.length]; exact ht.index), Int.natCast_zero, Int.add_zero] at hfirst
  have hsum := countFrom_eq h o
  have hle : h.countAt o ≤ s.accumulatedCount := by
    rw [ht.sum]
    omega
  have hnext : (if s.numBuckets ≤ s.oldestIndex + 1 then 0 else s.oldestIndex + 1) =
      (s.oldestIndex + 1) % s.buckets.length := by
    have := ht.index
    have hnum := ht.num
    rw [ht.length]
    split
    · rw [show s.oldestIndex + 1 = w + 1 by omega, Nat.mod_self]
    · rw [Nat.mod_eq_of_lt (by omega)]
  refine ⟨s.dropOldest (h.countAt o), ?_, ht.num, ?_, ?_, ?_, ?_, ?_⟩
  · rw [eraseOldest, hfirst, Option.bind_eq_bind, Option.bind_some, if_pos hle]
  · exact (List.length_set ..).trans ht.length
  · show (if s.numBuckets ≤ s.oldestIndex + 1 then 0 else s.oldestIndex + 1) < w + 1
    rw [hnext, ht.length]
    exact Nat.mod_lt _ (Nat.succ_pos w)
  · show s.oldestTime + 1 = o + 1
    rw [ht.time]
  · intro j hj
    have hpos : 0 < s.buckets.length := by
      rw [ht.length]
      omega
    have hplace : (s.oldestIndex + 0) % s.buckets.length = s.oldestIndex := by
      rw [Nat.add_zero, Nat.mod_eq_of_lt (by rw [ht.length]; exact ht.index)]
    show ringAt (s.buckets.set s.oldestIndex 0)
      (if s.numBuckets ≤ s.oldestIndex + 1 then 0 else s.oldestIndex + 1) j = _
    have hlen : s.buckets.length = (s.buckets.set s.oldestIndex 0).length :=
      (List.length_set ..).symm
    rw [hnext, hlen]
    by_cases hlast : j = w
    · -- the bucket that was freed: no time of it was passed yet
      have hfree := ringAt_set_self hpos 0 s.oldestIndex 0
      rw [hplace] at hfree
      have hj' : j = (s.buckets.set s.oldestIndex 0).length - 1 := by
        rw [← hlen, ht.length, hlast]
        rfl
      rw [hj', ringAt_last (by rwa [← hlen]), hfree, ← hj', countAt_zero]
      intro u hmem
      have := hu u hmem
      omega
    · have hkeep := ringAt_set_ne (b := s.buckets) (i := s.oldestIndex) (j := 0) (k := j + 1)
        hpos (by rw [ht.length]; omega) (by omega) 0
      rw [hplace] at hkeep
      rw [ringAt_succ, hkeep, ht.bucket _ (by omega)]
      rw [show o + ((j + 1 : Nat) : Int) = o + 1 + j by omega]
  · show s.accumulatedCount - h.countAt o = h.countFrom (o + 1)
    rw [ht.sum]
    omega

/-- Once the sum is zero, all buckets are, and the time can move on alone. -/
theorem Tracks.jump (ht : Tracks w h o s) (hzero : s.accumulatedCount = 0) (ho : o ≤ newOldest) :
    Tracks w h newOldest { s with oldestTime := newOldest } := by
  have hsum := ht.sum
  have hfrom := countFrom_mono (h := h) ho
  refine ⟨ht.num, ht.length, ht.index, rfl, fun j hj => ?_, ?_⟩
  · have hold := countAt_le (h := h) (show o ≤ o + j by omega)
    have hnew := countAt_le (h := h) (show o ≤ newOldest + j by omega)
    have hbucket := ht.bucket j hj
    rw [show h.countAt (o + j) = h.countAt (newOldest + j) by omega] at hbucket
    exact hbucket
  · show s.accumulatedCount = h.countFrom newOldest
    omega

theorem eraseLoop_spec (ht : Tracks w h o s) (hu : ∀ u ∈ h.accepted, u.2 ≤ o + w)
    (hm : ∀ u ∈ h.accepted, u.2 < o + m) (hm1 : 1 ≤ m) (ho : o ≤ newOldest)
    (hfuel : newOldest - o ≤ fuel) :
    ∃ s' n, eraseLoop newOldest fuel s = some (s', n) ∧ n ≤ m ∧
      Tracks w h newOldest { s' with oldestTime := newOldest } := by
  induction fuel generalizing o m s with
  | zero =>
    obtain rfl : o = newOldest := by omega
    refine ⟨s, 0, rfl, Nat.zero_le _, ?_⟩
    have htime := ht.time
    subst htime
    exact ht
  | succ fuel ih =>
    rw [eraseLoop]
    by_cases hlt : s.oldestTime < newOldest
    · obtain ⟨s₁, hs₁, ht₁⟩ := eraseOldest_spec ht hu
      have htime := ht.time
      rw [if_pos hlt, hs₁, Option.bind_eq_bind, Option.bind_some]
      by_cases hzero : s₁.accumulatedCount = 0
      · rw [if_pos hzero]
        exact ⟨s₁, 1, rfl, hm1, ht₁.jump hzero (by omega)⟩
      · -- something is left in the sum, so its time is still to come
        have hm2 : 2 ≤ m := by
          by_contra hm2
          refine hzero ?_
          rw [ht₁.sum, countFrom_zero]
          intro u hmem
          have := hm u hmem
          omega
        obtain ⟨s', n, hloop, hn, htrack⟩ := ih (m := m - 1) ht₁
          (fun u hmem => by have := hu u hmem; omega)
          (fun u hmem => by have := hm u hmem; omega) (by omega) (by omega) (by omega)
        rw [if_neg hzero, hloop]
        exact ⟨s', n + 1, rfl, by omega, htrack⟩
    · obtain rfl : o = newOldest := by
        have := ht.time
        omega
      rw [if_neg hlt]
      refine ⟨s, 0, rfl, Nat.zero_le _, ?_⟩
      have htime := ht.time
      subst htime
      exact ht

theorem eraseOld_spec (ht : Tracks w h o s) (hu : ∀ u ∈ h.accepted, u.2 ≤ o + w)
    (hlow : -9223372036854775808 + (w + 1) ≤ now) (hhigh : now < 9223372036854775808) :
    ∃ s' n, eraseOld s now = some (s', n) ∧ n ≤ w + 1 ∧ Tracks w h (max o (now - w)) s' := by
  have htime := ht.time
  have hnum := ht.num
  have hbefore : int64 (now - s.numBuckets) = some (now - (w + 1)) := by
    rw [hnum]
    exact int64_of_fits (by omega) (by omega)
  have hnew : int64 (now - (w + 1) + 1) = some (now - w) := by
    rw [int64_of_fits (by omega) (by omega)]
    exact congrArg some (by omega)
  simp only [eraseOld, hbefore, hnew, Option.bind_eq_bind, Option.bind_some]
  by_cases hle : now - w ≤ s.oldestTime
  · rw [if_pos hle, Int.max_eq_left (by omega)]
    exact ⟨s, 0, rfl, Nat.zero_le _, ht⟩
  · obtain ⟨s', n, hloop, hn, htrack⟩ := eraseLoop_spec (m := w + 1) ht hu
      (fun u hmem => by have := hu u hmem; omega) (by omega) (show o ≤ now - w by omega)
      (show now - w - o ≤ ((now - w - s.oldestTime).toNat : Int) by omega)
    rw [if_neg hle, hloop, Int.max_eq_right (by omega)]
    exact ⟨_, n, rfl, hn, htrack⟩

/-- State and history between calls. -/
structure Inv (w : Nat) (h : History) (s : RateStatistics) : Prop where
  tracks : Tracks w h (h.oldest w) s
  recent : h.Recent

theorem rate_spec (hi : Inv w h s) (hlow : -9223372036854775808 + (w + 1) ≤ now)
    (hhigh : now < 9223372036854775808) :
    ∃ s' n, s.rate now = some (s', n) ∧ n ≤ w + 1 ∧ Inv w (h.pass now) s' := by
  obtain ⟨s', n, hs', hn, ht⟩ := eraseOld_spec hi.tracks (hi.recent.le w) hlow hhigh
  refine ⟨s', n, hs', hn, ?_, hi.recent.pass now⟩
  rw [oldest_pass]
  exact ⟨ht.num, ht.length, ht.index, ht.time, ht.bucket, ht.sum⟩

/-- The count goes into the bucket of its time and into the sum. -/
theorem Tracks.add (ht : Tracks w h o s) {j : Nat} (hj : j < w + 1) (hnow : now = o + j)
    {latest : Option Int}
    (hfits : countFrom ⟨(count, now) :: h.accepted, latest⟩ o < 18446744073709551616) :
    ∃ bucket, s.buckets[(s.oldestIndex + j) % (w + 1)]? = some bucket ∧
      Tracks w ⟨(count, now) :: h.accepted, latest⟩ o
        (s.addAt ((s.oldestIndex + j) % (w + 1)) bucket count) := by
  have hcons : countFrom ⟨(count, now) :: h.accepted, latest⟩ o = count + h.countFrom o :=
    countFrom_cons h count (by omega)
  have hat := countAt_le (h := h) (show o ≤ o + j by omega)
  have hlen := ht.length
  have hbucket := ht.bucket j hj
  rw [ringAt, hlen] at hbucket
  rw [hcons] at hfits
  refine ⟨h.countAt (o + j), hbucket, ht.num, ?_, ht.index, ht.time, fun k hk => ?_, ?_⟩
  · exact (List.length_set ..).trans hlen
  · have hnew : countAt ⟨(count, now) :: h.accepted, latest⟩ (o + k) =
        (if now = o + k then count else 0) + h.countAt (o + k) := countAt_cons h count now _
    rw [hnew, addAt, ← hlen]
    by_cases hjk : j = k
    · subst hjk
      rw [ringAt_set_self (by omega), if_pos hnow, Nat.mod_eq_of_lt (by omega), Nat.add_comm]
    · rw [ringAt_set_ne (by omega) (by omega) hjk, ht.bucket k hk, if_neg (by omega),
        Nat.zero_add]
  · show (s.accumulatedCount + count) % 18446744073709551616 = _
    rw [hcons, ht.sum, Nat.mod_eq_of_lt (by omega), Nat.add_comm]

theorem update_spec (hw : w < 1073741824) (hi : Inv w h s) (hhigh : now < 9223372036854775808)
    (hfits : ((h.accept w count now).pass now).inWindow w < 18446744073709551616) :
    ∃ s' n, s.update count now = some (s', n) ∧ n ≤ w + 1 ∧
      Inv w ((h.accept w count now).pass now) s' := by
  have ht := hi.tracks
  have hrecent := hi.recent.accept_pass w count now
  have htime := ht.time
  by_cases hold : now < h.oldest w
  · have hsame : (h.accept w count now).pass now = h.pass now := by rw [accept, if_pos hold]
    refine ⟨s, 0, by rw [update, if_pos (by omega)], Nat.zero_le _, ?_, hrecent⟩
    rw [hsame, oldest_pass, Int.max_eq_left (by omega)]
    exact ⟨ht.num, ht.length, ht.index, ht.time, ht.bucket, ht.sum⟩
  have hnonneg := oldest_nonneg w h
  obtain ⟨s₁, n, hs₁, hn, ht₁⟩ := eraseOld_spec ht (hi.recent.le w)
    (show -9223372036854775808 + ((w : Int) + 1) ≤ now by omega) hhigh
  have hoff : now = max (h.oldest w) (now - w) +
      ((now - max (h.oldest w) (now - w)).toNat : Int) := by omega
  generalize hj : (now - max (h.oldest w) (now - w)).toNat = j at hoff
  have hjw : j < w + 1 := by omega
  have hgrown : (h.accept w count now).pass now =
      ⟨(count, now) :: h.accepted, (h.pass now).latest⟩ := by
    rw [accept, if_neg hold]
    rfl
  have holdest : ((h.accept w count now).pass now).oldest w = max (h.oldest w) (now - w) := by
    rw [oldest_pass, accept, if_neg hold]
    rfl
  rw [inWindow, holdest, hgrown] at hfits
  obtain ⟨bucket, hbucket, htrack⟩ := ht₁.add hjw hoff hfits
  have hindex := ht₁.index
  have hoffset : int32 (now - s₁.oldestTime) = j := by
    rw [ht₁.time, int32_of_fits (by omega) (by omega)]
    omega
  have hwrap : (if s₁.numBuckets ≤ s₁.oldestIndex + (j : Int) then
      s₁.oldestIndex + (j : Int) - s₁.numBuckets else s₁.oldestIndex + (j : Int)) =
      ((s₁.oldestIndex + j) % (w + 1) : Nat) := by
    rw [← wrapIndex_eq (by omega), wrapIndex, ht₁.num]
    split <;> split <;> omega
  refine ⟨s₁.addAt ((s₁.oldestIndex + j) % (w + 1)) bucket count, n, ?_, hn, ?_, hrecent⟩
  rotate_left
  · rw [holdest, hgrown]
    exact htrack
  · rw [update, if_neg (by omega), hs₁]
    simp only [Option.bind_eq_bind, Option.bind_some]
    rw [hoffset, if_pos (by rw [ht₁.num]; omega), if_pos (by omega), hwrap, if_pos (by omega),
      Int.toNat_natCast, hbucket]
    rfl

theorem countAt_empty (t : Int) : ({} : History).countAt t = 0 := rfl

/-- Zero everywhere is what the empty history counts. -/
theorem tracks_empty {s : RateStatistics} (hnum : s.numBuckets = w + 1)
    (hbuckets : s.buckets = List.replicate (w + 1) 0) (hsum : s.accumulatedCount = 0)
    (htime : s.oldestTime = 0) (hindex : s.oldestIndex = 0) : Inv w {} s := by
  refine ⟨⟨hnum, ?_, ?_, htime, fun j hj => ?_, hsum⟩, fun u hu => absurd hu List.not_mem_nil⟩
  · rw [hbuckets, List.length_replicate]
  · rw [hindex]
    omega
  · rw [hbuckets, hindex, ringAt, List.length_replicate, Nat.zero_add, Nat.mod_eq_of_lt hj,
      List.getElem?_replicate, if_pos hj, countAt_empty]

theorem create_spec (hw : w < 1073741824) : ∃ s, create w = some s ∧ Inv w {} s := by
  have hnum : int32 ((w + 1) % 4294967296 : Nat) = w + 1 := by
    rw [Nat.mod_eq_of_lt (by omega), int32_of_fits (by omega) (by omega)]
    rfl
  refine ⟨_, by rw [create, hnum, if_pos (by omega)], tracks_empty rfl ?_ rfl rfl rfl⟩
  show List.replicate (w + 1 : Int).toNat 0 = _
  rfl

theorem reset_spec (hi : Inv w h s) : Inv w {} s.reset :=
  tracks_empty hi.tracks.num (congrArg (List.replicate · 0) hi.tracks.length) rfl rfl rfl

/-! ## Whole runs -/

/-- The times that a call can be passed: those of an `int64_t`, from which
`Rate` can take the window. -/
def Call.Fits (w : Nat) : Call → Prop
  | .update _ now => now < 9223372036854775808
  | .rate now => -9223372036854775808 + (w + 1) ≤ now ∧ now < 9223372036854775808
  | .reset => True

instance (w : Nat) : ∀ c : Call, Decidable (c.Fits w)
  | .update _ now => inferInstanceAs (Decidable (now < 9223372036854775808))
  | .rate now => inferInstanceAs
      (Decidable (-9223372036854775808 + ((w : Int) + 1) ≤ now ∧ now < 9223372036854775808))
  | .reset => inferInstanceAs (Decidable True)

theorem call_spec (hw : w < 1073741824) (hi : Inv w h s) {c : Call} (hc : c.Fits w)
    (hfits : (h.call w c).inWindow w < 18446744073709551616) :
    ∃ s' n, s.call c = some (s', n) ∧ n ≤ w + 1 ∧ Inv w (h.call w c) s' := by
  cases c with
  | update count now => exact update_spec hw hi hc hfits
  | rate now => exact rate_spec hi hc.1 hc.2
  | reset => exact ⟨_, 0, rfl, Nat.zero_le _, reset_spec hi⟩

/-- What the calls passed, behind `h`. -/
def history (w : Nat) (h : History) (calls : List Call) : History := calls.foldl (History.call w) h

theorem run_spec (hw : w < 1073741824) (calls : List Call) :
    ∀ {h s}, Inv w h s → (∀ c ∈ calls, c.Fits w) →
      (∀ pre, pre <+: calls → (history w h pre).inWindow w < 18446744073709551616) →
      ∃ s' rounds, s.run calls = some (s', rounds) ∧ (∀ n ∈ rounds, n ≤ w + 1) ∧
        Inv w (history w h calls) s' := by
  induction calls with
  | nil => exact fun hi _ _ => ⟨_, [], rfl, fun n hn => absurd hn List.not_mem_nil, hi⟩
  | cons c cs ih =>
    intro h s hi hcalls hfits
    obtain ⟨s₁, n, hs₁, hn, hi₁⟩ := call_spec hw hi (hcalls c (List.mem_cons_self ..))
      (hfits [c] (List.cons_prefix_cons.2 ⟨rfl, List.nil_prefix⟩))
    obtain ⟨s', rounds, hrun, hrounds, hi'⟩ := ih hi₁ (fun d hd => hcalls d (.tail _ hd))
      fun pre hpre => hfits (c :: pre) (List.cons_prefix_cons.2 ⟨rfl, hpre⟩)
    refine ⟨s', n :: rounds, ?_, ?_, hi'⟩
    · rw [run, hs₁]
      simp only [Option.bind_eq_bind, Option.bind_some, hrun]
      rfl
    · rintro k (_ | ⟨_, hk⟩)
      · exact hn
      · exact hrounds k hk

theorem run_tracks {w : Nat} (hw : w < 1073741824) {calls : List Call}
    (hcalls : ∀ c ∈ calls, c.Fits w)
    (hfits : ∀ pre, pre <+: calls → (history w {} pre).inWindow w < 18446744073709551616) :
    ∃ s s' rounds, create w = some s ∧ s.run calls = some (s', rounds) ∧
      s'.accumulatedCount = (history w {} calls).inWindow w ∧
      (∀ n ∈ rounds, n ≤ w + 1) ∧
      ∀ count now, now < (history w {} calls).oldest w → s'.update count now = some (s', 0) := by
  obtain ⟨s, hs, hi⟩ := create_spec hw
  obtain ⟨s', rounds, hrun, hrounds, hi'⟩ := run_spec hw calls hi hcalls hfits
  refine ⟨s, s', rounds, hs, hrun, hi'.tracks.sum, hrounds, fun count now hold => ?_⟩
  rw [update, hi'.tracks.time, if_pos hold]

/-- Two packets, a third one that is too old, and a jump. -/
def someCalls : List Call :=
  [.update 1500 10, .update 700 12, .update 9 1, .rate 13, .rate 1000000000000, .update 3 5]

theorem run_tracks_someCalls :
    ∃ s s' rounds, create 5 = some s ∧ s.run someCalls = some (s', rounds) ∧
      s'.accumulatedCount = (history 5 {} someCalls).inWindow 5 ∧ (∀ n ∈ rounds, n ≤ 5 + 1) ∧
      ∀ count now, now < (history 5 {} someCalls).oldest 5 → s'.update count now = some (s', 0) := by
  refine run_tracks (by decide) ?_ ?_
  · decide
  · intro pre hpre
    have hall : ∀ pre ∈ someCalls.inits, (history 5 {} pre).inWindow 5 < 18446744073709551616 := by
      decide
    exact hall pre ((List.mem_inits _ _).2 hpre)

/-- Twice half of what a `size_t` holds: the sum is zero, and the next call
finds less in it than in the oldest bucket. -/
def halves : List Call := [.update 9223372036854775808 0, .update 9223372036854775808 1]

theorem run_halves_wraps :
    ((create 1).bind (·.run halves)).map (·.1.accumulatedCount) = some 0 ∧
      (history 1 {} halves).inWindow 1 = 18446744073709551616 ∧
      (create 1).bind (·.run (halves ++ [.rate 2])) = none := by
  decide

end RateStatistics

end RtcCore.L2
