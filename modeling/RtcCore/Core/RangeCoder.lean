import Mathlib.Algebra.Order.Ring.Nat

/-!
# Interval coding

An interval coder keeps an interval of codes. A symbol narrows it to the part
the symbol owns; when the interval has become small, one more digit of the code
is fixed and everything is scaled by the base. A code of the last interval
is, cut to the digits known at any earlier time, a code of the interval of that
time: `has_of_narrow` and `has_of_widen` go back one step each, and `has_close`
is where such a code comes from. `slot_lt_iff` says that a threshold is
below the code exactly when it is at or before the symbol's own.
-/
namespace RtcCore.RangeCoder

/-! ## Digit strings -/

/-- The value of the first `m` digits of `f` in base `b`, the most significant first. -/
def value (b : Nat) (f : Nat → Nat) : Nat → Nat
  | 0 => 0
  | m + 1 => value b f m * b + f m

theorem value_congr {b : Nat} {f g : Nat → Nat} {m : Nat} (h : ∀ j < m, f j = g j) :
    value b f m = value b g m := by
  induction m with
  | zero => rfl
  | succ m ih =>
    simp only [value]
    rw [ih fun j hj => h j (Nat.lt_succ_of_lt hj), h m (Nat.lt_succ_self m)]

/-! ## Intervals -/

/-- The codes from `low` to `low + width`. -/
structure Interval where
  low : Nat
  width : Nat

namespace Interval

def Has (I : Interval) (x : Nat) : Prop := I.low ≤ x ∧ x ≤ I.low + I.width

/-- The codes at a distance from `low` above `lo` and at most `hi`. -/
def narrow (I : Interval) (lo hi : Nat) : Interval := ⟨I.low + (lo + 1), hi - (lo + 1)⟩

def widen (I : Interval) (b : Nat) : Interval := ⟨I.low * b, I.width * b⟩

variable {I : Interval} {x lo hi b : Nat}

theorem has_of_narrow (hlt : lo < hi) (hw : hi ≤ I.width) (h : (I.narrow lo hi).Has x) :
    I.Has x ∧ lo < x - I.low ∧ x - I.low ≤ hi := by
  obtain ⟨h1, h2⟩ := h
  simp only [narrow] at h1 h2
  refine ⟨⟨?_, ?_⟩, ?_, ?_⟩ <;> omega

theorem has_of_widen {d : Nat} (hd : d < b) (h : (I.widen b).Has (x * b + d)) : I.Has x := by
  obtain ⟨h1, h2⟩ := h
  simp only [widen] at h1 h2
  refine ⟨Nat.not_lt.1 fun hlt => ?_, Nat.not_lt.1 fun hlt => ?_⟩
  · have hle : (x + 1) * b ≤ I.low * b := Nat.mul_le_mul_right b hlt
    rw [Nat.add_mul, Nat.one_mul] at hle
    omega
  · have hle : (I.low + I.width + 1) * b ≤ x * b := Nat.mul_le_mul_right b hlt
    simp only [Nat.add_mul, Nat.one_mul] at hle
    omega

/-- A code is closed by fixing its digits down to `unit`: whatever comes behind, the code is in
the interval. -/
theorem has_close {unit r : Nat} (hw : 2 * unit ≤ I.width + 1) (hr : r < unit) :
    I.Has ((I.low + unit) / unit * unit + r) := by
  have hdiv := Nat.div_add_mod (I.low + unit) unit
  have hmod := Nat.mod_lt (I.low + unit) (Nat.lt_of_le_of_lt (Nat.zero_le r) hr)
  rw [Nat.mul_comm] at hdiv
  refine ⟨?_, ?_⟩ <;> omega

theorem narrow_top (hlt : lo < hi) : (I.narrow lo hi).low + (I.narrow lo hi).width = I.low + hi := by
  simp only [narrow]
  omega

theorem widen_top_lt {n : Nat} (hb : 0 < b) (h : I.low + I.width < n) :
    (I.widen b).low + (I.widen b).width < n * b := by
  simp only [widen]
  rw [← Nat.add_mul]
  exact Nat.mul_lt_mul_of_pos_right h hb

end Interval

/-! ## Thresholds -/

/-- `v` is in the part of symbol `s`. -/
def Slot (f : Nat → Nat) (s v : Nat) : Prop := f s < v ∧ v ≤ f (s + 1)

/-- What is between the ends is in some part: the last one that begins below. -/
theorem exists_slot {f : Nat → Nat} {n v : Nat} (hfirst : f 0 < v) (hlast : v ≤ f n) :
    ∃ s < n, Slot f s v := by
  induction n with
  | zero => omega
  | succ n ih =>
    by_cases hv : v ≤ f n
    · obtain ⟨s, hs, hslot⟩ := ih hv
      exact ⟨s, Nat.lt_succ_of_lt hs, hslot⟩
    · exact ⟨n, Nat.lt_succ_self n, Nat.lt_of_not_le hv, hlast⟩

theorem slot_lt_iff {f : Nat → Nat} {n s v : Nat} (hmono : ∀ i j, i ≤ j → j < n → f i ≤ f j)
    (hs : s + 1 < n) (h : Slot f s v) {i : Nat} (hi : i < n) : f i < v ↔ i ≤ s := by
  refine ⟨fun hlt => Nat.not_lt.1 fun hsi => ?_, fun his => ?_⟩
  · have := hmono (s + 1) i hsi hi
    have := h.2
    omega
  · have := hmono i s his (by omega)
    have := h.1
    omega

end RtcCore.RangeCoder
