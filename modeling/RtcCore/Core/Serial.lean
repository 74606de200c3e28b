/-!
# Wrapping sequence numbers and timestamps

`IsNewerSequenceNumber` and `IsNewerTimestamp` compare on a circle. Where a
stream stays inside half the circle they are the order of the unwrapped
numbers: `newer_ofNat` and its 32-bit twin state this for `UInt16.ofNat x`,
`x` being the unwrapped number, so that later modules reason about naturals
only.
-/
namespace RtcCore.Serial

/-- mirrors webrtc/modules/interface/module_common_types.h:662-666 -/
def isNewerSequenceNumber (seq prev : UInt16) : Bool :=
  seq != prev && decide ((seq - prev).toNat < 0x8000)

/-- mirrors webrtc/modules/interface/module_common_types.h:668-671 -/
def isNewerTimestamp (ts prev : UInt32) : Bool :=
  ts != prev && decide ((ts - prev).toNat < 0x80000000)

/-- mirrors webrtc/modules/interface/module_common_types.h:673-678 -/
def latestSequenceNumber (s₁ s₂ : UInt16) : UInt16 :=
  if isNewerSequenceNumber s₁ s₂ then s₁ else s₂

/-- mirrors webrtc/modules/interface/module_common_types.h:680-682 -/
def latestTimestamp (t₁ t₂ : UInt32) : UInt32 := if isNewerTimestamp t₁ t₂ then t₁ else t₂

/-! ## On the circle -/

theorem newer_irrefl (s : UInt16) : isNewerSequenceNumber s s = false := by
  simp [isNewerSequenceNumber]

theorem newer_asymm {a b : UInt16} (h : isNewerSequenceNumber a b = true) :
    isNewerSequenceNumber b a = false := by
  have ha := a.toNat_lt
  have hb := b.toNat_lt
  simp only [isNewerSequenceNumber, bne_iff_ne, ne_eq, Bool.and_eq_true, decide_eq_true_eq,
    UInt16.toNat_sub, ← UInt16.toNat_inj] at h
  simp only [isNewerSequenceNumber, Bool.and_eq_false_iff, bne_eq_false_iff_eq,
    decide_eq_false_iff_not, UInt16.toNat_sub, ← UInt16.toNat_inj]
  omega

/-- How far a newer timestamp is ahead. -/
theorem newer_toNat {a b : UInt32} (h : isNewerTimestamp a b = true) :
    1 ≤ (a - b).toNat ∧ (a - b).toNat < 2147483648 := by
  have ha := a.toNat_lt
  have hb := b.toNat_lt
  simp only [isNewerTimestamp, bne_iff_ne, ne_eq, Bool.and_eq_true, decide_eq_true_eq,
    ← UInt32.toNat_inj, UInt32.toNat_sub] at h ⊢
  omega

/-- What a timestamp ahead of `c` is not newer than is ahead of `c` too. -/
theorem ahead_of_not_newer {a b c : UInt32} (h : ¬isNewerTimestamp b a = true)
    (hb : 1 ≤ (b - c).toNat ∧ (b - c).toNat < 2147483648) : 1 ≤ (a - c).toNat := by
  have := a.toNat_lt
  have := b.toNat_lt
  have := c.toNat_lt
  simp only [isNewerTimestamp, bne_iff_ne, ne_eq, Bool.and_eq_true, decide_eq_true_eq,
    ← UInt32.toNat_inj, UInt32.toNat_sub] at *
  omega

theorem timestamp_telescope (a b c : UInt32) : b - a + (c - b) = c - a := by
  rw [← UInt32.toNat_inj]
  have := a.toNat_lt
  have := b.toNat_lt
  have := c.toNat_lt
  simp only [UInt32.toNat_add, UInt32.toNat_sub]
  omega

/-! ## Unwrapped -/

/-- Unwrapped numbers less than half the circle apart. -/
def Near16 (x y : Nat) : Prop := x < y + 0x8000 ∧ y < x + 0x8000

theorem newer_ofNat {x y : Nat} (h : Near16 x y) :
    isNewerSequenceNumber (.ofNat x) (.ofNat y) = decide (y < x) := by
  obtain ⟨h1, h2⟩ := h
  rw [Bool.eq_iff_iff]
  simp only [isNewerSequenceNumber, bne_iff_ne, ne_eq, Bool.and_eq_true, decide_eq_true_eq,
    UInt16.toNat_sub, ← UInt16.toNat_inj, UInt16.toNat_ofNat']
  omega

/-! ## Relative to a base -/

/-- How far a number is past `base`. -/
def dist (base seq : UInt16) : Nat := (seq - base).toNat

theorem dist_add {i : Nat} (base : UInt16) (h : i < 65536) : dist base (base + .ofNat i) = i := by
  have hb := base.toNat_lt
  simp only [dist, UInt16.toNat_sub, UInt16.toNat_add, UInt16.toNat_ofNat']
  omega

theorem dist_self (base : UInt16) : dist base base = 0 := by simp [dist]

theorem dist_succ {base a : UInt16} (h : dist base a < 0x8000) :
    dist base (a + 1) = dist base a + 1 := by
  have h1 := a.toNat_lt
  have h2 := base.toNat_lt
  simp only [dist, UInt16.toNat_sub, UInt16.toNat_add, UInt16.reduceToNat] at h ⊢
  omega

theorem dist_inj (base : UInt16) {a b : UInt16} : dist base a = dist base b ↔ a = b := by
  constructor
  · intro h
    have := UInt16.toNat_inj.1 h
    simpa using this
  · rintro rfl; rfl

theorem newer_dist (base : UInt16) {a b : UInt16} (ha : dist base a < 0x8000) (hb : dist base b < 0x8000) :
    isNewerSequenceNumber a b = decide (dist base b < dist base a) := by
  have h1 := a.toNat_lt
  have h2 := b.toNat_lt
  have h3 := base.toNat_lt
  rw [Bool.eq_iff_iff]
  simp only [dist, UInt16.toNat_sub] at ha hb
  simp only [isNewerSequenceNumber, bne_iff_ne, ne_eq, Bool.and_eq_true, decide_eq_true_eq, dist,
    UInt16.toNat_sub, ← UInt16.toNat_inj]
  omega

theorem latest_dist {base a b : UInt16} (ha : dist base a < 0x8000) (hb : dist base b < 0x8000) :
    latestSequenceNumber a b = a ↔ dist base b ≤ dist base a := by
  rw [latestSequenceNumber, newer_dist base ha hb]
  by_cases h : dist base b < dist base a
  · simp [h, Nat.le_of_lt h]
  · rw [decide_eq_false h, if_neg Bool.false_ne_true]
    constructor
    · rintro rfl; exact Nat.le_refl _
    · intro hle
      exact (dist_inj base).1 (Nat.le_antisymm hle (Nat.le_of_not_lt h))

end RtcCore.Serial
