import Mathlib.Logic.Function.Basic

/-!
# Rows of bits written from the left

A row of octets is written bit by bit: a bit enters an octet from the right,
and the octet moves left to make room for the next one unless it is the
octet's last. So an octet that is not full stands one place too far to the
right for each bit that is missing, but one (`Partial`), and a full one holds
its bits from the left (`Full`). `Row row n b` says that the first `n` columns
of `row` are written and are those of `b`.

Columns are added one by one (`Row.push`) or as a block of zeros
(`Row.zeros`); `Row.finish` moves the last octet to its place. Taking columns
off the left of a row is `Shifted`.
-/
namespace RtcCore.BitRow

/-- Bit `p` of an octet, from the right. -/
def bit (x : UInt8) (p : Nat) : Bool := x.toBitVec.getLsbD p

/-- Column `i` of a row, from the left. -/
def column (row : Nat → UInt8) (i : Nat) : Bool := bit (row (i / 8)) (7 - i % 8)

/-! ## Bits of an octet -/

@[simp] theorem bit_zero (p : Nat) : bit 0 p = false := by simp [bit]

@[simp] theorem bit_or (x y : UInt8) (p : Nat) : bit (x ||| y) p = (bit x p || bit y p) := by
  simp [bit]

theorem bit_shl (x : UInt8) {k p : Nat} (hk : k < 8) (hp : p < 8) :
    bit (x <<< UInt8.ofNat k) p = (decide (k ≤ p) && bit x (p - k)) := by
  have hm : k % 256 % 8 = k := by omega
  by_cases h : k ≤ p
  · have hnot : (!decide (p < k)) = true := by simp [h]
    simp [bit, hp, h, hm, hnot, BitVec.getLsbD_eq_getElem (show p - k < 8 by omega)]
  · simp [bit, hp, h, hm]

/-- The bit that leaves an octet on the left. -/
def msb (x : UInt8) : UInt8 := (x &&& 0x80) >>> 7

theorem bit_msb (x : UInt8) (p : Nat) : bit (msb x) p = (decide (p = 0) && bit x 7) := by
  cases p with
  | zero => simp [bit, msb]
  | succ p =>
    have hout : x.toBitVec.getLsbD (7 + (p + 1)) = false :=
      BitVec.getLsbD_of_ge _ _ (by omega)
    simp [bit, msb, hout]

/-! ## An octet while it is written -/

/-- The first `r` bits of an octet, not yet moved to its left end. -/
def Partial (x : UInt8) (r : Nat) (b : Nat → Bool) : Prop :=
  ∀ p < 8, bit x p = (decide (1 ≤ p ∧ p ≤ r) && b (r - p))

def Full (x : UInt8) (b : Nat → Bool) : Prop := ∀ p < 8, bit x p = b (7 - p)

variable {x y : UInt8} {r z : Nat} {b : Nat → Bool}

theorem Partial.zero (h : ∀ i < r, b i = false) : Partial 0 r b := by
  intro p hp
  rw [bit_zero]
  by_cases hr : 1 ≤ p ∧ p ≤ r
  · rw [h (r - p) (by omega), Bool.and_false]
  · rw [decide_eq_false hr, Bool.false_and]

theorem Full.zero (h : ∀ i < 8, b i = false) : Full 0 b := by
  intro p hp
  rw [bit_zero, h (7 - p) (by omega)]

/-- `r` bits and the next one, from the left end of `y`. -/
theorem Partial.push (h : Partial x r b) (hy : bit y 7 = b r) :
    Partial ((x ||| msb y) <<< 1) (r + 1) b := by
  intro p hp
  rw [show (1 : UInt8) = UInt8.ofNat 1 from rfl, bit_shl _ (by decide) hp, bit_or, bit_msb]
  cases p with
  | zero => simp
  | succ p =>
    rw [h (p + 1 - 1) (by omega), Nat.add_sub_cancel, hy]
    cases p with
    | zero => simp
    | succ p =>
      have : r + 1 - (p + 1 + 1) = r - (p + 1) := by omega
      simp [this]

theorem Partial.last (h : Partial x 7 b) (hy : bit y 7 = b 7) : Full (x ||| msb y) b := by
  intro p hp
  rw [bit_or, bit_msb, h p hp, hy]
  cases p with
  | zero => simp
  | succ p =>
    have : p + 1 ≤ 7 := by omega
    simp [this]

theorem Partial.shift (h : Partial x r b) (hr : r + z ≤ 7)
    (hz : ∀ i, r ≤ i → i < r + z → b i = false) : Partial (x <<< UInt8.ofNat z) (r + z) b := by
  intro p hp
  rw [bit_shl _ (by omega) hp]
  by_cases hzp : z < p
  · rw [h (p - z) (by omega), show r + z - p = r - (p - z) by omega,
      decide_eq_true (show z ≤ p by omega), Bool.true_and]
    congr 1
    exact decide_eq_decide.2 (by omega)
  · have hleft : (decide (z ≤ p) && bit x (p - z)) = false := by
      rw [h (p - z) (by omega), show p - z = 0 by omega]
      simp
    rw [hleft]
    by_cases h1 : 1 ≤ p
    · rw [hz (r + z - p) (by omega) (by omega), Bool.and_false]
    · rw [decide_eq_false (by omega), Bool.false_and]

/-- The rest of the octet is zero: it moves to its left end. -/
theorem Partial.fill (h : Partial x r b) (hr : r ≤ 7) (hz : ∀ i, r ≤ i → i < 8 → b i = false) :
    Full (x <<< UInt8.ofNat (7 - r)) b := by
  intro p hp
  rw [bit_shl _ (by omega) hp]
  by_cases hlt : 7 - r < p
  · rw [h (p - (7 - r)) (by omega), decide_eq_true (show 7 - r ≤ p by omega),
      decide_eq_true (show 1 ≤ p - (7 - r) ∧ p - (7 - r) ≤ r by omega), Bool.true_and,
      Bool.true_and, show r - (p - (7 - r)) = 7 - p by omega]
  · rw [hz (7 - p) (by omega) (by omega)]
    by_cases he : 7 - r = p
    · rw [h (p - (7 - r)) (by omega), decide_eq_false (show ¬ (1 ≤ p - (7 - r) ∧ _) by omega)]
      simp
    · rw [decide_eq_false (by omega), Bool.false_and]

/-! ## Rows -/

/-- The first `n` columns of the row are written; they are those of `b`. -/
structure Row (row : Nat → UInt8) (n : Nat) (b : Nat → Bool) : Prop where
  full : ∀ j, 8 * j + 8 ≤ n → Full (row j) fun i => b (8 * j + i)
  current : Partial (row (n / 8)) (n % 8) fun i => b (8 * (n / 8) + i)
  empty : ∀ j, n / 8 < j → row j = 0

namespace Row

variable {row : Nat → UInt8} {n z : Nat} {b : Nat → Bool}

theorem nil (b : Nat → Bool) : Row (fun _ => 0) 0 b where
  full j hj := absurd hj (by omega)
  current := Partial.zero fun i hi => absurd hi (by omega)
  empty _ _ := rfl

theorem push {y : UInt8} (h : Row row n b) (hy : bit y 7 = b n) :
    Row (Function.update row (n / 8)
      (if n % 8 ≠ 7 then (row (n / 8) ||| msb y) <<< 1 else row (n / 8) ||| msb y)) (n + 1) b := by
  have hb : b (8 * (n / 8) + n % 8) = b n := congrArg b (Nat.div_add_mod n 8)
  by_cases hr : n % 8 = 7
  · rw [if_neg (not_not.2 hr)]
    have hfull : Full (row (n / 8) ||| msb y) fun i => b (8 * (n / 8) + i) :=
      (hr ▸ h.current).last (by rw [hy, ← hb, hr])
    have hnext : (n + 1) / 8 = n / 8 + 1 := by omega
    refine ⟨fun j hj => ?_, ?_, fun j hj => ?_⟩
    · by_cases he : j = n / 8
      · subst he
        rwa [Function.update_self]
      · rw [Function.update_of_ne he]
        exact h.full j (by omega)
    · rw [hnext, Function.update_of_ne (by omega), h.empty _ (Nat.lt_succ_self _)]
      exact Partial.zero fun i hi => absurd hi (by omega)
    · rw [Function.update_of_ne (by omega)]
      exact h.empty j (by omega)
  · rw [if_pos hr]
    have hcur : Partial ((row (n / 8) ||| msb y) <<< 1) (n % 8 + 1) fun i => b (8 * (n / 8) + i) :=
      h.current.push (by rw [hy, ← hb])
    have hsame : (n + 1) / 8 = n / 8 := by omega
    refine ⟨fun j hj => ?_, ?_, fun j hj => ?_⟩
    · rw [Function.update_of_ne (by omega)]
      exact h.full j (by omega)
    · rw [hsame, Function.update_self, show (n + 1) % 8 = n % 8 + 1 by omega]
      exact hcur
    · rw [Function.update_of_ne (by omega)]
      exact h.empty j (by omega)

theorem zeros (h : Row row n b) (hz : ∀ i, n ≤ i → i < n + z → b i = false) :
    Row (Function.update row (n / 8) (row (n / 8) <<< UInt8.ofNat (min z (7 - n % 8))))
      (n + z) b := by
  have hsplit := Nat.div_add_mod n 8
  have hlt := Nat.mod_lt n (show 8 > 0 by decide)
  by_cases hin : n % 8 + z ≤ 7
  · rw [Nat.min_eq_left (by omega)]
    have hcur := h.current.shift hin fun i h1 h2 => hz (8 * (n / 8) + i) (by omega) (by omega)
    have hsame : (n + z) / 8 = n / 8 := by omega
    refine ⟨fun j hj => ?_, ?_, fun j hj => ?_⟩
    · rw [Function.update_of_ne (by omega)]
      exact h.full j (by omega)
    · rw [hsame, Function.update_self, show (n + z) % 8 = n % 8 + z by omega]
      exact hcur
    · rw [Function.update_of_ne (by omega)]
      exact h.empty j (by omega)
  · rw [Nat.min_eq_right (by omega)]
    have hfull := h.current.fill (by omega) fun i h1 h2 =>
      hz (8 * (n / 8) + i) (by omega) (by omega)
    refine ⟨fun j hj => ?_, ?_, fun j hj => ?_⟩
    · rcases Nat.lt_trichotomy j (n / 8) with hj' | rfl | hj'
      · rw [Function.update_of_ne (by omega)]
        exact h.full j (by omega)
      · rwa [Function.update_self]
      · rw [Function.update_of_ne (by omega), h.empty j hj']
        exact Full.zero fun i hi => hz _ (by omega) (by omega)
    · rw [Function.update_of_ne (by omega), h.empty _ (by omega)]
      exact Partial.zero fun i hi => hz _ (by omega) (by omega)
    · rw [Function.update_of_ne (by omega)]
      exact h.empty j (by omega)

/-- Once the last octet has moved to its place the columns can be read: those
of `b`, if `b` is zero behind the written ones. -/
theorem finish {w : Nat} (h : Row row n b)
    (hz : ∀ i, n ≤ i → i < 8 * w → b i = false) {i : Nat} (hi : i < 8 * w) :
    column (if n % 8 ≠ 0 then
      Function.update row (n / 8) (row (n / 8) <<< UInt8.ofNat (7 - n % 8)) else row) i = b i := by
  have hplace : 8 * (i / 8) + (7 - (7 - i % 8)) = i := by omega
  have hread : ∀ {x : UInt8}, Full x (fun k => b (8 * (i / 8) + k)) → bit x (7 - i % 8) = b i := by
    intro x hx
    rw [hx _ (by omega)]
    exact congrArg b hplace
  have hother : ∀ {x : UInt8}, n % 8 ≠ 0 → i / 8 ≠ n / 8 →
      column (Function.update row (n / 8) x) i = column row i := by
    intro x _ hne
    rw [column, Function.update_of_ne hne, column]
  have hlater : n / 8 < i / 8 → column row i = b i := by
    intro hlt
    rw [column, h.empty _ hlt, bit_zero, hz i (by omega) hi]
  have hearlier : i / 8 < n / 8 → column row i = b i := fun hlt =>
    hread (h.full _ (by omega))
  by_cases hr : n % 8 = 0
  · rw [if_neg (not_not.2 hr)]
    rcases Nat.lt_trichotomy (i / 8) (n / 8) with hlt | heq | hgt
    · exact hearlier hlt
    · have hcur := h.current (7 - i % 8) (by omega)
      rw [column, heq, hcur, hz i (by omega) hi, hr, decide_eq_false (by omega), Bool.false_and]
    · exact hlater hgt
  · rw [if_pos hr]
    rcases Nat.lt_trichotomy (i / 8) (n / 8) with hlt | heq | hgt
    · rw [hother hr (by omega)]
      exact hearlier hlt
    · rw [column, heq, Function.update_self]
      refine hread ?_
      rw [heq]
      exact h.current.fill (by omega) fun k h1 h2 => hz _ (by omega) (by omega)
    · rw [hother hr (by omega)]
      exact hlater hgt

end Row

/-! ## Columns taken off a row -/

/-- `cur` is `old` after its first `k` columns have left it. -/
structure Shifted (old cur : Nat → UInt8) (k : Nat) : Prop where
  current : ∀ p < 8, bit (cur (k / 8)) p =
    (decide (k % 8 ≤ p) && bit (old (k / 8)) (p - k % 8))
  rest : ∀ j, k / 8 < j → cur j = old j

namespace Shifted

variable {old cur : Nat → UInt8} {k : Nat}

theorem refl (old : Nat → UInt8) : Shifted old old 0 where
  current p _ := by simp
  rest _ _ := rfl

/-- The next column to leave. -/
theorem column_eq (h : Shifted old cur k) : bit (cur (k / 8)) 7 = column old k := by
  rw [h.current 7 (by decide), decide_eq_true (by omega), Bool.true_and, column]

theorem next (h : Shifted old cur k) :
    Shifted old (Function.update cur (k / 8) (cur (k / 8) <<< 1)) (k + 1) := by
  by_cases hr : k % 8 = 7
  · have hnext : (k + 1) / 8 = k / 8 + 1 := by omega
    refine ⟨fun p _ => ?_, fun j hj => ?_⟩
    · rw [hnext, Function.update_of_ne (by omega), h.rest _ (Nat.lt_succ_self _),
        show (k + 1) % 8 = 0 by omega]
      simp
    · rw [Function.update_of_ne (by omega)]
      exact h.rest j (by omega)
  · have hsame : (k + 1) / 8 = k / 8 := by omega
    refine ⟨fun p hp => ?_, fun j hj => ?_⟩
    · rw [hsame, Function.update_self, show (1 : UInt8) = UInt8.ofNat 1 from rfl,
        bit_shl _ (by decide) hp, show (k + 1) % 8 = k % 8 + 1 by omega]
      cases p with
      | zero => simp
      | succ p =>
        rw [h.current _ (by omega), Nat.add_sub_cancel, Nat.add_sub_add_right]
        simp
    · rw [Function.update_of_ne (by omega)]
      exact h.rest j (by omega)

end Shifted

end RtcCore.BitRow
