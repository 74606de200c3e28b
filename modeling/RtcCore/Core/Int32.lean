import Mathlib.Data.Int.Init

/-!
# Values of an `int`

`int32` is the value a 32-bit `int` holds after a computation in integers;
where the result fits, it is the result. `int64` is a signed 64-bit result,
which has no value where it does not fit. `sizeT` is the value of a `size_t`.
-/
namespace RtcCore

def int32 (n : Int) : Int := n.bmod 4294967296

theorem int32_of_fits {n : Int} (h1 : -2147483648 ≤ n) (h2 : n < 2147483648) : int32 n = n := by
  unfold int32
  rw [Int.bmod_def]
  split <;> omega

theorem int32_range (n : Int) : -2147483648 ≤ int32 n ∧ int32 n < 2147483648 := by
  unfold int32
  rw [Int.bmod_def]
  split <;> omega

/-- Of a natural number, wrapping only loses. -/
theorem int32_le {n : Int} (h : 0 ≤ n) : int32 n ≤ n := by
  unfold int32
  rw [Int.bmod_def]
  split <;> omega

def int64 (n : Int) : Option Int :=
  if -9223372036854775808 ≤ n ∧ n < 9223372036854775808 then some n else none

theorem int64_of_fits {n : Int} (h1 : -9223372036854775808 ≤ n) (h2 : n < 9223372036854775808) :
    int64 n = some n := if_pos ⟨h1, h2⟩

def sizeT (n : Int) : Nat := (n % 18446744073709551616).toNat

theorem sizeT_eq {n : Int} {m : Nat} (h : n = m) (hm : m < 18446744073709551616) : sizeT n = m := by
  unfold sizeT
  omega

end RtcCore
