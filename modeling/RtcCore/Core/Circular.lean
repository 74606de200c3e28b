import Mathlib.Data.Nat.ModEq
import Mathlib.Data.List.Basic

/-!
# A list read around a circle

`ringAt b i j` is the element `j` places behind the start `i`, of a list whose
end continues at its front.

Results:
* `wrapIndex_eq`: the one subtraction a program makes is the remainder.
* `ringAt_succ`, `ringAt_last`: the start moved on by one place.
* `ringAt_set_self`, `ringAt_set_ne`: a write at one place is seen there only.
-/
namespace RtcCore.Circular

variable {α : Type} {b : List α} {i j k : Nat}

def ringAt (b : List α) (i j : Nat) : Option α := b[(i + j) % b.length]?

/-- `if (i >= n) i -= n`. -/
def wrapIndex (n i : Nat) : Nat := if n ≤ i then i - n else i

theorem wrapIndex_eq {n : Nat} (h : i < 2 * n) : wrapIndex n i = i % n := by
  unfold wrapIndex
  split
  · rename_i hle
    rw [Nat.mod_eq_sub_mod hle, Nat.mod_eq_of_lt (by omega)]
  · exact (Nat.mod_eq_of_lt (by omega)).symm

theorem ringAt_zero (h : i < b.length) : ringAt b i 0 = b[i]? := by
  rw [ringAt, Nat.add_zero, Nat.mod_eq_of_lt h]

theorem ringAt_succ (b : List α) (i j : Nat) :
    ringAt b ((i + 1) % b.length) j = ringAt b i (j + 1) := by
  rw [ringAt, ringAt, Nat.mod_add_mod, Nat.add_assoc, Nat.add_comm 1 j]

/-- The last place of the circle is the old start. -/
theorem ringAt_last (hb : 0 < b.length) (i : Nat) :
    ringAt b ((i + 1) % b.length) (b.length - 1) = ringAt b i 0 := by
  rw [ringAt_succ, Nat.sub_add_cancel hb, ringAt, ringAt, Nat.add_mod_right, Nat.add_zero]

theorem place_inj {n : Nat} (hj : j < n) (hk : k < n) (h : (i + j) % n = (i + k) % n) : j = k := by
  have hmod := Nat.ModEq.add_left_cancel' i (show i + j ≡ i + k [MOD n] from h)
  rwa [Nat.ModEq, Nat.mod_eq_of_lt hj, Nat.mod_eq_of_lt hk] at hmod

theorem ringAt_set_self (hb : 0 < b.length) (a : α) (i j : Nat) :
    ringAt (b.set ((i + j) % b.length) a) i j = some a := by
  rw [ringAt, List.length_set, List.getElem?_set_self (Nat.mod_lt _ hb)]

theorem ringAt_set_ne (hj : j < b.length) (hk : k < b.length) (h : j ≠ k) (a : α) :
    ringAt (b.set ((i + j) % b.length) a) i k = ringAt b i k := by
  rw [ringAt, ringAt, List.length_set,
    List.getElem?_set_ne fun he => h (place_inj hj hk he)]

end RtcCore.Circular
