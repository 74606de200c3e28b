import Mathlib.Algebra.Order.Ring.Nat
import Mathlib.Algebra.BigOperators.Group.List.Basic

/-!
# Rounded weighted means

The mean of natural numbers under natural weights, rounded to the nearest
number. `rounded_between`: where any weight is positive it is no less than the
smallest of the numbers and no more than the greatest.
-/
namespace RtcCore.WeightedMean

/-- Of pairs of a weight and a value. -/
def weight (l : List (Nat × Nat)) : Nat := (l.map Prod.fst).sum

def moment (l : List (Nat × Nat)) : Nat := (l.map fun p => p.1 * p.2).sum

def rounded (l : List (Nat × Nat)) : Nat := (moment l + weight l / 2) / weight l

variable {l : List (Nat × Nat)} {m : Nat}

@[simp] theorem weight_nil : weight [] = 0 := rfl

@[simp] theorem moment_nil : moment [] = 0 := rfl

@[simp] theorem weight_cons (p : Nat × Nat) (l : List (Nat × Nat)) :
    weight (p :: l) = p.1 + weight l := by simp [weight]

@[simp] theorem moment_cons (p : Nat × Nat) (l : List (Nat × Nat)) :
    moment (p :: l) = p.1 * p.2 + moment l := by simp [moment]

theorem le_moment (h : ∀ p ∈ l, m ≤ p.2) : m * weight l ≤ moment l := by
  induction l with
  | nil => simp
  | cons p l ih =>
    have hp := Nat.mul_le_mul_left p.1 (h p (List.mem_cons_self ..))
    have hl := ih fun q hq => h q (.tail _ hq)
    rw [weight_cons, moment_cons, Nat.mul_add, Nat.mul_comm m]
    omega

theorem moment_lt (h : ∀ p ∈ l, p.2 < m) : moment l + weight l ≤ m * weight l := by
  induction l with
  | nil => simp
  | cons p l ih =>
    have hp := Nat.mul_le_mul_left p.1 (h p (List.mem_cons_self ..))
    have hl := ih fun q hq => h q (.tail _ hq)
    rw [Nat.mul_succ] at hp
    rw [weight_cons, moment_cons, Nat.mul_add, Nat.mul_comm m]
    omega

theorem rounded_between (hpos : 0 < weight l) :
    (∃ p ∈ l, p.2 ≤ rounded l) ∧ ∃ p ∈ l, rounded l ≤ p.2 := by
  constructor
  · by_contra hno
    have hall : ∀ p ∈ l, rounded l + 1 ≤ p.2 := fun p hp =>
      Nat.lt_of_not_le fun hle => hno ⟨p, hp, hle⟩
    have hle := le_moment hall
    have hdiv := Nat.lt_mul_div_succ (moment l + weight l / 2) hpos
    rw [Nat.mul_comm] at hdiv
    exact absurd (Nat.lt_of_lt_of_le hdiv hle) (by omega)
  · by_contra hno
    have hall : ∀ p ∈ l, p.2 < rounded l := fun p hp =>
      Nat.lt_of_not_le fun hle => hno ⟨p, hp, hle⟩
    have hlt := moment_lt hall
    have hdiv := Nat.div_mul_le_self (moment l + weight l / 2) (weight l)
    rw [rounded] at hlt
    omega

end RtcCore.WeightedMean
