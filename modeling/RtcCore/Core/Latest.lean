import Mathlib.Order.Defs.LinearOrder

/-!
# What was written last

A cell that is written at some of the times `0, 1, …` holds what the latest write before
now left. Who misses some of the writes finds the same there as long as he did not miss
that one.
-/
namespace RtcCore

variable {p q : Nat → Prop} [DecidablePred p] [DecidablePred q] {n m : Nat}

/-- The latest time before `n` with `p`. -/
def latest (p : Nat → Prop) [DecidablePred p] : Nat → Option Nat
  | 0 => none
  | n + 1 => if p n then some n else latest p n

theorem latest_eq_some : latest p n = some m ↔ m < n ∧ p m ∧ ∀ k, m < k → k < n → ¬p k := by
  induction n with
  | zero => exact ⟨fun h => (nomatch h), fun h => absurd h.1 (Nat.not_lt_zero m)⟩
  | succ n ih =>
    rw [latest]
    by_cases hp : p n
    · rw [if_pos hp, Option.some.injEq]
      constructor
      · rintro rfl
        exact ⟨Nat.lt_succ_self n, hp, fun k h1 h2 => absurd h1 (by omega)⟩
      · rintro ⟨hlt, -, hno⟩
        exact Nat.le_antisymm (Nat.not_lt.1 fun h => hno n h (Nat.lt_succ_self n) hp)
          (Nat.le_of_lt_succ hlt)
    · rw [if_neg hp, ih]
      constructor
      · rintro ⟨hlt, hm, hno⟩
        refine ⟨Nat.lt_succ_of_lt hlt, hm, fun k h1 h2 => ?_⟩
        rcases Nat.lt_succ_iff_lt_or_eq.1 h2 with h2 | rfl
        · exact hno k h1 h2
        · exact hp
      · rintro ⟨hlt, hm, hno⟩
        refine ⟨?_, hm, fun k h1 h2 => hno k h1 (Nat.lt_succ_of_lt h2)⟩
        rcases Nat.lt_succ_iff_lt_or_eq.1 hlt with hlt | rfl
        · exact hlt
        · exact absurd hm hp

theorem exists_latest (hm : p m) (hlt : m < n) : ∃ k, latest p n = some k ∧ m ≤ k := by
  induction n with
  | zero => exact absurd hlt (Nat.not_lt_zero m)
  | succ n ih =>
    rw [latest]
    by_cases hp : p n
    · exact ⟨n, if_pos hp, Nat.le_of_lt_succ hlt⟩
    · rw [if_neg hp]
      refine ih (Nat.lt_of_le_of_ne (Nat.le_of_lt_succ hlt) ?_)
      rintro rfl
      exact hp hm

/-- Without some of the writes, but with the latest. -/
theorem latest_of_sub (hsub : ∀ k, q k → p k) (h : latest p n = some m) (hm : q m) :
    latest q n = some m := by
  obtain ⟨hlt, -, hno⟩ := latest_eq_some.1 h
  exact latest_eq_some.2 ⟨hlt, hm, fun k h1 h2 hk => hno k h1 h2 (hsub k hk)⟩

end RtcCore
