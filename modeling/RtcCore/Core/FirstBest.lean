import Mathlib.Data.List.Induction
import Mathlib.Order.Lattice

/-!
# The first of the cheapest

A scan that keeps the cheapest admissible element it has seen below a bound, and on
a tie the one it met first.

Results:
* `scan_spec`: what is kept is dearer than nothing, cheaper than what came before.
* `scan_some`, `scan_eq_none_iff`, `Chosen.scan_eq`: with what the scan ends.
-/
namespace RtcCore

namespace FirstBest

variable {α β : Type*} [LinearOrder β] (fits : α → Bool) (cost : α → β)

def keep (best : Option α × β) (x : α) : Option α × β :=
  if fits x ∧ cost x < best.2 then (some x, cost x) else best

def scan (bound : β) (xs : List α) : Option α × β := xs.foldl (keep fits cost) (none, bound)

/-- `x` is admissible and cheaper than the bound and what stands before it, and nothing behind it is
cheaper. -/
def Chosen (bound : β) (xs : List α) (x : α) : Prop :=
  fits x = true ∧ cost x < bound ∧ ∃ before behind, xs = before ++ x :: behind ∧
    (∀ y ∈ before, fits y = true → cost x < cost y) ∧
    ∀ y ∈ behind, fits y = true → cost x ≤ cost y

variable {fits cost} {bound : β} {xs : List α} {x : α}

theorem scan_concat : scan fits cost bound (xs ++ [x]) =
    keep fits cost (scan fits cost bound xs) x := by
  unfold scan
  rw [List.foldl_append]
  rfl

theorem Chosen.mem (h : Chosen fits cost bound xs x) : x ∈ xs := by
  obtain ⟨-, -, before, behind, rfl, -⟩ := h
  exact List.mem_append_right _ List.mem_cons_self

theorem Chosen.least (h : Chosen fits cost bound xs x) {y : α} (hy : y ∈ xs)
    (hf : fits y = true) : cost x ≤ cost y := by
  obtain ⟨-, -, before, behind, rfl, hbefore, hbehind⟩ := h
  rcases List.mem_append.1 hy with hy | hy
  · exact le_of_lt (hbefore y hy hf)
  · rcases List.mem_cons.1 hy with rfl | hy
    · exact le_refl _
    · exact hbehind y hy hf

/-- In an ascending list the elements before are the smaller ones. -/
theorem Chosen.lt_of_lt [Preorder α] (h : Chosen fits cost bound xs x)
    (hs : xs.Pairwise (· < ·)) {y : α} (hy : y ∈ xs) (hlt : y < x) (hf : fits y = true) :
    cost x < cost y := by
  obtain ⟨-, -, before, behind, rfl, hbefore, -⟩ := h
  rcases List.mem_append.1 hy with hy | hy
  · exact hbefore y hy hf
  · rcases List.mem_cons.1 hy with rfl | hy
    · exact absurd hlt (lt_irrefl _)
    · have hxy := (List.pairwise_cons.1 (List.pairwise_append.1 hs).2.1).1 y hy
      exact absurd (lt_trans hlt hxy) (lt_irrefl _)

/-- Nothing admissible is below the bound, or the scan ends with what is chosen. -/
theorem scan_spec (fits : α → Bool) (cost : α → β) (bound : β) (xs : List α) :
    (scan fits cost bound xs = (none, bound) ∧ ∀ y ∈ xs, fits y = true → bound ≤ cost y) ∨
      ∃ x, scan fits cost bound xs = (some x, cost x) ∧ Chosen fits cost bound xs x := by
  induction xs using List.reverseRecOn with
  | nil => exact .inl ⟨rfl, fun y hy => nomatch hy⟩
  | append_singleton xs x ih =>
    rw [scan_concat]
    rcases ih with ⟨heq, hnone⟩ | ⟨k, heq, hk⟩
    · rw [heq]
      unfold keep
      by_cases hx : fits x = true ∧ cost x < bound
      · rw [if_pos hx]
        refine .inr ⟨x, rfl, hx.1, hx.2, xs, [], rfl, fun y hy hf => ?_, fun y hy => nomatch hy⟩
        exact lt_of_lt_of_le hx.2 (hnone y hy hf)
      · rw [if_neg hx]
        refine .inl ⟨rfl, fun y hy hf => ?_⟩
        rcases List.mem_append.1 hy with hy | hy
        · exact hnone y hy hf
        · rw [List.mem_singleton] at hy
          subst hy
          exact le_of_not_gt fun hlt => hx ⟨hf, hlt⟩
    · rw [heq]
      unfold keep
      by_cases hx : fits x = true ∧ cost x < cost k
      · rw [if_pos hx]
        refine .inr ⟨x, rfl, hx.1, lt_trans hx.2 hk.2.1, xs, [], rfl, fun y hy hf => ?_,
          fun y hy => nomatch hy⟩
        exact lt_of_lt_of_le hx.2 (hk.least hy hf)
      · rw [if_neg hx]
        obtain ⟨hf, hb, before, behind, rfl, hbefore, hbehind⟩ := hk
        refine .inr ⟨k, rfl, hf, hb, before, behind ++ [x], by simp, hbefore, fun y hy hfy => ?_⟩
        rcases List.mem_append.1 hy with hy | hy
        · exact hbehind y hy hfy
        · rw [List.mem_singleton] at hy
          subst hy
          exact le_of_not_gt fun hlt => hx ⟨hfy, hlt⟩

theorem scan_some (h : (scan fits cost bound xs).1 = some x) : Chosen fits cost bound xs x := by
  rcases scan_spec fits cost bound xs with ⟨heq, -⟩ | ⟨k, heq, hk⟩
  · rw [heq] at h
    exact nomatch h
  · rw [heq] at h
    cases h
    exact hk

theorem scan_eq_none_iff :
    (scan fits cost bound xs).1 = none ↔ ∀ y ∈ xs, fits y = true → bound ≤ cost y := by
  rcases scan_spec fits cost bound xs with ⟨heq, hnone⟩ | ⟨k, heq, hk⟩
  · rw [heq]
    exact iff_of_true rfl hnone
  · rw [heq]
    refine iff_of_false nofun fun hall => ?_
    obtain ⟨hf, hb, before, behind, rfl, -⟩ := hk
    exact absurd hb (not_lt_of_ge (hall k (by simp) hf))

theorem Chosen.cost_le {y : α} (hx : Chosen fits cost bound xs x)
    (hy : Chosen fits cost bound xs y) : cost x ≤ cost y := hx.least hy.mem hy.1

theorem Chosen.unique {y : α} (hx : Chosen fits cost bound xs x)
    (hy : Chosen fits cost bound xs y) : x = y := by
  have hle := hx.cost_le hy
  have hge := hy.cost_le hx
  obtain ⟨hfx, -, before, behind, hxs, hbefore, -⟩ := hx
  obtain ⟨hfy, -, before', behind', hxs', hbefore', -⟩ := hy
  rw [hxs] at hxs'
  rcases List.append_eq_append_iff.1 hxs' with ⟨mid, rfl, hmid⟩ | ⟨mid, rfl, hmid⟩
  · cases mid with
    | nil => exact (List.cons.inj hmid).1
    | cons z mid =>
      obtain ⟨rfl, -⟩ := List.cons.inj hmid
      exact absurd (hbefore' x (List.mem_append_right _ List.mem_cons_self) hfx) (not_lt_of_ge hle)
  · cases mid with
    | nil => exact (List.cons.inj hmid).1.symm
    | cons z mid =>
      obtain ⟨rfl, -⟩ := List.cons.inj hmid
      exact absurd (hbefore y (List.mem_append_right _ List.mem_cons_self) hfy) (not_lt_of_ge hge)

/-- What is chosen, the scan ends with. -/
theorem Chosen.scan_eq (h : Chosen fits cost bound xs x) :
    (scan fits cost bound xs).1 = some x := by
  rcases scan_spec fits cost bound xs with ⟨-, hnone⟩ | ⟨k, heq, hk⟩
  · exact absurd h.2.1 (not_lt_of_ge (hnone x h.mem h.1))
  · rw [heq, hk.unique h]

theorem scan_map {γ : Type*} (f : γ → α) (ys : List γ) :
    scan fits cost bound (ys.map f) =
      Prod.map (Option.map f) id (scan (fits ∘ f) (cost ∘ f) bound ys) := by
  induction ys using List.reverseRecOn with
  | nil => rfl
  | append_singleton ys y ih =>
    rw [List.map_append, List.map_singleton, scan_concat, scan_concat, ih]
    unfold keep
    rw [apply_ite (Prod.map (Option.map f) id)]
    rfl

end FirstBest

end RtcCore
