import Mathlib.Algebra.BigOperators.Fin
import Mathlib.Algebra.Order.BigOperators.Group.Finset
import Mathlib.Data.List.Nodup

/-!
# Tables written slot by slot

`assign t ws` writes the pairs of `ws` into the table `t`, a later write over
an earlier one to the same slot. Of numbers written to slots that were zero
nothing is lost, that is the table holds their sum, exactly when no slot is
written twice (`sum_assign_iff`).

`filled` completes a table of ranges: an empty range starts where the one
before it ends. The completed ranges stand in order if the others do.
-/
namespace RtcCore.Slots

section Assign

variable {ι α : Type*} [DecidableEq ι]

def assign (t : ι → α) (ws : List (ι × α)) : ι → α :=
  ws.foldl (fun t w => Function.update t w.1 w.2) t

@[simp] theorem assign_nil (t : ι → α) : assign t [] = t := rfl

@[simp] theorem assign_cons (t : ι → α) (w : ι × α) (ws : List (ι × α)) :
    assign t (w :: ws) = assign (Function.update t w.1 w.2) ws := rfl

theorem assign_of_not_mem {ws : List (ι × α)} {i : ι} (h : i ∉ ws.map Prod.fst) (t : ι → α) :
    assign t ws i = t i := by
  induction ws generalizing t with
  | nil => rfl
  | cons w ws ih =>
    rw [List.map_cons, List.mem_cons, not_or] at h
    rw [assign_cons, ih h.2, Function.update_of_ne h.1]

theorem assign_of_mem {ws : List (ι × α)} {i : ι} {a : α} (hn : (ws.map Prod.fst).Nodup)
    (h : (i, a) ∈ ws) (t : ι → α) : assign t ws i = a := by
  induction ws generalizing t with
  | nil => exact absurd h List.not_mem_nil
  | cons w ws ih =>
    rw [List.map_cons, List.nodup_cons] at hn
    rcases List.mem_cons.1 h with rfl | h
    · rw [assign_cons, assign_of_not_mem hn.1, Function.update_self]
    · exact ih hn.2 h _

end Assign

section Sum

variable {ι : Type*} [DecidableEq ι]

theorem sum_update {s : Finset ι} {i : ι} (h : i ∈ s) (t : ι → ℕ) (n : ℕ) :
    ∑ x ∈ s, Function.update t i n x + t i = ∑ x ∈ s, t x + n := by
  have := Finset.add_sum_erase s t h
  rw [Finset.sum_update_of_mem h, Finset.sdiff_singleton_eq_erase]
  omega

theorem sum_assign_le {s : Finset ι} {ws : List (ι × ℕ)} (hs : ∀ w ∈ ws, w.1 ∈ s) (t : ι → ℕ) :
    ∑ x ∈ s, assign t ws x ≤ ∑ x ∈ s, t x + (ws.map Prod.snd).sum := by
  induction ws generalizing t with
  | nil => simp
  | cons w ws ih =>
    have h := ih (fun v hv => hs v (List.mem_cons_of_mem _ hv)) (Function.update t w.1 w.2)
    have hu := sum_update (hs w (List.mem_cons_self ..)) t w.2
    rw [assign_cons, List.map_cons, List.sum_cons]
    omega

/-- Nothing is lost exactly when every slot was free when it was written. -/
theorem sum_assign_iff {s : Finset ι} {ws : List (ι × ℕ)} (hs : ∀ w ∈ ws, w.1 ∈ s)
    (hpos : ∀ w ∈ ws, 0 < w.2) (t : ι → ℕ) :
    ∑ x ∈ s, assign t ws x = ∑ x ∈ s, t x + (ws.map Prod.snd).sum ↔
      (ws.map Prod.fst).Nodup ∧ ∀ w ∈ ws, t w.1 = 0 := by
  induction ws generalizing t with
  | nil => simp
  | cons w ws ih =>
    have hs' : ∀ v ∈ ws, v.1 ∈ s := fun v hv => hs v (List.mem_cons_of_mem _ hv)
    have hle := sum_assign_le hs' (Function.update t w.1 w.2)
    have hi := ih hs' (fun v hv => hpos v (List.mem_cons_of_mem _ hv)) (Function.update t w.1 w.2)
    have hu := sum_update (hs w (List.mem_cons_self ..)) t w.2
    have hw := hpos w (List.mem_cons_self ..)
    rw [assign_cons, List.map_cons, List.sum_cons, List.map_cons, List.nodup_cons]
    constructor
    · intro h
      have h0 : t w.1 = 0 := by omega
      obtain ⟨hn, hz⟩ := hi.1 (by omega)
      have hmem : w.1 ∉ ws.map Prod.fst := by
        intro hm
        obtain ⟨v, hv, he⟩ := List.mem_map.1 hm
        have := hz v hv
        rw [he, Function.update_self] at this
        omega
      refine ⟨⟨hmem, hn⟩, fun v hv => ?_⟩
      rcases List.mem_cons.1 hv with rfl | hv
      · exact h0
      · have hne : v.1 ≠ w.1 := fun he => hmem (he ▸ List.mem_map_of_mem hv)
        have := hz v hv
        rwa [Function.update_of_ne hne] at this
    · rintro ⟨⟨hmem, hn⟩, hz⟩
      have h0 := hz w (List.mem_cons_self ..)
      have := hi.2 ⟨hn, fun v hv => by
        have hne : v.1 ≠ w.1 := fun he => hmem (he ▸ List.mem_map_of_mem hv)
        rw [Function.update_of_ne hne]
        exact hz v (List.mem_cons_of_mem _ hv)⟩
      omega

end Sum

section Fill

variable {offset length : ℕ → ℕ} {n hi : ℕ}

/-- The start of range `i` when each empty range starts at the end of the one before. -/
def filled (offset length : ℕ → ℕ) : ℕ → ℕ
  | 0 => if length 0 = 0 then 0 else offset 0
  | i + 1 => if length (i + 1) = 0 then filled offset length i + length i else offset (i + 1)

theorem filled_of_ne {i : ℕ} (h : length i ≠ 0) : filled offset length i = offset i := by
  cases i <;> exact if_neg h

/-- Up to an empty range nothing but earlier ranges. -/
theorem filled_end_le (hlt : ∀ i, i < n → length i ≠ 0 → offset i + length i ≤ hi) {i : ℕ}
    (hin : i < n) : filled offset length i + length i ≤ hi := by
  induction i with
  | zero =>
    by_cases h : length 0 = 0
    · simp [filled, h]
    · rw [filled_of_ne h]
      exact hlt 0 hin h
  | succ i ih =>
    by_cases h : length (i + 1) = 0
    · rw [filled, if_pos h, h]
      exact ih (by omega)
    · rw [filled_of_ne h]
      exact hlt _ hin h

/-- Non-empty ranges in order make all of them stand in order. -/
theorem filled_increasing
    (h : ∀ i j, i < j → j < n → length i ≠ 0 → length j ≠ 0 → offset i + length i ≤ offset j)
    {i j : ℕ} (hij : i < j) (hj : j < n) :
    filled offset length i + length i ≤ filled offset length j := by
  induction j with
  | zero => omega
  | succ j ih =>
    by_cases h0 : length (j + 1) = 0
    · rw [filled, if_pos h0]
      rcases Nat.lt_or_eq_of_le (Nat.le_of_lt_succ hij) with hlt | rfl
      · have := ih hlt (by omega)
        omega
      · exact Nat.le_refl _
    · rw [filled_of_ne h0]
      exact filled_end_le (fun k hk hk0 => h k _ hk hj hk0 h0) hij

end Fill

end RtcCore.Slots
