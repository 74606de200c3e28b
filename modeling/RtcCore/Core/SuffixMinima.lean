import Mathlib.Data.List.DropRight
import Mathlib.Order.Bounds.Defs
import Mathlib.Order.Defs.LinearOrder
import Mathlib.Order.Lattice

/-!
# The queue of a sliding minimum

`suffixMinima l` keeps the entries of a log that every later entry is above.
It is what the usual queue holds: a new entry takes from the end all that is
not below it (`suffixMinima_append`), and entries that leave the window at the
front leave the queue at the front (`suffixMinima_filter`). Its values rise
(`suffixMinima_rising`), so the first one is the least of the log
(`head_suffixMinima`).
-/
namespace RtcCore

variable {τ α : Type} [LinearOrder α]

def suffixMinima : List (τ × α) → List (τ × α)
  | [] => []
  | e :: es => if ∀ x ∈ es, e.2 < x.2 then e :: suffixMinima es else suffixMinima es

theorem suffixMinima_sublist (l : List (τ × α)) : (suffixMinima l).Sublist l := by
  induction l with
  | nil => exact List.Sublist.refl _
  | cons e es ih =>
    unfold suffixMinima
    split
    · exact ih.cons_cons e
    · exact ih.cons e

theorem suffixMinima_rising (l : List (τ × α)) :
    (suffixMinima l).Pairwise fun a b => a.2 < b.2 := by
  induction l with
  | nil => exact List.Pairwise.nil
  | cons e es ih =>
    unfold suffixMinima
    split
    · rename_i hlow
      exact List.Pairwise.cons (fun x hx => hlow x ((suffixMinima_sublist es).subset hx)) ih
    · exact ih

theorem rdropWhile_cons {β : Type} (p : β → Bool) (e : β) (l : List β) :
    (e :: l).rdropWhile p = if p e = true ∧ ∀ x ∈ l, p x then [] else e :: l.rdropWhile p := by
  induction l using List.reverseRecOn with
  | nil =>
    rw [List.rdropWhile_singleton]
    simp
  | append_singleton l x ih =>
    rw [← List.cons_append]
    by_cases hx : p x = true
    · rw [List.rdropWhile_concat_pos _ _ _ hx, List.rdropWhile_concat_pos _ _ _ hx, ih]
      simp only [List.mem_append, List.mem_singleton, or_imp, forall_and, forall_eq, hx, and_true]
    · rw [List.rdropWhile_concat_neg _ _ _ hx, List.rdropWhile_concat_neg _ _ _ hx, if_neg]
      · rfl
      · exact fun h => hx (h.2 x (by simp))

theorem suffixMinima_append (l : List (τ × α)) (x : τ × α) :
    suffixMinima (l ++ [x]) = (suffixMinima l).rdropWhile (fun e => x.2 ≤ e.2) ++ [x] := by
  induction l with
  | nil => simp [suffixMinima]
  | cons e es ih =>
    rw [List.cons_append, suffixMinima, suffixMinima]
    by_cases hlow : ∀ y ∈ es, e.2 < y.2
    · by_cases hx : e.2 < x.2
      · have hall : ∀ y ∈ es ++ [x], e.2 < y.2 := by
          intro y hy
          rcases List.mem_append.mp hy with hy | hy
          · exact hlow y hy
          · rwa [List.mem_singleton.mp hy]
        rw [if_pos hall, if_pos hlow, ih, rdropWhile_cons, if_neg]
        · rfl
        · exact fun h => absurd hx (not_lt.mpr (of_decide_eq_true h.1))
      · -- the new entry is no higher than `e`, hence below all that is kept behind `e`
        have hnot : ¬∀ y ∈ es ++ [x], e.2 < y.2 := fun h => hx (h x (by simp))
        have hle : ∀ y ∈ suffixMinima es, x.2 ≤ y.2 := fun y hy =>
          le_trans (not_lt.mp hx) (le_of_lt (hlow y ((suffixMinima_sublist es).subset hy)))
        have hnil : (suffixMinima es).rdropWhile (fun e => x.2 ≤ e.2) = [] := by
          rw [List.rdropWhile_eq_nil_iff]
          simpa using hle
        rw [if_neg hnot, if_pos hlow, ih, rdropWhile_cons, if_pos, hnil]
        exact ⟨by simpa using hx, by simpa using hle⟩
    · have hnot : ¬∀ y ∈ es ++ [x], e.2 < y.2 := fun h => hlow fun y hy => h y (by simp [hy])
      rw [if_neg hnot, if_neg hlow, ih]

theorem suffixMinima_filter {p : τ × α → Bool} {l : List (τ × α)}
    (h : l.Pairwise fun a b => p a = true → p b = true) :
    suffixMinima (l.filter p) = (suffixMinima l).dropWhile (fun e => !p e) := by
  induction h with
  | nil => rfl
  | @cons e es hes _ ih =>
    by_cases hp : p e = true
    · have hall : (e :: es).filter p = e :: es := by
        rw [List.filter_eq_self]
        intro x hx
        rcases List.mem_cons.mp hx with rfl | hx
        · exact hp
        · exact hes x hx hp
      rw [hall]
      refine (List.dropWhile_eq_self_iff.mpr fun hlen => ?_).symm
      have hmem := (suffixMinima_sublist (e :: es)).subset (List.getElem_mem hlen)
      rcases List.mem_cons.mp hmem with he | hx
      · rw [he]
        simpa using hp
      · simpa using hes _ hx hp
    · rw [List.filter_cons_of_neg hp, ih]
      conv_rhs => unfold suffixMinima
      split
      · rw [List.dropWhile_cons_of_pos (by simpa using hp)]
      · rfl

/-- Every entry is bounded from below by one that is kept. -/
theorem exists_suffixMinima_le {l : List (τ × α)} {x : τ × α} (hx : x ∈ l) :
    ∃ e ∈ suffixMinima l, e.2 ≤ x.2 := by
  induction l generalizing x with
  | nil => exact absurd hx List.not_mem_nil
  | cons e es ih =>
    unfold suffixMinima
    split
    · rcases List.mem_cons.mp hx with rfl | hx
      · exact ⟨x, List.mem_cons_self, le_rfl⟩
      · obtain ⟨m, hm, hle⟩ := ih hx
        exact ⟨m, List.mem_cons_of_mem _ hm, hle⟩
    · rename_i hlow
      rcases List.mem_cons.mp hx with rfl | hx
      · simp only [not_forall, not_lt] at hlow
        obtain ⟨y, hy, hle⟩ := hlow
        obtain ⟨m, hm, hm'⟩ := ih hy
        exact ⟨m, hm, le_trans hm' hle⟩
      · exact ih hx

theorem head_suffixMinima {l : List (τ × α)} {m : τ × α} (h : (suffixMinima l).head? = some m) :
    IsLeast {v | ∃ e ∈ l, e.2 = v} m.2 := by
  obtain ⟨ms, hms⟩ := List.head?_eq_some_iff.mp h
  have hrising := suffixMinima_rising l
  rw [hms] at hrising
  refine ⟨⟨m, (suffixMinima_sublist l).subset (by simp [hms]), rfl⟩, ?_⟩
  rintro _ ⟨x, hx, rfl⟩
  obtain ⟨e, he, hle⟩ := exists_suffixMinima_le hx
  rw [hms] at he
  rcases List.mem_cons.mp he with rfl | he
  · exact hle
  · exact le_trans (le_of_lt (List.rel_of_pairwise_cons hrising he)) hle

end RtcCore
