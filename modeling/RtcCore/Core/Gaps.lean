/-!
# Gaps in a descending list of numbers

What was received of a numbered stream, latest first: `high` is the head,
`first` the last entry, `missing` counts the numbers between them that are
not in the list. `missing_add_length` trades the count for the list's length,
so that callers need arithmetic only.
-/
namespace RtcCore.Gaps

/-- Latest first, no number twice. -/
def Descending (l : List Nat) : Prop := l.Pairwise (· > ·)

def high (l : List Nat) : Nat := l.head?.getD 0

def first (l : List Nat) : Nat := l.getLast?.getD 0

/-- Numbers from the first to the highest that are not in the list. -/
def missing (l : List Nat) : Nat :=
  if l = [] then 0
  else (List.range (high l + 1)).countP fun m => decide (first l ≤ m ∧ m ∉ l)

@[simp] theorem missing_nil : missing [] = 0 := rfl

@[simp] theorem high_cons (n : Nat) (l : List Nat) : high (n :: l) = n := rfl

theorem first_cons {l : List Nat} (n : Nat) (h : l ≠ []) : first (n :: l) = first l := by
  rw [first, first, List.getLast?_cons_of_ne_nil h]

theorem first_suffix {l l' : List Nat} (h : l' <:+ l) (hne : l' ≠ []) : first l' = first l := by
  obtain ⟨t, rfl⟩ := h
  rw [first, first, List.getLast?_append, List.getLast?_eq_some_getLast hne, Option.some_or]

theorem Descending.suffix {l l' : List Nat} (h : Descending l) (hs : l' <:+ l) : Descending l' :=
  List.Pairwise.sublist hs.sublist h

theorem Descending.le_high {l : List Nat} (h : Descending l) : ∀ m ∈ l, m ≤ high l := by
  intro m hm
  cases l with
  | nil => cases hm
  | cons n l =>
    rcases List.mem_cons.1 hm with rfl | hm
    · exact Nat.le_refl _
    · exact Nat.le_of_lt (List.rel_of_pairwise_cons h hm)

theorem first_mem {l : List Nat} (h : l ≠ []) : first l ∈ l := by
  rw [first, List.getLast?_eq_some_getLast h]
  exact List.getLast_mem h

theorem high_mem {l : List Nat} (h : l ≠ []) : high l ∈ l := by
  cases l with
  | nil => exact absurd rfl h
  | cons n l => exact List.mem_cons_self ..

theorem Descending.first_le_high {l : List Nat} (h : Descending l) (hne : l ≠ []) :
    first l ≤ high l :=
  h.le_high _ (first_mem hne)

theorem countP_ne_last (d : Nat) : (List.range (d + 1)).countP (fun k => decide (k ≠ d)) = d := by
  rw [List.range_succ, List.countP_append, List.countP_eq_length.2]
  · simp
  · intro k hk
    have := List.mem_range.1 hk
    exact decide_eq_true (Nat.ne_of_lt this)

/-- A new highest number leaves out those in between. -/
theorem missing_cons {n : Nat} {l : List Nat} (h : Descending (n :: l)) (hne : l ≠ []) :
    missing (n :: l) = missing l + (n - high l - 1) := by
  have hl : Descending l := h.suffix (List.suffix_cons n l)
  have hlt : high l < n := List.rel_of_pairwise_cons h (high_mem hne)
  have hfirst := hl.first_le_high hne
  obtain ⟨d, rfl⟩ : ∃ d, n = high l + 1 + d := ⟨n - high l - 1, by omega⟩
  rw [missing, if_neg (List.cons_ne_nil _ _), missing, if_neg hne, first_cons _ hne, high_cons,
    Nat.add_assoc _ d 1, List.range_add, List.countP_append, List.countP_map]
  congr 1
  · -- up to the old highest number nothing changes
    refine List.countP_congr fun m hm => ?_
    have := List.mem_range.1 hm
    have hne : m ≠ high l + 1 + d := by omega
    simp [hne]
  · -- past it everything but the new number is missing
    rw [show high l + 1 + d - high l - 1 = d by omega]
    refine Eq.trans (List.countP_congr fun k _ => ?_) (countP_ne_last d)
    have hk : high l + 1 + k ∉ l := fun hc => by
      have := hl.le_high _ hc
      omega
    simp only [Function.comp_apply, List.mem_cons, hk, or_false, decide_eq_true_eq]
    omega

theorem missing_singleton (n : Nat) : missing [n] = 0 := by
  rw [missing, if_neg (List.cons_ne_nil _ _), List.countP_eq_zero]
  intro m hm hc
  have := List.mem_range.1 hm
  simp only [first, high, List.getLast?_singleton, List.head?_cons, Option.getD_some,
    List.mem_singleton, decide_eq_true_eq] at this hc
  omega

theorem missing_pair {m n : Nat} (h : n < m) : missing [m, n] = m - n - 1 := by
  rw [missing_cons (List.pairwise_pair.2 h) (List.cons_ne_nil _ _), missing_singleton, high_cons,
    Nat.zero_add]

theorem missing_add_length {l : List Nat} (h : Descending l) (hne : l ≠ []) :
    missing l + l.length = high l + 1 - first l := by
  induction l with
  | nil => exact absurd rfl hne
  | cons n l ih =>
    by_cases hl : l = []
    · subst hl
      rw [missing_singleton]
      simp [first, high]
    · have hd := h.suffix (List.suffix_cons n l)
      have hlt : high l < n := List.rel_of_pairwise_cons h (high_mem hl)
      have hfirst := hd.first_le_high hl
      have := ih hd hl
      rw [missing_cons h hl, first_cons _ hl, high_cons, List.length_cons]
      omega

theorem missing_suffix_le {l l' : List Nat} (h : Descending l) (hs : l' <:+ l) :
    missing l' ≤ missing l := by
  induction l with
  | nil => exact Nat.le_of_eq (congrArg missing (List.suffix_nil.1 hs))
  | cons n l ih =>
    rcases List.suffix_cons_iff.1 hs with rfl | hs
    · exact Nat.le_refl _
    · refine Nat.le_trans (ih (h.suffix (List.suffix_cons n l)) hs) ?_
      by_cases hl : l = []
      · rw [hl]; exact Nat.zero_le _
      · rw [missing_cons h hl]
        exact Nat.le_add_right _ _

end RtcCore.Gaps
