import Mathlib.Data.List.Sort
import RtcCore.Core.ComparedMap

/-!
# The head of a stable sort

Under a strict weak order the stable sort of a list begins with the element no
other precedes, and with the first of these where there are several
(`head?_stableSort`).
-/
namespace RtcCore

variable {α : Type}

/-- `b` precedes what stands before it in `l`, and nothing after it precedes `b`. -/
def First (lt : α → α → Bool) (l : List α) (b : α) : Prop :=
  ∃ l₁ l₂, l = l₁ ++ b :: l₂ ∧ (∀ c ∈ l₁, lt b c = true) ∧ ∀ c ∈ l₂, lt c b = false

/-- An element goes in front of the first that does not precede it. -/
def stableSort (lt : α → α → Bool) (l : List α) : List α :=
  l.insertionSort fun a b => lt b a = false

variable {lt : α → α → Bool} {S : α → Prop} {l : List α} {a b : α}

theorem First.mem (h : First lt l b) : b ∈ l := by
  obtain ⟨l₁, l₂, rfl, -, -⟩ := h
  exact List.mem_append_right _ (List.mem_cons_self ..)

/-- Of two places one is before the other. -/
theorem First.unique (ha : First lt l a) (hb : First lt l b) : a = b := by
  obtain ⟨a₁, a₂, hla, hbefore, hafter⟩ := ha
  obtain ⟨b₁, b₂, hlb, hbefore', hafter'⟩ := hb
  rw [hla] at hlb
  rcases List.append_eq_append_iff.1 hlb with ⟨m, rfl, hm⟩ | ⟨m, rfl, hm⟩
  · cases m with
    | nil => exact (List.cons.inj hm).1
    | cons x m =>
      obtain ⟨rfl, rfl⟩ := List.cons.inj hm
      have hno := hafter b (List.mem_append_right _ (List.mem_cons_self ..))
      rw [hbefore' a (List.mem_append_right _ (List.mem_cons_self ..))] at hno
      cases hno
  · cases m with
    | nil => exact (List.cons.inj hm).1.symm
    | cons x m =>
      obtain ⟨rfl, rfl⟩ := List.cons.inj hm
      have hno := hafter' a (List.mem_append_right _ (List.mem_cons_self ..))
      rw [hbefore b (List.mem_append_right _ (List.mem_cons_self ..))] at hno
      cases hno

section

variable (h : StrictWeakOn lt S)
include h

theorem First.not_lt (hl : ∀ c ∈ l, S c) (hb : First lt l b) : ∀ c ∈ l, lt c b = false := by
  have hSb := hl b hb.mem
  obtain ⟨l₁, l₂, rfl, hbefore, hafter⟩ := hb
  intro c hc
  rcases List.mem_append.1 hc with hc' | hc'
  · exact h.asymm hSb (hl c hc) (hbefore c hc')
  · rcases List.mem_cons.1 hc' with rfl | hc'
    · exact h.irrefl hSb
    · exact hafter c hc'

theorem first_head_stableSort (hl : ∀ c ∈ l, S c) (hb : (stableSort lt l).head? = some b) :
    First lt l b := by
  induction l generalizing b with
  | nil => cases hb
  | cons a l ih =>
    have hl' : ∀ c ∈ l, S c := fun c hc => hl c (List.mem_cons_of_mem _ hc)
    have hSa : S a := hl a (List.mem_cons_self ..)
    unfold stableSort at hb ih
    rw [List.insertionSort_cons] at hb
    cases hsort : l.insertionSort fun a b => lt b a = false with
    | nil =>
      have hlen := List.length_insertionSort (fun a b => lt b a = false) l
      rw [hsort] at hlen
      rw [List.eq_nil_of_length_eq_zero hlen.symm] at hb ⊢
      cases hb
      exact ⟨[], [], rfl, fun c hc => (nomatch hc), fun c hc => (nomatch hc)⟩
    | cons d t =>
      have hd : First lt l d := ih hl' (by rw [hsort]; rfl)
      rw [hsort, List.orderedInsert_cons] at hb
      split at hb
      · rename_i had
        cases hb
        refine ⟨[], l, rfl, fun c hc => (nomatch hc), fun c hc => ?_⟩
        rw [← Bool.not_eq_true]
        intro hca
        rw [h.cotrans (hl' c hc) hSa (hl' d hd.mem) hca (hd.not_lt h hl' c hc)] at had
        cases had
      · rename_i had
        cases hb
        obtain ⟨l₁, l₂, rfl, hbefore, hafter⟩ := hd
        refine ⟨a :: l₁, l₂, rfl, fun c hc => ?_, hafter⟩
        rcases List.mem_cons.1 hc with rfl | hc
        · exact Bool.eq_true_of_not_eq_false had
        · exact hbefore c hc

theorem head?_stableSort (hl : ∀ c ∈ l, S c) :
    (stableSort lt l).head? = some b ↔ First lt l b := by
  refine ⟨first_head_stableSort h hl, fun hb => ?_⟩
  cases hhead : (stableSort lt l).head? with
  | none =>
    have hnil := List.head?_eq_none_iff.1 hhead
    have hmem := (List.perm_insertionSort (fun a b => lt b a = false) l).mem_iff.2 hb.mem
    rw [show l.insertionSort (fun a b => lt b a = false) = [] from hnil] at hmem
    cases hmem
  | some d => rw [(first_head_stableSort h hl hhead).unique hb]

end

end RtcCore
