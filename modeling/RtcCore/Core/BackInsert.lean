import Mathlib.Data.List.Chain
import Mathlib.Data.List.DropRight

/-!
# Insertion searched from the back

`backInsert` puts an item behind the last one it does not come before. If that
one is the same, the item is left out; if the next one is, it is replaced. So
neighbours stay different whatever the comparison does
(`isChain_backInsert`), and in a list sorted by a key that the comparison
`Follows` the item gets its place (`Follows.backInsert_sorted`).
-/
namespace RtcCore

variable {α β : Type}

def backInsert (lt same : α → α → Bool) (x : α) (l : List α) : List α :=
  if (l.rdropWhile (lt x)).getLast?.any (same x) then l
  else
    l.rdropWhile (lt x) ++ x ::
      if (l.rtakeWhile (lt x)).head?.any (same x) then (l.rtakeWhile (lt x)).tail
      else l.rtakeWhile (lt x)

variable {lt same : α → α → Bool} {x : α} {l : List α}

theorem length_backInsert_le : (backInsert lt same x l).length ≤ l.length + 1 := by
  have hall : l.rdropWhile (lt x) ++ l.rtakeWhile (lt x) = l := List.rdropWhile_append_rtakeWhile
  have hlen := congrArg List.length hall
  rw [List.length_append] at hlen
  unfold backInsert
  split
  · omega
  · split
    · rw [List.length_append, List.length_cons, List.length_tail]
      omega
    · rw [List.length_append, List.length_cons]
      omega

theorem mem_backInsert {y : α} (h : y ∈ backInsert lt same x l) : y = x ∨ y ∈ l := by
  have hall : l.rdropWhile (lt x) ++ l.rtakeWhile (lt x) = l := List.rdropWhile_append_rtakeWhile
  unfold backInsert at h
  split at h
  · exact .inr h
  · rcases List.mem_append.1 h with h | h
    · exact .inr (hall ▸ List.mem_append_left _ h)
    · rcases List.mem_cons.1 h with rfl | h
      · exact .inl rfl
      · refine .inr (hall ▸ List.mem_append_right _ ?_)
        split at h
        · exact List.mem_of_mem_tail h
        · exact h

/-- Neighbours stay different. -/
theorem isChain_backInsert (hsymm : ∀ a b, same a b = same b a)
    (htrans : ∀ a b c, same a b = true → same b c = true → same a c = true)
    (h : l.IsChain fun a b => same a b = false) :
    (backInsert lt same x l).IsChain fun a b => same a b = false := by
  have hall : l.rdropWhile (lt x) ++ l.rtakeWhile (lt x) = l := List.rdropWhile_append_rtakeWhile
  unfold backInsert
  split
  · exact h
  · rename_i hleft
    rw [← hall] at h
    generalize l.rdropWhile (lt x) = left at h hleft ⊢
    generalize l.rtakeWhile (lt x) = right at h ⊢
    rw [List.isChain_append] at h
    obtain ⟨hl, hr, -⟩ := h
    have hlast : ∀ a ∈ left.getLast?, same a x = false := by
      intro a ha
      rw [hsymm]
      rw [Option.mem_def] at ha
      simpa [ha] using hleft
    refine List.isChain_append.2 ⟨hl, ?_, ?_⟩
    · cases right with
      | nil => simp
      | cons r right =>
        by_cases hsame : same x r = true
        · rw [if_pos (show (r :: right).head?.any (same x) = true from hsame), List.tail_cons]
          cases right with
          | nil => simp
          | cons r' right =>
            obtain ⟨hne, hr⟩ := List.isChain_cons_cons.1 hr
            refine List.isChain_cons_cons.2 ⟨?_, hr⟩
            by_contra hc
            rw [Bool.not_eq_false] at hc
            have := htrans r x r' (hsymm x r ▸ hsame) hc
            rw [hne] at this
            cases this
        · rw [if_neg (show ¬(r :: right).head?.any (same x) = true from hsame)]
          exact List.isChain_cons_cons.2 ⟨Bool.eq_false_iff.2 hsame, hr⟩
    · intro a ha b hb
      cases hb
      exact hlast a ha

/-- What keeps the comparisons commutes with the insertion. -/
theorem map_backInsert {lt' same' : β → β → Bool} (f : α → β)
    (hlt : ∀ a, lt' (f x) (f a) = lt x a) (hsame : ∀ a, same' (f x) (f a) = same x a) :
    backInsert lt' same' (f x) (l.map f) = (backInsert lt same x l).map f := by
  have hlt' : lt' (f x) ∘ f = lt x := funext hlt
  have hsame' : (fun a => same' (f x) (f a)) = same x := funext hsame
  have hdrop : (l.map f).rdropWhile (lt' (f x)) = (l.rdropWhile (lt x)).map f := by
    rw [List.rdropWhile, List.rdropWhile, ← List.map_reverse, List.dropWhile_map, hlt',
      List.map_reverse]
  have htake : (l.map f).rtakeWhile (lt' (f x)) = (l.rtakeWhile (lt x)).map f := by
    rw [List.rtakeWhile, List.rtakeWhile, ← List.map_reverse, List.takeWhile_map, hlt',
      List.map_reverse]
  rw [backInsert, backInsert, hdrop, htake, List.getLast?_map, Option.any_map, List.head?_map,
    Option.any_map, hsame']
  split
  · rfl
  · rw [List.map_append, List.map_cons]
    split
    · rw [List.map_tail]
    · rfl

/-! ## In a sorted list -/

/-- The search stops between what `x` comes before and what it does not. -/
theorem rdropWhile_cut {p : α → Bool} {left right : List α} (hl : ∀ a ∈ left.getLast?, p a = false)
    (hr : ∀ a ∈ right, p a = true) :
    (left ++ right).rdropWhile p = left ∧ (left ++ right).rtakeWhile p = right := by
  have hdrop : (left ++ right).rdropWhile p = left := by
    induction right using List.reverseRecOn with
    | nil =>
      rw [List.append_nil, List.rdropWhile_eq_self_iff]
      intro hne hc
      rw [hl _ (List.getLast?_eq_some_getLast hne)] at hc
      cases hc
    | append_singleton right a ih =>
      rw [← List.append_assoc, List.rdropWhile_concat_pos _ _ _ (hr a (by simp))]
      exact ih fun b hb => hr b (List.mem_append_left _ hb)
  refine ⟨hdrop, ?_⟩
  have hall : (left ++ right).rdropWhile p ++ (left ++ right).rtakeWhile p = left ++ right :=
    List.rdropWhile_append_rtakeWhile
  rw [hdrop] at hall
  exact List.append_cancel_left hall

/-- Without one of its key, the item goes between the smaller and the larger ones. -/
theorem backInsert_absent {left right : List α} (hl : ∀ a ∈ left, lt x a = false ∧ same x a = false)
    (hr : ∀ a ∈ right, lt x a = true ∧ same x a = false) :
    backInsert lt same x (left ++ right) = left ++ x :: right := by
  obtain ⟨h1, h2⟩ := rdropWhile_cut (p := lt x) (fun a ha => (hl a (List.mem_of_getLast? ha)).1)
    fun a ha => (hr a ha).1
  have hlast : left.getLast?.any (same x) = false := by
    cases ha : left.getLast? with
    | none => rfl
    | some a => exact (hl a (List.mem_of_getLast? ha)).2
  have hhead : right.head?.any (same x) = false := by
    cases ha : right.head? with
    | none => rfl
    | some a => exact (hr a (List.mem_of_head? ha)).2
  rw [backInsert, h1, h2, hlast, hhead]
  rfl

/-- One of its key is replaced exactly if the item comes before it. -/
theorem backInsert_present {y : α} {left right : List α}
    (hl : ∀ a ∈ left, lt x a = false ∧ same x a = false) (hy : same x y = true)
    (hr : ∀ a ∈ right, lt x a = true) :
    backInsert lt same x (left ++ y :: right) =
      left ++ (if lt x y then x else y) :: right := by
  cases hlt : lt x y with
  | true =>
    have hright : ∀ a ∈ y :: right, lt x a = true := by
      intro a ha
      rcases List.mem_cons.1 ha with rfl | ha
      · exact hlt
      · exact hr a ha
    obtain ⟨h1, h2⟩ := rdropWhile_cut (fun a ha => (hl a (List.mem_of_getLast? ha)).1) hright
    have hlast : left.getLast?.any (same x) = false := by
      cases ha : left.getLast? with
      | none => rfl
      | some a => exact (hl a (List.mem_of_getLast? ha)).2
    rw [backInsert, h1, h2, hlast]
    simp [hy]
  | false =>
    have hsplit : left ++ y :: right = (left ++ [y]) ++ right := by simp
    have hleft : ∀ a ∈ (left ++ [y]).getLast?, lt x a = false := by
      intro a ha
      rw [List.getLast?_concat] at ha
      cases ha
      exact hlt
    obtain ⟨h1, -⟩ := rdropWhile_cut hleft hr
    rw [backInsert, hsplit, h1]
    simp [hy]

/-- A sorted list parts at a key into the smaller ones, at most one of it, and the larger ones. -/
theorem cut_sorted {key : α → Nat} (h : l.Pairwise fun a b => key a < key b) (k : Nat) :
    ∃ left mid right, l = left ++ mid ++ right ∧ (∀ a ∈ left, key a < k) ∧
      (∀ a ∈ right, k < key a) ∧ (mid = [] ∨ ∃ y, mid = [y] ∧ key y = k) := by
  induction l with
  | nil => exact ⟨[], [], [], rfl, by simp, by simp, .inl rfl⟩
  | cons a l ih =>
    obtain ⟨ha, hl⟩ := List.pairwise_cons.1 h
    rcases Nat.lt_trichotomy (key a) k with hlt | heq | hgt
    · obtain ⟨left, mid, right, rfl, hleft, hright, hmid⟩ := ih hl
      refine ⟨a :: left, mid, right, rfl, ?_, hright, hmid⟩
      intro b hb
      rcases List.mem_cons.1 hb with rfl | hb
      · exact hlt
      · exact hleft b hb
    · exact ⟨[], [a], l, rfl, by simp, fun b hb => heq ▸ ha b hb, .inr ⟨a, rfl, heq⟩⟩
    · refine ⟨[], [], a :: l, rfl, by simp, ?_, .inl rfl⟩
      intro b hb
      rcases List.mem_cons.1 hb with rfl | hb
      · exact hgt
      · exact Nat.lt_trans hgt (ha b hb)

/-- `lt x` and `same x` compare the keys of `x` and of what is in `l`. -/
structure Follows (lt same : α → α → Bool) (key : α → Nat) (x : α) (l : List α) : Prop where
  same_eq : ∀ a ∈ l, same x a = decide (key a = key x)
  lt_eq : ∀ a ∈ l, key a ≠ key x → lt x a = decide (key x < key a)

/-- The list stays sorted. The item is new in it, or the one of its key is replaced exactly
if the item comes before it. -/
theorem Follows.backInsert_sorted {key : α → Nat} (hf : Follows lt same key x l)
    (h : l.Pairwise fun a b => key a < key b) :
    ((backInsert lt same x l).Pairwise fun a b => key a < key b) ∧
      (((∀ a ∈ l, key a ≠ key x) ∧ ∀ b, b ∈ backInsert lt same x l ↔ b = x ∨ b ∈ l) ∨
        ∃ y ∈ l, key y = key x ∧ ∀ b, b ∈ backInsert lt same x l ↔
          (b ∈ l ∧ key b ≠ key x) ∨ b = if lt x y then x else y) := by
  obtain ⟨left, mid, right, rfl, hleft, hright, hmid⟩ := cut_sorted h (key x)
  have hl : ∀ a ∈ left, lt x a = false ∧ same x a = false := by
    intro a ha
    have hmem : a ∈ left ++ mid ++ right := by simp [ha]
    have hk := hleft a ha
    rw [hf.same_eq a hmem, hf.lt_eq a hmem (by omega)]
    exact ⟨decide_eq_false (by omega), decide_eq_false (by omega)⟩
  have hr : ∀ a ∈ right, lt x a = true ∧ same x a = false := by
    intro a ha
    have hmem : a ∈ left ++ mid ++ right := by simp [ha]
    have hk := hright a ha
    rw [hf.same_eq a hmem, hf.lt_eq a hmem (by omega)]
    exact ⟨decide_eq_true hk, decide_eq_false (by omega)⟩
  have hsorted : ∀ z, key z = key x → ((left ++ mid ++ right).Pairwise fun a b => key a < key b) →
      (left ++ z :: right).Pairwise fun a b => key a < key b := by
    intro z hz h
    rw [List.append_assoc, List.pairwise_append] at h
    obtain ⟨h1, h2, -⟩ := h
    have h3 := (List.pairwise_append.1 h2).2.1
    refine List.pairwise_append.2 ⟨h1, List.pairwise_cons.2 ⟨?_, h3⟩, ?_⟩
    · intro b hb
      exact hz ▸ hright b hb
    · intro a ha b hb
      have := hleft a ha
      rcases List.mem_cons.1 hb with rfl | hb
      · omega
      · have := hright b hb
        omega
  rcases hmid with rfl | ⟨y, rfl, hy⟩
  · rw [List.append_nil] at h ⊢
    have heq := backInsert_absent hl hr
    rw [heq]
    refine ⟨hsorted x rfl (by simpa using h), .inl ⟨?_, ?_⟩⟩
    · intro a ha
      rcases List.mem_append.1 ha with ha | ha
      · have := hleft a ha
        omega
      · have := hright a ha
        omega
    · intro b
      simp only [List.mem_append, List.mem_cons]
      tauto
  · have hsame : same x y = true := by
      rw [hf.same_eq y (by simp)]
      exact decide_eq_true hy
    have heq := backInsert_present hl hsame fun a ha => (hr a ha).1
    rw [List.append_assoc, List.singleton_append, heq]
    refine ⟨hsorted _ (by split <;> [rfl; exact hy]) h, .inr ⟨y, by simp, hy, ?_⟩⟩
    intro b
    simp only [List.mem_append, List.mem_cons]
    constructor
    · rintro (hb | hb | hb)
      · have := hleft b hb
        exact .inl ⟨.inl hb, by omega⟩
      · exact .inr hb
      · have := hright b hb
        exact .inl ⟨.inr (.inr hb), by omega⟩
    · rintro (⟨hb | hb | hb, hk⟩ | hb)
      · exact .inl hb
      · exact absurd (hb ▸ hy) hk
      · exact .inr (.inr hb)
      · exact .inr (.inl hb)

end RtcCore
