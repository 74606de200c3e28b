/-!
# Bounds found by a search tree

A search tree descends to a place in the order of its items: the item before
the place satisfies the predicate, the item behind it does not. Where the
predicate is not monotone along the items there may be several such places,
and which one is found depends on the tree's shape; `Search` is any choice of
them. Where it is monotone the place is the only one (`Search.take_bound`,
`Search.drop_bound`).
-/
namespace RtcCore

variable {α β : Type}

structure Search (α : Type) where
  bound : (α → Bool) → List α → Nat
  inside : ∀ p l, bound p l ≤ l.length
  left : ∀ (p : α → Bool) (l : List α) (x : α), (l.take (bound p l)).getLast? = some x → p x = true
  right : ∀ (p : α → Bool) (l : List α) (x : α), (l.drop (bound p l)).head? = some x → p x = false

/-- The predicate holds of a front part of the items. -/
def Downward (p : α → Bool) (l : List α) : Prop :=
  l.Pairwise fun a b => p b = true → p a = true

/-- A front part that satisfies the predicate and a rest that does not. -/
theorem filter_append_filter {p : α → Bool} {l : List α} (h : Downward p l) :
    l = l.filter p ++ l.filter (!p ·) := by
  induction l with
  | nil => rfl
  | cons a l ih =>
    obtain ⟨ha, hl⟩ := List.pairwise_cons.1 h
    cases hp : p a with
    | true =>
      rw [List.filter_cons_of_pos hp, List.filter_cons_of_neg (by simp [hp]), List.cons_append,
        ← ih hl]
    | false =>
      have hnone : ∀ b ∈ l, p b = false := by
        intro b hb
        cases hb' : p b with
        | false => rfl
        | true => exact absurd (ha b hb hb') (by simp [hp])
      rw [List.filter_cons_of_neg (by simp [hp]), List.filter_cons_of_pos (by simp [hp]),
        List.filter_eq_nil_iff.2 (by simpa using hnone), List.nil_append,
        List.filter_eq_self.2 (by simpa using hnone)]

namespace Search

variable (s : Search α)

theorem bound_append {p : α → Bool} {a b : List α} (ha : ∀ x ∈ a, p x = true)
    (hb : ∀ x ∈ b, p x = false) : s.bound p (a ++ b) = a.length := by
  obtain ⟨i, hi⟩ : ∃ i, i = s.bound p (a ++ b) := ⟨_, rfl⟩
  have hle : a.length ≤ i := by
    refine Nat.not_lt.1 fun hlt => ?_
    have hhead : ((a ++ b).drop (s.bound p (a ++ b))).head? = some (a[i]) := by
      rw [← hi, List.head?_drop, List.getElem?_append_left hlt, List.getElem?_eq_getElem hlt]
    have := s.right p (a ++ b) _ hhead
    rw [ha _ (List.getElem_mem hlt)] at this
    cases this
  have hin := s.inside p (a ++ b)
  rw [← hi] at hin ⊢
  rw [List.length_append] at hin
  refine Nat.le_antisymm (Nat.not_lt.1 fun hlt => ?_) hle
  -- a place past the front has an item of the rest before it
  have htake : (a ++ b).take (s.bound p (a ++ b)) = a ++ b.take (i - a.length) := by
    rw [← hi, List.take_append, List.take_of_length_le hle]
  have hne : b.take (i - a.length) ≠ [] := by
    intro hc
    have := congrArg List.length hc
    rw [List.length_take, List.length_nil] at this
    omega
  obtain ⟨x, hx⟩ : ∃ x, (b.take (i - a.length)).getLast? = some x :=
    ⟨_, List.getLast?_eq_some_getLast hne⟩
  have hlast := s.left p (a ++ b) x (by rw [htake, List.getLast?_append, hx]; rfl)
  rw [hb x (List.mem_of_mem_take (List.mem_of_getLast? hx))] at hlast
  cases hlast

section Bound

variable {p : α → Bool} {f : β → α} {l : List β} (h : Downward (fun x => p (f x)) l)
include h

theorem bound_map : s.bound p (l.map f) = (l.filter fun x => p (f x)).length := by
  have ha : ∀ x ∈ (l.filter fun x => p (f x)).map f, p x = true := by
    intro x hx
    obtain ⟨y, hy, rfl⟩ := List.mem_map.1 hx
    exact (List.mem_filter.1 hy).2
  have hb : ∀ x ∈ (l.filter fun x => !p (f x)).map f, p x = false := by
    intro x hx
    obtain ⟨y, hy, rfl⟩ := List.mem_map.1 hx
    simpa using (List.mem_filter.1 hy).2
  have hbound := s.bound_append ha hb
  rw [← List.map_append, ← filter_append_filter h, List.length_map] at hbound
  exact hbound

/-- Before the place stand the items that satisfy the predicate. -/
theorem take_bound : l.take (s.bound p (l.map f)) = l.filter fun x => p (f x) := by
  rw [s.bound_map h]
  conv => lhs; arg 2; rw [filter_append_filter h]
  exact List.take_left

theorem drop_bound : l.drop (s.bound p (l.map f)) = l.filter fun x => !p (f x) := by
  rw [s.bound_map h]
  conv => lhs; arg 2; rw [filter_append_filter h]
  exact List.drop_left

end Bound

theorem takeWhile_split (p : α → Bool) (l : List α) :
    l.take (l.takeWhile p).length = l.takeWhile p ∧
      l.drop (l.takeWhile p).length = l.dropWhile p := by
  induction l with
  | nil => exact ⟨rfl, rfl⟩
  | cons a l ih =>
    cases hp : p a with
    | true =>
      rw [List.takeWhile_cons_of_pos hp, List.dropWhile_cons_of_pos hp, List.length_cons,
        List.take_succ_cons, List.drop_succ_cons, ih.1, ih.2]
      exact ⟨rfl, rfl⟩
    | false =>
      rw [List.takeWhile_cons_of_neg (by simp [hp]), List.dropWhile_cons_of_neg (by simp [hp])]
      exact ⟨rfl, rfl⟩

/-- The first place, found by going through the items. -/
def linear : Search α where
  bound p l := (l.takeWhile p).length
  inside p l := (List.takeWhile_sublist p).length_le
  left p l x h := by
    rw [(takeWhile_split p l).1] at h
    exact List.all_eq_true.1 List.all_takeWhile x (List.mem_of_getLast? h)
  right p l x h := by
    rw [(takeWhile_split p l).2] at h
    have := List.head?_dropWhile_not p l
    rw [h] at this
    exact this

/-- Behind the last item that satisfies the predicate. -/
def lastBound (p : α → Bool) : List α → Nat
  | [] => 0
  | a :: l => if lastBound p l = 0 then if p a then 1 else 0 else lastBound p l + 1

theorem lastBound_spec (p : α → Bool) (l : List α) :
    lastBound p l ≤ l.length ∧
      (∀ x, (l.take (lastBound p l)).getLast? = some x → p x = true) ∧
        ∀ x ∈ l.drop (lastBound p l), p x = false := by
  induction l with
  | nil => exact ⟨Nat.le_refl _, fun _ h => (nomatch h), fun _ h => (nomatch h)⟩
  | cons a l ih =>
    obtain ⟨hle, hleft, hright⟩ := ih
    rw [lastBound]
    split
    · rename_i hzero
      rw [hzero, List.drop_zero] at hright
      split
      · rename_i ha
        refine ⟨by simp, fun x hx => ?_, by simpa using hright⟩
        rw [List.take_succ_cons, List.take_zero, List.getLast?_singleton] at hx
        cases hx
        exact ha
      · rename_i ha
        rw [Bool.not_eq_true] at ha
        refine ⟨Nat.zero_le _, fun _ h => (nomatch h), fun x hx => ?_⟩
        rcases List.mem_cons.1 hx with rfl | hx
        · exact ha
        · exact hright x hx
    · rename_i hpos
      refine ⟨Nat.succ_le_succ hle, fun x hx => hleft x ?_, hright⟩
      have hne : l.take (lastBound p l) ≠ [] := by
        rw [ne_eq, List.take_eq_nil_iff, not_or]
        refine ⟨hpos, ?_⟩
        rintro rfl
        exact hpos rfl
      rw [List.take_succ_cons, List.getLast?_cons_of_ne_nil hne] at hx
      exact hx

def last : Search α where
  bound := lastBound
  inside p l := (lastBound_spec p l).1
  left p l x h := (lastBound_spec p l).2.1 x h
  right p l x h := (lastBound_spec p l).2.2 x (List.mem_of_head? h)

/-- Dropping while the predicate holds drops all that satisfy it. -/
theorem dropWhile_eq_filter {p : α → Bool} {l : List α} (h : Downward p l) :
    l.dropWhile p = l.filter (!p ·) := by
  have hdrop : l.drop (linear.bound p (l.map id)) = l.filter (!p ·) := linear.drop_bound h
  rw [List.map_id] at hdrop
  exact (takeWhile_split p l).2.symm.trans hdrop

end Search

end RtcCore
