import Mathlib.Order.Basic
import RtcCore.Core.Search

/-!
# A map ordered by a comparator

`std::map` under a user's comparator, as the list of its items in order: an item
is looked up, put in and taken out at a place that a descent through the search
tree finds, whatever the tree's shape is. Where the comparator is a strict weak
order on the keys the map behaves as one (`find?_eq_some_iff`, `insert_sorted`,
`erase_sorted`, `mem_insert`, `mem_erase`).

A comparator that is `¬ b ≤ a` of a partial order is a strict weak order exactly
where no two keys are incomparable (`strictWeakOn_iff`).
-/
namespace RtcCore

variable {α κ : Type}

/-! ## Comparators -/

/-- What `std::map` requires of its comparator, on the keys in `S`. -/
structure StrictWeakOn (lt : κ → κ → Bool) (S : κ → Prop) : Prop where
  irrefl : ∀ {a}, S a → lt a a = false
  trans : ∀ {a b c}, S a → S b → S c → lt a b = true → lt b c = true → lt a c = true
  equiv_trans : ∀ {a b c}, S a → S b → S c → lt a b = false → lt b a = false →
    lt b c = false → lt c b = false → lt a c = false ∧ lt c a = false

namespace StrictWeakOn

variable {lt : κ → κ → Bool} {S : κ → Prop} (h : StrictWeakOn lt S) {a b c : κ}
include h

theorem asymm (ha : S a) (hb : S b) (hab : lt a b = true) : lt b a = false := by
  rw [← Bool.not_eq_true]
  intro hba
  have := h.trans ha hb ha hab hba
  rw [h.irrefl ha] at this
  cases this

/-- What is between two keys is beyond the first or before the second. -/
theorem cotrans (ha : S a) (hb : S b) (hc : S c) (hab : lt a b = true) (hac : lt a c = false) :
    lt c b = true := by
  by_contra hcb
  rw [Bool.not_eq_true] at hcb
  have hca : lt c a = false := by
    rw [← Bool.not_eq_true]
    intro hca
    rw [h.trans hc ha hb hca hab] at hcb
    cases hcb
  have hbc : lt b c = false := by
    rw [← Bool.not_eq_true]
    intro hbc
    rw [h.trans ha hb hc hab hbc] at hac
    cases hac
  have := (h.equiv_trans ha hc hb hac hca hcb hbc).1
  rw [hab] at this
  cases this

end StrictWeakOn

/-- A comparator that holds unless the keys are the other way round in a partial order is one to
rely on only where the partial order is total, and there it tells apart what the order does. -/
theorem strictWeakOn_iff {P : Type} [PartialOrder P] {lt : κ → κ → Bool} {rank : κ → P}
    (hlt : ∀ a b, lt a b = true ↔ ¬ rank b ≤ rank a) (S : κ → Prop) :
    (StrictWeakOn lt S ∧ ∀ a b, S a → S b →
        ((lt a b = false ∧ lt b a = false) ↔ rank a = rank b)) ↔
      ∀ a b, S a → S b → rank a ≤ rank b ∨ rank b ≤ rank a := by
  have hnot : ∀ a b, lt a b = false ↔ rank b ≤ rank a := fun a b => by
    rw [← Bool.not_eq_true, hlt, not_not]
  constructor
  · rintro ⟨h, -⟩ a b ha hb
    by_contra hc
    rw [not_or] at hc
    have hloop := h.trans ha hb ha ((hlt a b).2 hc.2) ((hlt b a).2 hc.1)
    rw [h.irrefl ha] at hloop
    cases hloop
  · intro htotal
    have hequiv : ∀ a b, (lt a b = false ∧ lt b a = false) ↔ rank a = rank b := fun a b => by
      rw [hnot, hnot]
      exact ⟨fun h => le_antisymm h.2 h.1, fun h => ⟨h.ge, h.le⟩⟩
    refine ⟨⟨fun _ => (hnot _ _).2 le_rfl, ?_, ?_⟩, fun a b _ _ => hequiv a b⟩
    · intro a b c ha hb hc hab hbc
      rw [hlt] at hab hbc ⊢
      intro hca
      have hab' := (htotal a b ha hb).resolve_right hab
      exact hbc (hca.trans hab')
    · intro a b c _ _ _ hab hba hbc hcb
      exact (hequiv a c).2 (((hequiv a b).1 ⟨hab, hba⟩).trans ((hequiv b c).1 ⟨hbc, hcb⟩))

/-! ## The map -/

namespace ComparedMap

variable (search : Search κ) (lt : κ → κ → Bool) (key : α → κ)

/-- The first item that is not less than the key, and all behind it. -/
def lowerBound (k : κ) (l : List α) : List α := l.drop (search.bound (fun y => lt y k) (l.map key))

def find? (k : κ) (l : List α) : Option α :=
  (lowerBound search lt key k l).head?.filter fun x => !lt k (key x)

/-- Behind everything the new key is not less than. -/
def insert (x : α) (l : List α) : List α :=
  let i := search.bound (fun y => !lt (key x) y) (l.map key)
  l.take i ++ x :: l.drop i

def erase (k : κ) (l : List α) : List α :=
  let i := search.bound (fun y => lt y k) (l.map key)
  match find? search lt key k l with
  | some _ => l.take i ++ l.drop (i + 1)
  | none => l

/-- The items are in order, and their keys are such that there is one. -/
structure Sorted (S : κ → Prop) (l : List α) : Prop where
  keys : ∀ x ∈ l, S (key x)
  order : l.Pairwise fun a b => lt (key a) (key b) = true

variable {search lt key} {S : κ → Prop} {l : List α} {x : α} {k : κ}

theorem mem_insert {y : α} : y ∈ insert search lt key x l ↔ y = x ∨ y ∈ l := by
  rw [insert, List.mem_append, List.mem_cons]
  conv => rhs; rw [← List.take_append_drop (search.bound (fun y => !lt (key x) y) (l.map key)) l]
  rw [List.mem_append, or_left_comm]

section Ordered

variable (h : StrictWeakOn lt S) (hl : Sorted lt key S l)
include h hl

theorem downward_lt (hk : S k) : Downward (fun x => lt (key x) k) l := by
  refine hl.order.imp_of_mem fun {a b} ha hb hab hbk => ?_
  exact h.trans (hl.keys a ha) (hl.keys b hb) hk hab hbk

theorem lowerBound_eq (hk : S k) :
    lowerBound search lt key k l = l.filter fun x => !lt (key x) k :=
  search.drop_bound (p := fun y => lt y k) (downward_lt h hl hk)

/-- The item found is the one with an equivalent key. -/
theorem find?_eq_some_iff (hk : S k) :
    find? search lt key k l = some x ↔
      x ∈ l ∧ lt (key x) k = false ∧ lt k (key x) = false := by
  rw [find?, lowerBound_eq h hl hk, Option.filter_eq_some_iff, List.head?_filter,
    Bool.not_eq_true']
  constructor
  · rintro ⟨hfound, hle⟩
    have hx := List.find?_some hfound
    rw [Bool.not_eq_true'] at hx
    exact ⟨List.mem_of_find?_eq_some hfound, hx, hle⟩
  · rintro ⟨hmem, hge, hle⟩
    refine ⟨?_, hle⟩
    obtain ⟨a, b, rfl⟩ := List.append_of_mem hmem
    have hbefore : ∀ y ∈ a, lt (key y) k = true := by
      intro y hy
      have hyx := (List.pairwise_append.1 hl.order).2.2 y hy x (List.mem_cons_self ..)
      by_contra hc
      rw [Bool.not_eq_true] at hc
      have := h.cotrans (hl.keys y (List.mem_append_left _ hy)) (hl.keys x hmem) hk hyx hc
      rw [hle] at this
      cases this
    have hnone : a.find? (fun y => !lt (key y) k) = none :=
      List.find?_eq_none.2 fun y hy => by simp [hbefore y hy]
    rw [List.find?_append, hnone, Option.none_or, List.find?_cons, hge]
    rfl

theorem find?_eq_none_iff (hk : S k) :
    find? search lt key k l = none ↔
      ∀ x ∈ l, lt (key x) k = false → lt k (key x) = true := by
  rw [Option.eq_none_iff_forall_ne_some]
  constructor
  · intro hnone x hx hge
    by_contra hle
    rw [Bool.not_eq_true] at hle
    exact hnone x ((find?_eq_some_iff h hl hk).2 ⟨hx, hge, hle⟩)
  · intro hall x hfound
    obtain ⟨hx, hge, hle⟩ := (find?_eq_some_iff h hl hk).1 hfound
    rw [hall x hx hge] at hle
    cases hle

theorem insert_sorted (hx : S (key x)) (hnone : find? search lt key (key x) l = none) :
    Sorted lt key S (insert search lt key x l) where
  keys y hy := by
    rcases mem_insert.1 hy with rfl | hy
    · exact hx
    · exact hl.keys y hy
  order := by
    have hnew := (find?_eq_none_iff h hl hx).1 hnone
    have hdown : Downward (fun y => !lt (key x) (key y)) l := by
      refine hl.order.imp_of_mem fun {a b} ha hb hab hxb => ?_
      rw [Bool.not_eq_true'] at hxb ⊢
      rw [← Bool.not_eq_true]
      intro hxa
      rw [h.trans hx (hl.keys a ha) (hl.keys b hb) hxa hab] at hxb
      cases hxb
    have htake := search.take_bound (p := fun y => !lt (key x) y) hdown
    have hdrop := search.drop_bound (p := fun y => !lt (key x) y) hdown
    rw [insert, List.pairwise_append]
    have horder := hl.order
    rw [← List.take_append_drop (search.bound (fun y => !lt (key x) y) (l.map key)) l,
      List.pairwise_append] at horder
    obtain ⟨hfront, hback, hacross⟩ := horder
    have hbefore : ∀ y ∈ l.take (search.bound (fun y => !lt (key x) y) (l.map key)),
        lt (key y) (key x) = true := by
      intro y hy
      have hyl := List.mem_of_mem_take hy
      rw [htake] at hy
      have hge := (List.mem_filter.1 hy).2
      rw [Bool.not_eq_true'] at hge
      by_contra hc
      rw [Bool.not_eq_true] at hc
      rw [hnew y hyl hc] at hge
      cases hge
    have hbehind : ∀ y ∈ l.drop (search.bound (fun y => !lt (key x) y) (l.map key)),
        lt (key x) (key y) = true := by
      intro y hy
      rw [hdrop] at hy
      simpa using (List.mem_filter.1 hy).2
    refine ⟨hfront, List.pairwise_cons.2 ⟨hbehind, hback⟩, ?_⟩
    intro a ha b hb
    rcases List.mem_cons.1 hb with rfl | hb
    · exact hbefore a ha
    · exact hacross a ha b hb

/-- The item found is taken out, and no other. -/
theorem erase_eq (hk : S k) :
    erase search lt key k l = l.filter fun y => lt (key y) k || lt k (key y) := by
  have htake := search.take_bound (p := fun y => lt y k) (downward_lt h hl hk)
  have hdrop := search.drop_bound (p := fun y => lt y k) (downward_lt h hl hk)
  have hsplit : l = l.filter (fun x => lt (key x) k) ++ l.filter fun x => !lt (key x) k :=
    filter_append_filter (downward_lt h hl hk)
  have hfront : (l.filter fun x => lt (key x) k).filter (fun y => lt (key y) k || lt k (key y)) =
      l.filter fun x => lt (key x) k :=
    List.filter_eq_self.2 fun y hy => by simp [(List.mem_filter.1 hy).2]
  have hparts : l.filter (fun y => lt (key y) k || lt k (key y)) =
      l.filter (fun x => lt (key x) k) ++
        (l.filter fun x => !lt (key x) k).filter fun y => lt (key y) k || lt k (key y) := by
    conv => lhs; rw [hsplit]
    rw [List.filter_append, hfront]
  rw [erase]
  split
  · rename_i x hfound
    rw [← List.drop_drop, htake, hdrop, hparts]
    congr 1
    rw [find?, lowerBound_eq h hl hk, Option.filter_eq_some_iff, Bool.not_eq_true'] at hfound
    obtain ⟨hhead, hle⟩ := hfound
    have horder := hl.order.sublist (List.filter_sublist (p := fun x => !lt (key x) k))
    have hkeys : ∀ y ∈ l.filter (fun x => !lt (key x) k), S (key y) := fun y hy =>
      hl.keys y (List.mem_filter.1 hy).1
    have hge : lt (key x) k = false := by
      simpa using (List.mem_filter.1 (List.mem_of_head? hhead)).2
    cases hrest : l.filter fun x => !lt (key x) k with
    | nil =>
      rw [hrest] at hhead
      cases hhead
    | cons y rest =>
      rw [hrest] at hhead horder hkeys
      cases hhead
      rw [List.drop_one, List.tail_cons, List.filter_cons_of_neg (by simp [hge, hle])]
      refine (List.filter_eq_self.2 fun z hz => ?_).symm
      have hxz := (List.pairwise_cons.1 horder).1 z hz
      have hz' := hkeys z (List.mem_cons_of_mem _ hz)
      have hkz := h.cotrans (hkeys x (List.mem_cons_self ..)) hz' hk hxz hge
      simp [hkz]
  · rename_i hnone
    rw [find?_eq_none_iff h hl hk] at hnone
    refine (List.filter_eq_self.2 fun y hy => ?_).symm
    cases hge : lt (key y) k with
    | true => rfl
    | false => simpa using hnone y hy hge

theorem erase_sorted (hk : S k) : Sorted lt key S (erase search lt key k l) where
  keys y hy := by
    rw [erase_eq h hl hk] at hy
    exact hl.keys y (List.mem_filter.1 hy).1
  order := by
    rw [erase_eq h hl hk]
    exact hl.order.sublist List.filter_sublist

theorem mem_erase (hk : S k) {y : α} :
    y ∈ erase search lt key k l ↔ y ∈ l ∧ (lt (key y) k = true ∨ lt k (key y) = true) := by
  rw [erase_eq h hl hk, List.mem_filter, Bool.or_eq_true]

end Ordered

end ComparedMap
end RtcCore
