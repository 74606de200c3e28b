import Mathlib.Order.Lattice

/-!
# Branch and bound in a binary tree

A node has up to two children for each further item, and a cost that no node
below it falls short of. `search` goes down the cheaper child first and looks
into the other one only if its cost does not exceed the cost of what was found.

Results:
- `search_spec`: when every node in front of an item has a child, the search
  ends at a leaf, and no leaf is cheaper.
-/
namespace RtcCore.BranchAndBound

variable {N α β : Type} [LinearOrder β] (left right : α → N → Option N) (cost : N → β)

/-- `first` was found; `second` is what is found below `bound`. -/
def pick (first bound second : N) : N :=
  if cost bound ≤ cost first then
    if cost second < cost first then second else first
  else first

def search : List α → N → N
  | [], n => n
  | a :: as, n =>
    match left a n, right a n with
    | none, none => n
    | none, some r => search as r
    | some l, none => search as l
    | some l, some r =>
      if cost l ≤ cost r then pick cost (search as l) r (search as r)
      else pick cost (search as r) l (search as l)

/-- The nodes at which no item is left. -/
inductive Leaf : List α → N → N → Prop
  | here (n : N) : Leaf [] n n
  | left {a : α} {as : List α} {n l x : N} (h : left a n = some l) (hx : Leaf as l x) :
      Leaf (a :: as) n x
  | right {a : α} {as : List α} {n r x : N} (h : right a n = some r) (hx : Leaf as r x) :
      Leaf (a :: as) n x

/-- What holds at a node holds at its children, there is a child, and none is cheaper. -/
structure Bounded (P : List α → N → Prop) : Prop where
  below_left : ∀ {a as n l}, P (a :: as) n → left a n = some l → P as l ∧ cost n ≤ cost l
  below_right : ∀ {a as n r}, P (a :: as) n → right a n = some r → P as r ∧ cost n ≤ cost r
  child : ∀ {a as n}, P (a :: as) n → left a n = none → right a n ≠ none

variable {left right cost} {P : List α → N → Prop}

theorem Leaf.le (hb : Bounded left right cost P) {as : List α} {n x : N}
    (hx : Leaf left right as n x) (h : P as n) : cost n ≤ cost x := by
  induction hx with
  | here n => exact le_refl _
  | left hl _ ih =>
    obtain ⟨hp, hle⟩ := hb.below_left h hl
    exact le_trans hle (ih hp)
  | right hr _ ih =>
    obtain ⟨hp, hle⟩ := hb.below_right h hr
    exact le_trans hle (ih hp)

theorem pick_spec (first : N) {bound second : N} (h : cost bound ≤ cost second) :
    (pick cost first bound second = first ∨ pick cost first bound second = second) ∧
      cost (pick cost first bound second) ≤ cost first ∧
      cost (pick cost first bound second) ≤ cost second := by
  unfold pick
  split
  · split
    · exact ⟨.inr rfl, le_of_lt ‹_›, le_refl _⟩
    · exact ⟨.inl rfl, le_refl _, le_of_not_gt ‹_›⟩
  · exact ⟨.inl rfl, le_refl _, le_trans (le_of_lt (lt_of_not_ge ‹_›)) h⟩

/-- The search finds a leaf, and a cheapest one. -/
theorem search_spec (hb : Bounded left right cost P) (as : List α) (n : N) (h : P as n) :
    Leaf left right as n (search left right cost as n) ∧
      ∀ x, Leaf left right as n x → cost (search left right cost as n) ≤ cost x := by
  induction as generalizing n with
  | nil =>
    refine ⟨.here n, fun x hx => ?_⟩
    cases hx
    exact le_refl _
  | cons a as ih =>
    have hl := fun l (hl : left a n = some l) => ih l (hb.below_left h hl).1
    have hr := fun r (hr : right a n = some r) => ih r (hb.below_right h hr).1
    -- what is found is below a child, and not worse than what is found below each child
    suffices hfound :
        (∃ l, left a n = some l ∧ search left right cost (a :: as) n = search left right cost as l ∨
          right a n = some l ∧ search left right cost (a :: as) n = search left right cost as l) ∧
        (∀ l, left a n = some l ∨ right a n = some l →
          cost (search left right cost (a :: as) n) ≤ cost (search left right cost as l)) by
      obtain ⟨⟨c, hc⟩, hle⟩ := hfound
      constructor
      · obtain ⟨hc, heq⟩ | ⟨hc, heq⟩ := hc
        · exact heq ▸ .left hc (hl c hc).1
        · exact heq ▸ .right hc (hr c hc).1
      · intro x hx
        cases hx with
        | left hc hx => exact le_trans (hle _ (.inl hc)) ((hl _ hc).2 x hx)
        | right hc hx => exact le_trans (hle _ (.inr hc)) ((hr _ hc).2 x hx)
    cases hleft : left a n with
    | none =>
      cases hright : right a n with
      | none => exact absurd hright (hb.child h hleft)
      | some r =>
        have heq : search left right cost (a :: as) n = search left right cost as r := by
          rw [search, hleft, hright]
        rw [heq]
        refine ⟨⟨r, .inr ⟨rfl, rfl⟩⟩, ?_⟩
        rintro c (hc | hc) <;> cases hc
        exact le_refl _
    | some l =>
      cases hright : right a n with
      | none =>
        have heq : search left right cost (a :: as) n = search left right cost as l := by
          rw [search, hleft, hright]
        rw [heq]
        refine ⟨⟨l, .inl ⟨rfl, rfl⟩⟩, ?_⟩
        rintro c (hc | hc) <;> cases hc
        exact le_refl _
      | some r =>
        have hll := (hl l hleft).1.le hb (hb.below_left h hleft).1
        have hrr := (hr r hright).1.le hb (hb.below_right h hright).1
        have heq : search left right cost (a :: as) n =
            if cost l ≤ cost r then
              pick cost (search left right cost as l) r (search left right cost as r)
            else pick cost (search left right cost as r) l (search left right cost as l) := by
          rw [search, hleft, hright]
        rw [heq]
        split
        · obtain ⟨hor, h1, h2⟩ := pick_spec (search left right cost as l) hrr
          refine ⟨?_, ?_⟩
          · obtain h | h := hor
            · exact ⟨l, .inl ⟨rfl, h⟩⟩
            · exact ⟨r, .inr ⟨rfl, h⟩⟩
          · rintro c (hc | hc) <;> cases hc
            · exact h1
            · exact h2
        · obtain ⟨hor, h1, h2⟩ := pick_spec (search left right cost as r) hll
          refine ⟨?_, ?_⟩
          · obtain h | h := hor
            · exact ⟨r, .inr ⟨rfl, h⟩⟩
            · exact ⟨l, .inl ⟨rfl, h⟩⟩
          · rintro c (hc | hc) <;> cases hc
            · exact h2
            · exact h1

end RtcCore.BranchAndBound
