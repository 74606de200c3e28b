import Mathlib.Data.List.Sort

/-!
# Lists sorted by a comparison that is an order only in places

`std::list::sort` and `std::set_intersection` with a comparison of keys. On a
set of keys on which the comparison is that of ranks (`Ranked`), they sort and
intersect. Elsewhere their results are what the stable insertion sort and the
walk along both lists give.

Results:
- `sortBy_strict`: distinct keys come out in strict order.
- `mem_setIntersection`: the items of the first list whose keys are in the
  second one.
-/
namespace RtcCore

variable {κ α β : Type}

/-- On the keys `S`, `less` compares ranks. -/
structure Ranked (less : κ → κ → Bool) (S : κ → Prop) where
  rank : κ → Nat
  inj : ∀ {a b}, S a → S b → rank a = rank b → a = b
  less_eq : ∀ {a b}, S a → S b → less a b = decide (rank a < rank b)

/-- Sorted by `less`, items that it does not part in their order. -/
def sortBy (less : κ → κ → Bool) (key : α → κ) (l : List α) : List α :=
  l.insertionSort fun a b => less (key b) (key a) = false

/-- The walk along both lists ends with either. -/
def setIntersection (less : κ → κ → Bool) (f : α → κ) (g : β → κ) : List α → List β → List α
  | [], _ => []
  | a :: as, bs =>
    match bs.dropWhile fun b => less (g b) (f a) with
    | [] => []
    | b :: rest =>
      if less (f a) (g b) then setIntersection less f g as (b :: rest)
      else a :: setIntersection less f g as rest

variable {less : κ → κ → Bool} {S : κ → Prop} {key f : α → κ} {g : β → κ}

theorem sortBy_perm (less : κ → κ → Bool) (key : α → κ) (l : List α) :
    (sortBy less key l).Perm l := List.perm_insertionSort _ l

theorem Ranked.less_iff (r : Ranked less S) {a b : κ} (ha : S a) (hb : S b) :
    less a b = true ↔ r.rank a < r.rank b := by
  rw [r.less_eq ha hb, decide_eq_true_iff]

theorem Ranked.less_false (r : Ranked less S) {a b : κ} (ha : S a) (hb : S b) :
    less a b = false ↔ r.rank b ≤ r.rank a := by
  rw [r.less_eq ha hb, decide_eq_false_iff_not, Nat.not_lt]

theorem sortBy_strict (r : Ranked less S) {l : List α} (hS : ∀ a ∈ l, S (key a))
    (hnodup : (l.map key).Nodup) :
    (sortBy less key l).Pairwise fun a b => less (key a) (key b) = true := by
  have hperm := sortBy_perm less key l
  have hS' : ∀ a ∈ sortBy less key l, S (key a) := fun a ha => hS a (hperm.mem_iff.1 ha)
  have hle : ((sortBy less key l).map fun a => r.rank (key a)).Pairwise (· ≤ ·) := by
    have hmap := List.map_insertionSort (fun a b => less (key b) (key a) = false) (· ≤ ·)
      (fun a => r.rank (key a)) l fun a ha b hb => r.less_false (hS b hb) (hS a ha)
    rw [sortBy, hmap]
    exact List.pairwise_insertionSort (· ≤ ·) _
  have hne : (sortBy less key l).Pairwise fun a b => key a ≠ key b := by
    have := (hperm.map key).nodup_iff.2 hnodup
    exact List.pairwise_map.1 this
  rw [List.pairwise_map] at hle
  refine (hle.and hne).imp_of_mem ?_
  rintro a b ha hb ⟨h, hab⟩
  rw [r.less_iff (hS' a ha) (hS' b hb)]
  exact Nat.lt_of_le_of_ne h fun heq => hab (r.inj (hS' a ha) (hS' b hb) heq)

theorem setIntersection_sublist (r : Ranked less S) : ∀ (as : List α) (bs : List β),
    (∀ a ∈ as, S (f a)) → (∀ b ∈ bs, S (g b)) →
    ((setIntersection less f g as bs).map f).Sublist (bs.map g) := by
  intro as
  induction as with
  | nil => intro bs _ _; exact List.nil_sublist _
  | cons a as ih =>
    intro bs ha hb
    have hsub : (bs.dropWhile fun b => less (g b) (f a)).Sublist bs := List.dropWhile_sublist _
    rw [setIntersection]
    split
    · exact List.nil_sublist _
    · rename_i b rest heq
      rw [heq] at hsub
      have hrest : ∀ c ∈ b :: rest, S (g c) := fun c hc => hb c (hsub.subset hc)
      have has : ∀ c ∈ as, S (f c) := fun c hc => ha c (List.mem_cons_of_mem _ hc)
      split
      · exact (ih _ has hrest).trans (hsub.map g)
      · rename_i hless
        have hstop : less (g b) (f a) = false := by
          have := List.head?_dropWhile_not (fun b => less (g b) (f a)) bs
          rw [heq] at this
          simpa using this
        have hkey : f a = g b := by
          have hfa := ha a (List.mem_cons_self ..)
          have hgb := hrest b (List.mem_cons_self ..)
          refine r.inj hfa hgb (Nat.le_antisymm ?_ ?_)
          · exact (r.less_false hgb hfa).1 hstop
          · exact (r.less_false hfa hgb).1 (Bool.eq_false_iff.2 hless)
        refine List.Sublist.trans ?_ (hsub.map g)
        rw [List.map_cons, List.map_cons, hkey]
        exact (ih rest has fun c hc => hrest c (List.mem_cons_of_mem _ hc)).cons_cons _

theorem mem_setIntersection (r : Ranked less S) : ∀ (as : List α) (bs : List β),
    (∀ a ∈ as, S (f a)) → (∀ b ∈ bs, S (g b)) →
    (as.Pairwise fun a b => less (f a) (f b) = true) →
    (bs.Pairwise fun a b => less (g a) (g b) = true) → ∀ c,
    c ∈ setIntersection less f g as bs ↔ c ∈ as ∧ ∃ b ∈ bs, g b = f c := by
  intro as
  induction as with
  | nil => intro bs _ _ _ _ c; simp [setIntersection]
  | cons a as ih =>
    intro bs ha hb hsa hsb c
    have hfa := ha a (List.mem_cons_self ..)
    have has : ∀ c ∈ as, S (f c) := fun c hc => ha c (List.mem_cons_of_mem _ hc)
    obtain ⟨hlater, hsa'⟩ := List.pairwise_cons.1 hsa
    have hrank : ∀ c ∈ as, r.rank (f a) < r.rank (f c) := fun c hc =>
      (r.less_iff hfa (has c hc)).1 (hlater c hc)
    -- what is skipped ranks before `a`
    have hskip : ∀ b ∈ bs.takeWhile fun b => less (g b) (f a), r.rank (g b) < r.rank (f a) := by
      intro b hmem
      have hS := hb b ((List.takeWhile_sublist _).subset hmem)
      exact (r.less_iff hS hfa).1 (List.all_eq_true.1 List.all_takeWhile b hmem)
    have hsplit := List.takeWhile_append_dropWhile (p := fun b => less (g b) (f a)) (l := bs)
    generalize bs.takeWhile (fun b => less (g b) (f a)) = skipped at hskip hsplit
    have hstop := List.head?_dropWhile_not (fun b => less (g b) (f a)) bs
    rw [setIntersection]
    split
    · rename_i heq
      rw [heq, List.append_nil] at hsplit
      rw [← hsplit]
      refine ⟨fun h => absurd h List.not_mem_nil, ?_⟩
      rintro ⟨hc, b, hmem, hkey⟩
      have hlt := hskip b hmem
      rw [hkey] at hlt
      obtain rfl | hc := List.mem_cons.1 hc
      · exact absurd hlt (Nat.lt_irrefl _)
      · exact absurd (hrank c hc) (Nat.lt_asymm hlt)
    · rename_i b rest heq
      rw [heq] at hsplit hstop
      rw [← hsplit] at hb hsb
      have hgb : S (g b) := hb b (by simp)
      have hrest : ∀ x ∈ b :: rest, S (g x) := fun x hx => hb x (List.mem_append_right _ hx)
      obtain ⟨-, hsb', -⟩ := List.pairwise_append.1 hsb
      obtain ⟨hbehind, hsb''⟩ := List.pairwise_cons.1 hsb'
      have hafter : ∀ x ∈ rest, r.rank (g b) < r.rank (g x) := fun x hx =>
        (r.less_iff hgb (hrest x (List.mem_cons_of_mem _ hx))).1 (hbehind x hx)
      have hle : r.rank (f a) ≤ r.rank (g b) := (r.less_false hgb hfa).1 (by simpa using hstop)
      -- an item behind `a` is not met in what is skipped
      have hmeets : ∀ c ∈ as, (∃ x ∈ bs, g x = f c) ↔ ∃ x ∈ b :: rest, g x = f c := by
        intro c hc
        rw [← hsplit]
        constructor
        · rintro ⟨x, hx, hkey⟩
          obtain hx | hx := List.mem_append.1 hx
          · have hlt := hskip x hx
            rw [hkey] at hlt
            exact absurd (hrank c hc) (Nat.lt_asymm hlt)
          · exact ⟨x, hx, hkey⟩
        · rintro ⟨x, hx, hkey⟩
          exact ⟨x, List.mem_append_right _ hx, hkey⟩
      split
      · rename_i hless
        have hlt := (r.less_iff hfa hgb).1 hless
        rw [ih _ has hrest hsa' hsb' c]
        constructor
        · rintro ⟨hc, hx⟩
          exact ⟨List.mem_cons_of_mem _ hc, (hmeets c hc).2 hx⟩
        · rintro ⟨hc, hx⟩
          obtain rfl | hc := List.mem_cons.1 hc
          · rw [← hsplit] at hx
            obtain ⟨x, hx, hkey⟩ := hx
            obtain hx | hx := List.mem_append.1 hx
            · have := hskip x hx
              rw [hkey] at this
              exact absurd this (Nat.lt_irrefl _)
            · obtain rfl | hx := List.mem_cons.1 hx
              · rw [hkey] at hlt
                exact absurd hlt (Nat.lt_irrefl _)
              · have := hafter x hx
                rw [hkey] at this
                exact absurd hlt (Nat.lt_asymm this)
          · exact ⟨hc, (hmeets c hc).1 hx⟩
      · rename_i hless
        have hge := (r.less_false hfa hgb).1 (Bool.eq_false_iff.2 hless)
        have hkey : g b = f a := r.inj hgb hfa (Nat.le_antisymm hge hle)
        rw [List.mem_cons, List.mem_cons,
          ih rest has (fun x hx => hrest x (List.mem_cons_of_mem _ hx)) hsa' hsb'' c]
        constructor
        · rintro (rfl | ⟨hc, x, hx, hxc⟩)
          · refine ⟨.inl rfl, b, ?_, hkey⟩
            rw [← hsplit]
            exact List.mem_append_right _ (List.mem_cons_self ..)
          · exact ⟨.inr hc, (hmeets c hc).2 ⟨x, List.mem_cons_of_mem _ hx, hxc⟩⟩
        · rintro ⟨rfl | hc, hx⟩
          · exact .inl rfl
          · obtain ⟨x, hx, hxc⟩ := (hmeets c hc).1 hx
            obtain rfl | hx := List.mem_cons.1 hx
            · have := hrank c hc
              rw [← hxc, hkey] at this
              exact absurd this (Nat.lt_irrefl _)
            · exact .inr ⟨hc, x, hx, hxc⟩

end RtcCore
