/-!
# Binary heaps

`std::priority_queue` over a vector, under a user-supplied comparator, the way
the standard library keeps it: `push` lets the new element rise from the last
place, `pop` moves the last element to the front, lets it sink to a leaf along
the greater children and rise from there. `cmp x y` says that `x` comes after
`y`; nothing is assumed of it by the operations.

Results:
- `push_perm`, `pop_perm`: no element is lost or made up, whatever `cmp` is.
- `IsHeap.push`, `IsHeap.pop`, `IsHeap.top`: where `cmp` is a strict weak order
  on the elements, the front is never behind another element.
- `drain_sorted`: popping until the heap is empty sorts.
-/
namespace RtcCore.Heap

variable {α : Type} (cmp : α → α → Bool)

def swap (h : List α) (i j : Nat) : List α :=
  match h[i]?, h[j]? with
  | some x, some y => (h.set i y).set j x
  | _, _ => h

/-- The element at `i` rises while its parent comes after it. -/
def siftUp : Nat → List α → Nat → List α
  | 0, h, _ => h
  | fuel + 1, h, i =>
    if i = 0 then h
    else
      match h[(i - 1) / 2]?, h[i]? with
      | some p, some v =>
        if cmp p v then siftUp fuel (swap h i ((i - 1) / 2)) ((i - 1) / 2) else h
      | _, _ => h

/-- The child that does not come after the other. -/
def greaterChild (h : List α) (i : Nat) : Nat :=
  match h[2 * i + 2]?, h[2 * i + 1]? with
  | some r, some l => if cmp r l then 2 * i + 1 else 2 * i + 2
  | _, _ => 2 * i + 1

/-- The element at `i` sinks to a leaf; the heap, and where the leaf is. -/
def siftDown : Nat → List α → Nat → List α × Nat
  | 0, h, i => (h, i)
  | fuel + 1, h, i =>
    if 2 * i + 1 < h.length then
      siftDown fuel (swap h i (greaterChild cmp h i)) (greaterChild cmp h i)
    else (h, i)

def push (h : List α) (v : α) : List α := siftUp cmp h.length (h ++ [v]) h.length

def pop : List α → Option (α × List α)
  | [] => none
  | x :: rest =>
    match rest.getLast? with
    | none => some (x, [])
    | some v =>
      let (h, i) := siftDown cmp rest.length (v :: rest.dropLast) 0
      some (x, siftUp cmp rest.length h i)

/-- What `pop` returns until nothing is left. -/
def drain : Nat → List α → List α
  | 0, _ => []
  | fuel + 1, h =>
    match pop cmp h with
    | none => []
    | some (x, h) => x :: drain fuel h

variable {cmp} {h : List α} {i j k : Nat}

/-! ## The elements -/

theorem swap_length (h : List α) (i j : Nat) : (swap h i j).length = h.length := by
  unfold swap
  split
  · rw [List.length_set, List.length_set]
  · rfl

theorem swap_perm (h : List α) (i j : Nat) : (swap h i j).Perm h := by
  unfold swap
  split
  · rename_i x y hx hy
    obtain ⟨hi, rfl⟩ := List.getElem?_eq_some_iff.1 hx
    obtain ⟨hj, rfl⟩ := List.getElem?_eq_some_iff.1 hy
    exact List.set_set_perm hi hj
  · exact .refl _

theorem siftUp_perm : ∀ (fuel : Nat) (h : List α) (i : Nat), (siftUp cmp fuel h i).Perm h
  | 0, _, _ => .refl _
  | fuel + 1, h, i => by
    unfold siftUp
    split
    · exact .refl _
    · split
      · split
        · exact (siftUp_perm fuel _ _).trans (swap_perm h _ _)
        · exact .refl _
      · exact .refl _

theorem siftDown_perm : ∀ (fuel : Nat) (h : List α) (i : Nat), (siftDown cmp fuel h i).1.Perm h
  | 0, _, _ => .refl _
  | fuel + 1, h, i => by
    unfold siftDown
    split
    · exact (siftDown_perm fuel _ _).trans (swap_perm h _ _)
    · exact .refl _

theorem push_perm (h : List α) (v : α) : (push cmp h v).Perm (v :: h) :=
  (siftUp_perm _ _ _).trans List.perm_append_comm

theorem pop_perm {x : α} {h' : List α} (hp : pop cmp h = some (x, h')) : h.Perm (x :: h') := by
  cases h with
  | nil => cases hp
  | cons y rest =>
    unfold pop at hp
    dsimp only at hp
    split at hp
    · rename_i hlast
      cases hp
      rw [List.getLast?_eq_none_iff.1 hlast]
    · rename_i v hlast
      cases hp
      have hrest : rest = rest.dropLast ++ [v] := by
        obtain ⟨l, rfl⟩ := List.getLast?_eq_some_iff.1 hlast
        rw [List.dropLast_concat]
      refine List.Perm.cons x ?_
      refine List.Perm.trans ?_ ((siftUp_perm _ _ _).trans (siftDown_perm _ _ _)).symm
      rw [hrest, List.dropLast_concat]
      exact List.perm_append_comm

theorem pop_isSome (h : List α) : (pop cmp h).isSome = !h.isEmpty := by
  cases h with
  | nil => rfl
  | cons x rest =>
    unfold pop
    dsimp only
    split <;> rfl

theorem drain_perm : ∀ (fuel : Nat) (h : List α), h.length ≤ fuel → (drain cmp fuel h).Perm h
  | 0, h, hl => by
    rw [List.eq_nil_of_length_eq_zero (Nat.le_zero.1 hl)]
    exact .refl _
  | fuel + 1, h, hl => by
    unfold drain
    split
    · rename_i hp
      have := @pop_isSome _ cmp h
      rw [hp] at this
      cases h with
      | nil => exact .refl _
      | cons => cases this
    · rename_i x h' hp
      have hperm := pop_perm hp
      have hlen := hperm.length_eq
      rw [List.length_cons] at hlen
      exact ((drain_perm fuel h' (by omega)).cons x).trans hperm.symm

/-! ## The order -/

/-- A strict weak order on the elements of `l`. -/
structure StrictWeak (cmp : α → α → Bool) (l : List α) : Prop where
  irrefl : ∀ x ∈ l, cmp x x = false
  trans : ∀ x ∈ l, ∀ y ∈ l, ∀ z ∈ l, cmp x y = true → cmp y z = true → cmp x z = true
  incomp : ∀ x ∈ l, ∀ y ∈ l, ∀ z ∈ l, cmp x y = false → cmp y x = false → cmp y z = false →
    cmp z y = false → cmp x z = false

namespace StrictWeak

variable {l : List α} {x y z : α}

theorem asymm (h : StrictWeak cmp l) (hx : x ∈ l) (hy : y ∈ l) (hxy : cmp x y = true) :
    cmp y x = false := by
  cases hyx : cmp y x with
  | false => rfl
  | true =>
    have := h.trans x hx y hy x hx hxy hyx
    rw [h.irrefl x hx] at this
    exact this.symm

theorem le_trans (h : StrictWeak cmp l) (hx : x ∈ l) (hy : y ∈ l) (hz : z ∈ l)
    (hxy : cmp x y = false) (hyz : cmp y z = false) : cmp x z = false := by
  cases hyx : cmp y x with
  | true =>
    refine Bool.eq_false_iff.2 fun hxz => ?_
    rw [h.trans y hy x hx z hz hyx hxz] at hyz
    cases hyz
  | false =>
    cases hzy : cmp z y with
    | true =>
      refine Bool.eq_false_iff.2 fun hxz => ?_
      rw [h.trans x hx z hz y hy hxz hzy] at hxy
      cases hxy
    | false => exact h.incomp x hx y hy z hz hxy hyx hyz hzy

theorem of_perm {l' : List α} (h : StrictWeak cmp l) (hp : l.Perm l') : StrictWeak cmp l' where
  irrefl x hx := h.irrefl x (hp.mem_iff.2 hx)
  trans x hx y hy z hz := h.trans x (hp.mem_iff.2 hx) y (hp.mem_iff.2 hy) z (hp.mem_iff.2 hz)
  incomp x hx y hy z hz := h.incomp x (hp.mem_iff.2 hx) y (hp.mem_iff.2 hy) z (hp.mem_iff.2 hz)

theorem subset {l' : List α} (h : StrictWeak cmp l) (hs : ∀ x ∈ l', x ∈ l) : StrictWeak cmp l' where
  irrefl x hx := h.irrefl x (hs x hx)
  trans x hx y hy z hz := h.trans x (hs x hx) y (hs y hy) z (hs z hz)
  incomp x hx y hy z hz := h.incomp x (hs x hx) y (hs y hy) z (hs z hz)

end StrictWeak

/-- What stands at `i` does not come after what stands at `j`. -/
def Le (cmp : α → α → Bool) (h : List α) (i j : Nat) : Prop :=
  ∀ x y, h[i]? = some x → h[j]? = some y → cmp x y = false

/-- No element comes after its parent's place. -/
def IsHeap (cmp : α → α → Bool) (h : List α) : Prop := ∀ j, 0 < j → Le cmp h ((j - 1) / 2) j

/-- A heap but for the element at `i`, which may belong higher up. -/
structure Rising (cmp : α → α → Bool) (h : List α) (i : Nat) : Prop where
  others : ∀ j, 0 < j → j ≠ i → Le cmp h ((j - 1) / 2) j
  across : 0 < i → ∀ j, 0 < j → (j - 1) / 2 = i → Le cmp h ((i - 1) / 2) j

/-- A heap but for the element at `i`, which may belong anywhere. -/
structure Sinking (cmp : α → α → Bool) (h : List α) (i : Nat) : Prop where
  others : ∀ j, 0 < j → j ≠ i → (j - 1) / 2 ≠ i → Le cmp h ((j - 1) / 2) j
  across : 0 < i → ∀ j, 0 < j → (j - 1) / 2 = i → Le cmp h ((i - 1) / 2) j

theorem swap_get (hi : i < h.length) (hj : j < h.length) (k : Nat) :
    (swap h i j)[k]? = if k = j then h[i]? else if k = i then h[j]? else h[k]? := by
  rw [swap, List.getElem?_eq_getElem hi, List.getElem?_eq_getElem hj]
  dsimp only
  rw [List.getElem?_set, List.getElem?_set, List.length_set]
  by_cases hkj : j = k
  · rw [if_pos hkj, if_pos (by omega), if_pos hkj.symm]
  · rw [if_neg hkj, if_neg (Ne.symm hkj)]
    by_cases hki : i = k
    · rw [if_pos hki, if_pos hi, if_pos hki.symm]
    · rw [if_neg hki, if_neg (Ne.symm hki)]

theorem siftUp_heap : ∀ (fuel : Nat) (h : List α) (i : Nat), StrictWeak cmp h → Rising cmp h i →
    i ≤ fuel → IsHeap cmp (siftUp cmp fuel h i)
  | 0, h, i, _, hr, hf => by
    intro j hj
    exact hr.others j hj (by omega)
  | fuel + 1, h, i, hw, hr, hf => by
    unfold siftUp
    split
    · subst i
      intro j hj
      exact hr.others j hj (by omega)
    · rename_i hi
      split
      · rename_i p v hp hv
        obtain ⟨hpl, -⟩ := List.getElem?_eq_some_iff.1 hp
        obtain ⟨hil, -⟩ := List.getElem?_eq_some_iff.1 hv
        have hpm := List.mem_of_getElem? hp
        have hvm := List.mem_of_getElem? hv
        split
        · rename_i hc
          refine siftUp_heap fuel _ _ (hw.of_perm (swap_perm h _ _).symm) ⟨?_, ?_⟩ (by omega)
          · -- the places the swap touches: the element itself, its children, its sibling
            intro j hj hne x y hx hy
            rw [swap_get hil hpl] at hx hy
            rw [if_neg hne] at hy
            by_cases hji : j = i
            · subst j
              rw [if_pos rfl] at hx hy
              rw [hv] at hx
              rw [hp] at hy
              cases hx
              cases hy
              exact hw.asymm hpm hvm hc
            · rw [if_neg hji] at hy
              have hym := List.mem_of_getElem? hy
              by_cases hsib : (j - 1) / 2 = (i - 1) / 2
              · rw [if_pos hsib, hv] at hx
                cases hx
                have hpy := hr.others j hj hji p y (hsib ▸ hp) hy
                refine Bool.eq_false_iff.2 fun hvy => ?_
                rw [hw.trans p hpm v hvm y hym hc hvy] at hpy
                cases hpy
              · rw [if_neg hsib] at hx
                by_cases hchild : (j - 1) / 2 = i
                · rw [if_pos hchild] at hx
                  exact hr.across (by omega) j hj hchild x y hx hy
                · rw [if_neg hchild] at hx
                  exact hr.others j hj hji x y hx hy
          · intro hpos j hj hpar x y hx hy
            rw [swap_get hil hpl] at hx hy
            rw [if_neg (by omega), if_neg (by omega)] at hx
            have hxp := hr.others ((i - 1) / 2) hpos (by omega) x p hx hp
            rw [if_neg (by omega)] at hy
            by_cases hji : j = i
            · rw [if_pos hji, hp] at hy
              cases hy
              exact hxp
            · rw [if_neg hji] at hy
              have hpy := hr.others j hj hji p y (hpar ▸ hp) hy
              exact hw.le_trans (List.mem_of_getElem? hx) hpm (List.mem_of_getElem? hy) hxp hpy
        · rename_i hc
          intro j hj x y hx hy
          by_cases hji : j = i
          · subst j
            rw [hp] at hx
            rw [hv] at hy
            cases hx
            cases hy
            exact Bool.eq_false_iff.2 hc
          · exact hr.others j hj hji x y hx hy
      · rename_i hnone
        intro j hj x y hx hy
        by_cases hji : j = i
        · subst j
          exact absurd hy (hnone x y hx)
        · exact hr.others j hj hji x y hx hy

theorem greaterChild_spec (hw : StrictWeak cmp h) (hl : 2 * i + 1 < h.length) :
    greaterChild cmp h i < h.length ∧ (greaterChild cmp h i - 1) / 2 = i ∧ 0 < greaterChild cmp h i ∧
      ∀ j, 0 < j → (j - 1) / 2 = i → Le cmp h (greaterChild cmp h i) j := by
  unfold greaterChild
  split
  · rename_i r l hr hlt
    obtain ⟨hrl, -⟩ := List.getElem?_eq_some_iff.1 hr
    have hrm := List.mem_of_getElem? hr
    have hlm := List.mem_of_getElem? hlt
    split
    · rename_i hc
      refine ⟨hl, by omega, by omega, fun j hj hp x y hx hy => ?_⟩
      rw [hlt] at hx
      cases hx
      obtain rfl | rfl : j = 2 * i + 1 ∨ j = 2 * i + 2 := by omega
      · rw [hlt] at hy
        cases hy
        exact hw.irrefl _ hlm
      · rw [hr] at hy
        cases hy
        exact hw.asymm hrm hlm hc
    · rename_i hc
      refine ⟨hrl, by omega, by omega, fun j hj hp x y hx hy => ?_⟩
      rw [hr] at hx
      cases hx
      obtain rfl | rfl : j = 2 * i + 1 ∨ j = 2 * i + 2 := by omega
      · rw [hlt] at hy
        cases hy
        exact Bool.eq_false_iff.2 hc
      · rw [hr] at hy
        cases hy
        exact hw.irrefl _ hrm
  · rename_i hnone
    -- there is no right child
    refine ⟨hl, by omega, by omega, fun j hj hp x y hx hy => ?_⟩
    obtain rfl | rfl : j = 2 * i + 1 ∨ j = 2 * i + 2 := by omega
    · rw [hx] at hy
      cases hy
      exact hw.irrefl _ (List.mem_of_getElem? hx)
    · exact absurd hx (hnone y x hy)

theorem siftDown_rising : ∀ (fuel : Nat) (h : List α) (i : Nat), StrictWeak cmp h →
    Sinking cmp h i → i < h.length → h.length ≤ fuel + i + 1 →
    Rising cmp (siftDown cmp fuel h i).1 (siftDown cmp fuel h i).2 ∧
      (siftDown cmp fuel h i).2 < h.length
  | 0, h, i, _, hs, hi, hf => by
    refine ⟨⟨fun j hj hne => ?_, hs.across⟩, hi⟩
    by_cases hp : (j - 1) / 2 = i
    · intro x y _ hy
      obtain ⟨hjl, -⟩ := List.getElem?_eq_some_iff.1 hy
      change j < h.length at hjl
      omega
    · exact hs.others j hj hne hp
  | fuel + 1, h, i, hw, hs, hi, hf => by
    unfold siftDown
    split
    · rename_i hl
      obtain ⟨hcl, hcp, hc0, hcle⟩ := greaterChild_spec hw hl
      obtain ⟨c, hc⟩ : ∃ c, c = greaterChild cmp h i := ⟨_, rfl⟩
      rw [← hc] at hcl hcp hc0 hcle ⊢
      have := siftDown_rising fuel (swap h i c) c (hw.of_perm (swap_perm h i c).symm) ?_
        (by rw [swap_length]; exact hcl) (by rw [swap_length]; omega)
      · rw [swap_length] at this
        exact this
      · refine ⟨fun j hj hne hpar x y hx hy => ?_, fun _ j hj hpar x y hx hy => ?_⟩
        · rw [swap_get hi hcl] at hx hy
          rw [if_neg hpar] at hx
          rw [if_neg hne] at hy
          by_cases hji : j = i
          · subst j
            rw [if_neg (by omega)] at hx
            rw [if_pos rfl] at hy
            exact hs.across hj c hc0 hcp x y hx hy
          · rw [if_neg hji] at hy
            by_cases hsib : (j - 1) / 2 = i
            · rw [if_pos hsib] at hx
              exact hcle j hj hsib x y hx hy
            · rw [if_neg hsib] at hx
              exact hs.others j hj hji hsib x y hx hy
        · rw [swap_get hi hcl] at hx hy
          rw [hcp, if_neg (by omega), if_pos rfl] at hx
          rw [if_neg (by omega), if_neg (by omega)] at hy
          exact hs.others j hj (by omega) (by omega) x y (hpar ▸ hx) hy
    · rename_i hl
      refine ⟨⟨fun j hj hne => ?_, hs.across⟩, hi⟩
      by_cases hp : (j - 1) / 2 = i
      · intro x y _ hy
        obtain ⟨hjl, -⟩ := List.getElem?_eq_some_iff.1 hy
        change j < h.length at hjl
        omega
      · exact hs.others j hj hne hp

theorem IsHeap.push {v : α} (hh : IsHeap cmp h) (hw : StrictWeak cmp (v :: h)) :
    IsHeap cmp (push cmp h v) := by
  refine siftUp_heap _ _ _ (hw.of_perm (List.perm_append_singleton v h).symm)
    ⟨fun j hj hne x y hx hy => ?_, fun _ j hj hpar x y hx hy => ?_⟩ (Nat.le_refl _)
  · have hjl : j < h.length := by
      obtain ⟨hjl, -⟩ := List.getElem?_eq_some_iff.1 hy
      rw [List.length_append, List.length_singleton] at hjl
      omega
    rw [List.getElem?_append_left hjl] at hy
    rw [List.getElem?_append_left (by omega)] at hx
    exact hh j hj x y hx hy
  · obtain ⟨hjl, -⟩ := List.getElem?_eq_some_iff.1 hy
    rw [List.length_append, List.length_singleton] at hjl
    omega

theorem IsHeap.pop {x : α} {h' : List α} (hh : IsHeap cmp h) (hw : StrictWeak cmp h)
    (hp : Heap.pop cmp h = some (x, h')) : IsHeap cmp h' := by
  cases h with
  | nil => cases hp
  | cons y rest =>
    unfold Heap.pop at hp
    dsimp only at hp
    split at hp
    · cases hp
      intro j _ x y hx _
      simp at hx
    · rename_i v hlast
      cases hp
      obtain ⟨l, rfl⟩ := List.getLast?_eq_some_iff.1 hlast
      rw [List.dropLast_concat, List.length_append, List.length_singleton]
      have hw' : StrictWeak cmp (v :: l) := hw.subset fun z hz => by
        rcases List.mem_cons.1 hz with rfl | hz
        · simp
        · simp [hz]
      have hs : Sinking cmp (v :: l) 0 := by
        refine ⟨fun j hj _ hpar a b ha hb => ?_, fun h0 => absurd h0 (Nat.lt_irrefl 0)⟩
        have hb' : (x :: (l ++ [v]))[j]? = some b := by
          obtain ⟨k, rfl⟩ : ∃ k, j = k + 1 := ⟨j - 1, by omega⟩
          rw [List.getElem?_cons_succ] at hb ⊢
          obtain ⟨hkl, -⟩ := List.getElem?_eq_some_iff.1 hb
          rw [List.getElem?_append_left hkl, hb]
        have ha' : (x :: (l ++ [v]))[(j - 1) / 2]? = some a := by
          obtain ⟨k, hk⟩ : ∃ k, (j - 1) / 2 = k + 1 := ⟨(j - 1) / 2 - 1, by omega⟩
          rw [hk, List.getElem?_cons_succ] at ha ⊢
          obtain ⟨hkl, -⟩ := List.getElem?_eq_some_iff.1 ha
          rw [List.getElem?_append_left hkl, ha]
        exact hh j hj a b ha' hb'
      obtain ⟨hr, hlt⟩ := siftDown_rising (l.length + 1) (v :: l) 0 hw' hs (by simp) (by simp)
      rw [List.length_cons] at hlt
      exact siftUp_heap _ _ _ (hw'.of_perm (siftDown_perm _ _ _).symm) hr (by omega)

/-- Nothing comes before the front. -/
theorem IsHeap.top {x : α} {l : List α} (hh : IsHeap cmp (x :: l)) (hw : StrictWeak cmp (x :: l)) :
    ∀ y ∈ l, cmp x y = false := by
  have hall : ∀ (n : Nat) (y : α), (x :: l)[n]? = some y → cmp x y = false := by
    intro n
    induction n using Nat.strongRecOn with
    | ind n ih =>
      intro y hy
      by_cases hn : n = 0
      · subst n
        rw [List.getElem?_cons_zero] at hy
        cases hy
        exact hw.irrefl _ List.mem_cons_self
      · obtain ⟨hnl, -⟩ := List.getElem?_eq_some_iff.1 hy
        have hpl : (n - 1) / 2 < (x :: l).length := by omega
        have hp := List.getElem?_eq_getElem hpl
        exact hw.le_trans List.mem_cons_self (List.getElem_mem hpl) (List.mem_of_getElem? hy)
          (ih _ (by omega) _ hp) (hh n (by omega) _ _ hp hy)
  intro y hy
  obtain ⟨n, hn⟩ := List.mem_iff_getElem?.1 (List.mem_cons_of_mem x hy)
  exact hall n y hn

theorem drain_sorted : ∀ (fuel : Nat) (h : List α), IsHeap cmp h → StrictWeak cmp h →
    h.length ≤ fuel → (drain cmp fuel h).Pairwise fun x y => cmp x y = false
  | 0, _, _, _, _ => .nil
  | fuel + 1, h, hh, hw, hl => by
    unfold drain
    split
    · exact .nil
    · rename_i x h' hp
      have hperm := pop_perm hp
      have hlen := hperm.length_eq
      rw [List.length_cons] at hlen
      have hw' : StrictWeak cmp h' := hw.subset fun z hz =>
        hperm.mem_iff.2 (List.mem_cons_of_mem x hz)
      refine .cons (fun y hy => ?_) (drain_sorted fuel h' (hh.pop hw hp) hw' (by omega))
      have hy' := (drain_perm fuel h' (by omega)).mem_iff.1 hy
      cases h with
      | nil => cases hp
      | cons a rest =>
        have hax : a = x := by
          unfold pop at hp
          dsimp only at hp
          split at hp <;> cases hp <;> rfl
        subst hax
        exact hh.top hw y (hperm.cons_inv.mem_iff.2 hy')

end RtcCore.Heap
