import Mathlib.Algebra.Order.Field.Basic
import Mathlib.Tactic.Linarith
import Mathlib.Tactic.Ring

/-!
# The lower envelope of falling lines

Lines are put on a stack by increasing slope, each with the place from where on
it is the lowest. A new line takes those off the stack that it crosses before
they become the lowest, and is put on top if it falls to zero before the last
one does (`place`).

Results:
- `place_covers`: where no line on the stack is below zero, no line that was
  given is below all of those on the stack.
- `Stack.lowest`: each line on it is the lowest one somewhere above zero.
- `place_of_before`, `place_of_not_before`: the line on top falls to zero first.
-/
namespace RtcCore.LowerEnvelope

section Lines

variable {K : Type} [Field K] [LinearOrder K] [IsStrictOrderedRing K]

/-- The line `start - slope * x`. -/
structure Line (K : Type) where
  start : K
  slope : K

def Line.at (l : Line K) (x : K) : K := l.start - l.slope * x

def cross (c t : Line K) : K := (c.start - t.start) / (c.slope - t.slope)

/-- `c` falls to zero before `t`. -/
def Before (c t : Line K) : Prop := c.start * t.slope < t.start * c.slope

instance (c t : Line K) : Decidable (Before c t) := inferInstanceAs (Decidable (_ < _))

variable {c t u : Line K} {x : K}

theorem at_le_at (h : t.slope < c.slope) : c.at x ≤ t.at x ↔ cross c t ≤ x := by
  rw [cross, div_le_iff₀ (sub_pos.2 h), Line.at, Line.at]
  constructor <;> intro hle <;> linarith

theorem at_ge_at (h : t.slope < c.slope) : t.at x ≤ c.at x ↔ x ≤ cross c t := by
  rw [cross, le_div_iff₀ (sub_pos.2 h), Line.at, Line.at]
  constructor <;> intro hle <;> linarith

theorem at_lt_at (h : t.slope < c.slope) (hx : cross c t < x) : c.at x < t.at x :=
  lt_of_not_ge fun hle => absurd ((at_ge_at h).1 hle) (not_le.2 hx)

theorem at_gt_at (h : t.slope < c.slope) (hx : x < cross c t) : t.at x < c.at x :=
  lt_of_not_ge fun hle => absurd ((at_le_at h).1 hle) (not_le.2 hx)

theorem at_anti (h : 0 ≤ t.slope) {y : K} (hxy : x ≤ y) : t.at y ≤ t.at x :=
  sub_le_sub_left (mul_le_mul_of_nonneg_left hxy h) _

theorem at_pos_behind (h : 0 ≤ t.slope) (hx : 0 < t.at x) : ∃ y, x < y ∧ 0 < t.at y := by
  have hden : 0 < 2 * (t.slope + 1) := by linarith
  have hd : 0 < t.at x / (2 * (t.slope + 1)) := div_pos hx hden
  have hmul : 2 * (t.slope + 1) * (t.at x / (2 * (t.slope + 1))) = t.at x :=
    mul_div_cancel₀ _ hden.ne'
  generalize t.at x / (2 * (t.slope + 1)) = d at hd hmul
  refine ⟨x + d, by linarith, ?_⟩
  have hat : t.at (x + d) = t.at x - t.slope * d := by rw [Line.at, Line.at]; ring
  linarith

theorem start_lt (h : t.slope < c.slope) (hx : 0 ≤ x) (hc : x < cross c t) : t.start < c.start := by
  have hpos := div_pos_iff.1 (lt_of_le_of_lt hx hc)
  have hslope := sub_pos.2 h
  obtain ⟨hstart, -⟩ | ⟨-, hneg⟩ := hpos
  · linarith
  · linarith

theorem cross_pos (h : t.slope < c.slope) (hs : t.start < c.start) : 0 < cross c t :=
  div_pos (sub_pos.2 hs) (sub_pos.2 h)

/-- A line that does not fall to zero before `t` is above it until `t` does. -/
theorem at_le_of_not_before (h : t.slope < c.slope) (ht : 0 < t.start) (h0 : 0 ≤ t.slope)
    (hn : ¬ Before c t) (hx : 0 ≤ t.at x) : t.at x ≤ c.at x := by
  rw [Before, not_lt] at hn
  have hpos : 0 < t.slope := by
    refine lt_of_le_of_ne h0 fun hz => ?_
    have := mul_pos ht (lt_of_le_of_lt h0 h)
    rw [← hz, mul_zero] at hn
    linarith
  rw [Line.at] at hx
  have hmul : (c.slope - t.slope) * (t.slope * x) ≤ (c.slope - t.slope) * t.start :=
    mul_le_mul_of_nonneg_left (by linarith) (sub_pos.2 h).le
  have hle : t.slope * ((c.slope - t.slope) * x) ≤ t.slope * (c.start - t.start) := by
    calc t.slope * ((c.slope - t.slope) * x) = (c.slope - t.slope) * (t.slope * x) := by ring
      _ ≤ (c.slope - t.slope) * t.start := hmul
      _ ≤ t.slope * (c.start - t.start) := by linarith
  have := le_of_mul_le_mul_left hle hpos
  rw [Line.at, Line.at]
  linarith

/-- Two lines of which the steeper one reaches zero first cross above zero. -/
theorem lt_of_at_cross (hs : t.slope < c.slope) (h : Before c t) :
    0 < c.at (cross c t) := by
  have hd := sub_pos.2 hs
  have hmul : (c.slope - t.slope) * c.at (cross c t) = t.start * c.slope - c.start * t.slope := by
    calc (c.slope - t.slope) * c.at (cross c t)
        = (c.slope - t.slope) * c.start - c.slope * (cross c t * (c.slope - t.slope)) := by
          rw [Line.at]; ring
      _ = t.start * c.slope - c.start * t.slope := by
          rw [cross, div_mul_cancel₀ _ hd.ne']; ring
  rw [Before] at h
  exact pos_of_mul_pos_right (hmul ▸ sub_pos.2 h) hd.le

/-- Two lines that cross above zero: both reach zero behind the crossing. -/
theorem before_of_cross_le (h0 : 0 ≤ u.slope) (hu : u.slope < t.slope) (ht : t.slope < c.slope)
    (h : Before t u) (hc : cross c t ≤ cross t u) : Before c t := by
  have hut := sub_pos.2 hu
  have htc := sub_pos.2 ht
  obtain ⟨i, hi⟩ : ∃ i, i = cross t u := ⟨_, rfl⟩
  have hstart : t.start - u.start = i * (t.slope - u.slope) := by
    rw [hi, cross, div_mul_cancel₀ _ hut.ne']
  have hzero : t.slope * i < t.start := by
    rw [Before] at h
    refine lt_of_mul_lt_mul_right ?_ hut.le
    calc t.slope * i * (t.slope - u.slope) = t.slope * (t.start - u.start) := by rw [hstart]; ring
      _ < t.start * (t.slope - u.slope) := by linarith
  rw [← hi, cross, div_le_iff₀ htc] at hc
  have hpos := lt_of_le_of_lt h0 hu
  have hmul := mul_lt_mul_of_pos_left hzero htc
  have hle := mul_le_mul_of_nonneg_left hc hpos.le
  rw [Before]
  linarith

theorem Before.trans (hu : 0 ≤ u.slope) (hut : u.slope < t.slope) (hc : 0 < c.slope)
    (h : Before c t) (h' : Before t u) : Before c u := by
  rw [Before] at *
  have hpos := lt_of_le_of_lt hu hut
  have h1 := mul_le_mul_of_nonneg_right h.le hu
  have h2 := mul_lt_mul_of_pos_right h' hc
  refine lt_of_mul_lt_mul_right ?_ hpos.le
  linarith

/-- What falls to zero before the first one falls to zero before all. -/
theorem Before.trans_le (ht : 0 ≤ t.slope) (ht' : 0 < t.start) (hu : 0 ≤ u.slope)
    (hu' : 0 < u.start) (hc : 0 < c.slope) (h : Before c t) (h' : ¬ Before u t) : Before c u := by
  rw [Before, not_lt] at h'
  rw [Before] at h ⊢
  obtain hu0 | hu0 := hu.eq_or_lt
  · rw [← hu0, mul_zero]
    exact mul_pos hu' hc
  · have hpos : 0 < t.slope := by
      refine ht.lt_of_ne fun h0 => ?_
      rw [← h0, mul_zero] at h'
      exact absurd (mul_pos ht' hu0) (not_lt.2 h')
    have h1 := mul_lt_mul_of_pos_right h hu0
    have h2 := mul_le_mul_of_nonneg_right h' hc.le
    refine lt_of_mul_lt_mul_right ?_ hpos.le
    linarith

omit [IsStrictOrderedRing K] in
theorem Before.asymm (h : Before c t) : ¬ Before t c := not_lt.2 (le_of_lt h)

/-- A steeper line that does not fall to zero before `t` starts higher. -/
theorem start_le_of_not_before (hs : t.slope < c.slope) (ht : 0 ≤ t.slope) (ht' : 0 < t.start)
    (h : ¬ Before c t) : t.start ≤ c.start := by
  rw [Before, not_lt] at h
  have hpos : 0 < t.slope := by
    refine ht.lt_of_ne fun h0 => ?_
    rw [← h0, mul_zero] at h
    exact absurd (mul_pos ht' (ht.trans_lt hs)) (not_lt.2 h)
  have hmul := mul_le_mul_of_nonneg_left hs.le ht'.le
  exact le_of_mul_le_mul_right (hmul.trans h) hpos

end Lines

/-! ## The stack -/

section Stack

variable {K : Type} [Field K] [LinearOrder K] [IsStrictOrderedRing K]
  {α : Type} (line : α → Line K)

/-- The new line `c` comes onto the stack, the last line first. -/
def place (c : α) : List (α × K) → List (α × K)
  | [] => []
  | (t, i) :: below =>
    if cross (line c) (line t) ≤ i then place c below
    else if Before (line c) (line t) then (c, cross (line c) (line t)) :: (t, i) :: below
    else (t, i) :: below

/-- A stack over `f`: slopes grow, each line is lowest from where it crosses the one below it, and
they cross above zero. -/
inductive Stack (f : α) : List (α × K) → Prop
  | bottom (hs : 0 < (line f).start) (h0 : 0 ≤ (line f).slope) : Stack f [(f, 0)]
  | push {t u : α} {i j : K} {below : List (α × K)} (h : Stack f ((u, j) :: below))
      (hslope : (line u).slope < (line t).slope) (hi : i = cross (line t) (line u)) (hlt : j < i)
      (hb : Before (line t) (line u)) : Stack f ((t, i) :: (u, j) :: below)

variable {line} {f c t : α} {i : K} {below s : List (α × K)}

theorem Stack.facts (h : Stack line f s) : ∀ p ∈ s, 0 < (line p.1).start ∧ 0 ≤ (line p.1).slope ∧
    0 ≤ p.2 := by
  induction h with
  | bottom hs h0 =>
    intro p hp
    rw [List.mem_singleton.1 hp]
    exact ⟨hs, h0, le_refl _⟩
  | push h hslope hi hlt hb ih =>
    intro p hp
    obtain rfl | hp := List.mem_cons.1 hp
    · obtain ⟨hs, h0, hj⟩ := ih _ (List.mem_cons_self ..)
      have hstart := start_lt hslope hj (hi ▸ hlt)
      exact ⟨hs.trans hstart, h0.trans hslope.le, hj.trans hlt.le⟩
    · exact ih p hp

omit [IsStrictOrderedRing K] in
theorem Stack.start_pos (h : Stack line f s) : 0 < (line f).start := by
  induction h with
  | bottom hs _ => exact hs
  | push _ _ _ _ _ ih => exact ih

/-- Slopes and starts grow towards the top. -/
theorem Stack.grows (h : Stack line f s) : s.Pairwise fun p q =>
    (line q.1).slope < (line p.1).slope ∧ (line q.1).start < (line p.1).start := by
  induction h with
  | bottom _ _ => exact List.pairwise_singleton _ _
  | @push t u i j below h hslope hi hlt hb ih =>
    refine List.pairwise_cons.2 ⟨fun q hq => ?_, ih⟩
    have hj := (h.facts _ (List.mem_cons_self ..)).2.2
    have hstart := start_lt hslope hj (hi ▸ hlt)
    obtain rfl | hq := List.mem_cons.1 hq
    · exact ⟨hslope, hstart⟩
    · obtain ⟨h1, h2⟩ := (List.pairwise_cons.1 ih).1 q hq
      exact ⟨h1.trans hslope, h2.trans hstart⟩

/-- Behind its place the line on top is the lowest, and it is above zero there. -/
theorem Stack.top (h : Stack line f ((t, i) :: below)) :
    0 < (line t).at i ∧ ∀ x, i < x → ∀ q ∈ below, (line t).at x < (line q.1).at x := by
  generalize hs : (t, i) :: below = s at h
  induction h generalizing t i below with
  | bottom hs' h0 =>
    cases hs
    rw [Line.at, mul_zero, sub_zero]
    exact ⟨hs', fun x _ q hq => absurd hq (List.not_mem_nil)⟩
  | @push t' u i' j below' h hslope hi hlt hb ih =>
    obtain ⟨⟨rfl, rfl⟩, rfl⟩ : (t = t' ∧ i = i') ∧ below = (u, j) :: below' := by
      simpa only [List.cons.injEq, Prod.mk.injEq] using hs
    obtain ⟨hpos, hlow⟩ := ih rfl
    have hzero := lt_of_at_cross hslope hb
    refine ⟨hi ▸ hzero, fun x hx q hq => ?_⟩
    have htu : (line t).at x < (line u).at x := at_lt_at hslope (hi ▸ hx)
    obtain rfl | hq := List.mem_cons.1 hq
    · exact htu
    · exact htu.trans (hlow x (hlt.trans hx) q hq)

/-- Each line further down is the lowest somewhere above zero before the place of the top. -/
theorem Stack.lowest_below (h : Stack line f ((t, i) :: below)) : ∀ p ∈ below, ∃ x, 0 ≤ x ∧ x < i ∧
    0 < (line p.1).at x ∧ ∀ q ∈ (t, i) :: below, q ≠ p → (line p.1).at x < (line q.1).at x := by
  generalize hs : (t, i) :: below = s at h
  induction h generalizing t i below with
  | bottom =>
    cases hs
    exact fun p hp => absurd hp (List.not_mem_nil)
  | @push t' u i' j below' h hslope hi hlt hb ih =>
    obtain ⟨⟨rfl, rfl⟩, rfl⟩ : (t = t' ∧ i = i') ∧ below = (u, j) :: below' := by
      simpa only [List.cons.injEq, Prod.mk.injEq] using hs
    obtain ⟨-, h0, hj⟩ := h.facts _ (List.mem_cons_self ..)
    intro p hp
    obtain rfl | hp := List.mem_cons.1 hp
    · have hmid : j < (j + i) / 2 ∧ (j + i) / 2 < i := ⟨by linarith, by linarith⟩
      have hut : (line u).at ((j + i) / 2) < (line t).at ((j + i) / 2) :=
        at_gt_at hslope (hi ▸ hmid.2)
      refine ⟨(j + i) / 2, hj.trans hmid.1.le, hmid.2, ?_, fun q hq hne => ?_⟩
      · have hcross := lt_of_at_cross hslope hb
        rw [← hi] at hcross
        have hle : (line u).at i = (line t).at i :=
          le_antisymm ((at_ge_at hslope).2 (hi ▸ le_refl _)) ((at_le_at hslope).2 (hi ▸ le_refl _))
        have hfall : (line u).at i ≤ (line u).at ((j + i) / 2) := at_anti h0 hmid.2.le
        linarith
      · obtain rfl | hq := List.mem_cons.1 hq
        · exact hut
        · obtain rfl | hq := List.mem_cons.1 hq
          · exact absurd rfl hne
          · exact h.top.2 _ hmid.1 q hq
    · obtain ⟨x, hx0, hxj, hpos, hlow⟩ := ih rfl p hp
      refine ⟨x, hx0, hxj.trans hlt, hpos, fun q hq hne => ?_⟩
      obtain rfl | hq := List.mem_cons.1 hq
      · have hup : (line p.1).at x ≤ (line u).at x := by
          by_cases hpu : (u, j) = p
          · rw [← hpu]
          · exact (hlow _ (List.mem_cons_self ..) hpu).le
        exact hup.trans_lt (at_gt_at hslope (hi ▸ hxj.trans hlt))
      · exact hlow q hq hne

/-- No line of a stack is there for nothing. -/
theorem Stack.lowest (h : Stack line f s) : ∀ p ∈ s, ∃ x, 0 ≤ x ∧ 0 < (line p.1).at x ∧
    ∀ q ∈ s, q ≠ p → (line p.1).at x < (line q.1).at x := by
  intro p hp
  obtain ⟨t, i, below, rfl⟩ : ∃ t i below, s = (t, i) :: below := by
    cases h with
    | bottom => exact ⟨_, _, _, rfl⟩
    | push => exact ⟨_, _, _, rfl⟩
  obtain rfl | hp := List.mem_cons.1 hp
  · obtain ⟨-, h0, hi⟩ := h.facts _ (List.mem_cons_self ..)
    obtain ⟨hpos, hlow⟩ := h.top
    obtain ⟨x, hix, hx⟩ := at_pos_behind h0 hpos
    refine ⟨x, hi.trans hix.le, hx, fun q hq hne => ?_⟩
    exact hlow x hix q ((List.mem_cons.1 hq).resolve_left hne)
  · obtain ⟨x, hx0, -, hpos, hlow⟩ := h.lowest_below p hp
    exact ⟨x, hx0, hpos, hlow⟩

/-- A line that starts above the bottom does not take it off. -/
theorem Stack.rest (h : Stack line f ((t, i) :: below)) (hc : (line t).slope < (line c).slope)
    (hf : (line f).start < (line c).start) (hcross : cross (line c) (line t) ≤ i) :
    Stack line f below := by
  cases h with
  | bottom _ _ => exact absurd (cross_pos hc hf) (not_lt.2 hcross)
  | push h _ _ _ _ => exact h

/-- The bottom stays, and the stack is one again. -/
theorem place_stack (h : Stack line f s) (hc : ∀ p ∈ s, (line p.1).slope < (line c).slope)
    (hf : (line f).start < (line c).start) : Stack line f (place line c s) := by
  induction h with
  | bottom hs h0 =>
    have hslope := hc _ (List.mem_singleton.2 rfl)
    have hpos := cross_pos hslope hf
    rw [place, if_neg (not_le.2 hpos)]
    split
    · exact .push (.bottom hs h0) hslope rfl hpos ‹_›
    · exact .bottom hs h0
  | push h hslope hi hlt hb ih =>
    rw [place]
    split
    · exact ih fun p hp => hc p (List.mem_cons_of_mem _ hp)
    · rename_i hcross
      split
      · exact .push (.push h hslope hi hlt hb) (hc _ (List.mem_cons_self ..)) rfl (not_le.1 hcross)
          ‹_›
      · exact .push h hslope hi hlt hb

/-- No line is lost that is the lowest somewhere above zero. -/
theorem place_covers (h : Stack line f s) (hc : ∀ p ∈ s, (line p.1).slope < (line c).slope)
    (hf : (line f).start < (line c).start) {x : K}
    (hx : ∀ p ∈ place line c s, 0 ≤ (line p.1).at x) :
    (∃ p ∈ place line c s, (line p.1).at x ≤ (line c).at x) ∧
      ∀ q ∈ s, ∃ p ∈ place line c s, (line p.1).at x ≤ (line q.1).at x := by
  -- a line that is not put on top is above the last one
  have hskip : ∀ {t i below}, Stack line f ((t, i) :: below) →
      (line t).slope < (line c).slope → ¬ Before (line c) (line t) → 0 ≤ (line t).at x →
      (line t).at x ≤ (line c).at x := by
    intro t i below h hslope hn h0
    obtain ⟨hs, hslope0, -⟩ := h.facts _ (List.mem_cons_self ..)
    exact at_le_of_not_before hslope hs hslope0 hn h0
  induction h with
  | bottom hs h0 =>
    have hslope := hc _ (List.mem_singleton.2 rfl)
    rw [place, if_neg (not_le.2 (cross_pos hslope hf))] at hx ⊢
    split
    · exact ⟨⟨_, List.mem_cons_self .., le_refl _⟩, fun q hq =>
        ⟨q, List.mem_cons_of_mem _ hq, le_refl _⟩⟩
    · rename_i hn
      rw [if_neg hn] at hx
      exact ⟨⟨_, List.mem_singleton.2 rfl,
        hskip (.bottom hs h0) hslope hn (hx _ (List.mem_singleton.2 rfl))⟩,
        fun q hq => ⟨q, hq, le_refl _⟩⟩
  | @push t u i j below h hslope hi hlt hb ih =>
    have hct := hc _ (List.mem_cons_self ..)
    by_cases hcross : cross (line c) (line t) ≤ i
    · rw [place, if_pos hcross] at hx ⊢
      obtain ⟨hnew, hold⟩ := ih (fun p hp => hc p (List.mem_cons_of_mem _ hp)) hx
      refine ⟨hnew, fun q hq => ?_⟩
      obtain rfl | hq := List.mem_cons.1 hq
      · -- the line taken off is above the one below it, or above the new one
        obtain hxi | hxi := le_total x i
        · obtain ⟨p, hp, hle⟩ := hold _ (List.mem_cons_self ..)
          exact ⟨p, hp, hle.trans ((at_ge_at hslope).2 (hi ▸ hxi))⟩
        · obtain ⟨p, hp, hle⟩ := hnew
          exact ⟨p, hp, hle.trans ((at_le_at hct).2 (hcross.trans hxi))⟩
      · exact hold q hq
    · rw [place, if_neg hcross] at hx ⊢
      split
      · exact ⟨⟨_, List.mem_cons_self .., le_refl _⟩, fun q hq =>
          ⟨q, List.mem_cons_of_mem _ hq, le_refl _⟩⟩
      · rename_i hn
        rw [if_neg hn] at hx
        exact ⟨⟨_, List.mem_cons_self .., hskip (.push h hslope hi hlt hb) hct hn
          (hx _ (List.mem_cons_self ..))⟩, fun q hq => ⟨q, hq, le_refl _⟩⟩

/-- A line that does not fall to zero before the last one changes nothing. -/
theorem place_of_not_before (h : Stack line f ((t, i) :: below))
    (hc : (line t).slope < (line c).slope) (hf : (line f).start < (line c).start)
    (hn : ¬ Before (line c) (line t)) : place line c ((t, i) :: below) = (t, i) :: below := by
  have hcross : ¬ cross (line c) (line t) ≤ i := by
    intro hle
    cases h with
    | bottom _ _ => exact absurd (cross_pos hc hf) (not_lt.2 hle)
    | push h hslope hi hlt hb =>
      exact hn (before_of_cross_le (h.facts _ (List.mem_cons_self ..)).2.1 hslope hc hb (hi ▸ hle))
  rw [place, if_neg hcross, if_neg hn]

/-- One that does comes on top. -/
theorem place_of_before (h : Stack line f s) (hc : ∀ p ∈ s, (line p.1).slope < (line c).slope)
    (hf : (line f).start < (line c).start)
    (hb : ∀ p, s.head? = some p → Before (line c) (line p.1)) :
    ∃ j rest, place line c s = (c, j) :: rest := by
  induction h with
  | bottom hs h0 =>
    have hcross := cross_pos (hc _ (List.mem_singleton.2 rfl)) hf
    rw [place, if_neg (not_le.2 hcross), if_pos (hb _ rfl)]
    exact ⟨_, _, rfl⟩
  | @push t u i j below h hslope hi hlt hbt ih =>
    have hbc : Before (line c) (line t) := hb _ rfl
    by_cases hcross : cross (line c) (line t) ≤ i
    · rw [place, if_pos hcross]
      refine ih (fun p hp => hc p (List.mem_cons_of_mem _ hp)) fun p hp => ?_
      cases hp
      have h0 := (h.facts _ (List.mem_cons_self ..)).2.1
      have hct := hc _ (List.mem_cons_self ..)
      exact hbc.trans h0 hslope (h0.trans_lt (hslope.trans hct)) hbt
    · rw [place, if_neg hcross, if_pos hbc]
      exact ⟨_, _, rfl⟩

omit [IsStrictOrderedRing K] in
theorem mem_place {p : α × K} (hp : p ∈ place line c s) : p ∈ s ∨ p.1 = c := by
  induction s with
  | nil => cases hp
  | cons q below ih =>
    obtain ⟨t, i⟩ := q
    rw [place] at hp
    split at hp
    · exact (ih hp).imp_left (List.mem_cons_of_mem _)
    · split at hp
      · obtain rfl | hp := List.mem_cons.1 hp
        · exact .inr rfl
        · exact .inl hp
      · exact .inl hp

/-! ## All lines -/

/-- What the stack is when the lines `given` were put on it, the first one being `f`. -/
structure Envelope (line : α → Line K) (f : α) (given : List α) (s : List (α × K)) : Prop where
  stack : Stack line f s
  mem : ∀ p ∈ s, p.1 ∈ given
  falling : ∀ a ∈ given, 0 < (line a).start ∧ 0 ≤ (line a).slope
  covers : ∀ x, (∀ p ∈ s, 0 ≤ (line p.1).at x) →
    ∀ a ∈ given, ∃ p ∈ s, (line p.1).at x ≤ (line a).at x
  limits : ∀ p, s.head? = some p → ∀ a ∈ given, ¬ Before (line a) (line p.1) ∧
    (¬ Before (line p.1) (line a) → (line p.1).start ≤ (line a).start)

omit [IsStrictOrderedRing K] in
theorem Envelope.bottom (hs : 0 < (line f).start) (h0 : 0 ≤ (line f).slope) :
    Envelope line f [f] [(f, 0)] where
  stack := .bottom hs h0
  mem p hp := by
    rw [List.mem_singleton.1 hp]
    exact List.mem_singleton.2 rfl
  falling a ha := by
    rw [List.mem_singleton.1 ha]
    exact ⟨hs, h0⟩
  covers x _ a ha := by
    rw [List.mem_singleton.1 ha]
    exact ⟨_, List.mem_singleton.2 rfl, le_refl _⟩
  limits p hp a ha := by
    cases hp
    rw [List.mem_singleton.1 ha]
    exact ⟨lt_irrefl _, fun _ => le_refl _⟩

theorem Envelope.place {given : List α} (h : Envelope line f given s)
    (hc : ∀ a ∈ given, (line a).slope < (line c).slope) (hf : (line f).start < (line c).start) :
    Envelope line f (given ++ [c]) (place line c s) := by
  have hslope : ∀ p ∈ s, (line p.1).slope < (line c).slope := fun p hp => hc _ (h.mem p hp)
  obtain ⟨t, i, below, rfl⟩ : ∃ t i below, s = (t, i) :: below := by
    cases h.stack with
    | bottom => exact ⟨_, _, _, rfl⟩
    | push => exact ⟨_, _, _, rfl⟩
  have htop := h.mem _ (List.mem_cons_self ..)
  obtain ⟨ht, ht0⟩ := h.falling t htop
  have hct := hc t htop
  have hc0 : 0 < (line c).slope := ht0.trans_lt hct
  refine ⟨place_stack h.stack hslope hf, fun p hp => ?_, fun a ha => ?_, fun x hx a ha => ?_, ?_⟩
  · obtain hp | hp := mem_place hp
    · exact List.mem_append_left _ (h.mem p hp)
    · exact List.mem_append_right _ (List.mem_singleton.2 hp)
  · obtain ha | ha := List.mem_append.1 ha
    · exact h.falling a ha
    · rw [List.mem_singleton.1 ha]
      exact ⟨h.stack.start_pos.trans hf, hc0.le⟩
  · obtain ⟨hnew, hold⟩ := place_covers h.stack hslope hf hx
    obtain ha | ha := List.mem_append.1 ha
    · obtain ⟨q, hq, hqa⟩ := h.covers x (fun q hq => by
        obtain ⟨p, hp, hpq⟩ := hold q hq
        exact (hx p hp).trans hpq) a ha
      obtain ⟨p, hp, hpq⟩ := hold q hq
      exact ⟨p, hp, hpq.trans hqa⟩
    · rwa [List.mem_singleton.1 ha]
  · intro p hp
    by_cases hb : Before (line c) (line t)
    · obtain ⟨j, rest, heq⟩ := place_of_before h.stack hslope hf fun p hp => by
        cases hp
        exact hb
      rw [heq] at hp
      cases hp
      intro a ha
      obtain ha | ha := List.mem_append.1 ha
      · obtain ⟨hapos, ha0⟩ := h.falling a ha
        have hba := hb.trans_le ht0 ht ha0 hapos hc0 (h.limits _ rfl a ha).1
        exact ⟨hba.asymm, fun hn => absurd hba hn⟩
      · rw [List.mem_singleton.1 ha]
        exact ⟨lt_irrefl _, fun _ => le_refl _⟩
    · rw [place_of_not_before h.stack hct hf hb] at hp
      cases hp
      intro a ha
      obtain ha | ha := List.mem_append.1 ha
      · exact h.limits _ rfl a ha
      · rw [List.mem_singleton.1 ha]
        exact ⟨hb, fun _ => start_le_of_not_before hct ht0 ht hb⟩

end Stack

end RtcCore.LowerEnvelope
