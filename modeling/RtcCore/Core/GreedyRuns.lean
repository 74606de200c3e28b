/-!
# Greedy runs

A list cut into runs: an element, and the elements behind it as long as they are
near it. Where nearness fits the order of the list (`Convex`), no other cut has
fewer runs.

Results:
- `flat_runs`, `runs_flat_take`: the runs are the list, the first `k` runs are
  those of their own elements.
- `runs_length_le_iff`: into how many runs a list can be cut.
-/
namespace RtcCore

namespace GreedyRuns

variable {α : Type} (near : α → α → Bool)

def runsFuel : Nat → List α → List (α × List α)
  | 0, _ => []
  | _ + 1, [] => []
  | fuel + 1, a :: as => (a, as.takeWhile (near a)) :: runsFuel fuel (as.dropWhile (near a))

def runs (l : List α) : List (α × List α) := runsFuel near l.length l

def flat (rs : List (α × List α)) : List α := rs.flatMap fun r => r.1 :: r.2

/-- Every element of a run is near the first one. -/
def Near (rs : List (α × List α)) : Prop := ∀ r ∈ rs, ∀ b ∈ r.2, near r.1 b = true

/-- What lies in a run before an element is near that element. -/
def Convex (l : List α) : Prop :=
  ∀ front a mid c back, l = front ++ a :: (mid ++ c :: back) → (∀ x ∈ mid, near a x = true) →
    near a c = true → ∀ x ∈ mid, near x c = true

variable {near}

/-! ## The runs of a list -/

theorem dropWhile_length_le (p : α → Bool) (l : List α) : (l.dropWhile p).length ≤ l.length :=
  (List.dropWhile_suffix p).length_le

/-- Any fuel from the length of the list on. -/
theorem runsFuel_eq : ∀ (fuel fuel' : Nat) (l : List α), l.length ≤ fuel → l.length ≤ fuel' →
    runsFuel near fuel l = runsFuel near fuel' l := by
  intro fuel
  induction fuel with
  | zero =>
    intro fuel' l h _
    rw [List.length_eq_zero_iff.1 (Nat.le_zero.1 h)]
    cases fuel' <;> rfl
  | succ fuel ih =>
    intro fuel' l h h'
    cases l with
    | nil => cases fuel' <;> rfl
    | cons a as =>
      rw [List.length_cons] at h h'
      obtain ⟨k, rfl⟩ : ∃ k, fuel' = k + 1 := ⟨fuel' - 1, by omega⟩
      have hlen := dropWhile_length_le (near a) as
      rw [runsFuel, runsFuel, ih k _ (by omega) (by omega)]

theorem runs_cons (a : α) (as : List α) : runs near (a :: as) =
    (a, as.takeWhile (near a)) :: runs near (as.dropWhile (near a)) := by
  rw [runs, List.length_cons, runsFuel, runs,
    runsFuel_eq _ _ _ (dropWhile_length_le _ _) (Nat.le_refl _)]

/-- Induction over a list, one run after the other. -/
theorem runs_induction {P : List α → Prop} (near : α → α → Bool) (nil : P [])
    (cons : ∀ a as, P (as.dropWhile (near a)) → P (a :: as)) (l : List α) : P l := by
  induction hn : l.length using Nat.strongRecOn generalizing l with
  | ind n ih =>
    cases l with
    | nil => exact nil
    | cons a as =>
      have hlen := dropWhile_length_le (near a) as
      rw [List.length_cons] at hn
      exact cons a as (ih _ (by omega) _ rfl)

theorem flat_cons (r : α × List α) (rs : List (α × List α)) :
    flat (r :: rs) = r.1 :: (r.2 ++ flat rs) := by
  simp [flat]

theorem flat_runs (l : List α) : flat (runs near l) = l := by
  induction l using runs_induction near with
  | nil => rfl
  | cons a as ih => rw [runs_cons, flat_cons, ih, List.takeWhile_append_dropWhile]

theorem infix_flat {r : α × List α} {rs : List (α × List α)} (h : r ∈ rs) :
    r.1 :: r.2 <:+: flat rs := by
  obtain ⟨before, after, rfl⟩ := List.append_of_mem h
  refine ⟨flat before, flat after, ?_⟩
  simp [flat]

theorem near_takeWhile {p : α → Bool} : ∀ {l : List α}, ∀ b ∈ l.takeWhile p, p b = true := by
  intro l
  induction l with
  | nil => simp
  | cons a l ih =>
    rw [List.takeWhile_cons]
    split
    · rename_i ha
      intro b hb
      rcases List.mem_cons.1 hb with rfl | hb
      · exact ha
      · exact ih b hb
    · simp

theorem near_runs (l : List α) : Near near (runs near l) := by
  induction l using runs_induction near with
  | nil => exact fun r hr => absurd hr (List.not_mem_nil)
  | cons a as ih =>
    rw [runs_cons]
    intro r hr
    rcases List.mem_cons.1 hr with rfl | hr
    · exact near_takeWhile
    · exact ih r hr

/-- A run ends where it would end in any list that goes on in the same way. -/
theorem dropWhile_takeWhile_append {p : α → Bool} {l front : List α}
    (h : front <+: l.dropWhile p) :
    (l.takeWhile p ++ front).takeWhile p = l.takeWhile p ∧
      (l.takeWhile p ++ front).dropWhile p = front := by
  have hfront : front.takeWhile p = [] ∧ front.dropWhile p = front := by
    cases front with
    | nil => exact ⟨rfl, rfl⟩
    | cons x front =>
      obtain ⟨back, hback⟩ := h
      have hx : p x = false := by
        have hne : l.dropWhile p ≠ [] := by
          rw [← hback]
          simp
        have hhead := List.head_dropWhile_not p hne
        simpa [← hback] using hhead
      simp [hx]
  rw [List.takeWhile_append_of_pos near_takeWhile, List.dropWhile_append_of_pos near_takeWhile,
    hfront.1, hfront.2, List.append_nil]
  exact ⟨rfl, rfl⟩

theorem flat_take_initial (k : Nat) (l : List α) : flat ((runs near l).take k) <+: l := by
  have h : flat ((runs near l).take k) <+: flat (runs near l) := by
    conv => rhs; rw [← List.take_append_drop k (runs near l)]
    rw [flat, flat, List.flatMap_append]
    exact List.prefix_append ..
  rwa [flat_runs] at h

/-- The first runs are those of their own elements. -/
theorem runs_flat_take (l : List α) : ∀ k,
    runs near (flat ((runs near l).take k)) = (runs near l).take k := by
  induction l using runs_induction near with
  | nil =>
    intro k
    cases k <;> rfl
  | cons a as ih =>
    intro k
    cases k with
    | zero => rfl
    | succ k =>
      obtain ⟨h1, h2⟩ := dropWhile_takeWhile_append
        (flat_take_initial k (as.dropWhile (near a)))
      rw [runs_cons, List.take_succ_cons, flat_cons, runs_cons]
      dsimp only
      rw [h1, h2, ih]

/-! ## No other cut has fewer runs -/

theorem Convex.suffix {l l' : List α} (h : Convex near l) (hs : l' <:+ l) : Convex near l' := by
  obtain ⟨pre, rfl⟩ := hs
  intro front a mid c back hl
  apply h (pre ++ front) a mid c back
  rw [hl, List.append_assoc]

/-- What is left of a list needs no more runs than all of it. -/
theorem runs_suffix_le {l : List α} (h : Convex near l) : ∀ l', l' <:+ l →
    (runs near l').length ≤ (runs near l).length := by
  induction l using runs_induction near with
  | nil =>
    intro l' hs
    obtain rfl := List.suffix_nil.1 hs
    exact Nat.le_refl _
  | cons a as ih =>
    intro l' hs
    rcases List.suffix_cons_iff.1 hs with rfl | hs
    · exact Nat.le_refl _
    · obtain ⟨pre, hpre⟩ := hs
      have hrest : Convex near (as.dropWhile (near a)) :=
        h.suffix ((List.dropWhile_suffix _).trans (List.suffix_cons a as))
      rw [runs_cons, List.length_cons]
      have hsplit : as.takeWhile (near a) ++ as.dropWhile (near a) = as :=
        List.takeWhile_append_dropWhile
      rw [← hsplit] at hpre
      rcases List.append_eq_append_iff.1 hpre with ⟨mid, h1, h2⟩ | ⟨mid, h1, h2⟩
      · cases mid with
        | nil =>
          rw [h2]
          exact Nat.le_succ _
        | cons y t =>
          -- it starts inside the first run, and its own first run goes at least as far
          have hall : ∀ c ∈ t, near y c = true := by
            intro c hc
            obtain ⟨t₁, t₂, rfl⟩ := List.append_of_mem hc
            have hnear : ∀ x ∈ as.takeWhile (near a), near a x = true := near_takeWhile
            rw [h1] at hnear
            apply h [] a (pre ++ y :: t₁) c (t₂ ++ as.dropWhile (near a))
            · conv => lhs; rw [← hsplit, h1]
              simp
            · intro x hx
              apply hnear
              simp only [List.mem_append, List.mem_cons] at hx ⊢
              rcases hx with hx | hx | hx <;> simp [hx]
            · exact hnear c (by simp)
            · simp
          rw [h2, List.cons_append, runs_cons, List.length_cons, List.dropWhile_append_of_pos hall]
          exact Nat.succ_le_succ (ih hrest _ (List.dropWhile_suffix _))
      · have := ih hrest l' ⟨mid, h2.symm⟩
        omega

/-- Into how many runs a list can be cut. -/
theorem runs_length_le_iff {l : List α} {k : Nat} (h : Convex near l) :
    (runs near l).length ≤ k ↔ ∃ rs, rs.length ≤ k ∧ flat rs = l ∧ Near near rs := by
  constructor
  · exact fun hk => ⟨runs near l, hk, flat_runs l, near_runs l⟩
  · rintro ⟨rs, hk, rfl, hn⟩
    refine Nat.le_trans ?_ hk
    clear hk
    induction rs with
    | nil => exact Nat.le_refl 0
    | cons r rs ih =>
      have hsuffix : flat rs <:+ flat (r :: rs) := by
        rw [flat_cons]
        exact (List.suffix_append ..).trans (List.suffix_cons ..)
      have hrest := h.suffix hsuffix
      have hrec := ih (fun r' hr' => hn r' (List.mem_cons_of_mem _ hr')) hrest
      rw [flat_cons, runs_cons, List.length_cons, List.length_cons,
        List.dropWhile_append_of_pos (hn r (List.mem_cons_self ..))]
      exact Nat.succ_le_succ (Nat.le_trans (runs_suffix_le hrest _ (List.dropWhile_suffix _)) hrec)

end GreedyRuns

end RtcCore
