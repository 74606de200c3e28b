import Mathlib.Data.List.Forall2
import Mathlib.Algebra.BigOperators.Group.List.Basic
import Mathlib.Tactic.Ring

/-!
# Equal shares with limits

Claimants with a lower and an upper limit are served in the order of a list.
Each gets its lower limit and the current share, but no more than its upper
limit; what it cannot take raises the share of those still to come, in a
division that rounds down.

Results:
* `shareOut_within`: each grant is between the limits.
* `sum_shareOut_le`: the grants add up to at most the lower limits and the
  shares.
* `le_sum_shareOut`: they fall short of that by rounding only, unless the last
  claimant has reached its upper limit.
* `all_full_or_last_short`: where no claimant has more room between its limits
  than a later one, the last one reaches its upper limit only if all do.
* `shareOut_full`: a share no smaller than the room of each fills them all.
-/
namespace RtcCore

structure Limits where
  lo : Nat
  hi : Nat
  deriving DecidableEq, Repr

namespace FairShare

def grant (share : Nat) (c : Limits) : Nat := min c.hi (c.lo + share)

/-- The share of each of the `k` claimants behind `c`. -/
def next (share k : Nat) (c : Limits) : Nat := share + (c.lo + share - c.hi) / k

def shareOut : Nat → List Limits → List Nat
  | _, [] => []
  | share, c :: rest => grant share c :: shareOut (next share rest.length c) rest

variable {share k : Nat} {c : Limits} {l rest : List Limits}

theorem length_shareOut (share : Nat) (l : List Limits) : (shareOut share l).length = l.length := by
  induction l generalizing share with
  | nil => rfl
  | cons c rest ih => rw [shareOut, List.length_cons, List.length_cons, ih]

theorem le_next (share k : Nat) (c : Limits) : share ≤ next share k c := Nat.le_add_right _ _

theorem next_of_short (h : c.lo + share ≤ c.hi) (k : Nat) : next share k c = share := by
  rw [next, Nat.sub_eq_zero_of_le h, Nat.zero_div, Nat.add_zero]

theorem shareOut_within (h : ∀ c ∈ l, c.lo ≤ c.hi) (share : Nat) :
    List.Forall₂ (fun c g => c.lo ≤ g ∧ g ≤ c.hi) l (shareOut share l) := by
  induction l generalizing share with
  | nil => exact List.Forall₂.nil
  | cons c rest ih =>
    have hc := h c (List.mem_cons_self ..)
    refine List.Forall₂.cons ⟨?_, Nat.min_le_left _ _⟩ (ih (fun d hd => h d (.tail _ hd)) _)
    rw [grant]
    omega

/-- What a claimant leaves covers the raise of those behind it. -/
theorem grant_add_next (share k : Nat) (c : Limits) :
    grant share c + k * next share k c ≤ c.lo + share + k * share := by
  have hdiv := Nat.mul_div_le (c.lo + share - c.hi) k
  rw [next, grant, Nat.mul_add]
  omega

theorem sum_shareOut_le (share : Nat) (l : List Limits) :
    (shareOut share l).sum ≤ (l.map Limits.lo).sum + l.length * share := by
  induction l generalizing share with
  | nil => exact Nat.zero_le _
  | cons c rest ih =>
    have hrest := ih (next share rest.length c)
    have hstep := grant_add_next share rest.length c
    rw [shareOut, List.sum_cons, List.map_cons, List.sum_cons, List.length_cons, Nat.add_mul,
      Nat.one_mul]
    omega

/-- The raise loses less than one unit for each of those behind. -/
theorem le_grant_add_next (share : Nat) (c : Limits) (hk : 0 < k) :
    c.lo + share + k * share < grant share c + k * next share k c + k := by
  have hdiv := Nat.lt_mul_div_succ (c.lo + share - c.hi) hk
  rw [Nat.mul_succ] at hdiv
  rw [next, grant, Nat.mul_add]
  omega

/-- The last claimant got less than its upper limit. -/
def LastShort (l : List Limits) (grants : List Nat) : Prop :=
  ∀ c ∈ l.getLast?, ∀ g ∈ grants.getLast?, g < c.hi

theorem lastShort_cons {d : Limits} {g : Nat} {grants : List Nat}
    (hlen : grants.length = (d :: rest).length) :
    LastShort (c :: d :: rest) (g :: grants) ↔ LastShort (d :: rest) grants := by
  obtain _ | ⟨e, grants⟩ := grants
  · cases hlen
  · rw [LastShort, LastShort, List.getLast?_cons_cons, List.getLast?_cons_cons]

theorem le_sum_shareOut (share : Nat) (hne : l ≠ []) (h : LastShort l (shareOut share l)) :
    2 * ((l.map Limits.lo).sum + l.length * share) ≤
      2 * (shareOut share l).sum + (l.length - 1) * (l.length - 2) := by
  induction l generalizing share with
  | nil => exact absurd rfl hne
  | cons c rest ih =>
    obtain _ | ⟨d, rest⟩ := rest
    · have hlast : grant share c < c.hi := h c rfl _ rfl
      rw [grant] at hlast
      simp only [shareOut, grant, List.map_cons, List.map_nil, List.sum_cons, List.sum_nil,
        List.length_cons, List.length_nil]
      omega
    · have hshort := (lastShort_cons (length_shareOut _ (d :: rest))).1 h
      have hrest := ih _ (List.cons_ne_nil _ _) hshort
      have hstep := le_grant_add_next share c (show 0 < (d :: rest).length from Nat.succ_pos _)
      have hsquare : ((d :: rest).length + 1 - 1) * ((d :: rest).length + 1 - 2) =
          ((d :: rest).length - 1) * ((d :: rest).length - 2) + 2 * ((d :: rest).length - 1) := by
        rw [List.length_cons]
        obtain _ | n := rest.length
        · rfl
        · show (n + 2) * (n + 1) = (n + 1) * n + 2 * (n + 1)
          ring
      rw [shareOut, List.sum_cons, List.map_cons, List.sum_cons, List.length_cons (a := c),
        Nat.add_mul, Nat.one_mul, hsquare]
      omega

/-! ## The room between the limits -/

def room (c : Limits) : Nat := c.hi - c.lo

/-- A share that is less than every room reaches no upper limit. -/
theorem shareOut_of_room (h : ∀ c ∈ l, share < room c) :
    shareOut share l = l.map fun c => c.lo + share := by
  induction l with
  | nil => rfl
  | cons c rest ih =>
    have hc := h c (List.mem_cons_self ..)
    rw [room] at hc
    rw [shareOut, next_of_short (by omega), ih fun d hd => h d (.tail _ hd), grant,
      Nat.min_eq_right (by omega)]
    rfl

theorem lastShort_of_room (h : ∀ c ∈ l, share < room c) :
    LastShort l (shareOut share l) := by
  intro c hc g hg
  rw [shareOut_of_room h, List.getLast?_map, Option.mem_def.1 hc] at hg
  have hroom := h c (List.mem_of_getLast? hc)
  rw [room] at hroom
  obtain rfl := Option.mem_some_iff.1 hg
  show c.lo + share < c.hi
  omega

theorem all_full_or_last_short (h : l.Pairwise fun a b => room a ≤ room b)
    (hl : ∀ c ∈ l, c.lo ≤ c.hi) (share : Nat) :
    shareOut share l = l.map Limits.hi ∨ LastShort l (shareOut share l) := by
  induction l generalizing share with
  | nil => exact .inl rfl
  | cons c rest ih =>
    have hc := hl c (List.mem_cons_self ..)
    obtain ⟨hfirst, hpair⟩ := List.pairwise_cons.1 h
    by_cases hshort : share < room c
    · refine .inr (lastShort_of_room fun d hd => ?_)
      obtain rfl | hd := List.mem_cons.1 hd
      · exact hshort
      · exact Nat.lt_of_lt_of_le hshort (hfirst d hd)
    · have hfull : grant share c = c.hi := by
        rw [room] at hshort
        rw [grant]
        omega
      obtain hrest | hrest := ih hpair (fun d hd => hl d (.tail _ hd)) (next share rest.length c)
      · left
        rw [shareOut, hfull, hrest]
        rfl
      · obtain _ | ⟨d, rest⟩ := rest
        · left
          rw [shareOut, hfull]
          rfl
        · exact .inr ((lastShort_cons (length_shareOut _ _)).2 hrest)

theorem shareOut_full (hl : ∀ c ∈ l, c.lo ≤ c.hi) (h : ∀ c ∈ l, room c ≤ share) :
    shareOut share l = l.map Limits.hi := by
  induction l generalizing share with
  | nil => rfl
  | cons c rest ih =>
    have hc := h c (List.mem_cons_self ..)
    rw [room] at hc
    rw [shareOut, ih (fun d hd => hl d (.tail _ hd)) fun d hd =>
      Nat.le_trans (h d (.tail _ hd)) (le_next ..), grant, Nat.min_eq_left (by omega)]
    rfl

end FairShare

end RtcCore
