import Mathlib.Data.List.Basic

/-!
# Differences of neighbours

`neighbours f l` applies `f` to each entry of `l` and the next. Where `f` is a
difference, what it gives for neighbours adds up to the difference of the ends
(`sum_neighbours`).
-/
namespace RtcCore

variable {α β γ : Type}

def neighbours (f : α → α → β) : List α → List β
  | a :: b :: l => f a b :: neighbours f (b :: l)
  | _ => []

theorem neighbours_append (f : α → α → β) (l : List α) (a b : α) :
    neighbours f (l ++ [a, b]) = neighbours f (l ++ [a]) ++ [f a b] := by
  induction l with
  | nil => rfl
  | cons x l ih =>
    cases l with
    | nil => rfl
    | cons y l => exact congrArg (f x y :: ·) ih

theorem map_neighbours (g : β → γ) (f : α → α → β) (l : List α) :
    (neighbours f l).map g = neighbours (fun a b => g (f a b)) l := by
  induction l with
  | nil => rfl
  | cons x l ih =>
    cases l with
    | nil => rfl
    | cons y l => exact congrArg (g (f x y) :: ·) ih

theorem sum_neighbours [Add β] [Zero β] {f : α → α → β} (hself : ∀ a, f a a = 0)
    (hadd : ∀ a b c, f a b + f b c = f a c) (a : α) (l : List α) :
    (neighbours f (a :: l)).sum = f a ((a :: l).getLast (List.cons_ne_nil a l)) := by
  induction l generalizing a with
  | nil => exact (hself a).symm
  | cons b l ih =>
    rw [neighbours, List.sum_cons, ih b, hadd, List.getLast_cons (List.cons_ne_nil b l)]

end RtcCore
