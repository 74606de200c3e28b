/-!
# Loops that end

A loop `while (cond(s)) s = body(s);` and its end (`Loop`). `runWhile` makes at
most as many rounds as it is told; when a measure goes down in every round it
makes them all (`Loop.of_runWhile`).
-/
namespace RtcCore

section

variable {S : Type} (cond : S → Bool) (body : S → S)

/-- From `s` the loop comes to its end in `t`. -/
inductive Loop : S → S → Prop
  | stop {s : S} (h : cond s = false) : Loop s s
  | next {s t : S} (h : cond s = true) (r : Loop (body s) t) : Loop s t

def runWhile : Nat → S → S
  | 0, s => s
  | fuel + 1, s => if cond s then runWhile fuel (body s) else s

variable {cond body} {s t : S}

theorem Loop.done (h : Loop cond body s t) : cond t = false := by
  induction h with
  | stop h => exact h
  | next _ _ ih => exact ih

/-- What every round keeps holds at the end. -/
theorem Loop.keeps {P : S → Prop} (hP : ∀ s, cond s = true → P s → P (body s))
    (h : Loop cond body s t) (hs : P s) : P t := by
  induction h with
  | stop _ => exact hs
  | next hc _ ih => exact ih (hP _ hc hs)

theorem Loop.of_runWhile {m : S → Nat} (hm : ∀ s, cond s = true → m (body s) < m s) {fuel : Nat}
    (hf : m s ≤ fuel) : Loop cond body s (runWhile cond body fuel s) := by
  induction fuel generalizing s with
  | zero =>
    cases hc : cond s with
    | false => exact .stop hc
    | true =>
      have := hm s hc
      omega
  | succ fuel ih =>
    unfold runWhile
    cases hc : cond s with
    | false => exact .stop hc
    | true =>
      have := hm s hc
      exact .next hc (ih (by omega))

end

end RtcCore
