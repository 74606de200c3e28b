/-!
# Runs with results

A `Machine` gives a result and a new state for an input, or stops. `run` collects
the results, `Meets` asks something of every step. What maps the steps of one
machine to those of another maps their runs (`run_map`); what relates two
machines and is kept by every step makes their runs agree (`run_simulates`).
-/
namespace RtcCore

structure Machine (S I O : Type) where
  step : S → I → Option (O × S)

namespace Machine

variable {S I O S' I' O' : Type}

def run (M : Machine S I O) : S → List I → Option (List O × S)
  | s, [] => some ([], s)
  | s, i :: is =>
    (M.step s i).bind fun r => (M.run r.2 is).map fun rs => (r.1 :: rs.1, rs.2)

/-- Every step of the run meets `C`. -/
def Meets (M : Machine S I O) (C : S → I → Prop) : S → List I → Prop
  | _, [] => True
  | s, i :: is => C s i ∧ ∀ r ∈ M.step s i, M.Meets C r.2 is

/-- Where the steps that meet `C` commute with a mapping, so do the runs of such steps. -/
theorem run_map {M : Machine S I O} {N : Machine S' I' O'} {C : S → I → Prop} {f : S → S'}
    {g : I → I'} {h : O → O'}
    (hstep : ∀ s i, C s i → N.step (f s) (g i) = (M.step s i).map (Prod.map h f))
    {s : S} {is : List I} (hC : M.Meets C s is) :
    N.run (f s) (is.map g) = (M.run s is).map (Prod.map (List.map h) f) := by
  induction is generalizing s with
  | nil => rfl
  | cons i is ih =>
    obtain ⟨hi, hrest⟩ := hC
    rw [List.map_cons, run, run, hstep s i hi]
    cases hr : M.step s i with
    | none => rfl
    | some r =>
      simp only [Option.map_some, Option.bind_some, Prod.map_snd, ih (hrest r hr), Option.map_map]
      rfl

/-- Two machines that never stop, and answer alike in states that `R` relates. -/
theorem run_simulates {M : Machine S I O} {N : Machine S' I O} {R : S → S' → Prop}
    (hstep : ∀ s t i, R s t → ∃ o s' t', M.step s i = some (o, s') ∧
      N.step t i = some (o, t') ∧ R s' t')
    {s : S} {t : S'} (hR : R s t) (is : List I) :
    ∃ os s' t', M.run s is = some (os, s') ∧ N.run t is = some (os, t') ∧ R s' t' := by
  induction is generalizing s t with
  | nil => exact ⟨[], s, t, rfl, rfl, hR⟩
  | cons i is ih =>
    obtain ⟨o, s', t', hs, ht, hR'⟩ := hstep s t i hR
    obtain ⟨os, s'', t'', hs', ht', hR''⟩ := ih hR'
    refine ⟨o :: os, s'', t'', ?_, ?_, hR''⟩
    · simp [run, hs, hs']
    · simp [run, ht, ht']

end Machine

end RtcCore
