/-!
# Peeling

A parity check covers some items; when all but one of them are known, the check
gives that one. `Recoverable` is what can be known at all, from the items that
are given. A set of known items is `Stuck` when no check gives another one.

Results:
- `Stuck.known_iff`: whatever was recovered on the way, the known items of a
  stuck set are those that are recoverable. The order does not matter.
-/
namespace RtcCore.Peeling

variable {α γ : Type} (given : α → Prop) (checks : γ → Prop) (covers : γ → α → Prop)

inductive Recoverable : α → Prop
  | given {x : α} (h : given x) : Recoverable x
  | recover {c : γ} {x : α} (hc : checks c) (hx : covers c x)
      (h : ∀ y, covers c y → y ≠ x → Recoverable y) : Recoverable x

/-- Each check has all of its items known, or at least two that are not. -/
def Stuck (known : α → Prop) : Prop :=
  ∀ c, checks c → (∀ x, covers c x → known x) ∨
    ∃ x y, x ≠ y ∧ covers c x ∧ covers c y ∧ ¬ known x ∧ ¬ known y

variable {given checks covers} {known : α → Prop}

theorem Recoverable.mono {given' : α → Prop} {checks' : γ → Prop}
    (hg : ∀ x, given x → given' x) (hc : ∀ c, checks c → checks' c) {x : α}
    (h : Recoverable given checks covers x) : Recoverable given' checks' covers x := by
  induction h with
  | given h => exact .given (hg _ h)
  | recover hcheck hx _ ih => exact .recover (hc _ hcheck) hx ih

theorem Stuck.of_recoverable (hs : Stuck checks covers known) (hg : ∀ x, given x → known x) {x : α}
    (h : Recoverable given checks covers x) : known x := by
  induction h with
  | given h => exact hg _ h
  | @recover c x hc hx _ ih =>
    obtain hall | ⟨a, b, hab, ha, hb, hna, hnb⟩ := hs c hc
    · exact hall x hx
    · -- one of the two that are not known is not `x`
      by_cases hax : a = x
      · exact absurd (ih b hb fun hbx => hab (hax.trans hbx.symm)) hnb
      · exact absurd (ih a ha hax) hna

theorem Stuck.known_iff (hs : Stuck checks covers known) (hg : ∀ x, given x → known x)
    (hk : ∀ x, known x → Recoverable given checks covers x) (x : α) :
    known x ↔ Recoverable given checks covers x :=
  ⟨hk x, hs.of_recoverable hg⟩

end RtcCore.Peeling
