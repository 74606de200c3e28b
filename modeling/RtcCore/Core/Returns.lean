/-!
# Total correctness of computations that may have no value

`Returns m Q`: the computation `m` has a value, and `Q` holds of it. The rules
take a `do` block apart, one step at a time.
-/
namespace RtcCore

variable {α β : Type}

def Returns (m : Option α) (Q : α → Prop) : Prop := ∃ a, m = some a ∧ Q a

namespace Returns

theorem some {a : α} {Q : α → Prop} (h : Q a) : Returns (some a) Q := ⟨a, rfl, h⟩

theorem bind {m : Option α} {f : α → Option β} {P : α → Prop} {Q : β → Prop} (h : Returns m P)
    (k : ∀ a, P a → Returns (f a) Q) : Returns (m >>= f) Q := by
  obtain ⟨a, rfl, ha⟩ := h
  exact k a ha

theorem map {m : Option α} {f : α → β} {P : α → Prop} {Q : β → Prop} (h : Returns m P)
    (k : ∀ a, P a → Q (f a)) : Returns (m.map f) Q := by
  obtain ⟨a, rfl, ha⟩ := h
  exact ⟨f a, rfl, k a ha⟩

theorem mono {m : Option α} {P Q : α → Prop} (h : Returns m P) (k : ∀ a, P a → Q a) :
    Returns m Q := by
  obtain ⟨a, rfl, ha⟩ := h
  exact ⟨a, rfl, k a ha⟩

end Returns

end RtcCore
