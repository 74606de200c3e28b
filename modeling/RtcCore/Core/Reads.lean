/-!
# Readers that take a known number of items

A reader takes items from the front of a list and returns a value and what is
left. `Took read buf v rest n` says that it took `n` items of `buf`, found `v`
and that nothing behind these items mattered; `Exact read n` that it does so
whenever it has a value. The rules follow the steps of a `do` block.
-/
namespace RtcCore

variable {α β γ : Type}

def Took (read : List α → Option (β × List α)) (buf : List α) (v : β) (rest : List α) (n : Nat) :
    Prop :=
  ∃ used, used.length = n ∧ buf = used ++ rest ∧ ∀ tail, read (used ++ tail) = some (v, tail)

def Exact (read : List α → Option (β × List α)) (n : Nat) : Prop :=
  ∀ ⦃buf v rest⦄, read buf = some (v, rest) → Took read buf v rest n

namespace Took

theorem length {read : List α → Option (β × List α)} {buf rest : List α} {v : β} {n : Nat}
    (h : Took read buf v rest n) : buf.length = n + rest.length := by
  obtain ⟨used, rfl, rfl, -⟩ := h
  exact List.length_append

theorem pure (v : β) (buf : List α) : Took (fun b => some (v, b)) buf v buf 0 :=
  ⟨[], rfl, rfl, fun _ => rfl⟩

theorem bind {read : List α → Option (β × List α)} {next : β × List α → Option (γ × List α)}
    {buf mid rest : List α} {v : β} {w : γ} {m n : Nat} (h : Took read buf v mid m)
    (hn : Took (fun b => next (v, b)) mid w rest n) :
    Took (fun b => (read b).bind next) buf w rest (m + n) := by
  obtain ⟨a, rfl, rfl, ha⟩ := h
  obtain ⟨b, rfl, rfl, hb⟩ := hn
  refine ⟨a ++ b, List.length_append, (List.append_assoc a b rest).symm, fun tail => ?_⟩
  simp only [List.append_assoc, ha, Option.bind_some, hb]

/-- The reader on the octets it takes alone. -/
theorem alone {read : List α → Option (β × List α)} {buf rest : List α} {v : β} {n : Nat}
    (h : Took read buf v rest n) : read (buf.take n) = some (v, []) ∧ rest = buf.drop n := by
  obtain ⟨used, rfl, rfl, hr⟩ := h
  rw [List.take_left, List.drop_left]
  have := hr []
  rw [List.append_nil] at this
  exact ⟨this, rfl⟩

end Took

theorem Exact.map {read : List α → Option (β × List α)} {n : Nat} (h : Exact read n) (f : β → γ) :
    Exact (fun b => (read b).map fun r => (f r.1, r.2)) n := by
  intro buf w rest hr
  obtain ⟨⟨v, rest'⟩, hv, he⟩ := Option.map_eq_some_iff.1 hr
  cases he
  obtain ⟨used, hl, hb, hu⟩ := h hv
  refine ⟨used, hl, hb, fun tail => ?_⟩
  simp only [hu, Option.map_some]

end RtcCore
