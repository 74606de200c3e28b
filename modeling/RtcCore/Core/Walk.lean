/-!
# Walking a string of blocks

A walk looks up the length of the block at an offset (`none`: there is no
block) and the offset where it goes on. `blocks` collects the blocks with
their lengths; in a bounded walk it is given by its own equation
(`blocks_eq`), without fuel, and two walks that part never meet again
(`blocks_eq_iff_of_ne`).
-/
namespace RtcCore

structure Walk where
  block : Nat → Option Nat
  next : Nat → Nat → Option Nat

namespace Walk

def blocksFuel (w : Walk) : Nat → Nat → List (Nat × Nat)
  | 0, _ => []
  | fuel + 1, off =>
    match w.block off with
    | none => []
    | some len =>
      (off, len) :: match w.next off len with
        | none => []
        | some off => blocksFuel w fuel off

def blocks (w : Walk) (size off : Nat) : List (Nat × Nat) := w.blocksFuel (size + 1) off

/-- Blocks start inside `size`, and every step goes forward. -/
structure Bounded (w : Walk) (size : Nat) : Prop where
  inside : ∀ {off len}, w.block off = some len → off < size
  forward : ∀ {off len next}, w.block off = some len → w.next off len = some next → off < next

section Bounded

variable {w : Walk} {size : Nat}

theorem Bounded.fuel_irrel (h : w.Bounded size) : ∀ (m n : Nat) {off : Nat}, size - off < m →
    size - off < n → w.blocksFuel m off = w.blocksFuel n off := by
  intro m
  induction m with
  | zero => intro n off hm _; omega
  | succ m ih =>
    intro n off hm hn
    cases n with
    | zero => omega
    | succ n =>
      unfold blocksFuel
      cases hb : w.block off with
      | none => rfl
      | some len =>
        dsimp only
        cases hx : w.next off len with
        | none => rfl
        | some next =>
          have h1 := h.inside hb
          have h2 := h.forward hb hx
          dsimp only
          rw [ih n (by omega) (by omega)]

theorem Bounded.blocks_eq (h : w.Bounded size) (off : Nat) :
    w.blocks size off = match w.block off with
      | none => []
      | some len =>
        (off, len) :: match w.next off len with
          | none => []
          | some next => w.blocks size next := by
  unfold blocks
  rw [blocksFuel]
  cases hb : w.block off with
  | none => rfl
  | some len =>
    dsimp only
    cases hx : w.next off len with
    | none => rfl
    | some next =>
      have h1 := h.inside hb
      have h2 := h.forward hb hx
      dsimp only
      rw [h.fuel_irrel size (size + 1) (by omega) (by omega)]

theorem Bounded.blocks_nil (h : w.Bounded size) (off : Nat) :
    w.blocks size off = [] ↔ w.block off = none := by
  rw [h.blocks_eq]
  cases w.block off with
  | none => simp
  | some len => simp

/-- Walks that stand at different offsets agree only where both end. -/
theorem Bounded.blocks_eq_iff_of_ne {w' : Walk} (h : w.Bounded size) (h' : w'.Bounded size)
    {off off' : Nat} (hne : off ≠ off') :
    w.blocks size off = w'.blocks size off' ↔ w.block off = none ∧ w'.block off' = none := by
  rw [h.blocks_eq, h'.blocks_eq]
  cases w.block off with
  | none =>
    cases w'.block off' with
    | none => simp
    | some len' => simp
  | some len =>
    cases w'.block off' with
    | none => simp
    | some len' => simp [hne]

end Bounded

end Walk

end RtcCore
