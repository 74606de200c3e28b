import Mathlib.Data.List.Basic

/-!
# A queue with rewind

A bounded queue that keeps what was taken from it until new elements need the
room: `pending` is what is still to be read, `retained` what was read last,
oldest first. Together they always fill the queue, so a write overwrites the
oldest retained elements, and `move` takes elements from `pending` or, for a
negative count, puts the newest retained ones back.

Results:
* `elements_move`, `elements_write`: what the queue keeps, over both kinds.
* `length_pending_move`: a move reports how many elements it went over.
-/
namespace RtcCore

@[ext] structure RewindQueue (α : Type) (capacity : Nat) where
  retained : List α
  pending : List α
  full : retained.length + pending.length = capacity

namespace RewindQueue

variable {α : Type} {capacity : Nat}

/-- A queue from which `capacity` elements were read. -/
def replicate (capacity : Nat) (a : α) : RewindQueue α capacity where
  retained := List.replicate capacity a
  pending := []
  full := by simp

variable (q : RewindQueue α capacity)

def elements : List α := q.retained ++ q.pending

theorem elements_length : q.elements.length = capacity := by
  rw [elements, List.length_append, q.full]

/-- How many of `els` there is room for. -/
def accepted (els : List α) : List α := els.take q.retained.length

def write (els : List α) : RewindQueue α capacity where
  retained := q.retained.drop (q.accepted els).length
  pending := q.pending ++ q.accepted els
  full := by
    have := q.full
    simp only [accepted, List.length_drop, List.length_append, List.length_take]
    omega

def advance (n : Nat) : RewindQueue α capacity where
  retained := q.retained ++ q.pending.take n
  pending := q.pending.drop n
  full := by
    have := q.full
    simp only [List.length_append, List.length_take, List.length_drop]
    omega

def rewind (n : Nat) : RewindQueue α capacity where
  retained := q.retained.take (q.retained.length - n)
  pending := q.retained.drop (q.retained.length - n) ++ q.pending
  full := by
    have := q.full
    simp only [List.length_append, List.length_take, List.length_drop]
    omega

/-- How far a move by `k` goes: at most over all pending elements, and back
over all retained ones. -/
def moved (k : Int) : Int := max (-q.retained.length) (min k q.pending.length)

def move (k : Int) : RewindQueue α capacity :=
  if 0 ≤ k then q.advance k.toNat else q.rewind (-k).toNat

/-! ## What is kept -/

theorem elements_advance (n : Nat) : (q.advance n).elements = q.elements := by
  simp [elements, advance]

theorem elements_rewind (n : Nat) : (q.rewind n).elements = q.elements := by
  rw [elements, elements, rewind, ← List.append_assoc, List.take_append_drop]

theorem elements_move (k : Int) : (q.move k).elements = q.elements := by
  unfold move
  split
  · exact q.elements_advance _
  · exact q.elements_rewind _

/-- A write drops the oldest elements, as many as it appends. -/
theorem elements_write (els : List α) :
    (q.write els).elements = q.elements.drop (q.accepted els).length ++ q.accepted els := by
  have hle : (q.accepted els).length ≤ q.retained.length := List.length_take_le _ _
  rw [elements, elements, write, List.drop_append_of_le_length hle, List.append_assoc]

theorem length_pending_write (els : List α) :
    (q.write els).pending.length = q.pending.length + (q.accepted els).length := by
  rw [write, List.length_append]

theorem advance_length_take (n : Nat) : q.advance (q.pending.take n).length = q.advance n := by
  rcases Nat.le_total n q.pending.length with h | h
  · rw [List.length_take_of_le h]
  · ext1 <;> simp [advance, List.take_of_length_le h, List.drop_eq_nil_of_le h]

/-- The number of pending elements goes down by exactly what a move reports. -/
theorem length_pending_move (k : Int) :
    ((q.move k).pending.length : Int) = q.pending.length - q.moved k := by
  unfold move moved
  split
  · simp only [advance, List.length_drop]
    omega
  · simp only [rewind, List.length_append, List.length_drop]
    omega

end RewindQueue

end RtcCore
