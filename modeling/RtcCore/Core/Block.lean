/-!
# An allocated array

The cells of an array as a list: `read` and `write` are `memcpy` from and to it,
`move` is `memmove` inside of it. They have no value where a C program would leave
the array.

An array is looked at in parts, `front ++ middle ++ back`: a write replaces the part
it covers (`write_part`), a read returns it (`read_part`), and a move over free
cells opens a gap (`move_up`) or closes one (`move_down`).
-/
namespace RtcCore

namespace Block

variable {α : Type} {cells cells' front middle back xs : List α} {start src dst n : Nat}

def read (cells : List α) (start n : Nat) : Option (List α) :=
  if start + n ≤ cells.length then some ((cells.drop start).take n) else none

def write (cells : List α) (start : Nat) (xs : List α) : Option (List α) :=
  if start + xs.length ≤ cells.length then
    some (cells.take start ++ xs ++ cells.drop (start + xs.length))
  else none

def move (cells : List α) (dst src n : Nat) : Option (List α) := do
  write cells dst (← read cells src n)

/-- What a new array of `n` cells holds is not known. -/
def new (fresh : Nat → α) (n : Nat) : List α := (List.range n).map fresh

theorem new_length (fresh : Nat → α) (n : Nat) : (new fresh n).length = n := by
  rw [new, List.length_map, List.length_range]

theorem read_part (hs : front.length = start) (hn : middle.length = n) :
    read (front ++ middle ++ back) start n = some middle := by
  subst hs hn
  unfold read
  rw [if_pos (by simp), List.append_assoc, List.drop_left, List.take_left]

theorem write_part (hs : front.length = start) (hn : middle.length = xs.length) :
    write (front ++ middle ++ back) start xs = some (front ++ xs ++ back) := by
  subst hs
  unfold write
  have htake : (front ++ middle ++ back).take front.length = front := by
    rw [List.append_assoc, List.take_left]
  have hdrop : (front ++ middle ++ back).drop (front.length + xs.length) = back := by
    rw [← hn, ← List.length_append, List.drop_left]
  rw [if_pos (by simp only [List.length_append]; omega), htake, hdrop]

theorem read_front (hn : xs.length = n) : read (xs ++ back) 0 n = some xs := by
  subst hn
  unfold read
  rw [if_pos (by simp), List.drop_zero, List.take_left]

theorem write_front (h : xs.length ≤ cells.length) :
    write cells 0 xs = some (xs ++ cells.drop xs.length) := by
  unfold write
  rw [Nat.zero_add, if_pos h]
  rfl

/-- A write outside of the array has no value. -/
theorem write_eq_none : write cells start xs = none ↔ cells.length < start + xs.length := by
  unfold write
  split <;> simp only [reduceCtorEq, false_iff, true_iff] <;> omega

theorem move_eq_none (h : cells.length < src + n ∨ cells.length < dst + n) :
    move cells dst src n = none := by
  unfold move read
  split
  · refine write_eq_none.2 ?_
    rw [List.length_take, List.length_drop]
    omega
  · rfl

theorem write_length (h : write cells start xs = some cells') : cells'.length = cells.length := by
  unfold write at h
  split at h
  · cases h
    simp only [List.length_append, List.length_take, List.length_drop]
    omega
  · exact nomatch h

theorem move_length (h : move cells dst src n = some cells') : cells'.length = cells.length := by
  unfold move at h
  obtain ⟨xs, -, h⟩ := Option.bind_eq_some_iff.1 h
  exact write_length h

/-- A part is moved up by `n` cells over the cells behind it. -/
theorem move_up (front middle : List α) (hs : front.length = src) (hn : n ≤ back.length) :
    ∃ gap, gap.length = n ∧ move (front ++ middle ++ back) (src + n) src middle.length =
      some (front ++ gap ++ middle ++ back.drop n) := by
  refine ⟨(middle ++ back).take n, by simp only [List.length_take, List.length_append]; omega, ?_⟩
  subst hs
  unfold move
  rw [read_part rfl rfl]
  show write _ _ _ = _
  have hcells : front ++ middle ++ back =
      (front ++ (middle ++ back).take n) ++ ((middle ++ back).drop n).take middle.length ++
        back.drop n := by
    have htail : ((middle ++ back).drop n).drop middle.length = back.drop n := by
      rw [List.drop_drop, Nat.add_comm, ← List.drop_drop, List.drop_left]
    rw [← htail, List.append_assoc _ _ (List.drop _ _), List.take_append_drop,
      List.append_assoc front (List.take n _), List.take_append_drop, List.append_assoc]
  rw [hcells, write_part]
  · simp only [List.length_append, List.length_take]
    omega
  · simp only [List.length_append, List.length_take, List.length_drop]
    omega

/-- A part is moved down to the beginning of the array, over what stands before it. -/
theorem move_down (front middle back : List α) (hs : front.length = src) :
    ∃ rest, rest.length = front.length + back.length ∧
      move (front ++ middle ++ back) 0 src middle.length = some (middle ++ rest) := by
  refine ⟨((front ++ middle ++ back).drop middle.length), ?_, ?_⟩
  · simp only [List.length_drop, List.length_append]
    omega
  unfold move
  rw [read_part hs rfl]
  exact write_front (by simp only [List.length_append]; omega)

end Block

end RtcCore
