import RtcCore.Core.Memory

/-!
# A ring in memory

`Holds size mem at' w`: the first `size` octets of `mem`, read around the
circle from `at'` on, are `w`. A `memcpy` that does not cross the end of the
memory replaces the oldest octets by its own (`Holds.store`) and finds a slice
of `w` wherever in the circle it starts (`Holds.load`).
-/
namespace RtcCore.MemoryRing

structure Holds (size : Nat) (mem : Memory) (start : Nat) (w : Bytes) : Prop where
  length : w.length = size
  octet : ∀ i (h : i < w.length), mem ((start + i) % size) = w[i]

variable {size start i n : Nat} {mem : Memory} {w : Bytes}

theorem Holds.congr {start' : Nat} (h : Holds size mem start w)
    (he : start' % size = start % size) : Holds size mem start' w :=
  ⟨h.length, fun i hi => by rw [Nat.add_mod, he, ← Nat.add_mod]; exact h.octet i hi⟩

/-- What a store covers is what it overwrites: the octets it writes go to the
end of the circle, behind all that stays. -/
theorem Holds.store (h : Holds size mem start w) (xs : Bytes) (hfits : start + xs.length ≤ size) :
    Holds size (mem.store start xs) (start + xs.length) (w.drop xs.length ++ xs) := by
  have hlen := h.length
  refine ⟨by simp; omega, fun i hi => ?_⟩
  have hi' : i < size := by
    simp only [List.length_append, List.length_drop] at hi
    omega
  rcases Nat.lt_or_ge i (w.length - xs.length) with hold | hnew
  · have hidx : xs.length + i < w.length := by omega
    have hget : (w.drop xs.length ++ xs)[i] = w[xs.length + i] := by
      rw [List.getElem_append_left (by simp; omega), List.getElem_drop]
    rw [hget, ← h.octet (xs.length + i) (by omega), Nat.add_assoc]
    -- an old octet lies behind the store, or before it when it is past the end
    rcases Nat.lt_or_ge (start + (xs.length + i)) size with hend | hend
    · rw [Nat.mod_eq_of_lt hend, Memory.store_of_le (by omega)]
    · rw [Nat.mod_eq_sub_mod hend, Nat.mod_eq_of_lt (by omega), Memory.store_of_lt (by omega)]
  · have hidx : i - (w.length - xs.length) < xs.length := by omega
    have hget : (w.drop xs.length ++ xs)[i] = xs[i - (w.length - xs.length)] := by
      rw [List.getElem_append_right (by simp; omega)]
      simp only [List.length_drop]
    -- a new octet has gone once around the circle
    have hpos : (start + xs.length + i) % size = start + (i - (w.length - xs.length)) := by
      rw [Nat.mod_eq_sub_mod (by omega), Nat.mod_eq_of_lt (by omega)]
      omega
    rw [hget, hpos, Memory.store_of_mem (by omega) (by omega)]
    congr 1
    omega

/-- A load that starts at the `i`-th octet of the circle. -/
theorem Holds.load {pos : Nat} (h : Holds size mem start w) (hpos : pos % size = (start + i) % size)
    (hend : pos + n ≤ size) (hn : i + n ≤ size) : mem.load pos n = (w.drop i).take n := by
  have hlen := h.length
  refine List.ext_getElem (by rw [Memory.load_length]; simp; omega) fun k hk _ => ?_
  rw [Memory.load_length] at hk
  have hat : (start + (i + k)) % size = pos + k := by
    rw [← Nat.add_assoc, Nat.add_mod, ← hpos, ← Nat.add_mod, Nat.mod_eq_of_lt (by omega)]
  simp only [Memory.load, List.getElem_map, List.getElem_range, List.getElem_take,
    List.getElem_drop]
  rw [← hat, h.octet (i + k) (by omega)]

end RtcCore.MemoryRing
