import RtcCore.Core.Bytes

/-!
# Memory

A buffer that a C function writes to, as a function from addresses to octets:
`load` and `store` are `memcpy` from and to it. What a store does not cover
stays (`store_of_lt`, `store_of_le`).
-/
namespace RtcCore

abbrev Memory := Nat → UInt8

namespace Memory

def load (mem : Memory) (start n : Nat) : Bytes := (List.range n).map fun i => mem (start + i)

def store (mem : Memory) (start : Nat) (data : Bytes) : Memory := fun i =>
  if start ≤ i then (data[i - start]?).getD (mem i) else mem i

theorem load_length (mem : Memory) (start n : Nat) : (load mem start n).length = n := by
  rw [load, List.length_map, List.length_range]

variable {mem : Memory} {start i : Nat} {data : Bytes}

theorem store_of_lt (h : i < start) : store mem start data i = mem i := if_neg (by omega)

theorem store_of_le (h : start + data.length ≤ i) : store mem start data i = mem i := by
  rw [store, if_pos (by omega), List.getElem?_eq_none (by omega)]
  rfl

theorem store_of_mem (h1 : start ≤ i) (h2 : i - start < data.length) :
    store mem start data i = data[i - start] := by
  rw [store, if_pos h1, List.getElem?_eq_getElem h2]
  rfl

theorem store_eq (h1 : start ≤ i) (h2 : i < start + data.length) :
    store mem start data i = Bytes.getByte data (i - start) := by
  rw [store_of_mem h1 (by omega), Bytes.getByte, List.getElem?_eq_getElem (by omega)]
  rfl

theorem getByte_load {n : Nat} (h : i < n) : Bytes.getByte (load mem 0 n) i = mem i := by
  rw [Bytes.getByte, List.getElem?_eq_getElem (by rw [load_length]; exact h)]
  simp only [load, List.getElem_map, List.getElem_range, Nat.zero_add, Option.getD_some]

/-- Memory that holds `b` from address 0 on. -/
theorem load_eq {b : Bytes} (h : ∀ i (hi : i < b.length), mem i = b[i]) :
    load mem 0 b.length = b := by
  refine List.ext_getElem (load_length ..) fun i h1 h2 => ?_
  simp only [load, List.getElem_map, List.getElem_range, Nat.zero_add]
  exact h i h2

end Memory

end RtcCore
