import RtcCore.Core.Memory

/-!
# `FifoBuffer`

The circular buffer of `webrtc/base/stream.cc`, as far as `PseudoTcp` uses it:
octets are read and written at an offset from the read position, and the
readable part grows and shrinks on its own. The memory is a function, only
looked at below `bufferLength`. Both copies of a read or a write that runs over
the end of the memory are kept; `octet i` is the one that stands `i` places
behind the read position.

Results:
- `readOffset_eq`: a read returns the octets behind the offset.
- `writeOffset_octet`: a write changes these octets and no others.
- `write_contents`, `consumeReadData_contents`: the queue of readable octets.
-/
namespace RtcCore.L2

open Memory

structure FifoBuffer where
  buffer : Memory
  bufferLength : Nat
  dataLength : Nat := 0
  readPosition : Nat := 0

namespace FifoBuffer

variable (f : FifoBuffer)

def getWriteRemaining : Nat := f.bufferLength - f.dataLength

/-- No value: `SR_BLOCK`.
mirrors webrtc/base/stream.cc:1166-1186 -/
def readOffset (bytes offset : Nat) : Option Bytes :=
  if offset ≥ f.dataLength then none
  else
    let available := f.dataLength - offset
    let readPosition := (f.readPosition + offset) % f.bufferLength
    let copy := min bytes available
    let tailCopy := min copy (f.bufferLength - readPosition)
    some (load f.buffer readPosition tailCopy ++ load f.buffer 0 (copy - tailCopy))

/-- How many octets were written; no value: `SR_BLOCK`.
mirrors webrtc/base/stream.cc:1188-1213 -/
def writeOffset (data : Bytes) (offset : Nat) : Option (Nat × FifoBuffer) :=
  if f.dataLength + offset ≥ f.bufferLength then none
  else
    let available := f.bufferLength - f.dataLength - offset
    let writePosition := (f.readPosition + f.dataLength + offset) % f.bufferLength
    let copy := min data.length available
    let tailCopy := min copy (f.bufferLength - writePosition)
    let mem := store f.buffer writePosition (data.take tailCopy)
    some (copy, { f with buffer := store mem 0 ((data.take copy).drop tailCopy) })

/-- mirrors webrtc/base/stream.cc:1061-1083 -/
def read (bytes : Nat) : Option (Bytes × FifoBuffer) :=
  (f.readOffset bytes 0).map fun data =>
    (data, { f with
      readPosition := (f.readPosition + data.length) % f.bufferLength
      dataLength := f.dataLength - data.length })

/-- mirrors webrtc/base/stream.cc:1085-1106 -/
def write (data : Bytes) : Nat × FifoBuffer :=
  match f.writeOffset data 0 with
  | none => (0, f)
  | some (copy, f) => (copy, { f with dataLength := f.dataLength + copy })

/-- mirrors webrtc/base/stream.cc:1120-1129 -/
def consumeReadData (size : Nat) : FifoBuffer :=
  { f with
    readPosition := (f.readPosition + size) % f.bufferLength
    dataLength := f.dataLength - size }

/-- mirrors webrtc/base/stream.cc:1150-1158 -/
def consumeWriteBuffer (size : Nat) : FifoBuffer := { f with dataLength := f.dataLength + size }

/-- The new memory is not initialised; no value: there is more data than that.
mirrors webrtc/base/stream.cc:1025-1043 -/
def setCapacity (fresh : Memory) (size : Nat) : Option FifoBuffer :=
  if f.dataLength > size then none
  else if size ≠ f.bufferLength then
    let tailCopy := min f.dataLength (f.bufferLength - f.readPosition)
    let mem := store fresh 0 (load f.buffer f.readPosition tailCopy)
    some { f with
      buffer := store mem tailCopy (load f.buffer 0 (f.dataLength - tailCopy))
      readPosition := 0
      bufferLength := size }
  else some f

/-! ## The octets behind the read position -/

def octet (i : Nat) : UInt8 := f.buffer ((f.readPosition + i) % f.bufferLength)

/-- What can be read. -/
def contents : Bytes := (List.range f.dataLength).map f.octet

structure WF : Prop where
  position : f.readPosition < f.bufferLength
  data : f.dataLength ≤ f.bufferLength

variable {f}

theorem index_eq {r i n : Nat} (hr : r < n) (hi : i ≤ n) :
    (r + i) % n = if r + i < n then r + i else r + i - n := by
  split
  · exact Nat.mod_eq_of_lt ‹_›
  · rw [Nat.mod_eq_sub_mod (by omega), Nat.mod_eq_of_lt (by omega)]

/-- Places behind a place are places behind the read position. -/
theorem octet_add (f : FifoBuffer) (i j : Nat) :
    f.octet (i + j) = f.buffer (((f.readPosition + i) % f.bufferLength + j) % f.bufferLength) := by
  rw [octet, ← Nat.add_assoc, Nat.mod_add_mod]

theorem readOffset_eq (h : f.WF) {bytes offset : Nat} (ho : offset < f.dataLength) :
    f.readOffset bytes offset =
      some ((List.range (min bytes (f.dataLength - offset))).map fun i => f.octet (offset + i)) := by
  obtain ⟨hp, hd⟩ := h
  rw [readOffset, if_neg (by omega)]
  dsimp only
  obtain ⟨p, hpos⟩ : ∃ p, p = (f.readPosition + offset) % f.bufferLength := ⟨_, rfl⟩
  have hlt : p < f.bufferLength := by
    rw [hpos]
    exact Nat.mod_lt _ (by omega)
  obtain ⟨n, hn⟩ : ∃ n, n = min bytes (f.dataLength - offset) := ⟨_, rfl⟩
  rw [← hpos, ← hn]
  congr 1
  refine List.ext_getElem ?_ fun i h1 h2 => ?_
  · rw [List.length_append, load_length, load_length, List.length_map, List.length_range]
    omega
  · rw [List.length_map, List.length_range] at h2
    rw [List.getElem_map, List.getElem_range, octet_add, ← hpos, index_eq hlt (by omega)]
    by_cases hi : i < min n (f.bufferLength - p)
    · -- before the end of the memory
      rw [List.getElem_append_left (by rw [load_length]; exact hi)]
      simp only [load, List.getElem_map, List.getElem_range]
      rw [if_pos (by omega)]
    · rw [List.getElem_append_right (by rw [load_length]; omega)]
      simp only [load, List.getElem_map, List.getElem_range, List.length_map, List.length_range]
      rw [if_neg (by omega)]
      congr 1
      omega

/-- A place from one before it. -/
theorem index_behind {r n i k : Nat} (hk : k ≤ i) (hi : i < n) :
    (r + i) % n = if (r + k) % n + (i - k) < n then (r + k) % n + (i - k)
      else (r + k) % n + (i - k) - n := by
  have hlt : (r + k) % n < n := Nat.mod_lt _ (by omega)
  rw [← index_eq hlt (by omega), Nat.mod_add_mod, Nat.add_assoc, Nat.add_sub_cancel' hk]

/-- A write changes the octets it covers. -/
theorem writeOffset_octet {data : Bytes} {offset : Nat}
    (ho : f.dataLength + offset < f.bufferLength) :
    ∃ mem, f.writeOffset data offset =
        some (min data.length (f.bufferLength - f.dataLength - offset), { f with buffer := mem }) ∧
      ∀ i, i < f.bufferLength → octet { f with buffer := mem } i =
        if f.dataLength + offset ≤ i then (data[i - (f.dataLength + offset)]?).getD (f.octet i)
        else f.octet i := by
  rw [writeOffset, if_neg (by omega)]
  refine ⟨_, rfl, fun i hi => ?_⟩
  obtain ⟨k, hk⟩ : ∃ k, k = f.dataLength + offset := ⟨_, rfl⟩
  obtain ⟨p, hpos⟩ : ∃ p, p = (f.readPosition + k) % f.bufferLength := ⟨_, rfl⟩
  obtain ⟨copy, hcopy⟩ : ∃ c, c = min data.length (f.bufferLength - k) := ⟨_, rfl⟩
  obtain ⟨tail, htail⟩ : ∃ t, t = min copy (f.bufferLength - p) := ⟨_, rfl⟩
  obtain ⟨x, hx⟩ : ∃ x, x = (f.readPosition + i) % f.bufferLength := ⟨_, rfl⟩
  rw [octet, octet]
  dsimp only
  rw [Nat.add_assoc, Nat.sub_sub, ← hk, ← hpos, ← hcopy, ← htail, ← hx]
  have hl1 : (data.take tail).length = tail := by
    rw [List.length_take]
    omega
  have hl2 : ((data.take copy).drop tail).length = copy - tail := by
    rw [List.length_drop, List.length_take]
    omega
  have hlt : p < f.bufferLength := by
    rw [hpos]
    exact Nat.mod_lt _ (by omega)
  rw [← hk] at ho
  generalize f.bufferLength = n at *
  clear hk
  by_cases hki : k ≤ i
  · rw [index_behind hki hi, ← hpos] at hx
    by_cases hin : i - k < data.length
    · -- a place that is written, before or behind the end of the memory
      rw [if_pos hki, List.getElem?_eq_getElem hin, Option.getD_some]
      by_cases hfirst : i - k < tail
      · rw [if_pos (by omega)] at hx
        rw [store_of_le (by rw [hl2]; omega), store_of_mem (by omega) (by rw [hl1]; omega),
          List.getElem_take]
        congr 1
        omega
      · rw [if_neg (by omega)] at hx
        rw [store_of_mem (Nat.zero_le _) (by rw [hl2]; omega), List.getElem_drop,
          List.getElem_take]
        congr 1
        omega
    · rw [if_pos hki, List.getElem?_eq_none (by omega), Option.getD_none]
      split at hx
      · rw [store_of_le (by rw [hl2]; omega)]
        exact store_of_le (by rw [hl1]; omega)
      · rw [store_of_le (by rw [hl2]; omega)]
        exact store_of_lt (by omega)
  · have hback := index_behind (r := f.readPosition) (Nat.le_of_not_le hki)
      (show k < n by omega)
    rw [← hpos, ← hx] at hback
    have hxn : x < n := by
      rw [hx]
      exact Nat.mod_lt _ (by omega)
    rw [if_neg hki]
    split at hback
    · rw [store_of_le (by rw [hl2]; omega)]
      exact store_of_lt (by omega)
    · rw [store_of_le (by rw [hl2]; omega)]
      exact store_of_le (by rw [hl1]; omega)

theorem contents_length (f : FifoBuffer) : f.contents.length = f.dataLength := by
  rw [contents, List.length_map, List.length_range]

theorem consumeReadData_octet (f : FifoBuffer) (size i : Nat) :
    (f.consumeReadData size).octet i = f.octet (size + i) := (octet_add f size i).symm

theorem consumeReadData_contents {size : Nat} :
    (f.consumeReadData size).contents = f.contents.drop size := by
  refine List.ext_getElem ?_ fun i h1 h2 => ?_
  · rw [List.length_drop, contents_length, contents_length]
    rfl
  · simp only [contents, List.getElem_map, List.getElem_range, List.getElem_drop,
      consumeReadData_octet]

theorem WF.consumeReadData (h : f.WF) (size : Nat) : (f.consumeReadData size).WF :=
  ⟨Nat.mod_lt _ (Nat.zero_lt_of_lt h.position), Nat.le_trans (Nat.sub_le ..) h.data⟩

/-- A write appends what there is room for. -/
theorem write_contents (h : f.WF) (data : Bytes) :
    (f.write data).1 = min data.length f.getWriteRemaining ∧
      (f.write data).2.contents = f.contents ++ data.take (f.write data).1 ∧
      (f.write data).2.dataLength = f.dataLength + (f.write data).1 ∧
      (f.write data).2.bufferLength = f.bufferLength ∧ (f.write data).2.WF := by
  by_cases hroom : f.dataLength < f.bufferLength
  · obtain ⟨mem, hw, hoctet⟩ := @writeOffset_octet f data 0 (by omega)
    rw [Nat.sub_zero] at hw
    have hwrite : f.write data = (min data.length (f.bufferLength - f.dataLength),
        { f with
          buffer := mem
          dataLength := f.dataLength + min data.length (f.bufferLength - f.dataLength) }) := by
      rw [write, hw]
    rw [hwrite]
    refine ⟨rfl, ?_, rfl, rfl, ⟨h.position, by dsimp only; omega⟩⟩
    refine List.ext_getElem ?_ fun i h1 h2 => ?_
    · rw [List.length_append, contents_length, contents_length, List.length_take]
      dsimp only
      omega
    · rw [contents_length] at h1
      have hi : i < f.bufferLength := by dsimp only at h1; omega
      have ho := hoctet i hi
      have hget : (contents { f with
          buffer := mem
          dataLength := f.dataLength + min data.length (f.bufferLength - f.dataLength) })[i] =
            octet { f with buffer := mem } i := by
        simp only [contents, List.getElem_map, List.getElem_range]
        rfl
      rw [hget, ho, Nat.add_zero]
      by_cases hold : i < f.dataLength
      · rw [if_neg (by omega), List.getElem_append_left (by rw [contents_length]; exact hold)]
        simp only [contents, List.getElem_map, List.getElem_range]
      · rw [if_pos (by omega), List.getElem_append_right (by rw [contents_length]; omega),
          List.getElem?_eq_getElem (by dsimp only at h1; omega), Option.getD_some,
          List.getElem_take]
        congr 1
        rw [contents_length]
  · have hfull : f.write data = (0, f) := by
      rw [write, writeOffset, if_pos (by omega)]
    rw [hfull, getWriteRemaining, show f.bufferLength - f.dataLength = 0 by omega, Nat.min_zero,
      List.take_zero, List.append_nil]
    exact ⟨rfl, rfl, rfl, rfl, h⟩

end FifoBuffer

end RtcCore.L2
