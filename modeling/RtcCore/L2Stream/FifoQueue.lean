import RtcCore.Core.StagedQueue
import RtcCore.L2Stream.FifoBuffer

/-!
# `FifoBuffer` as a queue with staged writes

`webrtc/base/stream.cc` over whole runs of its reads and writes. Octet `i`
behind the read position is the item at place `read + i` of a `StagedQueue`;
which octets the memory held before is not known. The sizes of the two
`Consume` calls are those their assertions allow, and the offset of a
`WriteOffset` is one whose sum with the data length is a `size_t`.

Results:
- `step_refines`: every operation does what the queue does.
- `spans_inside`: both copies of an access stay in the memory.
- `fifo_refines`: runs of the buffer are runs of the queue.
-/
namespace RtcCore.L2

open Memory StagedQueue

namespace FifoBuffer

variable (f : FifoBuffer)

/-! ## Accesses -/

/-- Start and length of the two copies of a read.
mirrors webrtc/base/stream.cc:1174-1180 -/
def readSpans (bytes offset : Nat) : List (Nat × Nat) :=
  if offset ≥ f.dataLength then []
  else
    let readPosition := (f.readPosition + offset) % f.bufferLength
    let copy := min bytes (f.dataLength - offset)
    let tailCopy := min copy (f.bufferLength - readPosition)
    [(readPosition, tailCopy), (0, copy - tailCopy)]

/-- Start and length of the two copies of a write.
mirrors webrtc/base/stream.cc:1200-1207 -/
def writeSpans (data : Bytes) (offset : Nat) : List (Nat × Nat) :=
  if f.dataLength + offset ≥ f.bufferLength then []
  else
    let writePosition := (f.readPosition + f.dataLength + offset) % f.bufferLength
    let copy := min data.length (f.bufferLength - f.dataLength - offset)
    let tailCopy := min copy (f.bufferLength - writePosition)
    [(writePosition, tailCopy), (0, copy - tailCopy)]

/-- The parts of the memory that an operation copies from or to. -/
def spans : QueueOp UInt8 → List (Nat × Nat)
  | .write data _ => f.writeSpans data 0
  | .read bytes _ => f.readSpans bytes 0
  | .readOffset bytes offset _ => f.readSpans bytes offset
  | .writeOffset data offset _ => f.writeSpans data offset
  | .consumeReadData _ => []
  | .consumeWriteBuffer _ => []

/-- A read returns what stands in its spans. -/
theorem readOffset_spans (bytes offset : Nat) :
    f.readOffset bytes offset = if offset ≥ f.dataLength then none
      else some ((f.readSpans bytes offset).flatMap fun s => load f.buffer s.1 s.2) := by
  rw [readOffset, readSpans]
  split
  · rfl
  · simp only [List.flatMap_cons, List.flatMap_nil, List.append_nil]

/-- A write changes no place outside its spans. -/
theorem writeOffset_spans {data : Bytes} {offset n : Nat} {f' : FifoBuffer}
    (h : f.writeOffset data offset = some (n, f')) {i : Nat}
    (hi : ∀ s ∈ f.writeSpans data offset, ¬(s.1 ≤ i ∧ i < s.1 + s.2)) :
    f'.buffer i = f.buffer i := by
  rw [writeOffset] at h
  rw [writeSpans] at hi
  split at h
  · exact absurd h (Option.some_ne_none _).symm
  · rename_i hroom
    rw [if_neg hroom] at hi
    cases h
    dsimp only at hi ⊢
    have hpos := hi _ (List.mem_cons_self ..)
    have hzero := hi _ (List.mem_cons_of_mem _ (List.mem_cons_self ..))
    dsimp only at hpos hzero
    rw [store_of_le (by rw [List.length_drop, List.length_take]; omega)]
    by_cases hlow : i < (f.readPosition + f.dataLength + offset) % f.bufferLength
    · exact store_of_lt hlow
    · apply store_of_le
      rw [List.length_take]
      omega

variable {f}

theorem spans_inside (h : f.WF) (op : QueueOp UInt8) :
    ∀ s ∈ f.spans op, s.1 + s.2 ≤ f.bufferLength := by
  have hlt (k : Nat) : k % f.bufferLength < f.bufferLength :=
    Nat.mod_lt _ (Nat.zero_lt_of_lt h.position)
  have hread (bytes offset : Nat) : ∀ s ∈ f.readSpans bytes offset, s.1 + s.2 ≤ f.bufferLength := by
    rw [readSpans]
    have hd := h.data
    have hp := hlt (f.readPosition + offset)
    split
    · simp
    · simp
      omega
  have hwrite (data : Bytes) (offset : Nat) :
      ∀ s ∈ f.writeSpans data offset, s.1 + s.2 ≤ f.bufferLength := by
    rw [writeSpans]
    have hp := hlt (f.readPosition + f.dataLength + offset)
    split
    · simp
    · simp
      omega
  cases op with
  | write data n => exact hwrite data 0
  | read bytes out => exact hread bytes 0
  | readOffset bytes offset out => exact hread bytes offset
  | writeOffset data offset n => exact hwrite data offset
  | consumeReadData | consumeWriteBuffer => simp [spans]

/-! ## Runs -/

/-- What a call returned, and the buffer after it: `SR_BLOCK` changes nothing. -/
def outcome {α : Type} (f : FifoBuffer) (r : Option (α × FifoBuffer)) : Option α × FifoBuffer :=
  r.elim (none, f) fun r => (some r.1, r.2)

/-- The operation takes `f` to `f'` and returns what it says.
mirrors webrtc/base/stream.cc:1061-1213 -/
def Step (f : FifoBuffer) (op : QueueOp UInt8) (f' : FifoBuffer) : Prop :=
  match op with
  | .write data n => f.write data = (n, f')
  | .read bytes out => f.outcome (f.read bytes) = (out, f')
  | .readOffset bytes offset out => f.readOffset bytes offset = out ∧ f' = f
  | .writeOffset data offset n =>
      f.dataLength + offset < 2 ^ 64 ∧ f.outcome (f.writeOffset data offset) = (n, f')
  | .consumeReadData size => size ≤ f.dataLength ∧ f' = f.consumeReadData size
  | .consumeWriteBuffer size =>
      size ≤ f.bufferLength - f.dataLength ∧ f' = f.consumeWriteBuffer size

/-- The new memory is not initialised.
mirrors webrtc/base/stream.cc:1003-1007 -/
def system (capacity : Nat) : LTS FifoBuffer (QueueOp UInt8) where
  init f := ∃ mem, f = { buffer := mem, bufferLength := capacity }
  step := Step

/-- The octets behind the read position are the items of the queue, as far as
there are items. -/
structure Refines (capacity : Nat) (f : FifoBuffer) (q : StagedQueue UInt8) : Prop where
  wf : f.WF
  inv : q.Inv capacity
  bufferLength : f.bufferLength = capacity
  dataLength : f.dataLength = q.length
  octet : ∀ i b, i < capacity → q.item (q.read + i) = some b → f.octet i = b

variable {capacity : Nat} {q : StagedQueue UInt8} {f' : FifoBuffer}

theorem Refines.init (hc : 0 < capacity) (mem : Memory) :
    Refines capacity { buffer := mem, bufferLength := capacity } {} :=
  ⟨⟨hc, Nat.zero_le _⟩, .empty, rfl, rfl, fun _ _ _ h => absurd h (Option.some_ne_none _).symm⟩

theorem Refines.answers (h : Refines capacity f q) (bytes offset : Nat) :
    q.Answers bytes offset (f.readOffset bytes offset) := by
  have hlen := h.dataLength
  by_cases ho : offset < f.dataLength
  · rw [readOffset_eq h.wf ho]
    refine ⟨by omega, ?_, fun i a b ha hb => ?_⟩
    · rw [List.length_map, List.length_range, hlen]
    · have hi : i < min bytes (f.dataLength - offset) := by
        have := (List.getElem?_eq_some_iff.1 ha).1
        rwa [List.length_map, List.length_range] at this
      have hd := h.wf.data
      have hcap := h.bufferLength
      rw [List.getElem?_map, List.getElem?_range hi, Option.map_some, Option.some.injEq] at ha
      rw [← ha]
      apply h.octet (offset + i) b (by omega)
      rw [← Nat.add_assoc]
      exact hb
  · rw [readOffset, if_pos (by omega)]
    exact Nat.le_trans (Nat.le_of_eq hlen.symm) (by omega)

/-- Taking octets moves the read position past them. -/
theorem Refines.consumeReadData {size : Nat} (h : Refines capacity f q) (hs : size ≤ q.length) :
    Refines capacity (f.consumeReadData size) { q with read := q.read + size } := by
  refine ⟨h.wf.consumeReadData size, h.inv.taken hs, h.bufferLength, ?_, fun i b hi hb => ?_⟩
  · have := h.dataLength
    simp only [FifoBuffer.consumeReadData, StagedQueue.length] at this ⊢
    omega
  · rw [consumeReadData_octet]
    dsimp only at hb
    rw [Nat.add_assoc] at hb
    by_cases hin : size + i < capacity
    · exact h.octet _ _ hin hb
    · -- the room that the octets left holds nothing yet
      rw [h.inv.fresh _ (by omega)] at hb
      exact absurd hb (Option.some_ne_none _).symm

theorem Refines.consumeWriteBuffer {size : Nat} (h : Refines capacity f q)
    (hs : size ≤ capacity - q.length) :
    Refines capacity (f.consumeWriteBuffer size) { q with written := q.written + size } := by
  obtain ⟨⟨hp, hd⟩, hinv, hcap, hlen, hoct⟩ := h
  have hle := hinv.read_le
  refine ⟨⟨hp, ?_⟩, hinv.committed hs, hcap, ?_, hoct⟩ <;>
    simp only [FifoBuffer.consumeWriteBuffer, StagedQueue.length] at * <;> omega

/-- A write at an offset puts its octets behind the committed ones. -/
theorem Refines.writeOffset (h : Refines capacity f q) (data : Bytes) {offset : Nat}
    (ho : q.length + offset < capacity) :
    ∃ mem, f.writeOffset data offset =
        some (min data.length (capacity - q.length - offset), { f with buffer := mem }) ∧
      Refines capacity { f with buffer := mem } (q.put (q.written + offset)
        (data.take (min data.length (capacity - q.length - offset)))) := by
  obtain ⟨hwf, hinv, hcap, hlen, hoct⟩ := h
  have hw : q.written = q.read + f.dataLength := by
    have := hinv.read_le
    rw [hlen, StagedQueue.length]
    omega
  obtain ⟨mem, heq, hmem⟩ := @writeOffset_octet f data offset (by omega)
  rw [show f.bufferLength - f.dataLength - offset = capacity - q.length - offset by omega] at heq
  refine ⟨mem, heq, ⟨hwf.position, hwf.data⟩, ?_, hcap, hlen, fun i b hi hb => ?_⟩
  · apply hinv.put
    rw [List.length_take]
    omega
  · have hb : (q.put (q.written + offset) (data.take (min data.length
      (capacity - q.length - offset)))).item (q.read + i) = some b := hb
    rw [hmem i (by omega)]
    by_cases hat : f.dataLength + offset ≤ i
    · obtain ⟨k, rfl⟩ : ∃ k, i = f.dataLength + offset + k :=
        ⟨i - (f.dataLength + offset), by omega⟩
      rw [if_pos hat, Nat.add_sub_cancel_left]
      rw [show q.read + (f.dataLength + offset + k) = q.written + offset + k by omega] at hb
      by_cases hk : k < data.length
      · rw [put_item (by rw [List.length_take]; omega), List.getElem?_take_of_lt (by omega)] at hb
        rw [hb, Option.getD_some]
      · rw [put_item_of_le (by rw [List.length_take]; omega)] at hb
        rw [List.getElem?_eq_none (by omega), Option.getD_none]
        apply hoct _ _ hi
        rw [← hb]
        congr 1
        omega
    · rw [if_neg hat]
      rw [put_item_of_lt (by omega)] at hb
      exact hoct _ _ hi hb

theorem Refines.writeOffset_full (h : Refines capacity f q) (data : Bytes) {offset : Nat}
    (ho : ¬ q.length + offset < capacity) : f.writeOffset data offset = none := by
  have hlen := h.dataLength
  have hcap := h.bufferLength
  exact if_pos (by omega)

/-- Every operation does what the queue does. -/
theorem step_refines {op : QueueOp UInt8} (h : Refines capacity f q) (hs : f.Step op f') :
    q.Allows capacity op ∧ Refines capacity f' (q.apply op) := by
  have hlen := h.dataLength
  cases op with
  | write data n =>
    have hs : f.write data = (n, f') := hs
    by_cases ho : q.length + 0 < capacity
    · obtain ⟨mem, heq, hr⟩ := h.writeOffset data ho
      rw [write, heq] at hs
      cases hs
      exact ⟨rfl, hr.consumeWriteBuffer (Nat.min_le_right ..)⟩
    · rw [write, h.writeOffset_full data ho] at hs
      cases hs
      refine ⟨show 0 = min data.length (capacity - q.length) by omega, ?_⟩
      rw [StagedQueue.apply, List.take_zero, put_nil]
      exact h
  | read bytes out =>
    have hs : f.outcome (f.read bytes) = (out, f') := hs
    have ha := h.answers bytes 0
    rw [FifoBuffer.read] at hs
    cases hr : f.readOffset bytes 0 with
    | none =>
      rw [hr] at hs ha
      cases hs
      exact ⟨ha, h⟩
    | some octets =>
      rw [hr] at hs ha
      cases hs
      exact ⟨ha, h.consumeReadData ha.length_le⟩
  | readOffset bytes offset out =>
    obtain ⟨rfl, rfl⟩ := hs
    exact ⟨h.answers bytes offset, h⟩
  | writeOffset data offset n =>
    have hs : f.outcome (f.writeOffset data offset) = (n, f') := hs.2
    by_cases ho : q.length + offset < capacity
    · obtain ⟨mem, heq, hr⟩ := h.writeOffset data ho
      rw [heq] at hs
      cases hs
      exact ⟨(if_pos ho).symm, hr⟩
    · rw [h.writeOffset_full data ho] at hs
      cases hs
      refine ⟨(if_neg ho).symm, ?_⟩
      rw [StagedQueue.apply, Option.getD_none, List.take_zero, put_nil]
      exact h
  | consumeReadData size =>
    obtain ⟨hsize, rfl⟩ := hs
    rw [hlen] at hsize
    exact ⟨hsize, h.consumeReadData hsize⟩
  | consumeWriteBuffer size =>
    obtain ⟨hsize, rfl⟩ := hs
    rw [h.bufferLength, hlen] at hsize
    exact ⟨hsize, h.consumeWriteBuffer hsize⟩

theorem run_refines {f₀ : FifoBuffer} {ops : List (QueueOp UInt8)} (hc : 0 < capacity)
    (h0 : (system capacity).init f₀) (r : (system capacity).Run f₀ ops f) :
    (StagedQueue.system UInt8 capacity).Run {} ops (history ops) ∧
      Refines capacity f (history ops) := by
  obtain ⟨mem, rfl⟩ := h0
  have hsim : ∀ f q op f', Refines capacity f q → (system capacity).step f op f' →
      ∃ q', (StagedQueue.system UInt8 capacity).step q op q' ∧ Refines capacity f' q' := by
    intro f q op f' h hs
    obtain ⟨hop, h'⟩ := step_refines h hs
    exact ⟨_, ⟨hop, rfl⟩, h'⟩
  obtain ⟨q, hq, hr⟩ := r.simulate hsim (.init hc mem)
  have : q = history ops := run_eq hq
  rw [← this]
  exact ⟨hq, hr⟩

/-- Every run of the buffer is one of the queue: reads return the octets at the
front of it, or behind an offset, and with plain writes and reads they come out
in the order in which they were written. No copy leaves the memory. An octet
staged at an offset stands at its place in every later buffer that has not given
it away, until an operation covers it. -/
theorem fifo_refines {f₀ : FifoBuffer} {ops : List (QueueOp UInt8)} (hc : 0 < capacity)
    (h0 : (system capacity).init f₀) (r : (system capacity).Run f₀ ops f) :
    ((StagedQueue.system UInt8 capacity).Run {} ops (history ops) ∧
      Refines capacity f (history ops)) ∧
    (∀ op, ∀ s ∈ f.spans op, s.1 + s.2 ≤ capacity) ∧
    ((∀ op ∈ ops, (given op).isSome) →
      ops.flatMap taken <+: ops.flatMap fun op => (given op).getD []) ∧
    (∀ before data offset n after k,
      ops = before ++ .writeOffset data offset (some n) :: after → k < n →
      Untouched ((history before).written + offset + k)
        (history (before ++ [.writeOffset data offset (some n)])) after →
      (history ops).read ≤ (history before).written + offset + k →
      data[k]? =
        some (f.octet ((history before).written + offset + k - (history ops).read))) := by
  obtain ⟨hrun, href⟩ := run_refines hc h0 r
  refine ⟨⟨hrun, href⟩, fun op s hs => ?_, fun hops => taken_prefix hrun hops, ?_⟩
  · rw [← href.bufferLength]
    exact spans_inside href.wf op s hs
  · intro before data offset n after k hops hk hu hread
    obtain ⟨i, hi⟩ := Nat.exists_eq_add_of_le hread
    have hitem : k < data.length ∧
        (history ops).item ((history before).written + offset + k) = data[k]? := by
      rw [hops] at hrun ⊢
      exact item_staged hrun hk hu
    obtain ⟨hlen, hitem⟩ := hitem
    rw [hi] at hitem
    rw [hi, Nat.add_sub_cancel_left, List.getElem?_eq_getElem hlen]
    rw [List.getElem?_eq_getElem hlen] at hitem
    have hin : i < capacity := by
      by_contra hout
      rw [href.inv.fresh _ (by omega)] at hitem
      exact absurd hitem.symm (Option.some_ne_none _)
    rw [href.octet i _ hin hitem]

/-- Two octets are staged behind a third one, which is written later; two of the three are read. -/
theorem fifo_refines_staged : ∃ f,
    (system 3).Run { buffer := fun _ => 0, bufferLength := 3 }
      [.writeOffset [7, 8] 1 (some 2), .write [1] 1, .consumeWriteBuffer 2,
        .read 2 (some [1, 7])] f ∧ some (8 : UInt8) = some (f.octet 0) := by
  have r : ∃ f, (system 3).Run { buffer := fun _ => 0, bufferLength := 3 }
      [.writeOffset [7, 8] 1 (some 2), .write [1] 1, .consumeWriteBuffer 2,
        .read 2 (some [1, 7])] f :=
    ⟨_, .cons ⟨by decide, rfl⟩ (.cons rfl (.cons ⟨by decide, rfl⟩ (.cons rfl (.nil _))))⟩
  obtain ⟨f, r⟩ := r
  have h := (fifo_refines (by decide) ⟨_, rfl⟩ r).2.2.2 [] [7, 8] 1 2 _ 1 rfl (by decide)
    ⟨fun hc => absurd hc.2 (by decide), id, id, trivial⟩ (by decide)
  exact ⟨f, r, h⟩

end FifoBuffer

end RtcCore.L2
