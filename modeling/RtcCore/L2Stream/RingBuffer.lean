import RtcCore.Core.Int32
import RtcCore.Core.Machine
import RtcCore.Core.MemoryRing
import RtcCore.Core.RewindQueue

/-!
# The audio ring buffer

`WebRtc_WriteBuffer`, `WebRtc_ReadBuffer` and `WebRtc_MoveReadPtr` over two
positions that may both equal the element count, and a flag that says whether
the write position is a lap ahead. Moving the read position back stuffs the
buffer with what was read before; a new buffer is stuffed with zeros.

Results:
* `moveReadPtr_models`: the arithmetic in `int` and the flag do what a move of
  the queue does, for fewer than 2^30 elements.
* `answers_queue`: any run of calls answers as the queue with rewind that starts
  with nothing but zeros to give back.
-/
namespace RtcCore.L2

inductive Wrap where
  | sameWrap
  | diffWrap
  deriving DecidableEq, Repr

/-- mirrors webrtc/common_audio/ring_buffer.c:25-32
`data` is the memory behind the pointer, from address 0 on. -/
structure RingBuffer where
  readPos : Nat
  writePos : Nat
  elementCount : Nat
  elementSize : Nat
  rwWrap : Wrap
  data : Memory

namespace RingBuffer

/-! ## The buffer -/

/-- mirrors webrtc/common_audio/ring_buffer.c:93-100 -/
def initBuffer (self : RingBuffer) : RingBuffer :=
  { self with
    readPos := 0
    writePos := 0
    rwWrap := .sameWrap
    data := self.data.store 0 (List.replicate (sizeT (self.elementCount * self.elementSize)) 0) }

/-- mirrors webrtc/common_audio/ring_buffer.c:68-91
`malloced` is the memory that `malloc` finds. -/
def createBuffer (malloced : Memory) (elementCount elementSize : Nat) : Option RingBuffer :=
  if elementCount = 0 ∨ elementSize = 0 then none
  else some (initBuffer ⟨0, 0, elementCount, elementSize, .sameWrap, malloced⟩)

section Source

variable (self : RingBuffer)

/-- mirrors webrtc/common_audio/ring_buffer.c:229-239 -/
def availableRead : Nat :=
  if self.rwWrap = .sameWrap then sizeT (self.writePos - self.readPos)
  else sizeT (self.elementCount - self.readPos + self.writePos)

/-- mirrors webrtc/common_audio/ring_buffer.c:241-247 -/
def availableWrite : Nat := sizeT (self.elementCount - self.availableRead)

/-- The addresses in `data` of what can be read, with the number of octets at each. -/
structure Regions where
  readElements : Nat
  ptr1 : Nat
  bytes1 : Nat
  ptr2 : Nat
  bytes2 : Nat

/-- mirrors webrtc/common_audio/ring_buffer.c:39-66 -/
def getBufferReadRegions (elementCount : Nat) : Regions :=
  let readElements := if self.availableRead < elementCount then self.availableRead else elementCount
  let margin := sizeT (self.elementCount - self.readPos)
  let ptr1 := sizeT (self.readPos * self.elementSize)
  if margin < readElements then
    ⟨readElements, ptr1, sizeT (margin * self.elementSize), 0,
      sizeT (sizeT (readElements - margin) * self.elementSize)⟩
  else ⟨readElements, ptr1, sizeT (readElements * self.elementSize), 0, 0⟩

/-- mirrors webrtc/common_audio/ring_buffer.c:192-227 -/
def moveReadPtr (elementCount : Int) : Int × RingBuffer :=
  let freeElements := int32 self.availableWrite
  let readableElements := int32 self.availableRead
  let elementCount := if elementCount > readableElements then readableElements else elementCount
  let elementCount :=
    if elementCount < int32 (-freeElements) then int32 (-freeElements) else elementCount
  let readPos := int32 (int32 self.readPos + elementCount)
  -- a wrap around, the two `if`s of the source one after the other
  let ahead : Int × Wrap :=
    if readPos > int32 self.elementCount then (int32 (readPos - int32 self.elementCount), .sameWrap)
    else (readPos, self.rwWrap)
  let behind : Int × Wrap :=
    if ahead.1 < 0 then (int32 (ahead.1 + int32 self.elementCount), .diffWrap) else ahead
  (elementCount, { self with readPos := sizeT behind.1, rwWrap := behind.2 })

/-- What a read gives: the octets that `*data_ptr` points at, or that are in
`data` where no `data_ptr` was passed, and whether `data` was written to. -/
structure Read where
  readCount : Nat
  octets : Bytes
  copied : Bool

/-- mirrors webrtc/common_audio/ring_buffer.c:112-155 -/
def readBuffer (dataPtr : Bool) (elementCount : Nat) : Read × RingBuffer :=
  let regions := self.getBufferReadRegions elementCount
  let first := self.data.load regions.ptr1 regions.bytes1
  let octets :=
    if regions.bytes2 > 0 then first ++ self.data.load regions.ptr2 regions.bytes2 else first
  (⟨regions.readElements, octets, decide (regions.bytes2 > 0) || !dataPtr⟩,
    (self.moveReadPtr (int32 regions.readElements)).2)

/-- mirrors webrtc/common_audio/ring_buffer.c:157-190 -/
def writeBuffer (data : Bytes) (elementCount : Nat) : Nat × RingBuffer :=
  let freeElements := self.availableWrite
  let writeElements := if freeElements < elementCount then freeElements else elementCount
  let margin := sizeT (self.elementCount - self.writePos)
  let wrapped :=
    if margin < writeElements then
      { self with
        data := self.data.store (sizeT (self.writePos * self.elementSize))
          (data.take (sizeT (margin * self.elementSize)))
        writePos := 0
        rwWrap := .diffWrap }
    else self
  let n := if margin < writeElements then sizeT (writeElements - margin) else writeElements
  let rest := data.drop (sizeT (sizeT (writeElements - n) * self.elementSize))
  (writeElements,
    { wrapped with
      data := wrapped.data.store (sizeT (wrapped.writePos * self.elementSize))
        (rest.take (sizeT (n * self.elementSize)))
      writePos := sizeT (wrapped.writePos + n) })

end Source

/-! ## Elements -/

/-- An element, as the octets it has in memory. -/
abbrev Element (size : Nat) := { octets : Bytes // octets.length = size }

variable {size count : Nat}

def octets (els : List (Element size)) : Bytes := els.flatMap Subtype.val

@[simp] theorem octets_append (xs ys : List (Element size)) :
    octets (xs ++ ys) = octets xs ++ octets ys := List.flatMap_append

@[simp] theorem octets_length (els : List (Element size)) :
    (octets els).length = els.length * size := by
  induction els with
  | nil => simp [octets]
  | cons e els ih =>
    rw [octets, List.flatMap_cons, List.length_append, e.2, List.length_cons, Nat.succ_mul,
      Nat.add_comm]
    exact congrArg (· + size) ih

theorem octets_drop (els : List (Element size)) (n : Nat) :
    octets (els.drop n) = (octets els).drop (n * size) := by
  rcases Nat.le_total n els.length with h | h
  · have hlen : (octets (els.take n)).length = n * size := by simp [Nat.min_eq_left h]
    conv_rhs => rw [← List.take_append_drop n els, octets_append]
    exact (List.drop_left' hlen).symm
  · have hle : (octets els).length ≤ n * size := by
      rw [octets_length]
      exact Nat.mul_le_mul_right size h
    rw [List.drop_eq_nil_of_le h, List.drop_eq_nil_of_le hle]
    rfl

theorem octets_take (els : List (Element size)) (n : Nat) :
    octets (els.take n) = (octets els).take (n * size) := by
  rcases Nat.le_total n els.length with h | h
  · have hlen : (octets (els.take n)).length = n * size := by simp [Nat.min_eq_left h]
    conv_rhs => rw [← List.take_append_drop n els, octets_append]
    exact (List.take_left' hlen).symm
  · have hle : (octets els).length ≤ n * size := by
      rw [octets_length]
      exact Nat.mul_le_mul_right size h
    rw [List.take_of_length_le h, List.take_of_length_le hle]

def zeroElement (size : Nat) : Element size := ⟨List.replicate size 0, List.length_replicate⟩

theorem octets_zeros (n : Nat) :
    octets (List.replicate n (zeroElement size)) = List.replicate (n * size) 0 := by
  induction n with
  | zero => simp [octets]
  | succ n ih =>
    rw [List.replicate_succ, octets, List.flatMap_cons]
    rw [octets] at ih
    rw [ih, Nat.succ_mul, Nat.add_comm, List.replicate_add]
    rfl

/-! ## The queue in the buffer -/

/-- The sizes for which neither an `int` nor the number of octets overflows. -/
structure Fits (count size : Nat) : Prop where
  positive : 0 < size
  few : count < 1073741824
  small : count * size < 18446744073709551616

/-- The buffer holds the elements of the queue around the circle, the oldest
at the write position; the flag says how far the read position is from there. -/
structure Models (b : RingBuffer) (q : RewindQueue (Element size) count) : Prop where
  elementCount : b.elementCount = count
  elementSize : b.elementSize = size
  readPos : b.readPos ≤ count
  writePos : b.writePos ≤ count
  sameWrap : b.rwWrap = .sameWrap → b.readPos + q.pending.length = b.writePos
  diffWrap : b.rwWrap = .diffWrap →
    b.readPos + q.pending.length = count + b.writePos
  holds : MemoryRing.Holds (count * size) b.data (b.writePos * size) (octets q.elements)

variable {b : RingBuffer} {q : RewindQueue (Element size) count}

theorem sizeT_octets (hf : Fits count size) {n : Nat} (h : n ≤ count) {z : Int}
    (hz : z = n * size) :
    sizeT z = n * size := by
  have hle := Nat.mul_le_mul_right size h
  have hfits := hf.small
  exact sizeT_eq (by rw [hz, Int.natCast_mul]) (by omega)

theorem Models.availableRead (h : Models b q) (hf : Fits count size) :
    b.availableRead = q.pending.length := by
  have hc := hf.few
  have hfull := q.full
  have hn := h.elementCount
  unfold RingBuffer.availableRead
  split
  · rename_i hw
    have hw := h.sameWrap hw
    exact sizeT_eq (by omega) (by omega)
  · rename_i hw
    have hw := h.diffWrap (by cases hw' : b.rwWrap <;> simp_all)
    exact sizeT_eq (by omega) (by omega)

theorem Models.availableWrite (h : Models b q) (hf : Fits count size) :
    b.availableWrite = q.retained.length := by
  have hc := hf.few
  have hfull := q.full
  have hn := h.elementCount
  exact sizeT_eq (by rw [h.availableRead hf]; omega) (by omega)

/-- Where the first pending element is, counted from the oldest element. -/
theorem Models.readPos_mod (h : Models b q) :
    b.readPos % count = (b.writePos + q.retained.length) % count := by
  have hfull := q.full
  cases hw : b.rwWrap with
  | sameWrap =>
    have hw := h.sameWrap hw
    rw [show b.writePos + q.retained.length = b.readPos + count by omega, Nat.add_mod_right]
  | diffWrap =>
    have hw := h.diffWrap hw
    rw [show b.writePos + q.retained.length = b.readPos by omega]

/-! ## Moving the read position -/

theorem moved_range (q : RewindQueue (Element size) count) (k : Int) :
    -(q.retained.length : Int) ≤ q.moved k ∧ q.moved k ≤ q.pending.length := by
  unfold RewindQueue.moved
  omega

theorem clamp_eq (q : RewindQueue (Element size) count) (k : Int) :
    (if (if k > q.pending.length then (q.pending.length : Int) else k) < -q.retained.length
      then (-q.retained.length : Int)
      else if k > q.pending.length then (q.pending.length : Int) else k) = q.moved k := by
  unfold RewindQueue.moved
  split_ifs <;> omega

/-- The read position moved on or back by what a move reports. -/
theorem Models.move (h : Models b q) (k : Int) {readPos : Nat} {rwWrap : Wrap}
    (hr : readPos ≤ count)
    (hsame : rwWrap = .sameWrap → (readPos : Int) + q.pending.length = b.writePos + q.moved k)
    (hdiff : rwWrap = .diffWrap →
      (readPos : Int) + q.pending.length = count + b.writePos + q.moved k) :
    Models { b with readPos := readPos, rwWrap := rwWrap } (q.move k) := by
  have hlen := q.length_pending_move k
  exact
    { elementCount := h.elementCount
      elementSize := h.elementSize
      readPos := hr
      writePos := h.writePos
      sameWrap := fun hw => by have := hsame hw; dsimp only; omega
      diffWrap := fun hw => by have := hdiff hw; dsimp only; omega
      holds := by rw [q.elements_move k]; exact h.holds }

/-- A position that went past one end of the memory, brought back by a lap. -/
def lap (count : Nat) (rwWrap : Wrap) (pos : Int) : Int × Wrap :=
  if pos > count then (pos - count, .sameWrap)
  else if pos < 0 then (pos + count, .diffWrap)
  else (pos, rwWrap)

/-- In `int` arithmetic without overflow, the two `if`s are one lap. -/
theorem laps_eq {count : Nat} (hc : count < 1073741824) (rwWrap : Wrap) (pos : Int)
    (h1 : -count ≤ pos) (h2 : pos ≤ 2 * count) :
    (let ahead : Int × Wrap :=
      if pos > count then (int32 (pos - count), .sameWrap) else (pos, rwWrap)
    if ahead.1 < 0 then (int32 (ahead.1 + count), Wrap.diffWrap) else ahead) =
      lap count rwWrap pos := by
  unfold lap
  rcases Int.lt_or_le count pos with hahead | hahead
  · have hsub : int32 (pos - count) = pos - count := int32_of_fits (by omega) (by omega)
    simp only [gt_iff_lt, hahead, ↓reduceIte, hsub]
    exact if_neg (by omega)
  · simp only [gt_iff_lt, Int.not_lt.mpr hahead, ↓reduceIte]
    rcases Int.lt_or_le pos 0 with hback | hback
    · rw [if_pos hback, if_pos hback, int32_of_fits (by omega) (by omega)]
    · rw [if_neg (by omega), if_neg (by omega)]

theorem moveReadPtr_eq (h : Models b q) (hf : Fits count size) (k : Int) :
    b.moveReadPtr k = (q.moved k,
      { b with
        readPos := sizeT (lap count b.rwWrap (b.readPos + q.moved k)).1
        rwWrap := (lap count b.rwWrap (b.readPos + q.moved k)).2 }) := by
  have hc := hf.few
  have hfull := q.full
  have hr := h.readPos
  have hrange := moved_range q k
  have hlaps := laps_eq hc b.rwWrap (b.readPos + q.moved k) (by omega) (by omega)
  have hpos : int32 (int32 b.readPos + q.moved k) = b.readPos + q.moved k := by
    rw [int32_of_fits (n := b.readPos) (by omega) (by omega),
      int32_of_fits (by omega) (by omega)]
  have hneg : int32 (-q.retained.length) = -q.retained.length :=
    int32_of_fits (by omega) (by omega)
  have hfree : int32 b.availableWrite = q.retained.length := by
    rw [h.availableWrite hf, int32_of_fits (by omega) (by omega)]
  have hreadable : int32 b.availableRead = q.pending.length := by
    rw [h.availableRead hf, int32_of_fits (by omega) (by omega)]
  have hcount : int32 b.elementCount = count := by
    rw [h.elementCount, int32_of_fits (by omega) (by omega)]
  rw [← hlaps]
  simp only [moveReadPtr, hfree, hreadable, hneg, clamp_eq, hpos, hcount]

theorem moveReadPtr_models (h : Models b q) (hf : Fits count size) (k : Int) :
    (b.moveReadPtr k).1 = q.moved k ∧ Models (b.moveReadPtr k).2 (q.move k) := by
  have hc := hf.few
  have hfull := q.full
  have hr := h.readPos
  have hw := h.writePos
  have hrange := moved_range q k
  rw [moveReadPtr_eq h hf k]
  refine ⟨rfl, ?_⟩
  unfold lap
  rcases Int.lt_or_le count (b.readPos + q.moved k) with hahead | hahead
  · -- past the end: only a buffer whose writer is a lap ahead holds that much
    have hflag : b.rwWrap = .diffWrap := by
      cases hw' : b.rwWrap with
      | sameWrap => have := h.sameWrap hw'; omega
      | diffWrap => rfl
    have hd := h.diffWrap hflag
    rw [if_pos hahead, sizeT_eq (m := ((b.readPos : Int) + q.moved k - count).toNat)
      (by omega) (by omega)]
    exact h.move k (by omega) (fun _ => by omega) (nomatch ·)
  · rw [if_neg (Int.not_lt.mpr hahead)]
    rcases Int.lt_or_le (b.readPos + q.moved k) 0 with hback | hback
    · -- past the front: only a buffer without a lap between has that much to give back
      have hflag : b.rwWrap = .sameWrap := by
        cases hw' : b.rwWrap with
        | sameWrap => rfl
        | diffWrap => have := h.diffWrap hw'; omega
      have hd := h.sameWrap hflag
      rw [if_pos hback, sizeT_eq (m := ((b.readPos : Int) + q.moved k + count).toNat)
        (by omega) (by omega)]
      exact h.move k (by omega) (nomatch ·) (fun _ => by omega)
    · rw [if_neg (Int.not_lt.mpr hback), sizeT_eq (m := ((b.readPos : Int) + q.moved k).toNat)
        (by omega) (by omega)]
      refine h.move k (by omega) (fun hw' => ?_) (fun hw' => ?_)
      · have := h.sameWrap hw'
        omega
      · have := h.diffWrap hw'
        omega

/-! ## Reading and writing -/

theorem load_elements {mem : Memory} {start : Nat} {w : List (Element size)}
    (h : MemoryRing.Holds (count * size) mem (start * size) (octets w)) {p i n : Nat}
    (hp : p % count = (start + i) % count) (hend : p + n ≤ count) (hn : i + n ≤ count) :
    mem.load (p * size) (n * size) = octets ((w.drop i).take n) := by
  rw [octets_take, octets_drop]
  refine h.load ?_ ?_ ?_
  · rw [← Nat.add_mul, Nat.mul_mod_mul_right, Nat.mul_mod_mul_right, hp]
  · rw [← Nat.add_mul]
    exact Nat.mul_le_mul_right size hend
  · rw [← Nat.add_mul]
    exact Nat.mul_le_mul_right size hn

theorem store_elements {mem : Memory} {p : Nat} {w : List (Element size)}
    (h : MemoryRing.Holds (count * size) mem (p * size) (octets w)) (xs : List (Element size))
    (hfits : p + xs.length ≤ count) :
    MemoryRing.Holds (count * size) (mem.store (p * size) (octets xs))
      ((p + xs.length) * size) (octets (w.drop xs.length ++ xs)) := by
  have hle := Nat.mul_le_mul_right size hfits
  have hstore := h.store (octets xs) (by rw [octets_length, ← Nat.add_mul]; exact hle)
  rw [octets_append, octets_drop, Nat.add_mul, ← octets_length xs]
  exact hstore

/-- The octets of the two regions, whichever of them are empty. -/
theorem regions_octets (h : Models b q) (hf : Fits count size) (dataPtr : Bool) {n : Nat}
    (hle : n ≤ q.pending.length) :
    (b.readBuffer dataPtr n).1.readCount = n ∧
      (b.readBuffer dataPtr n).1.octets = octets (q.pending.take n) := by
  have hc := hf.few
  have hfull := q.full
  have hr := h.readPos
  have hn := h.elementCount
  have hs := h.elementSize
  have hread : (if b.availableRead < n then b.availableRead else n) = n := by
    rw [h.availableRead hf, if_neg (by omega)]
  have hmargin : sizeT (b.elementCount - b.readPos) = count - b.readPos :=
    sizeT_eq (by omega) (by omega)
  have hfirst {m : Nat} (hm : m ≤ n) (hend : b.readPos + m ≤ count) :
      b.data.load (b.readPos * size) (m * size) = octets (q.pending.take m) := by
    rw [load_elements h.holds h.readPos_mod hend (by omega), RewindQueue.elements,
      List.drop_left]
  have hptr : sizeT (b.readPos * b.elementSize) = b.readPos * size :=
    sizeT_octets hf hr (by rw [hs])
  unfold readBuffer getBufferReadRegions
  simp only [hread, hmargin, hptr]
  rcases Nat.lt_or_ge (count - b.readPos) n with hwrap | hwrap
  · -- a read that reaches past the end of the memory: the writer is a lap ahead
    have hflag : b.rwWrap = .diffWrap := by
      cases hw' : b.rwWrap with
      | sameWrap => have := h.sameWrap hw'; have := h.writePos; omega
      | diffWrap => rfl
    have hd := h.diffWrap hflag
    have hrest : sizeT ((n : Int) - (count - b.readPos : Nat)) = n - (count - b.readPos) :=
      sizeT_eq (by omega) (by omega)
    have hbytes1 : sizeT ((count - b.readPos : Nat) * b.elementSize) =
        (count - b.readPos) * size := sizeT_octets hf (by omega) (by rw [hs])
    have hbytes2 : sizeT ((n - (count - b.readPos) : Nat) * b.elementSize) =
        (n - (count - b.readPos)) * size := sizeT_octets hf (by omega) (by rw [hs])
    have hsecond : b.data.load 0 ((n - (count - b.readPos)) * size) =
        octets ((q.pending.drop (count - b.readPos)).take (n - (count - b.readPos))) := by
      have hload := load_elements h.holds (p := 0)
        (i := q.retained.length + (count - b.readPos)) (n := n - (count - b.readPos))
        (by rw [show b.writePos + (q.retained.length + (count - b.readPos)) = count by omega]
            simp) (by omega) (by omega)
      rw [Nat.zero_mul, ← List.drop_drop, RewindQueue.elements, List.drop_left] at hload
      exact hload
    have hpos : 0 < (n - (count - b.readPos)) * size := Nat.mul_pos (by omega) hf.positive
    simp only [hwrap, ↓reduceIte, hrest, hbytes1, hbytes2, hpos]
    refine ⟨trivial, ?_⟩
    rw [hfirst (by omega) (by omega), hsecond, ← octets_append, ← List.take_add,
      Nat.add_sub_cancel' (by omega)]
  · have hbytes1 : sizeT (n * b.elementSize) = n * size := sizeT_octets hf (by omega) (by rw [hs])
    simp only [Nat.not_lt.mpr hwrap, ↓reduceIte, hbytes1, gt_iff_lt, Nat.lt_irrefl]
    exact ⟨trivial, hfirst (Nat.le_refl n) (by omega)⟩

theorem readBuffer_min (h : Models b q) (hf : Fits count size) (dataPtr : Bool) (n : Nat) :
    b.readBuffer dataPtr n = b.readBuffer dataPtr (q.pending.take n).length := by
  have hread : (if b.availableRead < n then b.availableRead else n) =
      if b.availableRead < (q.pending.take n).length then b.availableRead
      else (q.pending.take n).length := by
    rw [h.availableRead hf, List.length_take]
    split_ifs <;> omega
  unfold readBuffer getBufferReadRegions
  simp only [hread]

theorem readBuffer_models (h : Models b q) (hf : Fits count size) (dataPtr : Bool) (n : Nat) :
    (b.readBuffer dataPtr n).1.readCount = (q.pending.take n).length ∧
      (b.readBuffer dataPtr n).1.octets = octets (q.pending.take n) ∧
      Models (b.readBuffer dataPtr n).2 (q.advance n) := by
  have hc := hf.few
  have hfull := q.full
  have hle : (q.pending.take n).length ≤ q.pending.length := List.length_take_le' ..
  obtain ⟨hcount, hoctets⟩ := regions_octets h hf dataPtr hle
  have hmove := (moveReadPtr_models h hf (q.pending.take n).length).2
  rw [readBuffer_min h hf]
  refine ⟨hcount, ?_, ?_⟩
  · rw [hoctets, List.length_take, ← List.take_eq_take_min]
  · rw [RewindQueue.move, if_pos (by omega), Int.toNat_natCast, q.advance_length_take n] at hmove
    change Models
      (b.moveReadPtr (int32 (b.readBuffer dataPtr (q.pending.take n).length).1.readCount)).2 _
    rw [hcount, int32_of_fits (by omega) (by omega)]
    exact hmove

/-- Both `if`s of the write count what the queue accepts. -/
theorem writeElements_eq (h : Models b q) (hf : Fits count size) (els : List (Element size)) :
    (if b.availableWrite < els.length then b.availableWrite else els.length) =
      (q.accepted els).length := by
  rw [h.availableWrite hf, RewindQueue.accepted, List.length_take]
  split_ifs <;> omega

theorem writeBuffer_straight (h : Models b q) (hf : Fits count size) {els : List (Element size)}
    {m : Nat} (hm : (q.accepted els).length = m) (hfits : b.writePos + m ≤ count) :
    b.writeBuffer (octets els) els.length =
      (m, { b with
        data := b.data.store (b.writePos * size) (octets (els.take m))
        writePos := b.writePos + m }) := by
  have hc := hf.few
  have hn := h.elementCount
  have hs := h.elementSize
  have hwrite := writeElements_eq h hf els
  have hmargin : sizeT (b.elementCount - b.writePos) = count - b.writePos :=
    sizeT_eq (by omega) (by omega)
  have hptr : sizeT (b.writePos * b.elementSize) = b.writePos * size :=
    sizeT_octets hf (by omega) (by rw [hs])
  have hback : sizeT ((m : Int) - m) = 0 := sizeT_eq (by omega) (by omega)
  have hzero : sizeT ((0 : Nat) * b.elementSize) = 0 := sizeT_eq (by simp) (by omega)
  have hbytes : sizeT (m * b.elementSize) = m * size := sizeT_octets hf (by omega) (by rw [hs])
  have hpos : sizeT (b.writePos + m) = b.writePos + m := sizeT_eq (by omega) (by omega)
  have hwrap : ¬count - b.writePos < m := by omega
  rw [hm] at hwrite
  simp only [writeBuffer, hwrite, hmargin, hwrap, ↓reduceIte, hptr, hback, hzero, hbytes, hpos,
    List.drop_zero, ← octets_take]

/-- A write past the end of the memory goes on at its front. -/
theorem writeBuffer_wrapped (h : Models b q) (hf : Fits count size) {els : List (Element size)}
    {m margin : Nat} (hm : (q.accepted els).length = m) (hmargin : b.writePos + margin = count)
    (hwrap : margin < m) :
    b.writeBuffer (octets els) els.length =
      (m, { b with
        data := (b.data.store (b.writePos * size) (octets (els.take margin))).store (0 * size)
          (octets ((els.drop margin).take (m - margin)))
        writePos := m - margin
        rwWrap := .diffWrap }) := by
  have hc := hf.few
  have hn := h.elementCount
  have hs := h.elementSize
  have hfull := q.full
  have hle : m ≤ q.retained.length := by rw [← hm]; exact List.length_take_le ..
  have hwrite := writeElements_eq h hf els
  have hroom : sizeT (b.elementCount - b.writePos) = margin := sizeT_eq (by omega) (by omega)
  have hptr : sizeT (b.writePos * b.elementSize) = b.writePos * size :=
    sizeT_octets hf (by omega) (by rw [hs])
  have hrest : sizeT ((m : Int) - margin) = m - margin := sizeT_eq (by omega) (by omega)
  have hback : sizeT ((m : Int) - (m - margin : Nat)) = margin := sizeT_eq (by omega) (by omega)
  have hbytes1 : sizeT (margin * b.elementSize) = margin * size :=
    sizeT_octets hf (by omega) (by rw [hs])
  have hbytes2 : sizeT ((m - margin : Nat) * b.elementSize) = (m - margin) * size :=
    sizeT_octets hf (by omega) (by rw [hs])
  have hzero : sizeT ((0 : Nat) * b.elementSize) = 0 * size :=
    sizeT_octets hf (by omega) (by simp)
  have hpos : sizeT ((0 : Nat) + (m - margin : Nat)) = m - margin := sizeT_eq (by omega) (by omega)
  rw [hm] at hwrite
  simp only [writeBuffer, hwrite, hroom, hwrap, ↓reduceIte, hptr, hrest, hback, hbytes1, hbytes2,
    hzero, hpos, ← octets_take, ← octets_drop]

theorem writeBuffer_models (h : Models b q) (hf : Fits count size) (els : List (Element size)) :
    (b.writeBuffer (octets els) els.length).1 = (q.accepted els).length ∧
      Models (b.writeBuffer (octets els) els.length).2 (q.write els) := by
  have hfull := q.full
  have hr := h.readPos
  have hw := h.writePos
  obtain ⟨m, hm⟩ : ∃ m, (q.accepted els).length = m := ⟨_, rfl⟩
  have hle : m ≤ q.retained.length := by rw [← hm]; exact List.length_take_le ..
  have htake : els.take m = q.accepted els := by
    rw [← hm, RewindQueue.accepted, List.length_take, ← List.take_eq_take_min]
  have hmlen : m ≤ els.length := by rw [← hm]; exact List.length_take_le' ..
  have hlen := q.length_pending_write els
  have hels := q.elements_write els
  rw [hm] at hlen hels
  rcases Nat.lt_or_ge (count - b.writePos) m with hwrap | hwrap
  · -- the reader is not a lap behind yet, else there would be less room
    have hflag : b.rwWrap = .sameWrap := by
      cases hw' : b.rwWrap with
      | sameWrap => rfl
      | diffWrap => have := h.diffWrap hw'; omega
    have hd := h.sameWrap hflag
    rw [writeBuffer_wrapped h hf hm (Nat.add_sub_cancel' hw) hwrap, hm]
    have hfirst := store_elements h.holds (els.take (count - b.writePos))
      (by rw [List.length_take_of_le (by omega)]; omega)
    rw [List.length_take_of_le (by omega), Nat.add_sub_cancel' hw] at hfirst
    have hlast : ((els.drop (count - b.writePos)).take (m - (count - b.writePos))).length =
        m - (count - b.writePos) := List.length_take_of_le (by rw [List.length_drop]; omega)
    have hsecond := store_elements (p := 0)
      (hfirst.congr (by rw [Nat.zero_mul, Nat.zero_mod, Nat.mod_self]))
      ((els.drop (count - b.writePos)).take (m - (count - b.writePos))) (by omega)
    have hroom : m - (count - b.writePos) ≤ (q.elements.drop (count - b.writePos)).length := by
      rw [List.length_drop, q.elements_length]
      omega
    rw [hlast, Nat.zero_add, List.drop_append_of_le_length hroom, List.drop_drop,
      List.append_assoc, ← List.take_add, Nat.add_sub_cancel' (by omega), htake] at hsecond
    refine ⟨rfl, ?_⟩
    exact
      { elementCount := h.elementCount
        elementSize := h.elementSize
        readPos := hr
        writePos := by dsimp only; omega
        sameWrap := (nomatch ·)
        diffWrap := fun _ => by dsimp only; omega
        holds := by rw [hels]; exact hsecond }
  · have hstore := store_elements h.holds (q.accepted els) (by omega)
    rw [hm] at hstore
    rw [writeBuffer_straight h hf hm (by omega), hm, htake]
    refine ⟨rfl, ?_⟩
    exact
      { elementCount := h.elementCount
        elementSize := h.elementSize
        readPos := hr
        writePos := by dsimp only; omega
        sameWrap := fun hw' => by have := h.sameWrap hw'; dsimp only; omega
        diffWrap := fun hw' => by have := h.diffWrap hw'; dsimp only; omega
        holds := by rw [hels]; exact hstore }

/-! ## Runs -/

inductive Call (size : Nat) where
  | write (els : List (Element size))
  | read (dataPtr : Bool) (elementCount : Nat)
  | move (elementCount : Int)

/-- What a call returns, with the octets that a read gives. -/
inductive Answer where
  | written (elementCount : Nat)
  | read (elementCount : Nat) (octets : Bytes)
  | moved (elementCount : Int)
  deriving DecidableEq, Repr

def call (b : RingBuffer) : Call size → Answer × RingBuffer
  | .write els => (b.writeBuffer (octets els) els.length).map .written id
  | .read dataPtr n => (b.readBuffer dataPtr n).map (fun r => .read r.readCount r.octets) id
  | .move k => (b.moveReadPtr k).map .moved id

/-- What the calls are for: a queue that can give back what was read. -/
def queueCall (q : RewindQueue (Element size) count) :
    Call size → Answer × RewindQueue (Element size) count
  | .write els => (.written (q.accepted els).length, q.write els)
  | .read _ n => (.read (q.pending.take n).length (octets (q.pending.take n)), q.advance n)
  | .move k => (.moved (q.moved k), q.move k)

def machine (size : Nat) : Machine RingBuffer (Call size) Answer := ⟨fun b c => some (b.call c)⟩

def queueMachine (count size : Nat) :
    Machine (RewindQueue (Element size) count) (Call size) Answer :=
  ⟨fun q c => some (queueCall q c)⟩

theorem call_models (h : Models b q) (hf : Fits count size) (c : Call size) :
    (b.call c).1 = (queueCall q c).1 ∧ Models (b.call c).2 (queueCall q c).2 := by
  cases c with
  | write els =>
    obtain ⟨hcount, hmodels⟩ := writeBuffer_models h hf els
    simp only [call, queueCall, Prod.map_fst, Prod.map_snd, id, hcount]
    exact ⟨trivial, hmodels⟩
  | read dataPtr n =>
    obtain ⟨hcount, hoctets, hmodels⟩ := readBuffer_models h hf dataPtr n
    simp only [call, queueCall, Prod.map_fst, Prod.map_snd, id, hcount, hoctets]
    exact ⟨trivial, hmodels⟩
  | move k =>
    obtain ⟨hmoved, hmodels⟩ := moveReadPtr_models h hf k
    simp only [call, queueCall, Prod.map_fst, Prod.map_snd, id, hmoved]
    exact ⟨trivial, hmodels⟩

/-- A new buffer: nothing to read, and zeros to go back to. -/
theorem createBuffer_models {malloced : Memory}
    (hb : createBuffer malloced count size = some b) (hf : count * size < 18446744073709551616) :
    Models b (RewindQueue.replicate count (zeroElement size)) := by
  unfold createBuffer at hb
  split at hb
  · cases hb
  · cases hb
    have hsize : sizeT (count * size) = count * size := sizeT_eq (by simp) hf
    exact
      { elementCount := rfl
        elementSize := rfl
        readPos := Nat.zero_le _
        writePos := Nat.zero_le _
        sameWrap := fun _ => rfl
        diffWrap := (nomatch ·)
        holds := by
          simp only [initBuffer, hsize, RewindQueue.elements, RewindQueue.replicate,
            List.append_nil, octets_zeros]
          refine ⟨List.length_replicate, fun i hi => ?_⟩
          rw [List.length_replicate] at hi
          rw [Nat.zero_mul, Nat.zero_add, Nat.mod_eq_of_lt hi,
            Memory.store_of_mem (Nat.zero_le i) (by rw [List.length_replicate]; exact hi)]
          simp }

/-- In every run of calls on a new buffer the answers are those of the queue
that was read empty of `count` zero elements, and so are the numbers of elements
that can be read and written. -/
theorem answers_queue {malloced : Memory} (hb : createBuffer malloced count size = some b)
    (hcount : count < 1073741824) (hsize : count * size < 18446744073709551616)
    (calls : List (Call size)) :
    ∃ answers b' q', (machine size).run b calls = some (answers, b') ∧
      (queueMachine count size).run (.replicate count (zeroElement size)) calls =
        some (answers, q') ∧
      b'.availableRead = q'.pending.length ∧ b'.availableWrite = q'.retained.length ∧
      b'.availableRead + b'.availableWrite = b'.elementCount ∧
      b'.readPos ≤ b'.elementCount ∧ b'.writePos ≤ b'.elementCount := by
  have hpositive : 0 < size := by
    unfold createBuffer at hb
    split at hb
    · cases hb
    · omega
  have hf : Fits count size := ⟨hpositive, hcount, hsize⟩
  obtain ⟨answers, b', q', hrun, hqueue, h⟩ := Machine.run_simulates
    (M := machine size) (N := queueMachine count size) (R := Models)
    (fun b q c h => ⟨(b.call c).1, (b.call c).2, (queueCall q c).2, rfl,
      by rw [(call_models h hf c).1]; rfl, (call_models h hf c).2⟩)
    (createBuffer_models hb hsize) calls
  have hread := h.availableRead hf
  have hwrite := h.availableWrite hf
  have hfull := q'.full
  have hn := h.elementCount
  have hr := h.readPos
  have hw := h.writePos
  exact ⟨answers, b', q', hrun, hqueue, hread, hwrite, by omega, by omega, by omega⟩

/-- A buffer of two octets. -/
def twoOctets : RingBuffer := initBuffer ⟨0, 0, 2, 1, .sameWrap, fun _ => 7⟩

/-- Two elements read, one of them put back and another one written over the first. -/
def rewindCalls : List (Call 1) :=
  [.write [⟨[5], rfl⟩, ⟨[6], rfl⟩], .read false 2, .move (-1), .write [⟨[8], rfl⟩, ⟨[9], rfl⟩],
    .read true 2]

theorem answers_queue_rewind :
    ((machine 1).run twoOctets rewindCalls).map Prod.fst =
        some [.written 2, .read 2 [5, 6], .moved (-1), .written 1, .read 2 [6, 8]] ∧
      ∃ answers b' q', (machine 1).run twoOctets rewindCalls = some (answers, b') ∧
        (queueMachine 2 1).run (.replicate 2 (zeroElement 1)) rewindCalls = some (answers, q') ∧
        b'.availableRead = q'.pending.length ∧ b'.availableWrite = q'.retained.length ∧
        b'.availableRead + b'.availableWrite = b'.elementCount ∧
        b'.readPos ≤ b'.elementCount ∧ b'.writePos ≤ b'.elementCount :=
  ⟨by decide,
    answers_queue (show createBuffer (fun _ => 7) 2 1 = some twoOctets from rfl) (by decide)
      (by decide) rewindCalls⟩

/-- Moving back in a new buffer exposes a zero that was never written and never read. -/
theorem rewind_unwritten :
    createBuffer (fun _ => 7) 2 1 = some twoOctets ∧ twoOctets.availableRead = 0 ∧
      ((machine 1).run twoOctets [.move (-1), .read false 1]).map Prod.fst =
        some [.moved (-1), .read 1 [0]] :=
  ⟨rfl, by decide, by decide⟩

end RingBuffer

end RtcCore.L2
