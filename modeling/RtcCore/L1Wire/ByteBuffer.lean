import Mathlib.Algebra.Order.Ring.Nat
import RtcCore.Core.Block
import RtcCore.Core.Bytes
import RtcCore.Core.Int32

/-!
# `rtc::ByteBuffer`, the array

The unread octets lie between two positions of an array. A write goes behind them;
where there is no room, `Resize` moves them to the front of the array or of a new one
and counts up the version, with which the read positions taken before are no longer
valid. Integers go through the memory of a variable, in the order of the host
(`big` for the one with the high octet first).

A new array holds anything (`fresh`). `none` stands for an access outside of the
array, for an array that cannot be allocated and for an overflow of the version.

Results:
* `toMemory_ofMemory`, `ofMemory_toMemory`: integers and their octets.
* `readBytes_eq`, `resize_fits`, `fill_fits`: each function on what is unread.
* `readUInt_eq`, `writeUInt_eq`: the integers of either order.
-/
namespace RtcCore.L1.Base

open Bytes

/-! ## Integers in memory -/

/-- `SetBE16` to `SetBE64`.
mirrors webrtc/base/byteorder.h:37-60 -/
def be : Nat → Nat → Bytes
  | 0, _ => []
  | n + 1, v => UInt8.ofNat (v / 256 ^ n) :: be n v

def toMemory (big : Bool) (n v : Nat) : Bytes := if big then be n v else (be n v).reverse

def ofMemory (big : Bool) (memory : Bytes) : Nat :=
  if big then beValue memory else beValue memory.reverse

/-- mirrors webrtc/base/byteorder.h:123-165 -/
def hostToNetwork (big : Bool) (n v : Nat) : Nat := ofMemory big (be n v)

def networkToHost (big : Bool) (n v : Nat) : Nat := beValue (toMemory big n v)

variable {big : Bool} {n v : Nat} {bs : Bytes}

theorem be_length (n v : Nat) : (be n v).length = n := by
  induction n with
  | zero => rfl
  | succ n ih => rw [be, List.length_cons, ih]

theorem beValue_cons (x : UInt8) (bs : Bytes) :
    beValue (x :: bs) = x.toNat * 256 ^ bs.length + beValue bs := by
  have h := beValue_append [x] bs
  rwa [show beValue [x] = x.toNat by simp [beValue]] at h

theorem beValue_be (n v : Nat) : beValue (be n v) = v % 256 ^ n := by
  induction n with
  | zero => rw [be, Nat.pow_zero, Nat.mod_one]; rfl
  | succ n ih =>
    have hsplit : v % 256 ^ (n + 1) = v % 256 ^ n + 256 ^ n * (v / 256 ^ n % 256) := by
      rw [Nat.pow_succ, Nat.mod_mul]
    rw [be, beValue_cons, ih, be_length, UInt8.toNat_ofNat', hsplit, Nat.mul_comm, Nat.add_comm]

theorem be_add (n a v : Nat) : be n (a * 256 ^ n + v) = be n v := by
  induction n generalizing a with
  | zero => rfl
  | succ n ih =>
    have hsplit : a * 256 ^ (n + 1) + v = a * 256 * 256 ^ n + v := by
      rw [Nat.pow_succ, Nat.mul_assoc, Nat.mul_comm (256 ^ n)]
    have hpos : 0 < 256 ^ n := Nat.pow_pos (by decide)
    rw [be, be, hsplit, ih, Nat.mul_comm _ (256 ^ n), Nat.mul_add_div hpos]
    congr 1
    apply UInt8.toNat_inj.1
    rw [UInt8.toNat_ofNat', UInt8.toNat_ofNat']
    omega

theorem be_beValue (bs : Bytes) : be bs.length (beValue bs) = bs := by
  induction bs with
  | nil => rfl
  | cons x bs ih =>
    have hlt := beValue_lt bs
    have hpos : 0 < 256 ^ bs.length := Nat.pow_pos (by decide)
    rw [beValue_cons, List.length_cons, be, be_add, ih, Nat.mul_comm, Nat.mul_add_div hpos,
      Nat.div_eq_of_lt hlt, Nat.add_zero, UInt8.ofNat_toNat]

theorem toMemory_length (big : Bool) (n v : Nat) : (toMemory big n v).length = n := by
  unfold toMemory
  split
  · exact be_length n v
  · rw [List.length_reverse, be_length]

theorem toMemory_ofMemory (big : Bool) (h : bs.length = n) :
    toMemory big n (ofMemory big bs) = bs := by
  subst h
  unfold toMemory ofMemory
  split
  · exact be_beValue bs
  · have := be_beValue bs.reverse
    rw [List.length_reverse] at this
    rw [this, List.reverse_reverse]

theorem ofMemory_toMemory (big : Bool) (h : v < 256 ^ n) : ofMemory big (toMemory big n v) = v := by
  unfold toMemory ofMemory
  split
  · rw [beValue_be, Nat.mod_eq_of_lt h]
  · rw [List.reverse_reverse, beValue_be, Nat.mod_eq_of_lt h]

/-! ## The buffer -/

inductive ByteOrder where
  | network
  | host
  deriving DecidableEq, Repr

structure ReadPosition where
  start : Nat
  version : Int
  deriving DecidableEq, Repr

/-- mirrors webrtc/base/bytebuffer.h:105-115 (`end_` is `stop`) -/
structure ByteBuffer where
  bytes : Bytes
  size : Nat
  start : Nat
  stop : Nat
  version : Int
  byteOrder : ByteOrder
  deriving DecidableEq, Repr

namespace ByteBuffer

def DEFAULT_SIZE : Nat := 4096

section Functions

variable (fresh : Nat → UInt8) (big : Bool) (b : ByteBuffer)

/-- mirrors webrtc/base/bytebuffer.cc:45-59 -/
def construct (bytes : Option Bytes) (len : Nat) (byteOrder : ByteOrder) : Option ByteBuffer :=
  if 9223372036854775808 ≤ len then none
  else match bytes with
    | none => some ⟨Block.new fresh len, len, 0, 0, 0, byteOrder⟩
    | some val => do
      let array ← Block.write (Block.new fresh len) 0 (← Block.read val 0 len)
      return ⟨array, len, 0, len, 0, byteOrder⟩

def length : Nat := sizeT (b.stop - b.start)

def capacity : Nat := sizeT (b.size - b.start)

/-- mirrors webrtc/base/bytebuffer.cc:136-144 -/
def readBytes (len : Nat) : Option (Option Bytes × ByteBuffer) :=
  if b.length < len then some (none, b)
  else do
    let val ← Block.read b.bytes b.start len
    return (some val, { b with start := b.start + len })

/-- mirrors webrtc/base/bytebuffer.cc:124-134 -/
def readString (val : Bytes) (len : Nat) : Option (Option Bytes × ByteBuffer) :=
  if b.length < len then some (none, b)
  else do
    let read ← Block.read b.bytes b.start len
    return (some (val ++ read), { b with start := b.start + len })

/-- `ReadUInt16`, `ReadUInt32` and `ReadUInt64`, by the octets of the variable.
mirrors webrtc/base/bytebuffer.cc:71-81, 100-122 -/
def readVariable (n : Nat) : Option (Option Nat × ByteBuffer) := do
  let (memory, b') ← b.readBytes n
  return (memory.map fun memory =>
    let v := ofMemory big memory
    if b.byteOrder = .network then networkToHost big n v else v, b')

def readUInt8 : Option (Option Nat × ByteBuffer) := do
  let (memory, b') ← b.readBytes 1
  return (memory.map (ofMemory big), b')

def readUInt16 : Option (Option Nat × ByteBuffer) := readVariable big b 2

/-- Three of the four octets of the variable are read, the other is zero.
mirrors webrtc/base/bytebuffer.cc:83-98 -/
def readUInt24 : Option (Option Nat × ByteBuffer) := do
  let (val, b') ← b.readBytes 3
  return (val.map fun val =>
    let memory := if b.byteOrder = .network ∨ big = true then 0 :: val else val ++ [0]
    let v := ofMemory big memory
    if b.byteOrder = .network then networkToHost big 4 v else v, b')

def readUInt32 : Option (Option Nat × ByteBuffer) := readVariable big b 4

def readUInt64 : Option (Option Nat × ByteBuffer) := readVariable big b 8

/-- The size of a larger array that is asked for. -/
def grown (size : Nat) : Nat := max size (sizeT (3 * b.size) / 2)

/-- mirrors webrtc/base/bytebuffer.cc:191-207 -/
def resize (size : Nat) : Option ByteBuffer :=
  let len := min b.length size
  if 2147483647 ≤ b.version then none
  else if size ≤ b.size then do
    let bytes ← Block.move b.bytes 0 b.start len
    return { b with bytes, start := 0, stop := len, version := b.version + 1 }
  else if 9223372036854775808 ≤ b.grown size then none
  else do
    let newBytes ← Block.write (Block.new fresh (b.grown size)) 0
      (← Block.read b.bytes b.start len)
    return { b with
      bytes := newBytes, size := b.grown size, start := 0, stop := len
      version := b.version + 1 }

/-- mirrors webrtc/base/bytebuffer.cc:182-189 -/
def reserveWriteBuffer (len : Nat) : Option (Nat × ByteBuffer) := do
  let b' ← if b.capacity < sizeT (b.length + len) then b.resize fresh (sizeT (b.length + len))
    else some b
  return (b'.stop, { b' with stop := sizeT (b'.stop + len) })

/-- mirrors webrtc/base/bytebuffer.cc:178-180 -/
def writeBytes (val : Bytes) : Option ByteBuffer := do
  let (start, b') ← b.reserveWriteBuffer fresh val.length
  let bytes ← Block.write b'.bytes start val
  return { b' with bytes }

def writeString (val : Bytes) : Option ByteBuffer := b.writeBytes fresh val

/-- `WriteUInt16`, `WriteUInt32` and `WriteUInt64`, by the octets of the variable.
mirrors webrtc/base/bytebuffer.cc:150-153, 164-172 -/
def writeVariable (n val : Nat) : Option ByteBuffer :=
  let v := if b.byteOrder = .network then hostToNetwork big n val else val
  b.writeBytes fresh (toMemory big n v)

def writeUInt8 (val : Nat) : Option ByteBuffer := b.writeBytes fresh (toMemory big 1 val)

def writeUInt16 (val : Nat) : Option ByteBuffer := writeVariable fresh big b 2 val

/-- mirrors webrtc/base/bytebuffer.cc:155-162 -/
def writeUInt24 (val : Nat) : Option ByteBuffer :=
  let v := if b.byteOrder = .network then hostToNetwork big 4 val else val
  let memory := toMemory big 4 v
  b.writeBytes fresh
    (if b.byteOrder = .network ∨ big = true then (memory.drop 1).take 3 else memory.take 3)

def writeUInt32 (val : Nat) : Option ByteBuffer := writeVariable fresh big b 4 val

def writeUInt64 (val : Nat) : Option ByteBuffer := writeVariable fresh big b 8 val

/-- mirrors webrtc/base/bytebuffer.cc:209-214 -/
def consume (size : Nat) : Bool × ByteBuffer :=
  if b.length < size then (false, b) else (true, { b with start := b.start + size })

def getReadPosition : ReadPosition := ⟨b.start, b.version⟩

/-- mirrors webrtc/base/bytebuffer.cc:220-226 -/
def setReadPosition (position : ReadPosition) : Bool × ByteBuffer :=
  if position.version ≠ b.version then (false, b) else (true, { b with start := position.start })

/-- mirrors webrtc/base/bytebuffer.cc:228-232 -/
def clear : Option ByteBuffer :=
  if 2147483647 ≤ b.version then none
  else do
    let bytes ← Block.write b.bytes 0 (List.replicate b.size 0)
    return { b with bytes, start := 0, stop := 0, version := b.version + 1 }

end Functions

/-- The widths there is a function for. -/
inductive Width where
  | w8 | w16 | w24 | w32 | w64
  deriving DecidableEq, Repr

def Width.octets : Width → Nat
  | .w8 => 1
  | .w16 => 2
  | .w24 => 3
  | .w32 => 4
  | .w64 => 8

def readUInt (big : Bool) (b : ByteBuffer) : Width → Option (Option Nat × ByteBuffer)
  | .w8 => b.readUInt8 big
  | .w16 => b.readUInt16 big
  | .w24 => b.readUInt24 big
  | .w32 => b.readUInt32 big
  | .w64 => b.readUInt64 big

def writeUInt (fresh : Nat → UInt8) (big : Bool) (b : ByteBuffer) (w : Width) (val : Nat) :
    Option ByteBuffer :=
  match w with
  | .w8 => b.writeUInt8 fresh big val
  | .w16 => b.writeUInt16 fresh big val
  | .w24 => b.writeUInt24 fresh big val
  | .w32 => b.writeUInt32 fresh big val
  | .w64 => b.writeUInt64 fresh big val

/-- `ReserveWriteBuffer` by a caller that writes to the front of what it reserved. -/
def fill (fresh : Nat → UInt8) (b : ByteBuffer) (len : Nat) (val : Bytes) : Option ByteBuffer := do
  let (start, b') ← b.reserveWriteBuffer fresh len
  if len < val.length then none
  else do
    let bytes ← Block.write b'.bytes start val
    return { b' with bytes }

/-! ## What is unread -/

variable {fresh : Nat → UInt8} {b b' : ByteBuffer} {len size : Nat} {val : Bytes}

/-- The positions lie in the array. -/
structure Fits (b : ByteBuffer) : Prop where
  start_le : b.start ≤ b.stop
  stop_le : b.stop ≤ b.size
  array : b.bytes.length = b.size
  size_lt : b.size < 9223372036854775808

/-- What was written since the array was last moved. -/
def written (b : ByteBuffer) : Bytes := b.bytes.take b.stop

def unread (b : ByteBuffer) : Bytes := b.written.drop b.start

namespace Fits

theorem written_length (h : b.Fits) : b.written.length = b.stop := by
  rw [written, List.length_take, h.array, Nat.min_eq_left h.stop_le]

theorem unread_length (h : b.Fits) : b.unread.length = b.stop - b.start := by
  rw [unread, List.length_drop, h.written_length]

theorem length_eq (h : b.Fits) : b.length = b.unread.length := by
  have h1 := h.start_le
  have h2 := h.stop_le
  have h3 := h.size_lt
  rw [h.unread_length]
  exact sizeT_eq (by omega) (by omega)

theorem capacity_eq (h : b.Fits) : b.capacity = b.size - b.start := by
  have h1 := h.start_le
  have h2 := h.stop_le
  have h3 := h.size_lt
  exact sizeT_eq (by omega) (by omega)

theorem read_eq (h : b.Fits) (hlen : len ≤ b.unread.length) :
    Block.read b.bytes b.start len = some (b.unread.take len) := by
  have h1 := h.start_le
  have h2 := h.stop_le
  rw [h.unread_length] at hlen
  rw [Block.read, if_pos (by rw [h.array]; omega), unread, written, List.drop_take,
    List.take_take, Nat.min_eq_left hlen]

theorem start_fits (h : b.Fits) {start : Nat} (hstart : start ≤ b.stop) :
    { b with start }.Fits :=
  ⟨hstart, h.stop_le, h.array, h.size_lt⟩

theorem skip_fits (h : b.Fits) (hlen : len ≤ b.unread.length) :
    { b with start := b.start + len }.Fits := by
  have hstart := h.start_le
  rw [h.unread_length] at hlen
  exact h.start_fits (by omega)

theorem readBytes_fits (h : b.Fits) (hlen : len ≤ b.unread.length) : b.readBytes len =
    some (some (b.unread.take len), { b with start := b.start + len }) := by
  rw [readBytes, h.length_eq, if_neg (by omega), h.read_eq hlen]
  rfl

theorem readBytes_short (h : b.Fits) (hlen : b.unread.length < len) :
    b.readBytes len = some (none, b) := by
  rw [readBytes, h.length_eq, if_pos hlen]

theorem write_eq (h : b.Fits) (val : Bytes) {offset : Nat} (hend : offset + val.length ≤ b.stop) :
    ∃ bytes, Block.write b.bytes offset val = some bytes ∧
      bytes.length = b.size ∧ bytes.take b.stop =
        b.written.take offset ++ val ++ b.written.drop (offset + val.length) := by
  have h2 := h.stop_le
  refine ⟨_, if_pos (by rw [h.array]; omega), ?_, ?_⟩
  · have := h.array
    simp only [List.length_append, List.length_take, List.length_drop]
    omega
  · have hat : offset ≤ b.bytes.length := by rw [h.array]; omega
    rw [List.take_append, List.take_append, written, List.take_take, List.take_take,
      List.drop_take, List.length_append, List.length_take, Nat.min_eq_left hat,
      Nat.min_eq_left (by omega : offset ≤ b.stop), Nat.min_eq_right (by omega : offset ≤ b.stop),
      List.take_of_length_le (by omega : val.length ≤ b.stop - offset)]

end Fits

theorem unread_skip (b : ByteBuffer) (len : Nat) :
    { b with start := b.start + len }.unread = b.unread.drop len :=
  List.drop_drop.symm

theorem readString_eq (b : ByteBuffer) (val : Bytes) (len : Nat) : b.readString val len =
    (b.readBytes len).map fun r => (r.1.map (val ++ ·), r.2) := by
  unfold readString readBytes
  split
  · rfl
  · cases Block.read b.bytes b.start len <;> rfl

/-- What a function that writes or moves makes of the buffer. -/
structure Changes (b : ByteBuffer) (moved : Bool) (written : Bytes) (b' : ByteBuffer) : Prop where
  fits : b'.Fits
  start_eq : b'.start = if moved then 0 else b.start
  written_eq : b'.written = written
  version_eq : b'.version = if moved then b.version + 1 else b.version
  byteOrder_eq : b'.byteOrder = b.byteOrder

/-- The version can be counted up and the array be had. -/
def Resizable (b : ByteBuffer) (size : Nat) : Prop :=
  b.version < 2147483647 ∧ (size ≤ b.size ∨ b.grown size < 9223372036854775808)

instance : Decidable (b.Resizable size) := inferInstanceAs (Decidable (_ ∧ _))

/-- The buffer with its octets at the front of an array. -/
theorem Changes.front {xs rest : Bytes} (hsize : xs.length + rest.length = size)
    (hlt : size < 9223372036854775808) : b.Changes true xs
      ⟨xs ++ rest, size, 0, xs.length, b.version + 1, b.byteOrder⟩ where
  fits := ⟨Nat.zero_le _, by show xs.length ≤ size; omega, by rw [List.length_append, hsize], hlt⟩
  start_eq := rfl
  written_eq := List.take_left
  version_eq := rfl
  byteOrder_eq := rfl

namespace Changes

variable {moved : Bool} {base rest : Bytes}

theorem stop_eq (h : b.Changes moved base b') : b'.stop = base.length := by
  rw [← h.fits.written_length, h.written_eq]

theorem reserved (h : b.Changes moved base b') (hlen : b'.stop + len ≤ b'.size) :
    ∃ rest, rest.length = len ∧
      b.Changes moved (base ++ rest) { b' with stop := b'.stop + len } := by
  have hstart := h.fits.start_le
  have harray := h.fits.array
  refine ⟨(b'.bytes.drop b'.stop).take len, ?_, ⟨?_, hlen, harray, h.fits.size_lt⟩,
    h.start_eq, ?_, h.version_eq, h.byteOrder_eq⟩
  · rw [List.length_take, List.length_drop]
    omega
  · show b'.start ≤ b'.stop + len
    omega
  · rw [← h.written_eq]
    exact List.take_add

theorem filled (h : b.Changes moved (base ++ rest) b') (val : Bytes)
    (hval : val.length ≤ rest.length) :
    ∃ bytes, Block.write b'.bytes base.length val = some bytes ∧
      b.Changes moved (base ++ (val ++ rest.drop val.length)) { b' with bytes } := by
  have hstop := h.stop_eq
  rw [List.length_append] at hstop
  obtain ⟨bytes, hwrite, hlength, hbytes⟩ := h.fits.write_eq val
    (by omega : base.length + val.length ≤ b'.stop)
  refine ⟨bytes, hwrite, ⟨h.fits.start_le, h.fits.stop_le, hlength, h.fits.size_lt⟩,
    h.start_eq, ?_, h.version_eq, h.byteOrder_eq⟩
  show bytes.take b'.stop = _
  rw [hbytes, h.written_eq, List.take_left, List.drop_length_add_append, List.append_assoc]

end Changes

namespace Fits

theorem resize_fits (h : b.Fits) (fresh : Nat → UInt8) (hr : b.Resizable size) :
    ∃ b', b.resize fresh size = some b' ∧ b.Changes true (b.unread.take size) b' ∧
      size ≤ b'.size := by
  obtain ⟨hv, hs⟩ := hr
  have htake : b.unread.take (min b.unread.length size) = b.unread.take size := by
    rw [List.take_eq_take_iff]
    omega
  have hxs : min b.unread.length size = (b.unread.take size).length := by
    rw [List.length_take, Nat.min_comm]
  have hread := h.read_eq (Nat.min_le_left b.unread.length size)
  rw [htake, hxs] at hread
  have hunread : b.unread.length ≤ b.size := by
    have := h.stop_le
    rw [h.unread_length]
    omega
  unfold resize
  rw [if_neg (by omega), h.length_eq, hxs]
  by_cases hsize : size ≤ b.size
  · have hmove : Block.move b.bytes 0 b.start (b.unread.take size).length =
        some (b.unread.take size ++ b.bytes.drop (b.unread.take size).length) := by
      rw [Block.move, hread]
      exact Block.write_front (by rw [← hxs, h.array]; omega)
    rw [if_pos hsize, hmove]
    refine ⟨_, rfl, Changes.front ?_ h.size_lt, hsize⟩
    rw [List.length_drop, h.array, ← hxs]
    omega
  · have hgrown := hs.resolve_left hsize
    have hle : size ≤ b.grown size := Nat.le_max_left _ _
    have hwrite : Block.write (Block.new fresh (b.grown size)) 0 (b.unread.take size) =
        some (b.unread.take size ++
          (Block.new fresh (b.grown size)).drop (b.unread.take size).length) :=
      Block.write_front (by rw [← hxs, Block.new_length]; omega)
    rw [if_neg hsize, if_neg (by omega), hread, Option.bind_eq_bind, Option.bind_some, hwrite]
    refine ⟨_, rfl, Changes.front ?_ hgrown, hle⟩
    rw [List.length_drop, Block.new_length, ← hxs]
    omega

theorem clear_fits (h : b.Fits) (hv : b.version < 2147483647) :
    ∃ b', b.clear = some b' ∧ b.Changes true [] b' := by
  have hlength : (List.replicate b.size (0 : UInt8)).length = b.size := List.length_replicate
  have hwrite : Block.write b.bytes 0 (List.replicate b.size 0) =
      some (List.replicate b.size 0 ++ b.bytes.drop (List.replicate b.size (0 : UInt8)).length) :=
    Block.write_front (by rw [hlength, h.array])
  unfold clear
  rw [if_neg (by omega), hwrite]
  refine ⟨_, rfl, ⟨Nat.le_refl 0, Nat.zero_le _, ?_, h.size_lt⟩, rfl, rfl, rfl, rfl⟩
  rw [List.length_append, List.length_drop, hlength, h.array, Nat.sub_self, Nat.add_zero]

end Fits

/-- A write that finds no room at the end of the array resizes it. -/
def moves (b : ByteBuffer) (len : Nat) : Bool := b.capacity < b.length + len

def Room (b : ByteBuffer) (len : Nat) : Prop :=
  b.moves len = true → b.Resizable (b.length + len)

/-- What a write appends to. -/
def base (b : ByteBuffer) (len : Nat) : Bytes := if b.moves len then b.unread else b.written

namespace Fits

theorem sum_eq (h : b.Fits) (hr : b.Room len) : sizeT (b.length + len) = b.length + len := by
  refine sizeT_eq (by omega) ?_
  have hlt := h.size_lt
  by_cases hmoves : b.moves len = true
  · obtain ⟨-, hsize | hgrown⟩ := hr hmoves
    · omega
    · have : b.length + len ≤ b.grown (b.length + len) := Nat.le_max_left _ _
      omega
  · have hcap := h.capacity_eq
    have := of_decide_eq_false (Bool.eq_false_iff.2 hmoves)
    omega

theorem reserve_fits (h : b.Fits) (fresh : Nat → UInt8) (hr : b.Room len) :
    ∃ b' rest, b.reserveWriteBuffer fresh len = some ((b.base len).length, b') ∧
      rest.length = len ∧ b.Changes (b.moves len) (b.base len ++ rest) b' := by
  obtain ⟨b₁, hb₁, hchanges, hroom⟩ : ∃ b₁, (if b.capacity < b.length + len then
      b.resize fresh (b.length + len) else some b) = some b₁ ∧
      b.Changes (b.moves len) (b.base len) b₁ ∧ b₁.stop + len ≤ b₁.size := by
    have hlength := h.length_eq
    by_cases hmoves : b.moves len = true
    · obtain ⟨b₁, hresize, hchanges, hsize⟩ := h.resize_fits fresh (hr hmoves)
      rw [List.take_of_length_le (by omega)] at hchanges
      have hstop := hchanges.stop_eq
      rw [if_pos (of_decide_eq_true hmoves), hmoves, base, if_pos hmoves]
      exact ⟨b₁, hresize, hchanges, by omega⟩
    · have hroom := of_decide_eq_false (Bool.eq_false_iff.2 hmoves)
      have hcap := h.capacity_eq
      have hunread := h.unread_length
      have hstart := h.start_le
      have hstop := h.stop_le
      rw [if_neg hroom, base, if_neg hmoves, Bool.eq_false_iff.2 hmoves]
      exact ⟨b, rfl, ⟨h, rfl, rfl, rfl, rfl⟩, by omega⟩
  obtain ⟨rest, hrest, hreserved⟩ := hchanges.reserved hroom
  have hlt := hchanges.fits.size_lt
  have hbind : b.reserveWriteBuffer fresh len = (if b.capacity < b.length + len then
      b.resize fresh (b.length + len) else some b).bind fun b' =>
        some (b'.stop, { b' with stop := sizeT (b'.stop + len) }) := by
    rw [reserveWriteBuffer, h.sum_eq hr]
    split <;> rfl
  have hstop : sizeT (b₁.stop + len) = b₁.stop + len := sizeT_eq (by omega) (by omega)
  refine ⟨_, rest, ?_, hrest, hreserved⟩
  rw [hbind, hb₁, Option.bind_some, hstop, hchanges.stop_eq]

theorem fill_fits (h : b.Fits) (fresh : Nat → UInt8) (hr : b.Room len)
    (hval : val.length ≤ len) :
    ∃ b' rest, b.fill fresh len val = some b' ∧ rest.length = len - val.length ∧
      b.Changes (b.moves len) (b.base len ++ (val ++ rest)) b' := by
  obtain ⟨b₁, rest, hreserve, hrest, hchanges⟩ := h.reserve_fits fresh hr
  obtain ⟨bytes, hwrite, hfilled⟩ := hchanges.filled val (by omega)
  refine ⟨{ b₁ with bytes }, rest.drop val.length, ?_, ?_, hfilled⟩
  · rw [fill, hreserve]
    show (if len < val.length then none else _) = _
    rw [if_neg (by omega)]
    show (Block.write b₁.bytes (b.base len).length val).bind _ = _
    rw [hwrite]
    rfl
  · rw [List.length_drop, hrest]

end Fits

theorem writeBytes_eq (fresh : Nat → UInt8) (b : ByteBuffer) (val : Bytes) :
    b.writeBytes fresh val = b.fill fresh val.length val := by
  simp only [writeBytes, fill, if_neg (Nat.lt_irrefl _)]

theorem construct_fits {bytes : Option Bytes} {order : ByteOrder}
    (hb : construct fresh bytes len order = some b) :
    b.Fits ∧ b.unread = (bytes.getD []).take len ∧ b.byteOrder = order := by
  unfold construct at hb
  split at hb
  · exact nomatch hb
  · rename_i hlt
    have hnew := Block.new_length fresh len
    cases bytes with
    | none =>
      cases hb
      exact ⟨⟨Nat.le_refl 0, Nat.zero_le _, hnew, by show len < _; omega⟩, List.take_nil.symm, rfl⟩
    | some val =>
      obtain ⟨xs, hread, hb⟩ := Option.bind_eq_some_iff.1 hb
      obtain ⟨array, hwrite, hb⟩ := Option.bind_eq_some_iff.1 hb
      cases hb
      unfold Block.read at hread
      split at hread
      · rename_i hle
        cases hread
        have hlength : ((val.drop 0).take len).length = len := by
          rw [List.drop_zero, List.length_take]
          omega
        have harray := Block.write_length hwrite
        rw [Block.write_front (by rw [hlength, hnew])] at hwrite
        cases hwrite
        refine ⟨⟨Nat.zero_le _, Nat.le_refl len, harray.trans hnew, ?_⟩, ?_, rfl⟩
        · show len < _
          omega
        · exact List.take_left' hlength
      · exact nomatch hread

/-! ## Integers -/

/-- An integer as octets in the order of the buffer, and back. -/
def octets (big : Bool) : ByteOrder → Nat → Nat → Bytes
  | .network, n, v => be n v
  | .host, n, v => toMemory big n v

def value (big : Bool) : ByteOrder → Bytes → Nat
  | .network, val => beValue val
  | .host, val => ofMemory big val

theorem octets_length (big : Bool) (order : ByteOrder) (n v : Nat) :
    (octets big order n v).length = n := by
  cases order with
  | network => exact be_length n v
  | host => exact toMemory_length big n v

theorem value_octets (big : Bool) (order : ByteOrder) {n v : Nat} (h : v < 256 ^ n) :
    value big order (octets big order n v) = v := by
  cases order with
  | network =>
    show beValue (be n v) = v
    rw [beValue_be, Nat.mod_eq_of_lt h]
  | host => exact ofMemory_toMemory big h

theorem beValue_zero_cons (val : Bytes) : beValue (0 :: val) = beValue val := by
  rw [beValue_cons, show (0 : UInt8).toNat = 0 from rfl, Nat.zero_mul, Nat.zero_add]

theorem ofMemory_one (big : Bool) (h : val.length = 1) : ofMemory big val = beValue val := by
  obtain ⟨x, rfl⟩ := List.length_eq_one_iff.1 h
  cases big <;> rfl

theorem readBytes_length {o : Option Bytes} (h : b.readBytes len = some (o, b')) (hval : val ∈ o) :
    val.length = len := by
  unfold readBytes Block.read at h
  split at h
  · cases h
    exact nomatch hval
  · split at h
    · cases h
      cases hval
      rw [List.length_take, List.length_drop]
      omega
    · exact nomatch h

/-- A reader that makes a number of the octets it read makes their value of them. -/
theorem read_value {n : Nat} {f : Bytes → Nat}
    (hf : ∀ val : Bytes, val.length = n → f val = value big b.byteOrder val) :
    (do let (memory, b') ← b.readBytes n; return (memory.map f, b')) =
      (b.readBytes n).map fun r => (r.1.map (value big b.byteOrder), r.2) := by
  cases hread : b.readBytes n with
  | none => rfl
  | some r =>
    obtain ⟨memory, b'⟩ := r
    show some (memory.map f, b') = some (memory.map _, b')
    rw [Option.map_congr fun val hval => hf val (readBytes_length hread hval)]

theorem readVariable_eq (big : Bool) (b : ByteBuffer) (n : Nat) : b.readVariable big n =
    (b.readBytes n).map fun r => (r.1.map (value big b.byteOrder), r.2) := by
  refine read_value fun val hval => ?_
  cases hb : b.byteOrder with
  | network =>
    show beValue (toMemory big n (ofMemory big val)) = beValue val
    rw [toMemory_ofMemory big hval]
  | host => rfl

theorem readUInt24_eq (big : Bool) (b : ByteBuffer) : b.readUInt24 big =
    (b.readBytes 3).map fun r => (r.1.map (value big b.byteOrder), r.2) := by
  refine read_value fun val hval => ?_
  cases hb : b.byteOrder with
  | network =>
    show beValue (toMemory big 4 (ofMemory big (0 :: val))) = beValue val
    rw [toMemory_ofMemory big (by rw [List.length_cons, hval]), beValue_zero_cons]
  | host =>
    cases big with
    | true => exact beValue_zero_cons val
    | false =>
      show beValue (val ++ [0]).reverse = beValue val.reverse
      rw [List.reverse_append]
      exact beValue_zero_cons val.reverse

/-- What is read is the value of the octets. -/
theorem readUInt_eq (big : Bool) (b : ByteBuffer) (w : Width) : b.readUInt big w =
    (b.readBytes w.octets).map fun r => (r.1.map (value big b.byteOrder), r.2) := by
  cases w with
  | w8 =>
    refine read_value fun val hval => ?_
    rw [ofMemory_one big hval]
    cases b.byteOrder with
    | network => rfl
    | host => exact (ofMemory_one big hval).symm
  | w16 => exact readVariable_eq big b 2
  | w24 => exact readUInt24_eq big b
  | w32 => exact readVariable_eq big b 4
  | w64 => exact readVariable_eq big b 8

theorem writeVariable_eq (fresh : Nat → UInt8) (big : Bool) (b : ByteBuffer) (n val : Nat) :
    b.writeVariable fresh big n val = b.writeBytes fresh (octets big b.byteOrder n val) := by
  unfold writeVariable
  cases hb : b.byteOrder with
  | network =>
    show b.writeBytes fresh (toMemory big n (ofMemory big (be n val))) = _
    rw [toMemory_ofMemory big (be_length n val)]
    rfl
  | host => rfl

theorem writeUInt24_eq (fresh : Nat → UInt8) (big : Bool) (b : ByteBuffer) (val : Nat) :
    b.writeUInt24 fresh big val = b.writeBytes fresh (octets big b.byteOrder 3 val) := by
  have htake : (be 3 val).take 3 = be 3 val := List.take_of_length_le (be_length 3 val).le
  unfold writeUInt24
  cases hb : b.byteOrder with
  | network =>
    show b.writeBytes fresh (((toMemory big 4 (ofMemory big (be 4 val))).drop 1).take 3) = _
    rw [toMemory_ofMemory big (be_length 4 val)]
    exact congrArg (b.writeBytes fresh) htake
  | host =>
    cases big with
    | true =>
      show b.writeBytes fresh (((be 4 val).drop 1).take 3) = b.writeBytes fresh (be 3 val)
      exact congrArg (b.writeBytes fresh) htake
    | false =>
      show b.writeBytes fresh ((be 4 val).reverse.take 3) = b.writeBytes fresh (be 3 val).reverse
      rfl

/-- What is written is the octets of the value. -/
theorem writeUInt_eq (fresh : Nat → UInt8) (big : Bool) (b : ByteBuffer) (w : Width) (val : Nat) :
    b.writeUInt fresh big w val =
      b.writeBytes fresh (octets big b.byteOrder w.octets val) := by
  cases w with
  | w8 =>
    show b.writeBytes fresh (toMemory big 1 val) = _
    cases b.byteOrder with
    | network => cases big <;> rfl
    | host => rfl
  | w16 => exact writeVariable_eq fresh big b 2 val
  | w24 => exact writeUInt24_eq fresh big b val
  | w32 => exact writeVariable_eq fresh big b 4 val
  | w64 => exact writeVariable_eq fresh big b 8 val

end ByteBuffer

end RtcCore.L1.Base
