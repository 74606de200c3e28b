import Mathlib.Algebra.Order.Ring.Nat

/-!
# Byte strings

Octet strings are lists of `UInt8`. `getByte` is an unchecked array read (0
outside the string: every read the models make is shown, or assumed where
the source assumes it, to be inside), `slice` the `len` octets from `off`.
`be16` / `be24` / `be32` are the big-endian writers of `ByteWriter`, on
naturals (the value is reduced modulo the field's width), and `rd16` the
reader written out as shifts and sums in the parsers. `readAt` is the checked
read, `beValue` the value of what was read.
-/
namespace RtcCore

abbrev Bytes := List UInt8

namespace Bytes

def getByte (b : Bytes) (i : Nat) : UInt8 := b[i]?.getD 0

def slice (b : Bytes) (off len : Nat) : Bytes := (b.drop off).take len

theorem slice_length {b : Bytes} {off len : Nat} (h : off + len ≤ b.length) :
    (slice b off len).length = len := by
  simp [slice]; omega

theorem slice_add (b : Bytes) (off m n : Nat) :
    slice b off (m + n) = slice b off m ++ slice b (off + m) n := by
  simp only [slice, List.take_add, List.drop_drop]

theorem slice_one {b : Bytes} {off : Nat} (h : off < b.length) :
    slice b off 1 = [getByte b off] := by
  simp only [slice, getByte, List.take_one, List.head?_drop]
  rw [List.getElem?_eq_getElem h]; rfl

theorem slice_congr {a b : Bytes} {i k n : Nat} (ha : i + n ≤ a.length) (hb : k + n ≤ b.length)
    (h : ∀ j < n, getByte a (i + j) = getByte b (k + j)) : slice a i n = slice b k n := by
  refine List.ext_getElem (by rw [slice_length ha, slice_length hb]) fun j h1 h2 => ?_
  rw [slice_length ha] at h1
  have hj := h j h1
  rw [getByte, getByte, List.getElem?_eq_getElem (by omega), List.getElem?_eq_getElem (by omega)]
    at hj
  simp only [slice, List.getElem_take, List.getElem_drop]
  exact hj

theorem slice_mid (pre a post : Bytes) : slice (pre ++ a ++ post) pre.length a.length = a := by
  rw [slice, List.append_assoc, List.drop_left, List.take_left]

/-- The octet at `i` of a string that starts with `pre`. -/
theorem getByte_append_right (pre b : Bytes) (i : Nat) :
    getByte (pre ++ b) (pre.length + i) = getByte b i := by
  simp [getByte, List.getElem?_append_right]

theorem slice_append_left {p : Bytes} (rest : Bytes) {off len : Nat} (h : off + len ≤ p.length) :
    slice (p ++ rest) off len = slice p off len := by
  rw [slice, slice, List.drop_append_of_le_length (by omega),
    List.take_append_of_le_length (by rw [List.length_drop]; omega)]

theorem getByte_append_left {p : Bytes} (rest : Bytes) {i : Nat} (h : i < p.length) :
    getByte (p ++ rest) i = getByte p i := by
  rw [getByte, getByte, List.getElem?_append_left h]

theorem getByte_take {b : Bytes} {n i : Nat} (h : i < n) : getByte (b.take n) i = getByte b i := by
  rw [getByte, getByte, List.getElem?_take_of_lt h]

/-- A decidable property of octets is checked on the 256 of them, by their two halves. -/
theorem forall_uint8 {P : UInt8 → Prop}
    (h : ∀ i j : Fin 16, P (UInt8.ofNat (16 * i.val + j.val))) (b : UInt8) : P b := by
  have hlt := b.toNat_lt
  have hb := h ⟨b.toNat / 16, by omega⟩ ⟨b.toNat % 16, by omega⟩
  rwa [Nat.div_add_mod, UInt8.ofNat_toNat] at hb

/-- The low seven bits of an octet whose high bit is clear. -/
theorem low7_of_clear {b : UInt8} (h : b &&& 0x80 = 0) : b &&& 0x7F = b :=
  forall_uint8 (P := fun b => b &&& 0x80 = 0 → b &&& 0x7F = b) (by decide) b h

def be16 (n : Nat) : Bytes := [UInt8.ofNat (n / 256), UInt8.ofNat n]

def rd16 (b : Bytes) (i : Nat) : Nat := (getByte b i).toNat * 256 + (getByte b (i + 1)).toNat

theorem be16_length (n : Nat) : (be16 n).length = 2 := rfl

def be24 (n : Nat) : Bytes := [UInt8.ofNat (n / 65536), UInt8.ofNat (n / 256), UInt8.ofNat n]

def be32 (n : Nat) : Bytes :=
  [UInt8.ofNat (n / 16777216), UInt8.ofNat (n / 65536), UInt8.ofNat (n / 256), UInt8.ofNat n]

theorem rd16_be16 (pre post : Bytes) (n : Nat) (h : n < 65536) :
    rd16 (pre ++ be16 n ++ post) pre.length = n := by
  have h0 := getByte_append_right pre (be16 n ++ post) 0
  have h1 := getByte_append_right pre (be16 n ++ post) 1
  simp only [Nat.add_zero] at h0
  rw [rd16, List.append_assoc, h0, h1]
  simp [be16, getByte]
  omega

/-- The big-endian value of octets. -/
def beValue (b : Bytes) : Nat := b.foldl (fun n x => n * 256 + x.toNat) 0

theorem beValue_be16 (n : Nat) : beValue (be16 n) = n % 65536 := by
  simp [beValue, be16]
  omega

theorem beValue_be24 (n : Nat) : beValue (be24 n) = n % 16777216 := by
  simp [beValue, be24]
  omega

theorem beValue_be32 (n : Nat) : beValue (be32 n) = n % 4294967296 := by
  simp [beValue, be32]
  omega

theorem beValue_append (a b : Bytes) :
    beValue (a ++ b) = beValue a * 256 ^ b.length + beValue b := by
  have hfold : ∀ (b : Bytes) (n : Nat), b.foldl (fun n x => n * 256 + x.toNat) n =
      n * 256 ^ b.length + b.foldl (fun n x => n * 256 + x.toNat) 0 := by
    intro b
    induction b with
    | nil => simp
    | cons x b ih =>
      intro n
      rw [List.foldl_cons, List.foldl_cons, ih, ih (0 * 256 + _), List.length_cons, Nat.pow_succ,
        Nat.add_mul, Nat.zero_mul, Nat.zero_add, Nat.mul_assoc, Nat.mul_comm 256, Nat.add_assoc]
  rw [beValue, List.foldl_append, hfold]
  rfl

theorem beValue_lt (b : Bytes) : beValue b < 256 ^ b.length := by
  induction b with
  | nil => exact Nat.one_pos
  | cons x b ih =>
    have hx : beValue [x] + 1 ≤ 256 := by
      have := x.toNat_lt
      simp only [beValue, List.foldl_cons, List.foldl_nil]
      omega
    have hmul := Nat.mul_le_mul_right (256 ^ b.length) hx
    rw [Nat.add_mul, Nat.one_mul] at hmul
    rw [show x :: b = [x] ++ b from rfl, beValue_append, List.length_append, List.length_singleton,
      Nat.add_comm 1, Nat.pow_succ, Nat.mul_comm _ 256]
    omega

/-- A read of `n` octets, without a value outside of the string. -/
def readAt (b : Bytes) (off n : Nat) : Option Bytes :=
  if off + n ≤ b.length then some (slice b off n) else none

theorem readAt_mid {pre a post : Bytes} {off n : Nat} (ho : pre.length = off) (hn : a.length = n) :
    readAt (pre ++ (a ++ post)) off n = some a := by
  subst ho hn
  rw [readAt, if_pos (by simp only [List.length_append]; omega), ← List.append_assoc, slice_mid]

end Bytes

end RtcCore
