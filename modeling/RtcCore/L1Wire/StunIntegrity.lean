import RtcCore.Core.Reads
import RtcCore.L1Wire.Stun

/-!
# What the STUN integrity check covers

`Read` lets every attribute object take its octets, `ValidateMessageIntegrity`
goes from header to header by the wire lengths. The reference is the walk of
the body as type, length, value and padding.

Results:
- `integrity_agreement_iff`: on every message that `Read` accepts, the
  attributes are those of the walk, and an accepted MESSAGE-INTEGRITY is the
  first one read, with every attribute before it inside the octets covered, if
  and only if no 32- or 64-bit attribute has another wire length and no unknown
  attribute one that wraps when it is padded.
- `retransmit_count_hides`: an attribute read from the value of another one.
-/
namespace RtcCore.L1

open Bytes ByteBuffer

namespace ByteBuffer

theorem exact_readBytes (n : Nat) : Exact (readBytes n) n := by
  intro buf v rest h
  rw [readBytes] at h
  split at h
  · cases h
  · rename_i hn
    cases h
    have hl : (buf.take n).length = n := by
      rw [List.length_take]
      omega
    refine ⟨buf.take n, hl, (List.take_append_drop n buf).symm, fun tail => ?_⟩
    rw [readBytes, if_neg (by rw [List.length_append, hl]; omega), List.take_left' hl,
      List.drop_left' hl]

theorem exact_readUInt (n : Nat) : Exact (readUInt n) n := (exact_readBytes n).map beValue

theorem exact_readUInt8 : Exact readUInt8 1 := (exact_readUInt 1).map UInt8.ofNat

theorem exact_readUInt16 : Exact readUInt16 2 := (exact_readUInt 2).map UInt16.ofNat

theorem exact_readUInt32 : Exact readUInt32 4 := (exact_readUInt 4).map UInt32.ofNat

theorem exact_readUInt64 : Exact readUInt64 8 := (exact_readUInt 8).map UInt64.ofNat

end ByteBuffer

namespace Stun

/-! ## What an attribute object takes -/

theorem exact_readUInt16s (n : Nat) : Exact (readUInt16s n) (2 * n) := by
  induction n with
  | zero =>
    intro buf v rest h
    cases h
    exact .pure [] buf
  | succ n ih =>
    intro buf v rest h
    rw [readUInt16s] at h
    obtain ⟨⟨t, b1⟩, h1, h⟩ := Option.bind_eq_some_iff.1 h
    obtain ⟨⟨ts, b2⟩, h2, h⟩ := Option.bind_eq_some_iff.1 h
    cases h
    rw [show 2 * (n + 1) = 2 + (2 * n + 0) by omega]
    exact .bind (exact_readUInt16 h1) (.bind (ih h2) (.pure _ _))

theorem exact_readAddress (length : UInt16) : Exact (readAddress length) length.toNat := by
  intro buf v rest h
  obtain ⟨⟨x, b1⟩, h1, h⟩ := Option.bind_eq_some_iff.1 h
  obtain ⟨⟨family, b2⟩, h2, h⟩ := Option.bind_eq_some_iff.1 h
  obtain ⟨⟨port, b3⟩, h3, h⟩ := Option.bind_eq_some_iff.1 h
  have hread : ∀ {n}, Took (fun b => _) b3 v rest n → Took (readAddress length) buf v rest
      (1 + (1 + (2 + n))) := fun hb =>
    .bind (exact_readUInt8 h1) (.bind (exact_readUInt8 h2) (.bind (exact_readUInt16 h3) hb))
  by_cases hf : family = 1
  · simp only [if_pos hf] at h hread
    by_cases hl : length = 8
    · simp only [hl, ne_eq, not_true_eq_false, if_false] at h hread
      obtain ⟨⟨a, b4⟩, h4, h⟩ := Option.bind_eq_some_iff.1 h
      cases h
      rw [hl]
      exact hread (.bind (exact_readUInt32 h4) (.pure (SocketAddress.mk (.ipv4 a) port) b4))
    · rw [if_pos hl] at h
      cases h
  · simp only [if_neg hf] at h hread
    by_cases hf2 : family = 2
    · simp only [if_pos hf2] at h hread
      by_cases hl : length = 20
      · simp only [hl, ne_eq, not_true_eq_false, if_false] at h hread
        obtain ⟨⟨a, b4⟩, h4, h⟩ := Option.bind_eq_some_iff.1 h
        obtain ⟨⟨b, b5⟩, h5, h⟩ := Option.bind_eq_some_iff.1 h
        obtain ⟨⟨c, b6⟩, h6, h⟩ := Option.bind_eq_some_iff.1 h
        obtain ⟨⟨d, b7⟩, h7, h⟩ := Option.bind_eq_some_iff.1 h
        cases h
        rw [hl]
        refine hread (.bind (exact_readUInt32 h4) (m := 4) (n := 4 + (4 + (4 + 0))) ?_)
        dsimp only
        refine .bind (exact_readUInt32 h5) ?_
        dsimp only
        refine .bind (exact_readUInt32 h6) ?_
        dsimp only
        exact .bind (exact_readUInt32 h7) (.pure (SocketAddress.mk (.ipv6 a b c d) port) b7)
      · rw [if_pos hl] at h
        cases h
    · rw [if_neg hf2] at h
      cases h

theorem readAddress_length {length : UInt16} {buf rest : Bytes} {addr : SocketAddress}
    (h : readAddress length buf = some (addr, rest)) : length = 8 ∨ length = 20 := by
  obtain ⟨⟨x, b1⟩, h1, h⟩ := Option.bind_eq_some_iff.1 h
  obtain ⟨⟨family, b2⟩, h2, h⟩ := Option.bind_eq_some_iff.1 h
  obtain ⟨⟨port, b3⟩, h3, h⟩ := Option.bind_eq_some_iff.1 h
  dsimp only at h
  split at h
  · by_cases hl : length = 8
    · exact Or.inl hl
    · rw [if_pos hl] at h
      cases h
  · split at h
    · by_cases hl : length = 20
      · exact Or.inr hl
      · rw [if_pos hl] at h
        cases h
    · cases h

/-- The octets a 32- or 64-bit object takes, whatever the wire says. -/
def StunAttributeValueType.fixedSize : StunAttributeValueType → Option Nat
  | .uint32 => some 4
  | .uint64 => some 8
  | _ => none

theorem consumePadding_of_mod {length : UInt16} (h : length.toNat % 4 = 0) (buf : Bytes) :
    consumePadding length buf = buf := by
  rw [consumePadding, padding, if_neg (by omega), consume, if_neg (Nat.not_lt_zero _)]
  rfl

theorem consumePadding_nil (length : UInt16) : consumePadding length [] = [] := by
  rw [consumePadding, consume]
  split
  · rfl
  · rw [List.drop_nil]
    rfl

/-- Where the wire length is the one the object expects, it takes the value
and its padding, and the value alone gives the same attribute. -/
theorem readAttribute_value {id buf rest : Bytes} {type length : UInt16}
    {kind : StunAttributeValueType} {a : StunAttribute}
    (h : readAttribute id type length buf kind = some (a, rest))
    (hfixed : ∀ n, kind.fixedSize = some n → length.toNat = n) :
    length.toNat ≤ buf.length ∧
      readAttribute id type length (buf.take length.toNat) kind = some (a, []) ∧
      rest = consumePadding length (buf.drop length.toNat) := by
  cases kind with
  | unknown => cases h
  | address =>
    obtain ⟨⟨addr, b1⟩, h1, h⟩ := Option.bind_eq_some_iff.1 h
    cases h
    have hmod : length.toNat % 4 = 0 := by
      rcases readAddress_length h1 with rfl | rfl <;> rfl
    have htook := exact_readAddress length h1
    obtain ⟨ha, rfl⟩ := htook.alone
    refine ⟨by have := htook.length; omega, ?_, (consumePadding_of_mod hmod _).symm⟩
    simp only [readAttribute, ha, Option.bind_eq_bind, Option.bind_some]
  | xorAddress =>
    obtain ⟨⟨addr, b1⟩, h1, h⟩ := Option.bind_eq_some_iff.1 h
    cases h
    have hmod : length.toNat % 4 = 0 := by
      rcases readAddress_length h1 with rfl | rfl <;> rfl
    have htook := exact_readAddress length h1
    obtain ⟨ha, rfl⟩ := htook.alone
    refine ⟨by have := htook.length; omega, ?_, (consumePadding_of_mod hmod _).symm⟩
    simp only [readAttribute, ha, Option.bind_eq_bind, Option.bind_some]
  | uint32 =>
    obtain ⟨⟨bits, b1⟩, h1, h⟩ := Option.bind_eq_some_iff.1 h
    cases h
    have hl : length.toNat = 4 := hfixed 4 rfl
    have htook := exact_readUInt32 h1
    obtain ⟨ha, rfl⟩ := htook.alone
    rw [hl]
    refine ⟨by have := htook.length; omega, ?_, (consumePadding_of_mod (by omega) _).symm⟩
    simp only [readAttribute, ha, Option.bind_eq_bind, Option.bind_some]
  | uint64 =>
    obtain ⟨⟨bits, b1⟩, h1, h⟩ := Option.bind_eq_some_iff.1 h
    cases h
    have hl : length.toNat = 8 := hfixed 8 rfl
    have htook := exact_readUInt64 h1
    obtain ⟨ha, rfl⟩ := htook.alone
    rw [hl]
    refine ⟨by have := htook.length; omega, ?_, (consumePadding_of_mod (by omega) _).symm⟩
    simp only [readAttribute, ha, Option.bind_eq_bind, Option.bind_some]
  | byteString =>
    obtain ⟨⟨bytes, b1⟩, h1, h⟩ := Option.bind_eq_some_iff.1 h
    cases h
    have htook := exact_readBytes length.toNat h1
    obtain ⟨ha, rfl⟩ := htook.alone
    refine ⟨by have := htook.length; omega, ?_, rfl⟩
    simp only [readAttribute, ha, Option.bind_eq_bind, Option.bind_some, consumePadding_nil]
  | errorCode =>
    rw [readAttribute] at h ⊢
    split at h
    · cases h
    · rename_i hge
      rw [if_neg hge]
      obtain ⟨⟨val, b1⟩, h1, h⟩ := Option.bind_eq_some_iff.1 h
      obtain ⟨⟨reason, b2⟩, h2, h⟩ := Option.bind_eq_some_iff.1 h
      cases h
      have hge4 : ¬ length.toNat < 4 := hge
      have htook : Took (fun b => (readUInt32 b).bind fun r =>
          (readBytes (length.toNat - 4) r.2).bind fun s => some ((r.1, s.1), s.2)) buf
          (val, reason) b2 (4 + (length.toNat - 4 + 0)) := by
        refine .bind (exact_readUInt32 h1) ?_
        dsimp only
        exact .bind (exact_readBytes _ h2) (.pure (val, reason) b2)
      rw [show 4 + (length.toNat - 4 + 0) = length.toNat by omega] at htook
      obtain ⟨ha, rfl⟩ := htook.alone
      refine ⟨by have := htook.length; omega, ?_, rfl⟩
      obtain ⟨⟨val', b1'⟩, h1', ha⟩ := Option.bind_eq_some_iff.1 ha
      obtain ⟨⟨reason', b2'⟩, h2', ha⟩ := Option.bind_eq_some_iff.1 ha
      cases ha
      simp only [h1', h2', Option.bind_eq_bind, Option.bind_some, consumePadding_nil]
  | uint16List =>
    rw [readAttribute] at h ⊢
    split at h
    · cases h
    · rename_i heven
      rw [if_neg heven]
      obtain ⟨⟨types, b1⟩, h1, h⟩ := Option.bind_eq_some_iff.1 h
      cases h
      have hlen : 2 * (length.toNat / 2) = length.toNat := by
        rw [Decidable.not_not, ← UInt16.toNat_inj, UInt16.toNat_mod] at heven
        have : length.toNat % 2 = 0 := heven
        omega
      have htook := exact_readUInt16s (length.toNat / 2) h1
      rw [hlen] at htook
      obtain ⟨ha, rfl⟩ := htook.alone
      refine ⟨by have := htook.length; omega, ?_, rfl⟩
      simp only [ha, Option.bind_eq_bind, Option.bind_some, consumePadding_nil]

/-! ## The walk of the body -/

namespace StunMessage

/-- Type, 16-bit length, value and padding, up to the end. -/
def fields : Nat → Bytes → Option (List (UInt16 × Bytes))
  | 0, _ => none
  | fuel + 1, buf =>
    if buf.length = 0 then some []
    else do
      let (type, rest) ← readUInt16 buf
      let (length, rest) ← readUInt16 rest
      let (value, rest) ← readBytes length.toNat rest
      let more ← fields fuel (rest.drop (padding length.toNat))
      some ((type, value) :: more)

/-- The types and lengths that the walk meets, also where a length points
behind the end. -/
def headers : Nat → Bytes → List (UInt16 × UInt16)
  | 0, _ => []
  | fuel + 1, buf =>
    match readUInt16 buf with
    | none => []
    | some (type, rest) =>
      match readUInt16 rest with
      | none => []
      | some (length, rest) =>
        (type, length) :: headers fuel (rest.drop (length.toNat + padding length.toNat))

/-- The body is what stands behind the header of the message. -/
def body (data : Bytes) : Bytes := data.drop 20

/-- A 32- or 64-bit attribute has its own size on the wire, and the length of
an attribute that is skipped can be padded in 16 bits. -/
def Fits (cls : MessageClass) (header : UInt16 × UInt16) : Prop :=
  (∀ n, (cls.getAttributeValueType header.1).fixedSize = some n → header.2.toNat = n) ∧
    (cls.getAttributeValueType header.1 = .unknown → header.2.toNat < 65533)

/-- The condition on the message's octets. -/
def WireLengthsFit (cls : MessageClass) (data : Bytes) : Prop :=
  ∀ header ∈ headers ((body data).length + 1) (body data), Fits cls header

/-- The attribute that a type and a value stand for: the value is used up. -/
def decode (cls : MessageClass) (id : Bytes) (field : UInt16 × Bytes) : Option StunAttribute :=
  match readAttribute id field.1 (.ofNat field.2.length) field.2
    (cls.getAttributeValueType field.1) with
  | some (a, []) => some a
  | _ => none

def known (cls : MessageClass) (field : UInt16 × Bytes) : Bool :=
  cls.getAttributeValueType field.1 ≠ .unknown

/-! ## One step of `Read` -/

theorem readAt_of_readUInt16 {data rest : Bytes} {pos : Nat} {v : UInt16}
    (h : readUInt16 (data.drop pos) = some (v, rest)) :
    (readAt data pos 2).map beValue = some v.toNat ∧ rest = data.drop (pos + 2) := by
  have htook := exact_readUInt16 h
  have hl := htook.length
  rw [List.length_drop] at hl
  obtain ⟨ha, hr⟩ := htook.alone
  rw [List.drop_drop] at hr
  refine ⟨?_, hr⟩
  rw [readAt, if_pos (by omega), Option.map_some]
  obtain ⟨⟨n, b⟩, hn, hv⟩ := Option.map_eq_some_iff.1 h
  obtain ⟨⟨x, b'⟩, hx, hn⟩ := Option.map_eq_some_iff.1 hn
  cases hn
  cases hv
  rw [readBytes] at hx
  split at hx
  · cases hx
  · cases hx
    congr 1
    rw [UInt16.toNat_ofNat', Nat.mod_eq_of_lt]
    · rfl
    · have hlt := beValue_lt ((data.drop pos).take 2)
      rw [List.length_take, List.length_drop, Nat.min_eq_left (by omega)] at hlt
      exact hlt

theorem paddedLength_toNat {length : UInt16} (h : length.toNat < 65533) :
    (paddedLength length).toNat = length.toNat + padding length.toNat := by
  rw [paddedLength, padding]
  by_cases hm : length.toNat % 4 = 0
  · have : length % 4 = 0 := by
      rw [← UInt16.toNat_inj, UInt16.toNat_mod]
      exact hm
    rw [if_neg (Decidable.not_not.2 this), if_neg (by omega), Nat.add_zero]
  · have : length % 4 ≠ 0 := by
      intro hc
      rw [← UInt16.toNat_inj, UInt16.toNat_mod] at hc
      exact hm hc
    have hmod : (length % 4).toNat = length.toNat % 4 := UInt16.toNat_mod ..
    have h4 : (4 : UInt16).toNat = 4 := rfl
    have hsub : (4 - length % 4).toNat = 4 - length.toNat % 4 := by
      rw [UInt16.toNat_sub_of_le _ _ (by rw [UInt16.le_iff_toNat_le, hmod, h4]; omega), hmod, h4]
    rw [if_pos this, if_pos (by omega), UInt16.toNat_add, hsub]
    omega

/-- Fewer than four octets are no attribute. -/
theorem readAttributes_short {cls : MessageClass} {id buf : Bytes} {fuel pos : Nat}
    (h0 : buf.length ≠ 0) (h4 : buf.length < 4) :
    readAttributes cls id (fuel + 1) pos buf = none := by
  rw [readAttributes, if_neg h0]
  cases h1 : readUInt16 buf with
  | none => rfl
  | some r1 =>
    have hl1 := (exact_readUInt16 h1).length
    have h2 : readUInt16 r1.2 = none := by
      cases h2 : readUInt16 r1.2 with
      | none => rfl
      | some r2 =>
        have hl2 := (exact_readUInt16 h2).length
        omega
    simp only [Option.bind_eq_bind, Option.bind_some, h2, Option.bind_none]

section Step

variable {cls : MessageClass} {id buf : Bytes} {fuel pos : Nat} {spans : List Parsed}

/-- What one pass does where the wire lengths fit: it finds the header, a value
that is inside, and goes on behind the padding. -/
theorem readAttributes_step (h : readAttributes cls id (fuel + 1) pos buf = some spans)
    (hne : buf.length ≠ 0) (hfuel : buf.length ≤ fuel)
    (hfit : ∀ header ∈ headers (fuel + 1) buf, Fits cls header) :
    ∃ type length b1 b2 rest next more, readUInt16 buf = some (type, b1) ∧
      readUInt16 b1 = some (length, b2) ∧ length.toNat ≤ b2.length ∧
      rest = b2.drop (length.toNat + padding length.toNat) ∧
      next = pos + (buf.length - rest.length) ∧
      readAttributes cls id fuel next rest = some more ∧
      (cls.getAttributeValueType type = .unknown ∧ spans = more ∨
        cls.getAttributeValueType type ≠ .unknown ∧
          ∃ a, decode cls id (type, b2.take length.toNat) = some a ∧
            spans = ⟨pos, a, next⟩ :: more) := by
  rw [readAttributes, if_neg hne] at h
  obtain ⟨⟨type, b1⟩, h1, h⟩ := Option.bind_eq_some_iff.1 h
  obtain ⟨⟨length, b2⟩, h2, h⟩ := Option.bind_eq_some_iff.1 h
  dsimp only at h
  have hl1 := (exact_readUInt16 h1).length
  have hl2 := (exact_readUInt16 h2).length
  obtain ⟨hfixed, hskip⟩ : Fits cls (type, length) := by
    refine hfit _ ?_
    simp only [headers, h1, h2, List.mem_cons, true_or]
  dsimp only at hfixed hskip
  split at h
  · -- an unknown attribute is skipped with its padding
    rename_i hk
    obtain ⟨rest, hr, h⟩ := Option.bind_eq_some_iff.1 h
    rw [consume, paddedLength_toNat (hskip hk)] at hr
    split at hr
    · cases hr
    · cases hr
      exact ⟨type, length, b1, b2, _, _, spans, h1, h2, by omega, rfl, rfl, h, Or.inl ⟨hk, rfl⟩⟩
  · rename_i hk
    obtain ⟨⟨a, rest⟩, ha, h⟩ := Option.bind_eq_some_iff.1 h
    obtain ⟨more, hm, h⟩ := Option.bind_eq_some_iff.1 h
    cases h
    obtain ⟨hin, halone, hrest⟩ := readAttribute_value ha hfixed
    -- behind a value that lacks a part of its padding there is no attribute
    have hpad : rest = b2.drop (length.toNat + padding length.toNat) := by
      rw [hrest, ← List.drop_drop, consumePadding, consume]
      split
      · rename_i hgt
        rw [List.drop_eq_nil_of_le (Nat.le_of_lt hgt)]
        have hp : padding length.toNat < 4 := by
          rw [padding]
          split <;> omega
        have hrl : rest = b2.drop length.toNat := by
          rw [hrest, consumePadding, consume, if_pos hgt]
          rfl
        by_cases h0 : (b2.drop length.toNat).length = 0
        · exact List.length_eq_zero_iff.1 h0
        · obtain ⟨fuel, rfl⟩ : ∃ n, fuel = n + 1 := ⟨fuel - 1, by omega⟩
          dsimp only at hm
          rw [hrl, readAttributes_short h0 (by omega)] at hm
          cases hm
      · rfl
    refine ⟨type, length, b1, b2, rest, _, more, h1, h2, hin, hpad, rfl, hm,
      Or.inr ⟨hk, a, ?_, rfl⟩⟩
    rw [decode]
    simp only [List.length_take, Nat.min_eq_left hin, UInt16.ofNat_toNat, halone]

theorem headers_step {type length : UInt16} {b1 b2 : Bytes} (h1 : readUInt16 buf = some (type, b1))
    (h2 : readUInt16 b1 = some (length, b2)) :
    headers (fuel + 1) buf =
      (type, length) :: headers fuel (b2.drop (length.toNat + padding length.toNat)) := by
  simp only [headers, h1, h2]

/-- The attributes are those of the walk. -/
theorem readAttributes_fields : ∀ {fuel pos : Nat} {buf : Bytes} {spans : List Parsed},
    readAttributes cls id fuel pos buf = some spans → buf.length < fuel →
    (∀ header ∈ headers fuel buf, Fits cls header) →
    ∃ fs, fields fuel buf = some fs ∧
      (fs.filter (known cls)).map (decode cls id) = spans.map (some ·.attr) := by
  intro fuel
  induction fuel with
  | zero => exact fun _ hl => absurd hl (Nat.not_lt_zero _)
  | succ fuel ih =>
    intro pos buf spans h hl hfit
    by_cases h0 : buf.length = 0
    · rw [readAttributes, if_pos h0] at h
      cases h
      exact ⟨[], if_pos h0, rfl⟩
    · obtain ⟨type, length, b1, b2, rest, next, more, h1, h2, hin, rfl, -, hmore, hcase⟩ :=
        readAttributes_step h h0 (by omega) hfit
      have hl1 := (exact_readUInt16 h1).length
      have hl2 := (exact_readUInt16 h2).length
      rw [headers_step h1 h2] at hfit
      obtain ⟨fs, hfs, hmap⟩ := ih hmore (by rw [List.length_drop]; omega)
        fun x hx => hfit x (List.mem_cons_of_mem _ hx)
      refine ⟨(type, b2.take length.toNat) :: fs, ?_, ?_⟩
      · rw [fields, if_neg h0]
        simp only [h1, h2, Option.bind_eq_bind, Option.bind_some, readBytes,
          if_neg (Nat.not_lt.2 hin), List.drop_drop, hfs]
      · rcases hcase with ⟨hk, rfl⟩ | ⟨hk, a, ha, rfl⟩
        · rw [List.filter_cons_of_neg (by simp [known, hk]), hmap]
        · rw [List.filter_cons_of_pos (by simp [known, hk]), List.map_cons, List.map_cons, hmap, ha]

theorem readAttribute_type {id buf rest : Bytes} {type length : UInt16}
    {kind : StunAttributeValueType} {a : StunAttribute}
    (h : readAttribute id type length buf kind = some (a, rest)) : a.type = type := by
  cases kind with
  | unknown => cases h
  | address | xorAddress | uint32 | uint64 | byteString =>
    obtain ⟨r, -, h⟩ := Option.bind_eq_some_iff.1 h
    cases h
    rfl
  | errorCode =>
    rw [readAttribute] at h
    split at h
    · cases h
    · obtain ⟨r, -, h⟩ := Option.bind_eq_some_iff.1 h
      obtain ⟨s, -, h⟩ := Option.bind_eq_some_iff.1 h
      cases h
      rfl
  | uint16List =>
    rw [readAttribute] at h
    split at h
    · cases h
    · obtain ⟨r, -, h⟩ := Option.bind_eq_some_iff.1 h
      cases h
      rfl

theorem decode_eq_some {field : UInt16 × Bytes} {a : StunAttribute} :
    decode cls id field = some a ↔
      readAttribute id field.1 (.ofNat field.2.length) field.2
        (cls.getAttributeValueType field.1) = some (a, []) := by
  rw [decode]
  constructor
  · intro h
    split at h
    · cases h
      assumption
    · cases h
  · intro h
    rw [h]

theorem decode_messageIntegrity {value : Bytes} (hl : value.length < 65536) :
    decode cls id (0x0008, value) = some (.byteString 0x0008 value) := by
  rw [decode_eq_some, valueType_messageIntegrity, readAttribute]
  simp only [readBytes, UInt16.toNat_ofNat', Nat.mod_eq_of_lt hl, gt_iff_lt, Nat.lt_irrefl,
    if_false, List.take_length, List.drop_length, Option.bind_eq_bind, Option.bind_some,
    consumePadding_nil]

/-- The check and `Read` find the same MESSAGE-INTEGRITY attribute. -/
theorem readAttributes_find {data : Bytes} {mi : Nat} : ∀ {fuel fuel' pos : Nat}
    {spans : List Parsed}, readAttributes cls id fuel pos (data.drop pos) = some spans →
    (data.drop pos).length < fuel → (∀ header ∈ headers fuel (data.drop pos), Fits cls header) →
    findMessageIntegrity data fuel' pos = some (some mi) →
    pos ≤ mi ∧ mi ≤ data.length ∧ ∃ before p after, spans = before ++ p :: after ∧ p.start = mi ∧
      p.attr = .byteString 0x0008 (slice data (mi + 4) 20) ∧
      ∀ x ∈ before, x.attr.type ≠ 0x0008 ∧ pos ≤ x.start ∧ x.start ≤ x.stop ∧ x.stop ≤ mi := by
  intro fuel
  induction fuel with
  | zero => exact fun _ hl => absurd hl (Nat.not_lt_zero _)
  | succ fuel ih =>
    intro fuel' pos spans h hl hfit hfind
    cases fuel' with
    | zero => cases hfind
    | succ fuel' =>
      rw [findMessageIntegrity] at hfind
      by_cases hpos : pos < data.length
      · have hlen : (data.drop pos).length = data.length - pos := List.length_drop
        obtain ⟨type, length, b1, b2, rest, next, more, h1, h2, hin, hrest, hnext, hmore, hcase⟩ :=
          readAttributes_step h (by omega) (by omega) hfit
        rw [headers_step h1 h2, ← hrest] at hfit
        obtain ⟨ht, rfl⟩ := readAt_of_readUInt16 h1
        obtain ⟨hn, rfl⟩ := readAt_of_readUInt16 h2
        rw [List.length_drop] at hin
        rw [List.drop_drop] at hrest
        simp only [if_pos hpos, ht, hn, Option.bind_eq_bind, Option.bind_some] at hfind
        by_cases h8 : type.toNat = 0x0008
        · -- the header of MESSAGE-INTEGRITY: both stop here
          obtain rfl : type = 0x0008 := UInt16.toNat_inj.1 h8
          rw [if_pos h8] at hfind
          split at hfind
          · cases hfind
          · rename_i hsize
            cases hfind
            have h20 : length.toNat = 20 := Decidable.not_not.1 fun hc => hsize (Or.inl hc)
            rcases hcase with ⟨hk, -⟩ | ⟨-, a, ha, rfl⟩
            · rw [valueType_messageIntegrity] at hk
              cases hk
            · rw [decode_messageIntegrity (by rw [List.length_take]; omega), h20] at ha
              cases ha
              refine ⟨Nat.le_refl _, by omega, [], _, more, rfl, rfl, rfl, fun x hx => ?_⟩
              exact absurd hx List.not_mem_nil
        · rw [if_neg h8] at hfind
          -- the walk of the check ends where the padding is cut off
          have hend : pos + 4 + length.toNat + padding length.toNat ≤ data.length := by
            refine Nat.not_lt.1 fun hlt => ?_
            cases fuel' with
            | zero => cases hfind
            | succ fuel' =>
              rw [findMessageIntegrity, if_neg (by omega)] at hfind
              cases hfind
          have hrl : rest.length =
              data.length - (pos + 2 + 2 + (length.toNat + padding length.toNat)) := by
            rw [hrest, List.length_drop]
          have hnext' : next = pos + 4 + length.toNat + padding length.toNat := by omega
          rw [← hnext'] at hfind
          have hdrop : rest = data.drop next := by
            rw [hrest, hnext']
            congr 1
            omega
          subst hdrop
          obtain ⟨hle, hmi, before, p, after, rfl, hstart, hattr, hbefore⟩ := ih hmore (by omega)
            (fun x hx => hfit x (List.mem_cons_of_mem _ hx)) hfind
          have hbefore' : ∀ x ∈ before, x.attr.type ≠ 0x0008 ∧ pos ≤ x.start ∧ x.start ≤ x.stop ∧
              x.stop ≤ mi := by
            intro x hx
            obtain ⟨hx1, hx2, hx3⟩ := hbefore x hx
            exact ⟨hx1, by omega, hx3⟩
          rcases hcase with ⟨-, rfl⟩ | ⟨-, a, ha, rfl⟩
          · exact ⟨by omega, hmi, before, p, after, rfl, hstart, hattr, hbefore'⟩
          · refine ⟨by omega, hmi, ⟨pos, a, next⟩ :: before, p, after, rfl, hstart, hattr, ?_⟩
            intro x hx
            rcases List.mem_cons.1 hx with rfl | hx
            · refine ⟨?_, Nat.le_refl _, by dsimp only; omega, hle⟩
              rw [readAttribute_type (decode_eq_some.1 ha)]
              intro hc
              exact h8 (congrArg UInt16.toNat hc)
            · exact hbefore' x hx
      · rw [if_neg hpos] at hfind
        cases hfind

end Step

/-! ## Agreement -/

/-- A walk that ends has met the headers of its fields, each inside. -/
theorem fields_headers : ∀ {fuel : Nat} {buf : Bytes} {fs : List (UInt16 × Bytes)},
    fields fuel buf = some fs →
    headers fuel buf = fs.map (fun f => (f.1, .ofNat f.2.length)) ∧
      ∀ f ∈ fs, f.2.length + 4 ≤ buf.length ∧ f.2.length < 65536 := by
  intro fuel
  induction fuel with
  | zero => exact fun h => nomatch h
  | succ fuel ih =>
    intro buf fs h
    rw [fields] at h
    split at h
    · rename_i h0
      cases h
      rw [List.length_eq_zero_iff.1 h0]
      exact ⟨rfl, fun f hf => absurd hf List.not_mem_nil⟩
    · obtain ⟨⟨type, b1⟩, h1, h⟩ := Option.bind_eq_some_iff.1 h
      obtain ⟨⟨length, b2⟩, h2, h⟩ := Option.bind_eq_some_iff.1 h
      obtain ⟨⟨value, b3⟩, h3, h⟩ := Option.bind_eq_some_iff.1 h
      obtain ⟨more, hmore, h⟩ := Option.bind_eq_some_iff.1 h
      cases h
      have hl1 := (exact_readUInt16 h1).length
      have hl2 := (exact_readUInt16 h2).length
      have htook := exact_readBytes _ h3
      have hl3 := htook.length
      have hb3 := htook.alone.2
      obtain ⟨hheaders, hinside⟩ := ih hmore
      have hvalue : value.length = length.toNat := by
        rw [readBytes] at h3
        split at h3
        · cases h3
        · cases h3
          rw [List.length_take]
          omega
      refine ⟨?_, fun f hf => ?_⟩
      · rw [headers_step h1 h2, List.map_cons, ← hheaders, hb3, List.drop_drop]
        simp only [hvalue, UInt16.ofNat_toNat]
      · have hlt := length.toNat_lt
        rcases List.mem_cons.1 hf with rfl | hf
        · exact ⟨by dsimp only; omega, by dsimp only; omega⟩
        · have := hinside f hf
          rw [List.length_drop] at this
          omega

/-- The attributes returned are the known fields of the body, in order. -/
def ReadsTheFields (cls : MessageClass) (data : Bytes) (m : StunMessage) : Prop :=
  ∃ fs, fields ((body data).length + 1) (body data) = some fs ∧
    (fs.filter (known cls)).map (decode cls m.transactionId) = m.attrs.map some

/-- The attribute that was verified is the first MESSAGE-INTEGRITY read, and
what was read before it stands in the octets the HMAC was taken of. -/
def CoversWhatIsRead (hmac : Bytes → Bytes → Bytes) (data : Bytes) (spans : List Parsed) : Prop :=
  ∀ password, validateMessageIntegrity hmac data password = some true →
    ∃ miPos before mi after, findMessageIntegrity data data.length 20 = some (some miPos) ∧
      spans = before ++ mi :: after ∧ mi.start = miPos ∧
      mi.attr = .byteString 0x0008 (hmac password (coveredBytes data miPos)) ∧
      ∀ x ∈ before, x.attr.type ≠ 0x0008 ∧ x.stop ≤ (coveredBytes data miPos).length ∧
        slice (coveredBytes data miPos) x.start (x.stop - x.start) =
          slice data x.start (x.stop - x.start)

theorem coveredBytes_length {data : Bytes} {mi : Nat} (h20 : 20 ≤ mi) (h : mi ≤ data.length) :
    (coveredBytes data mi).length = mi := by
  have htake : (data.take mi).length = mi := by
    rw [List.length_take]
    omega
  rw [coveredBytes]
  split
  · simp only [List.length_append, be16_length, List.length_take, List.length_drop, htake]
    omega
  · exact htake

/-- Behind the length field the octets covered are those of the message. -/
theorem coveredBytes_slice {data : Bytes} {mi off len : Nat} (h4 : 4 ≤ off)
    (h : off + len ≤ mi) : slice (coveredBytes data mi) off len = slice data off len := by
  have hcut : slice (data.take mi) off len = slice data off len := by
    rw [slice, slice, List.drop_take, List.take_take, Nat.min_eq_left (by omega)]
  rw [coveredBytes]
  split
  · rw [← hcut, slice, slice]
    congr 1
    have hfront : ((data.take mi).take 2 ++ be16 (mi + 4 + 20 - 20)).length = 4 := by
      rw [List.length_append, be16_length, List.length_take, List.length_take]
      omega
    rw [show off = 4 + (off - 4) by omega, ← List.drop_drop, List.drop_left' hfront, List.drop_drop]
  · exact hcut

/-- A fixed-size value that is used up has its size. -/
theorem decode_fixedSize {cls : MessageClass} {id : Bytes} {field : UInt16 × Bytes}
    {a : StunAttribute} {n : Nat} (h : decode cls id field = some a)
    (hn : (cls.getAttributeValueType field.1).fixedSize = some n) : field.2.length = n := by
  rw [decode_eq_some] at h
  cases hk : cls.getAttributeValueType field.1 with
  | uint32 =>
    rw [hk] at h hn
    cases hn
    obtain ⟨⟨bits, rest⟩, h1, h⟩ := Option.bind_eq_some_iff.1 h
    cases h
    exact (exact_readUInt32 h1).length
  | uint64 =>
    rw [hk] at h hn
    cases hn
    obtain ⟨⟨bits, rest⟩, h1, h⟩ := Option.bind_eq_some_iff.1 h
    cases h
    exact (exact_readUInt64 h1).length
  | unknown | address | xorAddress | byteString | errorCode | uint16List =>
    rw [hk] at hn
    cases hn

theorem validateMessageIntegrity_true {hmac : Bytes → Bytes → Bytes} {data password : Bytes}
    (h : validateMessageIntegrity hmac data password = some true) :
    ∃ miPos, findMessageIntegrity data data.length 20 = some (some miPos) ∧
      slice data (miPos + 4) 20 = hmac password (coveredBytes data miPos) := by
  rw [validateMessageIntegrity] at h
  split at h
  · cases h
  · obtain ⟨msgLength, -, h⟩ := Option.bind_eq_some_iff.1 h
    split at h
    · cases h
    · obtain ⟨found, hf, h⟩ := Option.bind_eq_some_iff.1 h
      cases found with
      | none => cases h
      | some miPos =>
        refine ⟨miPos, hf, ?_⟩
        obtain ⟨octets, ho, h⟩ := Option.bind_eq_some_iff.1 h
        rw [readAt] at ho
        split at ho
        · cases ho
          exact eq_of_beq (Option.some.inj h)
        · cases ho

theorem readParsed_body {cls : MessageClass} {data : Bytes} {m : StunMessage}
    {spans : List Parsed} (h : readParsed cls data = some (m, spans)) :
    (body data).length < 65536 ∧ m.attrs = spans.map (·.attr) ∧
      readAttributes cls m.transactionId ((body data).length + 1) 20 (body data) = some spans := by
  obtain ⟨⟨type, b1⟩, h1, h⟩ := Option.bind_eq_some_iff.1 h
  dsimp only at h
  split at h
  · cases h
  · obtain ⟨⟨length, b2⟩, h2, h⟩ := Option.bind_eq_some_iff.1 h
    obtain ⟨⟨cookie, b3⟩, h3, h⟩ := Option.bind_eq_some_iff.1 h
    obtain ⟨⟨id, b4⟩, h4, h⟩ := Option.bind_eq_some_iff.1 h
    dsimp only at h2 h3 h4 h
    split at h
    · cases h
    · rename_i hlen
      obtain ⟨attrs, ha, h⟩ := Option.bind_eq_some_iff.1 h
      cases h
      have hbody : b4 = body data := by
        rw [(exact_readBytes _ h4).alone.2, (exact_readBytes _ h3).alone.2,
          (exact_readUInt16 h2).alone.2, (exact_readUInt16 h1).alone.2, List.drop_drop,
          List.drop_drop, List.drop_drop]
        rfl
      subst hbody
      have hlt := length.toNat_lt
      exact ⟨by omega, rfl, ha⟩

/-- `Read` and the integrity check agree about the attributes exactly where the
wire lengths fit. -/
theorem integrity_agreement_iff (hmac : Bytes → Bytes → Bytes) (cls : MessageClass) (data : Bytes)
    (m : StunMessage) (spans : List Parsed) (h : readParsed cls data = some (m, spans)) :
    (ReadsTheFields cls data m ∧ CoversWhatIsRead hmac data spans) ↔ WireLengthsFit cls data := by
  obtain ⟨hlt, hattrs, hread⟩ := readParsed_body h
  constructor
  · rintro ⟨⟨fs, hfs, hmap⟩, -⟩ header hh
    obtain ⟨hheaders, hinside⟩ := fields_headers hfs
    rw [hheaders] at hh
    obtain ⟨f, hf, rfl⟩ := List.mem_map.1 hh
    obtain ⟨hin, hl⟩ := hinside f hf
    have hlen : (UInt16.ofNat f.2.length).toNat = f.2.length := by
      rw [UInt16.toNat_ofNat', Nat.mod_eq_of_lt hl]
    refine ⟨fun n hn => ?_, fun _ => by dsimp only; omega⟩
    have hknown : f ∈ fs.filter (known cls) := by
      refine List.mem_filter.2 ⟨hf, decide_eq_true fun hk => ?_⟩
      dsimp only at hn
      rw [hk] at hn
      cases hn
    have hsome : decode cls m.transactionId f ∈ m.attrs.map some := by
      rw [← hmap]
      exact List.mem_map_of_mem hknown
    obtain ⟨a, -, ha⟩ := List.mem_map.1 hsome
    exact hlen.trans (decode_fixedSize ha.symm hn)
  · intro hfit
    refine ⟨?_, fun password hv => ?_⟩
    · obtain ⟨fs, hfs, hmap⟩ := readAttributes_fields hread (Nat.lt_succ_self _) hfit
      refine ⟨fs, hfs, ?_⟩
      rw [hmap, hattrs, List.map_map]
      rfl
    · obtain ⟨miPos, hfind, hfound⟩ := validateMessageIntegrity_true hv
      obtain ⟨h20, hmi, before, p, after, hspans, hstart, hattr, hbefore⟩ :=
        readAttributes_find hread (Nat.lt_succ_self _) hfit hfind
      rw [hfound] at hattr
      refine ⟨miPos, before, p, after, hfind, hspans, hstart, hattr, fun x hx => ?_⟩
      obtain ⟨htype, hfrom, hle, hstop⟩ := hbefore x hx
      refine ⟨htype, ?_, coveredBytes_slice (by omega) (by omega)⟩
      rw [coveredBytes_length h20 hmi]
      exact hstop

/-- A binding request of a user with a priority and MESSAGE-INTEGRITY. -/
def checkedRequest : Bytes :=
  be16 0x0001 ++ be16 40 ++ cookieBytes ++ List.replicate 12 7 ++
    (be16 0x0006 ++ be16 3 ++ [0x66, 0x6f, 0x6f, 0] ++ be16 0x0024 ++ be16 4 ++ be32 7 ++
      be16 0x0008 ++ be16 20 ++ List.replicate 20 9)

theorem integrity_agreement_iff_request :
    ∃ m spans, readParsed .ice checkedRequest = some (m, spans) ∧
      ReadsTheFields .ice checkedRequest m ∧
      CoversWhatIsRead (fun _ _ => List.replicate 20 9) checkedRequest spans := by
  have hsome : (readParsed .ice checkedRequest).isSome := by decide
  obtain ⟨⟨m, spans⟩, h⟩ := Option.isSome_iff_exists.1 hsome
  refine ⟨m, spans, h, (integrity_agreement_iff _ .ice checkedRequest m spans h).2 ?_⟩
  have hheaders : headers ((body checkedRequest).length + 1) (body checkedRequest) =
      [(0x0006, 3), (0x0024, 4), (0x0008, 20)] := by decide
  intro header hh
  rw [hheaders] at hh
  simp only [List.mem_cons, List.not_mem_nil, or_false] at hh
  rcases hh with rfl | rfl | rfl
  · exact ⟨fun n hn => (nomatch hn), fun _ => by decide⟩
  · exact ⟨fun n hn => Option.some.inj hn, fun _ => by decide⟩
  · exact ⟨fun n hn => (nomatch hn), fun _ => by decide⟩

/-- RETRANSMIT-COUNT with a wire length of 28: `Read` takes four octets of it
and reads MESSAGE-INTEGRITY in what is left, the check finds the one behind. -/
def hidingRequest : Bytes :=
  be16 0x0001 ++ be16 56 ++ cookieBytes ++ List.replicate 12 7 ++
    (be16 0xFF00 ++ be16 28 ++ be32 1 ++ be16 0x0008 ++ be16 20 ++ List.replicate 20 5 ++
      be16 0x0008 ++ be16 20 ++ List.replicate 20 9)

theorem retransmit_count_hides :
    ¬ ∀ (hmac : Bytes → Bytes → Bytes) (cls : MessageClass) (data : Bytes) (m : StunMessage)
      (spans : List Parsed), readParsed cls data = some (m, spans) →
      ReadsTheFields cls data m ∧ CoversWhatIsRead hmac data spans := by
  intro hall
  have hread : readParsed .ice hidingRequest = some
      (⟨0x0001, 56, List.replicate 12 7,
        [.uint32 0xFF00 1, .byteString 0x0008 (List.replicate 20 5),
          .byteString 0x0008 (List.replicate 20 9)]⟩,
        [⟨20, .uint32 0xFF00 1, 28⟩, ⟨28, .byteString 0x0008 (List.replicate 20 5), 52⟩,
          ⟨52, .byteString 0x0008 (List.replicate 20 9), 76⟩]) := by decide
  obtain ⟨miPos, before, mi, after, hfind, hspans, hstart, -, hbefore⟩ :=
    (hall (fun _ _ => List.replicate 20 9) .ice hidingRequest _ _ hread).2 [] (by decide)
  have h52 : findMessageIntegrity hidingRequest hidingRequest.length 20 = some (some 52) := by
    decide
  rw [h52] at hfind
  cases hfind
  -- the attribute at 28 is before the one that was verified
  have hmem : (⟨28, .byteString 0x0008 (List.replicate 20 5), 52⟩ : Parsed) ∈ before := by
    match before, hspans with
    | [], h | [_], h =>
      cases h
      cases hstart
    | _ :: _ :: _, h =>
      rw [List.cons_append, List.cons_append, List.cons.injEq, List.cons.injEq] at h
      rw [← h.2.1]
      exact List.mem_cons_of_mem _ (List.mem_cons_self ..)
  exact (hbefore _ hmem).1 rfl

end StunMessage

end Stun

end RtcCore.L1
