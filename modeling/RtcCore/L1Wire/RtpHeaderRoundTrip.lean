import RtcCore.L1Wire.RtpHeader

/-!
# The header written is the header read

`RTPSender::CreateRtpHeader` against `RTPHeaderLength` and
`RtpHeaderParser::Parse`.

Results:
- `buildBlocks_endless`: with one extension type under two ids the loop over
  the map never ends.
- `header_agreement_iff`: the header has the reserved length and reads back
  exactly when every type has one id, and the video rotation is written, is
  not registered, or is absorbed by the padding.
- `rotation_unmarked`: without the marker bit a registered rotation leaves the
  header short of the reserved length.
-/
namespace RtcCore.L1

open Bytes

/-! ## The map -/

namespace RtpHeaderExtensionMap

variable {m : RtpHeaderExtensionMap}

theorem getType_mem {id : UInt8} {type : RTPExtensionType} (h : (id, type) ∈ m.entries) :
    m.getType id = some type := by
  obtain ⟨a, c, he⟩ := List.append_of_mem h
  have hs := m.sorted
  rw [he] at hs
  have hne : ∀ e ∈ a, e.1 ≠ id := fun e hm hc => by
    have := (List.pairwise_append.1 hs).2.2 e hm _ (List.mem_cons_self ..)
    rw [hc] at this
    exact UInt8.lt_irrefl _ this
  rw [getType, he, List.find?_append, List.find?_eq_none.2 (fun e hm => by simpa using hne e hm)]
  simp

section Mid

variable {a c : List (UInt8 × RTPExtensionType)} {id : UInt8} {type : RTPExtensionType}

theorem getId_mid (he : m.entries = a ++ (id, type) :: c) (hn : ∀ e ∈ a, e.2 ≠ type) :
    m.getId type = some id := by
  rw [getId, he, List.find?_append, List.find?_eq_none.2 (fun e hm => by simpa using hn e hm)]
  simp

/-- From the first entry of a type the walk goes to the entry behind it. -/
theorem next_mid (he : m.entries = a ++ (id, type) :: c) (hn : ∀ e ∈ a, e.2 ≠ type) :
    m.next type = c.head?.map (·.2) := by
  have hs := m.sorted
  rw [he] at hs
  have hne : ∀ e ∈ a, decide (e.1 ≠ id) = true := fun e hm => by
    have := (List.pairwise_append.1 hs).2.2 e hm _ (List.mem_cons_self ..)
    exact decide_eq_true (UInt8.ne_of_lt this)
  rw [next, getId_mid he hn]
  simp only [he]
  rw [List.dropWhile_append_of_pos hne, List.dropWhile_cons, if_neg (by simp)]
  rfl

end Mid

end RtpHeaderExtensionMap

/-! ## What is written -/

namespace RTPSender

variable (s : RTPSender)

/-- The rotation goes into the last packet of a frame only. -/
def carries (markerBit : Bool) (type : RTPExtensionType) : Bool :=
  type != .videoRotation || markerBit

/-- The value of an extension. -/
def data : RTPExtensionType → Bytes
  | .transmissionTimeOffset => be24 s.transmissionTimeOffset.toUInt32.toNat
  | .audioLevel => [0x80]
  | .absoluteSendTime => be24 s.absoluteSendTime.toNat
  | .videoRotation => [convertVideoRotationToCVOByte s.rotation]
  | .transportSequenceNumber => be16 s.transportSequenceNumber.toNat

/-- The length nibble, one less than the octets of the value. -/
def nibble : RTPExtensionType → UInt8
  | .transmissionTimeOffset => 2
  | .audioLevel => 0
  | .absoluteSendTime => 2
  | .videoRotation => 0
  | .transportSequenceNumber => 1

/-- The element of an entry of the map. -/
def elementOf (e : UInt8 × RTPExtensionType) : Bytes :=
  ((e.1 <<< 4) + nibble e.2) :: s.data e.2

theorem data_length (type : RTPExtensionType) : (s.data type).length + 1 = type.length := by
  cases type <;> rfl

theorem nibble_toNat (type : RTPExtensionType) :
    (nibble type).toNat + 1 = (s.data type).length := by
  cases type <;> rfl

theorem elementOf_length (e : UInt8 × RTPExtensionType) :
    (s.elementOf e).length = e.2.length := by
  rw [elementOf, List.length_cons, data_length]

theorem buildBlock_eq {id : UInt8} {type : RTPExtensionType} (markerBit : Bool)
    (h : s.extensionMap.getId type = some id) :
    s.buildBlock markerBit type =
      if carries markerBit type then s.elementOf (id, type) else [] := by
  cases type <;> cases markerBit <;>
    simp [buildBlock, buildTransmissionTimeOffsetExtension, buildAudioLevelExtension,
      buildAbsoluteSendTimeExtension, buildVideoRotationExtension,
      buildTransportSequenceNumberExtension, element, h, carries, elementOf, nibble, data]

/-- The elements of the entries that are carried. -/
def blocksOf (markerBit : Bool) (l : List (UInt8 × RTPExtensionType)) : Bytes :=
  (l.filter (carries markerBit ·.2)).flatMap s.elementOf

theorem blocksOf_cons (markerBit : Bool) (e : UInt8 × RTPExtensionType)
    (l : List (UInt8 × RTPExtensionType)) :
    s.blocksOf markerBit (e :: l) =
      (if carries markerBit e.2 then s.elementOf e else []) ++ s.blocksOf markerBit l := by
  rw [blocksOf, List.filter_cons]
  split
  · rfl
  · rfl

/-- With one id for each type the loop goes through the map in order. -/
theorem buildBlocks_suffix (markerBit : Bool)
    (hnd : (s.extensionMap.entries.map (·.2)).Nodup) {c : List (UInt8 × RTPExtensionType)} :
    ∀ {a : List (UInt8 × RTPExtensionType)} {fuel : Nat}, s.extensionMap.entries = a ++ c →
      c.length ≤ fuel →
      s.buildBlocks markerBit fuel (c.head?.map (·.2)) = some (s.blocksOf markerBit c) := by
  induction c with
  | nil =>
    intro a fuel _ _
    unfold buildBlocks
    rfl
  | cons e c ih =>
    intro a fuel he hf
    obtain ⟨id, type⟩ := e
    cases fuel with
    | zero => cases hf
    | succ fuel =>
      have hn : ∀ e ∈ a, e.2 ≠ type := by
        intro e hm hc
        rw [he, List.map_append, List.map_cons] at hnd
        have := (List.nodup_append.1 hnd).2.2 e.2 (List.mem_map.2 ⟨e, hm, rfl⟩) type
          (List.mem_cons_self ..)
        exact this hc
      have he' : s.extensionMap.entries = (a ++ [(id, type)]) ++ c := by
        rw [he, List.append_assoc]
        rfl
      have hrest := ih he' (Nat.le_of_succ_le_succ hf)
      show s.buildBlocks markerBit (fuel + 1) (some type) = _
      rw [buildBlocks, RtpHeaderExtensionMap.next_mid he hn, hrest,
        s.buildBlock_eq markerBit (RtpHeaderExtensionMap.getId_mid he hn), blocksOf_cons]
      rfl

theorem dup_split {α : Type} [DecidableEq α] {l : List α} (h : ¬ l.Nodup) :
    ∃ pre x post, l = pre ++ x :: post ∧ x ∈ pre := by
  induction l with
  | nil => exact absurd .nil h
  | cons y l ih =>
    by_cases hy : y ∈ l
    · obtain ⟨p, q, rfl⟩ := List.append_of_mem hy
      exact ⟨y :: p, y, q, rfl, List.mem_cons_self ..⟩
    · obtain ⟨pre, x, post, rfl, hx⟩ := ih fun hc => h (List.nodup_cons.2 ⟨hy, hc⟩)
      exact ⟨y :: pre, x, post, rfl, List.mem_cons_of_mem _ hx⟩

theorem first_of_type {l : List (UInt8 × RTPExtensionType)} {type : RTPExtensionType}
    (h : type ∈ l.map (·.2)) : ∃ a e c, l = a ++ e :: c ∧ (∀ e ∈ a, e.2 ≠ type) ∧ e.2 = type := by
  obtain ⟨x, hx, hxt⟩ := List.mem_map.1 h
  have hsome : (l.find? (·.2 = type)).isSome := by
    rw [List.find?_isSome]
    exact ⟨x, hx, decide_eq_true hxt⟩
  obtain ⟨e, he⟩ := Option.isSome_iff_exists.1 hsome
  obtain ⟨het, a, c, hl, hn⟩ := List.find?_eq_some_iff_append.1 he
  exact ⟨a, e, c, hl, fun w hw => by simpa using hn w hw, of_decide_eq_true het⟩

/-- A type under two ids: the second one leads back behind the first. -/
theorem buildBlocks_endless (markerBit : Bool) {pre post : List (UInt8 × RTPExtensionType)}
    {x : UInt8 × RTPExtensionType} (he : s.extensionMap.entries = pre ++ x :: post)
    (hx : x.2 ∈ pre.map (·.2)) (fuel : Nat) :
    ∀ type ∈ pre.map (·.2), s.buildBlocks markerBit fuel (some type) = none := by
  induction fuel with
  | zero => exact fun _ _ => rfl
  | succ fuel ih =>
    intro type ht
    -- the first entry of the type is in `pre`, the one behind it in `pre` or `x`
    obtain ⟨a, e, c, hpre, hn, rfl⟩ := first_of_type ht
    obtain ⟨id, type⟩ := e
    have hmid : s.extensionMap.entries = a ++ (id, type) :: (c ++ x :: post) := by
      rw [he, hpre]
      simp
    rw [buildBlocks, RtpHeaderExtensionMap.next_mid hmid hn]
    cases c with
    | nil =>
      show (s.buildBlocks markerBit fuel (some x.2)).map _ = none
      rw [ih _ hx]
      rfl
    | cons y c =>
      show (s.buildBlocks markerBit fuel (some y.2)).map _ = none
      rw [ih y.2 (by rw [hpre]; simp)]
      rfl

end RTPSender

/-! ## What is read -/

namespace RtpHeaderParser

open RTPSender

variable {s : RTPSender}

theorem readBE_mid {pre a post : Bytes} {off n : Nat} (ho : pre.length = off)
    (hn : a.length = n) : readBE (pre ++ (a ++ post)) off n = some (beValue a) := by
  rw [readBE, readAt_mid ho hn]
  rfl

/-- What an element sets. -/
def mark (s : RTPSender) (h : RTPHeaderExtension) : RTPExtensionType → RTPHeaderExtension
  | .transmissionTimeOffset =>
    { h with transmissionTimeOffset := s.transmissionTimeOffset, hasTransmissionTimeOffset := true }
  | .audioLevel => { h with audioLevel := 0x80, hasAudioLevel := true }
  | .absoluteSendTime =>
    { h with absoluteSendTime := s.absoluteSendTime, hasAbsoluteSendTime := true }
  | .videoRotation =>
    { h with hasVideoRotation := true, videoRotation := convertVideoRotationToCVOByte s.rotation }
  | .transportSequenceNumber =>
    { h with
      transportSequenceNumber := s.transportSequenceNumber, hasTransportSequenceNumber := true }

/-- A 24-bit value is sign extended to what was written. -/
theorem signExtend24_toUInt32 {x : Int32} (h : -0x800000 < x.toInt ∧ x.toInt < 0x800000) :
    signExtend24 (x.toUInt32.toNat % 16777216) = x := by
  have hx : x.toInt = if 2 * x.toUInt32.toNat < 4294967296 then (x.toUInt32.toNat : Int)
      else x.toUInt32.toNat - 4294967296 := BitVec.toInt_eq_toNat_cond x.toBitVec
  have hlt := x.toUInt32.toNat_lt
  rw [← Int32.toInt_inj]
  unfold signExtend24
  split
  · rw [Int32.toInt_ofInt_of_le (by omega) (by omega)]
    omega
  · rw [Int32.toInt_ofInt_of_le (by omega) (by omega)]
    omega

theorem parseElement_data {pre post : Bytes} {ptr : Nat} (hp : pre.length = ptr)
    (h : RTPHeaderExtension) (type : RTPExtensionType) :
    parseElement (pre ++ (s.data type ++ post)) ptr (nibble type) h type =
      some (some (mark s h type)) := by
  have hread : readBE (pre ++ (s.data type ++ post)) ptr (s.data type).length =
      some (beValue (s.data type)) := readBE_mid hp rfl
  cases type with
  | transmissionTimeOffset =>
    rw [parseElement, if_neg (by decide), show readBE _ ptr 3 = _ from hread]
    simp only [data, beValue_be24, Option.map_some, signExtend24_toUInt32 s.offset_lt, mark]
  | audioLevel =>
    rw [parseElement, if_neg (by decide), show readBE _ ptr 1 = _ from hread]
    rfl
  | absoluteSendTime =>
    rw [parseElement, if_neg (by decide), show readBE _ ptr 3 = _ from hread]
    have hlt := s.sendTime_lt
    simp only [data, beValue_be24, Option.map_some, Nat.mod_eq_of_lt hlt, UInt32.ofNat_toNat, mark]
  | videoRotation =>
    rw [parseElement, if_neg (by decide), show readBE _ ptr 1 = _ from hread]
    simp only [data]
    cases hr : s.rotation <;> simp [hr, mark, beValue, convertVideoRotationToCVOByte]
  | transportSequenceNumber =>
    rw [parseElement, if_neg (by decide), show readBE _ ptr 2 = _ from hread]
    have hlt := s.transportSequenceNumber.toNat_lt
    simp only [data, beValue_be16, Option.map_some, Nat.mod_eq_of_lt hlt, UInt16.ofNat_toNat, mark]

/-- The element's first octet: the id, the length, and never padding. -/
theorem first_octet : ∀ (id : Fin 15) (type : RTPExtensionType), id.val ≠ 0 →
    let x := (UInt8.ofNat id.val <<< 4) + nibble type
    (x &&& 0xf0) >>> 4 = UInt8.ofNat id.val ∧ x &&& 0x0f = nibble type ∧ x ≠ 0 ∧
      UInt8.ofNat id.val ≠ 15 := by
  intro id type
  cases type <;> revert id <;> decide

theorem first_octet_of {id : UInt8} (type : RTPExtensionType) (h : 1 ≤ id ∧ id ≤ 14) :
    ((id <<< 4) + nibble type &&& 0xf0) >>> 4 = id ∧ (id <<< 4) + nibble type &&& 0x0f = nibble type ∧
      (id <<< 4) + nibble type ≠ 0 ∧ id ≠ 15 := by
  obtain ⟨h1, h2⟩ := h
  rw [UInt8.le_iff_toNat_le] at h1 h2
  have := first_octet ⟨id.toNat, Nat.lt_succ_of_le h2⟩ type (by
    intro hc
    simp only at hc
    rw [hc] at h1
    cases h1)
  simpa using this

/-- Zeros up to the end are skipped. -/
theorem parsePaddingBytes_zeros {pre post : Bytes} {k ptr : Nat} (hp : pre.length = ptr)
    (n : UInt8) :
    parsePaddingBytes (pre ++ (List.replicate k 0 ++ post)) k ptr n = some (n + .ofNat k) := by
  induction k generalizing pre ptr n with
  | zero =>
    rw [parsePaddingBytes]
    simp
  | succ k ih =>
    have hget : (pre ++ (List.replicate (k + 1) 0 ++ post))[ptr]? = some 0 := by
      rw [← hp, List.getElem?_append_right (Nat.le_refl _), Nat.sub_self]
      rfl
    have hp' : (pre ++ [0]).length = ptr + 1 := by simp [hp]
    have := ih hp' (n + 1)
    rw [parsePaddingBytes, hget]
    simp only [ne_eq, not_true_eq_false, if_false]
    rw [show pre ++ (List.replicate (k + 1) 0 ++ post) = pre ++ [0] ++ (List.replicate k 0 ++ post) by
      simp [List.replicate_succ], this, UInt8.ofNat_add]
    congr 1
    rw [UInt8.add_assoc, UInt8.add_comm 1]
    rfl

/-- The next element is not padding. -/
theorem parsePaddingBytes_octet {pre post : Bytes} {left ptr : Nat} {x : UInt8}
    (hp : pre.length = ptr) (hx : x ≠ 0) :
    parsePaddingBytes (pre ++ (x :: post)) (left + 1) ptr 0 = some 0 := by
  have hget : (pre ++ (x :: post))[ptr]? = some x := by
    rw [← hp, List.getElem?_append_right (Nat.le_refl _), Nat.sub_self]
    rfl
  rw [parsePaddingBytes, hget]
  simp [hx]

/-! ### Elements with any values -/

/-- The values in `data` have the sizes of their types, and `keep` is what reading one sets. -/
structure Reads (data : RTPExtensionType → Bytes)
    (keep : RTPHeaderExtension → RTPExtensionType → RTPHeaderExtension) : Prop where
  length : ∀ type, (nibble type).toNat + 1 = (data type).length
  parse : ∀ {pre post : Bytes} {ptr : Nat}, pre.length = ptr →
    ∀ (h : RTPHeaderExtension) (type : RTPExtensionType),
      parseElement (pre ++ (data type ++ post)) ptr (nibble type) h type =
        some (some (keep h type))

/-- What the sender writes is read by `mark`. -/
theorem reads_data (s : RTPSender) : Reads s.data (mark s) :=
  ⟨s.nibble_toNat, fun hp h type => parseElement_data hp h type⟩

def elementWith (data : RTPExtensionType → Bytes) (e : UInt8 × RTPExtensionType) : Bytes :=
  ((e.1 <<< 4) + nibble e.2) :: data e.2

section With

variable {data : RTPExtensionType → Bytes}
  {keep : RTPHeaderExtension → RTPExtensionType → RTPHeaderExtension}

/-- One pass of the walk over an element that the map knows. -/
theorem parseOneByte_element (hr : Reads data keep) {m : RtpHeaderExtensionMap} {pre rest : Bytes}
    {ptr extensionEnd : Nat} {e : UInt8 × RTPExtensionType} (hp : pre.length = ptr)
    (he : e ∈ m.entries) (hend : ptr + (elementWith data e).length ≤ extensionEnd) (fuel : Nat)
    (h : RTPHeaderExtension) :
    parseOneByteExtensionHeader (pre ++ (elementWith data e ++ rest)) m extensionEnd (fuel + 1) ptr
        h =
      match parsePaddingBytes (pre ++ (elementWith data e ++ rest))
          (extensionEnd - (ptr + (elementWith data e).length)) (ptr + (elementWith data e).length)
          0 with
      | none => none
      | some numBytes => parseOneByteExtensionHeader (pre ++ (elementWith data e ++ rest)) m
          extensionEnd fuel (ptr + (elementWith data e).length + numBytes.toNat) (keep h e.2) := by
  obtain ⟨id, type⟩ := e
  obtain ⟨h1, h2, h3, h4⟩ := first_octet_of type (m.ids _ he)
  have hget : (pre ++ (elementWith data (id, type) ++ rest))[ptr]? =
      some ((id <<< 4) + nibble type) := by
    rw [← hp, List.getElem?_append_right (Nat.le_refl _), Nat.sub_self]
    rfl
  have hlen : (elementWith data (id, type)).length = 1 + ((nibble type).toNat + 1) := by
    rw [hr.length, elementWith, List.length_cons, Nat.add_comm]
  have hp' : (pre ++ [(id <<< 4) + nibble type]).length = ptr + 1 := by simp [hp]
  have hdata : parseElement (pre ++ [(id <<< 4) + nibble type] ++ (data type ++ rest)) (ptr + 1)
      (nibble type) h type = some (some (keep h type)) := hr.parse hp' h type
  rw [List.append_assoc] at hdata
  have hwidth : ptr + 1 + ((nibble type).toNat + 1) =
      ptr + (elementWith data (id, type)).length := by omega
  have hone : parseOneByteExtensionHeader (pre ++ (elementWith data (id, type) ++ rest)) m
      extensionEnd (fuel + 1) ptr h = _ := parseOneByteExtensionHeader.eq_def ..
  dsimp only at hone
  rw [if_neg (by omega), hget] at hone
  simp only [h1, h2, h4, if_false, RtpHeaderExtensionMap.getType_mem he, hwidth] at hone
  rw [show parseElement (pre ++ (elementWith data (id, type) ++ rest)) (ptr + 1) (nibble type) h
    type = some (some (keep h type)) from hdata] at hone
  exact hone

/-- The walk over the elements and the padding behind them. -/
theorem parseOneByte_blocks (hr : Reads data keep) {m : RtpHeaderExtensionMap} {k : Nat}
    (hk : k < 256) {post : Bytes} {l : List (UInt8 × RTPExtensionType)} (hne : l ≠ [])
    (hl : ∀ e ∈ l, e ∈ m.entries) :
    ∀ {pre : Bytes} {ptr extensionEnd fuel : Nat} {h : RTPHeaderExtension}, pre.length = ptr →
      extensionEnd = ptr + (l.flatMap (elementWith data)).length + k → l.length < fuel →
      parseOneByteExtensionHeader
        (pre ++ (l.flatMap (elementWith data) ++ (List.replicate k 0 ++ post))) m
        extensionEnd fuel ptr h = some (l.foldl (fun h e => keep h e.2) h) := by
  induction l with
  | nil => exact absurd rfl hne
  | cons e l ih =>
    intro pre ptr extensionEnd fuel h hp hend hf
    obtain ⟨fuel, rfl⟩ : ∃ n, fuel = n + 1 := ⟨fuel - 1, by omega⟩
    rw [List.flatMap_cons, List.length_append] at hend
    rw [List.flatMap_cons, List.append_assoc,
      parseOneByte_element hr hp (hl e (List.mem_cons_self ..)) (by omega)]
    have hp' : (pre ++ elementWith data e).length = ptr + (elementWith data e).length := by
      rw [List.length_append, hp]
    rw [← List.append_assoc]
    cases l with
    | nil =>
      rw [List.flatMap_nil, List.length_nil] at hend
      rw [List.flatMap_nil, List.nil_append,
        show extensionEnd - (ptr + (elementWith data e).length) = k by omega,
        parsePaddingBytes_zeros hp']
      have hkn : (0 + UInt8.ofNat k).toNat = k := by
        rw [UInt8.zero_add, UInt8.toNat_ofNat', Nat.mod_eq_of_lt hk]
      obtain ⟨fuel, rfl⟩ : ∃ n, fuel = n + 1 := ⟨fuel - 1, by simp at hf; omega⟩
      dsimp only
      rw [parseOneByteExtensionHeader, if_pos (by omega)]
      rfl
    | cons e' l =>
      have hmem : e' ∈ m.entries := hl e' (List.mem_cons_of_mem _ (List.mem_cons_self ..))
      obtain ⟨-, -, hx, -⟩ := first_octet_of e'.2 (m.ids _ hmem)
      have hrest : (e' :: l).flatMap (elementWith data) ++ (List.replicate k (0 : UInt8) ++ post) =
          ((e'.1 <<< 4) + nibble e'.2) :: (data e'.2 ++ (l.flatMap (elementWith data) ++
            (List.replicate k (0 : UInt8) ++ post))) := by
        rw [List.flatMap_cons, elementWith]
        simp
      have hleft : ∃ left, extensionEnd - (ptr + (elementWith data e).length) = left + 1 := by
        refine ⟨extensionEnd - (ptr + (elementWith data e).length) - 1, ?_⟩
        rw [List.flatMap_cons, List.length_append, elementWith, elementWith, List.length_cons,
          List.length_cons] at hend
        rw [elementWith, List.length_cons]
        omega
      obtain ⟨left, hleft⟩ := hleft
      rw [hleft, hrest, parsePaddingBytes_octet hp' hx, ← hrest]
      dsimp only
      rw [UInt8.toNat_zero, Nat.add_zero]
      refine ih (List.cons_ne_nil _ _) (fun x hx => hl x (List.mem_cons_of_mem _ hx)) hp' ?_ ?_
      · omega
      · simp only [List.length_cons] at hf ⊢
        omega

end With

theorem readCsrcs_written {pre post : Bytes} {csrcs : List UInt32} {ptr : Nat}
    (hp : pre.length = ptr) :
    readCsrcs (pre ++ (csrcs.flatMap (be32 ·.toNat) ++ post)) csrcs.length ptr = some csrcs := by
  induction csrcs generalizing pre ptr with
  | nil => rfl
  | cons c l ih =>
    have hlt := c.toNat_lt
    have hp' : (pre ++ be32 c.toNat).length = ptr + 4 := by
      rw [List.length_append, hp]
      rfl
    have := ih hp'
    rw [List.append_assoc] at this
    rw [List.length_cons, List.flatMap_cons, List.append_assoc, readCsrcs,
      readBE_mid (a := be32 c.toNat) (n := 4) hp rfl, this]
    simp only [beValue_be32, Option.bind_eq_bind, Option.bind_some, Nat.mod_eq_of_lt hlt,
      UInt32.ofNat_toNat]

end RtpHeaderParser

/-! ## The extension block -/

namespace RTPSender

variable (s : RTPSender)

open RtpHeaderParser (mark elementWith)

/-- The values the header carries. -/
def extensionValues (markerBit : Bool) : RTPHeaderExtension :=
  let has (type : RTPExtensionType) := s.extensionMap.isRegistered type && carries markerBit type
  { hasTransmissionTimeOffset := has .transmissionTimeOffset
    transmissionTimeOffset := if has .transmissionTimeOffset then s.transmissionTimeOffset else 0
    hasAbsoluteSendTime := has .absoluteSendTime
    absoluteSendTime := if has .absoluteSendTime then s.absoluteSendTime else 0
    hasTransportSequenceNumber := has .transportSequenceNumber
    transportSequenceNumber := if has .transportSequenceNumber then s.transportSequenceNumber else 0
    hasAudioLevel := has .audioLevel
    audioLevel := if has .audioLevel then 0x80 else 0
    hasVideoRotation := has .videoRotation
    videoRotation := if has .videoRotation then convertVideoRotationToCVOByte s.rotation else 0 }

theorem foldl_mark (l : List (UInt8 × RTPExtensionType)) (h : RTPHeaderExtension) :
    l.foldl (fun h e => mark s h e.2) h =
      let has (type : RTPExtensionType) := l.any (·.2 = type)
      { hasTransmissionTimeOffset :=
          h.hasTransmissionTimeOffset || has .transmissionTimeOffset
        transmissionTimeOffset :=
          if has .transmissionTimeOffset then s.transmissionTimeOffset else h.transmissionTimeOffset
        hasAbsoluteSendTime := h.hasAbsoluteSendTime || has .absoluteSendTime
        absoluteSendTime := if has .absoluteSendTime then s.absoluteSendTime else h.absoluteSendTime
        hasTransportSequenceNumber :=
          h.hasTransportSequenceNumber || has .transportSequenceNumber
        transportSequenceNumber :=
          if has .transportSequenceNumber then s.transportSequenceNumber
          else h.transportSequenceNumber
        hasAudioLevel := h.hasAudioLevel || has .audioLevel
        audioLevel := if has .audioLevel then 0x80 else h.audioLevel
        hasVideoRotation := h.hasVideoRotation || has .videoRotation
        videoRotation :=
          if has .videoRotation then convertVideoRotationToCVOByte s.rotation
          else h.videoRotation } := by
  induction l generalizing h with
  | nil => simp
  | cons e l ih =>
    rw [List.foldl_cons, ih]
    obtain ⟨id, type⟩ := e
    simp only [List.any_cons]
    cases type <;> simp only [mark, reduceCtorEq, decide_true, decide_false, Bool.true_or,
      Bool.false_or, Bool.or_true, if_true, ite_self]

theorem any_carried (markerBit : Bool) (type : RTPExtensionType) :
    (s.extensionMap.entries.filter (carries markerBit ·.2)).any (·.2 = type) =
      (s.extensionMap.isRegistered type && carries markerBit type) := by
  rw [RtpHeaderExtensionMap.isRegistered, Bool.eq_iff_iff]
  simp only [List.any_eq_true, List.mem_filter, Bool.and_eq_true, decide_eq_true_eq]
  constructor
  · rintro ⟨e, ⟨he, hc⟩, rfl⟩
    exact ⟨⟨e, he, rfl⟩, hc⟩
  · rintro ⟨⟨e, he, rfl⟩, hc⟩
    exact ⟨e, ⟨he, hc⟩, rfl⟩

theorem foldl_mark_carried (markerBit : Bool) :
    (s.extensionMap.entries.filter (carries markerBit ·.2)).foldl (fun h e => mark s h e.2) {} =
      s.extensionValues markerBit := by
  rw [foldl_mark]
  simp only [any_carried, Bool.false_or, extensionValues]

/-- Octets of the elements that are carried. -/
def carriedLength (markerBit : Bool) : Nat :=
  ((s.extensionMap.entries.filter (carries markerBit ·.2)).map (·.2.length)).sum

theorem blocksOf_length (markerBit : Bool) (l : List (UInt8 × RTPExtensionType)) :
    (s.blocksOf markerBit l).length =
      ((l.filter (carries markerBit ·.2)).map (·.2.length)).sum := by
  rw [blocksOf, List.length_flatMap]
  congr 1
  exact List.map_congr_left fun e _ => s.elementOf_length e

theorem length_le_sum (l : List (UInt8 × RTPExtensionType)) :
    l.length ≤ (l.map (·.2.length)).sum ∧ (l.map (·.2.length)).sum ≤ 4 * l.length := by
  induction l with
  | nil => exact ⟨Nat.le_refl _, Nat.le_refl _⟩
  | cons e l ih =>
    have he : 1 ≤ e.2.length ∧ e.2.length ≤ 4 := by
      cases e.2 <;> decide
    simp only [List.length_cons, List.map_cons, List.sum_cons]
    omega

theorem sorted_length {l : List (UInt8 × RTPExtensionType)} :
    ∀ {k : Nat}, l.Pairwise (fun a b => a.1 < b.1) →
      (∀ e ∈ l, k ≤ e.1.toNat ∧ e.1.toNat ≤ 14) → l.length ≤ 15 - k := by
  induction l with
  | nil => exact fun _ _ => Nat.zero_le _
  | cons e l ih =>
    intro k hs hk
    obtain ⟨hlt, hs⟩ := List.pairwise_cons.1 hs
    have he := hk e (List.mem_cons_self ..)
    have := ih (k := e.1.toNat + 1) hs fun x hx =>
      ⟨UInt8.lt_iff_toNat_lt.1 (hlt x hx), (hk x (List.mem_cons_of_mem _ hx)).2⟩
    rw [List.length_cons]
    omega

/-- At most fourteen elements of at most four octets. -/
theorem carriedLength_le (markerBit : Bool) : s.carriedLength markerBit ≤ 56 := by
  have hall : s.extensionMap.entries.length ≤ 15 - 1 :=
    sorted_length s.extensionMap.sorted fun e he => by
      obtain ⟨h1, h2⟩ := s.extensionMap.ids e he
      exact ⟨UInt8.le_iff_toNat_le.1 h1, UInt8.le_iff_toNat_le.1 h2⟩
  have hfilter := List.length_filter_le (carries markerBit ·.2) s.extensionMap.entries
  have := (length_le_sum (s.extensionMap.entries.filter (carries markerBit ·.2))).2
  rw [carriedLength]
  omega

/-- What `BuildRTPHeaderExtension` writes. -/
def extensionBlock (markerBit : Bool) : Bytes :=
  let blocks := s.blocksOf markerBit s.extensionMap.entries
  if blocks.length = 0 then []
  else
    let body := blocks ++ List.replicate (word32Align blocks.length - blocks.length) 0
    be16 0xBEDE ++ be16 (body.length / 4) ++ body

/-- The extension block with other values in its elements. -/
def blockWith (data : RTPExtensionType → Bytes) (markerBit : Bool) : Bytes :=
  let blocks := (s.extensionMap.entries.filter (carries markerBit ·.2)).flatMap (elementWith data)
  if blocks.length = 0 then []
  else
    let body := blocks ++ List.replicate (word32Align blocks.length - blocks.length) 0
    be16 0xBEDE ++ be16 (body.length / 4) ++ body

theorem blockWith_data (markerBit : Bool) :
    s.blockWith s.data markerBit = s.extensionBlock markerBit := rfl

theorem buildBlocks_mono {markerBit : Bool} {fuel : Nat} {t : Option RTPExtensionType} {b : Bytes}
    (h : s.buildBlocks markerBit fuel t = some b) (k : Nat) :
    s.buildBlocks markerBit (fuel + k) t = some b := by
  induction fuel generalizing t b with
  | zero =>
    cases t with
    | none => rw [← h, buildBlocks, buildBlocks]
    | some t => cases h
  | succ fuel ih =>
    cases t with
    | none => rw [← h, buildBlocks, buildBlocks]
    | some t =>
      rw [buildBlocks] at h
      obtain ⟨b', hb, rfl⟩ := Option.map_eq_some_iff.1 h
      rw [Nat.succ_add, buildBlocks, ih hb]
      rfl

/-- The loop ends exactly when every type has one id, with one result. -/
theorem buildRTPHeaderExtension_iff (markerBit : Bool) (ext : Bytes) :
    (∃ fuel, s.buildRTPHeaderExtension fuel markerBit = some ext) ↔
      (s.extensionMap.entries.map (·.2)).Nodup ∧ ext = s.extensionBlock markerBit := by
  by_cases hempty : s.extensionMap.entries = []
  · simp [buildRTPHeaderExtension, extensionBlock, hempty, blocksOf, eq_comm]
  have hpos : ¬ s.extensionMap.entries.length ≤ 0 := by
    rw [Nat.le_zero, List.length_eq_zero_iff]
    exact hempty
  have hform : ∀ fuel, s.buildRTPHeaderExtension fuel markerBit =
      (s.buildBlocks markerBit fuel s.extensionMap.first).map fun blocks =>
        if blocks.length = 0 then []
        else
          let body := blocks ++ List.replicate (word32Align blocks.length - blocks.length) 0
          be16 0xBEDE ++ be16 (body.length / 4) ++ body := fun fuel => if_neg hpos
  constructor
  · rintro ⟨fuel, h⟩
    rw [hform] at h
    obtain ⟨blocks, hb, rfl⟩ := Option.map_eq_some_iff.1 h
    have hnd : (s.extensionMap.entries.map (·.2)).Nodup := by
      refine Decidable.byContradiction fun hc => ?_
      obtain ⟨pre, x, post, hsplit, hx⟩ := dup_split hc
      obtain ⟨p, q, he, rfl, hq⟩ := List.map_eq_append_iff.1 hsplit
      obtain ⟨e, q, rfl, rfl, rfl⟩ := List.map_eq_cons_iff.1 hq
      obtain ⟨y, p, rfl⟩ := List.exists_cons_of_ne_nil (l := p) (by rintro rfl; cases hx)
      have := s.buildBlocks_endless markerBit he hx fuel y.2 (List.mem_cons_self ..)
      rw [RtpHeaderExtensionMap.first, he] at hb
      exact absurd (this.symm.trans hb) (by simp)
    refine ⟨hnd, ?_⟩
    have hfull := s.buildBlocks_suffix (a := []) (c := s.extensionMap.entries) markerBit hnd rfl
      (Nat.le_refl _)
    have h1 := s.buildBlocks_mono hb s.extensionMap.entries.length
    have h2 := s.buildBlocks_mono hfull fuel
    rw [Nat.add_comm] at h2
    obtain rfl := Option.some.inj (h1.symm.trans h2)
    rfl
  · rintro ⟨hnd, rfl⟩
    refine ⟨s.extensionMap.entries.length, ?_⟩
    have hfull := s.buildBlocks_suffix (a := []) (c := s.extensionMap.entries) markerBit hnd rfl
      (Nat.le_refl _)
    rw [hform, show s.buildBlocks markerBit s.extensionMap.entries.length s.extensionMap.first = _
      from hfull]
    rfl

end RTPSender

/-! ## The whole header -/

namespace RtpHeaderParser

open RTPSender

variable {s : RTPSender}

section With

variable {data : RTPExtensionType → Bytes}
  {keep : RTPHeaderExtension → RTPExtensionType → RTPHeaderExtension}

theorem elementWith_length (hr : Reads data keep) (e : UInt8 × RTPExtensionType) :
    (elementWith data e).length = e.2.length := by
  rw [elementWith, List.length_cons, ← hr.length]
  cases e.2 <;> rfl

theorem elements_length (hr : Reads data keep) (l : List (UInt8 × RTPExtensionType)) :
    (l.flatMap (elementWith data)).length = (l.map (·.2.length)).sum := by
  rw [List.length_flatMap]
  congr 1
  exact List.map_congr_left fun e _ => elementWith_length hr e

/-- The block behind its two words. -/
theorem blockWith_eq (hr : Reads data keep) {markerBit : Bool}
    (hpos : s.carriedLength markerBit ≠ 0) {k : Nat}
    (hk : k = word32Align (s.carriedLength markerBit) - s.carriedLength markerBit) :
    s.blockWith data markerBit = be16 0xBEDE ++ (be16 ((s.carriedLength markerBit + k) / 4) ++
      ((s.extensionMap.entries.filter (carries markerBit ·.2)).flatMap (elementWith data) ++
        List.replicate k 0)) := by
  have hlen := elements_length hr (s.extensionMap.entries.filter (carries markerBit ·.2))
  have hlen : _ = s.carriedLength markerBit := hlen
  rw [blockWith, hlen, if_neg hpos, ← hk]
  simp only [List.length_append, List.length_replicate, hlen, List.append_assoc]

/-- The extension block behind `pre`. -/
theorem parseExtension_block (hr : Reads data keep) {markerBit : Bool}
    (hpos : s.carriedLength markerBit ≠ 0) {pre payload : Bytes} {ptr : Nat}
    (hp : pre.length = ptr) {header : RTPHeader} (hh : header.extension = {}) :
    parseExtension (pre ++ (s.blockWith data markerBit ++ payload)) (some s.extensionMap) ptr
        header =
      some (true, { header with
        extension := (s.extensionMap.entries.filter (carries markerBit ·.2)).foldl
          (fun h e => keep h e.2) {}
        headerLength := header.headerLength + (s.blockWith data markerBit).length }) := by
  have hle := s.carriedLength_le markerBit
  obtain ⟨k, hk⟩ : ∃ k, k = word32Align (s.carriedLength markerBit) - s.carriedLength markerBit :=
    ⟨_, rfl⟩
  have hk4 : k < 4 ∧ (s.carriedLength markerBit + k) % 4 = 0 := by
    rw [hk, word32Align]
    split <;> omega
  have hblock := blockWith_eq (s := s) hr hpos hk
  have hbl : ((s.extensionMap.entries.filter (carries markerBit ·.2)).flatMap
      (elementWith data)).length = s.carriedLength markerBit := elements_length hr _
  have htotal : (s.blockWith data markerBit).length = 4 + (s.carriedLength markerBit + k) := by
    rw [hblock]
    simp only [List.length_append, be16_length, List.length_replicate, hbl]
    omega
  have h1 : readBE (pre ++ (s.blockWith data markerBit ++ payload)) ptr 2 = some 0xBEDE := by
    rw [hblock, List.append_assoc, readBE_mid (a := be16 0xBEDE) (n := 2) hp rfl, beValue_be16]
  have h2 : readBE (pre ++ (s.blockWith data markerBit ++ payload)) (ptr + 2) 2 =
      some ((s.carriedLength markerBit + k) / 4) := by
    have hp2 : (pre ++ be16 0xBEDE).length = ptr + 2 := by
      rw [List.length_append, hp]
      rfl
    rw [hblock, List.append_assoc, List.append_assoc, ← List.append_assoc pre,
      readBE_mid (a := be16 _) (n := 2) hp2 rfl, beValue_be16, Nat.mod_eq_of_lt (by omega)]
  have hl : s.extensionMap.entries.filter (carries markerBit ·.2) ≠ [] := fun hc => hpos (by
    rw [carriedLength, hc]
    rfl)
  have hbytes : pre ++ (s.blockWith data markerBit ++ payload) =
      pre ++ (be16 0xBEDE ++ be16 ((s.carriedLength markerBit + k) / 4)) ++
        ((s.extensionMap.entries.filter (carries markerBit ·.2)).flatMap (elementWith data) ++
          (List.replicate k (0 : UInt8) ++ payload)) := by
    rw [hblock]
    simp only [List.append_assoc]
  have h3 : parseOneByteExtensionHeader (pre ++ (s.blockWith data markerBit ++ payload))
      s.extensionMap (ptr + 4 + (s.carriedLength markerBit + k))
      (s.carriedLength markerBit + k + 1) (ptr + 4) {} =
        some ((s.extensionMap.entries.filter (carries markerBit ·.2)).foldl
          (fun h e => keep h e.2) {}) := by
    have hlt := (length_le_sum (s.extensionMap.entries.filter (carries markerBit ·.2))).1
    rw [hbytes]
    refine parseOneByte_blocks hr (by omega) hl (fun e he => (List.mem_filter.1 he).1) ?_ ?_ ?_
    · rw [List.length_append, hp]
      rfl
    · rw [hbl]
      omega
    · rw [carriedLength]
      omega
  have hremain : (pre ++ (s.blockWith data markerBit ++ payload)).length - ptr =
      4 + (s.carriedLength markerBit + k) + payload.length := by
    simp only [List.length_append, htotal]
    omega
  have hx : 4 * ((s.carriedLength markerBit + k) / 4) = s.carriedLength markerBit + k := by omega
  rw [parseExtension]
  simp only [hremain, h1, h2, hx, Option.bind_eq_bind, Option.bind_some]
  rw [if_neg (by omega), if_neg (by omega)]
  simp only [if_true, hh]
  rw [h3]
  simp only [Option.bind_some, htotal, Nat.add_assoc]

end With

theorem byte0_facts : ∀ (n : Fin 16) (ext : Bool),
    let byte0 : UInt8 := if n.val > 0 then (0x80 &&& 0xf0) ||| .ofNat n.val else 0x80
    let byte0 := if ext then byte0 ||| 0x10 else byte0
    byte0 >>> 6 = 2 ∧ byte0 &&& 0x0f = .ofNat n.val ∧ byte0 &&& 0x20 = 0 ∧
      (byte0 &&& 0x10 = 0 ↔ ext = false) := by
  decide

theorem byte1_facts : ∀ (p : Fin 128) (marker : Bool),
    let byte1 : UInt8 := if marker then .ofNat p.val ||| 0x80 else .ofNat p.val
    (byte1 &&& 0x80 != 0) = marker ∧ byte1 &&& 0x7f = .ofNat p.val := by
  decide

theorem csrcs_length (csrcs : List UInt32) :
    (csrcs.flatMap (be32 ·.toNat)).length = 4 * csrcs.length := by
  induction csrcs with
  | nil => rfl
  | cons c l ih =>
    rw [List.flatMap_cons, List.length_append, ih, List.length_cons]
    show 4 + _ = _
    omega

/-- The fixed header and the CSRCs. -/
theorem parse_fixed {byte0 byte1 : UInt8} (sequenceNumber : UInt16) (timestamp ssrc : UInt32)
    {csrcs : List UInt32} (hn : csrcs.length ≤ 15) (hv : byte0 >>> 6 = 2)
    (hcc : byte0 &&& 0x0f = .ofNat csrcs.length) (hp : byte0 &&& 0x20 = 0)
    (m : Option RtpHeaderExtensionMap) (rest : Bytes) :
    let b := [byte0, byte1] ++ (be16 sequenceNumber.toNat ++ (be32 timestamp.toNat ++
      (be32 ssrc.toNat ++ (csrcs.flatMap (be32 ·.toNat) ++ rest))))
    let header : RTPHeader :=
      { markerBit := byte1 &&& 0x80 != 0
        payloadType := byte1 &&& 0x7f
        sequenceNumber := sequenceNumber
        timestamp := timestamp
        ssrc := ssrc
        numCSRCs := .ofNat csrcs.length
        arrOfCSRCs := csrcs ++ List.replicate (15 - csrcs.length) 0
        headerLength := 12 + 4 * csrcs.length }
    parse b m {} = if byte0 &&& 0x10 = 0 then some (true, header)
      else parseExtension b m (12 + 4 * csrcs.length) header := by
  intro b header
  have hbl : b.length = 12 + 4 * csrcs.length + rest.length := by
    simp only [b, List.length_append, csrcs_length]
    show 2 + (2 + (4 + (4 + _))) = _
    omega
  have hget0 : (b[0]? : Option UInt8) = some byte0 := rfl
  have hget1 : (b[1]? : Option UInt8) = some byte1 := rfl
  have hseq : readBE b 2 2 = some sequenceNumber.toNat := by
    have : readBE b 2 2 = some (beValue (be16 sequenceNumber.toNat)) := readBE_mid rfl rfl
    rw [this, beValue_be16, Nat.mod_eq_of_lt sequenceNumber.toNat_lt]
  have hts : readBE b 4 4 = some timestamp.toNat := by
    have : readBE ([byte0, byte1] ++ be16 sequenceNumber.toNat ++ (be32 timestamp.toNat ++
      (be32 ssrc.toNat ++ (csrcs.flatMap (be32 ·.toNat) ++ rest)))) 4 4 =
        some (beValue (be32 timestamp.toNat)) := readBE_mid rfl rfl
    rw [List.append_assoc] at this
    rw [this, beValue_be32, Nat.mod_eq_of_lt timestamp.toNat_lt]
  have hssrc : readBE b 8 4 = some ssrc.toNat := by
    have : readBE ([byte0, byte1] ++ (be16 sequenceNumber.toNat ++ be32 timestamp.toNat) ++
      (be32 ssrc.toNat ++ (csrcs.flatMap (be32 ·.toNat) ++ rest))) 8 4 =
        some (beValue (be32 ssrc.toNat)) := readBE_mid rfl rfl
    simp only [List.append_assoc] at this
    rw [this, beValue_be32, Nat.mod_eq_of_lt ssrc.toNat_lt]
  have hcsrcs : readCsrcs b csrcs.length 12 = some csrcs := by
    have : readCsrcs ([byte0, byte1] ++ (be16 sequenceNumber.toNat ++ (be32 timestamp.toNat ++
      be32 ssrc.toNat)) ++ (csrcs.flatMap (be32 ·.toNat) ++ rest)) csrcs.length 12 = some csrcs :=
        readCsrcs_written rfl
    simp only [List.append_assoc] at this
    exact this
  have hofn : (UInt8.ofNat csrcs.length).toNat = csrcs.length := by
    rw [UInt8.toNat_ofNat', Nat.mod_eq_of_lt (by omega)]
  have hdrop : List.drop csrcs.length (List.replicate 15 (0 : UInt32)) =
      List.replicate (15 - csrcs.length) 0 := List.drop_replicate
  unfold parse
  rw [if_neg (by omega)]
  simp only [hget0, hget1, hseq, hts, hssrc, hv, hp, hcc, hcsrcs, hofn, hdrop,
    Option.bind_eq_bind, Option.bind_some, ne_eq, not_true_eq_false, if_false, if_true,
    UInt16.ofNat_toNat, UInt32.ofNat_toNat]
  rw [if_neg (by omega)]

end RtpHeaderParser

namespace RTPSender

open RtpHeaderParser

variable (s : RTPSender)

/-- The header as the receiver gets it, `length` octets long. -/
def parsedHeader (payloadType : Int8) (ssrc : UInt32) (markerBit : Bool) (timestamp : UInt32)
    (sequenceNumber : UInt16) (length : Nat) : RTPHeader where
  markerBit := markerBit
  payloadType := payloadType.toUInt8
  sequenceNumber := sequenceNumber
  timestamp := timestamp
  ssrc := ssrc
  numCSRCs := .ofNat s.csrcs.length
  arrOfCSRCs := s.csrcs ++ List.replicate (15 - s.csrcs.length) 0
  headerLength := length
  extension := s.extensionValues markerBit

theorem toUInt8_lt {p : Int8} (h : 0 ≤ p) : p.toUInt8.toNat < 128 := by
  have hp : p.toInt = if 2 * p.toUInt8.toNat < 256 then (p.toUInt8.toNat : Int)
      else p.toUInt8.toNat - 256 := BitVec.toInt_eq_toNat_cond p.toBitVec
  have h0 : (0 : Int8).toInt ≤ p.toInt := Int8.le_iff_toInt_le.1 h
  have hz : (0 : Int8).toInt = 0 := rfl
  have hlt := p.toUInt8.toNat_lt
  omega

/-- The second octet. -/
def byte1 (payloadType : Int8) (markerBit : Bool) : UInt8 :=
  if markerBit then payloadType.toUInt8 ||| 0x80 else payloadType.toUInt8

section With

variable {data : RTPExtensionType → Bytes}
  {keep : RTPHeaderExtension → RTPExtensionType → RTPHeaderExtension}

/-- The header with other values in its elements. -/
def headerWith (data : RTPExtensionType → Bytes) (payloadType : Int8) (ssrc : UInt32)
    (markerBit : Bool) (timestamp : UInt32) (sequenceNumber : UInt16) : Bytes :=
  let byte0 : UInt8 := 0x80
  let byte0 := if s.csrcs.length > 0 then (byte0 &&& 0xf0) ||| .ofNat s.csrcs.length else byte0
  let byte0 := if (s.blockWith data markerBit).length > 0 then byte0 ||| 0x10 else byte0
  [byte0, byte1 payloadType markerBit] ++ be16 sequenceNumber.toNat ++ be32 timestamp.toNat ++
    be32 ssrc.toNat ++ s.csrcs.flatMap (be32 ·.toNat) ++ s.blockWith data markerBit

theorem createRtpHeader_eq {payloadType : Int8} {ssrc : UInt32} {markerBit : Bool}
    {timestamp : UInt32} {sequenceNumber : UInt16} {fuel : Nat}
    (hext : s.buildRTPHeaderExtension fuel markerBit = some (s.extensionBlock markerBit)) :
    s.createRtpHeader fuel payloadType ssrc markerBit timestamp sequenceNumber =
      some (s.headerWith s.data payloadType ssrc markerBit timestamp sequenceNumber) := by
  unfold createRtpHeader
  rw [hext, Option.map_some]
  rfl

theorem headerWith_length (data : RTPExtensionType → Bytes) (payloadType : Int8) (ssrc : UInt32)
    (markerBit : Bool) (timestamp : UInt32) (sequenceNumber : UInt16) :
    (s.headerWith data payloadType ssrc markerBit timestamp sequenceNumber).length =
      12 + 4 * s.csrcs.length + (s.blockWith data markerBit).length := by
  simp only [headerWith, List.length_append, csrcs_length]
  rfl

theorem blockWith_length (hr : Reads data keep) (markerBit : Bool) :
    (s.blockWith data markerBit).length = (s.extensionBlock markerBit).length := by
  have h := elements_length hr (s.extensionMap.entries.filter (carries markerBit ·.2))
  have h' := elements_length (reads_data s) (s.extensionMap.entries.filter (carries markerBit ·.2))
  rw [← blockWith_data, blockWith, blockWith, h, h']
  split
  · rfl
  · simp only [List.length_append, be16_length, List.length_replicate, h, h']

/-- How the header reads, whatever the values. -/
theorem parse_headerWith (hr : Reads data keep) (payloadType : Int8) (ssrc : UInt32)
    (markerBit : Bool) (timestamp : UInt32) (sequenceNumber : UInt16) (payload : Bytes) :
    parse (s.headerWith data payloadType ssrc markerBit timestamp sequenceNumber ++ payload)
        (some s.extensionMap) {} =
      some (true,
        { markerBit := byte1 payloadType markerBit &&& 0x80 != 0
          payloadType := byte1 payloadType markerBit &&& 0x7f
          sequenceNumber := sequenceNumber
          timestamp := timestamp
          ssrc := ssrc
          numCSRCs := .ofNat s.csrcs.length
          arrOfCSRCs := s.csrcs ++ List.replicate (15 - s.csrcs.length) 0
          headerLength := 12 + 4 * s.csrcs.length + (s.extensionBlock markerBit).length
          extension := (s.extensionMap.entries.filter (carries markerBit ·.2)).foldl
            (fun h e => keep h e.2) {} }) := by
  rw [← s.blockWith_length hr]
  unfold headerWith
  obtain ⟨byte0, h0⟩ : ∃ x : UInt8, x =
      if (s.blockWith data markerBit).length > 0 then
        (if s.csrcs.length > 0 then (0x80 &&& 0xf0) ||| .ofNat s.csrcs.length else 0x80) ||| 0x10
      else if s.csrcs.length > 0 then (0x80 &&& 0xf0) ||| .ofNat s.csrcs.length else 0x80 := ⟨_, rfl⟩
  simp only [← h0]
  have hn := s.csrcs_le
  obtain ⟨hv, hcc, hp, hx⟩ := byte0_facts ⟨s.csrcs.length, Nat.lt_succ_of_le hn⟩
    (decide ((s.blockWith data markerBit).length > 0))
  simp only [decide_eq_true_eq, decide_eq_false_iff_not, ← h0] at hv hcc hp hx
  have hfixed := @parse_fixed _ (byte1 payloadType markerBit) sequenceNumber timestamp ssrc _ hn hv
    hcc hp (some s.extensionMap) (s.blockWith data markerBit ++ payload)
  simp only [List.append_assoc]
  rw [hfixed]
  have hblocks := elements_length hr (s.extensionMap.entries.filter (carries markerBit ·.2))
  by_cases hempty : s.carriedLength markerBit = 0
  · -- without an element there is no block
    have hnone : s.extensionMap.entries.filter (carries markerBit ·.2) = [] := by
      have hle := (length_le_sum (s.extensionMap.entries.filter (carries markerBit ·.2))).1
      rw [carriedLength] at hempty
      rw [hempty] at hle
      exact List.length_eq_zero_iff.1 (Nat.le_zero.1 hle)
    have hblock : s.blockWith data markerBit = [] := if_pos (hblocks.trans hempty)
    rw [if_pos (hx.2 (by rw [hblock]; decide)), hblock, hnone]
    rfl
  · have hpos : (s.blockWith data markerBit).length > 0 := by
      rw [blockWith_eq hr hempty rfl, List.length_append, be16_length]
      omega
    rw [if_neg fun hc => hx.1 hc hpos]
    obtain ⟨pre, hpre⟩ : ∃ pre, pre = [byte0, byte1 payloadType markerBit] ++
        (be16 sequenceNumber.toNat ++ (be32 timestamp.toNat ++ (be32 ssrc.toNat ++
          s.csrcs.flatMap (be32 ·.toNat)))) := ⟨_, rfl⟩
    have hplen : pre.length = 12 + 4 * s.csrcs.length := by
      rw [hpre]
      simp only [List.length_append, csrcs_length]
      show 2 + (2 + (4 + (4 + _))) = _
      omega
    have hbytes : [byte0, byte1 payloadType markerBit] ++ (be16 sequenceNumber.toNat ++
        (be32 timestamp.toNat ++ (be32 ssrc.toNat ++ (s.csrcs.flatMap (be32 ·.toNat) ++
          (s.blockWith data markerBit ++ payload))))) =
        pre ++ (s.blockWith data markerBit ++ payload) := by
      rw [hpre]
      simp only [List.append_assoc]
    rw [hbytes, parseExtension_block hr hempty hplen rfl]

end With

/-- What is written with the extension block, and how it reads. -/
theorem createRtpHeader_parse {payloadType : Int8} (hpt : 0 ≤ payloadType) (ssrc : UInt32)
    (markerBit : Bool) (timestamp : UInt32) (sequenceNumber : UInt16) {fuel : Nat}
    (hext : s.buildRTPHeaderExtension fuel markerBit = some (s.extensionBlock markerBit)) :
    ∃ header, s.createRtpHeader fuel payloadType ssrc markerBit timestamp sequenceNumber =
        some header ∧
      header.length = 12 + 4 * s.csrcs.length + (s.extensionBlock markerBit).length ∧
      ∀ payload, parse (header ++ payload) (some s.extensionMap) {} =
        some (true, s.parsedHeader payloadType ssrc markerBit timestamp sequenceNumber
          header.length) := by
  have hlen := s.headerWith_length s.data payloadType ssrc markerBit timestamp sequenceNumber
  rw [blockWith_data] at hlen
  refine ⟨_, s.createRtpHeader_eq hext, hlen, fun payload => ?_⟩
  obtain ⟨hm, hpt'⟩ := byte1_facts ⟨payloadType.toUInt8.toNat, toUInt8_lt hpt⟩ markerBit
  simp only [UInt8.ofNat_toNat] at hm hpt'
  rw [s.parse_headerWith (reads_data s), hlen, s.foldl_mark_carried, byte1, hm, hpt']
  rfl

/-! ## The reserved length -/

/-- Octets of the registered elements other than the rotation. -/
def othersLength : Nat :=
  ((s.extensionMap.entries.filter (·.2 ≠ .videoRotation)).map (·.2.length)).sum

theorem sum_split {l : List (UInt8 × RTPExtensionType)} (h : (l.map (·.2)).Nodup) :
    (l.map (·.2.length)).sum = ((l.filter (·.2 ≠ .videoRotation)).map (·.2.length)).sum +
      if l.any (·.2 = .videoRotation) then 2 else 0 := by
  induction l with
  | nil => rfl
  | cons e l ih =>
    obtain ⟨hnot, hnd⟩ := List.nodup_cons.1 h
    rw [List.map_cons, List.sum_cons, ih hnd, List.filter_cons, List.any_cons]
    by_cases he : e.2 = .videoRotation
    · -- the rotation is not registered again
      have hl : l.any (·.2 = .videoRotation) = false := by
        rw [List.any_eq_false]
        intro x hx hc
        exact hnot (List.mem_map.2 ⟨x, hx, (of_decide_eq_true hc).trans he.symm⟩)
      simp [he, hl, RTPExtensionType.length, Nat.add_comm]
    · have hkeep : decide (e.2 ≠ .videoRotation) = true := decide_eq_true he
      rw [decide_eq_false he, Bool.false_or, if_pos hkeep, List.map_cons, List.sum_cons,
        Nat.add_assoc]

theorem extensionBlock_length (markerBit : Bool) :
    (s.extensionBlock markerBit).length =
      if s.carriedLength markerBit = 0 then 0 else 4 + word32Align (s.carriedLength markerBit) := by
  have hlen := s.blocksOf_length markerBit s.extensionMap.entries
  rw [extensionBlock, carriedLength, ← hlen]
  split
  · rfl
  · have : (s.blocksOf markerBit s.extensionMap.entries).length ≤
        word32Align (s.blocksOf markerBit s.extensionMap.entries).length := by
      rw [word32Align]
      split <;> omega
    simp only [List.length_append, be16_length, List.length_replicate]
    omega

theorem word32Align_eq (n : Nat) : word32Align n = (n + 3) / 4 * 4 := by
  rw [word32Align]
  split <;> omega

theorem word32Align_header (n : Nat) :
    word32Align (if n > 0 then n + 4 else n) = if n = 0 then 0 else 4 + word32Align n := by
  simp only [word32Align_eq]
  split <;> split <;> omega

theorem carriedLength_true : s.carriedLength true = (s.extensionMap.entries.map (·.2.length)).sum := by
  rw [carriedLength, List.filter_eq_self.2]
  intro e _
  rw [carries, Bool.or_true]

theorem carriedLength_false : s.carriedLength false = s.othersLength := by
  rw [carriedLength, othersLength]
  congr 2
  refine List.filter_congr fun e _ => ?_
  rw [carries, Bool.or_false, Bool.eq_iff_iff, bne_iff_ne, decide_eq_true_eq]

/-- The written length is the reserved one. -/
theorem reserved_iff (markerBit : Bool) (h : (s.extensionMap.entries.map (·.2)).Nodup) :
    12 + 4 * s.csrcs.length + (s.extensionBlock markerBit).length = s.rtpHeaderLength ↔
      markerBit = true ∨ s.extensionMap.isRegistered .videoRotation = false ∨
        s.othersLength % 4 = 1 ∨ s.othersLength % 4 = 2 := by
  rw [extensionBlock_length, rtpHeaderLength, RtpHeaderExtensionMap.getTotalLengthInBytes,
    word32Align_header, ← carriedLength_true]
  cases markerBit with
  | true => simp
  | false =>
    have hsplit := sum_split h
    rw [← carriedLength_true] at hsplit
    rw [hsplit, carriedLength_false, RtpHeaderExtensionMap.isRegistered]
    simp only [word32Align_eq]
    rw [show ((s.extensionMap.entries.filter (·.2 ≠ .videoRotation)).map (·.2.length)).sum =
      s.othersLength from rfl]
    cases s.extensionMap.entries.any fun x => decide (x.2 = .videoRotation) with
    | false => simp
    | true =>
      simp only [Bool.false_eq_true, Bool.true_eq_false, if_true, false_or]
      rw [if_neg (Nat.succ_ne_zero _)]
      split <;> omega

/-- The header has the length reserved for it, and reads back with any payload
behind it. -/
def HeaderAgrees (payloadType : Int8) (ssrc : UInt32) (markerBit : Bool) (timestamp : UInt32)
    (sequenceNumber : UInt16) : Prop :=
  ∃ fuel header,
    s.createRtpHeader fuel payloadType ssrc markerBit timestamp sequenceNumber = some header ∧
      header.length = s.rtpHeaderLength ∧
      ∀ payload, parse (header ++ payload) (some s.extensionMap) {} =
        some (true, s.parsedHeader payloadType ssrc markerBit timestamp sequenceNumber
          s.rtpHeaderLength)

theorem HeaderAgrees.reserved {payloadType : Int8} {ssrc : UInt32} {markerBit : Bool}
    {timestamp : UInt32} {sequenceNumber : UInt16} (hpt : 0 ≤ payloadType)
    (h : s.HeaderAgrees payloadType ssrc markerBit timestamp sequenceNumber) :
    (s.extensionMap.entries.map (·.2)).Nodup ∧
      12 + 4 * s.csrcs.length + (s.extensionBlock markerBit).length = s.rtpHeaderLength := by
  obtain ⟨fuel, header, hcreate, hlen, -⟩ := h
  obtain ⟨ext, hext, -⟩ := Option.map_eq_some_iff.1 hcreate
  obtain ⟨hnd, rfl⟩ := (s.buildRTPHeaderExtension_iff markerBit ext).1 ⟨fuel, hext⟩
  obtain ⟨header', hcreate', hlen', -⟩ :=
    s.createRtpHeader_parse hpt ssrc markerBit timestamp sequenceNumber hext
  obtain rfl := Option.some.inj (hcreate.symm.trans hcreate')
  exact ⟨hnd, hlen'.symm.trans hlen⟩

/-- The header agrees with the reserved length and the parser exactly when the
map gives every type one id, and the rotation is written, is not registered,
or fits into the padding of the others. -/
theorem header_agreement_iff (payloadType : Int8) (ssrc : UInt32) (markerBit : Bool)
    (timestamp : UInt32) (sequenceNumber : UInt16) (hpt : 0 ≤ payloadType) :
    s.HeaderAgrees payloadType ssrc markerBit timestamp sequenceNumber ↔
      (s.extensionMap.entries.map (·.2)).Nodup ∧
        (markerBit = true ∨ s.extensionMap.isRegistered .videoRotation = false ∨
          s.othersLength % 4 = 1 ∨ s.othersLength % 4 = 2) := by
  constructor
  · intro h
    obtain ⟨hnd, hlen⟩ := h.reserved s hpt
    exact ⟨hnd, (s.reserved_iff markerBit hnd).1 hlen⟩
  · rintro ⟨hnd, hcond⟩
    obtain ⟨fuel, hext⟩ := (s.buildRTPHeaderExtension_iff markerBit _).2 ⟨hnd, rfl⟩
    obtain ⟨header, hcreate, hlen, hparse⟩ :=
      s.createRtpHeader_parse hpt ssrc markerBit timestamp sequenceNumber hext
    have hres := hlen.trans ((s.reserved_iff markerBit hnd).2 hcond)
    exact ⟨fuel, header, hcreate, hres, hres ▸ hparse⟩

/-- The rotation under id 5 and the transport sequence number under id 2. -/
def rotating : RTPSender where
  csrcs := [7, 8]
  extensionMap := ⟨[(2, .transportSequenceNumber), (5, .videoRotation)], by decide, by decide⟩
  rotation := .rotation270
  transportSequenceNumber := 300

/-- The last packet of a frame. -/
theorem header_agreement_iff_marked :
    rotating.HeaderAgrees 96 0x1234 true 90000 17 :=
  (header_agreement_iff rotating 96 0x1234 true 90000 17 (by decide)).2 (by decide)

/-- A packet before it: the header is four octets shorter than reserved. -/
theorem rotation_unmarked : ¬ rotating.HeaderAgrees 96 0x1234 false 90000 17 := by
  intro h
  have hlen := (h.reserved rotating (by decide)).2
  revert hlen
  decide

end RTPSender

end RtcCore.L1
