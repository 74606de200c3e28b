import RtcCore.L1Wire.Vp8

/-!
# The VP8 payload descriptor

The descriptor `RtpPacketizerVp8` writes is read back by `RtpDepacketizerVp8`,
field by field. `readParse` is `Parse` once more, with the data pointer and
the remaining length of the source and with reads that have no value outside
of the payload; it agrees with `parse` on every payload that is not empty.

Results:
* `parseDescriptor_write`: the fields of the header and the octets behind the
  descriptor.
* `readParse_eq`: no read outside of a non-empty payload.
* `descriptor_roundtrip`: both.
-/
namespace RtcCore.L1.Vp8

open Bytes

/-- The values the header's fields may have. A layer sync flag needs a
temporal index (asserted in `TIDFieldPresent`).
mirrors webrtc/modules/interface/module_common_types.h:50-58 -/
structure HeaderOk (h : VP8Header) : Prop where
  pictureId : h.pictureId = kNoPictureId ∨ 0 ≤ h.pictureId ∧ h.pictureId ≤ 0x7FFF
  tl0PicIdx : h.tl0PicIdx = kNoTl0PicIdx ∨ 0 ≤ h.tl0PicIdx ∧ h.tl0PicIdx ≤ 255
  temporalIdx : h.temporalIdx = kNoTemporalIdx ∨ 0 ≤ h.temporalIdx ∧ h.temporalIdx ≤ 3
  keyIdx : h.keyIdx = kNoKeyIdx ∨ 0 ≤ h.keyIdx ∧ h.keyIdx ≤ 31
  layerSync : h.layerSync = true → h.temporalIdx ≠ kNoTemporalIdx

/-! ## Field by field -/

/-- The four bits of the X field. -/
theorem xField_bits (h : VP8Header) :
    (xField h &&& 0x80 != 0) = pictureIdPresent h ∧
    (xField h &&& 0x40 != 0) = tl0PicIdxFieldPresent h ∧
    (xField h &&& 0x20 != 0) = tidFieldPresent h ∧
    (xField h &&& 0x10 != 0) = keyIdxFieldPresent h := by
  unfold xField
  generalize pictureIdPresent h = i
  generalize tl0PicIdxFieldPresent h = l
  generalize tidFieldPresent h = t
  generalize keyIdxFieldPresent h = k
  revert i l t k
  decide

theorem pictureId_two : ∀ hi : Fin 128,
    (((0x80 : UInt8) ||| (UInt8.ofNat hi.val &&& 0x7F)) &&& 0x80 != 0) = true ∧
      (((0x80 : UInt8) ||| (UInt8.ofNat hi.val &&& 0x7F)) &&& 0x7F).toNat = hi.val := by
  decide

theorem pictureId_one : ∀ id : Fin 128, ((UInt8.ofNat id.val &&& 0x7F) &&& 0x80 != 0) = false ∧
    ((UInt8.ofNat id.val &&& 0x7F) &&& 0x7F).toNat = id.val := by
  decide

theorem parsePictureID_write {h : VP8Header} (hok : HeaderOk h) (v : VP8Header) (rest : Bytes)
    (hp : pictureIdPresent h = true) :
    parsePictureID v (writePictureID h ++ rest) = some ({ v with pictureId := h.pictureId }, rest) := by
  have hne : h.pictureId ≠ kNoPictureId := by
    intro h0
    simp [pictureIdPresent, pictureIdLength, h0] at hp
  obtain ⟨n, hn, hle⟩ : ∃ n : Nat, h.pictureId = n ∧ n ≤ 0x7FFF := by
    rcases hok.pictureId with h0 | h0
    · exact absurd h0 hne
    · exact ⟨h.pictureId.toNat, by omega, by omega⟩
  have hmod : (h.pictureId % 65536).toNat = n := by omega
  unfold writePictureID
  dsimp only
  rw [hmod]
  by_cases hone : n ≤ 0x7F
  · have hlen : pictureIdLength h = 1 := by
      rw [pictureIdLength, if_neg hne, if_pos (by omega)]
    rw [hlen, if_neg (by decide), if_pos rfl]
    obtain ⟨h1, h2⟩ := pictureId_one ⟨n, by omega⟩
    simp only [List.cons_append, List.nil_append, parsePictureID, h1, h2, hn]
    rfl
  · have hlen : pictureIdLength h = 2 := by
      rw [pictureIdLength, if_neg hne, if_neg (by omega)]
    rw [hlen, if_pos rfl]
    obtain ⟨h1, h2⟩ := pictureId_two ⟨n / 256, by omega⟩
    have hlow : (UInt8.ofNat n).toNat = n % 256 := by simp
    simp only [List.cons_append, List.nil_append, parsePictureID, h1, h2, hlow, if_true, hn]
    congr 3
    omega

theorem parseTl0PicIdx_write {h : VP8Header} (hok : HeaderOk h) (v : VP8Header) (rest : Bytes)
    (hp : tl0PicIdxFieldPresent h = true) :
    parseTl0PicIdx v (UInt8.ofNat (h.tl0PicIdx % 256).toNat :: rest) =
      some ({ v with tl0PicIdx := h.tl0PicIdx }, rest) := by
  have hne : h.tl0PicIdx ≠ kNoTl0PicIdx := by simpa [tl0PicIdxFieldPresent] using hp
  have hval : ((UInt8.ofNat (h.tl0PicIdx % 256).toNat).toNat : Int) = h.tl0PicIdx := by
    rcases hok.tl0PicIdx with h0 | h0
    · exact absurd h0 hne
    · rw [UInt8.toNat_ofNat']
      omega
  simp only [parseTl0PicIdx, hval]

/-- The octet that TID, Y and KEYIDX share. -/
theorem tidAndKeyIdx_bits : ∀ (hasTid hasKey sync : Bool) (t : Fin 4) (k : Fin 32),
    let d : UInt8 := (if hasTid then UInt8.ofNat (t.val * 64) ||| (if sync then kYBit else 0) else 0) |||
      (if hasKey then UInt8.ofNat k.val &&& kKeyIdxField else 0)
    (hasTid = true → ((d >>> 6) &&& 0x03).toNat = t.val ∧ (d &&& 0x20 != 0) = sync) ∧
      (hasKey = true → (d &&& 0x1F).toNat = k.val) := by
  decide

theorem parseTIDAndKeyIdx_write {h : VP8Header} (hok : HeaderOk h) (v : VP8Header) (rest : Bytes) :
    parseTIDAndKeyIdx (tidFieldPresent h) (keyIdxFieldPresent h) v (tidAndKeyIdx h :: rest) =
      some ({ v with
        temporalIdx := if tidFieldPresent h then h.temporalIdx else v.temporalIdx
        layerSync := if tidFieldPresent h then h.layerSync else v.layerSync
        keyIdx := if keyIdxFieldPresent h then h.keyIdx else v.keyIdx }, rest) := by
  obtain ⟨t, ht⟩ : ∃ t : Fin 4, tidFieldPresent h = true → h.temporalIdx = t.val := by
    rcases hok.temporalIdx with h0 | h0
    · exact ⟨0, fun hp => absurd h0 (by simpa [tidFieldPresent] using hp)⟩
    · exact ⟨⟨h.temporalIdx.toNat, by omega⟩, fun _ => by dsimp only; omega⟩
  obtain ⟨k, hk⟩ : ∃ k : Fin 32, keyIdxFieldPresent h = true → h.keyIdx = k.val := by
    rcases hok.keyIdx with h0 | h0
    · exact ⟨0, fun hp => absurd h0 (by simpa [keyIdxFieldPresent] using hp)⟩
    · exact ⟨⟨h.keyIdx.toNat, by omega⟩, fun _ => by dsimp only; omega⟩
  have hbits := tidAndKeyIdx_bits (tidFieldPresent h) (keyIdxFieldPresent h) h.layerSync t k
  have hoctet : tidAndKeyIdx h =
      (if tidFieldPresent h then UInt8.ofNat (t.val * 64) ||| (if h.layerSync then kYBit else 0)
        else 0) ||| (if keyIdxFieldPresent h then UInt8.ofNat k.val &&& kKeyIdxField else 0) := by
    unfold tidAndKeyIdx
    congr 1
    · split
      · rename_i hp
        rw [ht hp, Int.toNat_natCast]
      · rfl
    · split
      · rename_i hp
        have hkv : ((k.val : Int) % 256).toNat = k.val := by omega
        rw [hk hp, hkv]
      · rfl
  rw [← hoctet] at hbits
  dsimp only at hbits
  unfold parseTIDAndKeyIdx
  generalize tidAndKeyIdx h = d at hbits
  cases htp : tidFieldPresent h with
  | false =>
    cases hkp : keyIdxFieldPresent h with
    | false => rfl
    | true => simp [hbits.2 hkp, hk hkp]
  | true =>
    obtain ⟨h1, h2⟩ := hbits.1 htp
    cases hkp : keyIdxFieldPresent h with
    | false => simp [h1, h2, ht htp]
    | true => simp [h1, h2, ht htp, hbits.2 hkp, hk hkp]

/-! ## The whole descriptor -/

/-- The header as a packet carries it: the packet adds its partition and
whether it begins it. -/
def carried (h : VP8Header) (i : PacketInfo) : VP8Header :=
  { h with partitionId := i.firstPartitionIx, beginningOfPartition := i.firstFragment }

/-- The header after the first octet. -/
def afterFirst (h : VP8Header) (i : PacketInfo) : VP8Header :=
  { nonReference := h.nonReference
    partitionId := i.firstPartitionIx
    beginningOfPartition := i.firstFragment }

/-- The three stages of the extension parser. -/
theorem parseExtension_eq (v : VP8Header) (x : UInt8) (data : Bytes) :
    parseExtension v (x :: data) =
      (if x &&& 0x80 != 0 then parsePictureID v data else some (v, data)).bind fun r =>
      (if x &&& 0x40 != 0 then parseTl0PicIdx r.1 r.2 else some r).bind fun r =>
        if x &&& 0x20 != 0 || x &&& 0x10 != 0 then
          parseTIDAndKeyIdx (x &&& 0x20 != 0) (x &&& 0x10 != 0) r.1 r.2
        else some r := by
  dsimp only [parseExtension]
  generalize (x &&& 0x80 != 0) = hasPictureId
  generalize (x &&& 0x40 != 0) = hasTl0PicIdx
  cases hasPictureId with
  | true => cases hasTl0PicIdx <;> rfl
  | false => cases hasTl0PicIdx <;> rfl

theorem parseExtension_write {h : VP8Header} (hok : HeaderOk h) (i : PacketInfo) (rest : Bytes)
    (hx : xFieldPresent h = true) :
    parseExtension (afterFirst h i) (extension h ++ rest) = some (carried h i, rest) := by
  obtain ⟨hI, hL, hT, hK⟩ := xField_bits h
  unfold extension
  rw [if_pos hx]
  rw [List.cons_append, List.append_assoc, List.append_assoc, parseExtension_eq, hI, hL, hT, hK]
  generalize htk : (if (tidFieldPresent h || keyIdxFieldPresent h) = true then [tidAndKeyIdx h]
    else []) ++ rest = data₂
  generalize htl : (if tl0PicIdxFieldPresent h = true then
    [UInt8.ofNat (h.tl0PicIdx % 256).toNat] else []) ++ data₂ = data₁
  have hpic : (if pictureIdPresent h = true then parsePictureID (afterFirst h i)
        ((if pictureIdPresent h = true then writePictureID h else []) ++ data₁)
      else some (afterFirst h i, (if pictureIdPresent h = true then writePictureID h else []) ++
        data₁)) = some ({ afterFirst h i with pictureId := h.pictureId }, data₁) := by
    split
    · rename_i hp
      exact parsePictureID_write hok _ _ hp
    · rename_i hp
      have hno : h.pictureId = kNoPictureId := by
        simp only [pictureIdPresent, pictureIdLength] at hp
        split at hp
        · assumption
        · split at hp <;> simp at hp
      rw [hno]; rfl
  rw [hpic, Option.bind_some]
  dsimp only
  have htl0 : ∀ v : VP8Header, v.tl0PicIdx = kNoTl0PicIdx →
      (if tl0PicIdxFieldPresent h = true then parseTl0PicIdx v data₁ else some (v, data₁)) =
        some ({ v with tl0PicIdx := h.tl0PicIdx }, data₂) := by
    intro v hv
    rw [← htl]
    split
    · rename_i hp
      exact parseTl0PicIdx_write hok _ _ hp
    · rename_i hp
      have hno : h.tl0PicIdx = kNoTl0PicIdx := by simpa [tl0PicIdxFieldPresent] using hp
      rw [hno, ← hv]; rfl
  rw [htl0 _ rfl, Option.bind_some]
  dsimp only
  split
  · rename_i hp
    rw [← htk, if_pos hp, List.singleton_append, parseTIDAndKeyIdx_write hok]
    congr 2
    unfold carried afterFirst
    cases htp : tidFieldPresent h with
    | true =>
      cases hkp : keyIdxFieldPresent h with
      | true => rfl
      | false =>
        have hno : h.keyIdx = kNoKeyIdx := by simpa [keyIdxFieldPresent] using hkp
        simp [hno]
    | false =>
      have hno : h.temporalIdx = kNoTemporalIdx := by simpa [tidFieldPresent] using htp
      have hsync : h.layerSync = false := by
        cases hs : h.layerSync with
        | false => rfl
        | true => exact absurd hno (hok.layerSync hs)
      cases hkp : keyIdxFieldPresent h with
      | true => simp [hno, hsync]
      | false => simp [htp, hkp] at hp
  · rename_i hp
    simp only [Bool.or_eq_true, not_or, Bool.not_eq_true] at hp
    obtain ⟨htp, hkp⟩ := hp
    have hno : h.temporalIdx = kNoTemporalIdx := by simpa [tidFieldPresent] using htp
    have hkno : h.keyIdx = kNoKeyIdx := by simpa [keyIdxFieldPresent] using hkp
    have hsync : h.layerSync = false := by
      cases hs : h.layerSync with
      | false => rfl
      | true => exact absurd hno (hok.layerSync hs)
    rw [← htk, htp, hkp]
    simp [carried, afterFirst, hno, hkno, hsync]

theorem parseDescriptor_write {h : VP8Header} (hok : HeaderOk h) {i : PacketInfo}
    (hix : i.firstPartitionIx ≤ 8) {rest : Bytes} (hrest : rest ≠ []) :
    parseDescriptor (descriptor h i :: (extension h ++ rest)) = some (carried h i, rest) := by
  obtain ⟨hX, hN, hS, hP⟩ := descriptor_bits h (Nat.lt_of_le_of_lt hix (by decide))
  have hlen : 0 < rest.length := List.length_pos_iff.2 hrest
  have hget : getByte (descriptor h i :: (extension h ++ rest)) 0 = descriptor h i := rfl
  unfold parseDescriptor
  rw [hget]
  dsimp only
  rw [hX, hN, hS, hP]
  rw [if_neg (by omega), if_neg (by simp only [List.length_cons, List.length_append]; omega)]
  rw [List.drop_succ_cons, List.drop_zero]
  cases hx : xFieldPresent h with
  | true =>
    have hext := parseExtension_write hok i rest hx
    unfold afterFirst at hext
    rw [if_pos rfl, hext]
    simp only [List.isEmpty_iff, hrest, if_false]
  | false =>
    have hext : extension h = [] := by simp [extension, hx]
    have hno : h.pictureId = kNoPictureId ∧ h.tl0PicIdx = kNoTl0PicIdx ∧
        h.temporalIdx = kNoTemporalIdx ∧ h.keyIdx = kNoKeyIdx := by
      simp only [xFieldPresent, Bool.or_eq_false_iff] at hx
      obtain ⟨⟨⟨ht, hl⟩, hp⟩, hk⟩ := hx
      refine ⟨?_, by simpa [tl0PicIdxFieldPresent] using hl, by simpa [tidFieldPresent] using ht,
        by simpa [keyIdxFieldPresent] using hk⟩
      simp only [pictureIdPresent, pictureIdLength] at hp
      split at hp
      · assumption
      · split at hp <;> simp at hp
    have hsync : h.layerSync = false := by
      cases hs : h.layerSync with
      | false => rfl
      | true => exact absurd hno.2.2.1 (hok.layerSync hs)
    rw [if_neg (by simp), hext, List.nil_append, carried, hno.1, hno.2.1, hno.2.2.1, hno.2.2.2, hsync]

/-! ## Reads -/

/-- `data`, `data_length` and `parsed_bytes`. -/
structure Cursor where
  data : Nat
  dataLength : Nat
  parsedBytes : Nat
  deriving DecidableEq, Repr

def Cursor.next (c : Cursor) : Cursor := ⟨c.data + 1, c.dataLength - 1, c.parsedBytes + 1⟩

/-- A computation with reads: no value when a read is outside of the payload,
`some none` when the source reports an error. -/
abbrev Checked (α : Type) := Option (Option α)

/-- mirrors webrtc/modules/rtp_rtcp/source/rtp_format_vp8.cc:23-44 -/
def readPictureID (b : Bytes) (v : VP8Header) (c : Cursor) : Checked (VP8Header × Cursor) :=
  if c.dataLength = 0 then some none
  else match b[c.data]? with
    | none => none
    | some d =>
      let id : Int := (d &&& 0x7F).toNat
      if d &&& 0x80 != 0 then
        if c.next.dataLength = 0 then some none
        else match b[c.next.data]? with
          | none => none
          | some e => some (some ({ v with pictureId := id * 256 + e.toNat }, c.next.next))
      else some (some ({ v with pictureId := id }, c.next))

/-- mirrors webrtc/modules/rtp_rtcp/source/rtp_format_vp8.cc:46-59 -/
def readTl0PicIdx (b : Bytes) (v : VP8Header) (c : Cursor) : Checked (VP8Header × Cursor) :=
  if c.dataLength = 0 then some none
  else match b[c.data]? with
    | none => none
    | some d => some (some ({ v with tl0PicIdx := d.toNat }, c.next))

/-- mirrors webrtc/modules/rtp_rtcp/source/rtp_format_vp8.cc:61-82 -/
def readTIDAndKeyIdx (b : Bytes) (hasTid hasKeyIdx : Bool) (v : VP8Header) (c : Cursor) :
    Checked (VP8Header × Cursor) :=
  if c.dataLength = 0 then some none
  else match b[c.data]? with
    | none => none
    | some d =>
      let v := if hasTid then
          { v with temporalIdx := ((d >>> 6) &&& 0x03).toNat, layerSync := d &&& 0x20 != 0 } else v
      some (some (if hasKeyIdx then { v with keyIdx := (d &&& 0x1F).toNat } else v, c.next))

/-- Goes on where the source does not report an error. -/
def Checked.andThen {α β : Type} (m : Checked α) (f : α → Checked β) : Checked β :=
  match m with
  | none => none
  | some none => some none
  | some (some a) => f a

/-- The caller has checked that there is an octet (the assert).
mirrors webrtc/modules/rtp_rtcp/source/rtp_format_vp8.cc:84-121 -/
def readExtension (b : Bytes) (v : VP8Header) (data dataLength : Nat) :
    Checked (VP8Header × Cursor) :=
  match b[data]? with
  | none => none
  | some x =>
    let c : Cursor := ⟨data + 1, dataLength - 1, 1⟩
    (if x &&& 0x80 != 0 then readPictureID b v c else some (some (v, c))).andThen fun r =>
    (if x &&& 0x40 != 0 then readTl0PicIdx b r.1 r.2 else some (some r)).andThen fun r =>
      if x &&& 0x20 != 0 || x &&& 0x10 != 0 then
        readTIDAndKeyIdx b (x &&& 0x20 != 0) (x &&& 0x10 != 0) r.1 r.2
      else some (some r)

/-- The descriptor: the header, `payload_data` and `payload_data_length`
behind it.
mirrors webrtc/modules/rtp_rtcp/source/rtp_format_vp8.cc:667-720 -/
def readDescriptor (b : Bytes) : Checked (VP8Header × Nat × Nat) :=
  match (b[0]? : Option UInt8) with
  | none => none
  | some d =>
    let v : VP8Header :=
      { nonReference := d &&& 0x20 != 0
        partitionId := (d &&& 0x0F).toNat
        beginningOfPartition := d &&& 0x10 != 0 }
    if 8 < v.partitionId then some none
    else if b.length ≤ 1 then some none
    else if d &&& 0x80 != 0 then
      (readExtension b v 1 (b.length - 1)).andThen fun r =>
        if b.length - 1 - r.2.parsedBytes = 0 then some none
        else some (some (r.1, 1 + r.2.parsedBytes, b.length - 1 - r.2.parsedBytes))
    else some (some (v, 1, b.length - 1))

/-- mirrors webrtc/modules/rtp_rtcp/source/rtp_format_vp8.cc:123-141 -/
def readFrameSize (b : Bytes) (frameType : FrameType) (data dataLength : Nat) :
    Checked (Nat × Nat) :=
  if frameType ≠ .key then some (some (0, 0))
  else if dataLength < 10 then some none
  else match b[data + 6]?, b[data + 7]?, b[data + 8]?, b[data + 9]? with
    | some w₀, some w₁, some h₀, some h₁ =>
      some (some ((w₁.toNat * 256 + w₀.toNat) % 0x4000, (h₁.toNat * 256 + h₀.toNat) % 0x4000))
    | _, _, _, _ => none

/-- The P bit is read at the beginning of the first partition only.
mirrors webrtc/modules/rtp_rtcp/source/rtp_format_vp8.cc:722-728 -/
def readFrameType (b : Bytes) (isFirst : Bool) (data : Nat) : Option FrameType :=
  if isFirst then (b[data]?).map fun h => if h &&& 0x01 == 0 then .key else .delta
  else some .delta

/-- `RtpDepacketizerVp8::Parse` with its reads.
mirrors webrtc/modules/rtp_rtcp/source/rtp_format_vp8.cc:667-738 -/
def readParse (b : Bytes) : Checked ParsedPayload :=
  (readDescriptor b).andThen fun r =>
    let isFirst := r.1.beginningOfPartition && r.1.partitionId == 0
    match readFrameType b isFirst r.2.1 with
    | none => none
    | some frameType =>
      (readFrameSize b frameType r.2.1 r.2.2).andThen fun s =>
        some (some { payload := slice b r.2.1 r.2.2, frameType
                     video := { width := s.1, height := s.2, isFirstPacket := isFirst
                                codec := .vp8 r.1 } })

/-- Where the pointer stands: `rest` is what it has in front of it, and it
has come `parsedBytes` octets from `start`. -/
structure Cursor.Sees (b : Bytes) (start : Nat) (c : Cursor) (rest : Bytes) : Prop where
  ahead : rest = b.drop c.data
  length : rest.length = c.dataLength
  parsed : c.data = start + c.parsedBytes

theorem Cursor.Sees.nil {b : Bytes} {start : Nat} {c : Cursor} (h : c.Sees b start []) :
    c.dataLength = 0 := h.length.symm

/-- The octet the pointer stands at. -/
theorem Cursor.Sees.cons {b : Bytes} {start : Nat} {c : Cursor} {d : UInt8} {rest : Bytes}
    (h : c.Sees b start (d :: rest)) :
    c.dataLength ≠ 0 ∧ b[c.data]? = some d ∧ c.next.Sees b start rest := by
  have hlen := h.length
  rw [List.length_cons] at hlen
  have hget : b[c.data]? = some d := by
    rw [← List.head?_drop, ← h.ahead, List.head?_cons]
  have htail : rest = b.drop (c.data + 1) := by
    rw [← List.tail_drop, ← h.ahead, List.tail_cons]
  exact ⟨by omega, hget, htail, by simp only [Cursor.next]; omega,
    by have := h.parsed; simp only [Cursor.next]; omega⟩

/-- The checked computation reads inside the payload and finds what the plain
one does. -/
def Agrees (b : Bytes) (start : Nat) (m : Checked (VP8Header × Cursor))
    (o : Option (VP8Header × Bytes)) : Prop :=
  match o with
  | none => m = some none
  | some (v, rest) => ∃ c, m = some (some (v, c)) ∧ c.Sees b start rest

theorem readPictureID_agrees {b : Bytes} {start : Nat} {c : Cursor} (v : VP8Header) {rest : Bytes}
    (h : c.Sees b start rest) : Agrees b start (readPictureID b v c) (parsePictureID v rest) := by
  unfold readPictureID
  cases rest with
  | nil => rw [if_pos h.nil]; rfl
  | cons d rest =>
    obtain ⟨hne, hget, hnext⟩ := h.cons
    rw [if_neg hne, hget]
    dsimp only [parsePictureID]
    split
    · cases rest with
      | nil => rw [if_pos hnext.nil]; rfl
      | cons e rest =>
        obtain ⟨hne', hget', hnext'⟩ := hnext.cons
        rw [if_neg hne', hget']
        exact ⟨_, rfl, hnext'⟩
    · exact ⟨_, rfl, hnext⟩

theorem readTl0PicIdx_agrees {b : Bytes} {start : Nat} {c : Cursor} (v : VP8Header) {rest : Bytes}
    (h : c.Sees b start rest) : Agrees b start (readTl0PicIdx b v c) (parseTl0PicIdx v rest) := by
  unfold readTl0PicIdx
  cases rest with
  | nil => rw [if_pos h.nil]; rfl
  | cons d rest =>
    obtain ⟨hne, hget, hnext⟩ := h.cons
    rw [if_neg hne, hget]
    exact ⟨_, rfl, hnext⟩

theorem readTIDAndKeyIdx_agrees {b : Bytes} {start : Nat} {c : Cursor} (hasTid hasKeyIdx : Bool)
    (v : VP8Header) {rest : Bytes} (h : c.Sees b start rest) :
    Agrees b start (readTIDAndKeyIdx b hasTid hasKeyIdx v c)
      (parseTIDAndKeyIdx hasTid hasKeyIdx v rest) := by
  unfold readTIDAndKeyIdx
  cases rest with
  | nil => rw [if_pos h.nil]; rfl
  | cons d rest =>
    obtain ⟨hne, hget, hnext⟩ := h.cons
    rw [if_neg hne, hget]
    exact ⟨_, rfl, hnext⟩

theorem Agrees.andThen {b : Bytes} {start : Nat} {m : Checked (VP8Header × Cursor)}
    {o : Option (VP8Header × Bytes)} (h : Agrees b start m o)
    {f : VP8Header × Cursor → Checked (VP8Header × Cursor)}
    {g : VP8Header × Bytes → Option (VP8Header × Bytes)}
    (k : ∀ v c rest, c.Sees b start rest → Agrees b start (f (v, c)) (g (v, rest))) :
    Agrees b start (m.andThen f) (o.bind g) := by
  cases o with
  | none =>
    have hm : m = some none := h
    rw [hm]; rfl
  | some r =>
    obtain ⟨v, rest⟩ := r
    obtain ⟨c, hm, hc⟩ : ∃ c, m = some (some (v, c)) ∧ c.Sees b start rest := h
    rw [hm]
    exact k v c rest hc

theorem Agrees.ite {b : Bytes} {start : Nat} {c : Cursor} {v : VP8Header} {rest : Bytes}
    {m : Checked (VP8Header × Cursor)} {o : Option (VP8Header × Bytes)} (p : Bool)
    (hc : c.Sees b start rest) (h : Agrees b start m o) :
    Agrees b start (if p then m else some (some (v, c))) (if p then o else some (v, rest)) := by
  cases p with
  | true => exact h
  | false => exact ⟨c, rfl, hc⟩

theorem readExtension_agrees {b : Bytes} {data dataLength : Nat} (v : VP8Header) {rest : Bytes}
    (hne : rest ≠ []) (hrest : rest = b.drop data) (hlen : rest.length = dataLength) :
    Agrees b data (readExtension b v data dataLength) (parseExtension v rest) := by
  cases rest with
  | nil => exact absurd rfl hne
  | cons x rest =>
    obtain ⟨-, hget, hnext⟩ := Cursor.Sees.cons (c := ⟨data, dataLength, 0⟩)
      ⟨hrest, hlen, (Nat.add_zero data).symm⟩
    dsimp only [Cursor.next] at hget hnext
    rw [parseExtension_eq]
    unfold readExtension
    rw [hget]
    refine Agrees.andThen (Agrees.ite _ hnext (readPictureID_agrees v hnext)) ?_
    intro v c rest hc
    refine Agrees.andThen (Agrees.ite _ hc (readTl0PicIdx_agrees v hc)) ?_
    intro v c rest hc
    exact Agrees.ite _ hc (readTIDAndKeyIdx_agrees _ _ v hc)

/-- The header, and the pointer and length of what stands behind the
descriptor. -/
def Finds (b : Bytes) (m : Checked (VP8Header × Nat × Nat)) (o : Option (VP8Header × Bytes)) :
    Prop :=
  match o with
  | none => m = some none
  | some (v, rest) => ∃ data, m = some (some (v, data, rest.length)) ∧ rest = b.drop data

/-- Behind the extension there has to be an octet. -/
theorem Agrees.finds {b : Bytes} {m : Checked (VP8Header × Cursor)}
    {o : Option (VP8Header × Bytes)} : Agrees b 1 m o →
    Finds b
      (m.andThen fun r => if b.length - 1 - r.2.parsedBytes = 0 then some none
        else some (some (r.1, 1 + r.2.parsedBytes, b.length - 1 - r.2.parsedBytes)))
      (match o with
        | none => none
        | some r => if r.2.isEmpty then none else some r) := by
  intro h
  cases o with
  | none =>
    have hm : m = some none := h
    rw [hm]; rfl
  | some r =>
    obtain ⟨v, rest⟩ := r
    obtain ⟨c, hm, hc⟩ : ∃ c, m = some (some (v, c)) ∧ c.Sees b 1 rest := h
    have hlen : rest.length = b.length - 1 - c.parsedBytes := by
      rw [hc.ahead, List.length_drop, hc.parsed]
      omega
    rw [hm]
    dsimp only [Checked.andThen]
    rw [← hlen]
    cases rest with
    | nil => rfl
    | cons e rest => exact ⟨_, rfl, by rw [hc.ahead, hc.parsed]⟩

theorem readDescriptor_finds {b : Bytes} (hb : b ≠ []) :
    Finds b (readDescriptor b) (parseDescriptor b) := by
  obtain ⟨d, tail, rfl⟩ := List.exists_cons_of_ne_nil hb
  have hget : getByte (d :: tail) 0 = d := rfl
  have hread : (d :: tail)[0]? = some d := rfl
  have hdrop : (d :: tail).drop 1 = tail := rfl
  unfold parseDescriptor readDescriptor
  rw [hget, hread, hdrop]
  dsimp only
  by_cases hp : 8 < (d &&& 0x0F).toNat
  · rw [if_pos hp, if_pos hp]; rfl
  rw [if_neg hp, if_neg hp]
  by_cases hl : (d :: tail).length ≤ 1
  · rw [if_pos hl, if_pos hl]; rfl
  rw [if_neg hl, if_neg hl]
  have hne : tail ≠ [] := by
    intro h0
    rw [h0] at hl
    exact hl (Nat.le_refl _)
  split
  · exact (readExtension_agrees _ hne hdrop.symm rfl).finds
  · exact ⟨1, rfl, rfl⟩

/-- The fields of the first octet are the same. -/
def SamePartition (v w : VP8Header) : Prop :=
  w.partitionId = v.partitionId ∧ w.beginningOfPartition = v.beginningOfPartition

theorem parsePictureID_partition {v : VP8Header} {data : Bytes} {r : VP8Header × Bytes}
    (h : parsePictureID v data = some r) : SamePartition v r.1 := by
  cases data with
  | nil => simp [parsePictureID] at h
  | cons d rest =>
    unfold parsePictureID at h
    dsimp only at h
    split at h
    · cases rest with
      | nil => simp at h
      | cons e rest =>
        rw [← Option.some.inj h]
        exact ⟨rfl, rfl⟩
    · rw [← Option.some.inj h]
      exact ⟨rfl, rfl⟩

theorem parseTl0PicIdx_partition {v : VP8Header} {data : Bytes} {r : VP8Header × Bytes}
    (h : parseTl0PicIdx v data = some r) : SamePartition v r.1 := by
  cases data with
  | nil => simp [parseTl0PicIdx] at h
  | cons d rest =>
    rw [← Option.some.inj h]
    exact ⟨rfl, rfl⟩

theorem parseTIDAndKeyIdx_partition {t k : Bool} {v : VP8Header} {data : Bytes}
    {r : VP8Header × Bytes} (h : parseTIDAndKeyIdx t k v data = some r) : SamePartition v r.1 := by
  cases data with
  | nil => simp [parseTIDAndKeyIdx] at h
  | cons d rest =>
    rw [← Option.some.inj h]
    cases t with
    | true => cases k <;> exact ⟨rfl, rfl⟩
    | false => cases k <;> exact ⟨rfl, rfl⟩

theorem SamePartition.of_ite {p : Bool} {v : VP8Header} {data : Bytes} {r : VP8Header × Bytes}
    {o : Option (VP8Header × Bytes)} (ho : o = some r → SamePartition v r.1)
    (h : (if p then o else some (v, data)) = some r) : SamePartition v r.1 := by
  cases p with
  | true => exact ho h
  | false =>
    have h' : some (v, data) = some r := h
    rw [← Option.some.inj h']
    exact ⟨rfl, rfl⟩

theorem parseExtension_partition {v : VP8Header} {data : Bytes} {r : VP8Header × Bytes}
    (h : parseExtension v data = some r) : SamePartition v r.1 := by
  cases data with
  | nil => simp [parseExtension] at h
  | cons x data =>
    rw [parseExtension_eq] at h
    obtain ⟨r₁, h₁, h⟩ := Option.bind_eq_some_iff.1 h
    obtain ⟨r₂, h₂, h⟩ := Option.bind_eq_some_iff.1 h
    have hs₁ := SamePartition.of_ite parsePictureID_partition h₁
    have hs₂ := SamePartition.of_ite parseTl0PicIdx_partition h₂
    have hs₃ := SamePartition.of_ite parseTIDAndKeyIdx_partition h
    exact ⟨hs₃.1.trans (hs₂.1.trans hs₁.1), hs₃.2.trans (hs₂.2.trans hs₁.2)⟩

theorem parseDescriptor_first {b : Bytes} {v : VP8Header} {rest : Bytes}
    (h : parseDescriptor b = some (v, rest)) :
    v.partitionId = (getByte b 0 &&& 0x0F).toNat ∧
      v.beginningOfPartition = (getByte b 0 &&& 0x10 != 0) := by
  unfold parseDescriptor at h
  dsimp only at h
  split at h
  · simp at h
  split at h
  · simp at h
  split at h
  · split at h
    · simp at h
    · rename_i r hr
      split at h
      · simp at h
      · have hs := parseExtension_partition hr
        rw [Option.some.inj h] at hs
        exact hs
  · rw [← (Prod.mk.inj (Option.some.inj h)).1]
    exact ⟨rfl, rfl⟩

theorem readFrameSize_eq {b : Bytes} (frameType : FrameType) (data : Nat) :
    readFrameSize b frameType data (b.drop data).length =
      some (parseFrameSize frameType (b.drop data)) := by
  unfold readFrameSize parseFrameSize
  split
  · rfl
  split
  · rfl
  · rename_i hlen
    rw [List.length_drop] at hlen
    have hget : ∀ k < 10, b[data + k]? = some (getByte (b.drop data) k) := by
      intro k hk
      rw [getByte, List.getElem?_drop, List.getElem?_eq_getElem (by omega)]
      rfl
    rw [hget 6 (by decide), hget 7 (by decide), hget 8 (by decide), hget 9 (by decide)]

/-- No read of `Parse` is outside of a payload that has an octet. -/
theorem readParse_eq {b : Bytes} (hb : b ≠ []) : readParse b = some (parse b) := by
  have hfinds := readDescriptor_finds hb
  unfold readParse parse
  cases hp : parseDescriptor b with
  | none =>
    rw [hp] at hfinds
    have hm : readDescriptor b = some none := hfinds
    rw [hm]; rfl
  | some r =>
    obtain ⟨v, rest⟩ := r
    rw [hp] at hfinds
    obtain ⟨data, hm, hrest⟩ : ∃ data, readDescriptor b = some (some (v, data, rest.length)) ∧
      rest = b.drop data := hfinds
    obtain ⟨hpart, hbegin⟩ := parseDescriptor_first hp
    have hne := parseDescriptor_data hp
    have hpbit : b[data]? = some (getByte rest 0) := by
      rw [← List.head?_drop, ← hrest]
      cases rest with
      | nil => exact absurd rfl hne
      | cons e rest => rfl
    have htype : ∀ isFirst, readFrameType b isFirst data =
        some (if (isFirst && getByte rest 0 &&& 0x01 == 0) = true then .key else .delta) := by
      intro isFirst
      unfold readFrameType
      cases isFirst with
      | true => rw [if_pos rfl, hpbit]; rfl
      | false => rfl
    have hslice : slice b data rest.length = rest := by
      rw [slice, ← hrest, List.take_length]
    rw [hm]
    dsimp only [Checked.andThen]
    rw [hpart, hbegin, htype, hslice]
    dsimp only
    rw [hrest, readFrameSize_eq]
    cases parseFrameSize _ (b.drop data) <;> rfl

/-- What `Parse` makes of a packet: the header's fields, with the packet's
partition and start flag, and the octets behind the descriptor. A first
packet of a key frame has to have room for the frame header. -/
theorem parse_write {h : VP8Header} (hok : HeaderOk h) {i : PacketInfo}
    (hix : i.firstPartitionIx ≤ 8) {rest : Bytes} (hrest : rest ≠ []) :
    parse (descriptor h i :: (extension h ++ rest)) =
      let isFirst := i.firstFragment && i.firstPartitionIx == 0
      let frameType := if isFirst && getByte rest 0 &&& 0x01 == 0 then FrameType.key else .delta
      (parseFrameSize frameType rest).map fun s =>
        { payload := rest, frameType
          video := { width := s.1, height := s.2, isFirstPacket := isFirst
                     codec := .vp8 (carried h i) } } := by
  obtain ⟨-, -, hS, hP⟩ := descriptor_bits h (Nat.lt_of_le_of_lt hix (by decide))
  have hget : getByte (descriptor h i :: (extension h ++ rest)) 0 = descriptor h i := rfl
  unfold parse
  rw [hget, hS, hP, parseDescriptor_write hok hix hrest]
  dsimp only
  cases parseFrameSize _ rest <;> rfl

/-- `Parse` turns a packet down only where the first packet of a key frame
has no room for the frame header. -/
theorem parse_write_none {h : VP8Header} (hok : HeaderOk h) {i : PacketInfo}
    (hix : i.firstPartitionIx ≤ 8) {rest : Bytes} (hrest : rest ≠ []) :
    parse (descriptor h i :: (extension h ++ rest)) = none ↔
      i.firstFragment = true ∧ i.firstPartitionIx = 0 ∧ getByte rest 0 &&& 0x01 = 0 ∧
        rest.length < 10 := by
  rw [parse_write hok hix hrest]
  dsimp only
  rw [Option.map_eq_none_iff]
  unfold parseFrameSize
  by_cases hkey : (i.firstFragment && i.firstPartitionIx == 0 && getByte rest 0 &&& 0x01 == 0) = true
  · rw [if_pos hkey, if_neg (by simp)]
    simp only [Bool.and_eq_true, beq_iff_eq] at hkey
    obtain ⟨⟨hs, hp⟩, hbit⟩ := hkey
    split
    · rename_i hlen
      exact ⟨fun _ => ⟨hs, hp, hbit, hlen⟩, fun _ => rfl⟩
    · rename_i hlen
      exact ⟨fun h => by simp at h, fun h => absurd h.2.2.2 hlen⟩
  · rw [if_neg hkey, if_pos (by simp)]
    refine ⟨fun h => by simp at h, fun h => absurd ?_ hkey⟩
    simp [h.1, h.2.1, h.2.2.1]

/-- The descriptor written in front of a packet is as long as it was planned,
and the header's fields and the packet's octets are read back from it; and on
every payload with an octet `Parse` reads inside the payload only, and either
reports an error or delivers. -/
theorem descriptor_roundtrip :
    (∀ (p : Packetizer) (i : PacketInfo), HeaderOk p.hdr → i.firstPartitionIx ≤ 8 →
      1 + payloadDescriptorExtraLength p.hdr + 1 ≤ p.maxPayloadLen →
      slice p.payload i.payloadStartPos i.size ≠ [] →
      ∃ d, writeHeaderAndPayload p i = some (d ++ slice p.payload i.payloadStartPos i.size) ∧
        d.length = 1 + payloadDescriptorExtraLength p.hdr ∧
        parseDescriptor (d ++ slice p.payload i.payloadStartPos i.size) =
          some ({ p.hdr with partitionId := i.firstPartitionIx
                             beginningOfPartition := i.firstFragment },
            slice p.payload i.payloadStartPos i.size) ∧
        (parse (d ++ slice p.payload i.payloadStartPos i.size) = none ↔
          i.firstFragment = true ∧ i.firstPartitionIx = 0 ∧
            getByte (slice p.payload i.payloadStartPos i.size) 0 &&& 0x01 = 0 ∧
            (slice p.payload i.payloadStartPos i.size).length < 10) ∧
        ∀ r, parse (d ++ slice p.payload i.payloadStartPos i.size) = some r →
          r.payload = slice p.payload i.payloadStartPos i.size ∧
          r.video.codec = .vp8 { p.hdr with partitionId := i.firstPartitionIx
                                            beginningOfPartition := i.firstFragment }) ∧
    ∀ b : Bytes, b ≠ [] → readParse b = some (parse b) := by
  refine ⟨fun p i hok hix hroom hne => ?_, fun b hb => readParse_eq hb⟩
  refine ⟨descriptor p.hdr i :: extension p.hdr, writeHeaderAndPayload_eq hroom i, ?_, ?_, ?_, ?_⟩
  · rw [List.length_cons, extension_length, Nat.add_comm]
  · exact parseDescriptor_write hok hix hne
  · exact parse_write_none hok hix hne
  · intro r hr
    rw [List.cons_append, parse_write hok hix hne] at hr
    obtain ⟨s, -, rfl⟩ := Option.map_eq_some_iff.1 hr
    exact ⟨rfl, rfl⟩

/-- All optional fields, with a picture id of two octets. -/
def fullHeader : VP8Header :=
  { nonReference := true, pictureId := 300, tl0PicIdx := 17, temporalIdx := 1, layerSync := true
    keyIdx := 31 }

theorem descriptor_roundtrip_full : HeaderOk fullHeader ∧
    ∃ d : Bytes, d.length = 6 ∧ parseDescriptor (d ++ [1, 2, 3]) =
      some ({ fullHeader with beginningOfPartition := true }, [1, 2, 3]) := by
  have hok : HeaderOk fullHeader :=
    ⟨Or.inr (by decide), Or.inr (by decide), Or.inr (by decide), Or.inr (by decide), by decide⟩
  obtain ⟨d, -, hlen, hparse, -⟩ := descriptor_roundtrip.1
    { hdr := fullHeader, mode := .equalSize, maxPayloadLen := 20, payload := [1, 2, 3]
      parts := [(0, 3)] } ⟨0, 3, true, 0⟩ hok (by decide) (by decide) (by decide)
  exact ⟨hok, d, hlen, hparse⟩

/-- The first octet is read before the length is looked at: with no octet at
all the read is outside. -/
theorem readParse_empty : readParse [] = none := rfl

end RtcCore.L1.Vp8
