import RtcCore.L1Wire.RtpHeaderRoundTrip

/-!
# Header extensions updated in a packet

`FindHeaderExtensionPosition` computes where an element begins from the CSRC
count and the registered extensions with smaller ids. It counts one octet for
a CSRC where four are written, and the rotation also where it was left out.

Results:
- `updateAbsoluteSendTime_eq`, `updateVideoRotation_eq`: these two have bodies of
  their own, which do what the other updates do.
- `update_hits_iff`: an update puts its value where the packet has the extension,
  and it is parsed, exactly when there is no CSRC and no rotation was left out in
  front of it.
-/
namespace RtcCore

namespace Bytes

theorem beValue_singleton (x : UInt8) : beValue [x] = x.toNat := by
  simp [beValue]

/-- `value` in place of what is at `off`. -/
def overwrite (b : Bytes) (off : Nat) (value : Bytes) : Bytes :=
  b.take off ++ value ++ b.drop (off + value.length)

theorem overwrite_append {pre old value rest : Bytes} {off : Nat} (ho : pre.length = off)
    (hl : old.length = value.length) :
    overwrite (pre ++ (old ++ rest)) off value = pre ++ (value ++ rest) := by
  rw [overwrite, List.take_left' ho, ← List.append_assoc pre old, List.drop_left' (by
    rw [List.length_append, ho, hl]), List.append_assoc]

theorem overwrite_inside {b value : Bytes} {off i : Nat} (ho : off ≤ b.length)
    (hi : i < value.length) : (overwrite b off value)[off + i]? = value[i]? := by
  have htake : (b.take off).length = off := List.length_take_of_le ho
  rw [overwrite, List.append_assoc, List.getElem?_append_right (by omega), htake,
    Nat.add_sub_cancel_left, List.getElem?_append_left hi]

theorem overwrite_outside {b value : Bytes} {off i : Nat} (ho : off + value.length ≤ b.length)
    (hi : i < off ∨ off + value.length ≤ i) : (overwrite b off value)[i]? = b[i]? := by
  have htake : (b.take off).length = off := List.length_take_of_le (by omega)
  obtain hi | hi := hi
  · rw [overwrite, List.append_assoc, List.getElem?_append_left (by omega),
      List.getElem?_take_of_lt hi]
  · rw [overwrite, List.getElem?_append_right (by rw [List.length_append]; omega),
      List.length_append, htake, List.getElem?_drop]
    congr 1
    omega

end Bytes

namespace L1

open Bytes

/-! ## The code -/

/-- `none` is the source's -1.
mirrors webrtc/modules/rtp_rtcp/source/rtp_header_extension.cc:128-149 -/
def RtpHeaderExtensionMap.getLengthUntilBlockStartInBytes (m : RtpHeaderExtensionMap)
    (type : RTPExtensionType) : Option Nat :=
  (m.getId type).map fun _ =>
    4 + ((m.entries.takeWhile fun e => e.2 ≠ type).map (·.2.length)).sum

namespace RTPSender

variable (s : RTPSender) (rtpPacket : Bytes) (rtpHeader : RTPHeader)

/-- mirrors webrtc/modules/rtp_rtcp/source/rtp_sender.cc:1385-1420 -/
def findHeaderExtensionPosition (type : RTPExtensionType) : Option Nat :=
  match s.extensionMap.getLengthUntilBlockStartInBytes type with
  | none => none
  | some extensionBlockPos =>
    let blockPos := 12 + rtpHeader.numCSRCs.toNat + extensionBlockPos
    if rtpPacket.length < blockPos + type.length ∨
        rtpHeader.headerLength < blockPos + type.length then none
    else if rtpPacket[12 + rtpHeader.numCSRCs.toNat]? = some 0xBE ∧
        rtpPacket[12 + rtpHeader.numCSRCs.toNat + 1]? = some 0xDE then some blockPos
    else none

/-- What the updates have in common: the position, the check of the element's first octet, and
the value behind it. -/
def updateValue (type : RTPExtensionType) (len : UInt8) (value : Bytes) : Bool × Bytes :=
  match s.extensionMap.getId type with
  | none => (false, rtpPacket)
  | some id =>
    match s.findHeaderExtensionPosition rtpPacket rtpHeader type with
    | none => (false, rtpPacket)
    | some blockPos =>
      if rtpPacket[blockPos]? ≠ some ((id <<< 4) + len) then (false, rtpPacket)
      else (true, overwrite rtpPacket (blockPos + 1) value)

/-- mirrors webrtc/modules/rtp_rtcp/source/rtp_sender.cc:1422-1452 -/
def updateTransmissionTimeOffset (timeDiffMs : Int64) : Bytes :=
  (s.updateValue rtpPacket rtpHeader .transmissionTimeOffset 2
    (be24 (timeDiffMs * 90).toInt32.toUInt32.toNat)).2

/-- mirrors webrtc/modules/rtp_rtcp/source/rtp_sender.cc:1454-1483 -/
def updateAudioLevel (isVoiced : Bool) (dBov : UInt8) : Bool × Bytes :=
  s.updateValue rtpPacket rtpHeader .audioLevel 0
    [(if isVoiced then 0x80 else 0x00) + (dBov &&& 0x7f)]

/-- The position is asked for twice.
mirrors webrtc/modules/rtp_rtcp/source/rtp_sender.cc:1485-1521 -/
def updateVideoRotation (rotation : VideoRotation) : Bool × Bytes :=
  match s.extensionMap.getId .videoRotation with
  | none => (false, rtpPacket)
  | some id =>
    match s.findHeaderExtensionPosition rtpPacket rtpHeader .videoRotation with
    | none => (false, rtpPacket)
    | some blockPos =>
      match s.extensionMap.getLengthUntilBlockStartInBytes .videoRotation with
      | none => (false, rtpPacket)
      | some _ =>
        if rtpPacket[blockPos]? ≠ some ((id <<< 4) + 0) then (false, rtpPacket)
        else (true, overwrite rtpPacket (blockPos + 1) [convertVideoRotationToCVOByte rotation])

/-- The position is computed here again.
mirrors webrtc/modules/rtp_rtcp/source/rtp_sender.cc:1523-1568 -/
def updateAbsoluteSendTime (nowMs : Int64) : Bytes :=
  match s.extensionMap.getId .absoluteSendTime with
  | none => rtpPacket
  | some id =>
    match s.extensionMap.getLengthUntilBlockStartInBytes .absoluteSendTime with
    | none => rtpPacket
    | some extensionBlockPos =>
      let blockPos := 12 + rtpHeader.numCSRCs.toNat + extensionBlockPos
      if rtpPacket.length < blockPos + 4 ∨ rtpHeader.headerLength < blockPos + 4 then rtpPacket
      else if ¬ (rtpPacket[12 + rtpHeader.numCSRCs.toNat]? = some 0xBE ∧
          rtpPacket[12 + rtpHeader.numCSRCs.toNat + 1]? = some 0xDE) then rtpPacket
      else if rtpPacket[blockPos]? ≠ some ((id <<< 4) + 2) then rtpPacket
      else overwrite rtpPacket (blockPos + 1)
        (be24 (((nowMs <<< 18) / 1000) &&& 0x00ffffff).toInt32.toUInt32.toNat)

theorem updateVideoRotation_eq (rotation : VideoRotation) :
    s.updateVideoRotation rtpPacket rtpHeader rotation =
      s.updateValue rtpPacket rtpHeader .videoRotation 0
        [convertVideoRotationToCVOByte rotation] := by
  rw [updateVideoRotation, updateValue]
  cases hid : s.extensionMap.getId .videoRotation with
  | none => rfl
  | some id =>
    rw [RtpHeaderExtensionMap.getLengthUntilBlockStartInBytes, hid]
    rfl

theorem updateAbsoluteSendTime_eq (nowMs : Int64) :
    s.updateAbsoluteSendTime rtpPacket rtpHeader nowMs =
      (s.updateValue rtpPacket rtpHeader .absoluteSendTime 2
        (be24 (((nowMs <<< 18) / 1000) &&& 0x00ffffff).toInt32.toUInt32.toNat)).2 := by
  rw [updateAbsoluteSendTime, updateValue, findHeaderExtensionPosition]
  cases hid : s.extensionMap.getId .absoluteSendTime with
  | none => rfl
  | some id =>
    rw [RtpHeaderExtensionMap.getLengthUntilBlockStartInBytes, hid, Option.map_some]
    dsimp only
    rw [show RTPExtensionType.absoluteSendTime.length = 4 from rfl]
    split
    · rfl
    · by_cases hmark : rtpPacket[12 + rtpHeader.numCSRCs.toNat]? = some 0xBE ∧
          rtpPacket[12 + rtpHeader.numCSRCs.toNat + 1]? = some 0xDE
      · rw [if_neg (Decidable.not_not.2 hmark), if_pos hmark]
        dsimp only
        split
        · rfl
        · rfl
      · rw [if_pos hmark, if_neg hmark]

end RTPSender

/-! ## An update and its value -/

inductive HeaderUpdate where
  | transmissionTimeOffset (timeDiffMs : Int64)
  | absoluteSendTime (nowMs : Int64)
  | audioLevel (isVoiced : Bool) (dBov : UInt8)
  | videoRotation (rotation : VideoRotation)
  deriving DecidableEq, Repr

namespace HeaderUpdate

def type : HeaderUpdate → RTPExtensionType
  | transmissionTimeOffset _ => .transmissionTimeOffset
  | absoluteSendTime _ => .absoluteSendTime
  | audioLevel _ _ => .audioLevel
  | videoRotation _ => .videoRotation

/-- The octets of the new value. -/
def value : HeaderUpdate → Bytes
  | transmissionTimeOffset timeDiffMs => be24 (timeDiffMs * 90).toInt32.toUInt32.toNat
  | absoluteSendTime nowMs => be24 (((nowMs <<< 18) / 1000) &&& 0x00ffffff).toInt32.toUInt32.toNat
  | audioLevel isVoiced dBov => [(if isVoiced then 0x80 else 0x00) + (dBov &&& 0x7f)]
  | videoRotation rotation => [convertVideoRotationToCVOByte rotation]

/-- The header with the new value: 90 kHz ticks in 24 bits with a sign, seconds in 24 bits with
18 after the point, the level behind the voice flag, the rotation. -/
def keep (h : RTPHeaderExtension) : HeaderUpdate → RTPHeaderExtension
  | transmissionTimeOffset timeDiffMs => { h with
      transmissionTimeOffset :=
        RtpHeaderParser.signExtend24 ((timeDiffMs * 90).toInt32.toUInt32.toNat % 16777216)
      hasTransmissionTimeOffset := true }
  | absoluteSendTime nowMs => { h with
      absoluteSendTime :=
        .ofNat ((((nowMs <<< 18) / 1000) &&& 0x00ffffff).toInt32.toUInt32.toNat % 16777216)
      hasAbsoluteSendTime := true }
  | audioLevel isVoiced dBov => { h with
      audioLevel := (if isVoiced then 0x80 else 0x00) + (dBov &&& 0x7f), hasAudioLevel := true }
  | videoRotation rotation => { h with
      videoRotation := convertVideoRotationToCVOByte rotation, hasVideoRotation := true }

/-- The packet after the call. -/
def run (s : RTPSender) (rtpPacket : Bytes) (rtpHeader : RTPHeader) : HeaderUpdate → Bytes
  | transmissionTimeOffset timeDiffMs =>
    s.updateTransmissionTimeOffset rtpPacket rtpHeader timeDiffMs
  | absoluteSendTime nowMs => s.updateAbsoluteSendTime rtpPacket rtpHeader nowMs
  | audioLevel isVoiced dBov => (s.updateAudioLevel rtpPacket rtpHeader isVoiced dBov).2
  | videoRotation rotation => (s.updateVideoRotation rtpPacket rtpHeader rotation).2

theorem run_eq (u : HeaderUpdate) (s : RTPSender) (rtpPacket : Bytes) (rtpHeader : RTPHeader) :
    u.run s rtpPacket rtpHeader =
      (s.updateValue rtpPacket rtpHeader u.type (RTPSender.nibble u.type) u.value).2 := by
  cases u with
  | transmissionTimeOffset timeDiffMs => rfl
  | absoluteSendTime nowMs => exact s.updateAbsoluteSendTime_eq rtpPacket rtpHeader nowMs
  | audioLevel isVoiced dBov => rfl
  | videoRotation rotation =>
    exact congrArg Prod.snd (s.updateVideoRotation_eq rtpPacket rtpHeader rotation)

theorem value_length (u : HeaderUpdate) :
    (RTPSender.nibble u.type).toNat + 1 = u.value.length := by
  cases u <;> rfl

/-- The values of the packet with the update's own. -/
def data (u : HeaderUpdate) (s : RTPSender) (type : RTPExtensionType) : Bytes :=
  if type = u.type then u.value else s.data type

/-- What an element sets then. -/
def marked (u : HeaderUpdate) (s : RTPSender) (h : RTPHeaderExtension) (type : RTPExtensionType) :
    RTPHeaderExtension :=
  if type = u.type then u.keep h else RtpHeaderParser.mark s h type

end HeaderUpdate

namespace RtpHeaderParser

open RTPSender

/-- The parser reads the new value. -/
theorem parseElement_value (u : HeaderUpdate) {pre post : Bytes} {ptr : Nat}
    (hp : pre.length = ptr) (h : RTPHeaderExtension) :
    parseElement (pre ++ (u.value ++ post)) ptr (nibble u.type) h u.type =
      some (some (u.keep h)) := by
  have hread : readBE (pre ++ (u.value ++ post)) ptr u.value.length = some (beValue u.value) :=
    readBE_mid hp rfl
  cases u with
  | transmissionTimeOffset timeDiffMs =>
    rw [HeaderUpdate.type, parseElement, if_neg (by decide), show readBE _ ptr 3 = _ from hread]
    simp only [HeaderUpdate.value, beValue_be24, Option.map_some, HeaderUpdate.keep]
  | absoluteSendTime nowMs =>
    rw [HeaderUpdate.type, parseElement, if_neg (by decide), show readBE _ ptr 3 = _ from hread]
    simp only [HeaderUpdate.value, beValue_be24, Option.map_some, HeaderUpdate.keep]
  | audioLevel isVoiced dBov =>
    rw [HeaderUpdate.type, parseElement, if_neg (by decide), show readBE _ ptr 1 = _ from hread]
    simp only [HeaderUpdate.value, beValue_singleton, Option.map_some, HeaderUpdate.keep,
      UInt8.ofNat_toNat]
  | videoRotation rotation =>
    rw [HeaderUpdate.type, parseElement, if_neg (by decide), show readBE _ ptr 1 = _ from hread]
    simp only [HeaderUpdate.value, beValue_singleton, Option.map_some, HeaderUpdate.keep,
      UInt8.ofNat_toNat]

theorem reads_update (u : HeaderUpdate) (s : RTPSender) : Reads (u.data s) (u.marked s) where
  length type := by
    rw [HeaderUpdate.data]
    split
    · rename_i h
      rw [h, u.value_length]
    · exact s.nibble_toNat type
  parse hp h type := by
    rw [HeaderUpdate.data, HeaderUpdate.marked]
    split
    · rename_i ht
      rw [ht]
      exact parseElement_value u hp h
    · exact parseElement_data hp h type

theorem mark_keep {u : HeaderUpdate} {type : RTPExtensionType} (hne : type ≠ u.type)
    (s : RTPSender) (h : RTPHeaderExtension) : mark s (u.keep h) type = u.keep (mark s h type) := by
  cases u <;> cases type <;> first | rfl | exact absurd rfl hne

theorem keep_mark (u : HeaderUpdate) (s : RTPSender) (h : RTPHeaderExtension) :
    u.keep (mark s h u.type) = u.keep h := by
  cases u <;> rfl

/-- With one element of the type, the new value is what the update sets over the old header. -/
theorem foldl_marked {u : HeaderUpdate} (s : RTPSender) {a b : List (UInt8 × RTPExtensionType)}
    {e : UInt8 × RTPExtensionType} (he : e.2 = u.type) (ha : ∀ x ∈ a, x.2 ≠ u.type)
    (hb : ∀ x ∈ b, x.2 ≠ u.type) (h : RTPHeaderExtension) :
    (a ++ e :: b).foldl (fun h e => u.marked s h e.2) h =
      u.keep ((a ++ e :: b).foldl (fun h e => mark s h e.2) h) := by
  have hother : ∀ {l : List (UInt8 × RTPExtensionType)} (_ : ∀ x ∈ l, x.2 ≠ u.type) (h),
      l.foldl (fun h e => u.marked s h e.2) h = l.foldl (fun h e => mark s h e.2) h := by
    intro l hl
    induction l with
    | nil => exact fun h => rfl
    | cons x l ih =>
      intro h
      rw [List.foldl_cons, List.foldl_cons, HeaderUpdate.marked,
        if_neg (hl x (List.mem_cons_self ..)), ih fun y hy => hl y (List.mem_cons_of_mem _ hy)]
  have hkeep : ∀ {l : List (UInt8 × RTPExtensionType)} (_ : ∀ x ∈ l, x.2 ≠ u.type) (h),
      l.foldl (fun h e => mark s h e.2) (u.keep h) =
        u.keep (l.foldl (fun h e => mark s h e.2) h) := by
    intro l hl
    induction l with
    | nil => exact fun h => rfl
    | cons x l ih =>
      intro h
      rw [List.foldl_cons, List.foldl_cons, mark_keep (hl x (List.mem_cons_self ..)),
        ih fun y hy => hl y (List.mem_cons_of_mem _ hy)]
  rw [List.foldl_append, List.foldl_append, List.foldl_cons, List.foldl_cons, hother ha,
    hother hb, HeaderUpdate.marked, if_pos he, he, ← hkeep hb, keep_mark]

end RtpHeaderParser

/-! ## The header without the map -/

namespace RtpHeaderParser

/-- Without the map the elements are skipped, with the same length. -/
theorem parseExtension_none {b : Bytes} {m : RtpHeaderExtensionMap} {ptr : Nat}
    {header h : RTPHeader} (hp : parseExtension b (some m) ptr header = some (true, h)) :
    parseExtension b none ptr header = some (true, { h with extension := header.extension }) := by
  rw [parseExtension] at hp ⊢
  dsimp only at hp ⊢
  split at hp
  · cases hp
  · rename_i h4
    rw [if_neg h4]
    obtain ⟨profile, h1, hp⟩ := Option.bind_eq_some_iff.1 hp
    obtain ⟨xLen, h2, hp⟩ := Option.bind_eq_some_iff.1 hp
    simp only [h1, h2, Option.bind_eq_bind, Option.bind_some]
    split at hp
    · cases hp
    · rename_i hx
      rw [if_neg hx]
      split at hp
      · obtain ⟨extension, -, hp⟩ := Option.bind_eq_some_iff.1 hp
        cases hp
        rfl
      · cases hp
        rfl

theorem extension_none {b : Bytes} {m : RtpHeaderExtensionMap} {ptr : Nat} {c : Prop} [Decidable c]
    {header h : RTPHeader}
    (hp : (if c then some (true, header) else parseExtension b (some m) ptr header) =
      some (true, h)) :
    ∃ h', (if c then some (true, header) else parseExtension b none ptr header) =
        some (true, h') ∧
      h'.numCSRCs = h.numCSRCs ∧ h'.headerLength = h.headerLength := by
  split at hp
  · rename_i hc
    cases hp
    exact ⟨_, if_pos hc, rfl, rfl⟩
  · rename_i hc
    rw [if_neg hc]
    exact ⟨_, parseExtension_none hp, rfl, rfl⟩

/-- The callers parse without the map: the same CSRC count and length. -/
theorem parse_none {b : Bytes} {m : RtpHeaderExtensionMap} {h : RTPHeader}
    (hp : parse b (some m) {} = some (true, h)) :
    ∃ h', parse b none {} = some (true, h') ∧ h'.numCSRCs = h.numCSRCs ∧
      h'.headerLength = h.headerLength := by
  rw [parse] at hp ⊢
  dsimp only at hp ⊢
  split at hp
  · cases hp
  · rename_i h12
    rw [if_neg h12]
    obtain ⟨byte0, h0, hp⟩ := Option.bind_eq_some_iff.1 hp
    obtain ⟨byte1, h1, hp⟩ := Option.bind_eq_some_iff.1 hp
    obtain ⟨sequenceNumber, hseq, hp⟩ := Option.bind_eq_some_iff.1 hp
    obtain ⟨timestamp, hts, hp⟩ := Option.bind_eq_some_iff.1 hp
    obtain ⟨ssrc, hssrc, hp⟩ := Option.bind_eq_some_iff.1 hp
    simp only [h0, h1, hseq, hts, hssrc, Option.bind_eq_bind, Option.bind_some]
    split at hp
    · cases hp
    · rename_i hv
      rw [if_neg hv]
      split at hp
      · cases hp
      · rename_i hcc
        rw [if_neg hcc]
        -- the padding octet is read where the bit is set
        split at hp
        · rename_i hpad
          obtain ⟨padding, hlast, hp⟩ := Option.bind_eq_some_iff.1 hp
          obtain ⟨csrcs, hcsrcs, hp⟩ := Option.bind_eq_some_iff.1 hp
          cases hlast
          rw [if_pos hpad]
          simp only [hcsrcs, Option.bind_some]
          exact extension_none hp
        · rename_i hpad
          obtain ⟨padding, hlast, hp⟩ := Option.bind_eq_some_iff.1 hp
          obtain ⟨csrcs, hcsrcs, hp⟩ := Option.bind_eq_some_iff.1 hp
          rw [if_neg hpad, hlast]
          simp only [hcsrcs, Option.bind_some]
          exact extension_none hp

end RtpHeaderParser

/-! ## Where the value stands -/

namespace RTPSender

open RtpHeaderParser

variable {s : RTPSender} {markerBit : Bool} {type : RTPExtensionType} {id : UInt8}
  {a b : List (UInt8 × RTPExtensionType)}

/-- The type's entry, and none of the type around it. -/
structure Entry (s : RTPSender) (type : RTPExtensionType) (id : UInt8)
    (a b : List (UInt8 × RTPExtensionType)) : Prop where
  entries : s.extensionMap.entries = a ++ (id, type) :: b
  before : ∀ e ∈ a, e.2 ≠ type
  behind : ∀ e ∈ b, e.2 ≠ type

theorem exists_entry (hnd : (s.extensionMap.entries.map (·.2)).Nodup)
    (h : s.extensionMap.isRegistered type = true) : ∃ id a b, Entry s type id a b := by
  obtain ⟨e, he, htype⟩ := List.any_eq_true.1 h
  obtain ⟨a, b, hentries⟩ := List.append_of_mem he
  obtain ⟨id, t⟩ := e
  obtain rfl : t = type := of_decide_eq_true htype
  rw [hentries, List.map_append, List.map_cons] at hnd
  obtain ⟨-, hb, hdisj⟩ := List.nodup_append.1 hnd
  refine ⟨id, a, b, hentries, fun e he hc => ?_, fun e he hc => ?_⟩
  · exact hdisj e.2 (List.mem_map_of_mem he) t (List.mem_cons_self ..) hc
  · exact (List.nodup_cons.1 hb).1 (List.mem_map.2 ⟨e, he, hc⟩)

/-- The first octet of the type's value, in the header. -/
def valueStart (s : RTPSender) (markerBit : Bool) (type : RTPExtensionType) : Nat :=
  12 + 4 * s.csrcs.length + 4 +
    (((s.extensionMap.entries.takeWhile fun e => e.2 ≠ type).filter
      (carries markerBit ·.2)).map (·.2.length)).sum + 1

theorem Entry.takeWhile (h : Entry s type id a b) :
    s.extensionMap.entries.takeWhile (fun e => e.2 ≠ type) = a := by
  rw [h.entries, List.takeWhile_append_of_pos fun e he => decide_eq_true (h.before e he),
    List.takeWhile_cons, if_neg (by simp), List.append_nil]

theorem Entry.filter (h : Entry s type id a b) (hc : carries markerBit type = true) :
    s.extensionMap.entries.filter (carries markerBit ·.2) =
      a.filter (carries markerBit ·.2) ++ (id, type) :: b.filter (carries markerBit ·.2) := by
  rw [h.entries, List.filter_append, List.filter_cons, if_pos hc]

/-- The header up to the type's value, the value, and the rest. -/
theorem headerWith_split (h : Entry s type id a b) (hc : carries markerBit type = true)
    (payloadType : Int8) (ssrc : UInt32) (timestamp : UInt32) (sequenceNumber : UInt16) :
    ∃ front size rest : Bytes, front.length = 12 + 4 * s.csrcs.length ∧ size.length = 2 ∧
      ∀ {data : RTPExtensionType → Bytes}
        {keep : RTPHeaderExtension → RTPExtensionType → RTPHeaderExtension}, Reads data keep →
        (∀ t, t ≠ type → data t = s.data t) →
        s.headerWith data payloadType ssrc markerBit timestamp sequenceNumber =
          front ++ (be16 0xBEDE ++ (size ++ ((a.filter (carries markerBit ·.2)).flatMap
            (elementWith s.data) ++ ([(id <<< 4) + nibble type] ++ (data type ++ rest))))) := by
  have hfilter := h.filter hc
  have hpos : s.carriedLength markerBit ≠ 0 := by
    rw [carriedLength, hfilter, List.map_append, List.sum_append, List.map_cons, List.sum_cons]
    have : 1 ≤ type.length := by cases type <;> decide
    dsimp only
    omega
  obtain ⟨k, hk⟩ : ∃ k, k = word32Align (s.carriedLength markerBit) - s.carriedLength markerBit :=
    ⟨_, rfl⟩
  refine ⟨[((if s.csrcs.length > 0 then (0x80 &&& 0xf0) ||| .ofNat s.csrcs.length else 0x80) |||
      0x10), byte1 payloadType markerBit] ++ be16 sequenceNumber.toNat ++ be32 timestamp.toNat ++
      be32 ssrc.toNat ++ s.csrcs.flatMap (be32 ·.toNat),
    be16 ((s.carriedLength markerBit + k) / 4),
    (b.filter (carries markerBit ·.2)).flatMap (elementWith s.data) ++ List.replicate k 0,
    ?_, be16_length _, ?_⟩
  · simp only [List.length_append, csrcs_length]
    rfl
  · intro data keep hr hdata
    have hblock := blockWith_eq hr hpos hk
    have hnonempty : (s.blockWith data markerBit).length > 0 := by
      rw [hblock, List.length_append, be16_length]
      omega
    have hsame : ∀ l : List (UInt8 × RTPExtensionType), (∀ e ∈ l, e.2 ≠ type) →
        (l.filter (carries markerBit ·.2)).flatMap (elementWith data) =
          (l.filter (carries markerBit ·.2)).flatMap (elementWith s.data) := by
      intro l hl
      rw [List.flatMap_def, List.flatMap_def]
      congr 1
      refine List.map_congr_left fun e he => ?_
      rw [elementWith, elementWith, hdata _ (hl e (List.mem_filter.1 he).1)]
    unfold headerWith
    dsimp only
    rw [if_pos hnonempty, hblock, hfilter, List.flatMap_append, List.flatMap_cons, hsame a h.before,
      hsame b h.behind, elementWith]
    simp only [List.append_assoc, List.cons_append, List.nil_append]

/-! ## Where the sender looks for it -/

theorem Entry.getId (h : Entry s type id a b) : s.extensionMap.getId type = some id :=
  RtpHeaderExtensionMap.getId_mid h.entries h.before

/-- All registered elements with smaller ids are counted. -/
theorem Entry.blockStart (h : Entry s type id a b) :
    s.extensionMap.getLengthUntilBlockStartInBytes type = some (4 + (a.map (·.2.length)).sum) := by
  rw [RtpHeaderExtensionMap.getLengthUntilBlockStartInBytes, h.getId, Option.map_some, h.takeWhile]

/-- The update looks at this offset. -/
def blockPos (rtpHeader : RTPHeader) (a : List (UInt8 × RTPExtensionType)) : Nat :=
  12 + rtpHeader.numCSRCs.toNat + (4 + (a.map (·.2.length)).sum)

theorem Entry.run_eq (h : Entry s type id a b) (rtpPacket : Bytes) (rtpHeader : RTPHeader)
    {u : HeaderUpdate} (hu : u.type = type) :
    u.run s rtpPacket rtpHeader =
      if rtpPacket.length < blockPos rtpHeader a + type.length ∨
          rtpHeader.headerLength < blockPos rtpHeader a + type.length then rtpPacket
      else if rtpPacket[12 + rtpHeader.numCSRCs.toNat]? = some 0xBE ∧
          rtpPacket[12 + rtpHeader.numCSRCs.toNat + 1]? = some 0xDE then
        if rtpPacket[blockPos rtpHeader a]? ≠ some ((id <<< 4) + nibble type) then rtpPacket
        else overwrite rtpPacket (blockPos rtpHeader a + 1) u.value
      else rtpPacket := by
  subst hu
  rw [u.run_eq, updateValue, h.getId, findHeaderExtensionPosition, h.blockStart]
  dsimp only
  rw [← blockPos]
  by_cases hlen : rtpPacket.length < blockPos rtpHeader a + u.type.length ∨
      rtpHeader.headerLength < blockPos rtpHeader a + u.type.length
  · rw [if_pos hlen, if_pos hlen]
  · rw [if_neg hlen, if_neg hlen]
    by_cases hmark : rtpPacket[12 + rtpHeader.numCSRCs.toNat]? = some 0xBE ∧
        rtpPacket[12 + rtpHeader.numCSRCs.toNat + 1]? = some 0xDE
    · rw [if_pos hmark, if_pos hmark]
      dsimp only
      split
      · rfl
      · rfl
    · rw [if_neg hmark, if_neg hmark]

/-- Either every update of the type leaves the packet as it is, or every one writes there. -/
theorem run_cases (h : Entry s type id a b) (rtpPacket : Bytes) (rtpHeader : RTPHeader) :
    (∀ u : HeaderUpdate, u.type = type → u.run s rtpPacket rtpHeader = rtpPacket) ∨
    blockPos rtpHeader a + type.length ≤ rtpPacket.length ∧
      ∀ u : HeaderUpdate, u.type = type →
        u.run s rtpPacket rtpHeader =
          overwrite rtpPacket (blockPos rtpHeader a + 1) u.value := by
  have hrun := fun (u : HeaderUpdate) (hu : u.type = type) => h.run_eq rtpPacket rtpHeader hu
  by_cases hlen : rtpPacket.length < blockPos rtpHeader a + type.length ∨
      rtpHeader.headerLength < blockPos rtpHeader a + type.length
  · exact .inl fun u hu => by rw [hrun u hu, if_pos hlen]
  · by_cases hmark : rtpPacket[12 + rtpHeader.numCSRCs.toNat]? = some 0xBE ∧
        rtpPacket[12 + rtpHeader.numCSRCs.toNat + 1]? = some 0xDE
    · by_cases hfirst : rtpPacket[blockPos rtpHeader a]? ≠ some ((id <<< 4) + nibble type)
      · exact .inl fun u hu => by rw [hrun u hu, if_neg hlen, if_pos hmark, if_pos hfirst]
      · exact .inr ⟨by omega, fun u hu => by
          rw [hrun u hu, if_neg hlen, if_pos hmark, if_neg hfirst]⟩
    · exact .inl fun u hu => by rw [hrun u hu, if_neg hlen, if_neg hmark]

/-- Every type has two values with other octets at both ends. -/
theorem exists_values (h : type ≠ .transportSequenceNumber) :
    ∃ u v : HeaderUpdate, u.type = type ∧ v.type = type ∧
      u.value[0]? ≠ v.value[0]? ∧ u.value[type.length - 2]? ≠ v.value[type.length - 2]? := by
  cases type with
  | transmissionTimeOffset =>
    refine ⟨.transmissionTimeOffset 0, .transmissionTimeOffset 1000, rfl, rfl, ?_, ?_⟩ <;> decide
  | audioLevel =>
    exact ⟨.audioLevel false 0, .audioLevel false 1, rfl, rfl, by decide, by decide⟩
  | absoluteSendTime =>
    exact ⟨.absoluteSendTime 0, .absoluteSendTime 251, rfl, rfl, by decide, by decide⟩
  | videoRotation =>
    exact ⟨.videoRotation .rotation0, .videoRotation .rotation90, rfl, rfl, by decide, by decide⟩
  | transportSequenceNumber => exact absurd rfl h

/-- A value that is always found where it belongs was written there. -/
theorem blockPos_of_hits (h : Entry s type id a b) (htype : type ≠ .transportSequenceNumber)
    {rtpPacket : Bytes} {rtpHeader : RTPHeader} {start : Nat}
    (hstart : start + (type.length - 1) ≤ rtpPacket.length)
    (hhits : ∀ u : HeaderUpdate, u.type = type →
      u.run s rtpPacket rtpHeader = overwrite rtpPacket start u.value) :
    blockPos rtpHeader a + 1 = start := by
  obtain ⟨u, v, hu, hv, hfirst, hlast⟩ := exists_values htype
  have hsize : ∀ w : HeaderUpdate, w.type = type → w.value.length + 1 = type.length := by
    rintro w rfl
    rw [← w.value_length, ← RTPSender.data_length s, ← s.nibble_toNat]
  have hat : ∀ i, i < type.length - 1 → (∀ w : HeaderUpdate, w.type = type →
      (w.run s rtpPacket rtpHeader)[start + i]? = rtpPacket[start + i]?) →
      u.value[i]? = v.value[i]? := by
    intro i hi hsame
    have hin : ∀ w : HeaderUpdate, w.type = type →
        w.value[i]? = rtpPacket[start + i]? := fun w hw => by
      have := hsize w hw
      rw [← hsame w hw, hhits w hw, overwrite_inside (by omega) (by omega)]
    rw [hin u hu, hin v hv]
  have hlen := hsize u hu
  have hpos : 2 ≤ type.length := by cases type <;> decide
  obtain hno | ⟨hroom, hyes⟩ := run_cases h rtpPacket rtpHeader
  · -- nothing was written
    exact absurd (hat 0 (by omega) fun w hw => by rw [hno w hw]) hfirst
  · obtain hlt | heq | hgt := Nat.lt_trichotomy (blockPos rtpHeader a + 1) start
    · -- the last octet of the value is behind what was written
      refine absurd (hat (type.length - 2) (by omega) fun w hw => ?_) hlast
      have := hsize w hw
      rw [hyes w hw, overwrite_outside (by omega) (by omega)]
    · exact heq
    · -- the first octet of the value is in front of it
      refine absurd (hat 0 (by omega) fun w hw => ?_) hfirst
      have := hsize w hw
      rw [hyes w hw, overwrite_outside (by omega) (by omega)]

/-! ## The updates that hit -/

/-- The new value stands where the old one did, the rest of the packet is as it was, and the
parser finds the new value in a header that is otherwise the same. -/
structure Hits (s : RTPSender) (markerBit : Bool) (packet : Bytes) (rtpHeader : RTPHeader)
    (u : HeaderUpdate) : Prop where
  octets : ∃ pre rest : Bytes, pre.length = s.valueStart markerBit u.type ∧
    packet = pre ++ (s.data u.type ++ rest) ∧
    u.run s packet rtpHeader = pre ++ (u.value ++ rest)
  parsed : ∃ h, parse packet (some s.extensionMap) {} = some (true, h) ∧
    parse (u.run s packet rtpHeader) (some s.extensionMap) {} =
      some (true, { h with extension := u.keep h.extension })

/-- Only the rotation is left out, so the lengths agree where none is. -/
theorem carried_sum_iff (markerBit : Bool) (l : List (UInt8 × RTPExtensionType)) :
    ((l.filter (carries markerBit ·.2)).map (·.2.length)).sum = (l.map (·.2.length)).sum ↔
      ∀ e ∈ l, carries markerBit e.2 = true := by
  induction l with
  | nil => simp
  | cons e l ih =>
    have hle : ((l.filter (carries markerBit ·.2)).map (·.2.length)).sum ≤
        (l.map (·.2.length)).sum := by
      clear ih
      induction l with
      | nil => exact Nat.le_refl _
      | cons x l ih =>
        rw [List.filter_cons]
        split
        · rw [List.map_cons, List.map_cons, List.sum_cons, List.sum_cons]
          omega
        · rw [List.map_cons, List.sum_cons]
          omega
    have hpos : 2 ≤ e.2.length := by cases e.2 <;> decide
    rw [List.forall_mem_cons, List.filter_cons]
    by_cases hc : carries markerBit e.2 = true
    · rw [if_pos hc, List.map_cons, List.map_cons, List.sum_cons, List.sum_cons,
        Nat.add_left_cancel_iff, ih]
      exact ⟨fun h => ⟨hc, h⟩, And.right⟩
    · rw [if_neg hc, List.map_cons, List.sum_cons]
      exact ⟨fun h => by omega, fun h => absurd h.1 hc⟩

theorem carried_sum_le (markerBit : Bool) {l : List (UInt8 × RTPExtensionType)}
    (h : (l.map (·.2)).Nodup) :
    (l.map (·.2.length)).sum ≤
      ((l.filter (carries markerBit ·.2)).map (·.2.length)).sum + 2 := by
  cases markerBit with
  | true =>
    rw [List.filter_eq_self.2 fun e _ => by rw [carries, Bool.or_true]]
    exact Nat.le_add_right ..
  | false =>
    have hfilter : l.filter (carries false ·.2) = l.filter (·.2 ≠ .videoRotation) :=
      List.filter_congr fun e _ => by
        rw [carries, Bool.or_false, Bool.eq_iff_iff, bne_iff_ne, decide_eq_true_eq]
    rw [hfilter, sum_split h]
    split <;> omega

/-- A rotation under a smaller id is left out of the packet. -/
theorem Entry.omitted_iff (h : Entry s type id a b) (hc : carries markerBit type = true) :
    ((a.filter (carries markerBit ·.2)).map (·.2.length)).sum = (a.map (·.2.length)).sum ↔
      markerBit = true ∨ ∀ r t, s.extensionMap.getId .videoRotation = some r →
        s.extensionMap.getId type = some t → ¬ r < t := by
  have hsorted := s.extensionMap.sorted
  rw [h.entries, List.pairwise_append] at hsorted
  obtain ⟨-, hbehind, hbefore⟩ := hsorted
  rw [carried_sum_iff]
  cases markerBit with
  | true => simp [carries]
  | false =>
    have htype : type ≠ .videoRotation := by
      rintro rfl
      cases hc
    have hgetId : s.extensionMap.getId .videoRotation =
        ((a ++ (id, type) :: b).find? (·.2 = .videoRotation)).map (·.1) := by
      rw [RtpHeaderExtensionMap.getId, h.entries]
    simp only [carries, Bool.or_false, bne_iff_ne, Bool.false_eq_true, false_or, h.getId, hgetId]
    constructor
    · intro hnone r t hr ht hlt
      cases ht
      obtain ⟨e, he, rfl⟩ := Option.map_eq_some_iff.1 hr
      have hrot : e.2 = .videoRotation := by simpa using List.find?_some he
      obtain ha | hm := List.mem_append.1 (List.mem_of_find?_eq_some he)
      · exact hnone e ha hrot
      · obtain rfl | hb := List.mem_cons.1 hm
        · exact htype hrot
        · exact UInt8.lt_asymm hlt ((List.pairwise_cons.1 hbehind).1 e hb)
    · intro hall e he hrot
      obtain ⟨x, hx⟩ := Option.isSome_iff_exists.1 (List.find?_isSome.2
        ⟨e, he, decide_eq_true hrot⟩ : (a.find? (·.2 = .videoRotation)).isSome = true)
      refine hall x.1 id ?_ rfl (hbefore x (List.mem_of_find?_eq_some hx) _ (List.mem_cons_self ..))
      rw [List.find?_append, hx]
      rfl

/-- The packet with its own value and with another one. -/
theorem Entry.packet_split (h : Entry s type id a b) (hc : carries markerBit type = true)
    (payloadType : Int8) (ssrc timestamp : UInt32) (sequenceNumber : UInt16) (payload : Bytes) :
    ∃ pre rest : Bytes, pre.length = s.valueStart markerBit type ∧
      s.headerWith s.data payloadType ssrc markerBit timestamp sequenceNumber ++ payload =
        pre ++ (s.data type ++ rest) ∧
      ∀ u : HeaderUpdate, u.type = type →
        s.headerWith (u.data s) payloadType ssrc markerBit timestamp sequenceNumber ++ payload =
          pre ++ (u.value ++ rest) := by
  obtain ⟨front, size, rest, hfront, hsize, hsplit⟩ :=
    headerWith_split h hc payloadType ssrc timestamp sequenceNumber
  refine ⟨front ++ (be16 0xBEDE ++ (size ++ ((a.filter (carries markerBit ·.2)).flatMap
    (elementWith s.data) ++ [(id <<< 4) + nibble type]))), rest ++ payload, ?_, ?_, fun u hu => ?_⟩
  · simp only [List.length_append, be16_length, hfront, hsize, elements_length (reads_data s),
      valueStart, h.takeWhile, List.length_singleton]
    omega
  · rw [hsplit (reads_data s) fun _ _ => rfl]
    simp only [List.append_assoc]
  · have hupdate := hsplit (reads_update u s) fun t ht => by
      rw [HeaderUpdate.data, hu, if_neg ht]
    rw [show u.data s type = u.value from if_pos hu.symm] at hupdate
    rw [hupdate]
    simp only [List.append_assoc]

theorem Entry.valueStart_le (h : Entry s type id a b) (hc : carries markerBit type = true)
    (payloadType : Int8) (ssrc timestamp : UInt32) (sequenceNumber : UInt16) :
    s.valueStart markerBit type + (type.length - 1) ≤
      (s.headerWith s.data payloadType ssrc markerBit timestamp sequenceNumber).length := by
  obtain ⟨pre, rest, hpre, hpacket, -⟩ :=
    h.packet_split hc payloadType ssrc timestamp sequenceNumber []
  have hvalue := s.data_length type
  rw [List.append_nil] at hpacket
  rw [hpacket, List.length_append, List.length_append, hpre]
  omega

/-- The header that is parsed then. -/
theorem Entry.parse_update (h : Entry s type id a b) (hc : carries markerBit type = true)
    (payloadType : Int8) (ssrc timestamp : UInt32) (sequenceNumber : UInt16) (payload : Bytes)
    {u : HeaderUpdate} (hu : u.type = type) :
    ∃ header, parse (s.headerWith s.data payloadType ssrc markerBit timestamp sequenceNumber ++
        payload) (some s.extensionMap) {} = some (true, header) ∧
      header.numCSRCs.toNat = s.csrcs.length ∧ header.headerLength =
        (s.headerWith s.data payloadType ssrc markerBit timestamp sequenceNumber).length ∧
      parse (s.headerWith (u.data s) payloadType ssrc markerBit timestamp sequenceNumber ++
        payload) (some s.extensionMap) {} =
          some (true, { header with extension := u.keep header.extension }) := by
  refine ⟨_, parse_headerWith s (reads_data s) payloadType ssrc markerBit timestamp sequenceNumber
    payload, ?_, ?_, ?_⟩
  · rw [UInt8.toNat_ofNat', Nat.mod_eq_of_lt]
    have := s.csrcs_le
    omega
  · rw [headerWith_length, blockWith_data]
  · have hkeep := foldl_marked s (e := (id, type)) (u := u)
      (a := a.filter (carries markerBit ·.2)) (b := b.filter (carries markerBit ·.2)) hu.symm
      (fun x hx => hu ▸ h.before x (List.mem_filter.1 hx).1)
      (fun x hx => hu ▸ h.behind x (List.mem_filter.1 hx).1) {}
    rw [parse_headerWith s (reads_update u s), h.filter hc, hkeep]

/-- The update hits where the offset that is looked at is the one of the element. -/
theorem Entry.hits_of_blockPos (h : Entry s type id a b) (hc : carries markerBit type = true)
    {payloadType : Int8} {ssrc timestamp : UInt32} {sequenceNumber : UInt16} {payload : Bytes}
    {rtpHeader : RTPHeader} (hcsrcs : s.csrcs = []) (hcount : rtpHeader.numCSRCs.toNat = 0)
    (hlength : rtpHeader.headerLength =
      (s.headerWith s.data payloadType ssrc markerBit timestamp sequenceNumber).length)
    (hpos : blockPos rtpHeader a + 1 = s.valueStart markerBit type) {u : HeaderUpdate}
    (hu : u.type = type) :
    Hits s markerBit
      (s.headerWith s.data payloadType ssrc markerBit timestamp sequenceNumber ++ payload)
      rtpHeader u := by
  obtain ⟨front, size, rest, hfront, hsize, hsplit⟩ :=
    headerWith_split h hc payloadType ssrc timestamp sequenceNumber
  have hdata := hsplit (reads_data s) fun _ _ => rfl
  rw [hcsrcs] at hfront
  have hfront : front.length = 12 := hfront
  -- the octets that the update looks at
  have hbede : (s.headerWith s.data payloadType ssrc markerBit timestamp sequenceNumber ++
      payload)[12]? = some 0xBE ∧
      (s.headerWith s.data payloadType ssrc markerBit timestamp sequenceNumber ++
      payload)[12 + 1]? = some 0xDE := by
    rw [hdata, List.append_assoc]
    constructor
    · rw [List.getElem?_append_right (by omega), hfront]
      rfl
    · rw [List.getElem?_append_right (by omega), hfront]
      rfl
  have hfirst : (s.headerWith s.data payloadType ssrc markerBit timestamp sequenceNumber ++
      payload)[blockPos rtpHeader a]? = some ((id <<< 4) + nibble type) := by
    have hpre : (front ++ (be16 0xBEDE ++ (size ++ (a.filter (carries markerBit ·.2)).flatMap
        (elementWith s.data)))).length = blockPos rtpHeader a := by
      rw [valueStart, hcsrcs, h.takeWhile] at hpos
      simp only [List.length_append, be16_length, hfront, hsize, elements_length (reads_data s)]
      simp only [List.length_nil] at hpos
      omega
    have hsame : s.headerWith s.data payloadType ssrc markerBit timestamp sequenceNumber ++
        payload = front ++ (be16 0xBEDE ++ (size ++ (a.filter (carries markerBit ·.2)).flatMap
          (elementWith s.data))) ++ (((id <<< 4) + nibble type) :: (s.data type ++
            (rest ++ payload))) := by
      rw [hdata]
      simp only [List.append_assoc, List.cons_append, List.nil_append]
    rw [hsame, List.getElem?_append_right (by omega), hpre, Nat.sub_self]
    rfl
  have hend := h.valueStart_le hc payloadType ssrc timestamp sequenceNumber
  obtain ⟨pre, rest, hpre, hpacket, hupdate⟩ :=
    h.packet_split hc payloadType ssrc timestamp sequenceNumber payload
  have hrun : u.run s (s.headerWith s.data payloadType ssrc markerBit timestamp sequenceNumber ++
      payload) rtpHeader = pre ++ (u.value ++ rest) := by
    rw [h.run_eq _ _ hu, if_neg (by rw [List.length_append]; omega), hcount, if_pos hbede,
      if_neg (Decidable.not_not.2 hfirst), hpos, hpacket, overwrite_append hpre]
    rw [← s.nibble_toNat, ← hu, u.value_length]
  obtain ⟨header, hparse, -, -, hparse'⟩ :=
    h.parse_update hc payloadType ssrc timestamp sequenceNumber payload hu
  rw [hupdate u hu, ← hrun] at hparse'
  subst hu
  exact ⟨⟨pre, rest, hpre, hpacket, hrun⟩, header, hparse, hparse'⟩

/-- Whatever is registered, and whatever the packet says otherwise: all updates of an extension
that the packet has hit it exactly when the packet has no CSRC and no rotation was left out of it
under a smaller id. -/
theorem update_hits_iff (s : RTPSender) {payloadType : Int8} {ssrc : UInt32} {markerBit : Bool}
    {timestamp : UInt32} {sequenceNumber : UInt16} {fuel : Nat} {header : Bytes}
    (hcreate : s.createRtpHeader fuel payloadType ssrc markerBit timestamp sequenceNumber =
      some header) (payload : Bytes) {rtpHeader : RTPHeader}
    (hheader : parse (header ++ payload) none {} = some (true, rtpHeader))
    {type : RTPExtensionType} (htype : type ≠ .transportSequenceNumber)
    (hregistered : s.extensionMap.isRegistered type = true)
    (hcarried : carries markerBit type = true) :
    (∀ u : HeaderUpdate, u.type = type → Hits s markerBit (header ++ payload) rtpHeader u) ↔
      s.csrcs = [] ∧ (markerBit = true ∨
        ∀ r t, s.extensionMap.getId .videoRotation = some r →
          s.extensionMap.getId type = some t → ¬ r < t) := by
  obtain ⟨ext, hext, -⟩ := Option.map_eq_some_iff.1 hcreate
  obtain ⟨hnd, rfl⟩ := (s.buildRTPHeaderExtension_iff markerBit ext).1 ⟨fuel, hext⟩
  obtain rfl := Option.some.inj (hcreate.symm.trans (s.createRtpHeader_eq hext))
  obtain ⟨id, a, b, h⟩ := exists_entry hnd hregistered
  obtain ⟨u, -, hu, -⟩ := exists_values htype
  obtain ⟨parsed, hparse, hcount, hlength, -⟩ :=
    h.parse_update hcarried payloadType ssrc timestamp sequenceNumber payload hu
  obtain ⟨header', hnone, hcount', hlength'⟩ := parse_none hparse
  obtain rfl : header' = rtpHeader := (Prod.mk.inj (Option.some.inj (hnone.symm.trans hheader))).2
  rw [← hcount'] at hcount
  rw [← hlength'] at hlength
  have hend : s.valueStart markerBit type + (type.length - 1) ≤
      (s.headerWith s.data payloadType ssrc markerBit timestamp sequenceNumber ++
        payload).length := by
    have hle := h.valueStart_le hcarried payloadType ssrc timestamp sequenceNumber
    rw [List.length_append]
    omega
  have hiff : blockPos header' a + 1 = s.valueStart markerBit type ↔ s.csrcs = [] ∧
      ((a.filter (carries markerBit ·.2)).map (·.2.length)).sum = (a.map (·.2.length)).sum := by
    -- at most one rotation is left out, which does not make up for three octets a CSRC
    rw [h.entries, List.map_append] at hnd
    have hle := carried_sum_le markerBit (List.nodup_append.1 hnd).1
    rw [blockPos, valueStart, h.takeWhile, hcount, ← List.length_eq_zero_iff]
    omega
  rw [← h.omitted_iff hcarried, ← hiff]
  constructor
  · intro hhits
    refine blockPos_of_hits h htype hend fun u hu => ?_
    obtain ⟨pre, rest, hpre, hpacket, hrun⟩ := (hhits u hu).octets
    subst hu
    rw [hrun, hpacket, overwrite_append hpre]
    rw [← s.nibble_toNat, u.value_length]
  · intro hpos u hu
    have hcsrcs := (hiff.1 hpos).1
    exact h.hits_of_blockPos hcarried hcsrcs (by rw [hcount, hcsrcs]; rfl) hlength hpos hu

/-- The offset under id 1 and the send time under id 3. -/
def timed : RTPSender where
  extensionMap := ⟨[(1, .transmissionTimeOffset), (3, .absoluteSendTime)], by decide, by decide⟩
  offset_lt := rotating.offset_lt
  sendTime_lt := rotating.sendTime_lt

/-- Its header, up to the elements and with them. -/
def timedHeader : Bytes :=
  [0x90, 96, 0, 17, 0, 1, 0x5f, 0x90, 0, 0, 0x12, 0x34] ++
    [0xBE, 0xDE, 0, 2, 0x12, 0, 0, 0, 0x32, 0, 0, 0]

def timedParsed : RTPHeader where
  payloadType := 96
  sequenceNumber := 17
  timestamp := 90000
  ssrc := 0x1234
  headerLength := 24

theorem update_hits_iff_timed :
    Hits timed false (timedHeader ++ [1, 2, 3]) timedParsed (.absoluteSendTime 1000) := by
  have hcreate : timed.createRtpHeader 2 96 0x1234 false 90000 17 = some timedHeader := by decide
  have hparse : parse (timedHeader ++ [1, 2, 3]) none {} = some (true, timedParsed) := by decide
  refine (update_hits_iff timed hcreate [1, 2, 3] hparse (by decide) (by decide) (by decide)).2
    ⟨rfl, .inr fun r t hr => ?_⟩ _ rfl
  cases hr

/-- The same with a CSRC in front. -/
def mixed : RTPSender where
  csrcs := [7]
  extensionMap := timed.extensionMap
  offset_lt := timed.offset_lt
  sendTime_lt := timed.sendTime_lt

def mixedHeader : Bytes :=
  [0x91, 96, 0, 17, 0, 1, 0x5f, 0x90, 0, 0, 0x12, 0x34, 0, 0, 0, 7] ++
    [0xBE, 0xDE, 0, 2, 0x12, 0, 0, 0, 0x32, 0, 0, 0]

def mixedParsed : RTPHeader :=
  { timedParsed with numCSRCs := 1, arrOfCSRCs := 7 :: List.replicate 14 0, headerLength := 28 }

/-- The offset is looked for three octets too early, and not found. -/
theorem update_with_csrc :
    mixed.createRtpHeader 2 96 0x1234 false 90000 17 = some mixedHeader ∧
    parse (mixedHeader ++ [1, 2, 3]) none {} = some (true, mixedParsed) ∧
    (HeaderUpdate.transmissionTimeOffset 1000).run mixed (mixedHeader ++ [1, 2, 3]) mixedParsed =
      mixedHeader ++ [1, 2, 3] ∧
    ¬ Hits mixed false (mixedHeader ++ [1, 2, 3]) mixedParsed (.transmissionTimeOffset 1000) := by
  have hstays : (HeaderUpdate.transmissionTimeOffset 1000).run mixed (mixedHeader ++ [1, 2, 3])
      mixedParsed = mixedHeader ++ [1, 2, 3] := by decide
  refine ⟨by decide, by decide, hstays, fun h => ?_⟩
  obtain ⟨pre, rest, -, hpacket, hrun⟩ := h.octets
  -- the packet stays the same, so the old value would be the new one
  rw [hstays, hpacket] at hrun
  exact absurd (List.append_cancel_right (List.append_cancel_left hrun)) (by decide)

end RTPSender

end L1

end RtcCore
