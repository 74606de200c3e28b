import RtcCore.Core.Bytes

/-!
# RTP headers: what the sender writes and the receiver reads

`RTPSender::CreateRtpHeader` with the registered header extensions, the
length `RTPHeaderLength` reserves, and `RtpHeaderParser::Parse`. The loop over
the extension map goes from a type to the next one by looking up the type's
first id, so it is given with fuel and has no value where it does not end.
A read outside of the packet has no value either.
-/
namespace RtcCore.L1

open Bytes

/-! ## The parsed header -/

/-- mirrors webrtc/common_types.h:805-825 -/
structure RTPHeaderExtension where
  hasTransmissionTimeOffset : Bool := false
  transmissionTimeOffset : Int32 := 0
  hasAbsoluteSendTime : Bool := false
  absoluteSendTime : UInt32 := 0
  hasTransportSequenceNumber : Bool := false
  transportSequenceNumber : UInt16 := 0
  hasAudioLevel : Bool := false
  audioLevel : UInt8 := 0
  hasVideoRotation : Bool := false
  videoRotation : UInt8 := 0
  deriving DecidableEq, Repr

/-- mirrors webrtc/common_types.h:827-841 -/
structure RTPHeader where
  markerBit : Bool := false
  payloadType : UInt8 := 0
  sequenceNumber : UInt16 := 0
  timestamp : UInt32 := 0
  ssrc : UInt32 := 0
  numCSRCs : UInt8 := 0
  arrOfCSRCs : List UInt32 := List.replicate 15 0
  paddingLength : Nat := 0
  headerLength : Nat := 0
  payloadTypeFrequency : Int32 := 0
  extension : RTPHeaderExtension := {}
  deriving DecidableEq, Repr

/-! ## The extension map -/

/-- `kRtpExtensionNone` is `none` where a function may return it.
mirrors webrtc/modules/rtp_rtcp/interface/rtp_rtcp_defines.h:77-84 -/
inductive RTPExtensionType where
  | transmissionTimeOffset
  | audioLevel
  | absoluteSendTime
  | videoRotation
  | transportSequenceNumber
  deriving DecidableEq, Repr

/-- mirrors webrtc/modules/rtp_rtcp/source/rtp_header_extension.h:25-57 -/
def RTPExtensionType.length : RTPExtensionType → Nat
  | transmissionTimeOffset => 4
  | audioLevel => 2
  | absoluteSendTime => 4
  | videoRotation => 2
  | transportSequenceNumber => 3

/-- mirrors webrtc/modules/rtp_rtcp/source/rtp_utility.cc:129-134 -/
def word32Align (size : Nat) : Nat := if size % 4 ≠ 0 then size + 4 - size % 4 else size

/-- The `std::map` in the order of its ids.
mirrors webrtc/modules/rtp_rtcp/source/rtp_header_extension.h:63-99 -/
structure RtpHeaderExtensionMap where
  entries : List (UInt8 × RTPExtensionType)
  sorted : entries.Pairwise fun a b => a.1 < b.1
  ids : ∀ e ∈ entries, 1 ≤ e.1 ∧ e.1 ≤ 14

namespace RtpHeaderExtensionMap

variable (m : RtpHeaderExtensionMap)

def empty : RtpHeaderExtensionMap := ⟨[], .nil, fun _ h => nomatch h⟩

/-- Where `std::map` puts a new id. -/
def place (id : UInt8) (type : RTPExtensionType) (l : List (UInt8 × RTPExtensionType)) :
    List (UInt8 × RTPExtensionType) :=
  l.takeWhile (·.1 < id) ++ (id, type) :: l.dropWhile (·.1 < id)

theorem mem_place {id : UInt8} {type : RTPExtensionType} {l : List (UInt8 × RTPExtensionType)}
    {e : UInt8 × RTPExtensionType} (h : e ∈ place id type l) : e = (id, type) ∨ e ∈ l := by
  rw [place, List.mem_append, List.mem_cons] at h
  rcases h with h | h | h
  · exact Or.inr ((List.takeWhile_sublist _).mem h)
  · exact Or.inl h
  · exact Or.inr ((List.dropWhile_sublist _).mem h)

theorem lt_of_mem_dropWhile {id : UInt8} {l : List (UInt8 × RTPExtensionType)}
    (hs : l.Pairwise fun a b => a.1 < b.1) (hne : ∀ e ∈ l, e.1 ≠ id) :
    ∀ e ∈ l.dropWhile (·.1 < id), id < e.1 := by
  induction l with
  | nil => exact fun e he => nomatch he
  | cons x l ih =>
    obtain ⟨hx, hl⟩ := List.pairwise_cons.1 hs
    rw [List.dropWhile_cons]
    split
    · exact ih hl fun e he => hne e (List.mem_cons_of_mem _ he)
    · rename_i hnot
      have hlt : id < x.1 := by
        have h1 := hne x (List.mem_cons_self ..)
        have h2 : ¬ x.1 < id := fun hc => hnot (decide_eq_true hc)
        rw [ne_eq, ← UInt8.toNat_inj] at h1
        rw [UInt8.lt_iff_toNat_lt] at h2 ⊢
        omega
      intro e he
      rcases List.mem_cons.1 he with rfl | he
      · exact hlt
      · exact UInt8.lt_trans hlt (hx e he)

theorem place_sorted {id : UInt8} {type : RTPExtensionType} {l : List (UInt8 × RTPExtensionType)}
    (hs : l.Pairwise fun a b => a.1 < b.1) (hne : ∀ e ∈ l, e.1 ≠ id) :
    (place id type l).Pairwise fun a b => a.1 < b.1 := by
  have hafter := lt_of_mem_dropWhile hs hne
  have hbefore : ∀ e ∈ l.takeWhile (·.1 < id), e.1 < id := fun e he =>
    of_decide_eq_true (List.all_eq_true.1 List.all_takeWhile e he)
  refine List.pairwise_append.2 ⟨hs.sublist (List.takeWhile_sublist _),
    List.pairwise_cons.2 ⟨hafter, hs.sublist (List.dropWhile_sublist _)⟩, fun a ha b hb => ?_⟩
  rcases List.mem_cons.1 hb with rfl | hb
  · exact hbefore a ha
  · exact UInt8.lt_trans (hbefore a ha) (hafter b hb)

/-- `none` is the source's -1.
mirrors webrtc/modules/rtp_rtcp/source/rtp_header_extension.cc:34-53 -/
def register (type : RTPExtensionType) (id : UInt8) : Option RtpHeaderExtensionMap :=
  if hid : 1 ≤ id ∧ id ≤ 14 then
    if hex : ∃ e ∈ m.entries, e.1 = id then
      if (id, type) ∈ m.entries then some m else none
    else some {
      entries := place id type m.entries
      sorted := place_sorted m.sorted fun e he hc => hex ⟨e, he, hc⟩
      ids := fun e he => by
        rcases mem_place he with rfl | he
        · exact hid
        · exact m.ids e he }
  else none

/-- mirrors webrtc/modules/rtp_rtcp/source/rtp_header_extension.cc:69-77 -/
def isRegistered (type : RTPExtensionType) : Bool := m.entries.any (·.2 = type)

/-- mirrors webrtc/modules/rtp_rtcp/source/rtp_header_extension.cc:79-90 -/
def getType (id : UInt8) : Option RTPExtensionType := (m.entries.find? (·.1 = id)).map (·.2)

/-- mirrors webrtc/modules/rtp_rtcp/source/rtp_header_extension.cc:92-107 -/
def getId (type : RTPExtensionType) : Option UInt8 := (m.entries.find? (·.2 = type)).map (·.1)

/-- mirrors webrtc/modules/rtp_rtcp/source/rtp_header_extension.cc:109-126 -/
def getTotalLengthInBytes : Nat :=
  let length := (m.entries.map (·.2.length)).sum
  word32Align (if length > 0 then length + 4 else length)

/-- mirrors webrtc/modules/rtp_rtcp/source/rtp_header_extension.cc:155-163 -/
def first : Option RTPExtensionType := m.entries.head?.map (·.2)

/-- mirrors webrtc/modules/rtp_rtcp/source/rtp_header_extension.cc:165-182 -/
def next (type : RTPExtensionType) : Option RTPExtensionType :=
  match m.getId type with
  | none => none
  | some id => ((m.entries.dropWhile (·.1 ≠ id)).drop 1).head?.map (·.2)

end RtpHeaderExtensionMap

/-! ## The sender -/

inductive VideoRotation where
  | rotation0
  | rotation90
  | rotation180
  | rotation270
  deriving DecidableEq, Repr

/-- mirrors webrtc/modules/rtp_rtcp/interface/rtp_cvo.h:21-34 -/
def convertVideoRotationToCVOByte : VideoRotation → UInt8
  | .rotation0 => 0
  | .rotation90 => 1
  | .rotation180 => 2
  | .rotation270 => 3

/-- What `CreateRtpHeader` reads of the sender, with the ranges its setters
keep.
mirrors webrtc/modules/rtp_rtcp/source/rtp_sender.cc:236-270,1661-1665 -/
structure RTPSender where
  csrcs : List UInt32 := []
  extensionMap : RtpHeaderExtensionMap := .empty
  transmissionTimeOffset : Int32 := 0
  absoluteSendTime : UInt32 := 0
  rotation : VideoRotation := .rotation0
  transportSequenceNumber : UInt16 := 0
  csrcs_le : csrcs.length ≤ 15 := by decide
  offset_lt : -0x800000 < transmissionTimeOffset.toInt ∧
    transmissionTimeOffset.toInt < 0x800000 := by decide
  sendTime_lt : absoluteSendTime.toNat < 0x1000000 := by decide

namespace RTPSender

variable (s : RTPSender)

/-- mirrors webrtc/modules/rtp_rtcp/source/rtp_sender.cc:1061-1067 -/
def rtpHeaderLength : Nat :=
  12 + 4 * s.csrcs.length + s.extensionMap.getTotalLengthInBytes

/-- An element under the id of its type, nothing when it is not registered. -/
def element (type : RTPExtensionType) (len : UInt8) (data : Bytes) : Bytes :=
  match s.extensionMap.getId type with
  | none => []
  | some id => ((id <<< 4) + len) :: data

/-- mirrors webrtc/modules/rtp_rtcp/source/rtp_sender.cc:1234-1268 -/
def buildTransmissionTimeOffsetExtension : Bytes :=
  s.element .transmissionTimeOffset 2 (be24 s.transmissionTimeOffset.toUInt32.toNat)

/-- mirrors webrtc/modules/rtp_rtcp/source/rtp_sender.cc:1270-1296 -/
def buildAudioLevelExtension : Bytes := s.element .audioLevel 0 [0x80]

/-- mirrors webrtc/modules/rtp_rtcp/source/rtp_sender.cc:1298-1330 -/
def buildAbsoluteSendTimeExtension : Bytes :=
  s.element .absoluteSendTime 2 (be24 s.absoluteSendTime.toNat)

/-- mirrors webrtc/modules/rtp_rtcp/source/rtp_sender.cc:1332-1358 -/
def buildVideoRotationExtension : Bytes :=
  s.element .videoRotation 0 [convertVideoRotationToCVOByte s.rotation]

/-- mirrors webrtc/modules/rtp_rtcp/source/rtp_sender.cc:1360-1383 -/
def buildTransportSequenceNumberExtension : Bytes :=
  s.element .transportSequenceNumber 1 (be16 s.transportSequenceNumber.toNat)

/-- One pass of the loop.
mirrors webrtc/modules/rtp_rtcp/source/rtp_sender.cc:1191-1213 -/
def buildBlock (markerBit : Bool) : RTPExtensionType → Bytes
  | .transmissionTimeOffset => s.buildTransmissionTimeOffsetExtension
  | .audioLevel => s.buildAudioLevelExtension
  | .absoluteSendTime => s.buildAbsoluteSendTimeExtension
  | .videoRotation => if markerBit then s.buildVideoRotationExtension else []
  | .transportSequenceNumber => s.buildTransportSequenceNumberExtension

/-- `none`: the loop goes on after `fuel` passes.
mirrors webrtc/modules/rtp_rtcp/source/rtp_sender.cc:1188-1216 -/
def buildBlocks (markerBit : Bool) : Nat → Option RTPExtensionType → Option Bytes
  | _, none => some []
  | 0, some _ => none
  | fuel + 1, some type =>
    (buildBlocks markerBit fuel (s.extensionMap.next type)).map (s.buildBlock markerBit type ++ ·)

/-- mirrors webrtc/modules/rtp_rtcp/source/rtp_sender.cc:1165-1231 -/
def buildRTPHeaderExtension (fuel : Nat) (markerBit : Bool) : Option Bytes :=
  if s.extensionMap.entries.length ≤ 0 then some []
  else
    (s.buildBlocks markerBit fuel s.extensionMap.first).map fun blocks =>
      if blocks.length = 0 then []
      else
        let paddingBytes := word32Align blocks.length - blocks.length
        let body := blocks ++ List.replicate paddingBytes 0
        be16 0xBEDE ++ be16 (body.length / 4) ++ body

/-- mirrors webrtc/modules/rtp_rtcp/source/rtp_sender.cc:1101-1137 -/
def createRtpHeader (fuel : Nat) (payloadType : Int8) (ssrc : UInt32) (markerBit : Bool)
    (timestamp : UInt32) (sequenceNumber : UInt16) : Option Bytes :=
  (s.buildRTPHeaderExtension fuel markerBit).map fun extension =>
    let byte0 : UInt8 := 0x80
    let byte0 := if s.csrcs.length > 0 then (byte0 &&& 0xf0) ||| .ofNat s.csrcs.length else byte0
    let byte0 := if extension.length > 0 then byte0 ||| 0x10 else byte0
    let byte1 := if markerBit then payloadType.toUInt8 ||| 0x80 else payloadType.toUInt8
    [byte0, byte1] ++ be16 sequenceNumber.toNat ++ be32 timestamp.toNat ++ be32 ssrc.toNat ++
      s.csrcs.flatMap (be32 ·.toNat) ++ extension

end RTPSender

/-! ## The parser -/

namespace RtpHeaderParser

variable (b : Bytes)

/-- `ByteReader::ReadBigEndian` of `n` octets. -/
def readBE (off n : Nat) : Option Nat := (readAt b off n).map beValue

/-- `ByteReader<int32_t, 3>`: sign extended.
mirrors webrtc/modules/rtp_rtcp/source/byte_io.h:91-105 -/
def signExtend24 (v : Nat) : Int32 :=
  if 0x800000 ≤ v then .ofInt ((v : Int) - 0x1000000) else .ofInt v

/-- `some none`: the element's length is wrong and the walk ends.
mirrors webrtc/modules/rtp_rtcp/source/rtp_utility.cc:389-483 -/
def parseElement (ptr : Nat) (len : UInt8) (h : RTPHeaderExtension) :
    RTPExtensionType → Option (Option RTPHeaderExtension)
  | .transmissionTimeOffset =>
    if len ≠ 2 then some none
    else (readBE b ptr 3).map fun v => some { h with
      transmissionTimeOffset := signExtend24 v, hasTransmissionTimeOffset := true }
  | .audioLevel =>
    if len ≠ 0 then some none
    else (readBE b ptr 1).map fun v => some { h with audioLevel := .ofNat v, hasAudioLevel := true }
  | .absoluteSendTime =>
    if len ≠ 2 then some none
    else (readBE b ptr 3).map fun v => some { h with
      absoluteSendTime := .ofNat v, hasAbsoluteSendTime := true }
  | .videoRotation =>
    if len ≠ 0 then some none
    else (readBE b ptr 1).map fun v => some { h with
      hasVideoRotation := true, videoRotation := .ofNat v }
  | .transportSequenceNumber =>
    if len ≠ 1 then some none
    else (readBE b ptr 2).map fun v => some { h with
      transportSequenceNumber := .ofNat v, hasTransportSequenceNumber := true }

/-- `left` is `ptrRTPDataExtensionEnd - ptr`.
mirrors webrtc/modules/rtp_rtcp/source/rtp_utility.cc:493-506 -/
def parsePaddingBytes : Nat → Nat → UInt8 → Option UInt8
  | 0, _, numZeroBytes => some numZeroBytes
  | left + 1, ptr, numZeroBytes =>
    match b[ptr]? with
    | none => none
    | some x =>
      if x ≠ 0 then some numZeroBytes else parsePaddingBytes left (ptr + 1) (numZeroBytes + 1)

/-- Every pass moves on by two octets at least, so `fuel` more than the
length of the extension does not run out.
mirrors webrtc/modules/rtp_rtcp/source/rtp_utility.cc:354-491 -/
def parseOneByteExtensionHeader (m : RtpHeaderExtensionMap) (extensionEnd : Nat) :
    Nat → Nat → RTPHeaderExtension → Option RTPHeaderExtension
  | 0, _, h => some h
  | fuel + 1, ptr, h =>
    if extensionEnd ≤ ptr then some h
    else
      match b[ptr]? with
      | none => none
      | some x =>
        let id := (x &&& 0xf0) >>> 4
        let len := x &&& 0x0f
        let next := ptr + 1 + (len.toNat + 1)
        let more (h : RTPHeaderExtension) :=
          match parsePaddingBytes b (extensionEnd - next) next 0 with
          | none => none
          | some numBytes =>
            parseOneByteExtensionHeader m extensionEnd fuel (next + numBytes.toNat) h
        if id = 15 then some h
        else
          match m.getType id with
          -- an unknown extension is skipped
          | none => more h
          | some type =>
            match parseElement b (ptr + 1) len h type with
            | none => none
            | some none => some h
            | some (some h) => more h

/-- The extension block behind the CSRCs, with the header length grown by it.
`ptr` is where it starts.
mirrors webrtc/modules/rtp_rtcp/source/rtp_utility.cc:316-351 -/
def parseExtension (m : Option RtpHeaderExtensionMap) (ptr : Nat) (header : RTPHeader) :
    Option (Bool × RTPHeader) :=
  let remain := b.length - ptr
  if remain < 4 then some (false, header)
  else do
    let header := { header with headerLength := header.headerLength + 4 }
    let definedByProfile ← readBE b ptr 2
    let xLen := 4 * (← readBE b (ptr + 2) 2)
    if remain < 4 + xLen then some (false, header)
    else do
      let extension ←
        match m with
        | none => some header.extension
        | some m =>
          if definedByProfile = 0xBEDE then
            parseOneByteExtensionHeader b m (ptr + 4 + xLen) (xLen + 1) (ptr + 4) header.extension
          else some header.extension
      some (true, { header with
        extension := extension, headerLength := header.headerLength + xLen })

/-- mirrors webrtc/modules/rtp_rtcp/source/rtp_utility.cc:296-300 -/
def readCsrcs : Nat → Nat → Option (List UInt32)
  | 0, _ => some []
  | n + 1, ptr => do
    let csrc ← readBE b ptr 4
    let csrcs ← readCsrcs n (ptr + 4)
    some (.ofNat csrc :: csrcs)

/-- mirrors webrtc/modules/rtp_rtcp/source/rtp_utility.cc:249-352 -/
def parse (m : Option RtpHeaderExtensionMap) (header : RTPHeader) : Option (Bool × RTPHeader) :=
  if b.length < 12 then some (false, header)
  else do
    let byte0 ← (b[0]? : Option UInt8)
    let byte1 ← (b[1]? : Option UInt8)
    let sequenceNumber ← readBE b 2 2
    let timestamp ← readBE b 4 4
    let ssrc ← readBE b 8 4
    let cc := byte0 &&& 0x0f
    if byte0 >>> 6 ≠ 2 then some (false, header)
    else if 12 + 4 * cc.toNat > b.length then some (false, header)
    else do
      let padding ← if byte0 &&& 0x20 = 0 then some 0 else (b[b.length - 1]?).map (·.toNat)
      let csrcs ← readCsrcs b cc.toNat 12
      let header := { header with
        markerBit := byte1 &&& 0x80 != 0
        payloadType := byte1 &&& 0x7f
        sequenceNumber := .ofNat sequenceNumber
        timestamp := .ofNat timestamp
        ssrc := .ofNat ssrc
        numCSRCs := cc
        paddingLength := padding
        arrOfCSRCs := csrcs ++ header.arrOfCSRCs.drop cc.toNat
        headerLength := 12 + 4 * cc.toNat
        -- the transport sequence number is not cleared
        extension := { header.extension with
          hasTransmissionTimeOffset := false, transmissionTimeOffset := 0
          hasAbsoluteSendTime := false, absoluteSendTime := 0
          hasAudioLevel := false, audioLevel := 0
          hasVideoRotation := false, videoRotation := 0 } }
      if byte0 &&& 0x10 = 0 then some (true, header)
      else parseExtension b m (12 + 4 * cc.toNat) header

end RtpHeaderParser

end RtcCore.L1
