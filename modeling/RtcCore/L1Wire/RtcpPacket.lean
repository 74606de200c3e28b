import RtcCore.L1Wire.RtcpParser

/-!
# The RTCP packet builders

`rtcp::SenderReport` to `rtcp::Xr`: what a builder holds, the octets it
creates, and `Build`, which writes a packet and the packets appended to it
into one buffer. A packet that does not fit any more is left out.

The ranges the builders assert, and the bounds beyond which they ignore an
element, are fields of the structures. `Packet.items` says which items stand
for a packet.
-/
namespace RtcCore.L1.Rtcp

open Bytes

/-! ## What the builders hold -/

/-- A vector that takes up to `max` elements. -/
structure Capped (α : Type) (max : Nat) where
  list : List α
  bound : list.length ≤ max

/-- All `With…` methods of elements: one too many is ignored, with a warning. -/
def Capped.push {α : Type} {max : Nat} (v : Capped α max) (a : α) : Capped α max :=
  if h : v.list.length < max then ⟨v.list ++ [a], by rw [List.length_append]; exact h⟩ else v

def kMaxNumberOfReportBlocks : Nat := 0x1f
def kMaxNumberOfIjItems : Nat := 0x1f
def kMaxNumberOfChunks : Nat := 0x1f
def kMaxNumberOfCsrcs : Nat := 0x1f - 1
def kMaxNumberOfTmmbrs : Nat := 50
def kMaxNumberOfSsrcs : Nat := 0xff
def kMaxNumberOfRrtrBlocks : Nat := 50
def kMaxNumberOfDlrrBlocks : Nat := 50
def kMaxNumberOfVoipMetricBlocks : Nat := 50
def kMaxNumberOfDlrrItems : Nat := 100

structure SenderReport where
  sr : SenderInfo
  reportBlocks : Capped ReportBlockItem kMaxNumberOfReportBlocks

structure ReceiverReport where
  senderSSRC : UInt32
  reportBlocks : Capped ReportBlockItem kMaxNumberOfReportBlocks

structure Ij where
  ijItems : Capped UInt32 kMaxNumberOfIjItems

/-- mirrors webrtc/modules/rtp_rtcp/source/rtcp_packet.cc:824-839 -/
structure Chunk where
  ssrc : UInt32
  name : Bytes
  short : name.length ≤ 0xff

def Chunk.nullOctets (c : Chunk) : Nat := 4 - (2 + c.name.length) % 4

structure Sdes where
  chunks : Capped Chunk kMaxNumberOfChunks
  nonempty : chunks.list ≠ []

structure Bye where
  senderSSRC : UInt32
  csrcs : Capped UInt32 kMaxNumberOfCsrcs

structure App where
  ssrc : UInt32
  subType : UInt8
  name : UInt32
  data : Bytes
  subType_le : subType.toNat ≤ 0x1f
  data_le : data.length ≤ Parser.kRtcpAppCode_DATA_SIZE
  data_words : data.length % 4 = 0

structure Pli where
  senderSSRC : UInt32
  mediaSSRC : UInt32

structure Sli where
  senderSSRC : UInt32
  mediaSSRC : UInt32
  firstMB : UInt16
  numberOfMB : UInt16
  pictureId : UInt8
  firstMB_le : firstMB.toNat ≤ 0x1fff
  numberOfMB_le : numberOfMB.toNat ≤ 0x1fff
  pictureId_le : pictureId.toNat ≤ 0x3f

structure Nack where
  senderSSRC : UInt32
  mediaSSRC : UInt32
  nackList : List UInt16
  nonempty : nackList ≠ []

structure Rpsi where
  senderSSRC : UInt32
  mediaSSRC : UInt32
  payloadType : UInt8
  pictureId : UInt64
  payloadType_le : payloadType.toNat ≤ 0x7f

structure Fir where
  senderSSRC : UInt32
  ssrc : UInt32
  commandSequenceNumber : UInt8

structure TmmbrItem where
  ssrc : UInt32
  bitrateKbps : UInt32
  overhead : UInt16
  overhead_le : overhead.toNat ≤ 0x1ff

structure Tmmbr where
  senderSSRC : UInt32
  item : TmmbrItem

structure Tmmbn where
  senderSSRC : UInt32
  items : Capped TmmbrItem kMaxNumberOfTmmbrs

structure Remb where
  senderSSRC : UInt32
  bitRate : UInt32
  ssrcs : Capped UInt32 kMaxNumberOfSsrcs

structure Rrtr where
  ntpMostSignificant : UInt32
  ntpLeastSignificant : UInt32

structure DlrrItem where
  ssrc : UInt32
  lastRR : UInt32
  delayLastRR : UInt32

structure Xr where
  originatorSSRC : UInt32
  rrtrBlocks : Capped Rrtr kMaxNumberOfRrtrBlocks
  dlrrBlocks : Capped (Capped DlrrItem kMaxNumberOfDlrrItems) kMaxNumberOfDlrrBlocks
  voipMetricBlocks : Capped VoipMetricItem kMaxNumberOfVoipMetricBlocks

inductive Packet where
  | empty
  | senderReport (p : SenderReport)
  | receiverReport (p : ReceiverReport)
  | ij (p : Ij)
  | sdes (p : Sdes)
  | bye (p : Bye)
  | app (p : App)
  | pli (p : Pli)
  | sli (p : Sli)
  | nack (p : Nack)
  | rpsi (p : Rpsi)
  | fir (p : Fir)
  | tmmbr (p : Tmmbr)
  | tmmbn (p : Tmmbn)
  | remb (p : Remb)
  | xr (p : Xr)

/-! ## Fields -/

/-- mirrors webrtc/modules/rtp_rtcp/source/rtcp_packet.cc:60-74 -/
def assignUWord8 (v : UInt8) : Bytes := [v]

def assignUWord16 (v : UInt16) : Bytes := be16 v.toNat

def assignUWord24 (v : UInt32) : Bytes := be24 v.toNat

def assignUWord32 (v : UInt32) : Bytes := be32 v.toNat

@[simp] theorem assignUWord8_length (v : UInt8) : (assignUWord8 v).length = 1 := rfl

@[simp] theorem assignUWord16_length (v : UInt16) : (assignUWord16 v).length = 2 := rfl

@[simp] theorem assignUWord24_length (v : UInt32) : (assignUWord24 v).length = 3 := rfl

@[simp] theorem assignUWord32_length (v : UInt32) : (assignUWord32 v).length = 4 := rfl

/-- The shift is one of `uint32_t`: from 2^(32 - bits) times the largest
mantissa on no exponent is found, and it stays 0. (Shifts by 32 and more, which
C++ does not define, are taken modulo 32.)
mirrors webrtc/modules/rtp_rtcp/source/rtcp_packet.cc:76-92 -/
def computeExponent (input : UInt32) (bitsMantissa : Nat) : Nat :=
  let mantissaMax := UInt32.ofNat (2 ^ bitsMantissa - 1)
  ((List.range 64).find? fun i => decide (input ≤ mantissaMax <<< UInt32.ofNat i)).getD 0

/-- mirrors webrtc/modules/rtp_rtcp/source/rtcp_packet.cc:94-99 -/
def blockToHeaderLength (lengthInBytes : Nat) : Nat := lengthInBytes / 4 - 1

/-- mirrors webrtc/modules/rtp_rtcp/source/rtcp_packet.cc:110-120 -/
def createHeader (countOrFormat packetType : UInt8) (length : Nat) : Bytes :=
  [0x80 + countOrFormat, packetType] ++ be16 length

@[simp] theorem createHeader_length (countOrFormat packetType : UInt8) (length : Nat) :
    (createHeader countOrFormat packetType length).length = 4 := rfl

/-! ## Reports -/

/-- mirrors webrtc/modules/rtp_rtcp/source/rtcp_packet.cc:188-201 -/
def createReportBlock (b : ReportBlockItem) : Bytes :=
  assignUWord32 b.ssrc ++ assignUWord8 b.fractionLost ++
    assignUWord24 b.cumulativeNumOfPacketsLost ++ assignUWord32 b.extendedHighestSequenceNumber ++
    assignUWord32 b.jitter ++ assignUWord32 b.lastSR ++ assignUWord32 b.delayLastSR

/-- mirrors webrtc/modules/rtp_rtcp/source/rtcp_packet.h:215-220 -/
def SenderReport.blockLength (p : SenderReport) : Nat := 28 + p.reportBlocks.list.length * 24

/-- mirrors webrtc/modules/rtp_rtcp/source/rtcp_packet.cc:141-152 -/
def SenderReport.block (p : SenderReport) : Bytes :=
  createHeader (UInt8.ofNat p.reportBlocks.list.length) PT_SR (blockToHeaderLength p.blockLength) ++
    (assignUWord32 p.sr.senderSSRC ++ assignUWord32 p.sr.ntpMostSignificant ++
      assignUWord32 p.sr.ntpLeastSignificant ++ assignUWord32 p.sr.rtpTimestamp ++
      assignUWord32 p.sr.senderPacketCount ++ assignUWord32 p.sr.senderOctetCount ++
      p.reportBlocks.list.flatMap createReportBlock)

/-- mirrors webrtc/modules/rtp_rtcp/source/rtcp_packet.h:262-265 -/
def ReceiverReport.blockLength (p : ReceiverReport) : Nat := 8 + p.reportBlocks.list.length * 24

/-- mirrors webrtc/modules/rtp_rtcp/source/rtcp_packet.cc:163-169 -/
def ReceiverReport.block (p : ReceiverReport) : Bytes :=
  createHeader (UInt8.ofNat p.reportBlocks.list.length) PT_RR (blockToHeaderLength p.blockLength) ++
    (assignUWord32 p.senderSSRC ++ p.reportBlocks.list.flatMap createReportBlock)

def Ij.blockLength (p : Ij) : Nat := 4 + 4 * p.ijItems.list.length

/-- The number of items is the count and the length.
mirrors webrtc/modules/rtp_rtcp/source/rtcp_packet.cc:218-227 -/
def Ij.block (p : Ij) : Bytes :=
  createHeader (UInt8.ofNat p.ijItems.list.length) PT_IJ p.ijItems.list.length ++
    p.ijItems.list.flatMap assignUWord32

/-! ## Source descriptions, goodbyes, application packets -/

/-- mirrors webrtc/modules/rtp_rtcp/source/rtcp_packet.cc:261-270 -/
def createChunk (c : Chunk) : Bytes :=
  assignUWord32 c.ssrc ++ assignUWord8 1 ++ assignUWord8 (UInt8.ofNat c.name.length) ++ c.name ++
    List.replicate c.nullOctets 0

/-- mirrors webrtc/modules/rtp_rtcp/source/rtcp_packet.cc:841-852 -/
def Sdes.blockLength (p : Sdes) : Nat :=
  p.chunks.list.foldl (fun length c => length + (6 + c.name.length + c.nullOctets)) 4

/-- mirrors webrtc/modules/rtp_rtcp/source/rtcp_packet.cc:255-271 -/
def Sdes.block (p : Sdes) : Bytes :=
  createHeader (UInt8.ofNat p.chunks.list.length) PT_SDES (blockToHeaderLength p.blockLength) ++
    p.chunks.list.flatMap createChunk

def Bye.blockLength (p : Bye) : Nat := 4 + 4 * (1 + p.csrcs.list.length)

/-- The header's length is the count, too.
mirrors webrtc/modules/rtp_rtcp/source/rtcp_packet.cc:286-297 -/
def Bye.block (p : Bye) : Bytes :=
  createHeader (UInt8.ofNat (blockToHeaderLength p.blockLength)) PT_BYE
      (blockToHeaderLength p.blockLength) ++
    (assignUWord32 p.senderSSRC ++ p.csrcs.list.flatMap assignUWord32)

def App.blockLength (p : App) : Nat := 12 + p.data.length

/-- mirrors webrtc/modules/rtp_rtcp/source/rtcp_packet.cc:313-323 -/
def App.block (p : App) : Bytes :=
  createHeader p.subType PT_APP (blockToHeaderLength p.blockLength) ++
    (assignUWord32 p.ssrc ++ assignUWord32 p.name ++ p.data)

/-! ## Feedback -/

def kCommonFbFmtLength : Nat := 12

def kUnusedMediaSourceSsrc0 : UInt32 := 0

/-- Header and SSRCs of a feedback packet, and the `length` octets behind them. -/
def createFeedback (fmt packetType : UInt8) (length : Nat) (senderSSRC mediaSSRC : UInt32)
    (fci : Bytes) : Bytes :=
  createHeader fmt packetType (blockToHeaderLength (kCommonFbFmtLength + length)) ++
    (assignUWord32 senderSSRC ++ assignUWord32 mediaSSRC ++ fci)

/-- mirrors webrtc/modules/rtp_rtcp/source/rtcp_packet.cc:346-354 -/
def Pli.block (p : Pli) : Bytes := createFeedback 1 PT_PSFB 0 p.senderSSRC p.mediaSSRC []

/-- mirrors webrtc/modules/rtp_rtcp/source/rtcp_packet.cc:366-381 -/
def Sli.block (p : Sli) : Bytes :=
  createFeedback 2 PT_PSFB 4 p.senderSSRC p.mediaSSRC
    (assignUWord8 (p.firstMB >>> 5).toUInt8 ++
      assignUWord8 ((p.firstMB <<< 3).toUInt8 + ((p.numberOfMB >>> 10) &&& 0x07).toUInt8) ++
      assignUWord8 (p.numberOfMB >>> 2).toUInt8 ++
      assignUWord8 ((p.numberOfMB <<< 6).toUInt8 + p.pictureId))

structure NackField where
  packetID : UInt16
  bitMask : UInt16
  deriving DecidableEq, Repr

/-- The inner loop of `WithList`: numbers that follow `pid` within 16. -/
def nackMask (pid : UInt16) : UInt16 → List UInt16 → UInt16 × List UInt16
  | mask, [] => (mask, [])
  | mask, n :: ns =>
    let shift : Int := (n - pid).toNat - 1
    if 0 ≤ shift ∧ shift ≤ 15 then nackMask pid (mask ||| (1 <<< UInt16.ofNat shift.toNat)) ns
    else (mask, n :: ns)

def nackFieldsFuel : Nat → List UInt16 → List NackField
  | 0, _ => []
  | _ + 1, [] => []
  | fuel + 1, pid :: ns =>
    let (bitMask, ns) := nackMask pid 0 ns
    ⟨pid, bitMask⟩ :: nackFieldsFuel fuel ns

/-- mirrors webrtc/modules/rtp_rtcp/source/rtcp_packet.cc:905-927 -/
def Nack.nackFields (p : Nack) : List NackField := nackFieldsFuel p.nackList.length p.nackList

def createNackField (f : NackField) : Bytes := assignUWord16 f.packetID ++ assignUWord16 f.bitMask

/-- mirrors webrtc/modules/rtp_rtcp/source/rtcp_packet.cc:393-407 -/
def Nack.block (p : Nack) : Bytes :=
  createFeedback 1 PT_RTPFB (4 * p.nackFields.length) p.senderSSRC p.mediaSSRC
    (p.nackFields.flatMap createNackField)

/-- The `do` loop of `WithPictureId`. -/
def requiredBytes : Nat → UInt64 → Nat
  | 0, _ => 0
  | fuel + 1, pid =>
    let shifted := (pid >>> 7) &&& 0x1ffffffffffffff
    if 0 < shifted then 1 + requiredBytes fuel shifted else 1

/-- Groups of seven bits, the last one without the flag. -/
def nativeBits (pictureId : UInt64) : Nat → Bytes
  | 0 => []
  | 1 => [(pictureId &&& 0x7f).toUInt8]
  | i + 2 =>
    (0x80 ||| (pictureId >>> UInt64.ofNat ((i + 1) * 7)).toUInt8) :: nativeBits pictureId (i + 1)

/-- mirrors webrtc/modules/rtp_rtcp/source/rtcp_packet.cc:939-964 -/
def Rpsi.nativeBitString (p : Rpsi) : Bytes := nativeBits p.pictureId (requiredBytes 10 p.pictureId)

def Rpsi.paddingBytes (p : Rpsi) : Nat :=
  let padding := 4 - (2 + requiredBytes 10 p.pictureId) % 4
  if padding = 4 then 0 else padding

/-- mirrors webrtc/modules/rtp_rtcp/source/rtcp_packet.cc:421-438 -/
def Rpsi.block (p : Rpsi) : Bytes :=
  createFeedback 3 PT_PSFB (2 + p.nativeBitString.length + p.paddingBytes) p.senderSSRC
      p.mediaSSRC
    (assignUWord8 (UInt8.ofNat (p.paddingBytes * 8)) ++ assignUWord8 p.payloadType ++
      p.nativeBitString ++ List.replicate p.paddingBytes 0)

/-- mirrors webrtc/modules/rtp_rtcp/source/rtcp_packet.cc:452-464 -/
def Fir.block (p : Fir) : Bytes :=
  createFeedback 4 PT_PSFB 8 p.senderSSRC kUnusedMediaSourceSsrc0
    (assignUWord32 p.ssrc ++ assignUWord8 p.commandSequenceNumber ++ assignUWord24 0)

/-- mirrors webrtc/modules/rtp_rtcp/source/rtcp_packet.cc:466-481 -/
def createTmmbrItem (i : TmmbrItem) : Bytes :=
  let bitrateBps := i.bitrateKbps * 1000
  let exp := computeExponent bitrateBps 17
  let mantissa := bitrateBps >>> UInt32.ofNat exp
  assignUWord32 i.ssrc ++
    assignUWord8 ((UInt8.ofNat exp <<< 2) + ((mantissa >>> 15) &&& 0x03).toUInt8) ++
    assignUWord8 (mantissa >>> 7).toUInt8 ++
    assignUWord8 ((mantissa <<< 1).toUInt8 + ((i.overhead >>> 8) &&& 0x01).toUInt8) ++
    assignUWord8 i.overhead.toUInt8

/-- mirrors webrtc/modules/rtp_rtcp/source/rtcp_packet.cc:494-504 -/
def Tmmbr.block (p : Tmmbr) : Bytes :=
  createFeedback 3 PT_RTPFB 8 p.senderSSRC kUnusedMediaSourceSsrc0 (createTmmbrItem p.item)

/-- mirrors webrtc/modules/rtp_rtcp/source/rtcp_packet.cc:518-530 -/
def Tmmbn.block (p : Tmmbn) : Bytes :=
  createFeedback 4 PT_RTPFB (8 * p.items.list.length) p.senderSSRC kUnusedMediaSourceSsrc0
    (p.items.list.flatMap createTmmbrItem)

/-- mirrors webrtc/modules/rtp_rtcp/source/rtcp_packet.cc:551-575 -/
def Remb.block (p : Remb) : Bytes :=
  let exp := computeExponent p.bitRate 18
  let mantissa := p.bitRate >>> UInt32.ofNat exp
  createFeedback 15 PT_PSFB (8 + 4 * p.ssrcs.list.length) p.senderSSRC kUnusedMediaSourceSsrc0
    (([0x52, 0x45, 0x4D, 0x42] : Bytes) ++
      assignUWord8 (UInt8.ofNat p.ssrcs.list.length) ++
      assignUWord8 ((UInt8.ofNat exp <<< 2) + ((mantissa >>> 16) &&& 0x03).toUInt8) ++
      assignUWord8 (mantissa >>> 8).toUInt8 ++
      assignUWord8 mantissa.toUInt8 ++
      p.ssrcs.list.flatMap assignUWord32)

/-! ## Extended reports -/

/-- mirrors webrtc/modules/rtp_rtcp/source/rtcp_packet.cc:599-606 -/
def createXrBlockHeader (blockType : UInt8) (blockLength : Nat) : Bytes :=
  assignUWord8 blockType ++ assignUWord8 0 ++ be16 blockLength

/-- mirrors webrtc/modules/rtp_rtcp/source/rtcp_packet.cc:620-630 -/
def createRrtr (b : Rrtr) : Bytes :=
  createXrBlockHeader Parser.kBtReceiverReferenceTime 2 ++ assignUWord32 b.ntpMostSignificant ++
    assignUWord32 b.ntpLeastSignificant

def createDlrrItem (i : DlrrItem) : Bytes :=
  assignUWord32 i.ssrc ++ assignUWord32 i.lastRR ++ assignUWord32 i.delayLastRR

/-- mirrors webrtc/modules/rtp_rtcp/source/rtcp_packet.cc:649-667 -/
def createDlrr (items : List DlrrItem) : Bytes :=
  if items.isEmpty then []
  else createXrBlockHeader Parser.kBtDlrr (3 * items.length) ++ items.flatMap createDlrrItem

/-- mirrors webrtc/modules/rtp_rtcp/source/rtcp_packet.cc:692-722 -/
def createVoipMetric (m : VoipMetricItem) : Bytes :=
  createXrBlockHeader Parser.kBtVoipMetric 8 ++ assignUWord32 m.ssrc ++ assignUWord8 m.lossRate ++
    assignUWord8 m.discardRate ++ assignUWord8 m.burstDensity ++ assignUWord8 m.gapDensity ++
    assignUWord16 m.burstDuration ++ assignUWord16 m.gapDuration ++
    assignUWord16 m.roundTripDelay ++ assignUWord16 m.endSystemDelay ++
    assignUWord8 m.signalLevel ++ assignUWord8 m.noiseLevel ++ assignUWord8 m.rerl ++
    assignUWord8 m.gmin ++ assignUWord8 m.rfactor ++ assignUWord8 m.extRfactor ++
    assignUWord8 m.mosLQ ++ assignUWord8 m.mosCQ ++ assignUWord8 m.rxConfig ++ assignUWord8 0 ++
    assignUWord16 m.jbNominal ++ assignUWord16 m.jbMax ++ assignUWord16 m.jbAbsMax

/-- mirrors webrtc/modules/rtp_rtcp/source/rtcp_packet.cc:1062-1073 -/
def Xr.dlrrLength (p : Xr) : Nat :=
  p.dlrrBlocks.list.foldl
    (fun length b => if b.list.isEmpty then length else length + (4 + 12 * b.list.length)) 0

/-- mirrors webrtc/modules/rtp_rtcp/source/rtcp_packet.h:910-925 -/
def Xr.blockLength (p : Xr) : Nat :=
  8 + 12 * p.rrtrBlocks.list.length + p.dlrrLength + 36 * p.voipMetricBlocks.list.length

/-- mirrors webrtc/modules/rtp_rtcp/source/rtcp_packet.cc:1023-1033 -/
def Xr.block (p : Xr) : Bytes :=
  createHeader 0 PT_XR (blockToHeaderLength p.blockLength) ++
    (assignUWord32 p.originatorSSRC ++ p.rrtrBlocks.list.flatMap createRrtr ++
      p.dlrrBlocks.list.flatMap (fun b => createDlrr b.list) ++
      p.voipMetricBlocks.list.flatMap createVoipMetric)

/-! ## The items of a packet -/

/-- The largest exponent-and-mantissa value up to `n`, with the exponent that is
the least one for the mantissa. -/
def exponent (bits n : Nat) : Nat :=
  ((List.range 64).find? fun e => decide (n ≤ (2 ^ bits - 1) * 2 ^ e)).getD 0

def roundDown (bits n : Nat) : Nat := n / 2 ^ exponent bits n * 2 ^ exponent bits n

/-- The cumulative number of packets lost has 24 bits. -/
def ReportBlockItem.onWire (b : ReportBlockItem) : ReportBlockItem :=
  { b with cumulativeNumOfPacketsLost := UInt32.ofNat (b.cumulativeNumOfPacketsLost.toNat % 16777216) }

def TmmbrItem.kbps (i : TmmbrItem) : UInt32 :=
  UInt32.ofNat (roundDown 17 (i.bitrateKbps.toNat * 1000) / 1000)

def Chunk.legal (c : Chunk) : Bool := !c.name.any Parser.illegal

def dlrrItems (items : List DlrrItem) : List Item :=
  if items.isEmpty then []
  else .xrDlrrReportBlock ::
    items.map fun i => .xrDlrrReportBlockItem i.ssrc i.lastRR i.delayLastRR

/-- The items a parser delivers for a packet. The parser has no place for the
CSRCs of a goodbye and the SSRC of an application packet, and ends a source
description at the first name it does not accept. -/
def Packet.items : Packet → List Item
  | .empty => []
  | .senderReport p => .sr p.sr p.reportBlocks.list.length ::
      p.reportBlocks.list.map fun b => .reportBlock b.onWire
  | .receiverReport p => .rr p.senderSSRC p.reportBlocks.list.length ::
      p.reportBlocks.list.map fun b => .reportBlock b.onWire
  | .ij p => .extendedIj :: p.ijItems.list.map .extendedIjItem
  | .sdes p => .sdes :: (p.chunks.list.takeWhile Chunk.legal).map fun c => .sdesChunk c.ssrc c.name
  | .bye p => [.bye p.senderSSRC]
  | .app p => .app p.subType p.name :: if p.data.isEmpty then [] else [.appItem p.data]
  | .pli p => [.pli p.senderSSRC p.mediaSSRC]
  | .sli p => [.sli p.senderSSRC p.mediaSSRC, .sliItem p.firstMB p.numberOfMB p.pictureId]
  | .nack p => .nack p.senderSSRC p.mediaSSRC ::
      p.nackFields.map fun f => .nackItem f.packetID f.bitMask
  | .rpsi p => [.rpsi p.senderSSRC p.mediaSSRC,
      .rpsiItem p.payloadType (UInt16.ofNat (8 * p.nativeBitString.length))
        (p.nativeBitString ++ List.replicate p.paddingBytes 0)]
  | .fir p => [.fir p.senderSSRC 0, .firItem p.ssrc p.commandSequenceNumber]
  | .tmmbr p => [.tmmbr p.senderSSRC 0,
      .tmmbrItem p.item.ssrc p.item.kbps p.item.overhead.toUInt32]
  | .tmmbn p => .tmmbn p.senderSSRC 0 ::
      p.items.list.map fun i => .tmmbnItem i.ssrc i.kbps i.overhead.toUInt32
  | .remb p => [.psfbApp p.senderSSRC 0, .remb,
      .rembItem (UInt32.ofNat (roundDown 18 p.bitRate.toNat)) p.ssrcs.list]
  | .xr p => .xrHeader p.originatorSSRC ::
      (p.rrtrBlocks.list.map fun b =>
          .xrReceiverReferenceTime b.ntpMostSignificant b.ntpLeastSignificant) ++
        p.dlrrBlocks.list.flatMap (fun b => dlrrItems b.list) ++
        p.voipMetricBlocks.list.map .xrVoipMetric

/-! ## Building -/

namespace Packet

def blockLength : Packet → Nat
  | .empty => 0
  | .senderReport p => p.blockLength
  | .receiverReport p => p.blockLength
  | .ij p => p.blockLength
  | .sdes p => p.blockLength
  | .bye p => p.blockLength
  | .app p => p.blockLength
  | .pli _ => kCommonFbFmtLength
  | .sli _ => kCommonFbFmtLength + 4
  | .nack p => kCommonFbFmtLength + 4 * p.nackFields.length
  | .rpsi p => kCommonFbFmtLength + (2 + p.nativeBitString.length + p.paddingBytes)
  | .fir _ => kCommonFbFmtLength + 8
  | .tmmbr _ => kCommonFbFmtLength + 8
  | .tmmbn p => kCommonFbFmtLength + 8 * p.items.list.length
  | .remb p => (p.ssrcs.list.length + 5) * 4
  | .xr p => p.blockLength

def block : Packet → Bytes
  | .empty => []
  | .senderReport p => p.block
  | .receiverReport p => p.block
  | .ij p => p.block
  | .sdes p => p.block
  | .bye p => p.block
  | .app p => p.block
  | .pli p => p.block
  | .sli p => p.block
  | .nack p => p.block
  | .rpsi p => p.block
  | .fir p => p.block
  | .tmmbr p => p.block
  | .tmmbn p => p.block
  | .remb p => p.block
  | .xr p => p.block

/-- All `Create` methods; `packet` is what the buffer holds so far.
mirrors webrtc/modules/rtp_rtcp/source/rtcp_packet.cc:754-1033 -/
def create (p : Packet) (maxLength : Nat) (packet : Bytes) : Bytes :=
  if maxLength < packet.length + p.blockLength then packet else packet ++ p.block

end Packet

/-- A packet with the packets appended to it. -/
inductive RtcpPacket where
  | mk (packet : Packet) (appendedPackets : List RtcpPacket)

namespace RtcpPacket

mutual

/-- mirrors webrtc/modules/rtp_rtcp/source/rtcp_packet.cc:744-752 -/
def createAndAddAppended (maxLength : Nat) : RtcpPacket → Bytes → Bytes
  | .mk p appended, packet => addAppended maxLength appended (p.create maxLength packet)

def addAppended (maxLength : Nat) : List RtcpPacket → Bytes → Bytes
  | [], packet => packet
  | p :: ps, packet => addAppended maxLength ps (createAndAddAppended maxLength p packet)

end

def IP_PACKET_SIZE : Nat := 1500

/-- mirrors webrtc/modules/rtp_rtcp/source/rtcp_packet.cc:730-742 -/
def build (p : RtcpPacket) (maxLength : Nat) : Bytes := createAndAddAppended maxLength p []

end RtcpPacket

end RtcCore.L1.Rtcp
