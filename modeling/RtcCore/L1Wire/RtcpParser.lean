import RtcCore.Core.Bytes

/-!
# `RTCPParserV2`

The parser keeps one pointer into the packet, the end of the current block
and a state that says what comes next. `Iterate` delivers one item per call;
an item parser that finds nothing ends its block and iterates again.

Pointers are offsets. A read outside the packet has no value (`none`), so a
call that returns has read inside the packet only. Three fields observe the
run: where the current block starts, the octets read since it was entered
and the blocks entered so far. A loop that did not end would run out of fuel
and have no value either.
-/
namespace RtcCore.L1.Rtcp

open Bytes

/-! ## Items -/

/-- mirrors webrtc/modules/rtp_rtcp/source/rtcp_utility.h:69-79 -/
structure ReportBlockItem where
  ssrc : UInt32 := 0
  fractionLost : UInt8 := 0
  cumulativeNumOfPacketsLost : UInt32 := 0
  extendedHighestSequenceNumber : UInt32 := 0
  jitter : UInt32 := 0
  lastSR : UInt32 := 0
  delayLastSR : UInt32 := 0
  deriving DecidableEq, Repr

/-- mirrors webrtc/modules/rtp_rtcp/source/rtcp_utility.h:56-67 -/
structure SenderInfo where
  senderSSRC : UInt32 := 0
  ntpMostSignificant : UInt32 := 0
  ntpLeastSignificant : UInt32 := 0
  rtpTimestamp : UInt32 := 0
  senderPacketCount : UInt32 := 0
  senderOctetCount : UInt32 := 0
  deriving DecidableEq, Repr

/-- mirrors webrtc/modules/rtp_rtcp/source/rtcp_utility.h:113-138 -/
structure VoipMetricItem where
  ssrc : UInt32 := 0
  lossRate : UInt8 := 0
  discardRate : UInt8 := 0
  burstDensity : UInt8 := 0
  gapDensity : UInt8 := 0
  burstDuration : UInt16 := 0
  gapDuration : UInt16 := 0
  roundTripDelay : UInt16 := 0
  endSystemDelay : UInt16 := 0
  signalLevel : UInt8 := 0
  noiseLevel : UInt8 := 0
  rerl : UInt8 := 0
  gmin : UInt8 := 0
  rfactor : UInt8 := 0
  extRfactor : UInt8 := 0
  mosLQ : UInt8 := 0
  mosCQ : UInt8 := 0
  rxConfig : UInt8 := 0
  jbNominal : UInt16 := 0
  jbMax : UInt16 := 0
  jbAbsMax : UInt16 := 0
  deriving DecidableEq, Repr

/-- A packet type with the fields its item carries. `RPSI` has its code twice,
for the SSRCs and for the bit string.
mirrors webrtc/modules/rtp_rtcp/source/rtcp_utility.h:241-331 -/
inductive Item where
  | rr (senderSSRC : UInt32) (numberOfReportBlocks : Nat)
  | sr (info : SenderInfo) (numberOfReportBlocks : Nat)
  | reportBlock (b : ReportBlockItem)
  | sdes
  | sdesChunk (senderSSRC : UInt32) (cname : Bytes)
  | bye (senderSSRC : UInt32)
  | extendedIj
  | extendedIjItem (jitter : UInt32)
  | nack (senderSSRC mediaSSRC : UInt32)
  | nackItem (packetID bitMask : UInt16)
  | pli (senderSSRC mediaSSRC : UInt32)
  | rpsi (senderSSRC mediaSSRC : UInt32)
  | rpsiItem (payloadType : UInt8) (numberOfValidBits : UInt16) (nativeBitString : Bytes)
  | sli (senderSSRC mediaSSRC : UInt32)
  | sliItem (firstMB numberOfMB : UInt16) (pictureId : UInt8)
  | psfbApp (senderSSRC mediaSSRC : UInt32)
  | remb
  | rembItem (bitRate : UInt32) (ssrcs : List UInt32)
  | tmmbr (senderSSRC mediaSSRC : UInt32)
  | tmmbrItem (ssrc maxTotalMediaBitRate measuredOverhead : UInt32)
  | tmmbn (senderSSRC mediaSSRC : UInt32)
  | tmmbnItem (ssrc maxTotalMediaBitRate measuredOverhead : UInt32)
  | fir (senderSSRC mediaSSRC : UInt32)
  | firItem (ssrc : UInt32) (commandSequenceNumber : UInt8)
  | srReq
  | xrHeader (originatorSSRC : UInt32)
  | xrReceiverReferenceTime (ntpMostSignificant ntpLeastSignificant : UInt32)
  | xrDlrrReportBlock
  | xrDlrrReportBlockItem (ssrc lastRR delayLastRR : UInt32)
  | xrVoipMetric (m : VoipMetricItem)
  | app (subType : UInt8) (name : UInt32)
  | appItem (data : Bytes)
  deriving DecidableEq, Repr

/-- mirrors webrtc/modules/rtp_rtcp/source/rtcp_utility.h:400-418 -/
inductive ParseState where
  | topLevel | reportBlockItem | sdesChunk | byeItem | extendedJitterItem | nackItem | tmmbrItem
  | tmmbnItem | sliItem | rpsiItem | firItem | psfbAppItem | psfbRembItem | xrItem | xrDlrrItem
  | appItem
  deriving DecidableEq, Repr

/-! ## The common header -/

def PT_IJ : UInt8 := 195
def PT_SR : UInt8 := 200
def PT_RR : UInt8 := 201
def PT_SDES : UInt8 := 202
def PT_BYE : UInt8 := 203
def PT_APP : UInt8 := 204
def PT_RTPFB : UInt8 := 205
def PT_PSFB : UInt8 := 206
def PT_XR : UInt8 := 207

structure CommonHeader where
  ic : Nat
  pt : UInt8
  lengthInOctets : Nat
  deriving DecidableEq, Repr

/-- `LengthInOctets` is a `uint16_t`.
mirrors webrtc/modules/rtp_rtcp/source/rtcp_utility.cc:461-503 -/
def parseCommonHeader (data : Bytes) (off : Nat) : Option CommonHeader :=
  match slice data off 4 with
  | [b₀, b₁, b₂, b₃] =>
    let lengthInOctets := (b₂.toNat * 256 + b₃.toNat + 1) * 4 % 65536
    if lengthInOctets = 0 then none
    else if b₀.toNat / 64 ≠ 2 then none
    else some { ic := b₀.toNat % 32, pt := b₁, lengthInOctets }
  | _ => none

/-! ## The parser's state -/

structure Parser where
  data : Bytes
  validPacket : Bool
  ptr : Nat := 0
  blockEnd : Nat := 0
  state : ParseState := .topLevel
  numberOfBlocks : Nat := 0
  /-- `_packetType` and `_packet`; `none` is `kRtcpNotValidCode`. -/
  packet : Option Item := none
  /-- Where the current block starts. -/
  blockStart : Nat := 0
  /-- The octets read since the current block was entered. -/
  reads : List Nat := []
  /-- The blocks entered, with their lengths, last one first. -/
  visited : List (Nat × Nat) := []

namespace Parser

/-- mirrors webrtc/modules/rtp_rtcp/source/rtcp_utility.cc:58-72, 411-447 -/
def new (data : Bytes) (reducedSizeEnable : Bool) : Parser where
  data := data
  validPacket :=
    match parseCommonHeader data 0 with
    | none => false
    | some h => reducedSizeEnable || h.pt == PT_SR || h.pt == PT_RR

/-- `_ptrRTCPBlockEnd - _ptrRTCPData`; every use compares it from below, or
after it was found to be positive. -/
def length (p : Parser) : Nat := p.blockEnd - p.ptr

def skip (p : Parser) (n : Nat) : Parser := { p with ptr := p.ptr + n }

/-- `n` octets read at the pointer, which moves behind them. -/
def advance (p : Parser) (n : Nat) : Parser :=
  { p with ptr := p.ptr + n, reads := List.range' p.ptr n ++ p.reads }

def read (p : Parser) (n : Nat) : Option (Bytes × Parser) :=
  if p.ptr + n ≤ p.data.length then some (slice p.data p.ptr n, p.advance n) else none

/-- The big-endian value of octets. -/
def value (b : Bytes) : Nat := b.foldl (fun n x => n * 256 + x.toNat) 0

def u8 (p : Parser) : Option (UInt8 × Parser) :=
  match p.read 1 with
  | none => none
  | some (b, p) => some (UInt8.ofNat (value b), p)

def u16 (p : Parser) : Option (UInt16 × Parser) :=
  match p.read 2 with
  | none => none
  | some (b, p) => some (UInt16.ofNat (value b), p)

def u24 (p : Parser) : Option (UInt32 × Parser) :=
  match p.read 3 with
  | none => none
  | some (b, p) => some (UInt32.ofNat (value b), p)

def u32 (p : Parser) : Option (UInt32 × Parser) :=
  match p.read 4 with
  | none => none
  | some (b, p) => some (UInt32.ofNat (value b), p)

/-- mirrors webrtc/modules/rtp_rtcp/source/rtcp_utility.cc:455-459 -/
def endCurrentBlock (p : Parser) : Parser := { p with ptr := p.blockEnd }

/-- `_state = State_TopLevel; EndCurrentBlock(); return false;` -/
def leave (p : Parser) : Option (Bool × Parser) :=
  some (false, { p with state := .topLevel }.endCurrentBlock)

/-- An item is delivered; `state` is what comes next. -/
def deliver (p : Parser) (item : Item) (state : ParseState) : Option (Bool × Parser) :=
  some (true, { p with packet := some item, state })

/-! ## Reports -/

/-- mirrors webrtc/modules/rtp_rtcp/source/rtcp_utility.cc:506-532 -/
def parseRR (p : Parser) : Option (Bool × Parser) :=
  if p.length < 8 then some (false, p)
  else do
    let (ssrc, p) ← (p.skip 4).u32
    p.deliver (.rr ssrc p.numberOfBlocks) .reportBlockItem

/-- mirrors webrtc/modules/rtp_rtcp/source/rtcp_utility.cc:535-592 -/
def parseSR (p : Parser) : Option (Bool × Parser) :=
  if p.length < 28 then some (false, p.endCurrentBlock)
  else do
    let (senderSSRC, p) ← (p.skip 4).u32
    let (ntpMostSignificant, p) ← p.u32
    let (ntpLeastSignificant, p) ← p.u32
    let (rtpTimestamp, p) ← p.u32
    let (senderPacketCount, p) ← p.u32
    let (senderOctetCount, p) ← p.u32
    let info : SenderInfo := ⟨senderSSRC, ntpMostSignificant, ntpLeastSignificant, rtpTimestamp,
      senderPacketCount, senderOctetCount⟩
    if p.numberOfBlocks ≠ 0 then p.deliver (.sr info p.numberOfBlocks) .reportBlockItem
    else p.endCurrentBlock.deliver (.sr info p.numberOfBlocks) .topLevel

/-- mirrors webrtc/modules/rtp_rtcp/source/rtcp_utility.cc:595-641 -/
def parseReportBlockItem (p : Parser) : Option (Bool × Parser) :=
  if p.length < 24 ∨ p.numberOfBlocks = 0 then p.leave
  else do
    let (ssrc, p) ← p.u32
    let (fractionLost, p) ← p.u8
    let (cumulativeNumOfPacketsLost, p) ← p.u24
    let (extendedHighestSequenceNumber, p) ← p.u32
    let (jitter, p) ← p.u32
    let (lastSR, p) ← p.u32
    let (delayLastSR, p) ← p.u32
    let p := { p with numberOfBlocks := p.numberOfBlocks - 1 }
    p.deliver (.reportBlock ⟨ssrc, fractionLost, cumulativeNumOfPacketsLost,
      extendedHighestSequenceNumber, jitter, lastSR, delayLastSR⟩) p.state

/-- mirrors webrtc/modules/rtp_rtcp/source/rtcp_utility.cc:657-675 -/
def parseIJ (p : Parser) : Option (Bool × Parser) :=
  if p.length < 4 then some (false, p) else (p.skip 4).deliver .extendedIj .extendedJitterItem

/-- mirrors webrtc/modules/rtp_rtcp/source/rtcp_utility.cc:677-697 -/
def parseIJItem (p : Parser) : Option (Bool × Parser) :=
  if p.length < 4 ∨ p.numberOfBlocks = 0 then p.leave
  else do
    let (jitter, p) ← p.u32
    let p := { p with numberOfBlocks := p.numberOfBlocks - 1 }
    p.deliver (.extendedIjItem jitter) p.state

/-! ## Source descriptions -/

/-- mirrors webrtc/modules/rtp_rtcp/source/rtcp_utility.cc:699-716 -/
def parseSDES (p : Parser) : Option (Bool × Parser) :=
  if p.length < 8 then p.leave else (p.skip 4).deliver .sdes .sdesChunk

/-- A character no CNAME may have. -/
def illegal (c : UInt8) : Bool := c < 0x20 || 0x7B < c || c == 0x25 || c == 0x5C

/-- What the loop behind the end tag skips: `while ((n++ % 4) != 0)`. -/
def padding (n : Nat) : Nat := (4 - n % 4) % 4

/-- The CNAME found; `n` is `itemOctetsRead`.
mirrors webrtc/modules/rtp_rtcp/source/rtcp_utility.cc:756-828 -/
def parseSDESItem : Nat → Nat → Option Bytes → Parser → Option (Option Bytes × Parser)
  | 0, _, _, _ => none
  | fuel + 1, n, found, p =>
    if p.blockEnd ≤ p.ptr then
      -- no end tag
      some (none, { p with state := .topLevel }.endCurrentBlock)
    else do
      let (tag, p) ← p.u8
      if tag = 0 then some (found, p.skip (padding (n + 1)))
      else if p.blockEnd ≤ p.ptr then parseSDESItem fuel (n + 1) found p
      else
        let (len, p) ← p.u8
        if tag = 1 then
          if p.blockEnd ≤ p.ptr + len.toNat then
            some (none, { p with state := .topLevel }.endCurrentBlock)
          else
            let (cname, p) ← p.read len.toNat
            if cname.any illegal then some (none, { p with state := .topLevel }.endCurrentBlock)
            else parseSDESItem fuel (n + 2 + len.toNat) (some cname) p
        else parseSDESItem fuel (n + 2 + len.toNat) found (p.skip len.toNat)

/-- The loop that looks for a CNAME. -/
def parseSDESChunks : Nat → Parser → Option (Bool × Parser)
  | 0, _ => none
  | fuel + 1, p =>
    if p.blockEnd ≤ p.ptr ∨ p.length < 4 then p.leave
    else do
      let (ssrc, p) ← p.u32
      let (found, p) ← parseSDESItem (p.length + 1) 0 none p
      match found with
      | some cname => p.deliver (.sdesChunk ssrc cname) p.state
      | none => parseSDESChunks fuel p

/-- mirrors webrtc/modules/rtp_rtcp/source/rtcp_utility.cc:718-754 -/
def parseSDESChunk (p : Parser) : Option (Bool × Parser) :=
  if p.numberOfBlocks = 0 then p.leave
  else parseSDESChunks (p.length + 1) { p with numberOfBlocks := p.numberOfBlocks - 1 }

/-! ## Goodbyes -/

/-- mirrors webrtc/modules/rtp_rtcp/source/rtcp_utility.cc:840-869 -/
def parseBYEItem (p : Parser) : Option (Bool × Parser) :=
  let length := p.length
  if length < 4 ∨ p.numberOfBlocks = 0 then p.leave
  else do
    let (ssrc, p) ← p.u32
    -- the CSRCs are passed over
    let p := if 4 * p.numberOfBlocks ≤ length then p.skip ((p.numberOfBlocks - 1) * 4) else p
    { p with numberOfBlocks := 0 }.deliver (.bye ssrc) p.state

/-- mirrors webrtc/modules/rtp_rtcp/source/rtcp_utility.cc:830-838 -/
def parseBYE (p : Parser) : Option (Bool × Parser) :=
  { p.skip 4 with state := .byeItem }.parseBYEItem

/-! ## Extended reports -/

def kBtReceiverReferenceTime : UInt8 := 4
def kBtDlrr : UInt8 := 5
def kBtVoipMetric : UInt8 := 7

/-- mirrors webrtc/modules/rtp_rtcp/source/rtcp_utility.cc:880-899 -/
def parseXr (p : Parser) : Option (Bool × Parser) :=
  if p.length < 8 then some (false, p.endCurrentBlock)
  else do
    let (ssrc, p) ← (p.skip 4).u32
    p.deliver (.xrHeader ssrc) .xrItem

/-- mirrors webrtc/modules/rtp_rtcp/source/rtcp_utility.cc:950-975 -/
def parseXrReceiverReferenceTimeItem (p : Parser) (blockLength4Bytes : Nat) :
    Option (Bool × Parser) :=
  if blockLength4Bytes ≠ 2 ∨ p.length < 8 then p.leave
  else do
    let (ntpMostSignificant, p) ← p.u32
    let (ntpLeastSignificant, p) ← p.u32
    p.deliver (.xrReceiverReferenceTime ntpMostSignificant ntpLeastSignificant) .xrItem

/-- `_numberOfBlocks` is a `uint8_t`.
mirrors webrtc/modules/rtp_rtcp/source/rtcp_utility.cc:993-1005 -/
def parseXrDlrr (p : Parser) (blockLength4Bytes : Nat) : Option (Bool × Parser) :=
  if blockLength4Bytes % 3 ≠ 0 then p.leave
  else { p with numberOfBlocks := blockLength4Bytes / 3 % 256 }.deliver .xrDlrrReportBlock .xrDlrrItem

/-- mirrors webrtc/modules/rtp_rtcp/source/rtcp_utility.cc:1007-1039 -/
def parseXrDlrrItem (p : Parser) : Option (Bool × Parser) :=
  if p.numberOfBlocks = 0 then some (false, { p with state := .xrItem })
  else if p.length < 12 then p.leave
  else do
    let (ssrc, p) ← p.u32
    let (lastRR, p) ← p.u32
    let (delayLastRR, p) ← p.u32
    let p := { p with numberOfBlocks := p.numberOfBlocks - 1 }
    p.deliver (.xrDlrrReportBlockItem ssrc lastRR delayLastRR) .xrDlrrItem

/-- mirrors webrtc/modules/rtp_rtcp/source/rtcp_utility.cc:1066-1126 -/
def parseXrVoipMetricItem (p : Parser) (blockLength4Bytes : Nat) : Option (Bool × Parser) :=
  if blockLength4Bytes ≠ 8 ∨ p.length < 32 then p.leave
  else do
    let (ssrc, p) ← p.u32
    let (lossRate, p) ← p.u8
    let (discardRate, p) ← p.u8
    let (burstDensity, p) ← p.u8
    let (gapDensity, p) ← p.u8
    let (burstDuration, p) ← p.u16
    let (gapDuration, p) ← p.u16
    let (roundTripDelay, p) ← p.u16
    let (endSystemDelay, p) ← p.u16
    let (signalLevel, p) ← p.u8
    let (noiseLevel, p) ← p.u8
    let (rerl, p) ← p.u8
    let (gmin, p) ← p.u8
    let (rfactor, p) ← p.u8
    let (extRfactor, p) ← p.u8
    let (mosLQ, p) ← p.u8
    let (mosCQ, p) ← p.u8
    let (rxConfig, p) ← p.u8
    let (jbNominal, p) ← (p.skip 1).u16
    let (jbMax, p) ← p.u16
    let (jbAbsMax, p) ← p.u16
    p.deliver (.xrVoipMetric ⟨ssrc, lossRate, discardRate, burstDensity, gapDensity, burstDuration,
      gapDuration, roundTripDelay, endSystemDelay, signalLevel, noiseLevel, rerl, gmin, rfactor,
      extRfactor, mosLQ, mosCQ, rxConfig, jbNominal, jbMax, jbAbsMax⟩) .xrItem

/-- mirrors webrtc/modules/rtp_rtcp/source/rtcp_utility.cc:1128-1143 -/
def parseXrUnsupportedBlockType (p : Parser) (blockLength4Bytes : Nat) : Option (Bool × Parser) :=
  if p.length < blockLength4Bytes * 4 then p.leave
  else some (false, { p.skip (blockLength4Bytes * 4) with state := .xrItem })

/-- mirrors webrtc/modules/rtp_rtcp/source/rtcp_utility.cc:912-938 -/
def parseXrItem (p : Parser) : Option (Bool × Parser) :=
  if p.length < 4 then p.leave
  else do
    let (blockType, p) ← p.u8
    let (blockLength, p) ← (p.skip 1).u16
    if blockType = kBtReceiverReferenceTime then p.parseXrReceiverReferenceTimeItem blockLength.toNat
    else if blockType = kBtDlrr then p.parseXrDlrr blockLength.toNat
    else if blockType = kBtVoipMetric then p.parseXrVoipMetricItem blockLength.toNat
    else p.parseXrUnsupportedBlockType blockLength.toNat

/-! ## Feedback -/

/-- mirrors webrtc/modules/rtp_rtcp/source/rtcp_utility.cc:1145-1300 -/
def parseFBCommon (p : Parser) (header : CommonHeader) : Option (Bool × Parser) :=
  if p.length < 12 then some (false, p.endCurrentBlock)
  else do
    let (senderSSRC, p) ← (p.skip 4).u32
    let (mediaSSRC, p) ← p.u32
    if header.pt = PT_RTPFB then
      match header.ic with
      | 1 => p.deliver (.nack senderSSRC mediaSSRC) .nackItem
      | 3 => p.deliver (.tmmbr senderSSRC mediaSSRC) .tmmbrItem
      | 4 => p.deliver (.tmmbn senderSSRC mediaSSRC) .tmmbnItem
      -- no state transition
      | 5 => p.deliver .srReq p.state
      | _ => some (false, p.endCurrentBlock)
    else
      match header.ic with
      -- no state transition
      | 1 => p.deliver (.pli senderSSRC mediaSSRC) p.state
      | 2 => p.deliver (.sli senderSSRC mediaSSRC) .sliItem
      | 3 => p.deliver (.rpsi senderSSRC mediaSSRC) .rpsiItem
      | 4 => p.deliver (.fir senderSSRC mediaSSRC) .firItem
      | 15 => p.deliver (.psfbApp senderSSRC mediaSSRC) .psfbAppItem
      | _ => some (false, p.endCurrentBlock)

def RTCP_RPSI_DATA_SIZE : Nat := 30

/-- mirrors webrtc/modules/rtp_rtcp/source/rtcp_utility.cc:1302-1341 -/
def parseRPSIItem (p : Parser) : Option (Bool × Parser) :=
  let length := p.length
  if length < 4 ∨ 2 + RTCP_RPSI_DATA_SIZE < length then p.leave
  else do
    let (paddingBits, p) ← p.u8
    let (payloadType, p) ← p.u8
    let (nativeBitString, p) ← p.read (length - 2)
    p.deliver (.rpsiItem payloadType (UInt16.ofNat ((length - 2) * 8) - UInt16.ofNat paddingBits.toNat)
      nativeBitString) p.state

/-- mirrors webrtc/modules/rtp_rtcp/source/rtcp_utility.cc:1343-1368 -/
def parseNACKItem (p : Parser) : Option (Bool × Parser) :=
  if p.length < 4 then p.leave
  else do
    let (packetID, p) ← p.u16
    let (bitMask, p) ← p.u16
    p.deliver (.nackItem packetID bitMask) p.state

/-- mirrors webrtc/modules/rtp_rtcp/source/rtcp_utility.cc:1370-1413 -/
def parsePsfbAppItem (p : Parser) : Option (Bool × Parser) :=
  if p.length < 4 then p.leave
  else do
    let (name, p) ← p.read 4
    -- 'R' 'E' 'M' 'B'
    if name ≠ [0x52, 0x45, 0x4D, 0x42] then p.leave else p.deliver .remb .psfbRembItem

/-- Four octets for each SSRC. -/
def readSSRCs : Nat → Parser → Option (List UInt32 × Parser)
  | 0, p => some ([], p)
  | n + 1, p => do
    let (ssrc, p) ← p.u32
    let (ssrcs, p) ← readSSRCs n p
    some (ssrc :: ssrcs, p)

/-- Exponent and mantissa of a bitrate field: 6 and 18 bits.
mirrors webrtc/modules/rtp_rtcp/source/rtcp_utility.cc:1430-1438 -/
def rembBitRate (b₀ b₁ b₂ : UInt8) : UInt32 :=
  (((b₀ &&& 0x03).toUInt32 <<< 16) + (b₁.toUInt32 <<< 8) + b₂.toUInt32) <<<
    ((b₀ >>> 2) &&& 0x3F).toUInt32

/-- mirrors webrtc/modules/rtp_rtcp/source/rtcp_utility.cc:1415-1461 -/
def parsePsfbREMBItem (p : Parser) : Option (Bool × Parser) :=
  if p.length < 4 then p.leave
  else do
    let (numberOfSSRCs, p) ← p.u8
    let (b₀, p) ← p.u8
    let (b₁, p) ← p.u8
    let (b₂, p) ← p.u8
    if p.length < 4 * numberOfSSRCs.toNat then p.leave
    else
      let (ssrcs, p) ← readSSRCs numberOfSSRCs.toNat p
      p.deliver (.rembItem (rembBitRate b₀ b₁ b₂) ssrcs) p.state

/-- Exponent and mantissa of 6 and 17 bits, in kbit/s. -/
def tmmbrBitRate (b₀ b₁ b₂ : UInt8) : UInt32 :=
  ((((b₀ &&& 0x03).toUInt32 <<< 15) + (b₁.toUInt32 <<< 7) + ((b₂ >>> 1) &&& 0x7F).toUInt32) <<<
    ((b₀ >>> 2) &&& 0x3F).toUInt32) / 1000

def tmmbrOverhead (b₂ b₃ : UInt8) : UInt32 := ((b₂ &&& 0x01).toUInt32 <<< 8) + b₃.toUInt32

/-- The two parsers differ in the code they deliver. -/
def parseTMMBItem (item : UInt32 → UInt32 → UInt32 → Item) (p : Parser) : Option (Bool × Parser) :=
  if p.length < 8 then p.leave
  else do
    let (ssrc, p) ← p.u32
    let (b₀, p) ← p.u8
    let (b₁, p) ← p.u8
    let (b₂, p) ← p.u8
    let (b₃, p) ← p.u8
    p.deliver (item ssrc (tmmbrBitRate b₀ b₁ b₂) (tmmbrOverhead b₂ b₃)) p.state

/-- mirrors webrtc/modules/rtp_rtcp/source/rtcp_utility.cc:1463-1501 -/
def parseTMMBRItem (p : Parser) : Option (Bool × Parser) := p.parseTMMBItem .tmmbrItem

/-- mirrors webrtc/modules/rtp_rtcp/source/rtcp_utility.cc:1503-1541 -/
def parseTMMBNItem (p : Parser) : Option (Bool × Parser) := p.parseTMMBItem .tmmbnItem

/-- mirrors webrtc/modules/rtp_rtcp/source/rtcp_utility.cc:1543-1578 -/
def parseSLIItem (p : Parser) : Option (Bool × Parser) :=
  if p.length < 4 then p.leave
  else do
    let (buffer, p) ← p.u32
    p.deliver (.sliItem ((buffer >>> 19) &&& 0x1fff).toUInt16 ((buffer >>> 6) &&& 0x1fff).toUInt16
      (buffer &&& 0x3f).toUInt8) p.state

/-- mirrors webrtc/modules/rtp_rtcp/source/rtcp_utility.cc:1580-1607 -/
def parseFIRItem (p : Parser) : Option (Bool × Parser) :=
  if p.length < 8 then p.leave
  else do
    let (ssrc, p) ← p.u32
    let (commandSequenceNumber, p) ← p.u8
    (p.skip 3).deliver (.firItem ssrc commandSequenceNumber) p.state

/-! ## Application packets -/

def kRtcpAppCode_DATA_SIZE : Nat := 128

/-- mirrors webrtc/modules/rtp_rtcp/source/rtcp_utility.cc:1609-1642 -/
def parseAPP (p : Parser) (header : CommonHeader) : Option (Bool × Parser) :=
  if p.length < 12 then some (false, p.endCurrentBlock)
  else do
    let (_, p) ← (p.skip 4).u32
    let (name, p) ← p.u32
    p.deliver (.app (UInt8.ofNat header.ic) name) .appItem

/-- mirrors webrtc/modules/rtp_rtcp/source/rtcp_utility.cc:1644-1669 -/
def parseAPPItem (p : Parser) : Option (Bool × Parser) :=
  if p.length < 4 then p.leave
  else do
    let (data, p) ← p.read (min p.length kRtcpAppCode_DATA_SIZE)
    p.deliver (.appItem data) p.state

/-! ## Iteration -/

/-- The switch on the packet type; false goes on with the next block. The
reports return in any case. -/
def parseBlock (p : Parser) (header : CommonHeader) : Option (Bool × Parser) :=
  let p := { p with numberOfBlocks :=
    if header.pt = PT_SR ∨ header.pt = PT_RR ∨ header.pt = PT_SDES ∨ header.pt = PT_BYE ∨
      header.pt = PT_IJ then header.ic else p.numberOfBlocks }
  if header.pt = PT_SR then p.parseSR.map fun r => (true, r.2)
  else if header.pt = PT_RR then p.parseRR.map fun r => (true, r.2)
  else if header.pt = PT_SDES then p.parseSDES
  else if header.pt = PT_BYE then p.parseBYE
  else if header.pt = PT_IJ then p.parseIJ.map fun r => (true, r.2)
  else if header.pt = PT_RTPFB ∨ header.pt = PT_PSFB then p.parseFBCommon header
  else if header.pt = PT_APP then p.parseAPP header
  else if header.pt = PT_XR then p.parseXr
  else some (false, p.endCurrentBlock)

/-- The parser in the block of `len` octets at its pointer. -/
def enter (p : Parser) (len : Nat) : Parser :=
  { p with
    blockEnd := p.ptr + len, blockStart := p.ptr, reads := List.range' p.ptr 4
    visited := (p.ptr, len) :: p.visited }

/-- mirrors webrtc/modules/rtp_rtcp/source/rtcp_utility.cc:153-258 -/
def iterateTopLevel : Nat → Parser → Option Parser
  | 0, _ => none
  | fuel + 1, p =>
    match parseCommonHeader p.data p.ptr with
    | none => some p
    | some header =>
      if p.data.length < p.ptr + header.lengthInOctets then
        some { p with blockEnd := p.ptr + header.lengthInOctets }
      else
        match (p.enter header.lengthInOctets).parseBlock header with
        | none => none
        | some (true, p) => some p
        | some (false, p) => iterateTopLevel fuel p

/-- The parser of the state's item. -/
def parseItem (p : Parser) : Option (Bool × Parser) :=
  match p.state with
  | .topLevel => none
  | .reportBlockItem => p.parseReportBlockItem
  | .sdesChunk => p.parseSDESChunk
  | .byeItem => p.parseBYEItem
  | .extendedJitterItem => p.parseIJItem
  | .nackItem => p.parseNACKItem
  | .tmmbrItem => p.parseTMMBRItem
  | .tmmbnItem => p.parseTMMBNItem
  | .sliItem => p.parseSLIItem
  | .rpsiItem => p.parseRPSIItem
  | .firItem => p.parseFIRItem
  | .psfbAppItem => p.parsePsfbAppItem
  | .psfbRembItem => p.parsePsfbREMBItem
  | .xrItem => p.parseXrItem
  | .xrDlrrItem => p.parseXrDlrrItem
  | .appItem => p.parseAPPItem

/-- `Iterate` with the `Iterate*Item` functions, which are all alike: parse the
item, and iterate again when there was none.
mirrors webrtc/modules/rtp_rtcp/source/rtcp_utility.cc:93-151, 260-409 -/
def iterateFuel : Nat → Parser → Option Parser
  | 0, _ => none
  | fuel + 1, p =>
    let p := { p with packet := none }
    if !p.validPacket then some p
    else if p.state = .topLevel then iterateTopLevel (p.data.length + 1) p
    else
      match p.parseItem with
      | none => none
      | some (true, p) => some p
      | some (false, p) => iterateFuel fuel p

def iterate (p : Parser) : Option Parser := iterateFuel (2 * p.data.length + 4) p

/-- mirrors webrtc/modules/rtp_rtcp/source/rtcp_utility.cc:85-91 -/
def begin (p : Parser) : Option Parser := { p with ptr := 0 }.iterate

/-- The parser after `Begin` and `n` calls of `Iterate`. -/
def calls (p : Parser) : Nat → Option Parser
  | 0 => p.begin
  | n + 1 =>
    match p.calls n with
    | none => none
    | some q => q.iterate

end Parser

end RtcCore.L1.Rtcp
