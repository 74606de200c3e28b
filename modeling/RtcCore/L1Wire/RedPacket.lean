import RtcCore.L1Wire.RtcpPacket
import RtcCore.L1Wire.RtpHeaderBounds

/-!
# RED packets

`ProducerFec::BuildRedPacket` puts the payload type of a packet behind its
header, `FecReceiverImpl::AddReceivedRedPacket` takes it out again. FEC is not a
packet of its own: a block of FEC is queued without the RTP header.

A packet without an octet behind the header, one with the F bit and less than
five, and a first block that reaches up to the last octet are not checked for:
`addReceivedRedPacket` has no value there, since it reads behind the packet.
Neither is the length of what is queued: a packet has room for `IP_PACKET_SIZE`
octets, and there is no value where more are copied into it (`fill`).

Results:
- `addReceivedRedPacket_media`, `addReceivedRedPacket_fec`,
  `addReceivedRedPacket_pair`: what is queued.
- `red_reception`: what is packed is what is queued.
-/
namespace RtcCore.L1

open Bytes RtpHeaderParser
open Rtcp.RtcpPacket (IP_PACKET_SIZE)

/-! ## The sender -/

/-- A header with another payload type. -/
def withPayloadType (rtpHeader : Bytes) (payloadType : UInt8) : Bytes :=
  rtpHeader.modify 1 fun x => (x &&& 0x80) + payloadType

/-- mirrors webrtc/modules/rtp_rtcp/source/producer_fec.cc:50-61 -/
def createHeader (rtpHeader : Bytes) (redPlType plType : UInt8) : Bytes :=
  withPayloadType rtpHeader redPlType ++ [plType]

/-- mirrors webrtc/modules/rtp_rtcp/source/producer_fec.cc:124-136 -/
def buildRedPacket (dataBuffer : Bytes) (payloadLength rtpHeaderLength : Nat) (redPlType : UInt8) :
    Bytes :=
  let plType := getByte dataBuffer 1 &&& 0x7f
  createHeader (dataBuffer.take rtpHeaderLength) redPlType plType ++
    slice dataBuffer rtpHeaderLength payloadLength

/-! ## The receiver -/

namespace ForwardErrorCorrection

/-- `data` is what was written to the packet's octets.
mirrors webrtc/modules/rtp_rtcp/source/forward_error_correction.h:40-57 -/
structure Packet where
  length : Nat
  data : Bytes
  fits : data.length ≤ IP_PACKET_SIZE
  deriving DecidableEq

/-- What is copied into a packet; no value where it overruns it. -/
def Packet.fill (length : Nat) (data : Bytes) : Option Packet :=
  if h : data.length ≤ IP_PACKET_SIZE then some ⟨length, data, h⟩ else none

theorem Packet.fill_of_le {data : Bytes} (length : Nat) (h : data.length ≤ IP_PACKET_SIZE) :
    Packet.fill length data = some ⟨length, data, h⟩ := dif_pos h

def Packet.bytes (p : Packet) : Bytes := p.data.take p.length

/-- `ssrc` is not always set.
mirrors webrtc/modules/rtp_rtcp/source/forward_error_correction.h:60-96 -/
structure ReceivedPacket where
  seqNum : UInt16
  ssrc : Option UInt32
  isFec : Bool
  pkt : Packet
  deriving DecidableEq

end ForwardErrorCorrection

open ForwardErrorCorrection

/-- mirrors webrtc/modules/rtp_rtcp/source/fec_receiver_impl.h:30-51 -/
structure FecReceiver where
  receivedPacketList : List ReceivedPacket := []
  numPackets : Nat := 0
  numFecPackets : Nat := 0

/-- The difference of two values of `size_t`. -/
def sizeSub (a b : Nat) : Nat := if b ≤ a then a - b else 2 ^ 64 + a - b

theorem sizeSub_of_le {a b : Nat} (h : b ≤ a) : sizeSub a b = a - b := if_pos h

namespace FecReceiver

variable (r : FecReceiver) (header : RTPHeader) (incomingRtpPacket : Bytes)

/-- The length of the RED header and of the first block, 0 without the F bit; the inner value is
missing when the packet is refused.
mirrors webrtc/modules/rtp_rtcp/source/fec_receiver_impl.cc:102-137 -/
def redHeader (payloadDataLength : Nat) (first : UInt8) : Option (Option (Nat × Nat)) :=
  if first &&& 0x80 = 0 then some (some (1, 0))
  else do
    let second ← (incomingRtpPacket[header.headerLength + 1]? : Option UInt8)
    let third ← (incomingRtpPacket[header.headerLength + 2]? : Option UInt8)
    let timestampOffset := (second.toNat * 256 + third.toNat) / 4
    if timestampOffset ≠ 0 then some none
    else do
      let fourth ← (incomingRtpPacket[header.headerLength + 3]? : Option UInt8)
      let blockLength := (0x03 &&& third).toNat * 256 + fourth.toNat
      let next ← (incomingRtpPacket[header.headerLength + 4]? : Option UInt8)
      if next &&& 0x80 ≠ 0 then some none
      else if blockLength > sizeSub payloadDataLength 4 then some none
      else some (some (4, blockLength))

/-- mirrors webrtc/modules/rtp_rtcp/source/fec_receiver_impl.cc:138, 208-213 -/
def queue (packets : List ReceivedPacket) (fec : Nat) : FecReceiver where
  receivedPacketList := r.receivedPacketList ++ packets
  numPackets := r.numPackets + 1
  numFecPackets := r.numFecPackets + fec

/-- The packets of the blocks.
mirrors webrtc/modules/rtp_rtcp/source/fec_receiver_impl.cc:140-206 -/
def queueBlocks (payloadDataLength redHeaderLength blockLength : Nat) (payloadType : UInt8)
    (isFec : Bool) : Option FecReceiver :=
  if blockLength > 0 then do
    -- split into 2 packets
    let rest := sizeSub (sizeSub payloadDataLength 5) blockLength
    let head ← readAt incomingRtpPacket 0 header.headerLength
    let block ← readAt incomingRtpPacket (header.headerLength + 5) blockLength
    let fec ← readAt incomingRtpPacket (header.headerLength + 5 + blockLength) rest
    let first ← Packet.fill blockLength (withPayloadType head payloadType ++ block)
    let second ← Packet.fill rest fec
    some (r.queue [⟨header.sequenceNumber, none, isFec, first⟩,
      ⟨header.sequenceNumber, none, true, second⟩] 1)
  else if isFec then do
    let length := sizeSub payloadDataLength redHeaderLength
    let fec ← readAt incomingRtpPacket (header.headerLength + redHeaderLength) length
    let pkt ← Packet.fill length fec
    let ssrc ← readBE incomingRtpPacket 8 4
    if length = 0 then some (r.queue [] 1)
    else some (r.queue [⟨header.sequenceNumber, some (.ofNat ssrc), true, pkt⟩] 1)
  else do
    let length := sizeSub payloadDataLength redHeaderLength
    let head ← readAt incomingRtpPacket 0 header.headerLength
    let media ← readAt incomingRtpPacket (header.headerLength + redHeaderLength) length
    let total := sizeSub (header.headerLength + payloadDataLength) redHeaderLength
    let pkt ← Packet.fill total (withPayloadType head payloadType ++ media)
    if total = 0 then some (r.queue [] 0)
    else some (r.queue [⟨header.sequenceNumber, none, false, pkt⟩] 0)

/-- No value: it reads behind the packet, or writes behind the one that it queues.
mirrors webrtc/modules/rtp_rtcp/source/fec_receiver_impl.cc:77-215 -/
def addReceivedRedPacket (ulpfecPayloadType : UInt8) : Option (Int × FecReceiver) := do
  let payloadDataLength := sizeSub incomingRtpPacket.length header.headerLength
  let first ← (incomingRtpPacket[header.headerLength]? : Option UInt8)
  let payloadType := first &&& 0x7f
  let red ← redHeader header incomingRtpPacket payloadDataLength first
  match red with
  | none => some (-1, r)
  | some (redHeaderLength, blockLength) =>
    (r.queueBlocks header incomingRtpPacket payloadDataLength redHeaderLength blockLength payloadType
      (payloadType = ulpfecPayloadType)).map fun r => (0, r)

variable {header} {hdr block rest : Bytes} {first second third fourth next : UInt8} (ulp : UInt8)

theorem getElem?_behind {i : Nat} (hh : header.headerLength = hdr.length) (body : Bytes) :
    (hdr ++ body)[header.headerLength + i]? = body[i]? := by
  rw [hh, List.getElem?_append_right (Nat.le_add_right ..), Nat.add_sub_cancel_left]

theorem readAt_behind {off n : Nat} {body : Bytes} (hh : header.headerLength = hdr.length)
    (hin : off + n ≤ body.length) :
    readAt (hdr ++ body) (header.headerLength + off) n = some (slice body off n) := by
  rw [readAt, if_pos (by rw [List.length_append]; omega), slice, hh, ← List.drop_drop,
    List.drop_left]
  rfl

theorem readAt_header (hh : header.headerLength = hdr.length) (body : Bytes) :
    readAt (hdr ++ body) 0 header.headerLength = some hdr := by
  rw [readAt, if_pos (by rw [List.length_append]; omega), slice, hh, List.drop_zero, List.take_left]

theorem payload_length (hh : header.headerLength = hdr.length) (body : Bytes) :
    sizeSub (hdr ++ body).length header.headerLength = body.length := by
  rw [List.length_append, sizeSub_of_le (by omega)]
  omega

/-! ## One block -/

theorem withPayloadType_length (hdr : Bytes) (payloadType : UInt8) :
    (withPayloadType hdr payloadType).length = hdr.length := List.length_modify ..

/-- `q` is queued for a block of media behind the header. -/
structure IsMedia (q : ReceivedPacket) (header : RTPHeader) (hdr block : Bytes)
    (payloadType : UInt8) : Prop where
  seqNum : q.seqNum = header.sequenceNumber
  ssrc : q.ssrc = none
  isFec : q.isFec = false
  length : q.pkt.length = hdr.length + block.length
  bytes : q.pkt.bytes = withPayloadType hdr payloadType ++ block

/-- `q` is queued for a block of FEC. -/
structure IsFec (q : ReceivedPacket) (header : RTPHeader) (packet block : Bytes) : Prop where
  seqNum : q.seqNum = header.sequenceNumber
  ssrc : q.ssrc = some (.ofNat (beValue (slice packet 8 4)))
  isFec : q.isFec = true
  length : q.pkt.length = block.length
  bytes : q.pkt.bytes = block

theorem addReceivedRedPacket_media (hh : header.headerLength = hdr.length) (hpos : 12 ≤ hdr.length)
    (hf : first &&& 0x80 = 0) (hne : first ≠ ulp)
    (hfits : hdr.length + block.length ≤ IP_PACKET_SIZE) :
    ∃ q, r.addReceivedRedPacket header (hdr ++ first :: block) ulp = some (0, r.queue [q] 0) ∧
      IsMedia q header hdr block first := by
  have hfirst : (hdr ++ first :: block)[header.headerLength]? = some first :=
    getElem?_behind (i := 0) hh (first :: block)
  have hlen : sizeSub (first :: block).length 1 = block.length := by
    rw [List.length_cons, sizeSub_of_le (by omega), Nat.add_sub_cancel]
  have htotal : sizeSub (header.headerLength + (first :: block).length) 1 =
      hdr.length + block.length := by
    rw [List.length_cons, sizeSub_of_le (by omega), hh]
    omega
  have hread : readAt (hdr ++ first :: block) (header.headerLength + 1) block.length = some block := by
    rw [readAt_behind hh (by rw [List.length_cons]; omega), slice, List.drop_one, List.tail_cons,
      List.take_length]
  have hdata : (withPayloadType hdr first ++ block).length = hdr.length + block.length := by
    rw [List.length_append, withPayloadType_length]
  refine ⟨⟨header.sequenceNumber, none, false, ⟨_, _, hdata.trans_le hfits⟩⟩, ?_, rfl, rfl, rfl, rfl,
    List.take_of_length_le hdata.le⟩
  rw [addReceivedRedPacket, hfirst, payload_length hh]
  dsimp only [bind, Option.bind]
  rw [redHeader, if_pos hf]
  dsimp only
  rw [queueBlocks, if_neg (Nat.lt_irrefl 0), low7_of_clear hf, decide_eq_false hne,
    if_neg Bool.false_ne_true]
  dsimp only
  rw [hlen, htotal, readAt_header hh, hread]
  dsimp only [bind, Option.bind]
  rw [Packet.fill_of_le _ (hdata.trans_le hfits)]
  dsimp only
  rw [if_neg (by omega)]
  rfl

theorem addReceivedRedPacket_fec (hh : header.headerLength = hdr.length) (hpos : 12 ≤ hdr.length)
    (hf : ulp &&& 0x80 = 0) (hfits : block.length ≤ IP_PACKET_SIZE) :
    ∃ q, r.addReceivedRedPacket header (hdr ++ ulp :: block) ulp =
        some (0, r.queue (if block = [] then [] else [q]) 1) ∧
      IsFec q header (hdr ++ ulp :: block) block := by
  have hfirst : (hdr ++ ulp :: block)[header.headerLength]? = some ulp :=
    getElem?_behind (i := 0) hh (ulp :: block)
  have hlen : sizeSub (ulp :: block).length 1 = block.length := by
    rw [List.length_cons, sizeSub_of_le (by omega), Nat.add_sub_cancel]
  have hread : readAt (hdr ++ ulp :: block) (header.headerLength + 1) block.length = some block := by
    rw [readAt_behind hh (by rw [List.length_cons]; omega), slice, List.drop_one, List.tail_cons,
      List.take_length]
  refine ⟨⟨header.sequenceNumber, some (.ofNat (beValue (slice (hdr ++ ulp :: block) 8 4))), true,
    ⟨block.length, block, hfits⟩⟩, ?_, rfl, rfl, rfl, rfl, List.take_length⟩
  rw [addReceivedRedPacket, hfirst, payload_length hh]
  dsimp only [bind, Option.bind]
  rw [redHeader, if_pos hf]
  dsimp only
  rw [queueBlocks, if_neg (Nat.lt_irrefl 0), low7_of_clear hf, decide_eq_true rfl, if_pos rfl]
  dsimp only
  rw [hlen, hread, readBE_isSome (by rw [List.length_append]; omega)]
  dsimp only [bind, Option.bind]
  rw [Packet.fill_of_le _ hfits]
  cases block with
  | nil => rfl
  | cons x block => rfl

/-! ## Two blocks -/

/-- The length of the first block. -/
def blockLength (third fourth : UInt8) : Nat := (0x03 &&& third).toNat * 256 + fourth.toNat

/-- A packet of two blocks that is refused. -/
def Refused (second third fourth next : UInt8) (rest : Bytes) : Prop :=
  (second.toNat * 256 + third.toNat) / 4 ≠ 0 ∨ next &&& 0x80 ≠ 0 ∨
    rest.length + 1 < blockLength third fourth

section Pair

variable (hh : header.headerLength = hdr.length) (hf : first &&& 0x80 ≠ 0)
include hh hf

theorem redHeader_pair (hoffset : (second.toNat * 256 + third.toNat) / 4 = 0) :
    redHeader header (hdr ++ first :: second :: third :: fourth :: next :: rest)
        (rest.length + 5) first =
      some (if next &&& 0x80 ≠ 0 then none
        else if blockLength third fourth > rest.length + 1 then none
        else some (4, blockLength third fourth)) := by
  rw [redHeader, if_neg hf, getElem?_behind hh, getElem?_behind hh, getElem?_behind hh,
    getElem?_behind hh]
  simp only [List.getElem?_cons_succ, List.getElem?_cons_zero, bind, Option.bind]
  rw [if_neg (not_not_intro hoffset), sizeSub_of_le (by omega), blockLength,
    show rest.length + 5 - 4 = rest.length + 1 by omega]
  split
  · rfl
  · split <;> rfl

theorem redHeader_offset (hoffset : (second.toNat * 256 + third.toNat) / 4 ≠ 0) :
    redHeader header (hdr ++ first :: second :: third :: fourth :: next :: rest)
        (rest.length + 5) first = some none := by
  rw [redHeader, if_neg hf, getElem?_behind hh, getElem?_behind hh]
  simp only [List.getElem?_cons_succ, List.getElem?_cons_zero, bind, Option.bind]
  rw [if_pos hoffset]

theorem addReceivedRedPacket_refused (hr : Refused second third fourth next rest) :
    r.addReceivedRedPacket header
      (hdr ++ first :: second :: third :: fourth :: next :: rest) ulp = some (-1, r) := by
  have hred : redHeader header (hdr ++ first :: second :: third :: fourth :: next :: rest)
      (rest.length + 5) first = some none := by
    by_cases hoffset : (second.toNat * 256 + third.toNat) / 4 = 0
    · rw [redHeader_pair hh hf hoffset]
      obtain h | h | h := hr
      · exact absurd hoffset h
      · rw [if_pos h]
      · rw [if_pos h]
        split <;> rfl
    · exact redHeader_offset hh hf hoffset
  have hfirst := getElem?_behind (i := 0) hh (first :: second :: third :: fourth :: next :: rest)
  rw [Nat.add_zero] at hfirst
  rw [addReceivedRedPacket, hfirst, payload_length hh]
  dsimp only [bind, Option.bind, List.getElem?_cons_zero, List.length_cons]
  rw [hred]

/-- The first packet holds the header and the first block, the second one what follows. -/
theorem addReceivedRedPacket_pair (hr : ¬ Refused second third fourth next rest)
    (hpos : 0 < blockLength third fourth) (hin : blockLength third fourth ≤ rest.length)
    (hfirst : hdr.length + blockLength third fourth ≤ IP_PACKET_SIZE)
    (hsecond : rest.length - blockLength third fourth ≤ IP_PACKET_SIZE) :
    ∃ media fec, r.addReceivedRedPacket header
        (hdr ++ first :: second :: third :: fourth :: next :: rest) ulp =
      some (0, r.queue [⟨header.sequenceNumber, none, first &&& 0x7f = ulp, media⟩,
        ⟨header.sequenceNumber, none, true, fec⟩] 1) ∧
      media.data =
        withPayloadType hdr (first &&& 0x7f) ++ rest.take (blockLength third fourth) ∧
      fec.bytes = rest.drop (blockLength third fourth) := by
  obtain ⟨hoffset, hnext, hle⟩ : (second.toNat * 256 + third.toNat) / 4 = 0 ∧
      next &&& 0x80 = 0 ∧ blockLength third fourth ≤ rest.length + 1 := by
    simpa [Refused] using hr
  have hred : redHeader header (hdr ++ first :: second :: third :: fourth :: next :: rest)
      (rest.length + 5) first = some (some (4, blockLength third fourth)) := by
    rw [redHeader_pair hh hf hoffset, if_neg (not_not_intro hnext), if_neg (by omega)]
  have hget := getElem?_behind (i := 0) hh (first :: second :: third :: fourth :: next :: rest)
  rw [Nat.add_zero] at hget
  have hlen : sizeSub (sizeSub (rest.length + 5) 5) (blockLength third fourth) =
      rest.length - blockLength third fourth := by
    rw [sizeSub_of_le (show 5 ≤ rest.length + 5 by omega), Nat.add_sub_cancel, sizeSub_of_le hin]
  have hblock : readAt (hdr ++ first :: second :: third :: fourth :: next :: rest)
      (header.headerLength + 5) (blockLength third fourth) =
        some (rest.take (blockLength third fourth)) := by
    rw [readAt_behind hh (by simp only [List.length_cons]; omega)]
    rfl
  have hrest : readAt (hdr ++ first :: second :: third :: fourth :: next :: rest)
      (header.headerLength + 5 + blockLength third fourth)
      (rest.length - blockLength third fourth) = some (rest.drop (blockLength third fourth)) := by
    rw [Nat.add_assoc, readAt_behind hh (by simp only [List.length_cons]; omega), slice,
      ← List.drop_drop]
    congr 1
    refine List.take_of_length_le ?_
    simp only [List.drop_succ_cons, List.drop_zero, List.length_drop]
    omega
  have hmedia : (withPayloadType hdr (first &&& 0x7f) ++
      rest.take (blockLength third fourth)).length ≤ IP_PACKET_SIZE := by
    rw [List.length_append, withPayloadType_length, List.length_take, Nat.min_eq_left hin]
    exact hfirst
  have hfec : (rest.drop (blockLength third fourth)).length ≤ IP_PACKET_SIZE := by
    rw [List.length_drop]
    exact hsecond
  refine ⟨⟨blockLength third fourth, _, hmedia⟩,
    ⟨rest.length - blockLength third fourth, _, hfec⟩, ?_, rfl, ?_⟩
  · rw [addReceivedRedPacket, hget, payload_length hh]
    dsimp only [bind, Option.bind, List.getElem?_cons_zero, List.length_cons]
    rw [hred]
    dsimp only
    rw [queueBlocks, if_pos hpos]
    dsimp only
    rw [hlen, readAt_header hh, hblock, hrest]
    dsimp only [bind, Option.bind]
    rw [Packet.fill_of_le _ hmedia, Packet.fill_of_le _ hfec]
    rfl
  · rw [Packet.bytes, ← List.length_drop, List.take_length]

end Pair

/-! ## What is packed -/

/-- The RED packet of a whole packet. -/
def packed (data : Bytes) (redPlType : UInt8) : Bytes :=
  buildRedPacket data (data.length - headerEnd data) (headerEnd data) redPlType

theorem packed_eq (data : Bytes) (redPlType : UInt8) :
    packed data redPlType = withPayloadType (data.take (headerEnd data)) redPlType ++
      (getByte data 1 &&& 0x7f) :: data.drop (headerEnd data) := by
  have hrest : slice data (headerEnd data) (data.length - headerEnd data) =
      data.drop (headerEnd data) := by
    rw [slice, ← List.length_drop, List.take_length]
  rw [packed, buildRedPacket, createHeader, hrest, List.append_assoc]
  rfl

theorem getByte_withPayloadType {hdr : Bytes} {payloadType : UInt8} {i : Nat} (hi : i ≠ 1) :
    getByte (withPayloadType hdr payloadType) i = getByte hdr i := by
  rw [getByte, getByte, withPayloadType, List.getElem?_modify_ne _ _ hi.symm]

theorem packed_accepts {data : Bytes} (ha : Accepts data) (redPlType : UInt8) :
    Accepts (packed data redPlType) ∧ headerEnd (packed data redPlType) = headerEnd data := by
  obtain ⟨h12, hle⟩ := headerEnd_bounds ha
  have hlen : (withPayloadType (data.take (headerEnd data)) redPlType).length = headerEnd data := by
    rw [withPayloadType_length, List.length_take, Nat.min_eq_left hle]
  rw [packed_eq]
  refine ha.congr (by rw [List.length_append, hlen]; exact Nat.le_add_right ..) fun i hi hcase => ?_
  rw [getByte_append_left _ (by rw [hlen]; exact hi), getByte_withPayloadType (by omega),
    getByte_take hi]

theorem markBit_payloadType (x : UInt8) : (x &&& 0x80) + (x &&& 0x7f) = x :=
  forall_uint8 (P := fun x => (x &&& 0x80) + (x &&& 0x7f) = x) (by decide) x

theorem clear_of_low7 (x : UInt8) : (x &&& 0x7f) &&& 0x80 = 0 :=
  forall_uint8 (P := fun x => (x &&& 0x7f) &&& 0x80 = 0) (by decide) x

theorem markBit_cases (x : UInt8) : x &&& 0x80 = 0 ∨ x &&& 0x80 = 0x80 :=
  forall_uint8 (P := fun x => x &&& 0x80 = 0 ∨ x &&& 0x80 = 0x80) (by decide) x

/-- A payload type of seven bits leaves the marker bit alone. -/
theorem markBit_add (x y : UInt8) (hy : y &&& 0x80 = 0) :
    ((x &&& 0x80) + y) &&& 0x80 = x &&& 0x80 := by
  obtain hx | hx := markBit_cases x
  · rw [hx, UInt8.zero_add, hy]
  · rw [hx]
    exact forall_uint8 (P := fun y => y &&& 0x80 = 0 → (0x80 + y) &&& 0x80 = 0x80)
      (by decide) y hy

theorem withPayloadType_twice (hdr : Bytes) {x y : UInt8} (hy : y &&& 0x80 = 0) :
    withPayloadType (withPayloadType hdr y) x = withPayloadType hdr x := by
  rw [withPayloadType, withPayloadType, withPayloadType, List.modify_modify_eq]
  congr 1
  funext z
  rw [Function.comp_apply, markBit_add z y hy]

theorem withPayloadType_self (hdr : Bytes) :
    withPayloadType hdr (getByte hdr 1 &&& 0x7f) = hdr := by
  match hdr with
  | [] => rfl
  | [_] => rfl
  | x :: y :: hdr =>
    have hy : getByte (x :: y :: hdr) 1 = y := rfl
    rw [withPayloadType, List.modify_succ_cons, List.modify_zero_cons, hy, markBit_payloadType]

/-- A packet that was packed with the payload type that the receiver knows as RED. -/
theorem packed_received {data : Bytes} {redPlType : UInt8} {m : Option RtpHeaderExtensionMap}
    {h₀ : RTPHeader} {ok : Bool} (ha : Accepts data)
    (hp : parse (packed data redPlType) m h₀ = some (ok, header))
    (hred : header.payloadType = redPlType) (hne : getByte data 1 &&& 0x7f ≠ ulp)
    (hfits : data.length ≤ IP_PACKET_SIZE) :
    ok = true ∧ ∃ q, r.addReceivedRedPacket header (packed data redPlType) ulp =
        some (0, r.queue [q] 0) ∧ q.pkt.bytes = data ∧ q.pkt.length = data.length ∧
      q.isFec = false ∧ q.seqNum = header.sequenceNumber := by
  obtain ⟨h12, hle⟩ := headerEnd_bounds ha
  obtain ⟨ha', hend⟩ := packed_accepts ha redPlType
  obtain ⟨hok, hfields⟩ := parse_spec hp
  obtain ⟨-, htype, -, hlength⟩ := hfields (hok.2 ha')
  have hy : redPlType &&& 0x80 = 0 := by
    rw [← hred, htype]
    exact clear_of_low7 _
  have hlen : (withPayloadType (data.take (headerEnd data)) redPlType).length = headerEnd data := by
    rw [withPayloadType_length, List.length_take, Nat.min_eq_left hle]
  have h1 : getByte data 1 = getByte (data.take (headerEnd data)) 1 :=
    (getByte_take (by omega)).symm
  have hh := hlength.trans (hend.trans hlen.symm)
  have hfits : (withPayloadType (data.take (headerEnd data)) redPlType).length +
      (data.drop (headerEnd data)).length ≤ IP_PACKET_SIZE := by
    rw [hlen, List.length_drop]
    omega
  obtain ⟨q, hadd, hq⟩ := addReceivedRedPacket_media r ulp hh (by omega)
    (clear_of_low7 (getByte data 1)) hne hfits
  refine ⟨hok.2 ha', q, packed_eq data redPlType ▸ hadd, ?_, ?_, hq.isFec, hq.seqNum⟩
  · rw [hq.bytes, withPayloadType_twice _ hy, h1, withPayloadType_self, List.take_append_drop]
  · rw [hq.length, hlen, List.length_drop]
    exact Nat.add_sub_cancel' hle

/-! ## Reception -/

/-- What is queued for an accepted packet of one block, and of two, where there is room for it.
What is packed is queued as it was. -/
theorem red_reception (r : FecReceiver) (ulp : UInt8) {packet : Bytes}
    {m : Option RtpHeaderExtensionMap} {h₀ header : RTPHeader}
    (hp : parse packet m h₀ = some (true, header)) :
    (∀ first block, packet.drop header.headerLength = first :: block → first &&& 0x80 = 0 →
      (first ≠ ulp → header.headerLength + block.length ≤ IP_PACKET_SIZE →
        ∃ q, r.addReceivedRedPacket header packet ulp = some (0, r.queue [q] 0) ∧
          IsMedia q header (packet.take header.headerLength) block first) ∧
      (first = ulp → block.length ≤ IP_PACKET_SIZE →
        ∃ q, r.addReceivedRedPacket header packet ulp =
            some (0, r.queue (if block = [] then [] else [q]) 1) ∧
          IsFec q header packet block)) ∧
    (∀ first second third fourth next rest, packet.drop header.headerLength =
        first :: second :: third :: fourth :: next :: rest → first &&& 0x80 ≠ 0 →
      (Refused second third fourth next rest →
        r.addReceivedRedPacket header packet ulp = some (-1, r)) ∧
      (¬ Refused second third fourth next rest → 0 < blockLength third fourth →
        blockLength third fourth ≤ rest.length →
        header.headerLength + blockLength third fourth ≤ IP_PACKET_SIZE →
        rest.length - blockLength third fourth ≤ IP_PACKET_SIZE →
        ∃ media fec, r.addReceivedRedPacket header packet ulp =
            some (0, r.queue [media, fec] 1) ∧
          media.pkt.data = withPayloadType (packet.take header.headerLength) (first &&& 0x7f) ++
            rest.take (blockLength third fourth) ∧
          media.seqNum = header.sequenceNumber ∧
          fec.pkt.bytes = rest.drop (blockLength third fourth) ∧
          fec.isFec = true ∧ fec.seqNum = header.sequenceNumber)) ∧
    (∀ data redPlType, Accepts data → packet = packed data redPlType →
      header.payloadType = redPlType → getByte data 1 &&& 0x7f ≠ ulp →
      data.length ≤ IP_PACKET_SIZE →
      ∃ q, r.addReceivedRedPacket header packet ulp = some (0, r.queue [q] 0) ∧
        q.pkt.bytes = data ∧ q.pkt.length = data.length ∧ q.isFec = false ∧
        q.seqNum = header.sequenceNumber) := by
  obtain ⟨hok, hfields⟩ := parse_spec hp
  have ha := hok.1 rfl
  obtain ⟨h12, hle⟩ := headerEnd_bounds ha
  have hlength := (hfields rfl).2.2.2
  have hh : header.headerLength = (packet.take header.headerLength).length := by
    rw [List.length_take]
    omega
  have hsplit : ∀ body, packet.drop header.headerLength = body →
      packet = packet.take header.headerLength ++ body := by
    rintro _ rfl
    exact (List.take_append_drop ..).symm
  refine ⟨fun first block hbody hf => ?_, fun first second third fourth next rest hbody hf => ?_,
    fun data redPlType hdata hpacked hred hne hfits => ?_⟩
  · have heq := hsplit _ hbody
    generalize packet.take header.headerLength = hdr at *
    subst heq
    refine ⟨fun hne hfits => ?_, fun htype hfits => ?_⟩
    · exact addReceivedRedPacket_media r ulp hh (by omega) hf hne (hh ▸ hfits)
    · subst htype
      exact addReceivedRedPacket_fec r _ hh (by omega) hf hfits
  · have heq := hsplit _ hbody
    generalize packet.take header.headerLength = hdr at *
    subst heq
    refine ⟨addReceivedRedPacket_refused r ulp hh hf, fun hr hpos hin hfirst hsecond => ?_⟩
    obtain ⟨media, fec, hadd, hmedia, hfec⟩ :=
      addReceivedRedPacket_pair r ulp hh hf hr hpos hin (hh ▸ hfirst) hsecond
    exact ⟨_, _, hadd, hmedia, rfl, hfec, rfl, rfl⟩
  · subst hpacked
    exact (packed_received r ulp hdata hp hred hne hfits).2

theorem red_reception_media : ∃ header q,
    parse (packed [0x80, 96, 0, 1, 0, 0, 0, 0, 0, 0, 0, 9, 5, 6] 100) none {} = some (true, header) ∧
    addReceivedRedPacket {} header
      (packed [0x80, 96, 0, 1, 0, 0, 0, 0, 0, 0, 0, 9, 5, 6] 100) 97 = some (0, queue {} [q] 0) ∧
    q.pkt.bytes = [0x80, 96, 0, 1, 0, 0, 0, 0, 0, 0, 0, 9, 5, 6] := by
  have hp : (parse (packed [0x80, 96, 0, 1, 0, 0, 0, 0, 0, 0, 0, 9, 5, 6] 100) none {}) =
      some (true, { payloadType := 100, sequenceNumber := 1, ssrc := 9, headerLength := 12 }) := by
    decide
  have ha : Accepts [0x80, 96, 0, 1, 0, 0, 0, 0, 0, 0, 0, 9, 5, 6] :=
    ⟨by decide, by decide, by decide, fun h => absurd rfl h, by decide⟩
  obtain ⟨q, hq, hbytes, -⟩ :=
    (red_reception {} 97 hp).2.2 _ _ ha rfl rfl (by decide) (by decide)
  exact ⟨_, q, hp, hq, hbytes⟩

/-- A block of FEC is queued without the header. -/
theorem fec_without_header : ∃ header,
    parse [0x80, 100, 0, 1, 0, 0, 0, 0, 0, 0, 0, 9, 97, 1, 2, 3] none {} = some (true, header) ∧
    (addReceivedRedPacket {} header
      [0x80, 100, 0, 1, 0, 0, 0, 0, 0, 0, 0, 9, 97, 1, 2, 3] 97).map
        (fun x => x.2.receivedPacketList.map (·.pkt.bytes)) = some [[1, 2, 3]] :=
  ⟨{ payloadType := 100, sequenceNumber := 1, ssrc := 9, headerLength := 12 },
    by decide, by decide⟩

end FecReceiver

end RtcCore.L1
