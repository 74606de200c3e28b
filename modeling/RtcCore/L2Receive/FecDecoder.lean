import RtcCore.Core.LTS
import RtcCore.Core.Loop
import RtcCore.Core.Ranked
import RtcCore.Core.Search
import RtcCore.L1Wire.RedPacket
import RtcCore.L2Send.FecMask

/-!
# The FEC decoder

`ForwardErrorCorrection::DecodeFEC`: media packets and recovered ones in one
list, FEC packets in another one, each with the packets that it protects and a
pointer to those that are known. A FEC packet with one pointer missing gives
that packet, and every other FEC packet that protects it gets a pointer to it.

Both lists are sorted by `LessThan`, which is no order on the whole circle.
`std::lower_bound` is any `Search`. `AssignRecoveredPackets` looks for each
packet of an intersection without a check for the end of the list; it has no
value where it passes the end.

The data of a packet are 1500 octets. What a protection length or the length of
a recovered packet makes the code read or write behind them is not modelled:
such octets are read as 0, and are dropped. Which packets are recovered, and when,
does not depend on them.
-/
namespace RtcCore.L2.FecDecoder

open Bytes Serial L1.ForwardErrorCorrection

/-! ## Packets -/

/-- `SortablePacket::LessThan`.
mirrors webrtc/modules/rtp_rtcp/source/forward_error_correction.cc:74-77 -/
def lessThan (first second : UInt16) : Bool := isNewerSequenceNumber second first

/-- mirrors webrtc/modules/rtp_rtcp/source/forward_error_correction.h:34 -/
def kMaxMediaPackets : Nat := 48

def kMaxFecPackets : Nat := kMaxMediaPackets

/-- mirrors webrtc/modules/rtp_rtcp/source/forward_error_correction.cc:27-36 -/
def kFecHeaderSize : Nat := 10

def kUlpHeaderSizeLBitSet : Nat := 2 + FecMask.kMaskSizeLBitSet

def kUlpHeaderSizeLBitClear : Nat := 2 + FecMask.kMaskSizeLBitClear

def kRtpHeaderSize : Nat := 12

def ipPacketSize : Nat := 1500

/-- mirrors webrtc/modules/rtp_rtcp/source/forward_error_correction.cc:56-59 -/
structure ProtectedPacket where
  seqNum : UInt16
  pkt : Option Packet
  deriving DecidableEq

def seqNums (ps : List ProtectedPacket) : List UInt16 := ps.map (·.seqNum)

/-- The numbers come from a mask, so each one is less than those behind it.
mirrors webrtc/modules/rtp_rtcp/source/forward_error_correction.cc:67-72 -/
structure FecPacket where
  seqNum : UInt16
  ssrc : Option UInt32
  pkt : Packet
  protectedPktList : List ProtectedPacket
  ascending : (seqNums protectedPktList).Pairwise fun a b => lessThan a b = true

/-- `lengthRecovery` is not set in a media packet.
mirrors webrtc/modules/rtp_rtcp/source/forward_error_correction.h:101-115 -/
structure RecoveredPacket where
  seqNum : UInt16
  wasRecovered : Bool
  returned : Bool
  lengthRecovery : Bytes
  pkt : Packet
  deriving DecidableEq

/-- `fec_packet_list_` and the list of the caller.
mirrors webrtc/modules/rtp_rtcp/source/forward_error_correction.h:306-308 -/
structure Decoder where
  fecPacketList : List FecPacket := []
  recoveredPacketList : List RecoveredPacket := []

def recoveredSeqs (l : List RecoveredPacket) : List UInt16 := l.map (·.seqNum)

/-! ## Recovery of a packet -/

/-- `n` octets of the data, as `memcpy` takes them. -/
def octets (p : Packet) (off n : Nat) : Bytes :=
  (List.range n).map fun i => getByte p.data (off + i)

def lBit (p : Packet) : Bool := getByte p.data 0 &&& 0x40 != 0

theorem load_fits (mem : Memory) :
    (Memory.load mem 0 ipPacketSize).length ≤ L1.Rtcp.RtcpPacket.IP_PACKET_SIZE :=
  (Memory.load_length ..).le

theorem mapIdx_fits (p : Packet) (f : Nat → UInt8 → UInt8) :
    (p.data.mapIdx f).length ≤ L1.Rtcp.RtcpPacket.IP_PACKET_SIZE :=
  List.length_mapIdx.trans_le p.fits

/-- mirrors webrtc/modules/rtp_rtcp/source/forward_error_correction.cc:637-663 -/
def initRecovery (fec : FecPacket) : RecoveredPacket :=
  let ulpHeaderSize := if lBit fec.pkt then kUlpHeaderSizeLBitSet else kUlpHeaderSizeLBitClear
  let protectionLength := rd16 fec.pkt.data 10
  let payload := octets fec.pkt (kFecHeaderSize + ulpHeaderSize) protectionLength
  let mem := Memory.store (fun _ => 0) kRtpHeaderSize payload
  let mem := Memory.store mem 0 (octets fec.pkt 0 2)
  let mem := Memory.store mem 4 (octets fec.pkt 4 4)
  let mem := Memory.store mem 8 (be32 (fec.ssrc.getD 0).toNat)
  { seqNum := 0
    wasRecovered := true
    returned := false
    lengthRecovery := octets fec.pkt 8 2
    pkt := { length := 0, data := Memory.load mem 0 ipPacketSize, fits := load_fits mem } }

def xorBytes (a b : Bytes) : Bytes := a.zipWith (· ^^^ ·) b

/-- mirrors webrtc/modules/rtp_rtcp/source/forward_error_correction.cc:679-701 -/
def xorPackets (src : Packet) (dst : RecoveredPacket) : RecoveredPacket :=
  let mediaPayloadLength := be16 (L1.sizeSub src.length kRtpHeaderSize)
  { dst with
    lengthRecovery := xorBytes dst.lengthRecovery mediaPayloadLength
    pkt := { dst.pkt with
      data := dst.pkt.data.mapIdx fun i x =>
        if i < 2 ∨ 4 ≤ i ∧ i < 8 ∨ kRtpHeaderSize ≤ i ∧ i < src.length then x ^^^ getByte src.data i
        else x
      fits := mapIdx_fits .. } }

/-- mirrors webrtc/modules/rtp_rtcp/source/forward_error_correction.cc:665-677 -/
def finishRecovery (p : RecoveredPacket) : RecoveredPacket :=
  let version := (getByte p.pkt.data 0 ||| 0x80) &&& 0xbf
  let mem := Memory.store (Memory.store (getByte p.pkt.data) 0 [version]) 2 (be16 p.seqNum.toNat)
  { p with pkt := {
      length := rd16 p.lengthRecovery 0 + kRtpHeaderSize
      data := Memory.load mem 0 ipPacketSize
      fits := load_fits mem } }

/-- The body of the loop over the protected packets. -/
def addProtected (p : RecoveredPacket) (q : ProtectedPacket) : RecoveredPacket :=
  match q.pkt with
  | none => { p with seqNum := q.seqNum } -- This is the packet we're recovering.
  | some pkt => xorPackets pkt p

/-- mirrors webrtc/modules/rtp_rtcp/source/forward_error_correction.cc:703-718 -/
def recoverPacket (fec : FecPacket) : RecoveredPacket :=
  finishRecovery (fec.protectedPktList.foldl addProtected (initRecovery fec))

/-! ## Pointers -/

/-- The list sorted again, with a packet at its end. -/
def insertRecovered (l : List RecoveredPacket) (p : RecoveredPacket) : List RecoveredPacket :=
  sortBy lessThan (·.seqNum) (l ++ [p])

def setPkt (pkt : Packet) (q : ProtectedPacket) : ProtectedPacket := { q with pkt := some pkt }

theorem seqNums_modify (ps : List ProtectedPacket) (i : Nat) (pkt : Packet) :
    seqNums (ps.modify i (setPkt pkt)) = seqNums ps := by
  unfold seqNums
  induction ps generalizing i with
  | nil => simp
  | cons q ps ih =>
    cases i with
    | zero => rfl
    | succ i => rw [List.modify_succ_cons, List.map_cons, List.map_cons, ih]

/-- The same packet with other pointers. -/
def FecPacket.withList (f : FecPacket) (ps : List ProtectedPacket)
    (h : seqNums ps = seqNums f.protectedPktList) : FecPacket :=
  { f with protectedPktList := ps, ascending := h ▸ f.ascending }

/-- `UpdateCoveringFECPackets` for one FEC packet.
mirrors webrtc/modules/rtp_rtcp/source/forward_error_correction.cc:504-517 -/
def updateCovering (lowerBound : Search UInt16) (p : RecoveredPacket) (f : FecPacket) : FecPacket :=
  let i := lowerBound.bound (fun seq => lessThan seq p.seqNum) (seqNums f.protectedPktList)
  if (seqNums f.protectedPktList)[i]? = some p.seqNum then
    f.withList (f.protectedPktList.modify i (setPkt p.pkt)) (seqNums_modify _ i p.pkt)
  else f

/-- The loop of `AssignRecoveredPackets`: the walk along the protected packets goes on where the
packet before was found. -/
def assignLoop : List RecoveredPacket → List ProtectedPacket → Option (List ProtectedPacket)
  | [], ps => some ps
  | r :: rs, ps =>
    match ps.dropWhile (·.seqNum != r.seqNum) with
    | [] => none
    | q :: rest =>
      (assignLoop rs (setPkt r.pkt q :: rest)).map (ps.takeWhile (·.seqNum != r.seqNum) ++ ·)

theorem assignLoop_seqNums {rs : List RecoveredPacket} {ps ps' : List ProtectedPacket}
    (h : assignLoop rs ps = some ps') : seqNums ps' = seqNums ps := by
  induction rs generalizing ps ps' with
  | nil =>
    cases h
    rfl
  | cons r rs ih =>
    rw [assignLoop] at h
    split at h
    · cases h
    · rename_i q rest heq
      obtain ⟨tail, htail, rfl⟩ := Option.map_eq_some_iff.1 h
      have hsplit := List.takeWhile_append_dropWhile (p := (·.seqNum != r.seqNum)) (l := ps)
      rw [heq] at hsplit
      have hrest := ih htail
      conv => rhs; rw [← hsplit]
      simp only [seqNums, List.map_append] at hrest ⊢
      rw [hrest]
      rfl

/-- mirrors webrtc/modules/rtp_rtcp/source/forward_error_correction.cc:576-597 -/
def assignRecoveredPackets (f : FecPacket) (recovered : List RecoveredPacket) : Option FecPacket :=
  let alreadyRecovered := setIntersection lessThan (RecoveredPacket.seqNum ·)
    (ProtectedPacket.seqNum ·) recovered f.protectedPktList
  (assignLoop alreadyRecovered f.protectedPktList).pmap f.withList
    fun _ h => assignLoop_seqNums h

/-! ## Reception -/

/-- The numbers that a mask stands for.
mirrors webrtc/modules/rtp_rtcp/source/forward_error_correction.cc:539-557 -/
def protectedSeqs (p : Packet) : List UInt16 :=
  let seqNumBase := UInt16.ofNat (rd16 p.data 2)
  let maskSizeBytes := if lBit p then FecMask.kMaskSizeLBitSet else FecMask.kMaskSizeLBitClear
  ((List.range (8 * maskSizeBytes)).filter (BitRow.column fun j => getByte p.data (12 + j))).map
    fun k => seqNumBase + .ofNat k

theorem lessThan_add (base : UInt16) {i k : Nat} (h : i < k) (hk : k < 48) :
    lessThan (base + .ofNat i) (base + .ofNat k) = true := by
  have hi := dist_add base (show i < 65536 by omega)
  have hk := dist_add base (show k < 65536 by omega)
  rw [lessThan, newer_dist base (by omega) (by omega), hi, hk]
  exact decide_eq_true h

theorem protectedSeqs_ascending (p : Packet) :
    (protectedSeqs p).Pairwise fun a b => lessThan a b = true := by
  rw [protectedSeqs, List.pairwise_map]
  refine List.Pairwise.imp_of_mem ?_ (List.Pairwise.filter _ List.pairwise_lt_range)
  intro i k _ hk hlt
  have hk := List.mem_range.1 (List.mem_of_mem_filter hk)
  refine lessThan_add _ hlt ?_
  split at hk <;> simp only [FecMask.kMaskSizeLBitSet, FecMask.kMaskSizeLBitClear] at hk <;> omega

def FecPacket.ofReceived (rx : ReceivedPacket) : FecPacket where
  seqNum := rx.seqNum
  ssrc := rx.ssrc
  pkt := rx.pkt
  protectedPktList := (protectedSeqs rx.pkt).map fun seq => ⟨seq, none⟩
  ascending := by
    rw [seqNums, List.map_map]
    exact (List.map_id (protectedSeqs rx.pkt)).symm ▸ protectedSeqs_ascending rx.pkt

/-- mirrors webrtc/modules/rtp_rtcp/source/forward_error_correction.cc:519-574 -/
def insertFecPacket (d : Decoder) (rx : ReceivedPacket) : Option Decoder :=
  if d.fecPacketList.any (·.seqNum == rx.seqNum) then some d
  else if protectedSeqs rx.pkt = [] then some d
  else do
    let fec ← assignRecoveredPackets (.ofReceived rx) d.recoveredPacketList
    let l := sortBy lessThan (·.seqNum) (d.fecPacketList ++ [fec])
    some { d with fecPacketList := if l.length > kMaxFecPackets then l.tail else l }

/-- mirrors webrtc/modules/rtp_rtcp/source/forward_error_correction.cc:474-502 -/
def insertMediaPacket (lowerBound : Search UInt16) (d : Decoder) (rx : ReceivedPacket) : Decoder :=
  if d.recoveredPacketList.any (·.seqNum == rx.seqNum) then d
  else
    let p : RecoveredPacket := ⟨rx.seqNum, false, true, [], rx.pkt⟩
    { fecPacketList := d.fecPacketList.map (updateCovering lowerBound p)
      recoveredPacketList := insertRecovered d.recoveredPacketList p }

/-- mirrors webrtc/modules/rtp_rtcp/source/forward_error_correction.cc:786-795 -/
def discardOldPackets (l : List RecoveredPacket) : List RecoveredPacket :=
  l.drop (l.length - kMaxMediaPackets)

def seqNumDiff (a b : UInt16) : Nat := ((a.toNat : Int) - b.toNat).natAbs

/-- mirrors webrtc/modules/rtp_rtcp/source/forward_error_correction.cc:605-623 -/
def discardOldestFec (l : List FecPacket) (rx : ReceivedPacket) : List FecPacket :=
  match l with
  | [] => []
  | front :: rest => if seqNumDiff rx.seqNum front.seqNum > 0x3fff then rest else front :: rest

def insertPacket (lowerBound : Search UInt16) (d : Decoder) (rx : ReceivedPacket) :
    Option Decoder :=
  let d := { d with fecPacketList := discardOldestFec d.fecPacketList rx }
  if rx.isFec then insertFecPacket d rx else some (insertMediaPacket lowerBound d rx)

/-- mirrors webrtc/modules/rtp_rtcp/source/forward_error_correction.cc:599-635 -/
def insertPackets (lowerBound : Search UInt16) (d : Decoder) (received : List ReceivedPacket) :
    Option Decoder := do
  let d ← received.foldlM (insertPacket lowerBound) d
  some { d with recoveredPacketList := discardOldPackets d.recoveredPacketList }

/-! ## Recovery -/

/-- The numbers without a pointer. -/
def missingOf (ps : List ProtectedPacket) : List UInt16 := seqNums (ps.filter (·.pkt.isNone))

def FecPacket.missing (f : FecPacket) : List UInt16 := missingOf f.protectedPktList

/-- The count stops at 2.
mirrors webrtc/modules/rtp_rtcp/source/forward_error_correction.cc:761-775 -/
def numCoveredPacketsMissing (f : FecPacket) : Nat :=
  min 2 (f.protectedPktList.countP (·.pkt.isNone))

/-- The iterator of `AttemptRecover` stands between `passed` and `rest`. -/
structure Recovery where
  passed : List FecPacket
  rest : List FecPacket
  recovered : List RecoveredPacket

namespace Recovery

def cond (s : Recovery) : Bool := !s.rest.isEmpty

/-- mirrors webrtc/modules/rtp_rtcp/source/forward_error_correction.cc:722-758 -/
def body (lowerBound : Search UInt16) (s : Recovery) : Recovery :=
  match s.rest with
  | [] => s
  | fec :: rest =>
    if numCoveredPacketsMissing fec = 1 then
      let p := recoverPacket fec
      -- Restart for first FEC packet.
      { passed := []
        rest := (s.passed ++ rest).map (updateCovering lowerBound p)
        recovered := discardOldPackets (insertRecovered s.recovered p) }
    else if numCoveredPacketsMissing fec = 0 then { s with rest := rest }
    else { s with passed := s.passed ++ [fec], rest := rest }

/-- The number that the next round recovers. -/
def recovers (s : Recovery) : Option UInt16 :=
  match s.rest with
  | [] => none
  | fec :: _ =>
    if numCoveredPacketsMissing fec = 1 then some (recoverPacket fec).seqNum else none

def fecs (s : Recovery) : List FecPacket := s.passed ++ s.rest

def measure (s : Recovery) : Nat := s.fecs.length * s.fecs.length + s.rest.length

end Recovery

def Decoder.recovery (d : Decoder) : Recovery := ⟨[], d.fecPacketList, d.recoveredPacketList⟩

/-- The end of the loop. -/
def Decoder.recovered (lowerBound : Search UInt16) (d : Decoder) : Recovery :=
  runWhile Recovery.cond (Recovery.body lowerBound) d.recovery.measure d.recovery

/-- mirrors webrtc/modules/rtp_rtcp/source/forward_error_correction.cc:720-759 -/
def attemptRecover (lowerBound : Search UInt16) (d : Decoder) : Decoder :=
  let s := d.recovered lowerBound
  ⟨s.fecs, s.recovered⟩

/-- The start of `DecodeFEC`; `front` of an empty list has no value.
mirrors webrtc/modules/rtp_rtcp/source/forward_error_correction.cc:806-815 -/
def resetOnGap (d : Decoder) (received : List ReceivedPacket) : Option Decoder :=
  if d.recoveredPacketList.length = kMaxMediaPackets then do
    let front ← received.head?
    let back ← d.recoveredPacketList.getLast?
    if seqNumDiff front.seqNum back.seqNum > kMaxMediaPackets then some {} else some d
  else some d

/-- mirrors webrtc/modules/rtp_rtcp/source/forward_error_correction.cc:801-820 -/
def decodeFec (lowerBound : Search UInt16) (d : Decoder) (received : List ReceivedPacket) :
    Option Decoder := do
  let d ← resetOnGap d received
  let d ← insertPackets lowerBound d received
  some (attemptRecover lowerBound d)

end RtcCore.L2.FecDecoder
