import RtcCore.Core.Serial
import RtcCore.L1Wire.H264

/-!
# One frame's packets: `VCMSessionInfo`

A session is the list of a frame's packets in sequence-number order together
with the numbers of its first and last packet. `InsertPacket` finds a packet's
place by a reverse scan, expands its payload into the frame buffer (start
codes, STAP-A split), shifting what follows, and recomputes completeness.

A packet in the list keeps what `InsertBuffer` writes to it: `dataPtr`, an
offset into the frame buffer, and `sizeBytes`, the expanded size. The value
-1 of the `int` sequence numbers is `none`. The asserts of `InsertPacket` are
the predicate `assertsHold`; the function itself is the release build's.
-/
namespace RtcCore.L3

open Bytes Serial

/-- The values `CopyCodecSpecifics` sets. -/
inductive VideoCodecType where
  | vp8 | h264 | unknown
  deriving DecidableEq, Repr

/-- mirrors webrtc/modules/video_coding/main/source/jitter_buffer_common.h:62-68 -/
inductive NaluCompleteness where
  | unset | complete | start | incomplete | nend
  deriving DecidableEq, Repr

/-- `VCMPacket`; `data` is the `sizeBytes` octets at `dataPtr`.
mirrors webrtc/modules/video_coding/main/source/packet.h:20-58 -/
structure VCMPacket where
  timestamp : UInt32
  seqNum : UInt16
  data : Bytes
  markerBit : Bool
  frameType : FrameType
  codec : VideoCodecType
  isFirstPacket : Bool
  completeNALU : NaluCompleteness
  insertStartCode : Bool
  codecSpecificHeader : VideoHeader
  deriving DecidableEq, Repr

/-- The constructor from a received payload, with `CopyCodecSpecifics`.
mirrors webrtc/modules/video_coding/main/source/packet.cc:37-58, 101-139 -/
def VCMPacket.ofRtp (data : Bytes) (timestamp : UInt32) (seqNum : UInt16) (markerBit : Bool)
    (frameType : FrameType) (video : VideoHeader) : VCMPacket :=
  let p : VCMPacket :=
    { timestamp, seqNum, data, markerBit, frameType
      codec := .unknown
      isFirstPacket := video.isFirstPacket
      completeNALU := .complete
      insertStartCode := false
      codecSpecificHeader := video }
  match video.codec with
  | .vp8 _ =>
    { p with
      completeNALU :=
        if video.isFirstPacket && markerBit then .complete
        else if video.isFirstPacket then .start
        else if markerBit then .nend
        else .incomplete
      codec := .vp8 }
  | .h264 h =>
    { p with
      insertStartCode := video.isFirstPacket
      completeNALU :=
        if h.singleNalu then .complete
        else if video.isFirstPacket then .start
        else if markerBit then .nend
        else .incomplete
      codec := .h264 }
  | .generic => p
  | .none => p

def VCMPacket.ofParsed (p : ParsedPayload) (timestamp : UInt32) (seqNum : UInt16)
    (markerBit : Bool) : VCMPacket :=
  .ofRtp p.payload timestamp seqNum markerBit p.frameType p.video

def VCMPacket.isStapA (p : VCMPacket) : Bool :=
  match p.codecSpecificHeader.codec with
  | .h264 h => h.stapA
  | _ => false

namespace Session

def kMaxPacketsInSession : Nat := 800
def kH264StartCodeLengthBytes : Nat := 4
def startCode : Bytes := [0, 0, 0, 1]

/-- A packet in the list, as `InsertBuffer` leaves it. -/
structure Stored where
  pkt : VCMPacket
  dataPtr : Nat
  sizeBytes : Nat
  deriving DecidableEq, Repr

inductive DecodeErrorMode where
  | noErrors | selectiveErrors | withErrors
  deriving DecidableEq, Repr

/-- mirrors webrtc/modules/video_coding/main/source/session_info.h:23-26 -/
structure FrameData where
  rttMs : Int
  rollingAveragePacketsPerFrame : Float32

/-- mirrors webrtc/modules/video_coding/main/source/session_info.h:149-167;
`session_nack_` is only ever reset. -/
structure Info where
  complete : Bool := false
  decodable : Bool := false
  frameType : FrameType := .delta
  packets : List Stored := []
  emptySeqNumLow : Option UInt16 := none
  emptySeqNumHigh : Option UInt16 := none
  firstPacketSeqNum : Option UInt16 := none
  lastPacketSeqNum : Option UInt16 := none
  deriving DecidableEq, Repr

/-! ## The frame buffer -/

/-- `memcpy(buf + off, src, src.length)`. -/
def writeAt (buf : Bytes) (off : Nat) (src : Bytes) : Bytes :=
  buf.take off ++ src ++ buf.drop (off + src.length)

/-- `memmove(buf + dst, buf + src, len)`. -/
def memmove (buf : Bytes) (dst src len : Nat) : Bytes := writeAt buf dst (slice buf src len)

def sizes (ps : List Stored) : Nat := (ps.map Stored.sizeBytes).sum

/-- mirrors webrtc/modules/video_coding/main/source/session_info.cc:110-115 -/
def Info.sessionLength (s : Info) : Nat := sizes s.packets

/-- The packets after the inserted one and their octets move by `steps`.
mirrors webrtc/modules/video_coding/main/source/session_info.cc:190-205 -/
def shiftSubsequentPackets (buf : Bytes) (rest : List Stored) (steps : Nat) : Bytes × List Stored :=
  match rest with
  | [] => (buf, [])
  | p :: ps =>
    (memmove buf (p.dataPtr + steps) p.dataPtr (sizes (p :: ps)),
      (p :: ps).map fun q => { q with dataPtr := q.dataPtr + steps })

/-- `Insert`: the buffer and the length written.
mirrors webrtc/modules/video_coding/main/source/session_info.cc:174-188 -/
def insert (src : Bytes) (insertStartCode : Bool) (buf : Bytes) (off : Nat) : Bytes × Nat :=
  let buf := if insertStartCode then writeAt buf off startCode else buf
  let sc := if insertStartCode then kH264StartCodeLengthBytes else 0
  (writeAt buf (off + sc) src, src.length + sc)

/-- The first loop over a STAP-A, from `ptr` on.
mirrors webrtc/modules/video_coding/main/source/session_info.cc:141-148 -/
def stapRequiredLength (data : Bytes) (sc : Bool) : Nat → Nat → Nat
  | 0, _ => 0
  | fuel + 1, ptr =>
    if ptr < data.length then
      rd16 data ptr + (if sc then kH264StartCodeLengthBytes else 0) +
        stapRequiredLength data sc fuel (ptr + 2 + rd16 data ptr)
    else 0

/-- The second loop: each NAL unit to `off` in the frame buffer.
mirrors webrtc/modules/video_coding/main/source/session_info.cc:151-161 -/
def stapInsert (data : Bytes) (sc : Bool) : Nat → Nat → Bytes → Nat → Bytes
  | 0, _, buf, _ => buf
  | fuel + 1, ptr, buf, off =>
    if ptr < data.length then
      let length := rd16 data ptr
      let r := insert (slice data (ptr + 2) length) sc buf off
      stapInsert data sc fuel (ptr + 2 + length) r.1 (off + r.2)
    else buf

/-- `InsertBuffer` for packet `p` between `front` and `back`: the buffer and
the new list.
mirrors webrtc/modules/video_coding/main/source/session_info.cc:119-172 -/
def insertBuffer (buf : Bytes) (front : List Stored) (p : VCMPacket) (back : List Stored) :
    Bytes × List Stored × Nat :=
  let offset := sizes front
  if p.isStapA then
    let required := stapRequiredLength p.data p.insertStartCode p.data.length 1
    let r := shiftSubsequentPackets buf back required
    (stapInsert p.data p.insertStartCode p.data.length 1 r.1 offset,
      front ++ ⟨p, offset, required⟩ :: r.2, required)
  else
    let steps := p.data.length + (if p.insertStartCode then kH264StartCodeLengthBytes else 0)
    let r := shiftSubsequentPackets buf back steps
    let i := insert p.data p.insertStartCode r.1 offset
    (i.1, front ++ ⟨p, offset, i.2⟩ :: r.2, i.2)

/-! ## Completeness -/

def Info.haveFirstPacket (s : Info) : Bool := !s.packets.isEmpty && s.firstPacketSeqNum.isSome

def Info.haveLastPacket (s : Info) : Bool := !s.packets.isEmpty && s.lastPacketSeqNum.isSome

/-- Each packet's number is one past the number before it. -/
def inSequence : List Stored → Bool
  | [] => true
  | [_] => true
  | p :: q :: ps => decide (p.pkt.seqNum + 1 = q.pkt.seqNum) && inSequence (q :: ps)

/-- mirrors webrtc/modules/video_coding/main/source/session_info.cc:207-223 -/
def Info.updateCompleteSession (s : Info) : Info :=
  if s.haveFirstPacket && s.haveLastPacket then { s with complete := inSequence s.packets } else s

/-- mirrors webrtc/modules/video_coding/main/source/session_info.cc:225-249 -/
def Info.updateDecodableSession (s : Info) (d : FrameData) : Info :=
  let n : Float32 := Float32.ofNat s.packets.length
  if s.complete || s.decodable then s
  else if d.rttMs < 100 || s.frameType == .key || !s.haveFirstPacket ||
      (decide (n ≤ 0.8 * d.rollingAveragePacketsPerFrame) &&
        decide (0.2 * d.rollingAveragePacketsPerFrame < n)) then s
  else { s with decodable := true }

/-! ## InsertPacket -/

/-- mirrors webrtc/modules/video_coding/main/source/session_info.cc:550-562 -/
def Info.informOfEmptyPacket (s : Info) (seq : UInt16) : Info :=
  { s with
    emptySeqNumHigh := some (match s.emptySeqNumHigh with
      | none => seq
      | some h => latestSequenceNumber seq h)
    emptySeqNumLow := match s.emptySeqNumLow with
      | none => some seq
      | some l => if isNewerSequenceNumber l seq then some seq else some l }

/-- The reverse scan stops at the first packet that is not newer. -/
def notBefore (seq : UInt16) (p : Stored) : Bool :=
  latestSequenceNumber seq p.pkt.seqNum != seq

/-- The packets up to `rit`. -/
def scanFront (ps : List Stored) (seq : UInt16) : List Stored :=
  (ps.reverse.dropWhile (notBefore seq)).reverse

/-- The packets the scan passed over. -/
def scanBack (ps : List Stored) (seq : UInt16) : List Stored :=
  (ps.reverse.takeWhile (notBefore seq)).reverse

/-- The duplicate check at `rit`. -/
def isDuplicate (front : List Stored) (seq : UInt16) : Bool :=
  match front.getLast? with
  | none => false
  | some q => q.pkt.seqNum == seq && decide (0 < q.sizeBytes)

/-- The asserts between the duplicate check and the bookkeeping.
mirrors webrtc/modules/video_coding/main/source/session_info.cc:472-491 -/
def Info.assertsHold (s : Info) (p : VCMPacket) : Bool :=
  if p.isFirstPacket then
    s.firstPacketSeqNum.isNone && s.packets.all fun q => isNewerSequenceNumber q.pkt.seqNum p.seqNum
  else if p.markerBit then
    s.lastPacketSeqNum.isNone && s.packets.all fun q => isNewerSequenceNumber p.seqNum q.pkt.seqNum
  else
    (match s.firstPacketSeqNum with
      | none => true
      | some f => isNewerSequenceNumber p.seqNum f) &&
    (match s.lastPacketSeqNum with
      | none => true
      | some l => isNewerSequenceNumber l p.seqNum)

/-- The H.264 and generic branch: the frame type is the packet's and the
boundaries widen.
mirrors webrtc/modules/video_coding/main/source/session_info.cc:494-505 -/
def Info.trackWidening (s : Info) (p : VCMPacket) : Info :=
  { s with
    frameType := p.frameType
    firstPacketSeqNum :=
      match s.firstPacketSeqNum with
      | none => if p.isFirstPacket then some p.seqNum else none
      | some f => if p.isFirstPacket && isNewerSequenceNumber f p.seqNum then some p.seqNum
          else some f
    lastPacketSeqNum :=
      match s.lastPacketSeqNum with
      | none => if p.markerBit then some p.seqNum else none
      | some l => if p.markerBit && isNewerSequenceNumber p.seqNum l then some p.seqNum
          else some l }

/-- The other codecs' first-packet bookkeeping; `none` is the -3 return.
mirrors webrtc/modules/video_coding/main/source/session_info.cc:511-526 -/
def Info.trackFirst (s : Info) (p : VCMPacket) : Option Info :=
  match s.firstPacketSeqNum with
  | none =>
    if p.isFirstPacket then
      some { s with frameType := p.frameType, firstPacketSeqNum := some p.seqNum }
    else if s.frameType = .empty ∧ p.frameType ≠ .empty then some { s with frameType := p.frameType }
    else some s
  | some f =>
    if isNewerSequenceNumber f p.seqNum then none
    else if s.frameType = .empty ∧ p.frameType ≠ .empty then some { s with frameType := p.frameType }
    else some s

/-- mirrors webrtc/modules/video_coding/main/source/session_info.cc:528-536 -/
def Info.trackLast (s : Info) (p : VCMPacket) : Option Info :=
  match s.lastPacketSeqNum with
  | none => if p.markerBit then some { s with lastPacketSeqNum := some p.seqNum } else some s
  | some l => if isNewerSequenceNumber p.seqNum l then none else some s

/-- The state when `-3` is returned from the marker check: the first-packet
bookkeeping has been done. -/
def Info.track (s : Info) (p : VCMPacket) : Bool × Info :=
  if p.codec = .unknown ∨ p.codec = .h264 then (true, s.trackWidening p)
  else
    match s.trackFirst p with
    | none => (false, s)
    | some s₁ =>
      match s₁.trackLast p with
      | none => (false, s₁)
      | some s₂ => (true, s₂)

/-- mirrors webrtc/modules/video_coding/main/source/session_info.cc:538-548 -/
def Info.updateDecodable (s : Info) (mode : DecodeErrorMode) (d : FrameData) : Info :=
  match mode with
  | .withErrors => { s with decodable := true }
  | .selectiveErrors => s.updateDecodableSession d
  | .noErrors => s

/-- Return value, session and frame buffer.
mirrors webrtc/modules/video_coding/main/source/session_info.cc:439-548 -/
def insertPacket (s : Info) (buf : Bytes) (p : VCMPacket) (mode : DecodeErrorMode)
    (d : FrameData) : Int × Info × Bytes :=
  if p.frameType = .empty then (0, s.informOfEmptyPacket p.seqNum, buf)
  else if s.packets.length = kMaxPacketsInSession then (-1, s, buf)
  else if isDuplicate (scanFront s.packets p.seqNum) p.seqNum then (-2, s, buf)
  else
    let t := s.track p
    if t.1 then
      let r := insertBuffer buf (scanFront s.packets p.seqNum) p (scanBack s.packets p.seqNum)
      (r.2.2, (({ t.2 with packets := r.2.1 } : Info).updateCompleteSession).updateDecodable mode d,
        r.1)
    else (-3, t.2, buf)

/-- No assert of the call fails: they stand behind the three early returns. -/
def assertsPass (s : Info) (p : VCMPacket) : Bool :=
  decide (p.frameType = .empty) || decide (s.packets.length = kMaxPacketsInSession) ||
    isDuplicate (scanFront s.packets p.seqNum) p.seqNum || s.assertsHold p

/-! ## What the updates leave alone -/

theorem updateDecodable_eq (s : Info) (mode : DecodeErrorMode) (d : FrameData) :
    ∃ b, s.updateDecodable mode d = { s with decodable := b } := by
  cases mode with
  | noErrors => exact ⟨s.decodable, rfl⟩
  | withErrors => exact ⟨true, rfl⟩
  | selectiveErrors =>
    simp only [Info.updateDecodable, Info.updateDecodableSession]
    split
    · exact ⟨s.decodable, rfl⟩
    · split
      · exact ⟨s.decodable, rfl⟩
      · exact ⟨true, rfl⟩

theorem updateCompleteSession_eq (s : Info) :
    s.updateCompleteSession = { s with complete :=
      if s.haveFirstPacket && s.haveLastPacket then inSequence s.packets else s.complete } := by
  unfold Info.updateCompleteSession
  split <;> rfl

/-! ## The reverse scan -/

theorem scan_split (ps : List Stored) (seq : UInt16) :
    scanFront ps seq ++ scanBack ps seq = ps := by
  rw [scanFront, scanBack, ← List.reverse_append, List.takeWhile_append_dropWhile,
    List.reverse_reverse]

theorem mem_scanBack {ps : List Stored} {seq : UInt16} {q : Stored} (h : q ∈ scanBack ps seq) :
    notBefore seq q = true := by
  rw [scanBack, List.mem_reverse] at h
  exact List.all_eq_true.1 List.all_takeWhile q h

theorem scanFront_last {ps : List Stored} {seq : UInt16} {q : Stored}
    (h : (scanFront ps seq).getLast? = some q) : notBefore seq q = false := by
  rw [scanFront, List.getLast?_reverse] at h
  have := List.head?_dropWhile_not (notBefore seq) ps.reverse
  rw [h] at this
  simpa using this

/-- Where a packet stands relative to `base`. -/
def key (base : UInt16) (q : Stored) : Nat := dist base q.pkt.seqNum

theorem notBefore_iff {base seq : UInt16} {q : Stored} (hs : dist base seq < 0x8000)
    (hq : key base q < 0x8000) : notBefore seq q = true ↔ dist base seq < key base q := by
  rw [notBefore, bne_iff_ne, ne_eq, latest_dist hs hq, Nat.not_le]
  exact Iff.rfl

/-- In a list ordered by `key` the scan splits at the packet's number. -/
theorem scan_order {base seq : UInt16} {ps : List Stored} (hs : dist base seq < 0x8000)
    (hk : ∀ q ∈ ps, key base q < 0x8000)
    (ho : ps.Pairwise fun a b => key base a ≤ key base b) :
    (∀ q ∈ scanFront ps seq, key base q ≤ dist base seq) ∧
      ∀ q ∈ scanBack ps seq, dist base seq < key base q := by
  have hsplit := scan_split ps seq
  have hf : ∀ q ∈ scanFront ps seq, q ∈ ps := fun q hq => by
    rw [← hsplit]; exact List.mem_append_left _ hq
  have hb : ∀ q ∈ scanBack ps seq, q ∈ ps := fun q hq => by
    rw [← hsplit]; exact List.mem_append_right _ hq
  rw [← hsplit] at ho
  refine ⟨?_, fun q hq => (notBefore_iff hs (hk q (hb q hq))).1 (mem_scanBack hq)⟩
  intro q hq
  have hof := (List.pairwise_append.1 ho).1
  cases hl : (scanFront ps seq).getLast? with
  | none =>
    rw [List.getLast?_eq_none_iff] at hl
    rw [hl] at hq
    exact absurd hq List.not_mem_nil
  | some l =>
    obtain ⟨init, hi⟩ := List.getLast?_eq_some_iff.1 hl
    have hlm : l ∈ scanFront ps seq := List.mem_of_getLast? hl
    have hle : key base l ≤ dist base seq := by
      have := scanFront_last hl
      have hn := notBefore_iff hs (hk l (hf l hlm))
      rw [this] at hn
      exact Nat.le_of_not_lt fun h => Bool.false_ne_true (hn.2 h)
    rw [hi] at hof hq
    rcases List.mem_append.1 hq with hq | hq
    · exact Nat.le_trans ((List.pairwise_append.1 hof).2.2 q hq l (List.mem_singleton.2 rfl)) hle
    · rw [List.mem_singleton.1 hq]; exact hle

end Session

end RtcCore.L3
