import RtcCore.L3Video.Session

/-!
# A frame in the jitter buffer: `VCMFrameBuffer` and `VCMDecodingState`

A frame buffer wraps a session with the octets it assembles, a state and the
frame's timestamp. The decoding state remembers the last frame given to the
decoder and judges whether another one continues it, by temporal layer, by
picture id or by sequence number.

`id` is the buffer's identity (its address). The octets of freshly allocated
memory are taken to be 0. What only the jitter estimator and the decoder read
(arrival times, rotation, payload type, the trimming of partial NAL units in
`PrepareForDecode`) is left out.
-/
namespace RtcCore.L3

open Serial

/-- mirrors webrtc/modules/video_coding/main/source/jitter_buffer_common.h:52-57 -/
inductive FrameState where
  | empty | incomplete | complete | decodable
  deriving DecidableEq, Repr

/-- mirrors webrtc/modules/video_coding/main/source/jitter_buffer_common.h:37-50;
`kNotInitialized` is never produced. -/
inductive BufferEnum where
  | outOfBoundsPacket | oldPacket | generalError | flushIndicator | timeStampError | sizeError
  | noError | incomplete | completeSession | decodableSession | duplicatePacket
  deriving DecidableEq, Repr

/-- `buffer_state > 0` -/
def BufferEnum.positive : BufferEnum → Bool
  | .incomplete | .completeSession | .decodableSession | .duplicatePacket => true
  | _ => false

/-! ## What a session says about its frame -/

namespace Session

/-- mirrors webrtc/modules/video_coding/main/source/session_info.cc:47-51 -/
def Info.lowSequenceNumber (s : Info) : Option UInt16 :=
  match s.packets.head? with
  | none => s.emptySeqNumLow
  | some q => some q.pkt.seqNum

/-- mirrors webrtc/modules/video_coding/main/source/session_info.cc:53-59 -/
def Info.highSequenceNumber (s : Info) : Option UInt16 :=
  match s.packets.getLast? with
  | none => s.emptySeqNumHigh
  | some q =>
    match s.emptySeqNumHigh with
    | none => some q.pkt.seqNum
    | some e => some (latestSequenceNumber q.pkt.seqNum e)

/-- The VP8 header of the front packet. -/
def Info.vp8 (s : Info) : Option VP8Header :=
  match s.packets.head? with
  | none => none
  | some q =>
    match q.pkt.codecSpecificHeader.codec with
    | .vp8 v => some v
    | _ => none

/-- mirrors webrtc/modules/video_coding/main/source/session_info.cc:61-87 -/
def Info.pictureId (s : Info) : Int := (s.vp8.map VP8Header.pictureId).getD kNoPictureId
def Info.temporalId (s : Info) : Int := (s.vp8.map VP8Header.temporalIdx).getD kNoTemporalIdx
def Info.layerSync (s : Info) : Bool := (s.vp8.map VP8Header.layerSync).getD false
def Info.tl0PicId (s : Info) : Int := (s.vp8.map VP8Header.tl0PicIdx).getD kNoTl0PicIdx

end Session

/-- An `int` sequence number, -1 for none, as `uint16_t`. -/
def toUInt16 (n : Option UInt16) : UInt16 := n.getD 0xFFFF

def kBufferIncStepSizeBytes : Nat := 30000
def kMaxJBFrameSizeBytes : Nat := 4000000

structure FrameBuffer where
  id : Nat
  state : FrameState := .empty
  timestamp : UInt32 := 0
  session : Session.Info := {}
  buffer : Bytes := []
  size : Nat := 0
  length : Nat := 0
  nackCount : Nat := 0
  completeFrame : Bool := false
  missingFrame : Bool := false

namespace FrameBuffer

def frameType (f : FrameBuffer) : FrameType := f.session.frameType
def lowSeqNum (f : FrameBuffer) : Option UInt16 := f.session.lowSequenceNumber
def highSeqNum (f : FrameBuffer) : Option UInt16 := f.session.highSequenceNumber

def isKey (f : FrameBuffer) : Bool := f.frameType == .key

/-- The buffer itself is kept.
mirrors webrtc/modules/video_coding/main/source/frame_buffer.cc:202-212 -/
def reset (f : FrameBuffer) : FrameBuffer :=
  { f with
    state := .empty, timestamp := 0, session := {}, length := 0, nackCount := 0
    completeFrame := false, missingFrame := false }

/-- The first packet of a frame sets its timestamp.
mirrors webrtc/modules/video_coding/main/source/frame_buffer.cc:94-105 -/
def openWith (f : FrameBuffer) (p : VCMPacket) : FrameBuffer :=
  if f.state = .empty then
    { f with timestamp := p.timestamp
             state := if p.frameType = .empty then .empty else .incomplete }
  else f

def requiredSizeBytes (f : FrameBuffer) (p : VCMPacket) : Nat :=
  f.length + p.data.length + (if p.insertStartCode then Session.kH264StartCodeLengthBytes else 0)

/-- The size in steps of `kBufferIncStepSizeBytes`. -/
def newSize (f : FrameBuffer) (required : Nat) : Nat :=
  f.size + (required / kBufferIncStepSizeBytes +
    (if 0 < required % kBufferIncStepSizeBytes then 1 else 0)) * kBufferIncStepSizeBytes

/-- Room for the packet; `none` when the frame would be too big.
mirrors webrtc/modules/video_coding/main/source/frame_buffer.cc:107-124 -/
def grow (f : FrameBuffer) (p : VCMPacket) : Option FrameBuffer :=
  let required := f.requiredSizeBytes p
  if f.size ≤ required then
    if kMaxJBFrameSizeBytes < f.newSize required then none
    else some { f with
      buffer := f.buffer ++ List.replicate (f.newSize required - f.size) 0
      size := f.newSize required }
  else some f

/-- mirrors webrtc/modules/video_coding/main/source/frame_buffer.cc:83-170 -/
def insertPacket (f : FrameBuffer) (p : VCMPacket) (mode : Session.DecodeErrorMode)
    (d : Session.FrameData) : BufferEnum × FrameBuffer :=
  match (f.openWith p).grow p with
  | none => (.sizeError, f.openWith p)
  | some f =>
    let r := Session.insertPacket f.session f.buffer p mode d
    let f := { f with session := r.2.1, buffer := r.2.2 }
    if r.1 = -1 then (.sizeError, f)
    else if r.1 = -2 then (.duplicatePacket, f)
    else if r.1 = -3 then (.outOfBoundsPacket, f)
    else
      let f := { f with length := f.length + r.1.toNat }
      if f.session.complete then (.completeSession, { f with state := .complete })
      else if f.session.decodable then (.decodableSession, { f with state := .decodable })
      else (.incomplete, f)

theorem grow_eq {f g : FrameBuffer} {p : VCMPacket} (h : f.grow p = some g) :
    ∃ buffer size, g = { f with buffer, size } := by
  unfold grow at h
  dsimp only at h
  split at h
  · split at h
    · cases h
    · cases h
      exact ⟨_, _, rfl⟩
  · cases h
    exact ⟨_, _, rfl⟩

/-- mirrors webrtc/modules/video_coding/main/source/frame_buffer.cc:266-286 -/
def prepareForDecode (f : FrameBuffer) (continuous : Bool) : FrameBuffer :=
  { f with completeFrame := f.session.complete, missingFrame := !continuous }

end FrameBuffer

/-! ## The last decoded frame -/

/-- mirrors webrtc/modules/video_coding/main/source/decoding_state.cc:20-40 -/
structure DecodingState where
  sequenceNum : UInt16 := 0
  timestamp : UInt32 := 0
  pictureId : Int := kNoPictureId
  temporalId : Int := kNoTemporalIdx
  tl0PicId : Int := kNoTl0PicIdx
  fullSync : Bool := true
  inInitialState : Bool := true
  deriving DecidableEq, Repr

namespace DecodingState

/-- mirrors webrtc/modules/video_coding/main/source/decoding_state.cc:50-62 -/
def isOld (d : DecodingState) (timestamp : UInt32) : Bool :=
  !d.inInitialState && !isNewerTimestamp timestamp d.timestamp

/-- mirrors webrtc/modules/video_coding/main/source/decoding_state.cc:182-196 -/
def continuousPictureId (d : DecodingState) (pictureId : Int) : Bool :=
  let next := d.pictureId + 1
  if pictureId < d.pictureId then
    if 0x80 ≤ d.pictureId then next % 0x8000 == pictureId else next % 0x80 == pictureId
  else next == pictureId

/-- mirrors webrtc/modules/video_coding/main/source/decoding_state.cc:198-200 -/
def continuousSeqNum (d : DecodingState) (seq : UInt16) : Bool := seq == d.sequenceNum + 1

/-- mirrors webrtc/modules/video_coding/main/source/decoding_state.cc:202-217 -/
def continuousLayer (d : DecodingState) (temporalId tl0PicId : Int) : Bool :=
  if temporalId = kNoTemporalIdx ∨ tl0PicId = kNoTl0PicIdx then false
  else if d.tl0PicId = kNoTl0PicIdx ∧ d.temporalId = kNoTemporalIdx ∧ temporalId = 0 then true
  else if temporalId ≠ 0 then false
  else (d.tl0PicId + 1) % 256 == tl0PicId

def usingPictureId (d : DecodingState) (f : FrameBuffer) : Bool :=
  f.session.pictureId != kNoPictureId && d.pictureId != kNoPictureId

/-- mirrors webrtc/modules/video_coding/main/source/decoding_state.cc:123-147 -/
def updateSyncState (d : DecodingState) (f : FrameBuffer) : DecodingState :=
  if d.inInitialState then d
  else if f.session.temporalId = kNoTemporalIdx ∨ f.session.tl0PicId = kNoTl0PicIdx then
    { d with fullSync := true }
  else if f.isKey || f.session.layerSync then { d with fullSync := true }
  else if d.fullSync then
    if d.usingPictureId f then
      if 1 < f.session.tl0PicId - d.tl0PicId then { d with fullSync := false }
      else { d with fullSync := d.continuousPictureId f.session.pictureId }
    else { d with fullSync := d.continuousSeqNum (toUInt16 f.lowSeqNum) }
  else d

/-- mirrors webrtc/modules/video_coding/main/source/decoding_state.cc:64-73 -/
def setState (d : DecodingState) (f : FrameBuffer) : DecodingState :=
  { d.updateSyncState f with
    sequenceNum := toUInt16 f.highSeqNum
    timestamp := f.timestamp
    pictureId := f.session.pictureId
    temporalId := f.session.temporalId
    tl0PicId := f.session.tl0PicId
    inInitialState := false }

/-- mirrors webrtc/modules/video_coding/main/source/decoding_state.cc:149-180 -/
def continuousFrame (d : DecodingState) (f : FrameBuffer) : Bool :=
  if f.isKey then true
  else if d.inInitialState then false
  else if d.continuousLayer f.session.temporalId f.session.tl0PicId then true
  else if f.session.tl0PicId ≠ d.tl0PicId then false
  else if !d.fullSync && !f.session.layerSync then false
  else if d.usingPictureId f then d.continuousPictureId f.session.pictureId
  else d.continuousSeqNum (toUInt16 f.lowSeqNum)

/-- Whether the frame is dropped, and the state after.
mirrors webrtc/modules/video_coding/main/source/decoding_state.cc:85-100 -/
def updateEmptyFrame (d : DecodingState) (f : FrameBuffer) : Bool × DecodingState :=
  let emptyPacket := f.highSeqNum == f.lowSeqNum
  if d.inInitialState && emptyPacket then (true, d)
  else if (emptyPacket && d.continuousSeqNum (toUInt16 f.highSeqNum)) || d.continuousFrame f then
    (true, { d with sequenceNum := toUInt16 f.highSeqNum, timestamp := f.timestamp })
  else (false, d)

/-- mirrors webrtc/modules/video_coding/main/source/decoding_state.cc:102-109 -/
def updateOldPacket (d : DecodingState) (p : VCMPacket) : DecodingState :=
  if p.timestamp = d.timestamp then
    { d with sequenceNum := latestSequenceNumber p.seqNum d.sequenceNum }
  else d

end DecodingState

end RtcCore.L3
