import RtcCore.Core.Keyed
import RtcCore.Core.LTS
import RtcCore.L3Video.FrameBuffer

/-!
# `VCMJitterBuffer`

Frames wait in two ordered lists, those that can be decoded once everything
before them is (`decodable_frames_`) and the others (`incomplete_frames_`);
free ones wait in `free_frames_`. A packet takes its frame out of its list,
goes in, and puts the frame back where it now belongs. Missing sequence
numbers are kept in an ordered set.

A list holds its frames by value, so the model speaks of the code as long as
no frame is in two places. An assert that guards a null frame ends the run
(`none`); the other asserts are those of a release build. Statistics and the
jitter estimate are left out. `System` adds the frames the decoder has been
given and not yet released.
-/
namespace RtcCore.L3

open Serial

def kMaxNumberOfFrames : Nat := 300
def kStartNumberOfFrames : Nat := 6
def kMaxConsecutiveOldPackets : Nat := 300
def kDefaultRtt : Int := 200

inductive NackMode where
  | nack | noNack
  deriving DecidableEq, Repr

/-! ## Frame lists -/

/-- mirrors webrtc/modules/video_coding/main/source/jitter_buffer.h:55-61 -/
def timestampLessThan (t₁ t₂ : UInt32) : Bool := isNewerTimestamp t₂ t₁

/-- mirrors webrtc/modules/video_coding/main/source/jitter_buffer.h:197-203 -/
def sequenceNumberLessThan (s₁ s₂ : UInt16) : Bool := isNewerSequenceNumber s₂ s₁

/-- The map's frames in its order; they stand for it where their timestamps and
the one that is looked up are from one half of the circle. -/
abbrev FrameList := List FrameBuffer

namespace FrameList

/-- mirrors webrtc/modules/video_coding/main/source/jitter_buffer.cc:48-50 -/
def insertFrame (l : FrameList) (f : FrameBuffer) : FrameList :=
  Keyed.insertEnd timestampLessThan FrameBuffer.timestamp f l

/-- mirrors webrtc/modules/video_coding/main/source/jitter_buffer.cc:52-59 -/
def popFrame (l : FrameList) (timestamp : UInt32) : Option (FrameBuffer × FrameList) :=
  Keyed.pop timestampLessThan FrameBuffer.timestamp timestamp l

/-- The recycled frames and the rest, which starts with a key frame.
mirrors webrtc/modules/video_coding/main/source/jitter_buffer.cc:69-86 -/
def recycleFramesUntilKeyFrame : FrameList → FrameList × FrameList
  | [] => ([], [])
  | f :: l =>
    match l with
    | [] => ([f.reset], [])
    | g :: _ =>
      if g.isKey then ([f.reset], l)
      else
        let r := recycleFramesUntilKeyFrame l
        (f.reset :: r.1, r.2)

/-- The decoding state, the removed frames and the rest.
mirrors webrtc/modules/video_coding/main/source/jitter_buffer.cc:88-113 -/
def cleanUpOldOrEmptyFrames (d : DecodingState) : FrameList → DecodingState × FrameList × FrameList
  | [] => (d, [], [])
  | f :: l =>
    let r := if f.state = .empty ∧ l ≠ [] then d.updateEmptyFrame f else (d.isOld f.timestamp, d)
    if r.1 then
      let t := cleanUpOldOrEmptyFrames r.2 l
      (t.1, f :: t.2.1, t.2.2)
    else (r.2, [], f :: l)

/-- The search of `ExtractAndSetDecode` for a complete key frame newer than
`timestamp`; what it passes over is gone from the list.
mirrors webrtc/modules/video_coding/main/source/jitter_buffer.cc:594-621 -/
def skipToKeyFrame (timestamp : UInt32) : FrameList → Option FrameBuffer × FrameList
  | [] => (none, [])
  | f :: l =>
    if isNewerTimestamp f.timestamp timestamp && f.isKey && f.state == .complete then (some f, l)
    else skipToKeyFrame timestamp l

end FrameList

/-! ## The buffer -/

structure JitterBuffer where
  running : Bool := false
  maxNumberOfFrames : Nat := kStartNumberOfFrames
  freeFrames : FrameList := []
  decodableFrames : FrameList := []
  incompleteFrames : FrameList := []
  lastDecodedState : DecodingState := {}
  firstPacketSinceReset : Bool := true
  numConsecutiveOldPackets : Nat := 0
  rttMs : Int := kDefaultRtt
  nackMode : NackMode := .noNack
  missingSequenceNumbers : List UInt16 := []
  latestReceivedSequenceNumber : UInt16 := 0
  maxNackListSize : Nat := 0
  maxPacketAgeToNack : Int := 0
  maxIncompleteTimeMs : Int := 0
  decodeErrorMode : Session.DecodeErrorMode := .noErrors
  averagePacketsPerFrame : Float32 := 0
  frameCounter : Nat := 0

namespace JitterBuffer

/-- mirrors webrtc/modules/video_coding/main/source/jitter_buffer.cc:123-161 -/
def new : JitterBuffer :=
  { freeFrames := (List.range kStartNumberOfFrames).map fun i => { id := i } }

/-- mirrors webrtc/modules/video_coding/main/source/jitter_buffer.cc:207-230 -/
def start (s : JitterBuffer) : JitterBuffer :=
  { s with
    running := true, numConsecutiveOldPackets := 0, firstPacketSinceReset := true
    rttMs := kDefaultRtt, lastDecodedState := {} }

/-- mirrors webrtc/modules/video_coding/main/source/jitter_buffer.cc:232-255 -/
def stop (s : JitterBuffer) : JitterBuffer :=
  { s with
    running := false, lastDecodedState := {}
    freeFrames := (s.freeFrames ++ s.decodableFrames ++ s.incompleteFrames).map FrameBuffer.reset
    decodableFrames := [], incompleteFrames := [] }

/-- mirrors webrtc/modules/video_coding/main/source/jitter_buffer.cc:115-121, 262-294 -/
def flush (s : JitterBuffer) : JitterBuffer :=
  { s with
    freeFrames := s.freeFrames ++ s.decodableFrames.map FrameBuffer.reset ++
      s.incompleteFrames.map FrameBuffer.reset
    decodableFrames := [], incompleteFrames := []
    lastDecodedState := {}, numConsecutiveOldPackets := 0, firstPacketSinceReset := true
    missingSequenceNumbers := [] }

/-! ## Missing sequence numbers and recycling -/

/-- mirrors webrtc/modules/video_coding/main/source/jitter_buffer.cc:1171-1178 -/
def dropPacketsFromNackList (s : JitterBuffer) (seq : UInt16) : JitterBuffer :=
  { s with missingSequenceNumbers :=
      Keyed.dropThrough sequenceNumberLessThan id seq s.missingSequenceNumbers }

/-- mirrors webrtc/modules/video_coding/main/source/jitter_buffer.cc:1003-1012 -/
def estimatedLowSequenceNumber (f : FrameBuffer) : UInt16 :=
  if f.session.haveFirstPacket then toUInt16 f.lowSeqNum else toUInt16 f.lowSeqNum - 1

/-- What follows the dropping: `key` is the key frame found.
mirrors webrtc/modules/video_coding/main/source/jitter_buffer.cc:1240-1253 -/
def afterRecycling (s : JitterBuffer) (key : Option FrameBuffer) : Bool × JitterBuffer :=
  match key with
  | some k =>
    (true, { s with lastDecodedState := {} }.dropPacketsFromNackList (estimatedLowSequenceNumber k))
  | none =>
    (false, if s.decodableFrames = [] then
        { s with lastDecodedState := {}, missingSequenceNumbers := [] } else s)

/-- Whether a key frame was found.
mirrors webrtc/modules/video_coding/main/source/jitter_buffer.cc:1226-1254 -/
def recycleFramesUntilKeyFrame (s : JitterBuffer) : Bool × JitterBuffer :=
  let r := FrameList.recycleFramesUntilKeyFrame s.incompleteFrames
  if r.1 ≠ [] then
    { s with incompleteFrames := r.2, freeFrames := s.freeFrames ++ r.1 }.afterRecycling r.2.head?
  else
    let r := FrameList.recycleFramesUntilKeyFrame s.decodableFrames
    { s with decodableFrames := r.2, freeFrames := s.freeFrames ++ r.1 }.afterRecycling r.2.head?

/-- mirrors webrtc/modules/video_coding/main/source/jitter_buffer.cc:1129-1131 -/
def tooLargeNackList (s : JitterBuffer) : Bool :=
  decide (s.maxNackListSize < s.missingSequenceNumbers.length)

/-- mirrors webrtc/modules/video_coding/main/source/jitter_buffer.cc:1146-1156 -/
def missingTooOldPacket (latest : UInt16) (s : JitterBuffer) : Bool :=
  match s.missingSequenceNumbers with
  | [] => false
  | oldest :: _ => decide (s.maxPacketAgeToNack < ((latest - oldest).toNat : Int))

/-- `key_frame_found` of the last round. One round per frame and one more are
enough: the last one clears the list. -/
def recycleWhile (cond : JitterBuffer → Bool) : Nat → Bool → JitterBuffer → Bool × JitterBuffer
  | 0, found, s => (found, s)
  | fuel + 1, found, s =>
    if cond s then
      let r := s.recycleFramesUntilKeyFrame
      recycleWhile cond fuel r.1 r.2
    else (found, s)

/-- mirrors webrtc/modules/video_coding/main/source/jitter_buffer.cc:1133-1144 -/
def handleTooLargeNackList (s : JitterBuffer) : Bool × JitterBuffer :=
  recycleWhile tooLargeNackList (s.incompleteFrames.length + s.decodableFrames.length + 1) false s

/-- mirrors webrtc/modules/video_coding/main/source/jitter_buffer.cc:1158-1169 -/
def handleTooOldPackets (s : JitterBuffer) (latest : UInt16) : Bool × JitterBuffer :=
  recycleWhile (missingTooOldPacket latest)
    (s.incompleteFrames.length + s.decodableFrames.length + 1) false s

/-- The numbers from `i` on that are older than `seq`.
mirrors webrtc/modules/video_coding/main/source/jitter_buffer.cc:1107-1112 -/
def pushMissing (seq : UInt16) : Nat → UInt16 → List UInt16 → List UInt16
  | 0, _, l => l
  | fuel + 1, i, l =>
    if isNewerSequenceNumber seq i then
      pushMissing seq fuel (i + 1) (Keyed.insertEnd sequenceNumberLessThan id i l)
    else l

/-- The latest number, not older than the last decoded one: packets too old to
be decoded are not added.
mirrors webrtc/modules/video_coding/main/source/jitter_buffer.cc:1097-1102 -/
def latestForNack (s : JitterBuffer) : UInt16 :=
  if s.lastDecodedState.inInitialState then s.latestReceivedSequenceNumber
  else latestSequenceNumber s.latestReceivedSequenceNumber s.lastDecodedState.sequenceNum

/-- The list covers the numbers up to a newest `seq`; another `seq` leaves it. -/
def coverMissing (s : JitterBuffer) (seq : UInt16) : JitterBuffer :=
  let latest := s.latestForNack
  { s with
    latestReceivedSequenceNumber := latest
    missingSequenceNumbers :=
      if isNewerSequenceNumber seq latest then
        pushMissing seq (seq - latest).toNat (latest + 1) s.missingSequenceNumbers
      else Keyed.erase sequenceNumberLessThan id seq s.missingSequenceNumbers }

/-- False when a key frame is needed.
mirrors webrtc/modules/video_coding/main/source/jitter_buffer.cc:1113-1121 -/
def pruneMissing (s : JitterBuffer) (seq : UInt16) : Bool × JitterBuffer :=
  let r := if s.tooLargeNackList then s.handleTooLargeNackList else (true, s)
  if !r.1 then r
  else if missingTooOldPacket seq r.2 then r.2.handleTooOldPackets seq
  else r

/-- mirrors webrtc/modules/video_coding/main/source/jitter_buffer.cc:1093-1127 -/
def updateNackList (s : JitterBuffer) (seq : UInt16) : Bool × JitterBuffer :=
  if s.nackMode = .noNack then (true, s)
  else if isNewerSequenceNumber seq s.latestForNack then (s.coverMissing seq).pruneMissing seq
  else (true, s.coverMissing seq)

/-! ## Continuity -/

/-- mirrors webrtc/modules/video_coding/main/source/jitter_buffer.cc:870-881 -/
def isContinuousInState (mode : Session.DecodeErrorMode) (f : FrameBuffer) (d : DecodingState) :
    Bool :=
  if mode = .withErrors then true
  else (f.state == .complete || f.state == .decodable) && d.continuousFrame f

/-- The loop over the decodable frames up to `f`'s timestamp. -/
def isContinuousAfter (mode : Session.DecodeErrorMode) (f : FrameBuffer) :
    DecodingState → FrameList → Bool
  | _, [] => false
  | d, g :: l =>
    if isNewerTimestamp g.timestamp f.timestamp then false
    else if isContinuousInState mode f (d.setState g) then true
    else isContinuousAfter mode f (d.setState g) l

/-- mirrors webrtc/modules/video_coding/main/source/jitter_buffer.cc:883-901 -/
def isContinuous (s : JitterBuffer) (f : FrameBuffer) : Bool :=
  isContinuousInState s.decodeErrorMode f s.lastDecodedState ||
    isContinuousAfter s.decodeErrorMode f s.lastDecodedState s.decodableFrames

/-- The loop over `incomplete_frames_`: what stays there and the decodable
frames. -/
def promote (mode : Session.DecodeErrorMode) (new : FrameBuffer) :
    DecodingState → FrameList → FrameList → FrameList × FrameList
  | _, [], dec => ([], dec)
  | d, f :: l, dec =>
    if isNewerTimestamp new.timestamp f.timestamp then
      let r := promote mode new d l dec
      (f :: r.1, r.2)
    else if isContinuousInState mode f d then
      promote mode new (d.setState f) l (dec.insertFrame f)
    else if f.session.temporalId ≤ 0 then (f :: l, dec)
    else
      let r := promote mode new d l dec
      (f :: r.1, r.2)

/-- mirrors webrtc/modules/video_coding/main/source/jitter_buffer.cc:903-929 -/
def findAndInsertContinuousFrames (s : JitterBuffer) (new : FrameBuffer) : JitterBuffer :=
  let r := promote s.decodeErrorMode new (s.lastDecodedState.setState new) s.incompleteFrames
    s.decodableFrames
  { s with incompleteFrames := r.1, decodableFrames := r.2 }

/-! ## InsertPacket -/

/-- mirrors webrtc/modules/video_coding/main/source/jitter_buffer.cc:1204-1222 -/
def getEmptyFrame (s : JitterBuffer) : Option (FrameBuffer × JitterBuffer) :=
  match s.freeFrames with
  | f :: l => some (f, { s with freeFrames := l })
  | [] =>
    if s.maxNumberOfFrames ≥ kMaxNumberOfFrames then none
    else some ({ id := s.maxNumberOfFrames },
      { s with maxNumberOfFrames := s.maxNumberOfFrames + 1 })

/-- Where a packet's frame was. -/
inductive Origin where
  | incomplete | decodable | new
  deriving DecidableEq, Repr

/-- The packet's frame, taken out of its list; `none` inside is
`kFlushIndicator`.
mirrors webrtc/modules/video_coding/main/source/jitter_buffer.cc:664-694 -/
def getFrame (s : JitterBuffer) (p : VCMPacket) :
    Option (Option (FrameBuffer × Origin) × JitterBuffer) :=
  match s.incompleteFrames.popFrame p.timestamp with
  | some (f, l) => some (some (f, .incomplete), { s with incompleteFrames := l })
  | none =>
    match s.decodableFrames.popFrame p.timestamp with
    | some (f, l) => some (some (f, .decodable), { s with decodableFrames := l })
    | none =>
      match s.getEmptyFrame with
      | some (f, s) => some (some (f.reset, .new), s)
      | none =>
        let r := s.recycleFramesUntilKeyFrame
        match r.2.getEmptyFrame with
        | none => none
        | some (f, s) =>
          if r.1 then some (some (f.reset, .new), s)
          else some (none, { s with freeFrames := s.freeFrames ++ [f] })

structure Reply where
  code : BufferEnum
  retransmitted : Bool := false
  deriving DecidableEq, Repr

/-- mirrors webrtc/modules/video_coding/main/source/jitter_buffer.cc:716-742 -/
def insertOldPacket (s : JitterBuffer) (p : VCMPacket) : Reply × JitterBuffer :=
  let n := if 0 < p.data.length then s.numConsecutiveOldPackets + 1 else s.numConsecutiveOldPackets
  let d := s.lastDecodedState.updateOldPacket p
  let s := { s with numConsecutiveOldPackets := n, lastDecodedState := d }.dropPacketsFromNackList
    d.sequenceNum
  if kMaxConsecutiveOldPackets < n then ({ code := .flushIndicator }, s.flush)
  else ({ code := .oldPacket }, s)

/-- The bookkeeping of a packet that went into frame `f`.
mirrors webrtc/modules/video_coding/main/source/jitter_buffer.cc:791-808 -/
def noteReceived (s : JitterBuffer) (p : VCMPacket) (code : BufferEnum) (f : FrameBuffer) :
    BufferEnum × FrameBuffer × JitterBuffer :=
  if !code.positive then (code, f, s)
  else if s.firstPacketSinceReset then
    (code, f, { s with latestReceivedSequenceNumber := p.seqNum, firstPacketSinceReset := false })
  else
    let f := if (Keyed.pop sequenceNumberLessThan id p.seqNum s.missingSequenceNumbers).isSome then
      { f with nackCount := f.nackCount + 1 } else f
    let r := s.updateNackList p.seqNum
    let latest := latestSequenceNumber r.2.latestReceivedSequenceNumber p.seqNum
    (if !r.1 && p.frameType != .key then .flushIndicator else code, f,
      { r.2 with latestReceivedSequenceNumber := latest })

/-- The frame goes where it belongs now.
mirrors webrtc/modules/video_coding/main/source/jitter_buffer.cc:811-867 -/
def placeFrame (s : JitterBuffer) (origin : Origin) (code : BufferEnum) (f : FrameBuffer) :
    Reply × JitterBuffer :=
  let freed : JitterBuffer := { s with freeFrames := s.freeFrames ++ [f] }
  match code with
  | .generalError | .timeStampError | .sizeError | .flushIndicator => ({ code }, freed)
  | .completeSession | .decodableSession =>
    ({ code, retransmitted := decide (0 < f.nackCount) },
      if s.isContinuous f then
        { s with decodableFrames := s.decodableFrames.insertFrame f }.findAndInsertContinuousFrames f
      else { s with incompleteFrames := s.incompleteFrames.insertFrame f })
  | .incomplete =>
    let r := s.lastDecodedState.updateEmptyFrame f
    if f.state = .empty ∧ r.1 then ({ code := .noError }, { freed with lastDecodedState := r.2 })
    else ({ code }, { s with incompleteFrames := s.incompleteFrames.insertFrame f })
  | .duplicatePacket | .noError | .outOfBoundsPacket =>
    ({ code }, match origin with
      | .incomplete => { s with incompleteFrames := s.incompleteFrames.insertFrame f }
      | .decodable => { s with decodableFrames := s.decodableFrames.insertFrame f }
      | .new => freed)
  -- `default: assert(false)`, not produced by `VCMFrameBuffer::InsertPacket`
  | .oldPacket => ({ code }, s)

/-- mirrors webrtc/modules/video_coding/main/source/jitter_buffer.cc:777-868 -/
def insertIntoFrame (s : JitterBuffer) (p : VCMPacket) (f : FrameBuffer) (origin : Origin) :
    Reply × JitterBuffer :=
  let r := f.insertPacket p s.decodeErrorMode ⟨s.rttMs, s.averagePacketsPerFrame⟩
  let n := s.noteReceived p r.1 r.2
  n.2.2.placeFrame origin n.1 n.2.1

/-- mirrors webrtc/modules/video_coding/main/source/jitter_buffer.cc:746-868 -/
def insertNewPacket (s : JitterBuffer) (p : VCMPacket) : Option (Reply × JitterBuffer) :=
  match s.getFrame p with
  | none => none
  | some (none, s) => some ({ code := .flushIndicator }, s)
  | some (some (f, origin), s) => some (s.insertIntoFrame p f origin)

/-- mirrors webrtc/modules/video_coding/main/source/jitter_buffer.cc:706-868 -/
def insertPacket (s : JitterBuffer) (p : VCMPacket) : Option (Reply × JitterBuffer) :=
  if s.lastDecodedState.isOld p.timestamp then some (s.insertOldPacket p)
  else insertNewPacket { s with numConsecutiveOldPackets := 0 } p

/-! ## Handing frames out -/

/-- mirrors webrtc/modules/video_coding/main/source/jitter_buffer.cc:1298-1306 -/
def cleanUpOldOrEmptyFrames (s : JitterBuffer) : JitterBuffer :=
  let r := FrameList.cleanUpOldOrEmptyFrames s.lastDecodedState s.decodableFrames
  let t := FrameList.cleanUpOldOrEmptyFrames r.1 s.incompleteFrames
  let s := { s with
    lastDecodedState := t.1, decodableFrames := r.2.2, incompleteFrames := t.2.2
    freeFrames := s.freeFrames ++ r.2.1 ++ t.2.1 }
  if t.1.inInitialState then s else s.dropPacketsFromNackList t.1.sequenceNum

/-- The timestamp of a complete front frame. -/
def frontComplete (s : JitterBuffer) : Option UInt32 :=
  match s.decodableFrames.head? with
  | none => none
  | some f => if f.state = .complete then some f.timestamp else none

/-- One round of `NextCompleteTimestamp`'s loop; between rounds the lock is
released.
mirrors webrtc/modules/video_coding/main/source/jitter_buffer.cc:453-466 -/
def pollComplete (s : JitterBuffer) : Option UInt32 × JitterBuffer :=
  if !s.running then (none, s)
  else
    let s := s.cleanUpOldOrEmptyFrames
    (s.frontComplete, s)

/-- The last round and what follows the loop.
mirrors webrtc/modules/video_coding/main/source/jitter_buffer.cc:410-510 -/
def nextCompleteTimestamp (s : JitterBuffer) : Option UInt32 × JitterBuffer :=
  let r := s.pollComplete
  if r.1.isSome || !s.running then r
  else
    let s := r.2.cleanUpOldOrEmptyFrames
    (match s.frontComplete with
      | some t => some t
      | none =>
        if s.decodableFrames.any fun f => f.isKey && f.state == .complete then
          s.decodableFrames.head?.map FrameBuffer.timestamp
        else none, s)

/-- mirrors webrtc/modules/video_coding/main/source/jitter_buffer.cc:513-542 -/
def nextMaybeIncompleteTimestamp (_ : JitterBuffer) : Option UInt32 := none

def kFastConvergeMultiplier : Float32 := 0.4
def kNormalConvergeMultiplier : Float32 := 0.2
def kFastConvergeThreshold : Nat := 5

/-- mirrors webrtc/modules/video_coding/main/source/jitter_buffer.cc:1281-1295 -/
def updateAveragePacketsPerFrame (s : JitterBuffer) (packets : Nat) : JitterBuffer :=
  let n := Float32.ofNat packets
  if kFastConvergeThreshold < s.frameCounter then
    { s with averagePacketsPerFrame := s.averagePacketsPerFrame * (1 - kNormalConvergeMultiplier) +
        n * kNormalConvergeMultiplier }
  else if 0 < s.frameCounter then
    { s with
      averagePacketsPerFrame := s.averagePacketsPerFrame * (1 - kFastConvergeMultiplier) +
        n * kFastConvergeMultiplier
      frameCounter := s.frameCounter + 1 }
  else { s with averagePacketsPerFrame := n, frameCounter := s.frameCounter + 1 }

/-- mirrors webrtc/modules/video_coding/main/source/jitter_buffer.cc:622-648 -/
def setDecoded (s : JitterBuffer) (f : FrameBuffer) : FrameBuffer × JitterBuffer :=
  let d := s.lastDecodedState.setState f
  let t := { s with lastDecodedState := d }.dropPacketsFromNackList d.sequenceNum
  (f.prepareForDecode (s.lastDecodedState.continuousFrame f),
    if f.session.complete then t.updateAveragePacketsPerFrame f.session.packets.length else t)

/-- mirrors webrtc/modules/video_coding/main/source/jitter_buffer.cc:545-651 -/
def extractAndSetDecode (s : JitterBuffer) (timestamp : UInt32) :
    Option FrameBuffer × JitterBuffer :=
  if !s.running then (none, s)
  else
    match s.decodableFrames.popFrame timestamp with
    | none => (none, s)
    | some (f, l) =>
      let r := if f.state = .complete then (some f, l) else FrameList.skipToKeyFrame timestamp l
      let s := { s with decodableFrames := r.2 }
      match r.1 with
      | none => (none, s)
      | some f =>
        let t := s.setDecoded f
        (some t.1, t.2)

/-- mirrors webrtc/modules/video_coding/main/source/jitter_buffer.cc:655-661 -/
def releaseFrame (s : JitterBuffer) (f : FrameBuffer) : JitterBuffer :=
  { s with freeFrames := s.freeFrames ++ [f] }

/-! ## NACK list and settings -/

/-- mirrors webrtc/modules/video_coding/main/source/jitter_buffer.cc:1085-1091 -/
def nextFrame (s : JitterBuffer) : Option FrameBuffer :=
  match s.decodableFrames with
  | f :: _ => some f
  | [] => s.incompleteFrames.head?

/-- The `uint32_t` difference as `int`.
mirrors webrtc/modules/video_coding/main/source/jitter_buffer.cc:992-1001 -/
def nonContinuousOrIncompleteDuration (s : JitterBuffer) : Int :=
  match s.incompleteFrames.head?, s.incompleteFrames.getLast? with
  | some front, some back =>
    let start := match s.decodableFrames.getLast? with
      | some f => f.timestamp
      | none => front.timestamp
    let d := (back.timestamp - start).toNat
    if d < 0x80000000 then d else (d : Int) - 0x100000000
  | _, _ => 0

structure NackReply where
  list : Option (List UInt16)
  requestKeyFrame : Bool

def firstFrameIsKey (s : JitterBuffer) : Bool :=
  match s.nextFrame with
  | none => false
  | some f => f.isKey && f.session.haveFirstPacket

/-- The entry check in the initial state; `none` goes on.
mirrors webrtc/modules/video_coding/main/source/jitter_buffer.cc:1022-1043 -/
def nackInitial (s : JitterBuffer) : Option NackReply × JitterBuffer :=
  if !s.lastDecodedState.inInitialState || s.firstFrameIsKey then (none, s)
  else
    let haveNonEmptyFrame := (s.decodableFrames ++ s.incompleteFrames).any fun f =>
      f.state != .empty
    let r := s.recycleFramesUntilKeyFrame
    if r.1 then (none, r.2) else (some ⟨none, haveNonEmptyFrame⟩, r.2)

/-- The check for a too long non-decodable duration.
mirrors webrtc/modules/video_coding/main/source/jitter_buffer.cc:1047-1070 -/
def nackTooLong (s : JitterBuffer) : Option NackReply × JitterBuffer :=
  if 0 < s.maxIncompleteTimeMs ∧
      90 * s.maxIncompleteTimeMs < s.nonContinuousOrIncompleteDuration then
    match s.incompleteFrames.reverse.find? FrameBuffer.isKey with
    | none => (some ⟨none, true⟩, s)
    | some k =>
      (none, { s with lastDecodedState := {} }.dropPacketsFromNackList
        (estimatedLowSequenceNumber k))
  else (none, s)

/-- mirrors webrtc/modules/video_coding/main/source/jitter_buffer.cc:1014-1078 -/
def getNackList (s : JitterBuffer) : NackReply × JitterBuffer :=
  if s.nackMode = .noNack then (⟨none, false⟩, s)
  else
    match s.nackInitial with
    | (some r, s) => (r, s)
    | (none, s) =>
      let h := if s.tooLargeNackList then s.handleTooLargeNackList else (true, s)
      match h.2.nackTooLong with
      | (some r, s) => (r, s)
      | (none, s) => (⟨some s.missingSequenceNumbers, !h.1⟩, s)

/-- mirrors webrtc/modules/video_coding/main/source/jitter_buffer.cc:951-973 -/
def setNackMode (s : JitterBuffer) (mode : NackMode) (highRttNackThresholdMs : Int) :
    JitterBuffer :=
  { s with
    nackMode := mode
    missingSequenceNumbers := if mode = .noNack then [] else s.missingSequenceNumbers
    rttMs := if s.rttMs = kDefaultRtt ∧ highRttNackThresholdMs ≠ -1 then 0 else s.rttMs }

/-- mirrors webrtc/modules/video_coding/main/source/jitter_buffer.cc:975-985 -/
def setNackSettings (s : JitterBuffer) (maxNackListSize : Nat) (maxPacketAgeToNack : Int)
    (maxIncompleteTimeMs : Int) : JitterBuffer :=
  { s with maxNackListSize, maxPacketAgeToNack, maxIncompleteTimeMs }

def updateRtt (s : JitterBuffer) (rttMs : Int) : JitterBuffer := { s with rttMs }

def setDecodeErrorMode (s : JitterBuffer) (mode : Session.DecodeErrorMode) : JitterBuffer :=
  { s with decodeErrorMode := mode }

end JitterBuffer

/-! ## Runs -/

/-- The jitter buffer and the frames with the decoder. -/
structure System where
  jb : JitterBuffer
  decoder : List FrameBuffer

namespace System

inductive Op where
  | insertPacket (p : VCMPacket)
  | pollComplete
  | nextCompleteTimestamp
  | nextMaybeIncompleteTimestamp
  | extractAndSetDecode (timestamp : UInt32)
  | releaseFrame (id : Nat)
  | flush
  | getNackList
  | setDecodeErrorMode (mode : Session.DecodeErrorMode)
  | setNackMode (mode : NackMode) (highRttNackThresholdMs : Int)
  | setNackSettings (maxNackListSize : Nat) (maxPacketAgeToNack maxIncompleteTimeMs : Int)
  | updateRtt (rttMs : Int)
  | start
  | stop

/-- Only a frame the decoder holds is released. -/
def step (s : System) : Op → Option System
  | .insertPacket p =>
    match s.jb.insertPacket p with
    | none => none
    | some r => some { s with jb := r.2 }
  | .pollComplete => some { s with jb := s.jb.pollComplete.2 }
  | .nextCompleteTimestamp => some { s with jb := s.jb.nextCompleteTimestamp.2 }
  | .nextMaybeIncompleteTimestamp => some s
  | .extractAndSetDecode t =>
    let r := s.jb.extractAndSetDecode t
    some { jb := r.2, decoder := r.1.toList ++ s.decoder }
  | .releaseFrame id =>
    match Keyed.pop (fun a b => decide (a < b)) FrameBuffer.id id s.decoder with
    | none => none
    | some (f, l) => some { jb := s.jb.releaseFrame f, decoder := l }
  | .flush => some { s with jb := s.jb.flush }
  | .getNackList => some { s with jb := s.jb.getNackList.2 }
  | .setDecodeErrorMode mode => some { s with jb := s.jb.setDecodeErrorMode mode }
  | .setNackMode mode high => some { s with jb := s.jb.setNackMode mode high }
  | .setNackSettings size age time => some { s with jb := s.jb.setNackSettings size age time }
  | .updateRtt rtt => some { s with jb := s.jb.updateRtt rtt }
  | .start => some { s with jb := s.jb.start }
  | .stop => some { s with jb := s.jb.stop }

def initial : System := ⟨JitterBuffer.new.start, []⟩

def lts : LTS System Op := LTS.ofFn (· = initial) step

end System

end RtcCore.L3
