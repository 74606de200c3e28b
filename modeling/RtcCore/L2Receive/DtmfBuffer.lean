import RtcCore.Core.Bytes
import RtcCore.Core.Ranked

/-!
# NetEq's `DtmfBuffer`

The telephone events of RFC 4733 that wait to be played. Packets of one event
share its start and its number and are merged; the events are sorted by their
starts, on the circle of timestamps, then by their numbers. `GetEvent` walks
along them, drops those that are over and plays the first one that goes on. As
`LEGACY_BITEXACT` is defined, a finished event is dropped with its last frame, and
one that is over is played once more unless a next event has cut it short. The
timestamps are compared as they are.
-/
namespace RtcCore.L2.NetEq

/-- mirrors webrtc/modules/audio_coding/neteq/dtmf_buffer.h:22-44 -/
structure DtmfEvent where
  timestamp : UInt32 := 0
  eventNo : Int := 0
  volume : Int := 0
  duration : Int := 0
  endBit : Bool := false
  deriving DecidableEq, Repr

/-- mirrors webrtc/modules/audio_coding/neteq/dtmf_buffer.h:95-114 -/
structure DtmfBuffer where
  maxExtrapolationSamples : Int
  frameLenSamples : Int
  buffer : List DtmfEvent := []
  deriving DecidableEq, Repr

namespace DtmfBuffer

/-- mirrors webrtc/modules/audio_coding/neteq/dtmf_buffer.h:49-55 -/
inductive ReturnCode where
  | ok
  | invalidPointer
  | payloadTooShort
  | invalidEventParameters
  | invalidSampleRate
  deriving DecidableEq, Repr

/-- mirrors webrtc/modules/audio_coding/neteq/dtmf_buffer.cc:56-73 -/
def parseEvent (rtpTimestamp : UInt32) : Bytes → Except ReturnCode DtmfEvent
  | b0 :: b1 :: b2 :: b3 :: _ =>
    .ok
      { timestamp := rtpTimestamp
        eventNo := b0.toNat
        volume := (b1 &&& 0x3F).toNat
        duration := b2.toNat * 256 + b3.toNat
        endBit := b1 &&& 0x80 ≠ 0 }
  | _ => .error .payloadTooShort

/-- mirrors webrtc/modules/audio_coding/neteq/dtmf_buffer.cc:176-186 -/
def setSampleRate (b : DtmfBuffer) (fsHz : Int) : ReturnCode × DtmfBuffer :=
  if fsHz ≠ 8000 ∧ fsHz ≠ 16000 ∧ fsHz ≠ 32000 ∧ fsHz ≠ 48000 then (.invalidSampleRate, b)
  else (.ok, { b with maxExtrapolationSamples := 7 * fsHz / 100, frameLenSamples := fsHz / 100 })

/-- mirrors webrtc/modules/audio_coding/neteq/dtmf_buffer.cc:193-195 -/
def sameEvent (a b : DtmfEvent) : Bool := a.eventNo = b.eventNo && a.timestamp = b.timestamp

/-- The event of the buffer, merged with a packet of the same event.
mirrors webrtc/modules/audio_coding/neteq/dtmf_buffer.cc:197-211 -/
def merged (it event : DtmfEvent) : DtmfEvent :=
  { it with
    duration := if it.endBit then it.duration else max event.duration it.duration
    endBit := it.endBit || event.endBit }

/-- The loop of `InsertEvent` that looks for the same event.
mirrors webrtc/modules/audio_coding/neteq/dtmf_buffer.cc:93-100 -/
def mergeEvents (event : DtmfEvent) : List DtmfEvent → Option (List DtmfEvent)
  | [] => none
  | it :: rest =>
    if sameEvent it event then some (merged it event :: rest)
    else (mergeEvents event rest).map (it :: ·)

/-- mirrors webrtc/modules/audio_coding/neteq/dtmf_buffer.cc:219-225 -/
def compareEvents (a b : DtmfEvent) : Bool :=
  if a.timestamp = b.timestamp then a.eventNo < b.eventNo
  else (b.timestamp - a.timestamp).toNat < 0xFFFFFFFF / 2

/-- mirrors webrtc/modules/audio_coding/neteq/dtmf_buffer.cc:88-92 -/
def invalidParameters (event : DtmfEvent) : Bool :=
  event.eventNo < 0 || event.eventNo > 15 || event.volume < 0 || event.volume > 36 ||
    event.duration ≤ 0 || event.duration > 65535

/-- mirrors webrtc/modules/audio_coding/neteq/dtmf_buffer.cc:87-105 -/
def insertEvent (b : DtmfBuffer) (event : DtmfEvent) : ReturnCode × DtmfBuffer :=
  if invalidParameters event then (.invalidEventParameters, b)
  else
    match mergeEvents event b.buffer with
    | some buffer => (.ok, { b with buffer := buffer })
    | none => (.ok, { b with buffer := sortBy compareEvents id (b.buffer ++ [event]) })

/-- Where the event would end by itself.
mirrors webrtc/modules/audio_coding/neteq/dtmf_buffer.cc:110-119 -/
def ownEnd (b : DtmfBuffer) (it : DtmfEvent) : UInt32 :=
  it.timestamp + .ofInt it.duration +
    if it.endBit then 0 else .ofInt b.maxExtrapolationSamples

/-- mirrors webrtc/modules/audio_coding/neteq/dtmf_buffer.cc:112-130 -/
def eventEnd (b : DtmfBuffer) (it : DtmfEvent) (next : Option DtmfEvent) : UInt32 :=
  if it.endBit then b.ownEnd it
  else next.elim (b.ownEnd it) fun next => min (b.ownEnd it) next.timestamp

/-- mirrors webrtc/modules/audio_coding/neteq/dtmf_buffer.cc:114-130 -/
def nextAvailable (it : DtmfEvent) (next : Option DtmfEvent) : Bool := !it.endBit && next.isSome

/-- The loop of `GetEvent`: the event to play, and the events that stay.
mirrors webrtc/modules/audio_coding/neteq/dtmf_buffer.cc:107-174 -/
def getEventLoop (b : DtmfBuffer) (currentTimestamp : UInt32) :
    List DtmfEvent → Option DtmfEvent × List DtmfEvent
  | [] => (none, [])
  | it :: rest =>
    let eventEnd := b.eventEnd it rest.head?
    if it.timestamp ≤ currentTimestamp ∧ currentTimestamp ≤ eventEnd then
      -- a finished event goes with its last frame
      if it.endBit ∧ eventEnd ≤ currentTimestamp + .ofInt b.frameLenSamples then (some it, rest)
      else (some it, it :: rest)
    else if eventEnd < currentTimestamp then
      if nextAvailable it rest.head? then b.getEventLoop currentTimestamp rest
      else (some it, rest)
    else (b.getEventLoop currentTimestamp rest).map id (it :: ·)

/-- mirrors webrtc/modules/audio_coding/neteq/dtmf_buffer.cc:107-174 -/
def getEvent (b : DtmfBuffer) (currentTimestamp : UInt32) : Option DtmfEvent × DtmfBuffer :=
  (b.getEventLoop currentTimestamp b.buffer).map id fun buffer => { b with buffer := buffer }

end DtmfBuffer

end RtcCore.L2.NetEq
