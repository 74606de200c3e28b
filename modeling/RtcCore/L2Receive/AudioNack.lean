import RtcCore.Core.LTS
import RtcCore.Core.Search
import RtcCore.Core.Serial

/-!
# The audio NACK list

`acm2::Nack`: the sequence numbers skipped by the packets received, with an
estimate of when each would be played. The list is a `std::map` ordered by
`IsNewerSequenceNumber`, here the items in the order of the tree. The
comparison is no order on the whole circle, so every bound is looked up by a
`Search`, which stands for the tree's shape.
-/
namespace RtcCore.L2

open Serial

namespace Acm

/-! ## The list -/

/-- mirrors webrtc/modules/audio_coding/main/acm2/nack.h:105-129 -/
structure NackElement where
  timeToPlayMs : Int
  estimatedTimestamp : UInt32
  isMissing : Bool
  deriving DecidableEq, Repr

abbrev NackList := List (UInt16 × NackElement)

namespace NackList

variable (search : Search UInt16) (key : UInt16) (l : NackList)

def lowerBound : Nat := search.bound (fun e => isNewerSequenceNumber key e) (l.map (·.1))

def upperBound : Nat := search.bound (fun e => !isNewerSequenceNumber e key) (l.map (·.1))

/-- `erase(key)`: the items from the lower to the upper bound. -/
def erase : NackList :=
  l.take (lowerBound search key l) ++
    l.drop (max (lowerBound search key l) (upperBound search key l))

/-- `insert(end(), ...)`: behind the last item where that is older, else where
the tree puts it. -/
def insertEnd (value : NackElement) : NackList :=
  match l.getLast? with
  | none => [(key, value)]
  | some e =>
    if isNewerSequenceNumber key e.1 then l ++ [(key, value)]
    else
      match (l.take (upperBound search key l)).getLast? with
      | none => (key, value) :: l
      | some e =>
        if isNewerSequenceNumber key e.1 then l.insertIdx (upperBound search key l) (key, value)
        else l

end NackList

/-! ## The class -/

def kNackListSizeLimit : Nat := 500

/-- `samplesPerPacket` is an `int`, its arithmetic that of 32 bits.
mirrors webrtc/modules/audio_coding/main/acm2/nack.h:184-218, nack.cc:31-41 -/
structure Nack where
  nackThresholdPackets : Int
  sequenceNumLastReceivedRtp : UInt16 := 0
  timestampLastReceivedRtp : UInt32 := 0
  anyRtpReceived : Bool := false
  sequenceNumLastDecodedRtp : UInt16 := 0
  timestampLastDecodedRtp : UInt32 := 0
  anyRtpDecoded : Bool := false
  sampleRateKhz : UInt32 := 48
  samplesPerPacket : UInt32 := 960
  maxNackListSize : Nat := kNackListSizeLimit
  nackList : NackList := []
  deriving DecidableEq, Repr

namespace Nack

variable (search : Search UInt16) (s : Nack)

/-- mirrors nack.cc:210-213 -/
def timeToPlay (timestamp : UInt32) : Int :=
  ((timestamp - s.timestampLastDecodedRtp) / s.sampleRateKhz).toNat

/-- mirrors nack.cc:88-96 -/
def updateSamplesPerPacket (sequenceNumber : UInt16) (timestamp : UInt32) : Nack :=
  { s with
    samplesPerPacket := (timestamp - s.timestampLastReceivedRtp) /
      (sequenceNumber - s.sequenceNumLastReceivedRtp).toUInt32 }

/-- mirrors nack.cc:117-120 -/
def estimateTimestamp (sequenceNum : UInt16) : UInt32 :=
  (sequenceNum - s.sequenceNumLastReceivedRtp).toUInt32 * s.samplesPerPacket +
    s.timestampLastReceivedRtp

/-- `sequence_number - nack_threshold_packets_` in 16 bits. -/
def missingBefore (sequenceNumber : UInt16) : UInt16 :=
  UInt16.ofInt (sequenceNumber.toNat - s.nackThresholdPackets)

/-- mirrors nack.cc:107-115 -/
def changeFromLateToMissing (sequenceNumber : UInt16) : Nack :=
  let bound := NackList.lowerBound search (s.missingBefore sequenceNumber) s.nackList
  { s with
    nackList := (s.nackList.take bound).map (fun e => (e.1, { e.2 with isMissing := true })) ++
      s.nackList.drop bound }

/-- One number of `AddToList`.
mirrors nack.cc:132-136 -/
def addNumber (sequenceNumber n : UInt16) : Nack :=
  { s with
    nackList := NackList.insertEnd search n s.nackList
      ⟨s.timeToPlay (s.estimateTimestamp n), s.estimateTimestamp n,
        isNewerSequenceNumber (s.missingBefore sequenceNumber) n⟩ }

/-- The loop goes over less than half of the numbers.
mirrors nack.cc:122-138 -/
def addLoop (sequenceNumber : UInt16) : Nat → UInt16 → Nack → Nack
  | 0, _, s => s
  | fuel + 1, n, s =>
    if isNewerSequenceNumber sequenceNumber n then
      addLoop sequenceNumber fuel (n + 1) (s.addNumber search sequenceNumber n)
    else s

def addToList (sequenceNumber : UInt16) : Nack :=
  addLoop search sequenceNumber 0x8000 (s.sequenceNumLastReceivedRtp + 1) s

/-- mirrors nack.cc:98-105 -/
def updateList (sequenceNumber : UInt16) : Nack :=
  let s := s.changeFromLateToMissing search sequenceNumber
  if isNewerSequenceNumber sequenceNumber (s.sequenceNumLastReceivedRtp + 1) then
    s.addToList search sequenceNumber
  else s

/-- mirrors nack.cc:204-208 -/
def limitNackListSize : Nack :=
  let limit := s.sequenceNumLastReceivedRtp - .ofNat s.maxNackListSize - 1
  { s with nackList := s.nackList.drop (NackList.upperBound search limit s.nackList) }

def setLastReceived (sequenceNumber : UInt16) (timestamp : UInt32) : Nack :=
  { s with
    sequenceNumLastReceivedRtp := sequenceNumber
    timestampLastReceivedRtp := timestamp }

/-- mirrors nack.cc:52-86 -/
def updateLastReceivedPacket (sequenceNumber : UInt16) (timestamp : UInt32) : Nack :=
  if !s.anyRtpReceived then
    let s := { s.setLastReceived sequenceNumber timestamp with anyRtpReceived := true }
    if !s.anyRtpDecoded then
      { s with
        sequenceNumLastDecodedRtp := sequenceNumber
        timestampLastDecodedRtp := timestamp }
    else s
  else if sequenceNumber = s.sequenceNumLastReceivedRtp then s
  else
    let s := { s with nackList := NackList.erase search sequenceNumber s.nackList }
    if isNewerSequenceNumber s.sequenceNumLastReceivedRtp sequenceNumber then s
    else
      let s := s.updateSamplesPerPacket sequenceNumber timestamp
      let s := s.updateList search sequenceNumber
      let s := s.setLastReceived sequenceNumber timestamp
      s.limitNackListSize search

/-- Only the front of the list is looked at.
mirrors nack.cc:140-147 -/
def updateEstimatedPlayoutTimeBy10ms : Nack :=
  { s with
    nackList := (s.nackList.dropWhile fun e => e.2.timeToPlayMs ≤ 10).map fun e =>
      (e.1, { e.2 with timeToPlayMs := e.2.timeToPlayMs - 10 }) }

/-- mirrors nack.cc:149-177 -/
def updateLastDecodedPacket (sequenceNumber : UInt16) (timestamp : UInt32) : Nack :=
  if isNewerSequenceNumber sequenceNumber s.sequenceNumLastDecodedRtp || !s.anyRtpDecoded then
    let s := { s with
      sequenceNumLastDecodedRtp := sequenceNumber
      timestampLastDecodedRtp := timestamp
      anyRtpDecoded := true }
    let rest := s.nackList.drop (NackList.upperBound search sequenceNumber s.nackList)
    { s with
      nackList := rest.map fun e =>
        (e.1, { e.2 with timeToPlayMs := s.timeToPlay e.2.estimatedTimestamp }) }
  else
    let s := s.updateEstimatedPlayoutTimeBy10ms
    { s with
      timestampLastDecodedRtp := s.timestampLastDecodedRtp + s.sampleRateKhz * 10
      anyRtpDecoded := true }

/-- mirrors nack.cc:196-202 -/
def setMaxNackListSize (maxNackListSize : Nat) : Option Nack :=
  if maxNackListSize = 0 ∨ maxNackListSize > kNackListSizeLimit then none
  else some (limitNackListSize search { s with maxNackListSize := maxNackListSize })

/-- mirrors nack.cc:216-225 -/
def getNackList (roundTripTimeMs : Int) : List UInt16 :=
  (s.nackList.filter fun e => e.2.isMissing && decide (roundTripTimeMs < e.2.timeToPlayMs)).map (·.1)

end Nack

end Acm

end RtcCore.L2
