import RtcCore.Core.FixedPoint
import RtcCore.Core.Int32
import RtcCore.Core.LTS
import RtcCore.Core.Serial

/-!
# `DelayManager`

The histogram of inter-arrival times of NetEq's delay manager, the target
level derived from it, and the detector of delay peaks. The histogram is in
Q30, its forgetting factor in Q15: a packet scales the 65 entries, adds what
that freed to the entry observed, and repairs the sum.

A failed assertion and an index outside the vector are the missing result of
`update`.
-/
namespace RtcCore.L2

open Serial

namespace NetEq

/-! ## The detector of delay peaks -/

structure Peak where
  periodMs : Int
  peakHeightPackets : Int
  deriving DecidableEq, Repr

/-- mirrors webrtc/modules/audio_coding/neteq/delay_peak_detector.cc:26-30 -/
structure DelayPeakDetector where
  peakHistory : List Peak := []
  peakFound : Bool := false
  peakDetectionThreshold : Int := 0
  peakPeriodCounterMs : Int := -1
  deriving DecidableEq, Repr

namespace DelayPeakDetector

variable (d : DelayPeakDetector)

/-- mirrors webrtc/modules/audio_coding/neteq/delay_peak_detector.cc:32-36 -/
def reset : DelayPeakDetector :=
  { d with peakPeriodCounterMs := -1, peakFound := false, peakHistory := [] }

/-- mirrors webrtc/modules/audio_coding/neteq/delay_peak_detector.cc:39-43 -/
def setPacketAudioLength (lengthMs : Int) : DelayPeakDetector :=
  if lengthMs > 0 then { d with peakDetectionThreshold := (78 : Int).tdiv lengthMs } else d

/-- mirrors webrtc/modules/audio_coding/neteq/delay_peak_detector.cc:45-52 -/
def maxPeakHeight : Int := d.peakHistory.foldl (fun m p => max m p.peakHeightPackets) (-1)

/-- mirrors webrtc/modules/audio_coding/neteq/delay_peak_detector.cc:54-61 -/
def maxPeakPeriod : Int := d.peakHistory.foldl (fun m p => max m p.periodMs) (-1)

/-- mirrors webrtc/modules/audio_coding/neteq/delay_peak_detector.cc:106-115 -/
def checkPeakConditions : DelayPeakDetector :=
  { d with peakFound := 2 ≤ d.peakHistory.length ∧ d.peakPeriodCounterMs ≤ 2 * d.maxPeakPeriod }

/-- The result is `peakFound`.
mirrors webrtc/modules/audio_coding/neteq/delay_peak_detector.cc:63-98 -/
def update (interArrivalTime targetLevel : Int) : DelayPeakDetector :=
  checkPeakConditions <|
    if interArrivalTime > targetLevel + d.peakDetectionThreshold ∨
        interArrivalTime > 2 * targetLevel then
      if d.peakPeriodCounterMs = -1 then { d with peakPeriodCounterMs := 0 }
      else if d.peakPeriodCounterMs ≤ 5000 then
        let history := d.peakHistory ++ [⟨d.peakPeriodCounterMs, interArrivalTime⟩]
        { d with peakHistory := history.drop (history.length - 8), peakPeriodCounterMs := 0 }
      else if d.peakPeriodCounterMs ≤ 10000 then { d with peakPeriodCounterMs := 0 }
      else d.reset
    else d

/-- mirrors webrtc/modules/audio_coding/neteq/delay_peak_detector.cc:100-104 -/
def incrementCounter (incMs : Int) : DelayPeakDetector :=
  if d.peakPeriodCounterMs ≥ 0 then
    { d with peakPeriodCounterMs := int32 (d.peakPeriodCounterMs + incMs) }
  else d

end DelayPeakDetector

/-! ## The delay manager -/

/-- mirrors webrtc/modules/audio_coding/neteq/delay_manager.h:136-165 -/
structure DelayManager where
  firstPacketReceived : Bool := false
  maxPacketsInBuffer : Nat
  iatVector : List Int := List.replicate 65 0
  iatFactor : Int := 0
  packetIatCountMs : Int := 0
  baseTargetLevel : Int := 4
  targetLevel : Int := 1024
  packetLenMs : Int := 0
  streamingMode : Bool := false
  lastSeqNo : UInt16 := 0
  lastTimestamp : UInt32 := 0
  minimumDelayMs : Int := 0
  leastRequiredDelayMs : Int := 1024
  maximumDelayMs : Int := 1024
  iatCumulativeSum : Int := 0
  maxIatCumulativeSum : Int := 0
  maxTimerMs : Int := 0
  peakDetector : DelayPeakDetector := {}
  lastPackCngOrDtmf : Int := 1
  deriving DecidableEq, Repr

namespace DelayManager

variable (m : DelayManager)

/-- `temp_prob >>= 1; (*it) = temp_prob << 16;` for each entry. -/
def decay : Nat → Nat → List Int
  | 0, _ => []
  | n + 1, tempProb => (tempProb / 2 * 65536 : Nat) :: decay n (tempProb / 2)

/-- mirrors webrtc/modules/audio_coding/neteq/delay_manager.cc:60-71 -/
def resetHistogram : DelayManager :=
  { m with
    iatVector := decay m.iatVector.length 0x4002
    baseTargetLevel := 4
    targetLevel := 1024 }

/-- mirrors webrtc/modules/audio_coding/neteq/delay_manager.cc:305-316 -/
def reset : DelayManager :=
  { resetHistogram { m with
      packetLenMs := 0
      streamingMode := false
      peakDetector := m.peakDetector.reset } with
    iatFactor := 0
    packetIatCountMs := 0
    maxTimerMs := 0
    iatCumulativeSum := 0
    maxIatCumulativeSum := 0
    lastPackCngOrDtmf := 1 }

/-- mirrors webrtc/modules/audio_coding/neteq/delay_manager.cc:25-49 -/
def create (maxPacketsInBuffer : Nat) : DelayManager := reset { maxPacketsInBuffer }

/-- mirrors webrtc/modules/audio_coding/neteq/delay_manager.cc:144-165 -/
def updateCumulativeSums (packetLenMs : Int) (sequenceNumber : UInt16) : DelayManager :=
  let iatPacketsQ8 := (int32 (m.packetIatCountMs * 256)).tdiv packetLenMs
  let step : Int := (sequenceNumber.toNat : Int) - m.lastSeqNo.toNat
  let sum := max 0 (int32 (m.iatCumulativeSum + (iatPacketsQ8 - step * 256) - 2))
  let m := { m with iatCumulativeSum := sum }
  let m :=
    if sum > m.maxIatCumulativeSum then { m with maxIatCumulativeSum := sum, maxTimerMs := 0 } else m
  if m.maxTimerMs > 600000 then { m with maxIatCumulativeSum := int32 (m.maxIatCumulativeSum - 2) }
  else m

/-- No value: an assertion fails.
mirrors webrtc/modules/audio_coding/neteq/delay_manager.cc:181-216 -/
def updateHistogram (iatPackets : Nat) : Option DelayManager :=
  if iatPackets < m.iatVector.length then
    let scaled := FixedPoint.scale m.iatFactor 32768 m.iatVector
    let observed := (32768 - m.iatFactor) * 32768
    let vectorSum := int32 (scaled.sum + observed - 2 ^ 30)
    let repaired := FixedPoint.repair (if vectorSum > 0 then -1 else 1) (· / 16) vectorSum
      (scaled.modify iatPackets (· + observed))
    if repaired.1 = 0 then
      some { m with
        iatVector := repaired.2
        iatFactor := m.iatFactor + (32538 - m.iatFactor + 3) / 4 }
    else none
  else none

/-- mirrors webrtc/modules/audio_coding/neteq/delay_manager.cc:228-247 -/
def limitTargetLevel : DelayManager :=
  let least := int32 (m.targetLevel * m.packetLenMs) / 256
  let target :=
    if m.packetLenMs > 0 ∧ m.minimumDelayMs > 0 then
      max m.targetLevel ((int32 (m.minimumDelayMs * 256)).tdiv m.packetLenMs)
    else m.targetLevel
  let target :=
    if m.maximumDelayMs > 0 ∧ m.packetLenMs > 0 then
      min target ((int32 (m.maximumDelayMs * 256)).tdiv m.packetLenMs)
    else target
  let maxBufferPacketsQ8 := (int32 (3 * int32 (m.maxPacketsInBuffer * 256))).tdiv 4
  { m with
    leastRequiredDelayMs := least
    targetLevel := max (min target maxBufferPacketsQ8) 256 }

/-- The loop of `CalculateTargetLevel`, over the entries behind `index`; no
value where it reads past the last one. -/
def limitIndex (limitProbability : Int) : Int → Nat → List Int → Option Nat
  | _, _, [] => none
  | sum, index, v :: vs =>
    if sum - v > limitProbability ∧ vs ≠ [] then
      limitIndex limitProbability (sum - v) (index + 1) vs
    else some (index + 1)

/-- mirrors webrtc/modules/audio_coding/neteq/delay_manager.cc:249-290 -/
def calculateTargetLevel (iatPackets : Int) : Option DelayManager :=
  let limitProbability := if m.streamingMode then 536871 else 53687091
  match m.iatVector with
  | [] => none
  | v :: vs =>
    (limitIndex limitProbability (2 ^ 30 - v) 0 vs).map fun index =>
      let peakDetector := m.peakDetector.update iatPackets index
      let target : Int := if peakDetector.peakFound then max index peakDetector.maxPeakHeight else index
      { m with
        baseTargetLevel := index
        peakDetector := peakDetector
        targetLevel := int32 (max target 1 * 256) }

/-- mirrors webrtc/modules/audio_coding/neteq/delay_manager.cc:89-101 -/
def packetLength (sequenceNumber : UInt16) (timestamp : UInt32) (sampleRateHz : Int) : Int :=
  if !isNewerTimestamp timestamp m.lastTimestamp ||
      !isNewerSequenceNumber sequenceNumber m.lastSeqNo then m.packetLenMs
  else
    let packetLenSamp : Int :=
      ((timestamp - m.lastTimestamp).toNat / (sequenceNumber - m.lastSeqNo).toNat : Nat)
    (int32 (1000 * packetLenSamp)).tdiv sampleRateHz

/-- The inter-arrival time in packets, made up for gaps and reordering.
mirrors webrtc/modules/audio_coding/neteq/delay_manager.cc:108-126 -/
def iatPackets (packetLenMs : Int) (sequenceNumber : UInt16) : Int :=
  let iat := m.packetIatCountMs.tdiv packetLenMs
  let iat :=
    if isNewerSequenceNumber sequenceNumber (m.lastSeqNo + 1) then
      max (iat - (sequenceNumber - m.lastSeqNo - 1).toNat) 0
    else if !isNewerSequenceNumber sequenceNumber m.lastSeqNo then
      int32 (iat + (m.lastSeqNo + 1 - sequenceNumber).toNat)
    else iat
  min iat 64

/-- mirrors webrtc/modules/audio_coding/neteq/delay_manager.cc:103-135 -/
def learn (packetLenMs : Int) (sequenceNumber : UInt16) : Option DelayManager :=
  let iat := m.iatPackets packetLenMs sequenceNumber
  let m := if m.streamingMode then m.updateCumulativeSums packetLenMs sequenceNumber else m
  -- the index is a `size_t`
  (m.updateHistogram (iat % 18446744073709551616).toNat).bind fun m =>
    (m.calculateTargetLevel iat).map fun m =>
      limitTargetLevel <|
        if m.streamingMode then { m with targetLevel := max m.targetLevel m.maxIatCumulativeSum }
        else m

/-- mirrors webrtc/modules/audio_coding/neteq/delay_manager.cc:137-140 -/
def prepare (sequenceNumber : UInt16) (timestamp : UInt32) : DelayManager :=
  { m with packetIatCountMs := 0, lastSeqNo := sequenceNumber, lastTimestamp := timestamp }

/-- mirrors webrtc/modules/audio_coding/neteq/delay_manager.cc:73-142 -/
def update (sequenceNumber : UInt16) (timestamp : UInt32) (sampleRateHz : Int) :
    Option (Int × DelayManager) :=
  if sampleRateHz ≤ 0 then some (-1, m)
  else if !m.firstPacketReceived then
    some (0, { m.prepare sequenceNumber timestamp with firstPacketReceived := true })
  else
    let packetLenMs := m.packetLength sequenceNumber timestamp sampleRateHz
    if packetLenMs > 0 then
      (m.learn packetLenMs sequenceNumber).map fun m => (0, m.prepare sequenceNumber timestamp)
    else some (0, m.prepare sequenceNumber timestamp)

/-- mirrors webrtc/modules/audio_coding/neteq/delay_manager.cc:292-302 -/
def setPacketAudioLength (lengthMs : Int) : DelayManager :=
  if lengthMs ≤ 0 then m
  else
    { m with
      packetLenMs := lengthMs
      peakDetector := m.peakDetector.setPacketAudioLength lengthMs
      packetIatCountMs := 0
      lastPackCngOrDtmf := 1 }

/-- mirrors webrtc/modules/audio_coding/neteq/delay_manager.cc:341-345 -/
def updateCounters (elapsedTimeMs : Int) : DelayManager :=
  { m with
    packetIatCountMs := int32 (m.packetIatCountMs + elapsedTimeMs)
    peakDetector := m.peakDetector.incrementCounter elapsedTimeMs
    maxTimerMs := int32 (m.maxTimerMs + elapsedTimeMs) }

/-- mirrors webrtc/modules/audio_coding/neteq/delay_manager.cc:386-398 -/
def setMinimumDelay (delayMs : Int) : DelayManager :=
  if (m.maximumDelayMs > 0 ∧ delayMs > m.maximumDelayMs) ∨
      (m.packetLenMs > 0 ∧
        delayMs > (int32 (3 * m.maxPacketsInBuffer * m.packetLenMs)).tdiv 4) then m
  else { m with minimumDelayMs := delayMs }

/-- mirrors webrtc/modules/audio_coding/neteq/delay_manager.cc:400-411 -/
def setMaximumDelay (delayMs : Int) : DelayManager :=
  if delayMs = 0 then { m with maximumDelayMs := 0 }
  else if delayMs < m.minimumDelayMs ∨ delayMs < m.packetLenMs then m
  else { m with maximumDelayMs := delayMs }

/-! ## Runs -/

inductive Op where
  | update (sequenceNumber : UInt16) (timestamp : UInt32) (sampleRateHz : Int)
  | updateCounters (elapsedTimeMs : Int)
  | setPacketAudioLength (lengthMs : Int)
  | reset
  | resetPacketIatCount
  | setMinimumDelay (delayMs : Int)
  | setMaximumDelay (delayMs : Int)
  | setStreamingMode (value : Bool)
  deriving DecidableEq, Repr

def step : Op → Option DelayManager
  | .update seq ts rate => (m.update seq ts rate).map (·.2)
  | .updateCounters ms => some (m.updateCounters ms)
  | .setPacketAudioLength ms => some (m.setPacketAudioLength ms)
  | .reset => some m.reset
  | .resetPacketIatCount => some { m with packetIatCountMs := 0 }
  | .setMinimumDelay ms => some (m.setMinimumDelay ms)
  | .setMaximumDelay ms => some (m.setMaximumDelay ms)
  | .setStreamingMode value => some { m with streamingMode := value }

def lts (maxPacketsInBuffer : Nat) : LTS DelayManager Op :=
  LTS.ofFn (· = create maxPacketsInBuffer) step

end DelayManager
end NetEq
end RtcCore.L2
