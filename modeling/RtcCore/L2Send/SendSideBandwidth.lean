import Mathlib.Algebra.Ring.Int.Defs
import Mathlib.Data.List.DropRight
import RtcCore.L2Send.PacedSender

/-!
# `SendSideBandwidthEstimation`

The sender's bandwidth estimate of webrtc/modules/bitrate_controller. Each
receiver block moves two rates: `rttBitrate`, driven by the round-trip time
alone, and `bitrate`, driven by the fraction of packets lost; the estimate is
the smaller of the two. What TFRC allows (`tfrc`, computed in floating point)
is a parameter, and the metrics the class reports are left out.

The rule for a round-trip time between 120 and 400 ms compares the last five
times with the five before, in a window the same call has just trimmed to ten
entries, and is guarded by the window holding more than ten
(`lengthOf_trim`): it is never applied.

Results:
- `rtt_rule`: in every run, the rate follows the rule on a report exactly when
  the report calls for no trend step that would show, and a short round-trip
  time does not find the rate above the maximum.
-/
namespace RtcCore.L2

open Pacing

/-- mirrors webrtc/modules/bitrate_controller/send_side_bandwidth_estimation.h:58-88 -/
structure SendSideBandwidthEstimation where
  minBitrateHistory : List (Int × Nat) := []
  accumulateLostPacketsQ8 : Int := 0
  accumulateExpectedPackets : Int := 0
  bitrate : Nat := 0
  minBitrateConfigured : Nat := 0
  maxBitrateConfigured : Nat := 0
  timeLastReceiverBlockMs : Int := 0
  lastFractionLoss : Nat := 0
  lastRoundTripTimeMs : Int := 0
  bweIncoming : Nat := 0
  timeLastDecreaseMs : Int := 0
  firstReportTimeMs : Int := -1
  rttBitrate : Nat := 0
  rttHis : List Int := []
  quickRecorverCount : Nat := 0
  quickRecorverMs : Int := 0
  deriving DecidableEq, Repr

namespace SendSideBandwidthEstimation

variable (tfrc : Int → Nat → Nat) (s : SendSideBandwidthEstimation)

/-- mirrors webrtc/modules/bitrate_controller/send_side_bandwidth_estimation.cc:88-96 -/
def setSendBitrate (bitrate : Nat) : SendSideBandwidthEstimation :=
  { s with bitrate := bitrate, rttBitrate := bitrate, minBitrateHistory := [], rttHis := [] }

/-- mirrors webrtc/modules/bitrate_controller/send_side_bandwidth_estimation.cc:98-102 -/
def setMinMaxBitrate (minBitrate maxBitrate : Nat) : SendSideBandwidthEstimation :=
  { s with minBitrateConfigured := minBitrate, maxBitrateConfigured := maxBitrate }

/-- The bitrate, the loss and the round-trip time.
mirrors webrtc/modules/bitrate_controller/send_side_bandwidth_estimation.cc:108-114 -/
def currentEstimate : Nat × Nat × Int :=
  (min s.bitrate s.rttBitrate, s.lastFractionLoss, s.lastRoundTripTimeMs)

/-- mirrors webrtc/modules/bitrate_controller/send_side_bandwidth_estimation.cc:319-322 -/
def isInStartPhase (nowMs : Int) : Bool :=
  s.firstReportTimeMs = -1 ∨ nowMs - s.firstReportTimeMs < 2000

/-- mirrors webrtc/modules/bitrate_controller/send_side_bandwidth_estimation.cc:345-360 -/
def capBitrateToThresholds (bitrate : Nat) : Nat :=
  let bitrate := if s.bweIncoming > 0 ∧ bitrate > s.bweIncoming then s.bweIncoming else bitrate
  let bitrate := if bitrate > s.maxBitrateConfigured then s.maxBitrateConfigured else bitrate
  if bitrate < s.minBitrateConfigured then s.minBitrateConfigured else bitrate

/-- mirrors webrtc/modules/bitrate_controller/send_side_bandwidth_estimation.cc:324-343 -/
def updateMinHistory (nowMs : Int) : SendSideBandwidthEstimation :=
  let recent := s.minBitrateHistory.dropWhile fun e => nowMs - e.1 + 1 > 1000
  let lower := recent.rdropWhile fun e => s.bitrate ≤ e.2
  { s with minBitrateHistory := lower ++ [(nowMs, s.bitrate)] }

/-- The estimates in a row with hardly any loss.
mirrors webrtc/modules/bitrate_controller/send_side_bandwidth_estimation.cc:247-256 -/
def countRecover (nowMs : Int) : SendSideBandwidthEstimation :=
  if s.lastFractionLoss ≤ 5 then
    { s with
      quickRecorverCount :=
        ((if nowMs - s.quickRecorverMs > 2000 then 0 else s.quickRecorverCount) + 1) % 2 ^ 32
      quickRecorverMs := nowMs }
  else { s with quickRecorverCount := 0 }

/-- The loss rule.
mirrors webrtc/modules/bitrate_controller/send_side_bandwidth_estimation.cc:258-314 -/
def applyLoss (nowMs : Int) : SendSideBandwidthEstimation :=
  if s.lastFractionLoss ≤ 5 then
    let incPercent :=
      if s.bitrate < s.maxBitrateConfigured / 2 ∧ 1 < s.quickRecorverCount ∧
          s.quickRecorverCount < 100 then
        min 30 (8 + s.quickRecorverCount * s.quickRecorverCount / 4 +
          if s.lastFractionLoss ≤ 1 then 2 else 0)
      else 8
    -- the front of the history, which `updateMinHistory` has left not empty
    let lowest := (s.minBitrateHistory.head?.map (·.2)).getD 0
    { s with
      bitrate :=
        (lowest + (lowest * incPercent % 2 ^ 32 + 50) % 2 ^ 32 / 100 + 1000) % 2 ^ 32 }
  else if s.lastFractionLoss ≤ 26 then s
  else if nowMs - s.timeLastDecreaseMs ≥ 300 + s.lastRoundTripTimeMs then
    { s with
      timeLastDecreaseMs := nowMs
      bitrate := max (s.bitrate * (512 - s.lastFractionLoss) / 512)
        (tfrc s.lastRoundTripTimeMs s.lastFractionLoss) }
  else s

/-- mirrors webrtc/modules/bitrate_controller/send_side_bandwidth_estimation.cc:234-317 -/
def updateEstimate (nowMs : Int) : SendSideBandwidthEstimation :=
  if s.lastFractionLoss = 0 ∧ s.isInStartPhase nowMs ∧ s.bweIncoming > s.bitrate then
    let bitrate := s.capBitrateToThresholds s.bweIncoming
    { s with bitrate := bitrate, minBitrateHistory := [(nowMs, bitrate)] }
  else
    let s := s.updateMinHistory nowMs
    let s := if s.timeLastReceiverBlockMs ≠ 0 then (s.countRecover nowMs).applyLoss tfrc nowMs else s
    { s with bitrate := s.capBitrateToThresholds s.bitrate }

/-- `while (rtt_his_.size() > 10) rtt_his_.erase(rtt_his_.begin())`. -/
def trim : List Int → List Int
  | [] => []
  | rtt :: his => if (rtt :: his).length > 10 then trim his else rtt :: his

/-- A sum in an `int`. -/
def sumInt (l : List Int) : Int := l.foldl (fun sum rtt => toInt32 (sum + rtt)) 0

/-- The step a round-trip time calls for, over the window of the last ones.
mirrors webrtc/modules/bitrate_controller/send_side_bandwidth_estimation.cc:136-171 -/
def stepRate (his : List Int) (rtt : Int) (rate : Nat) : Nat :=
  let rate := if rtt > 1000 then rate / 2 else rate
  if rtt > 500 then rate * 8 % 2 ^ 32 / 10
  else if rtt > 400 then rate * 9 % 2 ^ 32 / 10
  else if rtt > 120 then
    if his.length > 10 then
      let oldRtt := sumInt (his.take 5)
      let newRtt := sumInt ((his.drop 5).take 5)
      if newRtt < oldRtt then rate * 21 % 2 ^ 32 / 20
      else if newRtt > (toInt32 (oldRtt * 12)).tdiv 10 then rate * 19 % 2 ^ 32 / 20
      else rate
    else rate
  else if rtt > 80 then rate * 15 % 2 ^ 32 / 14
  else if rtt > 0 then rate * 10 % 2 ^ 32 / 9
  else rate

/-- mirrors webrtc/modules/bitrate_controller/send_side_bandwidth_estimation.cc:172-177 -/
def clampRate (rate : Nat) : Nat :=
  if rate > s.maxBitrateConfigured then s.maxBitrateConfigured
  else if rate < s.minBitrateConfigured then s.minBitrateConfigured
  else rate

/-- mirrors webrtc/modules/bitrate_controller/send_side_bandwidth_estimation.cc:123-177 -/
def updateRtt (rtt nowMs : Int) : SendSideBandwidthEstimation :=
  let his := trim (s.rttHis ++ [toInt32 rtt])
  { s with
    firstReportTimeMs := if s.firstReportTimeMs = -1 then nowMs else s.firstReportTimeMs
    lastRoundTripTimeMs := rtt
    rttHis := his
    rttBitrate := s.clampRate (stepRate his rtt s.rttBitrate) }

/-- mirrors webrtc/modules/bitrate_controller/send_side_bandwidth_estimation.cc:179-201 -/
def updateLoss (fractionLoss : Nat) (numberOfPackets nowMs : Int) : SendSideBandwidthEstimation :=
  if numberOfPackets > 0 then
    let lost := toInt32 (s.accumulateLostPacketsQ8 + toInt32 (fractionLoss * numberOfPackets))
    let expected := toInt32 (s.accumulateExpectedPackets + numberOfPackets)
    if expected ≥ 20 then
      updateEstimate tfrc
        { s with
          lastFractionLoss := ((lost.tdiv expected) % 256).toNat
          accumulateLostPacketsQ8 := 0
          accumulateExpectedPackets := 0
          timeLastReceiverBlockMs := nowMs } nowMs
    else { s with accumulateLostPacketsQ8 := lost, accumulateExpectedPackets := expected }
  else updateEstimate tfrc { s with timeLastReceiverBlockMs := nowMs } nowMs

/-- mirrors webrtc/modules/bitrate_controller/send_side_bandwidth_estimation.cc:123-201 -/
def updateReceiverBlock (fractionLoss : Nat) (rtt numberOfPackets nowMs : Int) :
    SendSideBandwidthEstimation :=
  (s.updateRtt rtt nowMs).updateLoss tfrc fractionLoss numberOfPackets nowMs

/-! ## Runs -/

/-- The calls of the class; `UpdateReceiverEstimate` returns before it does anything.
mirrors webrtc/modules/bitrate_controller/send_side_bandwidth_estimation.cc:116-121 -/
inductive Call where
  | setSendBitrate (bitrate : Nat)
  | setMinMaxBitrate (minBitrate maxBitrate : Nat)
  | updateReceiverEstimate (bandwidth : Nat)
  | updateReceiverBlock (fractionLoss : Nat) (rtt numberOfPackets nowMs : Int)
  | updateEstimate (nowMs : Int)
  deriving DecidableEq, Repr

def call : Call → SendSideBandwidthEstimation
  | .setSendBitrate bitrate => s.setSendBitrate bitrate
  | .setMinMaxBitrate lo hi => s.setMinMaxBitrate lo hi
  | .updateReceiverEstimate _ => s
  | .updateReceiverBlock loss rtt packets nowMs => s.updateReceiverBlock tfrc loss rtt packets nowMs
  | .updateEstimate nowMs => s.updateEstimate tfrc nowMs

def run (calls : List Call) : SendSideBandwidthEstimation := calls.foldl (call tfrc) {}

/-! ## The rule -/

/-- The round-trip times reported since the bitrate was last set, the newest last. -/
def reported : List Call → List Int :=
  List.foldl (fun held c =>
    match c with
    | .setSendBitrate _ => []
    | .updateReceiverBlock _ rtt _ _ => held ++ [rtt]
    | _ => held) []

/-- The sum of the five newest. -/
def newest (held : List Int) : Int := (held.drop (held.length - 5)).sum

/-- The sum of the five before them. -/
def older (held : List Int) : Int := ((held.drop (held.length - 10)).take 5).sum

/-- What a report is to do to the rate; `held` ends with the time it reports. -/
structure Rule (held : List Int) (rtt : Int) (s' : SendSideBandwidthEstimation) : Prop where
  within : s'.minBitrateConfigured ≤ s'.rttBitrate ∧ s'.rttBitrate ≤ s'.maxBitrateConfigured
  short : 0 < rtt → rtt ≤ 120 → s.rttBitrate ≤ s'.rttBitrate
  falling : 120 < rtt → rtt ≤ 400 → 10 ≤ held.length → newest held < older held →
    s'.rttBitrate = s.clampRate (s.rttBitrate * 21 / 20)
  rising : 120 < rtt → rtt ≤ 400 → 10 ≤ held.length → 12 * older held < 10 * newest held →
    s'.rttBitrate = s.clampRate (s.rttBitrate * 19 / 20)

/-- Between the two rates the limits let no difference through. -/
def Hidden (low high : Nat) : Prop :=
  low = high ∨ s.minBitrateConfigured = s.maxBitrateConfigured ∨
    s.maxBitrateConfigured ≤ low ∨ high ≤ s.minBitrateConfigured

/-- The reports that fare as the rule says although no trend step is ever made. -/
structure Unmoved (held : List Int) (rtt : Int) : Prop where
  short : 0 < rtt → rtt ≤ 120 → s.rttBitrate ≤ s.maxBitrateConfigured
  falling : 120 < rtt → rtt ≤ 400 → 10 ≤ held.length → newest held < older held →
    s.Hidden s.rttBitrate (s.rttBitrate * 21 / 20)
  rising : 120 < rtt → rtt ≤ 400 → 10 ≤ held.length → 12 * older held < 10 * newest held →
    s.Hidden (s.rttBitrate * 19 / 20) s.rttBitrate

/-- Limits in order, and rates whose largest multiple fits 32 bits. -/
def Call.Sound : Call → Prop
  | .setSendBitrate bitrate => 21 * bitrate < 2 ^ 32
  | .setMinMaxBitrate lo hi => lo ≤ hi ∧ 21 * hi < 2 ^ 32
  | _ => True

instance (c : Call) : Decidable c.Sound := by
  cases c <;> unfold Call.Sound <;> infer_instance

/-- What sound calls keep. -/
structure Sound : Prop where
  limits : s.minBitrateConfigured ≤ s.maxBitrateConfigured
  highest : 21 * s.maxBitrateConfigured < 2 ^ 32
  rate : 21 * s.rttBitrate < 2 ^ 32

/-! ## What the other parts leave alone -/

/-- The fields the round-trip time works on. -/
def rttFields : Nat × Nat × Nat × List Int :=
  (s.minBitrateConfigured, s.maxBitrateConfigured, s.rttBitrate, s.rttHis)

theorem countRecover_rttFields (nowMs : Int) : (s.countRecover nowMs).rttFields = s.rttFields := by
  unfold countRecover
  split <;> rfl

theorem applyLoss_rttFields (nowMs : Int) : (s.applyLoss tfrc nowMs).rttFields = s.rttFields := by
  unfold applyLoss
  split
  · simp only [rttFields]
  · split
    · rfl
    · split <;> rfl

theorem updateEstimate_rttFields (nowMs : Int) :
    (s.updateEstimate tfrc nowMs).rttFields = s.rttFields := by
  unfold updateEstimate
  split
  · rfl
  · dsimp only
    split
    · exact (applyLoss_rttFields tfrc _ nowMs).trans (countRecover_rttFields _ nowMs)
    · rfl

theorem updateLoss_rttFields (loss : Nat) (packets nowMs : Int) :
    (s.updateLoss tfrc loss packets nowMs).rttFields = s.rttFields := by
  unfold updateLoss
  split
  · dsimp only
    split
    · exact updateEstimate_rttFields tfrc _ nowMs
    · rfl
  · exact updateEstimate_rttFields tfrc _ nowMs

/-! ## One report -/

/-- The window the trend is read from never holds more than ten. -/
theorem length_trim (his : List Int) : (trim his).length ≤ 10 := by
  induction his with
  | nil => exact Nat.zero_le 10
  | cons rtt his ih =>
    unfold trim
    split
    · exact ih
    · omega

theorem trim_eq_drop (his : List Int) : trim his = his.drop (his.length - 10) := by
  induction his with
  | nil => rfl
  | cons rtt his ih =>
    unfold trim
    split
    · rename_i h
      have hten : 10 ≤ his.length := Nat.le_of_lt_succ h
      rw [ih, List.length_cons, Nat.sub_add_comm hten, List.drop_succ_cons]
    · rename_i h
      rw [Nat.sub_eq_zero_of_le (by omega)]
      rfl

theorem stepRate_between {his : List Int} {rtt : Int} {rate : Nat} (hlen : his.length ≤ 10)
    (h1 : 120 < rtt) (h2 : rtt ≤ 400) : stepRate his rtt rate = rate := by
  have hwhole : (if rtt > 1000 then rate / 2 else rate) = rate := if_neg (by omega)
  unfold stepRate
  dsimp only
  rw [hwhole, if_neg (by omega), if_neg (by omega), if_pos h1, if_neg (by omega)]

theorem le_stepRate_short (his : List Int) {rtt : Int} {rate : Nat} (hrate : 21 * rate < 2 ^ 32)
    (h1 : 0 < rtt) (h2 : rtt ≤ 120) : rate ≤ stepRate his rtt rate := by
  have hwhole : (if rtt > 1000 then rate / 2 else rate) = rate := if_neg (by omega)
  unfold stepRate
  dsimp only
  rw [hwhole, if_neg (by omega), if_neg (by omega), if_neg (by omega)]
  split
  · rw [Nat.mod_eq_of_lt (by omega)]
    omega
  · rw [Nat.mod_eq_of_lt (by omega)]
    omega

section
variable {s}

theorem clampRate_within (h : s.minBitrateConfigured ≤ s.maxBitrateConfigured) (rate : Nat) :
    s.minBitrateConfigured ≤ s.clampRate rate ∧ s.clampRate rate ≤ s.maxBitrateConfigured := by
  unfold clampRate
  split
  · exact ⟨h, Nat.le_refl _⟩
  · split
    · exact ⟨Nat.le_refl _, h⟩
    · omega

theorem clampRate_eq_iff (h : s.minBitrateConfigured ≤ s.maxBitrateConfigured) {low high : Nat}
    (hle : low ≤ high) : s.clampRate low = s.clampRate high ↔ s.Hidden low high := by
  unfold clampRate Hidden
  split <;> split <;> (try split) <;> (try split) <;> omega

/-- A short time never lowers the rate, the maximum apart. -/
theorem le_clampRate_iff (h : s.minBitrateConfigured ≤ s.maxBitrateConfigured) {low high : Nat}
    (hle : low ≤ high) : low ≤ s.clampRate high ↔ low ≤ s.maxBitrateConfigured := by
  unfold clampRate
  split
  · exact Iff.rfl
  · split <;> omega

theorem updateReceiverBlock_rate (loss : Nat) (rtt packets nowMs : Int) :
    (s.updateReceiverBlock tfrc loss rtt packets nowMs).rttFields =
      (s.minBitrateConfigured, s.maxBitrateConfigured,
        s.clampRate (stepRate (trim (s.rttHis ++ [toInt32 rtt])) rtt s.rttBitrate),
        trim (s.rttHis ++ [toInt32 rtt])) := by
  unfold updateReceiverBlock
  rw [updateLoss_rttFields]
  rfl

/-- The rule holds of a report exactly where no trend step would show. -/
theorem rule_iff (hs : s.Sound) (held : List Int) (loss : Nat) (rtt packets nowMs : Int) :
    s.Rule held rtt (s.updateReceiverBlock tfrc loss rtt packets nowMs) ↔ s.Unmoved held rtt := by
  have hf := s.updateReceiverBlock_rate tfrc loss rtt packets nowMs
  have hlen := length_trim (s.rttHis ++ [toInt32 rtt])
  generalize s.updateReceiverBlock tfrc loss rtt packets nowMs = s' at hf
  generalize trim (s.rttHis ++ [toInt32 rtt]) = his at hf hlen
  obtain ⟨hmin, hmax, hrate, -⟩ : _ ∧ _ ∧ _ ∧ _ := by
    simpa only [rttFields, Prod.mk.injEq] using hf
  have hstay (h1 : 120 < rtt) (h2 : rtt ≤ 400) : s'.rttBitrate = s.clampRate s.rttBitrate := by
    rw [hrate, stepRate_between hlen h1 h2]
  constructor
  · intro hr
    refine ⟨fun h1 h2 => ?_, fun h1 h2 h3 h4 => ?_, fun h1 h2 h3 h4 => ?_⟩
    · rw [← le_clampRate_iff hs.limits (le_stepRate_short his hs.rate h1 h2), ← hrate]
      exact hr.short h1 h2
    · rw [← clampRate_eq_iff hs.limits (by omega), ← hstay h1 h2]
      exact hr.falling h1 h2 h3 h4
    · rw [← clampRate_eq_iff hs.limits (by omega), ← hstay h1 h2]
      exact (hr.rising h1 h2 h3 h4).symm
  · intro hu
    refine ⟨?_, fun h1 h2 => ?_, fun h1 h2 h3 h4 => ?_, fun h1 h2 h3 h4 => ?_⟩
    · rw [hmin, hmax, hrate]
      exact clampRate_within hs.limits _
    · rw [hrate, le_clampRate_iff hs.limits (le_stepRate_short his hs.rate h1 h2)]
      exact hu.short h1 h2
    · rw [hstay h1 h2, clampRate_eq_iff hs.limits (by omega)]
      exact hu.falling h1 h2 h3 h4
    · rw [hstay h1 h2]
      exact ((clampRate_eq_iff hs.limits (by omega)).2 (hu.rising h1 h2 h3 h4)).symm

/-! ## Every run -/

theorem call_sound (hs : s.Sound) {c : Call} (hc : c.Sound) : (s.call tfrc c).Sound := by
  cases c with
  | setSendBitrate bitrate => exact ⟨hs.limits, hs.highest, hc⟩
  | setMinMaxBitrate lo hi => exact ⟨hc.1, hc.2, hs.rate⟩
  | updateReceiverEstimate => exact hs
  | updateReceiverBlock loss rtt packets nowMs =>
    have hf := s.updateReceiverBlock_rate tfrc loss rtt packets nowMs
    obtain ⟨hmin, hmax, hrate, -⟩ : _ ∧ _ ∧ _ ∧ _ := by
      simpa only [rttFields, Prod.mk.injEq] using hf
    have hle := (clampRate_within hs.limits
      (stepRate (trim (s.rttHis ++ [toInt32 rtt])) rtt s.rttBitrate)).2
    have hhigh := hs.highest
    refine ⟨?_, ?_, ?_⟩
    · exact hmin ▸ hmax ▸ hs.limits
    · exact hmax ▸ hs.highest
    · simp only [call]
      omega
  | updateEstimate nowMs =>
    obtain ⟨hmin, hmax, hrate, -⟩ : _ ∧ _ ∧ _ ∧ _ := by
      simpa only [rttFields, Prod.mk.injEq] using s.updateEstimate_rttFields tfrc nowMs
    exact ⟨hmin ▸ hmax ▸ hs.limits, hmax ▸ hs.highest, hrate ▸ hs.rate⟩

theorem run_sound {calls : List Call} (h : ∀ c ∈ calls, c.Sound) : (run tfrc calls).Sound := by
  unfold run
  have h0 : Sound {} := ⟨Nat.le_refl _, by decide, by decide⟩
  generalize ({} : SendSideBandwidthEstimation) = s₀ at h0
  induction calls generalizing s₀ with
  | nil => exact h0
  | cons c calls ih =>
    exact ih (fun c hc => h c (List.mem_cons_of_mem _ hc)) _
      (call_sound tfrc h0 (h c List.mem_cons_self))

end

theorem trim_window (held : List Int) (rtt : Int) :
    trim (held.drop (held.length - 10) ++ [rtt]) =
      (held ++ [rtt]).drop ((held ++ [rtt]).length - 10) := by
  rw [trim_eq_drop, List.length_append, List.length_append, List.length_drop,
    List.length_singleton]
  by_cases h : held.length < 10
  · rw [Nat.sub_eq_zero_of_le (by omega : held.length ≤ 10), List.drop_zero]
    rfl
  · rw [List.drop_append_of_le_length (by rw [List.length_drop]; omega), List.drop_drop,
      List.drop_append_of_le_length (by omega)]
    congr 2
    omega

/-- In every run, the window is the last ten times reported. -/
theorem run_window (calls : List Call) :
    (run tfrc calls).rttHis =
      ((reported calls).map toInt32).drop ((reported calls).length - 10) := by
  induction calls using List.reverseRecOn with
  | nil => rfl
  | append_singleton calls c ih =>
    simp only [run, reported, List.foldl_append, List.foldl_cons, List.foldl_nil] at ih ⊢
    generalize calls.foldl (call tfrc) {} = s at ih ⊢
    cases c with
    | setSendBitrate => rfl
    | setMinMaxBitrate => exact ih
    | updateReceiverEstimate => exact ih
    | updateReceiverBlock loss rtt packets nowMs =>
      have hf := congrArg (fun f => f.2.2.2) (s.updateReceiverBlock_rate tfrc loss rtt packets nowMs)
      refine hf.trans ?_
      dsimp only
      rw [ih, ← List.length_map (f := toInt32), trim_window]
      simp
    | updateEstimate nowMs =>
      exact (congrArg (fun f => f.2.2.2) (s.updateEstimate_rttFields tfrc nowMs)).trans ih

/-- In every run, a report changes the rate by the rule exactly when no trend
step it calls for would show, and a short time finds the rate within its maximum. -/
theorem rtt_rule (tfrc : Int → Nat → Nat) (calls : List Call) (h : ∀ c ∈ calls, c.Sound)
    (before : List Call) (loss : Nat) (rtt packets nowMs : Int)
    (hrun : before ++ [.updateReceiverBlock loss rtt packets nowMs] <+: calls) :
    (run tfrc before).Rule (reported before ++ [rtt]) rtt
        (run tfrc (before ++ [.updateReceiverBlock loss rtt packets nowMs])) ↔
      (run tfrc before).Unmoved (reported before ++ [rtt]) rtt := by
  have hb : (run tfrc before).Sound :=
    run_sound tfrc fun c hc => h c (hrun.subset (List.mem_append_left _ hc))
  have hstep : run tfrc (before ++ [.updateReceiverBlock loss rtt packets nowMs]) =
      (run tfrc before).updateReceiverBlock tfrc loss rtt packets nowMs := by
    simp only [run, List.foldl_append, List.foldl_cons, List.foldl_nil, call]
  rw [hstep]
  exact rule_iff tfrc hb _ loss rtt packets nowMs

theorem rtt_rule_short :
    (run (fun _ _ => 0) [.setMinMaxBitrate 100000 1000000, .setSendBitrate 500000]).Rule [100] 100
      (run (fun _ _ => 0) [.setMinMaxBitrate 100000 1000000, .setSendBitrate 500000,
        .updateReceiverBlock 0 100 0 1000]) :=
  (rtt_rule (fun _ _ => 0) [.setMinMaxBitrate 100000 1000000, .setSendBitrate 500000,
    .updateReceiverBlock 0 100 0 1000] (by decide)
    [.setMinMaxBitrate 100000 1000000, .setSendBitrate 500000] 0 100 0 1000
    ( List.prefix_refl _)).2
    ⟨by decide, fun h => absurd h (by decide), fun h => absurd h (by decide)⟩

/-- Five times of 300 ms and then five of 200 ms leave the rate as it is. -/
theorem falling_trend_missed :
    ¬ ∀ (tfrc : Int → Nat → Nat) (calls : List Call), (∀ c ∈ calls, c.Sound) →
      ∀ (before : List Call) (loss : Nat) (rtt packets nowMs : Int),
        before ++ [.updateReceiverBlock loss rtt packets nowMs] <+: calls →
        (run tfrc before).Rule (reported before ++ [rtt]) rtt
          (run tfrc (before ++ [.updateReceiverBlock loss rtt packets nowMs])) := by
  intro h
  have hrule := h (fun _ _ => 0)
    ([.setMinMaxBitrate 100000 1000000, .setSendBitrate 500000] ++
      List.replicate 5 (.updateReceiverBlock 0 300 0 1000) ++
      List.replicate 5 (.updateReceiverBlock 0 200 0 1000)) (by decide)
    ([.setMinMaxBitrate 100000 1000000, .setSendBitrate 500000] ++
      List.replicate 5 (.updateReceiverBlock 0 300 0 1000) ++
      List.replicate 4 (.updateReceiverBlock 0 200 0 1000)) 0 200 0 1000 ( List.prefix_refl _)
  have hrate := hrule.falling (by decide) (by decide) (by decide) (by decide)
  revert hrate
  decide

end SendSideBandwidthEstimation
end RtcCore.L2
