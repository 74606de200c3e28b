import RtcCore.Core.Gaps
import RtcCore.Core.LTS
import RtcCore.Core.Serial
import RtcCore.L1Wire.RtpHeader

/-!
# Receiver-report loss accounting

`StreamStatisticianImpl`: packets of one SSRC are counted, and each
`GetStatistics` with `reset` adds to the cumulative loss what is missing since
the last report. The counters are the code's own (`uint16_t` sequence numbers
and cycles, `uint32_t` packets and loss); the observer of a run unwraps the
sequence numbers, so that what is missing is a set of naturals.

Results:
- `loss_accounting_exact`: in every run of packets in order whose steps are
  `Accountable`, what `GetStatistics` answers is the extended highest number
  and the count of missing numbers at the last report.
- `wrapped_interval_unreported`: a report interval that contains the wrap
  counts no loss.
-/
namespace RtcCore.L2

open Serial
open L1 (RTPHeader)

/-! ## The statistician -/

/-- mirrors webrtc/common_types.h:843-874 -/
structure RtpPacketCounter where
  headerBytes : UInt64 := 0
  payloadBytes : UInt64 := 0
  paddingBytes : UInt64 := 0
  packets : UInt32 := 0
  deriving DecidableEq, Repr

/-- mirrors webrtc/common_types.h:857-863 -/
def RtpPacketCounter.addPacket (c : RtpPacketCounter) (packetLength : Nat) (header : RTPHeader) :
    RtpPacketCounter where
  packets := c.packets + 1
  headerBytes := c.headerBytes + .ofNat header.headerLength
  paddingBytes := c.paddingBytes + .ofNat header.paddingLength
  payloadBytes := c.payloadBytes +
    (.ofNat packetLength - (.ofNat header.headerLength + .ofNat header.paddingLength))

/-- mirrors webrtc/common_types.h:181-192 -/
structure RtcpStatistics where
  fractionLost : UInt8 := 0
  cumulativeLost : UInt32 := 0
  extendedMaxSequenceNumber : UInt32 := 0
  jitter : UInt32 := 0
  deriving DecidableEq, Repr

/-- What the clock reads when a packet comes in. -/
structure Clock where
  timeInMilliseconds : Int64
  ntpSecs : UInt32
  ntpFrac : UInt32
  deriving DecidableEq, Repr

/-- mirrors webrtc/modules/rtp_rtcp/source/receive_statistics_impl.h:64-95
(`received_packet_overhead_` and the counters, without the bitrate meter) -/
structure StreamStatistician where
  ssrc : UInt32 := 0
  /-- `kDefaultMaxReorderingThreshold` -/
  maxReorderingThreshold : Int := 50
  jitterQ4 : UInt32 := 0
  cumulativeLoss : UInt32 := 0
  jitterQ4TransmissionTimeOffset : UInt32 := 0
  lastReceiveTimeMs : Int64 := 0
  lastReceiveTimeSecs : UInt32 := 0
  lastReceiveTimeFrac : UInt32 := 0
  lastReceivedTimestamp : UInt32 := 0
  lastReceivedTransmissionTimeOffset : Int32 := 0
  receivedSeqFirst : UInt16 := 0
  receivedSeqMax : UInt16 := 0
  receivedSeqWraps : UInt16 := 0
  receivedPacketOverhead : UInt64 := 12
  transmitted : RtpPacketCounter := {}
  retransmitted : RtpPacketCounter := {}
  firstPacketTimeMs : Int64 := -1
  lastReportInorderPackets : UInt32 := 0
  lastReportOldPackets : UInt32 := 0
  lastReportSeqMax : UInt16 := 0
  lastReportedStatistics : RtcpStatistics := {}
  deriving DecidableEq, Repr

namespace StreamStatistician

variable (s : StreamStatistician)

/-- mirrors webrtc/modules/rtp_rtcp/source/receive_statistics_impl.cc:383-396 -/
def inOrderPacketInternal (seq : UInt16) : Bool :=
  if s.lastReceiveTimeMs = 0 then true
  else if isNewerSequenceNumber seq s.receivedSeqMax then true
  -- a restart of the remote side is still in order
  else !isNewerSequenceNumber seq (.ofInt (s.receivedSeqMax.toNat - s.maxReorderingThreshold))

/-- One jitter estimate in Q4, moved by a sixteenth of the difference.
mirrors webrtc/modules/rtp_rtcp/source/receive_statistics_impl.cc:141-151 -/
def jitterStep (jitter : UInt32) (timeDiffSamples : Int32) : UInt32 :=
  if timeDiffSamples.abs < 450000 then
    let diff := ((timeDiffSamples.abs <<< 4).toUInt32 - jitter).toInt32
    jitter + ((diff + 8) >>> 4).toUInt32
  else jitter

/-- `convert` is `ConvertNTPTimeToRTP`, which rounds in floating point.
mirrors webrtc/modules/rtp_rtcp/source/receive_statistics_impl.cc:131-170 -/
def updateJitter (convert : UInt32 → UInt32 → UInt32 → UInt32) (header : RTPHeader)
    (receiveTimeSecs receiveTimeFrac : UInt32) : StreamStatistician :=
  let frequency := header.payloadTypeFrequency.toUInt32
  let receiveTimeRtp := convert receiveTimeSecs receiveTimeFrac frequency
  let lastReceiveTimeRtp := convert s.lastReceiveTimeSecs s.lastReceiveTimeFrac frequency
  let timeDiff := (receiveTimeRtp - lastReceiveTimeRtp) -
    (header.timestamp - s.lastReceivedTimestamp)
  let timeDiffExt := (receiveTimeRtp - lastReceiveTimeRtp) -
    ((header.timestamp + header.extension.transmissionTimeOffset.toUInt32) -
      (s.lastReceivedTimestamp + s.lastReceivedTransmissionTimeOffset.toUInt32))
  { s with
    jitterQ4 := jitterStep s.jitterQ4 timeDiff.toInt32
    jitterQ4TransmissionTimeOffset :=
      jitterStep s.jitterQ4TransmissionTimeOffset timeDiffExt.toInt32 }

/-- mirrors webrtc/modules/rtp_rtcp/source/receive_statistics_impl.cc:82-92 -/
def countPacket (header : RTPHeader) (packetLength : Nat) (retransmitted : Bool) (clock : Clock) :
    StreamStatistician :=
  let inOrder := s.inOrderPacketInternal header.sequenceNumber
  let s := { s with
    ssrc := header.ssrc
    transmitted := s.transmitted.addPacket packetLength header
    retransmitted :=
      if !inOrder && retransmitted then s.retransmitted.addPacket packetLength header
      else s.retransmitted }
  if s.transmitted.packets = 1 then
    { s with
      receivedSeqFirst := header.sequenceNumber
      firstPacketTimeMs := clock.timeInMilliseconds }
  else s

/-- mirrors webrtc/modules/rtp_rtcp/source/receive_statistics_impl.cc:96-122 -/
def noteInOrder (convert : UInt32 → UInt32 → UInt32 → UInt32) (header : RTPHeader)
    (clock : Clock) : StreamStatistician :=
  let s := { s with
    receivedSeqWraps :=
      if s.transmitted.packets > 1 ∧ s.receivedSeqMax > header.sequenceNumber then
        s.receivedSeqWraps + 1
      else s.receivedSeqWraps
    receivedSeqMax := header.sequenceNumber }
  let s :=
    if header.timestamp ≠ s.lastReceivedTimestamp ∧
        s.transmitted.packets - s.retransmitted.packets > 1 then
      s.updateJitter convert header clock.ntpSecs clock.ntpFrac
    else s
  { s with
    lastReceivedTimestamp := header.timestamp
    lastReceiveTimeSecs := clock.ntpSecs
    lastReceiveTimeFrac := clock.ntpFrac
    lastReceiveTimeMs := clock.timeInMilliseconds }

/-- mirrors webrtc/modules/rtp_rtcp/source/receive_statistics_impl.cc:77-129 -/
def updateCounters (convert : UInt32 → UInt32 → UInt32 → UInt32) (header : RTPHeader)
    (packetLength : Nat) (retransmitted : Bool) (clock : Clock) : StreamStatistician :=
  let inOrder := s.inOrderPacketInternal header.sequenceNumber
  let s := s.countPacket header packetLength retransmitted clock
  let s := if inOrder then s.noteInOrder convert header clock else s
  let packetOh := UInt64.ofNat header.headerLength + .ofNat header.paddingLength
  { s with receivedPacketOverhead := (15 * s.receivedPacketOverhead + packetOh) >>> 4 }

/-- Packets that were not retransmissions. -/
def inorderPackets : UInt32 := s.transmitted.packets - s.retransmitted.packets

/-- What `last_report_seq_max_` is taken to be in the next report.
mirrors webrtc/modules/rtp_rtcp/source/receive_statistics_impl.cc:241-244 -/
def reportBase : UInt16 :=
  if s.lastReportInorderPackets = 0 then s.receivedSeqFirst - 1 else s.lastReportSeqMax

/-- mirrors webrtc/modules/rtp_rtcp/source/receive_statistics_impl.cc:246-252 -/
def expSinceLast : UInt16 :=
  if s.reportBase > s.receivedSeqMax then 0 else s.receivedSeqMax - s.reportBase

/-- mirrors webrtc/modules/rtp_rtcp/source/receive_statistics_impl.cc:254-271 -/
def recSinceLast : UInt32 :=
  (s.inorderPackets - s.lastReportInorderPackets) +
    (s.retransmitted.packets - s.lastReportOldPackets)

/-- mirrors webrtc/modules/rtp_rtcp/source/receive_statistics_impl.cc:273-276 -/
def missingSinceLast : Int32 :=
  if s.expSinceLast.toUInt32 > s.recSinceLast then
    (s.expSinceLast.toUInt32 - s.recSinceLast).toInt32
  else 0

/-- mirrors webrtc/modules/rtp_rtcp/source/receive_statistics_impl.cc:277-283 -/
def fractionLost : UInt8 :=
  if s.expSinceLast ≠ 0 then
    .ofInt (255 * s.missingSinceLast / s.expSinceLast.toUInt32.toInt32).toInt
  else 0

/-- mirrors webrtc/modules/rtp_rtcp/source/receive_statistics_impl.cc:238-304 -/
def calculateRtcpStatistics : RtcpStatistics × StreamStatistician :=
  let cumulativeLoss := s.cumulativeLoss + s.missingSinceLast.toUInt32
  let stats : RtcpStatistics :=
    { fractionLost := s.fractionLost
      cumulativeLost := cumulativeLoss
      extendedMaxSequenceNumber :=
        (s.receivedSeqWraps.toUInt32 <<< 16) + s.receivedSeqMax.toUInt32
      jitter := s.jitterQ4 >>> 4 }
  (stats, { s with
    cumulativeLoss := cumulativeLoss
    lastReportedStatistics := stats
    lastReportInorderPackets := s.inorderPackets
    lastReportOldPackets := s.retransmitted.packets
    lastReportSeqMax := s.receivedSeqMax })

/-- `none` is the source's `false`.
mirrors webrtc/modules/rtp_rtcp/source/receive_statistics_impl.cc:210-236 -/
def getStatistics (reset : Bool) : Option RtcpStatistics × StreamStatistician :=
  if s.receivedSeqFirst = 0 ∧ s.transmitted.payloadBytes = 0 then (none, s)
  else if !reset then
    if s.lastReportInorderPackets = 0 then (none, s)
    else (some s.lastReportedStatistics, s)
  else
    let (stats, s) := s.calculateRtcpStatistics
    (some stats, s)

/-! ## An in-order packet -/

section InOrder

variable {s : StreamStatistician} {header : RTPHeader}

/-- Up to half the circle past the highest number a packet is in order,
whatever the clock read. -/
theorem inOrder_of_near {seq : UInt16} (ht : s.maxReorderingThreshold = 50)
    (h0 : 0 < dist s.receivedSeqMax seq) (h1 : dist s.receivedSeqMax seq ≤ 0x8000) :
    s.inOrderPacketInternal seq = true := by
  unfold inOrderPacketInternal
  split
  · rfl
  split
  · rfl
  · rename_i hn
    rw [Bool.not_eq_true] at hn
    rw [Bool.not_eq_true']
    have h2 := seq.toNat_lt
    have h3 := s.receivedSeqMax.toNat_lt
    rw [ht]
    simp only [isNewerSequenceNumber, Bool.and_eq_false_iff, bne_eq_false_iff_eq,
      decide_eq_false_iff_not, Serial.dist, UInt16.toNat_sub, ← UInt16.toNat_inj] at hn h0 h1 ⊢
    rw [UInt16.ofInt, UInt16.toNat_ofNat']
    omega

/-- What the accounting reads of the state. -/
structure Noted (s s' : StreamStatistician) (seq : UInt16) : Prop where
  packets : s'.transmitted.packets = s.transmitted.packets + 1
  retransmitted : s'.retransmitted = s.retransmitted
  first : s'.receivedSeqFirst =
    if s.transmitted.packets + 1 = 1 then seq else s.receivedSeqFirst
  max : s'.receivedSeqMax = seq
  wraps : s'.receivedSeqWraps =
    if s.transmitted.packets + 1 > 1 ∧ s.receivedSeqMax > seq then s.receivedSeqWraps + 1
    else s.receivedSeqWraps
  threshold : s'.maxReorderingThreshold = s.maxReorderingThreshold
  loss : s'.cumulativeLoss = s.cumulativeLoss
  inorder : s'.lastReportInorderPackets = s.lastReportInorderPackets
  old : s'.lastReportOldPackets = s.lastReportOldPackets
  seqMax : s'.lastReportSeqMax = s.lastReportSeqMax
  reported : s'.lastReportedStatistics = s.lastReportedStatistics

theorem noteInOrder_eq (convert : UInt32 → UInt32 → UInt32 → UInt32) (clock : Clock) :
    ∃ jitter jitterExt, s.noteInOrder convert header clock = { s with
      receivedSeqWraps :=
        if s.transmitted.packets > 1 ∧ s.receivedSeqMax > header.sequenceNumber then
          s.receivedSeqWraps + 1
        else s.receivedSeqWraps
      receivedSeqMax := header.sequenceNumber
      jitterQ4 := jitter
      jitterQ4TransmissionTimeOffset := jitterExt
      lastReceivedTimestamp := header.timestamp
      lastReceiveTimeSecs := clock.ntpSecs
      lastReceiveTimeFrac := clock.ntpFrac
      lastReceiveTimeMs := clock.timeInMilliseconds } := by
  unfold noteInOrder
  dsimp only
  split
  · exact ⟨_, _, rfl⟩
  · exact ⟨s.jitterQ4, s.jitterQ4TransmissionTimeOffset, rfl⟩

theorem countPacket_eq {packetLength : Nat} {retransmitted : Bool} {clock : Clock}
    (h : s.inOrderPacketInternal header.sequenceNumber = true) :
    ∃ time, s.countPacket header packetLength retransmitted clock = { s with
      ssrc := header.ssrc
      transmitted := s.transmitted.addPacket packetLength header
      receivedSeqFirst :=
        if s.transmitted.packets + 1 = 1 then header.sequenceNumber else s.receivedSeqFirst
      firstPacketTimeMs := time } := by
  unfold countPacket
  simp only [h, Bool.not_true, Bool.false_and, if_neg Bool.false_ne_true,
    RtpPacketCounter.addPacket]
  split
  · exact ⟨_, rfl⟩
  · exact ⟨s.firstPacketTimeMs, rfl⟩

theorem updateCounters_inOrder (convert : UInt32 → UInt32 → UInt32 → UInt32) (packetLength : Nat)
    (retransmitted : Bool) (clock : Clock)
    (h : s.inOrderPacketInternal header.sequenceNumber = true) :
    Noted s (s.updateCounters convert header packetLength retransmitted clock)
      header.sequenceNumber := by
  unfold updateCounters
  simp only [h, if_true]
  obtain ⟨time, hc⟩ := @countPacket_eq s header packetLength retransmitted clock h
  rw [hc]
  obtain ⟨j, e, hn⟩ := @noteInOrder_eq _ header convert clock
  rw [hn]
  constructor <;> rfl

end InOrder

/-! ## A report's counts -/

/-- The expected count reads the circle only: it is exact when number 0 is
not among the numbers `lo` to `hi`, and never more than their count. -/
theorem expSinceLast_toNat {s : StreamStatistician} {lo hi : Nat}
    (hb : s.reportBase = .ofNat (lo + 65535)) (hm : s.receivedSeqMax = .ofNat hi)
    (hle : lo ≤ hi + 1) :
    s.expSinceLast.toNat ≤ (hi + 1 - lo) % 65536 ∧
      ((∀ m, lo ≤ m → m ≤ hi → m % 65536 ≠ 0) → s.expSinceLast.toNat = hi + 1 - lo) := by
  have hgt : s.reportBase > s.receivedSeqMax ↔ hi % 65536 < (lo + 65535) % 65536 := by
    rw [hb, hm, gt_iff_lt, UInt16.lt_iff_toNat_lt, UInt16.toNat_ofNat', UInt16.toNat_ofNat']
  have hsub : (s.receivedSeqMax - s.reportBase).toNat = (hi + 1 - lo) % 65536 := by
    rw [hb, hm, UInt16.toNat_sub, UInt16.toNat_ofNat', UInt16.toNat_ofNat']
    omega
  -- the last multiple of the circle up to `hi` is before `lo`
  have hcycle : (∀ m, lo ≤ m → m ≤ hi → m % 65536 ≠ 0) → hi / 65536 * 65536 < lo ∨ hi < lo := by
    intro hz
    by_cases hlo : lo ≤ hi / 65536 * 65536
    · exact absurd (Nat.mul_mod_left _ _) (hz _ hlo (Nat.div_mul_le_self _ _))
    · exact Or.inl (Nat.lt_of_not_le hlo)
  unfold expSinceLast
  split
  · rename_i h
    refine ⟨Nat.zero_le _, fun hz => ?_⟩
    have h1 := hgt.1 h
    have h2 := hcycle hz
    rw [UInt16.toNat_zero]
    omega
  · rename_i h
    rw [hsub]
    refine ⟨Nat.le_refl _, fun hz => ?_⟩
    have h1 := mt hgt.2 h
    have h2 := hcycle hz
    omega

theorem missingSinceLast_toNat (s : StreamStatistician) :
    s.missingSinceLast.toUInt32.toNat = s.expSinceLast.toNat - s.recSinceLast.toNat := by
  have hlt := s.expSinceLast.toNat_lt
  have hr := s.recSinceLast.toNat_lt
  unfold missingSinceLast
  split
  · rename_i h
    rw [gt_iff_lt, UInt32.lt_iff_toNat_lt, UInt16.toNat_toUInt32] at h
    rw [UInt32.toUInt32_toInt32, UInt32.toNat_sub, UInt16.toNat_toUInt32]
    omega
  · rename_i h
    rw [gt_iff_lt, UInt32.lt_iff_toNat_lt, UInt16.toNat_toUInt32] at h
    rw [Nat.sub_eq_zero_of_le (Nat.le_of_not_lt h)]
    rfl

end StreamStatistician

/-! ## An observed run -/

/-- The statistician with the unwrapped numbers received so far, latest first,
those the last report covered, and what `GetStatistics` answered last. -/
structure ReportRun where
  stat : StreamStatistician := {}
  received : List Nat := []
  covered : List Nat := []
  answer : Option RtcpStatistics := none
  deriving DecidableEq, Repr

namespace ReportRun

open StreamStatistician

inductive Op where
  | incomingPacket (header : RTPHeader) (packetLength : Nat) (retransmitted : Bool) (clock : Clock)
  | getStatistics (reset : Bool)
  deriving DecidableEq, Repr

/-- The sequence number with the cycles since the first packet's. -/
def unwrapped (r : ReportRun) (seq : UInt16) : Nat :=
  match r.received with
  | [] => seq.toNat
  | n :: _ => n + dist (.ofNat n) seq

/-- The first packet, or one at most half the circle past the last. -/
def inOrder (r : ReportRun) (seq : UInt16) : Bool :=
  match r.received with
  | [] => true
  | n :: _ => decide (0 < dist (.ofNat n) seq ∧ dist (.ofNat n) seq ≤ 0x8000)

def step (convert : UInt32 → UInt32 → UInt32 → UInt32) (r : ReportRun) : Op → Option ReportRun
  | .incomingPacket header packetLength retransmitted clock =>
    if r.inOrder header.sequenceNumber then
      some { r with
        stat := r.stat.updateCounters convert header packetLength retransmitted clock
        received := r.unwrapped header.sequenceNumber :: r.received }
    else none
  | .getStatistics reset =>
    let (answer, stat) := r.stat.getStatistics reset
    some { r with
      stat := stat
      answer := answer
      covered := if reset && answer.isSome then r.received else r.covered }

def lts (convert : UInt32 → UInt32 → UInt32 → UInt32) : LTS ReportRun Op :=
  .ofFn (· = {}) (step convert)

/-- The first number the next report expects. -/
def expectedFrom (r : ReportRun) : Nat :=
  if r.covered = [] then Gaps.first r.received else Gaps.high r.covered + 1

/-- A report that counts right: since the last one the circle did not pass
number 0 or nothing went missing, the 32-bit loss count does not run over, and
the last report did not leave the packet count at 0. -/
structure ReportOk (r : ReportRun) : Prop where
  interval : (∀ m, r.expectedFrom ≤ m → m ≤ Gaps.high r.received → m % 65536 ≠ 0) ∨
    Gaps.missing r.received = Gaps.missing r.covered
  total : Gaps.missing r.received < 2 ^ 32
  counted : r.covered ≠ [] → r.covered.length % 2 ^ 32 ≠ 0

/-- The packet that starts a cycle is not one at which the 32-bit packet
count reads 0 or 1 again. -/
def PacketOk (r : ReportRun) (seq : UInt16) : Prop :=
  r.received = [] ∨ r.unwrapped seq / 65536 = Gaps.high r.received / 65536 ∨
    1 < (r.received.length + 1) % 2 ^ 32

def Accountable (r : ReportRun) : Op → Prop
  | .incomingPacket header _ _ _ => r.PacketOk header.sequenceNumber
  | .getStatistics reset => reset = true → r.ReportOk

/-- A report about the numbers `l`. -/
structure Reports (stats : RtcpStatistics) (l : List Nat) : Prop where
  extended : stats.extendedMaxSequenceNumber.toNat = Gaps.high l % 2 ^ 32
  lost : stats.cumulativeLost.toNat = Gaps.missing l

/-- What was answered last is exact for the packets of the last report. -/
def Exact (r : ReportRun) : Prop := ∀ stats, r.answer = some stats → Reports stats r.covered

/-! ## The invariant -/

/-- The counters of a stream with the numbers `l`. -/
structure Counts (s : StreamStatistician) (l : List Nat) : Prop where
  order : Gaps.Descending l
  packets : s.transmitted.packets = .ofNat l.length
  retransmitted : s.retransmitted.packets = 0
  threshold : s.maxReorderingThreshold = 50
  empty : l = [] → s = {}
  max : s.receivedSeqMax = .ofNat (Gaps.high l)
  wraps : s.receivedSeqWraps = .ofNat (Gaps.high l / 65536)
  /-- The packet count may have run over, and the first number been set again. -/
  first : l ≠ [] → ∃ l', l' <:+ l ∧ l' ≠ [] ∧ (l'.length - 1) % 2 ^ 32 = 0 ∧
    s.receivedSeqFirst = .ofNat (Gaps.high l')

/-- What the last report, about `l`, left. -/
structure Settled (s : StreamStatistician) (l : List Nat) : Prop where
  inorder : s.lastReportInorderPackets = .ofNat l.length
  old : s.lastReportOldPackets = 0
  loss : s.cumulativeLoss.toNat = Gaps.missing l
  seqMax : l ≠ [] → s.lastReportSeqMax = .ofNat (Gaps.high l)
  reported : l ≠ [] → Reports s.lastReportedStatistics l

structure Inv (r : ReportRun) : Prop where
  counts : Counts r.stat r.received
  settled : Settled r.stat r.covered
  suffix : r.covered <:+ r.received
  exact : r.Exact

theorem inv_initial : Inv {} where
  counts :=
    { order := .nil
      packets := rfl
      retransmitted := rfl
      threshold := rfl
      empty := fun _ => rfl
      max := rfl
      wraps := rfl
      first := fun h => absurd rfl h }
  settled :=
    { inorder := rfl
      old := rfl
      loss := rfl
      seqMax := fun h => absurd rfl h
      reported := fun h => absurd rfl h }
  suffix := List.suffix_refl _
  exact := fun _ h => by cases h

theorem Settled.noted {s s' : StreamStatistician} {seq : UInt16} {l : List Nat} (h : Settled s l)
    (hn : Noted s s' seq) : Settled s' l where
  inorder := hn.inorder.trans h.inorder
  old := hn.old.trans h.old
  loss := hn.loss ▸ h.loss
  seqMax := hn.seqMax ▸ h.seqMax
  reported := hn.reported ▸ h.reported

/-- The next number of the stream: the first one, or one past the highest. -/
structure Next (l : List Nat) (n : Nat) : Prop where
  start : l = [] → n < 65536
  above : l ≠ [] → Gaps.high l < n ∧ n ≤ Gaps.high l + 0x8000

theorem next_unwrapped {r : ReportRun} {seq : UInt16} (h : r.inOrder seq = true) :
    Next r.received (r.unwrapped seq) ∧ seq = .ofNat (r.unwrapped seq) := by
  have hs := seq.toNat_lt
  unfold inOrder at h
  unfold unwrapped
  split at h
  · rename_i he
    rw [he]
    refine ⟨⟨fun _ => hs, fun hc => absurd rfl hc⟩, ?_⟩
    rw [UInt16.ofNat_toNat]
  · rename_i n l he
    obtain ⟨h0, h1⟩ := of_decide_eq_true h
    rw [he]
    refine ⟨⟨fun hc => absurd hc (List.cons_ne_nil _ _), fun _ => ?_⟩, ?_⟩
    · rw [Gaps.high_cons]
      omega
    · rw [← UInt16.toNat_inj, UInt16.toNat_ofNat']
      simp only [Serial.dist, UInt16.toNat_sub, UInt16.toNat_ofNat']
      omega

theorem Counts.inOrder {r : ReportRun} {seq : UInt16} (h : Counts r.stat r.received)
    (hr : r.inOrder seq = true) : r.stat.inOrderPacketInternal seq = true := by
  unfold ReportRun.inOrder at hr
  split at hr
  · rename_i he
    rw [h.empty he]
    rfl
  · rename_i n l he
    obtain ⟨h0, h1⟩ := of_decide_eq_true hr
    have hm := h.max
    rw [he, Gaps.high_cons] at hm
    exact inOrder_of_near h.threshold (hm ▸ h0) (hm ▸ h1)

theorem Counts.wraps_next {s : StreamStatistician} {l : List Nat} {n : Nat} (h : Counts s l)
    (hn : Next l n)
    (hw : l = [] ∨ n / 65536 = Gaps.high l / 65536 ∨ 1 < (l.length + 1) % 2 ^ 32) :
    (if s.transmitted.packets + 1 > 1 ∧ s.receivedSeqMax > UInt16.ofNat n then
      s.receivedSeqWraps + 1 else s.receivedSeqWraps) = .ofNat (n / 65536) := by
  rw [h.packets, h.max, h.wraps]
  have hp : UInt32.ofNat l.length + 1 > 1 ↔ 1 < (l.length + 1) % 2 ^ 32 := by
    rw [gt_iff_lt, UInt32.lt_iff_toNat_lt, UInt32.toNat_add, UInt32.toNat_ofNat']
    simp only [UInt32.reduceToNat, Nat.mod_add_mod]
  have hm : UInt16.ofNat (Gaps.high l) > UInt16.ofNat n ↔ n % 65536 < Gaps.high l % 65536 := by
    rw [gt_iff_lt, UInt16.lt_iff_toNat_lt, UInt16.toNat_ofNat', UInt16.toNat_ofNat']
  simp only [hp, hm]
  rw [← UInt16.toNat_inj]
  by_cases he : l = []
  · subst he
    have := hn.start rfl
    rw [if_neg (fun hc => absurd hc.1 (by decide))]
    simp only [Gaps.high, UInt16.toNat_ofNat', List.head?_nil, Option.getD_none]
    omega
  · obtain ⟨h1, h2⟩ := hn.above he
    split
    · rename_i hc
      simp only [UInt16.toNat_add, UInt16.toNat_ofNat', UInt16.reduceToNat]
      omega
    · rename_i hc
      have hsame : n / 65536 = Gaps.high l / 65536 := by
        rcases hw with hw | hw | hw
        · exact absurd hw he
        · exact hw
        · have := fun hlt => hc ⟨hw, hlt⟩
          omega
      rw [hsame]

theorem Counts.noted {s s' : StreamStatistician} {l : List Nat} {n : Nat} (h : Counts s l)
    (hs : Noted s s' (.ofNat n)) (hn : Next l n)
    (hw : l = [] ∨ n / 65536 = Gaps.high l / 65536 ∨ 1 < (l.length + 1) % 2 ^ 32) :
    Counts s' (n :: l) where
  order := by
    refine List.pairwise_cons.2 ⟨fun m hm => ?_, h.order⟩
    have := h.order.le_high m hm
    have := (hn.above (List.ne_nil_of_mem hm)).1
    omega
  packets := by
    rw [hs.packets, h.packets, List.length_cons, UInt32.ofNat_add]
    rfl
  retransmitted := hs.retransmitted ▸ h.retransmitted
  threshold := hs.threshold.trans h.threshold
  empty := fun hc => absurd hc (List.cons_ne_nil _ _)
  max := hs.max
  wraps := hs.wraps.trans (h.wraps_next hn hw)
  first := by
    intro _
    rw [hs.first, h.packets]
    by_cases h1 : UInt32.ofNat l.length + 1 = 1
    · refine ⟨n :: l, List.suffix_refl _, List.cons_ne_nil _ _, ?_, if_pos h1⟩
      rw [← UInt32.toNat_inj, UInt32.toNat_add, UInt32.toNat_ofNat'] at h1
      simp only [UInt32.reduceToNat, List.length_cons, Nat.add_sub_cancel] at h1 ⊢
      omega
    · have hne : l ≠ [] := fun hc => h1 (by rw [hc]; rfl)
      obtain ⟨l', hsuf, hne', hlen, hf⟩ := h.first hne
      exact ⟨l', hsuf.trans (List.suffix_cons n l), hne', hlen, (if_neg h1).trans hf⟩

theorem inv_packet {r : ReportRun} {header : RTPHeader}
    (convert : UInt32 → UInt32 → UInt32 → UInt32) (packetLength : Nat) (retransmitted : Bool)
    (clock : Clock) (h : r.Inv) (hr : r.inOrder header.sequenceNumber = true)
    (hok : r.PacketOk header.sequenceNumber) :
    Inv { r with
      stat := r.stat.updateCounters convert header packetLength retransmitted clock
      received := r.unwrapped header.sequenceNumber :: r.received } := by
  have hn := updateCounters_inOrder convert packetLength retransmitted clock (h.counts.inOrder hr)
  obtain ⟨hnext, hseq⟩ := next_unwrapped hr
  refine ⟨h.counts.noted (hseq ▸ hn) hnext hok, h.settled.noted hn, ?_, h.exact⟩
  exact h.suffix.trans (List.suffix_cons _ _)

/-! ## The report -/

/-- The base of a report is one before the first number it expects. -/
theorem reportBase_eq {r : ReportRun} (h : r.Inv) (hne : r.received ≠ []) (hok : r.ReportOk) :
    r.stat.reportBase = .ofNat (r.expectedFrom + 65535) := by
  unfold reportBase expectedFrom
  rw [h.settled.inorder]
  by_cases hc : r.covered = []
  · rw [if_pos hc, if_pos (by rw [hc]; rfl)]
    obtain ⟨l', hsuf, hne', hlen, hf⟩ := h.counts.first hne
    have hl := Gaps.missing_add_length (h.counts.order.suffix hsuf) hne'
    have hle := (h.counts.order.suffix hsuf).first_le_high hne'
    have hmono := Gaps.missing_suffix_le h.counts.order hsuf
    have hall := Gaps.missing_add_length h.counts.order hne
    have hlens := hsuf.length_le
    have hpos := List.length_pos_iff.2 hne'
    rw [Gaps.first_suffix hsuf hne'] at hl hle
    -- the first number may have been set again, a multiple of 2^32 packets later
    have hmod : Gaps.high l' % 65536 = Gaps.first r.received % 65536 := by
      rcases hok.interval with hz | hz
      · rw [expectedFrom, if_pos hc] at hz
        have hcycle : Gaps.high r.received / 65536 * 65536 < Gaps.first r.received := by
          refine Nat.lt_of_not_le fun hlo => ?_
          exact hz _ hlo (Nat.div_mul_le_self _ _) (Nat.mul_mod_left _ _)
        have hone : l'.length = 1 := by omega
        have hz' : Gaps.missing l' = 0 := by
          obtain ⟨x, rfl⟩ := List.length_eq_one_iff.1 hone
          have : Gaps.first [x] = x := rfl
          rw [← Gaps.first_suffix hsuf hne', Gaps.high_cons] at hl
          omega
        omega
      · rw [hc, Gaps.missing_nil] at hz
        omega
    rw [hf, ← UInt16.toNat_inj, UInt16.toNat_sub, UInt16.toNat_ofNat', UInt16.toNat_ofNat', hmod]
    simp only [UInt16.reduceToNat]
    omega
  · have hnz : UInt32.ofNat r.covered.length ≠ 0 := by
      intro hz
      rw [← UInt32.toNat_inj, UInt32.toNat_ofNat'] at hz
      exact hok.counted hc hz
    rw [if_neg hc, if_neg hnz, h.settled.seqMax hc, ← UInt16.toNat_inj, UInt16.toNat_ofNat',
      UInt16.toNat_ofNat']
    omega

theorem recSinceLast_toNat {r : ReportRun} (h : r.Inv) :
    r.stat.recSinceLast.toNat = (r.received.length - r.covered.length) % 2 ^ 32 := by
  have hle := h.suffix.length_le
  rw [recSinceLast, inorderPackets, h.counts.retransmitted, h.settled.old, h.settled.inorder,
    h.counts.packets]
  simp only [UInt32.toNat_add, UInt32.toNat_sub, UInt32.toNat_ofNat', UInt32.reduceToNat]
  omega

/-- Expected and received since the last report, and what is missing. -/
theorem missing_interval {r : ReportRun} (h : r.Inv) (hne : r.received ≠ []) :
    r.expectedFrom ≤ Gaps.high r.received + 1 ∧
      Gaps.missing r.received + (r.received.length - r.covered.length) =
        Gaps.missing r.covered + (Gaps.high r.received + 1 - r.expectedFrom) := by
  have hall := Gaps.missing_add_length h.counts.order hne
  have hle := h.counts.order.first_le_high hne
  unfold expectedFrom
  by_cases hc : r.covered = []
  · rw [if_pos hc, hc]
    simp only [Gaps.missing_nil, List.length_nil]
    omega
  · have hcov := Gaps.missing_add_length (h.counts.order.suffix h.suffix) hc
    have hle' := (h.counts.order.suffix h.suffix).first_le_high hc
    have hhigh := h.counts.order.le_high _ (h.suffix.mem (Gaps.high_mem hc))
    have hlen := h.suffix.length_le
    rw [Gaps.first_suffix h.suffix hc] at hcov hle'
    rw [if_neg hc]
    omega

theorem lost_eq {r : ReportRun} (h : r.Inv) (hne : r.received ≠ []) (hok : r.ReportOk) :
    (r.stat.cumulativeLoss + r.stat.missingSinceLast.toUInt32).toNat = Gaps.missing r.received := by
  obtain ⟨hle, hint⟩ := missing_interval h hne
  obtain ⟨hexp, hexact⟩ := expSinceLast_toNat (reportBase_eq h hne hok) h.counts.max hle
  have htotal := hok.total
  have hmono := Gaps.missing_suffix_le h.counts.order h.suffix
  rw [UInt32.toNat_add, missingSinceLast_toNat, recSinceLast_toNat h, h.settled.loss]
  have hlt := r.stat.expSinceLast.toNat_lt
  rcases hok.interval with hz | hz
  · rw [hexact hz]
    rw [hexact hz] at hlt
    omega
  · omega

theorem extended_eq {r : ReportRun} (h : r.Inv) :
    ((r.stat.receivedSeqWraps.toUInt32 <<< 16) + r.stat.receivedSeqMax.toUInt32).toNat =
      Gaps.high r.received % 2 ^ 32 := by
  rw [h.counts.wraps, h.counts.max, UInt32.toNat_add, UInt32.toNat_shiftLeft,
    UInt16.toNat_toUInt32, UInt16.toNat_toUInt32, UInt16.toNat_ofNat', UInt16.toNat_ofNat',
    Nat.shiftLeft_eq]
  simp only [UInt32.reduceToNat, Nat.reduceMod, Nat.reducePow]
  omega

theorem inv_report {r : ReportRun} (h : r.Inv) (hne : r.received ≠ []) (hok : r.ReportOk) :
    Inv { r with
      stat := r.stat.calculateRtcpStatistics.2
      answer := some r.stat.calculateRtcpStatistics.1
      covered := r.received } := by
  have hrep : Reports r.stat.calculateRtcpStatistics.1 r.received :=
    ⟨extended_eq h, lost_eq h hne hok⟩
  refine ⟨?_, ?_, List.suffix_refl _, ?_⟩
  · exact { h.counts with empty := fun hc => absurd hc hne }
  · refine ⟨?_, h.counts.retransmitted, lost_eq h hne hok, fun _ => h.counts.max, fun _ => hrep⟩
    change r.stat.inorderPackets = _
    rw [inorderPackets, h.counts.retransmitted, h.counts.packets, UInt32.sub_zero]
  · intro stats hs
    cases hs
    exact hrep

theorem inv_getStatistics {r : ReportRun} (reset : Bool) (h : r.Inv)
    (hok : reset = true → r.ReportOk) :
    Inv { r with
      stat := (r.stat.getStatistics reset).2
      answer := (r.stat.getStatistics reset).1
      covered := if reset && (r.stat.getStatistics reset).1.isSome then r.received
        else r.covered } := by
  have hnone : Inv { r with answer := none } :=
    ⟨h.counts, h.settled, h.suffix, fun _ hc => by cases hc⟩
  unfold getStatistics
  split
  · rw [Option.isSome_none, Bool.and_false]
    exact hnone
  · rename_i hsome
    have hne : r.received ≠ [] := by
      intro hc
      rw [h.counts.empty hc] at hsome
      exact hsome ⟨rfl, rfl⟩
    cases reset with
    | true => exact inv_report h hne (hok rfl)
    | false =>
      rw [Bool.not_false, if_pos rfl, Bool.false_and]
      by_cases hz : r.stat.lastReportInorderPackets = 0
      · rw [if_pos hz]
        exact hnone
      · rw [if_neg hz]
        refine ⟨h.counts, h.settled, h.suffix, fun stats hs => ?_⟩
        cases hs
        refine h.settled.reported fun hc => hz ?_
        rw [h.settled.inorder, hc]
        rfl

theorem inv_step {convert : UInt32 → UInt32 → UInt32 → UInt32} {r r' : ReportRun} {op : Op}
    (h : r.Inv) (hok : r.Accountable op) (hs : r.step convert op = some r') : r'.Inv := by
  cases op with
  | incomingPacket header packetLength retransmitted clock =>
    unfold step at hs
    dsimp only at hs
    split at hs
    · rename_i hr
      cases hs
      exact inv_packet convert packetLength retransmitted clock h hr hok
    · cases hs
  | getStatistics reset =>
    cases hs
    exact inv_getStatistics reset h hok

/-- In every run whose steps are accountable, `GetStatistics` answers the
extended highest number and the count of missing ones at the last report. -/
theorem loss_accounting_exact (convert : UInt32 → UInt32 → UInt32 → UInt32) (r : ReportRun)
    (h : ((lts convert).within Accountable).Reachable r) : r.Exact := by
  have hinv : r.Inv := by
    refine LTS.Inductive.reachable (P := Inv) ⟨?_, ?_⟩ r h
    · rintro _ rfl
      exact inv_initial
    · exact fun r op r' hi hs => inv_step hi hs.1 hs.2
  exact hinv.exact

/-- A packet with ten bytes of payload. -/
def packetAt (seq : UInt16) (timeMs : Int64) : Op :=
  .incomingPacket { sequenceNumber := seq, headerLength := 12 } 22 false ⟨timeMs, 0, 0⟩

/-- `ConvertNTPTimeToRTP` at a whole second. -/
def wholeSeconds (ntpSec _ntpFrac freq : UInt32) : UInt32 := ntpSec * freq

/-- 10, 13, a report: two numbers are missing. -/
theorem loss_accounting_exact_gap :
    ∃ r stats, ((lts wholeSeconds).within Accountable).Run {}
        [packetAt 10 5, packetAt 13 6, .getStatistics true] r ∧
      r.answer = some stats ∧ stats.extendedMaxSequenceNumber.toNat = 13 ∧
        stats.cumulativeLost.toNat = 2 := by
  have h : ∃ r₁, step wholeSeconds {} (packetAt 10 5) = some r₁ ∧
      ∃ r₂, r₁.step wholeSeconds (packetAt 13 6) = some r₂ ∧
      ∃ r₃, r₂.step wholeSeconds (.getStatistics true) = some r₃ ∧ ∃ stats,
        r₃.answer = some stats ∧ r₁.received = [10] ∧ r₂.received = [13, 10] ∧ r₂.covered = [] ∧
        r₃.covered = [13, 10] :=
    ⟨_, rfl, _, rfl, _, rfl, _, rfl, rfl, rfl, rfl, rfl⟩
  obtain ⟨r₁, h1, r₂, h2, r₃, h3, stats, hans, hrec₁, hrec₂, hcov₂, hcov₃⟩ := h
  have hmiss : Gaps.missing [13, 10] = 2 := Gaps.missing_pair (by decide)
  have hreport : r₂.ReportOk := by
    refine ⟨Or.inl fun m hlo hhi => ?_, by rw [hrec₂, hmiss]; decide, fun hc => absurd hcov₂ hc⟩
    rw [expectedFrom, if_pos hcov₂, hrec₂] at hlo
    rw [hrec₂] at hhi
    have hlo' : 10 ≤ m := hlo
    have hhi' : m ≤ 13 := hhi
    omega
  have hpacket : r₁.PacketOk 13 := by
    refine Or.inr (Or.inr ?_)
    rw [hrec₁]
    decide
  have hrun : ((lts wholeSeconds).within Accountable).Run {}
      [packetAt 10 5, packetAt 13 6, .getStatistics true] r₃ :=
    .cons ⟨Or.inl rfl, h1⟩ (.cons ⟨hpacket, h2⟩ (.cons ⟨fun _ => hreport, h3⟩ (.nil _)))
  have hexact := loss_accounting_exact wholeSeconds r₃ ⟨{}, _, rfl, hrun⟩ stats hans
  refine ⟨r₃, stats, hrun, hans, ?_, ?_⟩
  · rw [hexact.extended, hcov₃]
    rfl
  · rw [hexact.lost, hcov₃, hmiss]

/-- 65535, a report, 1, a report: number 0 is missing and not counted, since
the interval contains the wrap. -/
theorem wrapped_interval_unreported :
    ¬ ∀ (convert : UInt32 → UInt32 → UInt32 → UInt32) (r : ReportRun),
      (lts convert).Reachable r → r.Exact := by
  intro hall
  have h : (([packetAt 65535 5, .getStatistics true, packetAt 1 6, .getStatistics true].foldlM
      (step wholeSeconds) {}).map fun r => (r.answer.map (·.cumulativeLost), r.covered)) =
        some (some 0, [65537, 65535]) := by
    decide
  obtain ⟨r, hr, h⟩ := Option.map_eq_some_iff.1 h
  obtain ⟨hans, hcov⟩ := Prod.mk.inj h
  obtain ⟨stats, hans, hlost⟩ := Option.map_eq_some_iff.1 hans
  have hexact := (hall wholeSeconds r ⟨{}, _, rfl, .of_foldlM hr⟩ stats hans).lost
  rw [hlost, hcov, Gaps.missing_pair (by decide)] at hexact
  exact absurd hexact (by decide)

end ReportRun

end RtcCore.L2
