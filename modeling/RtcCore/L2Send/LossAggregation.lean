import RtcCore.Core.Int32
import RtcCore.Core.WeightedMean
import Mathlib.Data.List.Forall2
import Mathlib.Logic.Function.Basic

/-!
# The loss of a receiver report (`bitrate_controller_impl.cc`)

A receiver report has a block for each stream. Their loss fractions are
averaged, each with the weight of the packets its stream sent since the last
report, which is the difference of two extended sequence numbers. The
difference is taken modulo 2^32 and read as an `int`: where a report is late,
the weight is negative. A signed result that does not fit has no value here.

Results:
* `aggregate_spec`: the loop adds up weights and weighted fractions.
* `onReceivedRtcpReceiverReport_averages`: where no number is behind the one
  remembered and the sums stay inside an `int`, what is forwarded is the mean.
* `run_averages`: so it is in every run of such reports.
-/
namespace RtcCore.L2.RtcpBandwidthObserver

structure ReportBlock where
  sourceSSRC : UInt32
  extendedHighSeqNum : UInt32
  fractionLost : UInt8
  deriving DecidableEq, Repr

/-- `ssrc_to_last_received_extended_high_seq_num_`. -/
abbrev LastReceived := UInt32 → Option UInt32

/-- What `owner_->OnReceivedRtcpReceiverReport` is passed; the fraction is a
`uint8_t`. -/
structure Forwarded where
  fractionLoss : Nat
  numberOfPackets : Int
  deriving DecidableEq, Repr

/-- A result of `int` arithmetic. -/
def fitsInt (n : Int) : Option Int :=
  if -2147483648 ≤ n ∧ n < 2147483648 then some n else none

/-- mirrors bitrate_controller_impl.cc:52-58 -/
def numberOfPackets (last : LastReceived) (block : ReportBlock) : Int :=
  match last block.sourceSSRC with
  | none => 0
  | some seqNum => int32 (block.extendedHighSeqNum - seqNum).toNat

def remember (last : LastReceived) (block : ReportBlock) : LastReceived :=
  Function.update last block.sourceSSRC (some block.extendedHighSeqNum)

/-- mirrors bitrate_controller_impl.cc:49-66 -/
def aggregate : LastReceived → Int → Int → List ReportBlock → Option (LastReceived × Int × Int)
  | last, fractionLost, total, [] => some (last, fractionLost, total)
  | last, fractionLost, total, block :: blocks => do
    let weighted ← fitsInt (numberOfPackets last block * block.fractionLost.toNat)
    let fractionLost ← fitsInt (fractionLost + weighted)
    let total ← fitsInt (total + numberOfPackets last block)
    aggregate (remember last block) fractionLost total blocks

/-- mirrors bitrate_controller_impl.cc:67-71 -/
def average (fractionLost total : Int) : Option Int :=
  if total = 0 then some 0
  else do
    let sum ← fitsInt (fractionLost + total.tdiv 2)
    fitsInt (sum.tdiv total)

/-- mirrors bitrate_controller_impl.cc:37-76 -/
def onReceivedRtcpReceiverReport (last : LastReceived) (blocks : List ReportBlock) :
    Option (LastReceived × Option Forwarded) :=
  if blocks.isEmpty then some (last, none)
  else do
    let r ← aggregate last 0 0 blocks
    let fractionLost ← average r.2.1 r.2.2
    if 255 < fractionLost then return (r.1, none)
    else return (r.1, some ⟨(fractionLost % 256).toNat, r.2.2⟩)

/-- One report after the other. -/
def run : LastReceived → List (List ReportBlock) → Option (LastReceived × List (Option Forwarded))
  | last, [] => some (last, [])
  | last, blocks :: reports => do
    let r ← onReceivedRtcpReceiverReport last blocks
    let t ← run r.1 reports
    return (t.1, r.2 :: t.2)

/-! ## What a report should say -/

/-- What is forwarded for `blocks`: a count, and a fraction between the blocks'
own, or none lost where nothing was counted; their product, which the
estimator takes next, is an `int` too. -/
structure Averages (blocks : List ReportBlock) (f : Forwarded) : Prop where
  count : 0 ≤ f.numberOfPackets
  none_counted : f.numberOfPackets = 0 → f.fractionLoss = 0
  lower : f.numberOfPackets ≠ 0 → ∃ b ∈ blocks, b.fractionLost.toNat ≤ f.fractionLoss
  upper : f.numberOfPackets ≠ 0 → ∃ b ∈ blocks, f.fractionLoss ≤ b.fractionLost.toNat
  product : f.fractionLoss * f.numberOfPackets < 2147483648

/-- The differences of the numbers and the fractions, block by block. -/
def gaps : LastReceived → List ReportBlock → List (Int × Nat)
  | _, [] => []
  | last, block :: blocks =>
    (numberOfPackets last block, block.fractionLost.toNat) :: gaps (remember last block) blocks

def weights (last : LastReceived) (blocks : List ReportBlock) : List (Nat × Nat) :=
  (gaps last blocks).map fun g => (g.1.toNat, g.2)

open WeightedMean

/-- No block is behind its stream, and the sums are `int`s. -/
structure InSequence (last : LastReceived) (blocks : List ReportBlock) : Prop where
  ahead : ∀ g ∈ gaps last blocks, 0 ≤ g.1
  total : weight (weights last blocks) < 2147483648
  sum : moment (weights last blocks) + weight (weights last blocks) / 2 < 2147483648

variable {last : LastReceived} {blocks : List ReportBlock}

theorem fitsInt_natCast {n : Nat} (h : n < 2147483648) : fitsInt n = some (n : Int) :=
  if_pos ⟨by omega, by omega⟩

theorem aggregate_spec (blocks : List ReportBlock) : ∀ (last : LastReceived) (a t : Nat),
    (∀ g ∈ gaps last blocks, 0 ≤ g.1) → a + moment (weights last blocks) < 2147483648 →
    t + weight (weights last blocks) < 2147483648 →
    aggregate last a t blocks = some (blocks.foldl remember last,
      ((a + moment (weights last blocks) : Nat) : Int),
      ((t + weight (weights last blocks) : Nat) : Int)) := by
  induction blocks with
  | nil => exact fun _ _ _ _ _ _ => rfl
  | cons b bs ih =>
    intro last a t hahead hsum htotal
    have hn : 0 ≤ numberOfPackets last b := hahead _ (List.mem_cons_self ..)
    obtain ⟨n, hn⟩ := Int.eq_ofNat_of_zero_le hn
    have hweights : weights last (b :: bs) =
        (n, b.fractionLost.toNat) :: weights (remember last b) bs := by
      simp [weights, gaps, hn]
    rw [hweights, moment_cons] at hsum
    rw [hweights, weight_cons] at htotal
    have hproduct : fitsInt (n * (b.fractionLost.toNat : Int)) =
        some ((n * b.fractionLost.toNat : Nat) : Int) := by
      rw [← Int.natCast_mul]
      exact fitsInt_natCast (by simp only at hsum; omega)
    have hrest := ih (remember last b) (a + n * b.fractionLost.toNat) (t + n)
      (fun g hg => hahead g (.tail _ hg)) (by simp only at hsum; omega)
      (by simp only at htotal; omega)
    rw [aggregate, hn, hproduct, Option.bind_eq_bind, Option.bind_some, ← Int.natCast_add,
      fitsInt_natCast (by simp only at hsum; omega), Option.bind_some,
      ← Int.natCast_add, fitsInt_natCast (by simp only at htotal; omega), Option.bind_some, hrest,
      hweights, moment_cons, weight_cons, ← Nat.add_assoc, ← Nat.add_assoc]
    rfl

theorem average_spec {l : List (Nat × Nat)} (h : moment l + weight l / 2 < 2147483648) :
    average (moment l) (weight l) = some ((if weight l = 0 then 0 else rounded l : Nat) : Int) := by
  rw [average]
  by_cases hzero : weight l = 0
  · simp [hzero]
  · have hdiv := Nat.div_le_self (moment l + weight l / 2) (weight l)
    have hhalf : (weight l : Int).tdiv 2 = (weight l / 2 : Nat) := rfl
    have hmean : ((moment l + weight l / 2 : Nat) : Int).tdiv (weight l) = (rounded l : Nat) := rfl
    rw [if_neg (by omega), if_neg hzero, hhalf, ← Int.natCast_add, fitsInt_natCast h,
      Option.bind_eq_bind, Option.bind_some, hmean, fitsInt_natCast]
    rw [rounded]
    omega

/-- The values that are averaged are the blocks' fractions. -/
theorem weights_snd (last : LastReceived) (blocks : List ReportBlock) :
    (weights last blocks).map Prod.snd = blocks.map fun b => b.fractionLost.toNat := by
  induction blocks generalizing last with
  | nil => rfl
  | cons b bs ih =>
    have hrest := ih (remember last b)
    simp only [weights, List.map_map] at hrest
    simp only [weights, gaps, List.map_cons, List.map_map, hrest]

theorem exists_block {P : Nat → Prop} (h : ∃ p ∈ weights last blocks, P p.2) :
    ∃ b ∈ blocks, P b.fractionLost.toNat := by
  obtain ⟨p, hp, hP⟩ := h
  have hmem := List.mem_map_of_mem (f := Prod.snd) hp
  rw [weights_snd] at hmem
  obtain ⟨b, hb, heq⟩ := List.mem_map.1 hmem
  exact ⟨b, hb, heq ▸ hP⟩

theorem onReceivedRtcpReceiverReport_averages (h : InSequence last blocks) :
    ∃ out, onReceivedRtcpReceiverReport last blocks = some (blocks.foldl remember last, out) ∧
      ∀ f ∈ out, Averages blocks f := by
  rw [onReceivedRtcpReceiverReport]
  by_cases hempty : blocks = []
  · subst hempty
    exact ⟨none, rfl, fun f hf => nomatch hf⟩
  have hagg := aggregate_spec blocks last 0 0 h.ahead (by have := h.sum; omega)
    (by have := h.total; omega)
  rw [Nat.zero_add, Nat.zero_add] at hagg
  rw [Int.natCast_zero] at hagg
  rw [if_neg (by rwa [List.isEmpty_iff]), hagg, Option.bind_eq_bind, Option.bind_some]
  simp only [average_spec h.sum, Option.bind_eq_bind, Option.bind_some]
  by_cases hzero : weight (weights last blocks) = 0
  · refine ⟨some ⟨0, 0⟩, by simp [hzero], ?_⟩
    rintro _ ⟨⟩
    exact ⟨Int.le_refl 0, fun _ => rfl, fun hne => absurd rfl hne, fun hne => absurd rfl hne,
      by decide⟩
  · obtain ⟨hlow, hhigh⟩ := rounded_between (Nat.pos_of_ne_zero hzero)
    have hlower : ∃ b ∈ blocks, b.fractionLost.toNat ≤ rounded (weights last blocks) :=
      exists_block (P := fun v => v ≤ rounded (weights last blocks)) hlow
    obtain ⟨b, hb, hle⟩ : ∃ b ∈ blocks, rounded (weights last blocks) ≤ b.fractionLost.toNat :=
      exists_block (P := fun v => rounded (weights last blocks) ≤ v) hhigh
    have hbyte := b.fractionLost.toNat_lt
    have hmul := Nat.div_mul_le_self (moment (weights last blocks) +
      weight (weights last blocks) / 2) (weight (weights last blocks))
    have hsum := h.sum
    refine ⟨some ⟨rounded (weights last blocks), weight (weights last blocks)⟩, ?_, ?_⟩
    · rw [if_neg hzero, if_neg (by omega)]
      have hmod : ((rounded (weights last blocks) : Int) % 256).toNat =
          rounded (weights last blocks) := by omega
      rw [hmod]
      rfl
    · rintro _ ⟨⟩
      refine ⟨Int.natCast_nonneg _, fun h0 => absurd (Int.natCast_eq_zero.1 h0) hzero,
        fun _ => hlower, fun _ => ⟨b, hb, hle⟩, ?_⟩
      show (rounded (weights last blocks) : Int) * (weight (weights last blocks) : Int) < _
      rw [← Int.natCast_mul, rounded]
      omega

/-- Every report of a run is in sequence behind those before it. -/
def AllInSequence : LastReceived → List (List ReportBlock) → Prop
  | _, [] => True
  | last, blocks :: reports =>
    InSequence last blocks ∧ AllInSequence (blocks.foldl remember last) reports

theorem run_averages (reports : List (List ReportBlock)) : ∀ {last}, AllInSequence last reports →
    ∃ last' outs, run last reports = some (last', outs) ∧
      List.Forall₂ (fun blocks out => ∀ f ∈ out, Averages blocks f) reports outs := by
  induction reports with
  | nil => exact fun _ => ⟨_, [], rfl, .nil⟩
  | cons blocks reports ih =>
    rintro last ⟨hfirst, hrest⟩
    obtain ⟨out, hout, haverages⟩ := onReceivedRtcpReceiverReport_averages hfirst
    obtain ⟨last', outs, hrun, hall⟩ := ih hrest
    refine ⟨last', out :: outs, ?_, .cons haverages hall⟩
    rw [run, hout]
    simp only [Option.bind_eq_bind, Option.bind_some, hrun]
    rfl

/-- Two streams, one of which wraps, and a third report with one of them. -/
def someReports : List (List ReportBlock) :=
  [[⟨1, 100, 0⟩, ⟨2, 4294967290, 0⟩], [⟨1, 130, 10⟩, ⟨2, 4, 40⟩], [⟨2, 14, 7⟩]]

theorem run_averages_someReports :
    ∃ last' outs, run (fun _ => none) someReports = some (last', outs) ∧
      List.Forall₂ (fun blocks out => ∀ f ∈ out, Averages blocks f) someReports outs :=
  run_averages someReports
    ⟨⟨by decide, by decide, by decide⟩, ⟨by decide, by decide, by decide⟩,
      ⟨by decide, by decide, by decide⟩, trivial⟩

/-- A report that arrives late counts minus five packets. -/
theorem late_report_counts_negative :
    (run (fun _ => none) [[⟨1, 105, 0⟩], [⟨1, 100, 10⟩]]).map Prod.snd =
      some [some ⟨0, 0⟩, some ⟨10, -5⟩] ∧
      ¬ Averages [⟨1, 100, 10⟩] ⟨10, -5⟩ :=
  ⟨by decide, fun h => absurd h.count (by decide)⟩

end RtcCore.L2.RtcpBandwidthObserver
