import Mathlib.Algebra.Ring.Int.Defs
import RtcCore.L2Send.PacedSender

/-!
# How much the pacer sends

What a call of `Process` credits to the media budget pays for the packets sent
later. `spent` is the potential: the budget and the bytes already sent. A
callback that succeeds moves bytes from the one to the other, `Process` adds at
most the rate times the milliseconds it credits (less when it throws unused
budget away), and the budget never falls further below zero than one packet
takes it.

The runs are those of one thread that processes (`Steady`), with the media
rate constant, the prober at rest, and padding callbacks that send nothing.
Pausing and disabling the pacer are allowed: such calls credit nothing.

Results:
- `rate_bound`: what any part of such a run sends is at most the rate times the
  time credited there, the budget at its start and one packet.
- `credit_wraps`: a rate whose credit does not fit the `int` of the budget.
-/
namespace RtcCore.L2

open Pacing

namespace PacedSender

/-- The calls of a run at the media rate `r` with packets of at most `B` bytes:
one thread processes, nothing is probed or padded. -/
def Steady (r : Int) (B : Nat) (s : PacedSender) (call : Call) : Prop :=
  s.prober.isProbing = false ∧
    match call with
    | .sendPacket _ _ _ _ bytes _ _ => bytes ≤ B
    | .process _ => s.sending = [] ∧ s.padding = 0
    | .paddingReturned bytes => bytes = 0
    | .updateBitrate maxBitrateKbps _ => maxBitrateKbps = r
    | _ => True

/-- The pacer at the rate `r`, from its constructor on. -/
def steady (r : Int) (B : Nat) : LTS PacedSender Call :=
  LTS.within { lts with init := fun s => ∃ minRate nowUs probing, s = create r minRate nowUs probing }
    (Steady r B)

/-- The milliseconds a call credits. -/
def creditMs (s : PacedSender) : Call → Int
  | .process nowUs =>
    let elapsedTimeMs := (nowUs - s.timeLastUpdateUs + 500).tdiv 1000
    if s.enabled ∧ s.paused = false ∧ elapsedTimeMs > 0 then min 30 elapsedTimeMs else 0
  | _ => 0

/-- The milliseconds the calls of a run credit. -/
def creditedMs (s : PacedSender) : List Call → Int
  | [] => 0
  | call :: calls => s.creditMs call + (s.step call).elim 0 fun s' => s'.creditedMs calls

/-- The bytes sent successfully. -/
def sentBytes (s : PacedSender) : Int := (s.sent.map fun p => (p.bytes : Int)).sum

/-- The budget with what it has paid for. -/
def spent (s : PacedSender) : Int := s.mediaBudget.bytesRemaining + s.sentBytes

/-- What holds at the constant rate `r`. -/
structure Paced (r : Int) (B : Nat) (s : PacedSender) : Prop where
  inv : s.Inv
  rate : s.mediaBudget.targetRateKbps = r
  low : -(B : Int) ≤ s.mediaBudget.bytesRemaining
  high : 8 * s.mediaBudget.bytesRemaining ≤ 30 * r
  sizes : ∀ p ∈ s.accepted, p.bytes ≤ B
  single : s.sending.length ≤ 1
  paid : s.sending ≠ [] → 0 < s.mediaBudget.bytesRemaining

variable {r : Int} {B : Nat} {s s' : PacedSender}

/-! ## The budget -/

theorem toInt32_of_fits {n : Int} (h1 : -2147483648 ≤ n) (h2 : n < 2147483648) : toInt32 n = n := by
  unfold toInt32
  omega

/-- A credit adds at most the rate times its milliseconds, and keeps the limits. -/
theorem increaseBudget_spec {b : IntervalBudget} {d : Int} (hr : 0 ≤ b.targetRateKbps)
    (hfit : 500 * b.targetRateKbps < 2 ^ 31) (hd : 0 < d) (hd' : d ≤ 30)
    (hlow : -2147483648 ≤ b.bytesRemaining) :
    (b.increaseBudget d).targetRateKbps = b.targetRateKbps ∧
      (b.bytesRemaining < 0 → b.bytesRemaining ≤ (b.increaseBudget d).bytesRemaining) ∧
      (0 ≤ b.bytesRemaining → 0 ≤ (b.increaseBudget d).bytesRemaining) ∧
      8 * (b.increaseBudget d).bytesRemaining ≤ 30 * b.targetRateKbps ∧
      8 * (b.increaseBudget d).bytesRemaining ≤
        8 * b.bytesRemaining + b.targetRateKbps * d := by
  have hpos : 0 ≤ b.targetRateKbps * d := Int.mul_nonneg hr (by omega)
  have hmax : b.targetRateKbps * d ≤ b.targetRateKbps * 30 := Int.mul_le_mul_of_nonneg_left hd' hr
  have hdiv : (b.targetRateKbps * d).tdiv 8 = b.targetRateKbps * d / 8 :=
    Int.tdiv_eq_ediv_of_nonneg hpos
  unfold IntervalBudget.increaseBudget
  dsimp only
  rw [hdiv]
  generalize b.targetRateKbps * d = credit at hpos hmax ⊢
  split
  · rw [toInt32_of_fits (by omega) (by omega)]
    refine ⟨rfl, ?_, ?_, ?_, ?_⟩ <;> dsimp only <;> omega
  · rw [toInt32_of_fits (by omega) (by omega)]
    refine ⟨rfl, ?_, ?_, ?_, ?_⟩ <;> dsimp only <;> omega

/-- With budget left, a packet is paid for in full: the floor is not reached. -/
theorem useBudget_paid {b : IntervalBudget} (bytes : Nat) (hB : 8 * (B : Int) ≤ 500 * b.targetRateKbps)
    (hfit : 500 * b.targetRateKbps < 2 ^ 31) (hbytes : bytes ≤ B)
    (hleft : -(B : Int) ≤ b.bytesRemaining - bytes) :
    b.useBudget bytes = { b with bytesRemaining := b.bytesRemaining - bytes } := by
  have hlowest : (-500 * b.targetRateKbps).tdiv 8 = -(500 * b.targetRateKbps / 8) := by
    rw [show -500 * b.targetRateKbps = -(500 * b.targetRateKbps) by omega, Int.neg_tdiv,
      Int.tdiv_eq_ediv_of_nonneg (by omega)]
  unfold IntervalBudget.useBudget
  dsimp only
  rw [hlowest, toInt32_of_fits (by omega) (by omega), Int.max_eq_left (by omega)]

/-! ## One step -/

theorem sentBytes_append (packet : Packet) (h : s'.sent = s.sent ++ [packet]) :
    s'.sentBytes = s.sentBytes + packet.bytes := by
  unfold sentBytes
  rw [h, List.map_append, List.sum_append]
  simp

theorem sendNext_cases (s : PacedSender) :
    s.sendNext = s ∨ s.sendNext = { s with padding := s.padding + 1 } ∨
      ¬ (s.mediaBudget.bytesRemaining ≤ 0 ∧ !s.prober.isProbing) ∧ ∃ packet packets,
        s.sendNext = { s with packets := packets, sending := s.sending ++ [packet] } := by
  unfold PacedSender.sendNext
  split
  · rename_i packet packets _
    split
    · exact .inl rfl
    · exact .inr (.inr ⟨‹_›, packet, packets, rfl⟩)
  · split
    · exact .inr (.inl rfl)
    · exact .inl rfl

/-- The loop takes at most one packet, with budget left. -/
theorem Paced.sendNext (h : s.Paced r B) (hp : s.prober.isProbing = false) (hs : s.sending = []) :
    s.sendNext.Paced r B ∧ s.sendNext.spent = s.spent := by
  have hinv := h.inv.sendNext
  rcases s.sendNext_cases with heq | heq | ⟨hgo, packet, packets, heq⟩
  · rw [heq]
    exact ⟨h, rfl⟩
  · rw [heq] at hinv ⊢
    exact ⟨⟨hinv, h.rate, h.low, h.high, h.sizes, h.single, h.paid⟩, rfl⟩
  · rw [heq] at hinv ⊢
    refine ⟨⟨hinv, h.rate, h.low, h.high, h.sizes, ?_, fun _ => ?_⟩, rfl⟩
    · simp [hs]
    · rw [hp] at hgo
      simpa using hgo

theorem Paced.process (h : s.Paced r B) (hr : 0 ≤ r) (hB : 8 * (B : Int) ≤ 500 * r)
    (hfit : 500 * r < 2 ^ 31) (hp : s.prober.isProbing = false) (hs : s.sending = [])
    (nowUs : Int) :
    (s.process nowUs).Paced r B ∧
      8 * (s.process nowUs).spent ≤ 8 * s.spent + r * s.creditMs (.process nowUs) := by
  have hrate := h.rate
  have hlow := h.low
  unfold PacedSender.process creditMs
  dsimp only
  split
  · rename_i hoff
    rw [if_neg (by simp at hoff ⊢; grind), Int.mul_zero, Int.add_zero]
    exact ⟨⟨⟨h.inv.inStep, h.inv.split, h.inv.orders, h.inv.before⟩, h.rate, h.low, h.high,
      h.sizes, h.single, h.paid⟩, Int.le_refl _⟩
  · rename_i hon
    have hen : s.enabled = true ∧ s.paused = false := by simpa using hon
    split
    · rename_i helapsed
      rw [if_pos ⟨hen.1, hen.2, helapsed⟩]
      have hd : min 30 ((nowUs - s.timeLastUpdateUs + 500).tdiv 1000) ≤ 30 := Int.min_le_left _ _
      have hd0 : 0 < min 30 ((nowUs - s.timeLastUpdateUs + 500).tdiv 1000) := by omega
      generalize min 30 ((nowUs - s.timeLastUpdateUs + 500).tdiv 1000) = d at hd hd0 ⊢
      obtain ⟨hrate', hneg, hnonneg, hhigh', hcredit⟩ := increaseBudget_spec (b := s.mediaBudget)
        (hrate ▸ hr) (hrate ▸ hfit) hd0 hd (by omega)
      rw [hrate] at hrate' hhigh' hcredit
      obtain ⟨h1, h2⟩ := Paced.sendNext (r := r) (B := B) (s := { s with
        timeLastUpdateUs := nowUs
        mediaBudget := s.mediaBudget.increaseBudget d
        paddingBudget := s.paddingBudget.increaseBudget d })
        ⟨⟨h.inv.inStep, h.inv.split, h.inv.orders, h.inv.before⟩, hrate', by dsimp only; omega,
          hhigh', h.sizes, h.single, fun hc => absurd hs hc⟩ hp hs
      refine ⟨h1, ?_⟩
      rw [h2]
      unfold spent sentBytes
      dsimp only
      omega
    · rename_i helapsed
      rw [if_neg fun hc => helapsed hc.2.2, Int.mul_zero, Int.add_zero]
      obtain ⟨h1, h2⟩ := Paced.sendNext (r := r) (B := B) (s := { s with timeLastUpdateUs := nowUs })
        ⟨⟨h.inv.inStep, h.inv.split, h.inv.orders, h.inv.before⟩, h.rate, h.low, h.high, h.sizes,
          h.single, fun hc => absurd hs hc⟩ hp hs
      exact ⟨h1, Int.le_of_eq (congrArg (8 * ·) h2)⟩

/-- A callback that succeeds turns budget into bytes sent. -/
theorem Paced.returned (h : s.Paced r B) (hB : 8 * (B : Int) ≤ 500 * r) (hfit : 500 * r < 2 ^ 31)
    (hp : s.prober.isProbing = false) {packet : Packet} (hin : packet ∈ s.sending)
    (success : Bool) :
    (s.returned packet success).Paced r B ∧ (s.returned packet success).spent = s.spent := by
  have hinv := h.inv.returned hin success
  have hnone : s.sending.erase packet = [] := by
    refine List.eq_nil_of_length_eq_zero ?_
    rw [List.length_erase_of_mem hin]
    have := h.single
    omega
  cases success with
  | false =>
    exact ⟨⟨hinv, h.rate, h.low, h.high, h.sizes, (List.length_erase_le).trans h.single,
      fun hc => absurd hnone hc⟩, rfl⟩
  | true =>
    have hsize : packet.bytes ≤ B :=
      h.sizes packet (h.inv.split.symm.subset (List.mem_append_left _ (h.inv.inStep.mem hin)))
    have hpaid := h.paid (List.ne_nil_of_mem hin)
    have hrate := h.rate
    have hhigh := h.high
    have hrest : (s.prober.packetSent packet.bytes).isProbing = false := hp
    have hbudget := useBudget_paid (B := B) (b := s.mediaBudget) packet.bytes
      (hrate ▸ hB) (hrate ▸ hfit) hsize (by omega)
    obtain ⟨h1, h2⟩ := Paced.sendNext (r := r) (B := B)
      ⟨h.inv.succeeded hin (s.prober.packetSent packet.bytes)
          (s.mediaBudget.useBudget packet.bytes) (s.paddingBudget.useBudget packet.bytes),
        by rw [hbudget]; exact hrate, by rw [hbudget]; dsimp only; omega,
        by rw [hbudget]; dsimp only; omega, h.sizes,
        (List.length_erase_le).trans h.single, fun hc => absurd hnone hc⟩ hrest hnone
    unfold PacedSender.returned
    dsimp only
    rw [if_pos rfl, if_neg (by rw [hrest]; exact Bool.false_ne_true)]
    refine ⟨h1, h2.trans ?_⟩
    unfold spent
    rw [sentBytes_append packet rfl, hbudget]
    dsimp only
    omega

theorem sendPacket_sizes (h : ∀ p ∈ s.accepted, p.bytes ≤ B) (priority : Priority) (ssrc seq : Nat)
    (capture : Int) {bytes : Nat} (hbytes : bytes ≤ B) (retransmission : Bool) (nowMs : Int) :
    ∀ p ∈ (s.sendPacket priority ssrc seq capture bytes retransmission nowMs).accepted,
      p.bytes ≤ B := by
  unfold PacedSender.sendPacket
  split
  · exact h
  · obtain ⟨packet, hpacket⟩ : ∃ p : Packet, p = {
        priority, ssrc, sequenceNumber := seq, bytes, retransmission
        captureTimeMs := if capture < 0 then nowMs else capture
        enqueueTimeMs := nowMs
        enqueueOrder := s.packetCounter } := ⟨_, rfl⟩
    have hsize : packet.bytes ≤ B := hpacket ▸ hbytes
    dsimp only
    rw [← hpacket]
    split
    · intro p hp
      rcases List.mem_append.1 hp with hp | hp
      · exact h p hp
      · exact List.mem_singleton.1 hp ▸ hsize
    · exact h

theorem sendPacket_frame (priority : Priority) (ssrc seq : Nat) (capture : Int) (bytes : Nat)
    (retransmission : Bool) (nowMs : Int) :
    (s.sendPacket priority ssrc seq capture bytes retransmission nowMs).mediaBudget =
        s.mediaBudget ∧
      (s.sendPacket priority ssrc seq capture bytes retransmission nowMs).sending = s.sending ∧
      (s.sendPacket priority ssrc seq capture bytes retransmission nowMs).sent = s.sent := by
  unfold PacedSender.sendPacket
  split <;> exact ⟨rfl, rfl, rfl⟩

theorem Paced.step (h : s.Paced r B) (hr : 0 ≤ r) (hB : 8 * (B : Int) ≤ 500 * r)
    (hfit : 500 * r < 2 ^ 31) {call : Call} (hsteady : s.Steady r B call)
    (hs : s.step call = some s') :
    s'.Paced r B ∧ 8 * s'.spent ≤ 8 * s.spent + r * s.creditMs call := by
  obtain ⟨hp, hcall⟩ := hsteady
  have hinv := h.inv.step hs
  -- only `Process` credits anything
  have hsame (hc : s.creditMs call = 0) (hspent : s'.spent = s.spent) :
      8 * s'.spent ≤ 8 * s.spent + r * s.creditMs call := by
    rw [hc, hspent, Int.mul_zero, Int.add_zero]
  unfold PacedSender.step at hs
  cases call with
  | process nowUs =>
    cases hs
    exact h.process hr hB hfit hp hcall.1 nowUs
  | returned packet success =>
    dsimp only at hs
    split at hs
    · cases hs
      obtain ⟨h1, h2⟩ := h.returned hB hfit hp ‹_› success
      exact ⟨h1, hsame rfl h2⟩
    · cases hs
  | paddingReturned bytes =>
    dsimp only at hs hcall
    subst hcall
    split at hs
    · cases hs
      have hrate := h.rate
      have hlow := h.low
      have hbudget := useBudget_paid (B := B) (b := s.mediaBudget) 0
        (hrate ▸ hB) (hrate ▸ hfit) (Nat.zero_le B) (by omega)
      have hbudget : (s.paddingReturned 0).mediaBudget = s.mediaBudget := by
        refine hbudget.trans ?_
        simp
      refine ⟨⟨hinv, hbudget ▸ h.rate, hbudget ▸ h.low, hbudget ▸ h.high, h.sizes, h.single, ?_⟩,
        hsame rfl ?_⟩
      · rw [hbudget]
        exact h.paid
      · unfold spent
        rw [hbudget]
        rfl
    · cases hs
  | sendPacket priority ssrc seq capture bytes retransmission nowMs =>
    cases hs
    obtain ⟨h1, h2, h3⟩ := s.sendPacket_frame priority ssrc seq capture bytes retransmission nowMs
    refine ⟨⟨hinv, h1 ▸ h.rate, h1 ▸ h.low, h1 ▸ h.high,
      sendPacket_sizes h.sizes priority ssrc seq capture hcall retransmission nowMs,
      h2 ▸ h.single, by rw [h1, h2]; exact h.paid⟩, hsame rfl ?_⟩
    unfold spent sentBytes
    rw [h1, h3]
  | updateBitrate maxBitrateKbps minBitrateKbps =>
    cases hs
    exact ⟨⟨hinv, hcall, h.low, h.high, h.sizes, h.single, h.paid⟩, hsame rfl rfl⟩
  | pause | resume | setStatus | timeUntilNextProcess =>
    cases hs
    exact ⟨⟨hinv, h.rate, h.low, h.high, h.sizes, h.single, h.paid⟩, hsame rfl rfl⟩

/-! ## Every run -/

theorem paced_create (hr : 0 ≤ r) (hfit : 500 * r < 2 ^ 31) (minRate nowUs : Int) (probing : Bool) :
    (create r minRate nowUs probing).Paced r B := by
  have hinv : (create r minRate nowUs probing).Inv :=
    inv_inductive.init _ ⟨r, minRate, nowUs, probing, rfl⟩
  obtain ⟨hrate, -, hlow, hhigh, -⟩ := increaseBudget_spec (b := ⟨r, 0⟩) (d := 5) hr hfit
    (by decide) (by decide) (by dsimp only; omega)
  have hlow := hlow (Int.le_refl 0)
  refine ⟨hinv, hrate, ?_, hhigh, fun p hp => absurd hp List.not_mem_nil, Nat.zero_le 1,
    fun hc => absurd rfl hc⟩
  unfold create
  dsimp only
  omega

theorem steady_paced (hr : 0 ≤ r) (hB : 8 * (B : Int) ≤ 500 * r) (hfit : 500 * r < 2 ^ 31) :
    (steady r B).Inductive (Paced r B) where
  init s hs := by
    obtain ⟨minRate, nowUs, probing, rfl⟩ := hs
    exact paced_create hr hfit minRate nowUs probing
  step s call s' h hs := (h.step hr hB hfit hs.1 hs.2).1

/-- What a run credits bounds what it gains. -/
theorem spent_le (hr : 0 ≤ r) (hB : 8 * (B : Int) ≤ 500 * r) (hfit : 500 * r < 2 ^ 31)
    {calls : List Call} (hrun : (steady r B).Run s calls s') (h : s.Paced r B) :
    8 * s'.spent ≤ 8 * s.spent + r * s.creditedMs calls := by
  induction hrun with
  | nil s => rw [creditedMs, Int.mul_zero, Int.add_zero]
  | cons hstep _ ih =>
    obtain ⟨h1, hle⟩ := h.step hr hB hfit hstep.1 hstep.2
    have hrest := ih h1
    rw [creditedMs, hstep.2, Int.mul_add]
    dsimp only [Option.elim]
    omega

/-- Any part of a run sends at most the rate times the time credited there,
the budget it starts with and one packet. -/
theorem rate_bound (r : Int) (B : Nat) (hB : 8 * (B : Int) ≤ 500 * r) (hfit : 500 * r < 2 ^ 31)
    (s s' : PacedSender) (calls : List Call) (hs : (steady r B).Reachable s)
    (hrun : (steady r B).Run s calls s') :
    8 * (s'.sentBytes - s.sentBytes) ≤
      r * s.creditedMs calls + 8 * s.mediaBudget.bytesRemaining + 8 * B := by
  have hr : 0 ≤ r := by omega
  have hind := steady_paced hr hB hfit
  have h := hind.reachable s hs
  have hgain := spent_le hr hB hfit hrun h
  have hlow := (hrun.keeps hind.step h).low
  unfold spent at hgain
  omega

theorem rate_bound_one :
    ∃ s s' : PacedSender, s'.sentBytes = 1200 ∧
      8 * (s'.sentBytes - s.sentBytes) ≤
        1000 * s.creditedMs [.process 5000, .returned ⟨.normal, 1, 7, 0, 0, 1200, false, 0⟩ true] +
          8 * s.mediaBudget.bytesRemaining + 8 * (1500 : Nat) :=
  ⟨_, _, rfl, rate_bound 1000 1500 (by decide) (by decide) _ _ _
    ⟨create 1000 0 0 false, [.setStatus true, .sendPacket .normal 1 7 0 1200 false 0],
      ⟨0, 0, false, rfl⟩,
      .cons ⟨⟨rfl, trivial⟩, rfl⟩ (.cons ⟨⟨rfl, by decide⟩, rfl⟩ (.nil _))⟩
    (.cons ⟨⟨rfl, rfl, rfl⟩, rfl⟩ (.cons ⟨⟨rfl, trivial⟩, rfl⟩ (.nil _)))⟩

/-- At 600 Gbps a credit of 30 ms wraps to a debt of two gigabytes. -/
theorem credit_wraps :
    ¬ ∀ (r : Int) (B : Nat), 8 * (B : Int) ≤ 500 * r →
      ∀ (s s' : PacedSender) (calls : List Call), (steady r B).Reachable s →
        (steady r B).Run s calls s' →
        8 * (s'.sentBytes - s.sentBytes) ≤
          r * s.creditedMs calls + 8 * s.mediaBudget.bytesRemaining + 8 * B := by
  intro h
  have hbound := h 600000000 0 (by decide) _ _ [.process 30000]
    ⟨create 600000000 0 0 false, [.setStatus true, .process 30000], ⟨0, 0, false, rfl⟩,
      .cons ⟨⟨rfl, trivial⟩, rfl⟩ (.cons ⟨⟨rfl, rfl, rfl⟩, rfl⟩ (.nil _))⟩
    (.cons ⟨⟨rfl, rfl, rfl⟩, rfl⟩ (.nil _))
  revert hbound
  decide

end PacedSender
end RtcCore.L2
