import RtcCore.L2Receive.DelayManager

/-!
# The histogram of inter-arrival times

Scaling by the forgetting factor rounds 65 entries down, so the sum falls short
of one by at most 64 units of 2^-30 and never exceeds it. What is left sums to
almost one, so the sixteenths the repair may take add up to far more than that.

The target level is limited only by an `Update` that has a packet length to
work with; until then it is the one the last reset set, which a buffer of five
packets does not allow (`limits_not_always`).

Results:
- `histogram_invariant`: in every run whose elapsed times are not negative and
  fit, the entries are not negative and sum to one, the factor stays in its
  range, the target level in its limits, and no operation fails.
-/
namespace RtcCore.L2.NetEq

open Serial FixedPoint

namespace DelayManager

/-- The target level is within its limits, or nothing has been learnt since a reset. -/
def Limited (m : DelayManager) : Prop :=
  m.targetLevel ≤ max 256 (3 * (256 * (m.maxPacketsInBuffer : Int)) / 4) ∨
    m.targetLevel = 1024 ∧ m.iatFactor = 0

/-- A distribution over the 65 times, and its forgetting factor. -/
structure Tallied (vector : List Int) (factor : Int) : Prop where
  length : vector.length = 65
  nonneg : ∀ v ∈ vector, 0 ≤ v
  total : vector.sum = 2 ^ 30
  factor : 0 ≤ factor ∧ factor ≤ 32538

structure Sound (m : DelayManager) : Prop where
  tallied : Tallied m.iatVector m.iatFactor
  lowest : 256 ≤ m.targetLevel
  limited : m.Limited
  counted : 0 ≤ m.packetIatCountMs ∧ m.packetIatCountMs < 2147418112

/-- Time passes forward, less than 2^31 - 2^16 ms between two packets. -/
def Forward (m : DelayManager) : Op → Prop
  | .updateCounters ms => 0 ≤ ms ∧ m.packetIatCountMs + ms < 2147418112
  | _ => True

variable {m m' : DelayManager}

/-! ## The histogram -/

theorem sum_modify_add {l : List Int} {i : Nat} (hi : i < l.length) (x : Int) :
    (l.modify i (· + x)).sum = l.sum + x := by
  induction l generalizing i with
  | nil => exact absurd hi (Nat.not_lt_zero i)
  | cons v l ih =>
    cases i with
    | zero =>
      simp only [List.modify_zero_cons, List.sum_cons]
      omega
    | succ i =>
      rw [List.modify_succ_cons, List.sum_cons, List.sum_cons, ih (Nat.lt_of_succ_lt_succ hi)]
      omega

theorem modify_add_nonneg {l : List Int} (hl : ∀ v ∈ l, 0 ≤ v) {x : Int} (hx : 0 ≤ x) (i : Nat) :
    ∀ v ∈ l.modify i (· + x), 0 ≤ v := by
  induction l generalizing i with
  | nil =>
    intro v hv
    simp at hv
  | cons w l ih =>
    have hw := hl w List.mem_cons_self
    have htail := fun v hv => hl v (List.mem_cons_of_mem w hv)
    cases i with
    | zero =>
      intro v hv
      rw [List.modify_zero_cons] at hv
      rcases List.mem_cons.1 hv with rfl | hv
      · omega
      · exact htail v hv
    | succ i =>
      intro v hv
      rw [List.modify_succ_cons] at hv
      rcases List.mem_cons.1 hv with rfl | hv
      · exact hw
      · exact ih htail i v hv

/-- Learning one time keeps the histogram: the repair always suffices. -/
theorem updateHistogram_spec (h : Tallied m.iatVector m.iatFactor) {iat : Nat} (hiat : iat < 65) :
    ∃ vector factor, m.updateHistogram iat = some { m with iatVector := vector, iatFactor := factor } ∧
      Tallied vector factor := by
  obtain ⟨hf0, hf1⟩ := h.factor
  have hindex : iat < m.iatVector.length := h.length ▸ hiat
  unfold updateHistogram
  rw [if_pos hindex]
  dsimp only
  have hscaled : (scale m.iatFactor 32768 m.iatVector).length = 65 := length_scale.trans h.length
  have hlow := le_sum_scale (f := m.iatFactor) (D := 32768) (l := m.iatVector) (by decide)
  have hhigh := sum_scale_le (f := m.iatFactor) (D := 32768) (l := m.iatVector) (by decide)
  have hpos := scale_nonneg (D := 32768) hf0 (by decide) h.nonneg
  rw [h.total, h.length] at hlow
  rw [h.total] at hhigh
  generalize scale m.iatFactor 32768 m.iatVector = scaled at hscaled hlow hhigh hpos ⊢
  -- at most one unit lost for each entry
  have hloss : int32 (scaled.sum + (32768 - m.iatFactor) * 32768 - 2 ^ 30) =
      scaled.sum + (32768 - m.iatFactor) * 32768 - 2 ^ 30 := int32_of_fits (by omega) (by omega)
  have hflip : (if scaled.sum + (32768 - m.iatFactor) * 32768 - 2 ^ 30 > 0 then (-1 : Int) else 1) =
      1 := if_neg (by omega)
  rw [hloss, hflip]
  have hnonneg := modify_add_nonneg hpos (x := (32768 - m.iatFactor) * 32768) (by omega) iat
  have hsum := sum_modify_add (hscaled ▸ hiat : iat < scaled.length)
    ((32768 - m.iatFactor) * 32768)
  have hlength : (scaled.modify iat (· + (32768 - m.iatFactor) * 32768)).length = 65 :=
    (List.length_modify _ _ _).trans hscaled
  generalize scaled.modify iat (· + (32768 - m.iatFactor) * 32768) = observed
    at hnonneg hsum hlength ⊢
  have hlost : scaled.sum + (32768 - m.iatFactor) * 32768 - 2 ^ 30 ≤ 0 := by omega
  have hr := repair_spec (· / 16) hlost hnonneg
    fun v hv => Int.ediv_nonneg (hnonneg v hv) (by decide)
  -- the sixteenths of entries that sum to almost one
  have hshares := le_sum_scale (f := 1) (D := 16) (l := observed) (by decide)
  have hscale : scale 1 16 observed = observed.map (· / 16) := by simp [scale]
  rw [hscale, hlength] at hshares
  have hzero : (repair 1 (· / 16) (scaled.sum + (32768 - m.iatFactor) * 32768 - 2 ^ 30) observed).1
      = 0 := by
    rw [hr.left]
    omega
  have hmoved := hr.moved
  rw [if_pos hzero]
  rw [hzero] at hmoved
  exact ⟨_, _, rfl, hr.length.trans hlength, hr.nonneg, by omega, by omega⟩

/-! ## The target level -/

theorem limitIndex_some (limit : Int) {vs : List Int} (hvs : vs ≠ []) (sum : Int) (index : Nat) :
    ∃ i, limitIndex limit sum index vs = some i := by
  induction vs generalizing sum index with
  | nil => exact absurd rfl hvs
  | cons v vs ih =>
    unfold limitIndex
    split
    · rename_i hgo
      exact ih hgo.2 _ _
    · exact ⟨_, rfl⟩

theorem calculateTargetLevel_spec (h : Tallied m.iatVector m.iatFactor) (iat : Int) :
    ∃ base detector target, m.calculateTargetLevel iat =
      some { m with baseTargetLevel := base, peakDetector := detector, targetLevel := target } := by
  have hlen := h.length
  unfold calculateTargetLevel
  dsimp only
  split
  · rename_i hnil
    rw [hnil] at hlen
    cases hlen
  · rename_i v vs hcons
    have hvs : vs ≠ [] := by
      rintro rfl
      rw [hcons] at hlen
      cases hlen
    obtain ⟨i, hi⟩ := limitIndex_some (if m.streamingMode then 536871 else 53687091) hvs
      (2 ^ 30 - v) 0
    rw [hi]
    exact ⟨_, _, _, rfl⟩

theorem tdiv_four_le (n : Int) : n.tdiv 4 ≤ max 0 (n / 4) := by
  by_cases hn : 0 ≤ n
  · rw [Int.tdiv_eq_ediv_of_nonneg hn]
    omega
  · have := Int.tdiv_nonneg (a := -n) (b := 4) (by omega) (by decide)
    rw [Int.neg_tdiv] at this
    omega

/-- The limits hold whatever the level was. -/
theorem limitTargetLevel_spec (m : DelayManager) :
    256 ≤ m.limitTargetLevel.targetLevel ∧ m.limitTargetLevel.Limited := by
  have hbuffer : (int32 (3 * int32 (m.maxPacketsInBuffer * 256))).tdiv 4 ≤
      max 256 (3 * (256 * (m.maxPacketsInBuffer : Int)) / 4) := by
    have hquarter := tdiv_four_le (int32 (3 * int32 (m.maxPacketsInBuffer * 256)))
    have hrange := int32_range (3 * int32 (m.maxPacketsInBuffer * 256))
    by_cases hfits : (m.maxPacketsInBuffer : Int) * 256 < 2147483648
    · rw [int32_of_fits (by omega) hfits] at hquarter ⊢
      have hle := int32_le (n := 3 * ((m.maxPacketsInBuffer : Int) * 256)) (by omega)
      omega
    · omega
  unfold Limited limitTargetLevel
  dsimp only
  omega

/-! ## One packet -/

theorem iatPackets_range {packetLenMs : Int} (hlen : 0 < packetLenMs)
    (hcount : 0 ≤ m.packetIatCountMs ∧ m.packetIatCountMs < 2147418112) (seq : UInt16) :
    0 ≤ m.iatPackets packetLenMs seq ∧ m.iatPackets packetLenMs seq ≤ 64 := by
  have hq0 : 0 ≤ m.packetIatCountMs.tdiv packetLenMs := Int.tdiv_nonneg hcount.1 (by omega)
  have hq1 : m.packetIatCountMs.tdiv packetLenMs ≤ m.packetIatCountMs :=
    Int.tdiv_le_self packetLenMs hcount.1
  have hseq := (m.lastSeqNo + 1 - seq).toNat_lt
  unfold iatPackets
  dsimp only
  refine ⟨?_, Int.min_le_right _ _⟩
  split
  · omega
  · split
    · rw [int32_of_fits (by omega) (by omega)]
      omega
    · omega

theorem learn_spec (h : m.Sound) {packetLenMs : Int} (hlen : 0 < packetLenMs) (seq : UInt16) :
    ∃ m', m.learn packetLenMs seq = some m' ∧ Tallied m'.iatVector m'.iatFactor ∧
      256 ≤ m'.targetLevel ∧ m'.Limited := by
  obtain ⟨hiat0, hiat1⟩ := iatPackets_range hlen h.counted seq
  unfold learn
  dsimp only
  generalize m.iatPackets packetLenMs seq = iat at hiat0 hiat1 ⊢
  have hindex : (iat % 18446744073709551616).toNat < 65 := by omega
  -- the cumulative sums leave the histogram alone
  have htallied : Tallied
      (if m.streamingMode then m.updateCumulativeSums packetLenMs seq else m).iatVector
      (if m.streamingMode then m.updateCumulativeSums packetLenMs seq else m).iatFactor := by
    split
    · unfold updateCumulativeSums
      dsimp only
      split <;> split <;> exact h.tallied
    · exact h.tallied
  generalize (if m.streamingMode then m.updateCumulativeSums packetLenMs seq else m) = m₁
    at htallied ⊢
  obtain ⟨vector, factor, hhist, htallied⟩ := updateHistogram_spec htallied hindex
  rw [hhist]
  obtain ⟨base, detector, target, htarget⟩ := calculateTargetLevel_spec
    (m := { m₁ with iatVector := vector, iatFactor := factor }) htallied iat
  rw [Option.bind_some, htarget]
  dsimp only [Option.map_some]
  refine ⟨_, rfl, ?_, limitTargetLevel_spec _⟩
  unfold limitTargetLevel
  dsimp only
  split <;> exact htallied

/-! ## Every operation -/

theorem decay_65 : (decay 65 0x4002).length = 65 ∧ (∀ v ∈ decay 65 0x4002, 0 ≤ v) ∧
    (decay 65 0x4002).sum = 2 ^ 30 := by
  decide

theorem counted_zero : (0 : Int) ≤ 0 ∧ (0 : Int) < 2147418112 := by decide

theorem reset_sound (h : m.iatVector.length = 65) : m.reset.Sound := by
  unfold reset resetHistogram
  dsimp only
  rw [h]
  exact ⟨⟨decay_65.1, decay_65.2.1, decay_65.2.2, Int.le_refl 0, by dsimp only; omega⟩,
    by dsimp only; omega, .inr ⟨rfl, rfl⟩, counted_zero⟩

theorem update_sound (h : m.Sound) (seq : UInt16) (ts : UInt32) (rate : Int) :
    ∃ out, m.update seq ts rate = some out ∧ out.2.Sound := by
  unfold update
  split
  · exact ⟨_, rfl, h⟩
  · split
    · exact ⟨_, rfl, h.tallied, h.lowest, h.limited, counted_zero⟩
    · dsimp only
      split
      · obtain ⟨m', hlearn, h1, h2, h3⟩ := learn_spec h ‹_› seq
        rw [hlearn]
        exact ⟨_, rfl, h1, h2, h3, counted_zero⟩
      · exact ⟨_, rfl, h.tallied, h.lowest, h.limited, counted_zero⟩

theorem Sound.step (h : m.Sound) {op : Op} (hop : m.Forward op) :
    ∃ m', m.step op = some m' ∧ m'.Sound := by
  cases op with
  | update seq ts rate =>
    obtain ⟨out, hout, hs⟩ := update_sound h seq ts rate
    exact ⟨out.2, by rw [DelayManager.step, hout]; rfl, hs⟩
  | updateCounters ms =>
    have hcounted := h.counted
    have hcount : (m.updateCounters ms).packetIatCountMs = m.packetIatCountMs + ms :=
      int32_of_fits (by have := hop.1; omega) (by have := hop.2; omega)
    exact ⟨_, rfl, h.tallied, h.lowest, h.limited, by rw [hcount]; have := hop.1; omega,
      by rw [hcount]; exact hop.2⟩
  | setPacketAudioLength ms =>
    refine ⟨_, rfl, ?_⟩
    unfold setPacketAudioLength
    split
    · exact h
    · exact ⟨h.tallied, h.lowest, h.limited, counted_zero⟩
  | reset => exact ⟨_, rfl, reset_sound h.tallied.length⟩
  | resetPacketIatCount => exact ⟨_, rfl, h.tallied, h.lowest, h.limited, counted_zero⟩
  | setMinimumDelay ms =>
    refine ⟨_, rfl, ?_⟩
    unfold setMinimumDelay
    split
    · exact h
    · exact ⟨h.tallied, h.lowest, h.limited, h.counted⟩
  | setMaximumDelay ms =>
    refine ⟨_, rfl, ?_⟩
    unfold setMaximumDelay
    split
    · exact ⟨h.tallied, h.lowest, h.limited, h.counted⟩
    · split
      · exact h
      · exact ⟨h.tallied, h.lowest, h.limited, h.counted⟩
  | setStreamingMode value => exact ⟨_, rfl, h.tallied, h.lowest, h.limited, h.counted⟩

/-! ## Every run -/

theorem sound_inductive (n : Nat) : ((lts n).within Forward).Inductive Sound where
  init m hm := by
    cases hm
    exact reset_sound (List.length_replicate ..)
  step m op m' h hs := by
    obtain ⟨m₁, h1, hsound⟩ := h.step hs.1
    have : some m₁ = some m' := h1.symm.trans hs.2
    cases this
    exact hsound

/-- After every run the histogram is a distribution, the target level is
limited, and no operation fails an assertion or leaves the vector. -/
theorem histogram_invariant (n : Nat) (m : DelayManager)
    (hm : ((lts n).within Forward).Reachable m) :
    m.Sound ∧ ∀ op, m.Forward op → ∃ m', m.step op = some m' :=
  have h := (sound_inductive n).reachable m hm
  ⟨h, fun _ hop => (h.step hop).imp fun _ => And.left⟩

instance (m : DelayManager) : (op : Op) → Decidable (m.Forward op)
  | .updateCounters _ => inferInstanceAs (Decidable (_ ∧ _))
  | .update .. | .setPacketAudioLength _ | .reset | .resetPacketIatCount | .setMinimumDelay _
  | .setMaximumDelay _ | .setStreamingMode _ => .isTrue trivial

/-- Two packets of 20 ms in time, and the time to the next one. -/
def twoPackets : List Op :=
  [.setPacketAudioLength 20, .update 0 0 8000, .updateCounters 20, .update 1 160 8000,
    .updateCounters 20]

set_option maxRecDepth 4000 in
theorem twoPackets_run : (twoPackets.foldlM
    (fun m op => if Forward m op then m.step op else none) (create 50)).isSome = true := by
  decide

set_option maxRecDepth 4000 in
/-- The second packet is learnt. -/
theorem histogram_invariant_started :
    ∃ m : DelayManager, m.packetIatCountMs = 20 ∧ m.iatFactor = 8135 ∧ m.Sound :=
  ⟨_, by decide, by decide, (histogram_invariant 50 _ ⟨create 50, twoPackets, rfl,
    LTS.Run.within_of_foldlM (Option.some_get twoPackets_run).symm⟩).1⟩

/-- The first packet leaves four packets as the target for a buffer of five,
and a negative time leads to an index outside the vector. -/
theorem limits_not_always :
    (¬ ∀ (n : Nat) (m m' : DelayManager) (seq : UInt16) (ts : UInt32) (rate : Int),
      (lts n).Reachable m → 0 < rate → m.step (.update seq ts rate) = some m' →
      m'.targetLevel ≤ max 256 (3 * (256 * (n : Int)) / 4)) ∧
    ¬ ∀ (n : Nat) (m : DelayManager) (op : Op), (lts n).Reachable m → ∃ m', m.step op = some m' := by
  refine ⟨fun h => ?_, fun h => ?_⟩
  · have hlimit := h 5 (create 5) _ 0 0 8000 ⟨create 5, [], rfl, .nil _⟩ (by decide) rfl
    revert hlimit
    decide
  · obtain ⟨m', hm'⟩ := h 50 _ (.update 1 160 8000) ⟨create 50,
      [.setPacketAudioLength 20, .update 0 0 8000, .updateCounters (-40)], rfl,
      .cons rfl (.cons rfl (.cons rfl (.nil _)))⟩
    have hnone : (none : Option DelayManager) = some m' := hm'
    cases hnone

end DelayManager
end RtcCore.L2.NetEq
