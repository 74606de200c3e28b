import RtcCore.Core.FirstBest
import RtcCore.Core.Int32
import RtcCore.L1Wire.Vp8Packets

/-!
# Splitting a large partition, on machine words

`CalcNumberOfFragments` computes in `size_t` and keeps its choice in an `int`. As
long as nothing wraps, a number of fragments is chosen for which the loop of
`GeneratePacketsBalancedAggregates` cuts the partition without a rest: with one
fragment more than the fragments of that size need, a smaller number has the same
fragment size, comes first and does not cost more.

Results:
* `chosen_covers`: what the choice guarantees.
* `balanced_fragments`: the fragments of the loop.
-/
namespace RtcCore.L1.Vp8

namespace Words

/-- mirrors webrtc/modules/rtp_rtcp/source/vp8_partition_aggregator.cc:251 -/
def fragmentSize (size n : Nat) : Nat := sizeT (size + n - 1) / n

/-- mirrors webrtc/modules/rtp_rtcp/source/vp8_partition_aggregator.cc:252-259 -/
def fragmentsCost (size penalty : Nat) (minSize maxSize : Int) (n : Nat) : Nat :=
  if (fragmentSize size n : Int) < minSize then sizeT (minSize - fragmentSize size n + n * penalty)
  else if maxSize < fragmentSize size n then sizeT (fragmentSize size n - maxSize + n * penalty)
  else sizeT (n * penalty)

/-- The number is `int num_fragments`, -1 where no candidate is cheaper than `size_t`'s maximum.
mirrors webrtc/modules/rtp_rtcp/source/vp8_partition_aggregator.cc:225-268 -/
def calcNumberOfFragments (size maxPayload penalty : Nat) (minSize maxSize : Int) : Nat :=
  let minNumber := sizeT (size + maxPayload - 1) / maxPayload
  if minSize < 0 ∨ maxSize < 0 then minNumber
  else
    let maxNumber := sizeT (size + minSize - 1) / minSize.toNat
    match (FirstBest.scan (fragmentSize size · ≤ maxPayload)
        (fragmentsCost size penalty minSize maxSize) 18446744073709551615
        (List.range' minNumber (maxNumber + 1 - minNumber))).1 with
    | none => sizeT (-1)
    | some n => sizeT (int32 n)

end Words

/-- The asserts at the head of the function.
mirrors webrtc/modules/rtp_rtcp/source/vp8_partition_aggregator.cc:230-234 -/
structure Asserted (size maxPayload : Nat) (minSize maxSize : Int) : Prop where
  size_pos : 0 < size
  payload_pos : 0 < maxPayload
  min_ne : minSize ≠ 0
  min_le : minSize ≤ maxSize
  max_le : maxSize ≤ int32 maxPayload

/-- The sizes are those of objects, the number of fragments is an `int` and no cost wraps. -/
structure InRange (size maxPayload penalty : Nat) (minSize : Int) : Prop where
  size_lt : size < 9223372036854775808
  payload_lt : maxPayload < 9223372036854775808
  number_lt : 0 < minSize → (size + minSize.toNat - 1) / minSize.toNat < 2147483648
  cost_lt : 0 < minSize →
    size + (size + minSize.toNat - 1) / minSize.toNat * penalty < 18446744073709551615

variable {size maxPayload penalty n : Nat} {mn mx : Int}

theorem Asserted.minOk (h : Asserted size maxPayload mn mx) : MinOk maxPayload mn := by
  have hle := int32_le (Int.natCast_nonneg maxPayload)
  have := h.min_ne
  have := h.min_le
  have := h.max_le
  unfold MinOk
  omega

theorem fragmentSize_words (hs : size < 9223372036854775808) (hn : n ≤ 9223372036854775808) :
    Words.fragmentSize size n = fragmentSize size n := by
  unfold Words.fragmentSize fragmentSize
  rcases Nat.eq_zero_or_pos n with rfl | hpos
  · rw [Nat.div_zero, Nat.div_zero]
  · rw [sizeT_eq (m := size + n - 1) (by omega) (by omega)]

theorem fragmentSize_le {j : Nat} (hn : 0 < n) : fragmentSize size n ≤ size + j := by
  unfold fragmentSize
  rw [Nat.div_le_iff_le_mul hn]
  have := Nat.le_mul_of_pos_right (size + j) hn
  omega

/-- No cost of a candidate wraps. -/
theorem fragmentsCost_words {i j K : Nat} (hi : i ≤ j) (hj : j < size) (hn : 0 < n) (hnK : n ≤ K)
    (hs : size < 9223372036854775808) (hK : K < 2147483648)
    (hcost : size + K * penalty < 18446744073709551615) :
    Words.fragmentsCost size penalty i j n = fragmentsCost size penalty i j n ∧
      fragmentsCost size penalty i j n < 18446744073709551615 := by
  have hmul : n * penalty ≤ K * penalty := Nat.mul_le_mul_right _ hnK
  have hle : fragmentSize size n ≤ size + 0 := fragmentSize_le hn
  unfold Words.fragmentsCost fragmentsCost
  rw [fragmentSize_words hs (by omega)]
  generalize fragmentSize size n = f at hle
  rw [← Int.natCast_mul]
  generalize n * penalty = c at hmul
  by_cases h1 : f < i
  · rw [if_pos h1, if_pos (by omega)]
    exact ⟨sizeT_eq (by omega) (by omega), by omega⟩
  · rw [if_neg h1, if_neg (by omega)]
    by_cases h2 : j < f
    · rw [if_pos h2, if_pos (by omega)]
      exact ⟨sizeT_eq (by omega) (by omega), by omega⟩
    · rw [if_neg h2, if_neg (by omega)]
      exact ⟨sizeT_eq rfl (by omega), by omega⟩

theorem fragmentsCost_le {i j k : Nat} (hkn : k ≤ n)
    (hsame : fragmentSize size k = fragmentSize size n) :
    fragmentsCost size penalty i j k ≤ fragmentsCost size penalty i j n := by
  have hmul : k * penalty ≤ n * penalty := Nat.mul_le_mul_right _ hkn
  unfold fragmentsCost
  rw [hsame]
  split
  · omega
  · split <;> omega

/-- What the number that is chosen guarantees. -/
theorem chosen_covers (h : Asserted size maxPayload mn mx) (hlarge : mx < size)
    (hr : InRange size maxPayload penalty mn) :
    let n := Words.calcNumberOfFragments size maxPayload penalty mn mx
    0 < n ∧ n ≤ size ∧ fragmentSize size n ≤ maxPayload ∧ (n - 1) * fragmentSize size n < size := by
  have hs := h.size_pos
  have hp := h.payload_pos
  have hsize := hr.size_lt
  have hpayload := hr.payload_lt
  have hle := h.min_le
  have hminOk := h.minOk
  obtain ⟨hmin, hfit, hlow, hleast⟩ := fewest_fragments hs hp
  have hNsize := hleast size (Nat.le_mul_of_pos_right size hp)
  have hN : sizeT (size + maxPayload - 1) = size + maxPayload - 1 :=
    sizeT_eq (by omega) (by omega)
  unfold Words.calcNumberOfFragments
  dsimp only
  rw [hN]
  generalize (size + maxPayload - 1) / maxPayload = N at hmin hfit hlow hleast hNsize
  split
  · exact ⟨hmin, hNsize, hfit, Nat.lt_of_le_of_lt (Nat.mul_le_mul_left _ hfit) hlow⟩
  · rename_i hneg
    obtain ⟨i, rfl⟩ : ∃ i : Nat, mn = i := ⟨mn.toNat, by omega⟩
    obtain ⟨j, rfl⟩ : ∃ j : Nat, mx = j := ⟨mx.toNat, by omega⟩
    have hi : 0 < i ∧ i ≤ maxPayload := by
      unfold MinOk at hminOk
      omega
    have hnumber := hr.number_lt (by omega)
    have hcost := hr.cost_lt (by omega)
    rw [Int.toNat_natCast] at hnumber hcost ⊢
    have hK : sizeT (size + i - 1) = size + i - 1 := sizeT_eq (by omega) (by omega)
    rw [hK]
    have hNK : N ≤ (size + i - 1) / i := by
      rw [Nat.le_div_iff_mul_le hi.1]
      have hNi : (N - 1) * i ≤ (N - 1) * maxPayload := Nat.mul_le_mul_left _ hi.2
      obtain ⟨N', rfl⟩ : ∃ N', N = N' + 1 := ⟨N - 1, by omega⟩
      rw [Nat.add_sub_cancel] at hlow hNi
      rw [Nat.add_mul, Nat.one_mul]
      omega
    have hKsize : (size + i - 1) / i ≤ size := by
      rw [Nat.div_le_iff_le_mul hi.1]
      have := Nat.le_mul_of_pos_right size hi.1
      omega
    generalize (size + i - 1) / i = K at hnumber hcost hNK hKsize
    have hmem : ∀ k, k ∈ List.range' N (K + 1 - N) ↔ N ≤ k ∧ k ≤ K := by
      intro k
      rw [List.mem_range'_1]
      omega
    have hwords : ∀ k, 0 < k → k ≤ K → Words.fragmentSize size k = fragmentSize size k ∧
        Words.fragmentsCost size penalty i j k = fragmentsCost size penalty i j k ∧
        fragmentsCost size penalty i j k < 18446744073709551615 := fun k hk hkK =>
      ⟨fragmentSize_words hsize (by omega),
        fragmentsCost_words (by omega) (by omega) hk hkK hsize hnumber hcost⟩
    split
    · -- the smallest candidate would have been taken
      rename_i hnone
      obtain ⟨hfs, hcs, hlt⟩ := hwords N hmin hNK
      have := FirstBest.scan_eq_none_iff.1 hnone N ((hmem N).2 ⟨Nat.le_refl _, hNK⟩)
        (decide_eq_true (by rw [hfs]; exact hfit))
      omega
    · rename_i n hsome
      have hch := FirstBest.scan_some hsome
      have hn := (hmem n).1 hch.mem
      have hn0 : 0 < n := by omega
      obtain ⟨hfs, hcs, -⟩ := hwords n hn0 hn.2
      have hnfit : fragmentSize size n ≤ maxPayload := by
        rw [← hfs]
        exact of_decide_eq_true hch.1
      have hint : sizeT (int32 n) = n :=
        sizeT_eq (int32_of_fits (by omega) (by omega)) (by omega)
      rw [hint]
      refine ⟨hn0, by omega, hnfit, Nat.lt_of_not_le fun hover => ?_⟩
      -- one fragment fewer has the same size, comes first and does not cost more
      have hn1 : 0 < n - 1 := by
        rcases Nat.eq_zero_or_pos (n - 1) with h0 | h0
        · rw [h0, Nat.zero_mul] at hover
          omega
        · exact h0
      have hsame := fragmentSize_fewer hs hn0 hover (by omega) hn1
      have hN1 : N ≤ n - 1 := hleast _ (Nat.le_trans hover (Nat.mul_le_mul_left _ hnfit))
      obtain ⟨hfs', hcs', -⟩ := hwords (n - 1) hn1 (by omega)
      have hlt := hch.lt_of_lt List.pairwise_lt_range' ((hmem _).2 ⟨hN1, by omega⟩)
        (Nat.sub_lt hn0 Nat.one_pos) (decide_eq_true (by rw [hfs', hsame]; exact hnfit))
      have hge : fragmentsCost size penalty i j (n - 1) ≤ fragmentsCost size penalty i j n :=
        fragmentsCost_le (Nat.sub_le n 1) hsame
      omega

/-- Fragments of `k` octets, and the last one with what is left. -/
theorem splitLarge_fragments {k partIx : Nat} (hk : 0 < k) (n : Nat) (first : Bool)
    (total remaining : Nat) (mn mx : Int) (hle : remaining ≤ n * k)
    (hlast : 0 < n → (n - 1) * k < remaining) :
    let infos := (splitLarge partIx k n first total remaining mn mx).1
    infos.length = n ∧ (infos.map PacketInfo.size).sum = remaining ∧
      ∀ i ∈ infos, 1 ≤ i.size ∧ i.size ≤ k := by
  induction n generalizing first total remaining mn mx with
  | zero =>
    rw [Nat.zero_mul] at hle
    exact ⟨rfl, (Nat.le_zero.1 hle).symm, fun i hi => nomatch hi⟩
  | succ n ih =>
    have hlast := hlast (Nat.succ_pos n)
    rw [Nat.add_sub_cancel] at hlast
    rw [Nat.add_mul, Nat.one_mul] at hle
    unfold splitLarge
    dsimp only
    generalize hthis : (if k < remaining then k else remaining) = this
    have hbounds : 1 ≤ this ∧ this ≤ k ∧ this ≤ remaining ∧ remaining - this ≤ n * k ∧
        (0 < n → (n - 1) * k < remaining - this) := by
      cases n with
      | zero =>
        have : this = remaining := by
          rw [← hthis]
          split <;> omega
        omega
      | succ n =>
        rw [Nat.add_mul, Nat.one_mul] at hlast hle ⊢
        have : this = k := by rw [← hthis, if_pos (by omega)]
        rw [Nat.add_sub_cancel]
        omega
    obtain ⟨hpos, hthk, hthr, hle', hlast'⟩ := hbounds
    obtain ⟨hlength, hsum, hmem⟩ := ih false (total + this) (remaining - this) _ _ hle' hlast'
    refine ⟨congrArg Nat.succ hlength, ?_, fun i hi => ?_⟩
    · rw [List.map_cons, List.sum_cons, hsum]
      exact Nat.add_sub_cancel' hthr
    · rcases List.mem_cons.1 hi with rfl | hi
      · exact ⟨hpos, hthk⟩
      · exact hmem i hi

/-- As many fragments as were chosen make up the partition, none is empty and none too large. -/
def Balanced (size maxPayload penalty : Nat) (mn mx : Int) (partIx total : Nat) : Prop :=
  let n := Words.calcNumberOfFragments size maxPayload penalty mn mx
  let infos := (splitLarge partIx (Words.fragmentSize size n) n true total size mn mx).1
  infos.length = n ∧ (infos.map PacketInfo.size).sum = size ∧
    ∀ i ∈ infos, 1 ≤ i.size ∧ i.size ≤ maxPayload

theorem balanced_fragments (h : Asserted size maxPayload mn mx) (hlarge : mx < size)
    (hr : InRange size maxPayload penalty mn) (partIx total : Nat) :
    Balanced size maxPayload penalty mn mx partIx total := by
  have hsize := hr.size_lt
  obtain ⟨hn, hnsize, hfit, hlast⟩ := chosen_covers h hlarge hr
  unfold Balanced
  dsimp only
  generalize Words.calcNumberOfFragments size maxPayload penalty mn mx = n at hn hnsize hfit hlast
  rw [fragmentSize_words hsize (by omega)]
  have hpos : 0 < fragmentSize size n := by
    have := h.size_pos
    exact Nat.div_pos (by omega) hn
  have hcover : size ≤ n * fragmentSize size n := by
    have := Nat.lt_mul_div_succ (size + n - 1) hn
    rw [Nat.mul_add, Nat.mul_one] at this
    unfold fragmentSize
    omega
  obtain ⟨hlength, hsum, hmem⟩ :=
    @splitLarge_fragments _ partIx hpos n true total size mn mx hcover fun _ => hlast
  exact ⟨hlength, hsum, fun i hi => ⟨(hmem i hi).1, Nat.le_trans (hmem i hi).2 hfit⟩⟩

theorem balanced_fragments_hundred : Balanced 100 30 2 20 25 0 0 :=
  balanced_fragments ⟨by decide, by decide, by decide, by decide, by decide⟩ (by decide)
    ⟨by decide, by decide, fun _ => by decide, fun _ => by decide⟩ 0 0

/-- With a penalty of 2 ^ 63 every second cost wraps to the same value: four fragments are chosen
for nine octets, of three octets each. -/
theorem balanced_fragments_wrap : ¬ ∀ (size maxPayload penalty : Nat) (mn mx : Int),
    Asserted size maxPayload mn mx → mx < size → ∀ partIx total,
    Balanced size maxPayload penalty mn mx partIx total := by
  intro hall
  obtain ⟨-, -, hmem⟩ := hall 9 3 9223372036854775808 1 3
    ⟨by decide, by decide, by decide, by decide, by decide⟩ (by decide) 0 0
  have hempty : PacketInfo.mk 9 0 false 0 ∈ (splitLarge 0
      (Words.fragmentSize 9 (Words.calcNumberOfFragments 9 3 9223372036854775808 1 3))
      (Words.calcNumberOfFragments 9 3 9223372036854775808 1 3) true 0 9 1 3).1 := by decide
  exact absurd (hmem _ hempty).1 (by decide)

end RtcCore.L1.Vp8
