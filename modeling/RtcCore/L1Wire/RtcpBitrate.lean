import Mathlib.Data.Nat.Find
import RtcCore.L1Wire.RtcpSender

/-!
# Bitrates with an exponent and a mantissa

What an encoder of `RTCPSender` and the parser together make of a bitrate. The
exponent is the least one for which the bitrate is at most the largest mantissa
times 2^exponent, the mantissa is cut off. Bitrates above the largest mantissa
times 2^(32 - bits) have no exponent: the thresholds of the search are 32-bit
numbers.

Results:
- `bitrate_coding`: the decoded bitrate, REMB and TMMBR.
- `not_monotone`: a bitrate between the largest mantissa and the next power of
  two, times a power of two, is decoded to less than that multiple of the mantissa.
-/
namespace RtcCore.L1.Rtcp

open Bytes

/-! ## Exponents -/

/-- Between the largest value of one exponent and the least one that the next
exponent has with a full mantissa. -/
def Gap (bits n : Nat) : Prop := ∃ i, (2 ^ bits - 1) * 2 ^ i < n ∧ n < 2 ^ bits * 2 ^ i

/-- The bitrate has an exponent. -/
def InRange (bits n : Nat) : Prop := n ≤ (2 ^ bits - 1) * 2 ^ (32 - bits)

variable {bits n m e : Nat}

theorem exponent_eq (hle : e < 64) (he : n ≤ (2 ^ bits - 1) * 2 ^ e)
    (hmin : ∀ i < e, (2 ^ bits - 1) * 2 ^ i < n) : exponent bits n = e := by
  rw [exponent, List.find?_range_eq_some.2 ⟨decide_eq_true he, List.mem_range.2 hle, ?_⟩]
  · rfl
  · intro i hi
    have := hmin i hi
    simp
    omega

theorem exponent_spec (h : InRange bits n) (hb : bits ≤ 32) :
    exponent bits n ≤ 32 - bits ∧ n ≤ (2 ^ bits - 1) * 2 ^ exponent bits n ∧
      ∀ i < exponent bits n, (2 ^ bits - 1) * 2 ^ i < n := by
  have hex : ∃ e, n ≤ (2 ^ bits - 1) * 2 ^ e := ⟨_, h⟩
  classical
  have hle : Nat.find hex ≤ 32 - bits := Nat.find_min' hex h
  have heq : exponent bits n = Nat.find hex := by
    apply exponent_eq (by omega) (Nat.find_spec hex)
    intro i hi
    exact Nat.lt_of_not_le (Nat.find_min hex hi)
  rw [heq]
  exact ⟨hle, Nat.find_spec hex, fun i hi => Nat.lt_of_not_le (Nat.find_min hex hi)⟩

theorem exponent_le (h : InRange bits n) (hb : bits ≤ 32) (hm : n ≤ (2 ^ bits - 1) * 2 ^ e) :
    exponent bits n ≤ e := by
  by_contra hlt
  have := (exponent_spec h hb).2.2 e (by omega)
  omega

theorem exponent_mono (h : InRange bits n) (hb : bits ≤ 32) (hm : m ≤ n) :
    exponent bits m ≤ exponent bits n :=
  exponent_le (Nat.le_trans hm h) hb (Nat.le_trans hm (exponent_spec h hb).2.1)

/-! ## Rounding -/

theorem roundDown_le (bits n : Nat) : roundDown bits n ≤ n := Nat.div_mul_le_self _ _

theorem roundDown_close (bits n : Nat) : n - roundDown bits n < 2 ^ exponent bits n := by
  have hmod := Nat.mod_lt n (Nat.two_pow_pos (exponent bits n))
  have hdiv := Nat.div_add_mod' n (2 ^ exponent bits n)
  rw [roundDown]
  omega

theorem pow_mul_pow (hb : 0 < bits) (e : Nat) : 2 ^ bits * 2 ^ e = 2 ^ (bits - 1) * 2 ^ (e + 1) := by
  rw [← Nat.pow_add, ← Nat.pow_add]
  congr 1
  omega

theorem mantissa_mul (bits e : Nat) : (2 ^ bits - 1) * 2 ^ e + 2 ^ e = 2 ^ bits * 2 ^ e := by
  rw [Nat.sub_mul, Nat.one_mul]
  have := Nat.le_mul_of_pos_left (2 ^ e) (Nat.two_pow_pos bits)
  omega

/-- Outside the gaps, larger bitrates are not decoded to smaller ones. -/
theorem roundDown_mono (h : InRange bits n) (hb : 0 < bits ∧ bits ≤ 32) (hgap : ¬ Gap bits n)
    (hm : m ≤ n) : roundDown bits m ≤ roundDown bits n := by
  have hexp := exponent_mono h hb.2 hm
  by_cases heq : exponent bits m = exponent bits n
  · rw [roundDown, roundDown, heq]
    exact Nat.mul_le_mul_right _ (Nat.div_le_div_right hm)
  · obtain ⟨e, he⟩ : ∃ e, exponent bits n = e + 1 := ⟨exponent bits n - 1, by omega⟩
    obtain ⟨-, -, hmin⟩ := exponent_spec h hb.2
    have hbig : 2 ^ bits * 2 ^ e ≤ n := by
      by_contra hlt
      exact hgap ⟨e, hmin e (by omega), by omega⟩
    have hmax : m ≤ (2 ^ bits - 1) * 2 ^ e := by
      have hspec := (exponent_spec (Nat.le_trans hm h) hb.2).2.1
      have hpow : 2 ^ exponent bits m ≤ 2 ^ e := Nat.pow_le_pow_right (by decide) (by omega)
      exact Nat.le_trans hspec (Nat.mul_le_mul_left _ hpow)
    calc roundDown bits m ≤ m := roundDown_le bits m
      _ ≤ (2 ^ bits - 1) * 2 ^ e := hmax
      _ ≤ 2 ^ bits * 2 ^ e := Nat.mul_le_mul_right _ (Nat.sub_le ..)
      _ = 2 ^ (bits - 1) * 2 ^ (e + 1) := pow_mul_pow hb.1 e
      _ ≤ n / 2 ^ (e + 1) * 2 ^ (e + 1) := by
        apply Nat.mul_le_mul_right
        rw [Nat.le_div_iff_mul_le (Nat.two_pow_pos _), ← pow_mul_pow hb.1]
        exact hbig
      _ = roundDown bits n := by rw [roundDown, he]

/-- The largest value of an exponent is decoded to itself. -/
theorem roundDown_max {i : Nat} (h : InRange bits ((2 ^ bits - 1) * 2 ^ i)) (hb : bits ≤ 32) :
    roundDown bits ((2 ^ bits - 1) * 2 ^ i) = (2 ^ bits - 1) * 2 ^ i := by
  have hdvd : 2 ^ exponent bits ((2 ^ bits - 1) * 2 ^ i) ∣ (2 ^ bits - 1) * 2 ^ i :=
    Nat.dvd_mul_left_of_dvd (Nat.pow_dvd_pow 2 (exponent_le h hb (Nat.le_refl _))) _
  exact Nat.div_mul_cancel hdvd

/-- In a gap, the largest value of the exponent below is decoded to more. -/
theorem roundDown_gap (h : InRange bits n) (hb : 0 < bits ∧ bits ≤ 32) (hgap : Gap bits n) :
    ∃ m ≤ n, roundDown bits n < roundDown bits m := by
  obtain ⟨i, hlow, hhigh⟩ := hgap
  have hM : 0 < 2 ^ bits - 1 := by
    have := Nat.pow_le_pow_right (show 0 < 2 by decide) hb.1
    omega
  have htop := mantissa_mul bits i
  have hexp : exponent bits n = i + 1 := by
    apply Nat.le_antisymm
    · apply exponent_le h hb.2
      rw [Nat.pow_succ, ← Nat.mul_assoc]
      have := Nat.le_mul_of_pos_left (2 ^ i) hM
      omega
    · by_contra hlt
      have hspec := (exponent_spec h hb.2).2.1
      have hpow : 2 ^ exponent bits n ≤ 2 ^ i := Nat.pow_le_pow_right (by decide) (by omega)
      have := Nat.mul_le_mul_left (2 ^ bits - 1) hpow
      omega
  have hcut : roundDown bits n + 2 ^ (i + 1) ≤ 2 ^ bits * 2 ^ i := by
    rw [pow_mul_pow hb.1] at hhigh ⊢
    rw [roundDown, hexp, ← Nat.succ_mul]
    exact Nat.mul_le_mul_right _ (Nat.div_lt_of_lt_mul (by rwa [Nat.mul_comm]))
  refine ⟨(2 ^ bits - 1) * 2 ^ i, by omega, ?_⟩
  rw [roundDown_max (Nat.le_trans (Nat.le_of_lt hlow) h) hb.2]
  have := Nat.two_pow_pos i
  rw [Nat.pow_succ] at hcut
  omega

/-! ## The encoders with the parser -/

def rembDecoded (rembBitrate : UInt32) : UInt32 :=
  Parser.rembBitRate (rembBitrateOctets rembBitrate).1 (rembBitrateOctets rembBitrate).2.1
    (rembBitrateOctets rembBitrate).2.2

/-- In kbit/s, as encoded and as decoded. -/
def mmbrDecoded (overhead kbps : UInt32) : UInt32 :=
  Parser.tmmbrBitRate (mmbrOctets (kbps * 1000) overhead).1 (mmbrOctets (kbps * 1000) overhead).2.1
    (mmbrOctets (kbps * 1000) overhead).2.2.1

/-- What is asked of a coding at the bitrate `b`; `rate b` is it in bit/s. -/
structure Sound (bits : Nat) (rate : UInt32 → UInt32) (exp : UInt32 → Nat)
    (decoded : UInt32 → UInt32) (b : UInt32) : Prop where
  fits : (rate b >>> UInt32.ofNat (exp (rate b))).toNat < 2 ^ bits
  le : decoded b ≤ b
  close : b.toNat - (decoded b).toNat < 2 ^ exp (rate b)
  mono : ¬ Gap bits (rate b).toNat → ∀ c ≤ b, decoded c ≤ decoded b

theorem roundDown_toNat (v : UInt32) : (UInt32.ofNat (roundDown bits v.toNat)).toNat =
    roundDown bits v.toNat := by
  have := roundDown_le bits v.toNat
  have := v.toNat_lt
  rw [UInt32.toNat_ofNat']
  omega

theorem rembDecoded_eq {b : UInt32} (h : InRange 18 b.toNat) :
    (rembDecoded b).toNat = roundDown 18 b.toNat := by
  rw [rembDecoded, rembBitrateOctets, brExp_eq]
  dsimp only
  rw [Parser.rembBitRate_fields h, roundDown_toNat]

theorem remb_sound {b : UInt32} (h : InRange 18 b.toNat) : Sound 18 id brExp rembDecoded b := by
  have hexp := Parser.computeExponent_eq (Or.inr rfl) h
  constructor
  · rw [id_eq, brExp_eq]
    exact (Parser.mantissa (Or.inr rfl) h).1
  · rw [UInt32.le_iff_toNat_le, rembDecoded_eq h]
    exact roundDown_le ..
  · rw [rembDecoded_eq h, id_eq, brExp_eq, hexp.1]
    exact roundDown_close ..
  · intro hgap c hc
    rw [UInt32.le_iff_toNat_le] at hc ⊢
    rw [rembDecoded_eq h, rembDecoded_eq (Nat.le_trans hc h)]
    exact roundDown_mono h (by decide) hgap hc

theorem bps_toNat {kbps : UInt32} (h : InRange 17 (kbps.toNat * 1000)) :
    (kbps * 1000).toNat = kbps.toNat * 1000 := by
  have : kbps.toNat * 1000 ≤ 4294934528 := h
  rw [UInt32.toNat_mul]
  show kbps.toNat * 1000 % 4294967296 = _
  omega

theorem mmbrDecoded_eq {kbps : UInt32} (overhead : UInt32) (h : InRange 17 (kbps.toNat * 1000)) :
    (mmbrDecoded overhead kbps).toNat = roundDown 17 (kbps.toNat * 1000) / 1000 := by
  have hv := bps_toNat h
  have hbit : ((overhead >>> 8) &&& 0x01).toUInt8.toNat ≤ 1 := by
    simp
    omega
  rw [mmbrDecoded, mmbrOctets, mmbrExp_eq]
  dsimp only
  rw [Parser.tmmbrBitRate_fields (by rw [hv]; exact h) hbit, UInt32.toNat_div, roundDown_toNat, hv]
  rfl

theorem mmbr_sound {kbps : UInt32} (overhead : UInt32) (h : InRange 17 (kbps.toNat * 1000)) :
    Sound 17 (· * 1000) mmbrExp (mmbrDecoded overhead) kbps := by
  have hv := bps_toNat h
  have hrange : InRange 17 (kbps * 1000).toNat := by
    rw [hv]
    exact h
  have hle := roundDown_le 17 (kbps.toNat * 1000)
  constructor
  · rw [mmbrExp_eq]
    exact (Parser.mantissa (Or.inl rfl) hrange).1
  · rw [UInt32.le_iff_toNat_le, mmbrDecoded_eq overhead h]
    omega
  · -- the division by 1000 costs less than one kbit/s
    have hclose := roundDown_close 17 (kbps.toNat * 1000)
    have hpos := Nat.two_pow_pos (exponent 17 (kbps.toNat * 1000))
    rw [mmbrDecoded_eq overhead h, mmbrExp_eq, (Parser.computeExponent_eq (Or.inl rfl) hrange).1, hv]
    omega
  · intro hgap c hc
    rw [UInt32.le_iff_toNat_le] at hc ⊢
    have hc' : c.toNat * 1000 ≤ kbps.toNat * 1000 := Nat.mul_le_mul_right _ hc
    rw [hv] at hgap
    rw [mmbrDecoded_eq overhead h, mmbrDecoded_eq overhead (Nat.le_trans hc' h)]
    exact Nat.div_le_div_right (roundDown_mono h (by decide) hgap hc')

/-- Bitrates in range are decoded to at most what was encoded, off by less than
the unit of their exponent, and larger bitrates to no smaller ones, unless the
larger one is in a gap; in the REMB field it then is decoded to less than some
smaller one. -/
theorem bitrate_coding :
    (∀ b : UInt32, InRange 18 b.toNat → Sound 18 id brExp rembDecoded b ∧
      (Gap 18 b.toNat → ∃ c ≤ b, rembDecoded b < rembDecoded c)) ∧
    ∀ overhead kbps : UInt32, InRange 17 (kbps.toNat * 1000) →
      Sound 17 (· * 1000) mmbrExp (mmbrDecoded overhead) kbps := by
  refine ⟨fun b h => ⟨remb_sound h, fun hgap => ?_⟩, fun overhead kbps h => mmbr_sound overhead h⟩
  obtain ⟨m, hm, hlt⟩ := roundDown_gap h (by decide) hgap
  have hnat : (UInt32.ofNat m).toNat = m := by
    have := b.toNat_lt
    rw [UInt32.toNat_ofNat']
    omega
  refine ⟨UInt32.ofNat m, ?_, ?_⟩
  · rw [UInt32.le_iff_toNat_le, hnat]
    exact hm
  · rw [UInt32.lt_iff_toNat_lt, rembDecoded_eq h, rembDecoded_eq, hnat]
    · exact hlt
    · rw [hnat]
      exact Nat.le_trans hm h

theorem bitrate_coding_million : rembDecoded 1000001 ≤ 1000001 ∧ mmbrDecoded 40 1001 ≤ 1001 :=
  ⟨(bitrate_coding.1 1000001 (show 1000001 ≤ (2 ^ 18 - 1) * 2 ^ (32 - 18) by decide)).1.le,
    (bitrate_coding.2 40 1001 (show 1001 * 1000 ≤ (2 ^ 17 - 1) * 2 ^ (32 - 17) by decide)).le⟩

/-- 524286 bit/s has the exponent 1, 524287 bit/s the exponent 2. -/
theorem not_monotone : ¬ ∀ b c : UInt32, c ≤ b → rembDecoded c ≤ rembDecoded b := by
  intro h
  exact absurd (h 524287 524286 (by decide)) (by decide)

end RtcCore.L1.Rtcp
