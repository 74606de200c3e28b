import Mathlib.Data.List.Forall2
import RtcCore.L1Wire.IsacClipping

/-!
# The round trip of the spectrum coder

The encoder's value has a part that is wider than one unit. Between it and the
dither there may be parts that are empty, where the distribution is flat, and the
decoder that steps over one of them takes it for the end of the distribution. It
does not look at the two parts it starts from.

Results:
* `clip_farthest`: no wide part is between a value and what it is clipped to.
* `logisticSearch_eq`: the search finds the encoder's value, or an empty part before it.
* `multi2_iff`: the decoder returns the encoder's values exactly where no empty part
  lies on the way to a wide one, whatever follows the octets.
* `spectrum_exact`: the same of what the encoder leaves when it terminates.
-/
namespace RtcCore.L1.Isac

open RangeCoder

/-! ## Parts -/

section Parts

variable (e : UInt16) (x : Int)

/-- The part of `x` is wide enough for the encoder. -/
def Wide : Prop := (lowEnd e x).toNat + 1 < (highEnd e x).toNat

def Empty : Prop := lowEnd e x = highEnd e x

instance : Decidable (Wide e x) := inferInstanceAs (Decidable (_ < _))

instance : Decidable (Empty e x) := inferInstanceAs (Decidable (_ = _))

end Parts

variable {e : UInt16} {x y : Int}

/-- A part begins where the one before ends. -/
theorem lowEnd_add (e : UInt16) (x : Int) : lowEnd e (x + 128) = highEnd e x := by
  unfold lowEnd highEnd
  congr 2
  omega

theorem highEnd_sub (e : UInt16) (x : Int) : highEnd e (x - 128) = lowEnd e x := by
  unfold lowEnd highEnd
  congr 2
  omega

theorem empty_add : Empty e (y + 128) ↔ highEnd e y = highEnd e (y + 128) := by
  rw [Empty, lowEnd_add]

theorem empty_sub : Empty e (y - 128) ↔ lowEnd e y = lowEnd e (y - 128) := by
  rw [Empty, highEnd_sub, eq_comm]

theorem highEnd_le_lowEnd (h : x + 128 ≤ y) : (highEnd e x).toNat ≤ (lowEnd e y).toNat :=
  piecewise_mono (Int.mul_le_mul_of_nonneg_right (by omega) (Int.natCast_nonneg _))

theorem lowEnd_le_highEnd (e : UInt16) (x : Int) : (lowEnd e x).toNat ≤ (highEnd e x).toNat :=
  piecewise_mono (Int.mul_le_mul_of_nonneg_right (by omega) (Int.natCast_nonneg _))

/-- What `d` is clipped to is the first value from `d` towards zero that has a wide part. -/
structure Farthest (e : UInt16) (d d' : Int) : Prop where
  down : 0 < d → -64 ≤ d' ∧ d' ≤ d ∧ ∀ z, (z - d) % 128 = 0 → Wide e z → z ≤ d → z ≤ d'
  up : d ≤ 0 → d' ≤ 64 ∧ d ≤ d' ∧ ∀ z, (z - d) % 128 = 0 → Wide e z → d ≤ z → d' ≤ z

theorem Farthest.refl (e : UInt16) (d : Int) : Farthest e d d where
  down h := ⟨by omega, by omega, fun _ _ _ hz => hz⟩
  up h := ⟨by omega, by omega, fun _ _ _ hz => hz⟩

/-- A value whose part is not wide is moved by 128. -/
theorem Farthest.sub_128 {d d' : Int} (h : Farthest e (d - 128) d') (hd : 64 < d)
    (hn : ¬Wide e d) (hnear : d - 128 ≤ 0 → d' = d - 128) : Farthest e d d' where
  down _ := by
    have hlow : -64 ≤ d' ∧ d' ≤ d := by
      rcases Int.lt_or_le 0 (d - 128) with hp | hp
      · have := h.down hp
        omega
      · have := hnear hp
        omega
    refine ⟨hlow.1, hlow.2, fun z hz hw hle => ?_⟩
    have hne : z ≠ d := fun he => hn (he ▸ hw)
    rcases Int.lt_or_le 0 (d - 128) with hp | hp
    · exact (h.down hp).2.2 z (by omega) hw (by omega)
    · have := hnear hp
      omega
  up hd' := by omega

theorem Farthest.add_128 {d d' : Int} (h : Farthest e (d + 128) d') (hd : d < -64)
    (hn : ¬Wide e d) (hnear : 0 < d + 128 → d' = d + 128) : Farthest e d d' where
  down hd' := by omega
  up _ := by
    have hhigh : d' ≤ 64 ∧ d ≤ d' := by
      rcases Int.lt_or_le 0 (d + 128) with hp | hp
      · have := hnear hp
        omega
      · have := h.up hp
        omega
    refine ⟨hhigh.1, hhigh.2, fun z hz hw hle => ?_⟩
    have hne : z ≠ d := fun he => hn (he ▸ hw)
    rcases Int.lt_or_le 0 (d + 128) with hp | hp
    · have := hnear hp
      omega
    · exact (h.up hp).2.2 z (by omega) hw (by omega)

/-- Near zero the loop does not begin. -/
theorem clip_near {fuel : Nat} {d d' : Int16} {lo hi : UInt16} (he : 1 ≤ e.toNat)
    (h : -64 ≤ d.toInt) (h' : d.toInt ≤ 64)
    (hok : clip e fuel d (lowEnd e d.toInt) (highEnd e d.toInt) = .ok (d', lo, hi)) : d' = d := by
  cases fuel with
  | zero => exact nomatch hok
  | succ fuel =>
    rw [clip_wide (wide_of_near he h h')] at hok
    cases hok
    rfl

theorem clip_farthest {fuel : Nat} {d d' : Int16} {lo hi : UInt16} (he : 1 ≤ e.toNat)
    (hok : clip e fuel d (lowEnd e d.toInt) (highEnd e d.toInt) = .ok (d', lo, hi)) :
    Farthest e d.toInt d'.toInt := by
  induction fuel generalizing d with
  | zero => exact nomatch hok
  | succ fuel ih =>
    by_cases hwide : Wide e d.toInt
    · rw [clip_wide hwide] at hok
      cases hok
      exact Farthest.refl e _
    · have hnarrow := hwide
      unfold Wide at hnarrow
      have hfar : ¬(-64 ≤ d.toInt ∧ d.toInt ≤ 64) := fun hc => hwide (wide_of_near he hc.1 hc.2)
      rcases Int.lt_or_le 0 d.toInt with hd | hd
      · have hsub := toInt_sub_128 hd
        rw [clip_down (by omega) hd, ← highEnd_sub_128 hd] at hok
        have hrest := ih hok
        rw [hsub] at hrest
        refine hrest.sub_128 (by omega) hwide fun hle => ?_
        rw [clip_near he (by omega) (by omega) hok, hsub]
      · have hadd := toInt_add_128 hd
        rw [clip_up (by omega) hd, ← lowEnd_add_128 hd] at hok
        have hrest := ih hok
        rw [hadd] at hrest
        refine hrest.add_128 (by omega) hwide fun hle => ?_
        rw [clip_near he (by omega) (by omega) hok, hadd]

/-! ## The search -/

variable {w v : UInt32} {c : Int16}

theorem scale_lt (hw : 2 ^ 24 ≤ w.toNat) {a b : UInt16} (h : a.toNat < b.toNat) :
    (scale w a).toNat + 256 ≤ (scale w b).toNat := by
  have hpair : [a, b].Pairwise (· < ·) := List.pairwise_pair.2 (UInt16.lt_iff_toNat_lt.2 h)
  have hlt := @threshold_lt w hw [a, b] hpair 0 1 Nat.one_pos (Nat.lt_succ_self 1)
  simp only [threshold, List.getD_cons_zero, List.getD_cons_succ] at hlt
  exact hlt

theorem scale_le (hw : 2 ^ 24 ≤ w.toNat) {a b : UInt16} (h : a.toNat ≤ b.toNat) :
    (scale w a).toNat ≤ (scale w b).toNat := by
  rcases Nat.lt_or_eq_of_le h with hlt | heq
  · have := scale_lt hw hlt
    omega
  · rw [UInt16.toNat_inj.1 heq]

theorem scale_inj (hw : 2 ^ 24 ≤ w.toNat) {a b : UInt16} : scale w a = scale w b ↔ a = b := by
  refine ⟨fun h => ?_, fun h => by rw [h]⟩
  rcases Nat.lt_trichotomy a.toNat b.toNat with hlt | heq | hgt
  · have := scale_lt hw hlt
    rw [h] at this
    omega
  · exact UInt16.toNat_inj.1 heq
  · have := scale_lt hw hgt
    rw [h] at this
    omega

theorem bound_high (h : c.toInt = x + 64) : bound w e c = scale w (highEnd e x) := by
  have hlt := c.toInt_lt
  have hle := c.le_toInt
  unfold bound highEnd
  rw [mul_eq hle hlt, h]

theorem bound_low (h : c.toInt = x - 64) : bound w e c = scale w (lowEnd e x) := by
  have hlt := c.toInt_lt
  have hle := c.le_toInt
  unfold bound lowEnd
  rw [mul_eq hle hlt, h]

/-- The stream's number is in the part of `x`. -/
structure InPart (w : UInt32) (e : UInt16) (v : UInt32) (x : Int) : Prop where
  above : scale w (lowEnd e x) < v
  upto : v ≤ scale w (highEnd e x)

theorem InPart.not_empty (h : InPart w e v x) : ¬Empty e x := fun he => by
  have hlt := UInt32.lt_of_lt_of_le h.above h.upto
  rw [he] at hlt
  exact UInt32.lt_irrefl _ hlt

theorem InPart.above_high (h : InPart w e v x) (hw : 2 ^ 24 ≤ w.toNat) (hy : y + 128 ≤ x) :
    scale w (highEnd e y) < v :=
  UInt32.lt_iff_toNat_lt.2 (Nat.lt_of_le_of_lt (scale_le hw (highEnd_le_lowEnd hy))
    (UInt32.lt_iff_toNat_lt.1 h.above))

theorem InPart.upto_low (h : InPart w e v x) (hw : 2 ^ 24 ≤ w.toNat) (hy : x + 128 ≤ y) :
    v ≤ scale w (lowEnd e y) :=
  UInt32.le_iff_toNat_le.2 (Nat.le_trans (UInt32.le_iff_toNat_le.1 h.upto)
    (scale_le hw (highEnd_le_lowEnd hy)))

/-- An empty part strictly between. -/
def EmptyBetween (e : UInt16) (x lo hi : Int) : Prop :=
  ∃ z, (z - x) % 128 = 0 ∧ lo < z ∧ z < hi ∧ Empty e z

theorem emptyBetween_up (hy : (y - x) % 128 = 0) (hlt : y + 128 < x) :
    EmptyBetween e x y x ↔ Empty e (y + 128) ∨ EmptyBetween e x (y + 128) x := by
  constructor
  · rintro ⟨z, hz, hlo, hhi, hempty⟩
    by_cases heq : z = y + 128
    · exact .inl (heq ▸ hempty)
    · exact .inr ⟨z, hz, by omega, hhi, hempty⟩
  · rintro (h | ⟨z, hz, hlo, hhi, hempty⟩)
    · exact ⟨y + 128, by omega, by omega, hlt, h⟩
    · exact ⟨z, hz, by omega, hhi, hempty⟩

theorem emptyBetween_down (hy : (y - x) % 128 = 0) (hlt : x < y - 128) :
    EmptyBetween e x x y ↔ Empty e (y - 128) ∨ EmptyBetween e x x (y - 128) := by
  constructor
  · rintro ⟨z, hz, hlo, hhi, hempty⟩
    by_cases heq : z = y - 128
    · exact .inl (heq ▸ hempty)
    · exact .inr ⟨z, hz, hlo, by omega, hempty⟩
  · rintro (h | ⟨z, hz, hlo, hhi, hempty⟩)
    · exact ⟨y - 128, by omega, hlt, by omega, h⟩
    · exact ⟨z, hz, hlo, by omega, hempty⟩

variable {d : Int16}

theorem add_128_toInt (h : c.toInt = x) (hx : -32768 ≤ x) (hx' : x + 128 < 32768) :
    (c + 128).toInt = x + 128 := by
  rw [Int16.toInt_add, show (128 : Int16).toInt = 128 from rfl, Int.bmod_def]
  omega

theorem sub_128_toInt (h : c.toInt = x) (hx : -32768 ≤ x - 128) (hx' : x < 32768) :
    (c - 128).toInt = x - 128 := by
  rw [Int16.toInt_sub, show (128 : Int16).toInt = 128 from rfl, Int.bmod_def]
  omega

theorem sub_64_eq (h : c.toInt = d.toInt + 64) : c - 64 = d := by
  have hlt := d.toInt_lt
  have hle := d.le_toInt
  refine Int16.toInt_inj.1 ?_
  rw [Int16.toInt_sub, show (64 : Int16).toInt = 64 from rfl, Int.bmod_def]
  omega

theorem add_64_eq (h : c.toInt = d.toInt - 64) : c + 64 = d := by
  have hlt := d.toInt_lt
  have hle := d.le_toInt
  refine Int16.toInt_inj.1 ?_
  rw [Int16.toInt_add, show (64 : Int16).toInt = 64 from rfl, Int.bmod_def]
  omega

/-- What the search returns at the value `d`. -/
def foundAt (w : UInt32) (e : UInt16) (d : Int16) : Int16 × UInt32 × UInt32 :=
  (d, scale w (lowEnd e d.toInt), scale w (highEnd e d.toInt))

/-- From `y`, which is `n` parts below. -/
theorem searchUp_eq (hw : 2 ^ 24 ≤ w.toNat) (hin : InPart w e v d.toInt)
    (hd : d.toInt + 64 ≤ 32767) {n fuel : Nat} (hn : d.toInt = y + 128 * n) (hfuel : n < fuel)
    (hc : c.toInt = y + 64) :
    (EmptyBetween e d.toInt y d.toInt →
      searchUp w e v fuel c (scale w (lowEnd e y)) (scale w (highEnd e y)) =
        .error (.code (-1))) ∧
    (¬EmptyBetween e d.toInt y d.toInt →
      searchUp w e v fuel c (scale w (lowEnd e y)) (scale w (highEnd e y)) =
        .ok (foundAt w e d)) := by
  induction fuel generalizing n y c with
  | zero => omega
  | succ fuel ih =>
    cases n with
    | zero =>
      obtain rfl : y = d.toInt := by omega
      have hstop : ¬scale w (highEnd e d.toInt) < v := UInt32.not_lt.2 hin.upto
      refine ⟨fun ⟨z, _, hlo, hhi, _⟩ => by omega, fun _ => ?_⟩
      rw [searchUp, if_neg hstop, sub_64_eq hc]
      rfl
    | succ n =>
      have hle := c.le_toInt
      have hnext := add_128_toInt hc (by omega) (by omega)
      rw [show y + 64 + 128 = y + 128 + 64 by omega] at hnext
      have hgo : scale w (highEnd e y) < v := hin.above_high hw (by omega)
      have hstep : searchUp w e v (fuel + 1) c (scale w (lowEnd e y)) (scale w (highEnd e y)) =
          if Empty e (y + 128) then .error (.code (-1))
          else searchUp w e v fuel (c + 128) (scale w (lowEnd e (y + 128)))
            (scale w (highEnd e (y + 128))) := by
        rw [searchUp, if_pos hgo]
        dsimp only
        rw [bound_high hnext, lowEnd_add e y]
        exact if_congr ((scale_inj hw).trans empty_add.symm) rfl rfl
      obtain ⟨hblocked, hfound⟩ := @ih (y + 128) (c + 128) n (by omega) (by omega) hnext
      rw [hstep]
      by_cases hlast : y + 128 = d.toInt
      · have hne : ¬Empty e (y + 128) := hlast ▸ hin.not_empty
        rw [if_neg hne]
        have hnone (lo : Int) (hlo : y ≤ lo) : ¬EmptyBetween e d.toInt lo d.toInt :=
          fun ⟨z, hz, hlo, hhi, _⟩ => by omega
        exact ⟨fun h => absurd h (hnone y (Int.le_refl y)), fun _ => hfound (hnone _ (by omega))⟩
      · rw [emptyBetween_up (by omega) (by omega)]
        by_cases hempty : Empty e (y + 128)
        · rw [if_pos hempty]
          exact ⟨fun _ => rfl, fun h => absurd (.inl hempty) h⟩
        · rw [if_neg hempty]
          refine ⟨fun h => hblocked (h.resolve_left hempty), fun h => hfound fun hc => h (.inr hc)⟩

/-- From `y`, which is `n` parts above. -/
theorem searchDown_eq (hw : 2 ^ 24 ≤ w.toNat) (hin : InPart w e v d.toInt)
    (hd : -32768 ≤ d.toInt - 64) {n fuel : Nat} (hn : y = d.toInt + 128 * n) (hfuel : n < fuel)
    (hc : c.toInt = y - 64) :
    (EmptyBetween e d.toInt d.toInt y →
      searchDown w e v fuel c (scale w (highEnd e y)) (scale w (lowEnd e y)) =
        .error (.code (-1))) ∧
    (¬EmptyBetween e d.toInt d.toInt y →
      searchDown w e v fuel c (scale w (highEnd e y)) (scale w (lowEnd e y)) =
        .ok (foundAt w e d)) := by
  induction fuel generalizing n y c with
  | zero => omega
  | succ fuel ih =>
    cases n with
    | zero =>
      obtain rfl : y = d.toInt := by omega
      have hstop : ¬v ≤ scale w (lowEnd e d.toInt) := UInt32.not_le.2 hin.above
      refine ⟨fun ⟨z, _, hlo, hhi, _⟩ => by omega, fun _ => ?_⟩
      rw [searchDown, if_neg hstop, add_64_eq hc]
      rfl
    | succ n =>
      have hlt := c.toInt_lt
      have hnext := sub_128_toInt hc (by omega) (by omega)
      rw [show y - 64 - 128 = y - 128 - 64 by omega] at hnext
      have hgo : v ≤ scale w (lowEnd e y) := hin.upto_low hw (by omega)
      have hstep : searchDown w e v (fuel + 1) c (scale w (highEnd e y)) (scale w (lowEnd e y)) =
          if Empty e (y - 128) then .error (.code (-1))
          else searchDown w e v fuel (c - 128) (scale w (highEnd e (y - 128)))
            (scale w (lowEnd e (y - 128))) := by
        rw [searchDown, if_pos hgo]
        dsimp only
        rw [bound_low hnext, highEnd_sub e y]
        exact if_congr ((scale_inj hw).trans empty_sub.symm) rfl rfl
      obtain ⟨hblocked, hfound⟩ := @ih (y - 128) (c - 128) n (by omega) (by omega) hnext
      rw [hstep]
      by_cases hlast : y - 128 = d.toInt
      · have hne : ¬Empty e (y - 128) := hlast ▸ hin.not_empty
        rw [if_neg hne]
        have hnone (hi : Int) (hhi : hi ≤ y) : ¬EmptyBetween e d.toInt d.toInt hi :=
          fun ⟨z, hz, hlo, hhi, _⟩ => by omega
        exact ⟨fun h => absurd h (hnone y (Int.le_refl y)), fun _ => hfound (hnone _ (by omega))⟩
      · rw [emptyBetween_down (by omega) (by omega)]
        by_cases hempty : Empty e (y - 128)
        · rw [if_pos hempty]
          exact ⟨fun _ => rfl, fun h => absurd (.inl hempty) h⟩
        · rw [if_neg hempty]
          refine ⟨fun h => hblocked (h.resolve_left hempty), fun h => hfound fun hc => h (.inr hc)⟩

/-- An empty part lies between the two that the search begins with and `x`. -/
def Halted (e : UInt16) (dither x : Int) : Prop :=
  EmptyBetween e x (-dither + 128) x ∨ EmptyBetween e x x (-dither)

theorem logisticSearch_eq {s : BitstrDec} {dither : Int16} (hw : 2 ^ 24 ≤ s.wUpper.toNat)
    (hin : InPart s.wUpper e s.streamval d.toInt) (hd : d.toInt.natAbs + 64 ≤ 32767)
    (hnear : dither.toInt.natAbs ≤ 64) (hcongr : (d.toInt + dither.toInt) % 128 = 0) :
    (Halted e dither.toInt d.toInt → logisticSearch s e dither = .error (.code (-1))) ∧
    (¬Halted e dither.toInt d.toInt →
      logisticSearch s e dither = .ok (foundAt s.wUpper e d)) := by
  have hstart : (-dither + 64).toInt = -dither.toInt + 64 := by
    rw [Int16.toInt_add, Int16.toInt_neg, show (64 : Int16).toInt = 64 from rfl, Int.bmod_def,
      Int.bmod_def]
    omega
  unfold logisticSearch Halted
  dsimp only
  rw [bound_high hstart]
  by_cases hup : -dither.toInt + 128 ≤ d.toInt
  · have hnext := add_128_toInt hstart (by omega) (by omega)
    rw [show -dither.toInt + 64 + 128 = -dither.toInt + 128 + 64 by omega] at hnext
    have hdown : ¬EmptyBetween e d.toInt d.toInt (-dither.toInt) :=
      fun ⟨z, _, hlo, hhi, _⟩ => by omega
    rw [if_pos (hin.above_high hw hup), bound_high hnext, ← lowEnd_add e (-dither.toInt),
      or_iff_left hdown]
    obtain ⟨n, hn⟩ : ∃ n : Nat, d.toInt = -dither.toInt + 128 + 128 * n :=
      ⟨((d.toInt + dither.toInt - 128) / 128).toNat, by omega⟩
    exact searchUp_eq hw hin (by omega) hn (by omega) hnext
  · have hnext := sub_128_toInt hstart (by omega) (by omega)
    rw [show -dither.toInt + 64 - 128 = -dither.toInt - 64 by omega] at hnext
    have hstop : ¬scale s.wUpper (highEnd e (-dither.toInt)) < s.streamval := by
      rw [UInt32.not_lt]
      by_cases heq : d.toInt = -dither.toInt
      · rw [← heq]
        exact hin.upto
      · exact UInt32.le_iff_toNat_le.2 (Nat.le_trans
          (UInt32.le_iff_toNat_le.1 (hin.upto_low hw (y := -dither.toInt) (by omega)))
          (scale_le hw (lowEnd_le_highEnd e _)))
    have hupper : ¬EmptyBetween e d.toInt (-dither.toInt + 128) d.toInt :=
      fun ⟨z, _, hlo, hhi, _⟩ => by omega
    rw [if_neg hstop, bound_low hnext, or_iff_right hupper]
    obtain ⟨n, hn⟩ : ∃ n : Nat, -dither.toInt = d.toInt + 128 * n :=
      ⟨((-dither.toInt - d.toInt) / 128).toNat, by omega⟩
    exact searchDown_eq hw hin (by omega) hn (by omega) hnext

/-! ## Coefficients -/

/-- A value with its envelope and the dither that it is decoded from. -/
structure Coefficient where
  envQ8 : UInt16
  dataQ7 : Int16
  dither : Int16
  pos : 1 ≤ envQ8.toNat
  inside : dataQ7.toInt.natAbs + 64 ≤ 32767
  near : dither.toInt.natAbs ≤ 64
  congr : (dataQ7.toInt + dither.toInt) % 128 = 0

/-- Farther out than the two parts that the search begins with there is an empty part, and still
farther, up to the value, a wide one. -/
def Coefficient.Interrupted (c : Coefficient) : Prop :=
  ∃ y z, (y - c.dataQ7.toInt) % 128 = 0 ∧ (z - c.dataQ7.toInt) % 128 = 0 ∧
    Empty c.envQ8 y ∧ Wide c.envQ8 z ∧
    (-c.dither.toInt + 128 < y ∧ y < z ∧ z ≤ c.dataQ7.toInt ∨
      c.dataQ7.toInt ≤ z ∧ z < y ∧ y < -c.dither.toInt)

/-- Near the dither there is no room for the two. -/
theorem Coefficient.not_interrupted (c : Coefficient)
    (hlo : -256 < c.dataQ7.toInt + c.dither.toInt) (hhi : c.dataQ7.toInt + c.dither.toInt < 384) :
    ¬c.Interrupted := by
  have hcongr := c.congr
  rintro ⟨y, z, hy, hz, -, -, h⟩
  omega

/-- What the encoder makes of a coefficient. -/
structure Part where
  coefficient : Coefficient
  dataQ7 : Int16
  lo : UInt16
  hi : UInt16
  clipped : Clipped coefficient.envQ8 coefficient.dataQ7 dataQ7 lo hi
  farthest : Farthest coefficient.envQ8 coefficient.dataQ7.toInt dataQ7.toInt

namespace Part

variable (p : Part)

def symbol : Symbol := Symbol.ofPart p.lo p.hi p.clipped.lt

/-- The search for the value does not get there. -/
def Halts : Prop := Halted p.coefficient.envQ8 p.coefficient.dither.toInt p.dataQ7.toInt

theorem wide : Wide p.coefficient.envQ8 p.dataQ7.toInt := by
  have hwide := p.clipped.wide
  rw [p.clipped.low, p.clipped.high] at hwide
  exact hwide

theorem halts_iff : p.Halts ↔ p.coefficient.Interrupted := by
  have hnear := p.coefficient.near
  have hcongr := p.coefficient.congr
  have hsame := p.clipped.congr
  have hdown := p.farthest.down
  have hup := p.farthest.up
  constructor
  · rintro (⟨y, hy, hlo, hhi, hempty⟩ | ⟨y, hy, hlo, hhi, hempty⟩)
    · refine ⟨y, p.dataQ7.toInt, by omega, hsame, hempty, p.wide, .inl ⟨hlo, hhi, ?_⟩⟩
      rcases Int.lt_or_le 0 p.coefficient.dataQ7.toInt with hd | hd
      · exact (hdown hd).2.1
      · have := (hup hd).1
        omega
    · refine ⟨y, p.dataQ7.toInt, by omega, hsame, hempty, p.wide, .inr ⟨?_, hlo, hhi⟩⟩
      rcases Int.lt_or_le 0 p.coefficient.dataQ7.toInt with hd | hd
      · have := (hdown hd).1
        omega
      · exact (hup hd).2.1
  · rintro ⟨y, z, hy, hz, hempty, hwide, ⟨hlo, hlt, hle⟩ | ⟨hle, hlt, hhi⟩⟩
    · have := (hdown (by omega)).2.2 z hz hwide hle
      exact .inl ⟨y, by omega, hlo, by omega, hempty⟩
    · have := (hup (by omega)).2.2 z hz hwide hle
      exact .inr ⟨y, by omega, by omega, hhi, hempty⟩

theorem near : p.dataQ7.toInt.natAbs + 64 ≤ 32767 := by
  have hnear := p.clipped.near
  have hinside := p.coefficient.inside
  omega

theorem congr : (p.dataQ7.toInt + p.coefficient.dither.toInt) % 128 = 0 := by
  have hsame := p.clipped.congr
  have hcongr := p.coefficient.congr
  omega

end Part

theorem exists_part (c : Coefficient) :
    ∃ p : Part, p.coefficient = c ∧
      clip c.envQ8 512 c.dataQ7 (piecewise (WEBRTC_SPL_MUL_16_U16 (c.dataQ7.toInt - 64) c.envQ8))
        (piecewise (WEBRTC_SPL_MUL_16_U16 (c.dataQ7.toInt + 64) c.envQ8)) =
          .ok (p.dataQ7, p.lo, p.hi) := by
  have hinside := c.inside
  obtain ⟨d', lo, hi, hok, hclipped⟩ := clip_spec c.pos c.dataQ7
  have hends := hok
  rw [lowEnd_eq (by omega), highEnd_eq (by omega)] at hends
  exact ⟨⟨c, d', lo, hi, hclipped, clip_farthest c.pos hends⟩, rfl, hok⟩

/-- The encoder's call is one of the histogram coder for the parts. -/
theorem encLogisticValues_parts (cs : List Coefficient) :
    ∃ ps : List Part, ps.map Part.coefficient = cs ∧
      ∀ envQ8 k s, (∀ j c, cs[j]? = some c → envQ8[(k + j) / 4]? = some c.envQ8) →
        encLogisticValues envQ8 k (k / 4) (cs.map Coefficient.dataQ7) s =
          encHistMulti s (ps.map fun p => p.symbol.input) >>= fun s =>
            .ok (ps.map Part.dataQ7, s) := by
  induction cs with
  | nil => exact ⟨[], rfl, fun envQ8 k s _ => rfl⟩
  | cons c cs ih =>
    obtain ⟨ps, hps, henc⟩ := ih
    obtain ⟨p, hp, hclip⟩ := exists_part c
    refine ⟨p :: ps, by rw [List.map_cons, hps, hp], fun envQ8 k s henv => ?_⟩
    have hload : load envQ8 (k / 4) = .ok c.envQ8 := by
      have hfirst := henv 0 c rfl
      rw [Nat.add_zero] at hfirst
      rw [load, hfirst]
    have hrest (j : Nat) (c' : Coefficient) (hj : cs[j]? = some c') :
        envQ8[(k + 1 + j) / 4]? = some c'.envQ8 := by
      rw [Nat.add_assoc, Nat.add_comm 1 j]
      exact henv (j + 1) c' hj
    simp only [List.map_cons, encLogisticValues, hload, ok_bind, hclip, env_step,
      encPart_eq _ p.clipped.lt]
    unfold encHistMulti at henc ⊢
    rw [List.foldlM_cons]
    cases hsym : encSymbol s (Symbol.ofPart p.lo p.hi p.clipped.lt).data
        (Symbol.ofPart p.lo p.hi p.clipped.lt).cdf with
    | error err =>
      simp only [Part.symbol, Symbol.input, hsym, error_bind]
    | ok s₁ =>
      simp only [Part.symbol, Symbol.input, hsym, ok_bind] at henc ⊢
      rw [henc envQ8 (k + 1) s₁ hrest, bind_assoc]
      rfl

/-! ## A stream of a given size -/

variable {ws pw : List UInt16} {s s' : BitstrEnc}

/-- The stream as the decoder sees it: zeros from its size on, but for the two words that are read
before. -/
def seen (streamSize : Nat) (ws : List UInt16) : List UInt16 :=
  (List.range ws.length).map fun i => if i < max 2 streamSize then ws.getD i 0 else 0

theorem seen_length (n : Nat) (ws : List UInt16) : (seen n ws).length = ws.length := by
  simp [seen]

theorem seen_getD {n i : Nat} (hi : i < ws.length) :
    (seen n ws).getD i 0 = if i < max 2 n then ws.getD i 0 else 0 := by
  rw [List.getD_eq_getElem?_getD, seen, List.getElem?_map, List.getElem?_range hi]
  rfl

theorem seen_octet {n j : Nat} (hj : j < 2 * n) (hl : j / 2 < ws.length) :
    octet (seen n ws) j = octet ws j := by
  have hin : j / 2 < max 2 n := by omega
  unfold octet
  rw [seen_getD hl, if_pos hin]

theorem load_inside {i : Nat} {w : UInt16} (h : load ws i = .ok w) :
    i < ws.length ∧ w = ws.getD i 0 := by
  by_cases hi : i < ws.length
  · rw [load_eq hi] at h
    cases h
    exact ⟨hi, rfl⟩
  · rw [load, List.getElem?_eq_none (Nat.not_lt.1 hi)] at h
    exact nomatch h

/-- Reading from the stream as it is seen. -/
def BitstrDec.sees (d : BitstrDec) (n : Nat) : BitstrDec := { d with stream := seen n d.stream }

theorem readByteOrZero_eq {n : Nat} {d d' : BitstrDec} (hi : 2 ≤ d.streamIndex)
    (hok : readByte (d.sees n) = .ok d') :
    ∃ d₁, readByteOrZero n d = .ok d₁ ∧ d₁.sees n = d' ∧ d₁.stream = d.stream ∧
      2 ≤ d₁.streamIndex := by
  obtain ⟨w, hload, hok⟩ := bind_ok hok
  obtain ⟨hin, rfl⟩ := load_inside hload
  have hlen : d.streamIndex < d.stream.length := seen_length n d.stream ▸ hin
  have hw : (d.sees n).stream.getD (d.sees n).streamIndex 0 =
      if d.streamIndex < max 2 n then d.stream.getD d.streamIndex 0 else 0 := seen_getD hlen
  rw [hw] at hok
  unfold readByteOrZero
  by_cases hsize : d.streamIndex < n
  · have hm : d.streamIndex < max 2 n := by omega
    rw [if_pos hm] at hok
    rw [if_pos hsize]
    cases hf : d.full with
    | true =>
      simp only [BitstrDec.sees, hf, if_true] at hok
      cases hok
      simp only [readByte, load_eq hlen, ok_bind, hf, if_true]
      exact ⟨_, rfl, rfl, rfl, hi⟩
    | false =>
      simp only [BitstrDec.sees, hf, Bool.false_eq_true, if_false] at hok
      cases hok
      simp only [readByte, load_eq hlen, ok_bind, hf, Bool.false_eq_true, if_false]
      exact ⟨_, rfl, rfl, rfl, Nat.le_succ_of_le hi⟩
  · have hm : ¬d.streamIndex < max 2 n := by omega
    rw [if_neg hm] at hok
    rw [if_neg hsize]
    cases hf : d.full with
    | true =>
      simp only [BitstrDec.sees, hf, if_true] at hok
      cases hok
      exact ⟨_, rfl, by simp [BitstrDec.sees], rfl, hi⟩
    | false =>
      simp only [BitstrDec.sees, hf, Bool.false_eq_true, if_false] at hok
      cases hok
      exact ⟨_, rfl, by simp [BitstrDec.sees], rfl, Nat.le_succ_of_le hi⟩

theorem decLogisticRenormalize_eq {n fuel : Nat} {d d' : BitstrDec} (hi : 2 ≤ d.streamIndex)
    (hok : decRenormalize fuel (d.sees n) = .ok d') :
    ∃ d₁, decLogisticRenormalize n fuel d = .ok d₁ ∧ d₁.sees n = d' ∧ d₁.stream = d.stream := by
  induction fuel generalizing d with
  | zero => exact nomatch hok
  | succ fuel ih =>
    unfold decRenormalize at hok
    unfold decLogisticRenormalize
    by_cases hsmall : d.wUpper &&& 0xFF000000 = 0
    · rw [if_pos (show (d.sees n).wUpper &&& 0xFF000000 = 0 from hsmall)] at hok
      rw [if_pos hsmall]
      obtain ⟨d₂, hread, hok⟩ := bind_ok hok
      obtain ⟨d₁, hz, rfl, hst, hi₁⟩ := readByteOrZero_eq hi hread
      obtain ⟨d₃, hrest, hsees, hst'⟩ := ih hi₁ hok
      rw [hz, ok_bind]
      exact ⟨d₃, hrest, hsees, hst'.trans hst⟩
    · rw [if_neg (show ¬(d.sees n).wUpper &&& 0xFF000000 = 0 from hsmall)] at hok
      rw [if_neg hsmall]
      cases hok
      exact ⟨d, rfl, rfl, rfl⟩

/-! ## The decoder's call -/

/-- One value after the other, each with its own envelope. -/
def decCoefficients (streamSize : Nat) :
    List Coefficient → BitstrDec → Except Failure (List Int16 × BitstrDec)
  | [], s => return ([], s)
  | c :: cs, s => do
    let (dataQ7, wLower, wUpper) ← logisticSearch s c.envQ8 c.dither
    let s ← decLogisticRenormalize streamSize (2 * INTERNAL_STREAM_SIZE_W16 + 2)
      { s with wUpper := wUpper - (wLower + 1), streamval := s.streamval - (wLower + 1) }
    let (rest, s) ← decCoefficients streamSize cs s
    return (dataQ7 :: rest, s)

theorem decLogisticValues_eq {n : Nat} {cs : List Coefficient} (h : ∀ c ∈ cs, c.envQ8 = e)
    (d : BitstrDec) :
    decLogisticValues n e (cs.map Coefficient.dither) d = decCoefficients n cs d := by
  induction cs generalizing d with
  | nil => rfl
  | cons c cs ih =>
    have hrest := ih fun c' hc => h c' (List.mem_cons_of_mem c hc)
    simp only [List.map_cons, decLogisticValues, decCoefficients, hrest, h c List.mem_cons_self]

theorem decCoefficients_append (n : Nat) (as bs : List Coefficient) (d : BitstrDec) :
    decCoefficients n (as ++ bs) d = decCoefficients n as d >>= fun r =>
      decCoefficients n bs r.2 >>= fun r' => .ok (r.1 ++ r'.1, r'.2) := by
  induction as generalizing d with
  | nil =>
    simp only [List.nil_append, decCoefficients, pure_bind]
    cases decCoefficients n bs d <;> rfl
  | cons c as ih =>
    simp only [List.cons_append, decCoefficients, ih, bind_assoc, pure_bind]
    rfl

/-- Four coefficients, and what the decoder has for their envelope. -/
structure Band where
  envQ8 : UInt16
  square : Int32
  coefficients : List Coefficient
  same : ∀ c ∈ coefficients, c.envQ8 = envQ8
  four : coefficients.length = 4

def Band.dithers (b : Band) : Dithers where
  envQ8 := b.square
  dataQ7 := b.coefficients.map Coefficient.dither
  four := by rw [List.length_map, b.four]

/-- The square roots are the envelopes that the encoder has. -/
def Yields : Int → List Band → Prop
  | _, [] => True
  | res, b :: rest => ∃ res', squareRoot res b.square = .ok (res', b.envQ8) ∧ Yields res' rest

theorem decLogisticBands_eq {n : Nat} {res : Int} {bands : List Band} (h : Yields res bands)
    (d : BitstrDec) :
    decLogisticBands n res (bands.map Band.dithers) d =
      decCoefficients n (bands.flatMap Band.coefficients) d := by
  induction bands generalizing res d with
  | nil => rfl
  | cons b bands ih =>
    obtain ⟨res', hroot, hrest⟩ := h
    have hvalues := decLogisticValues_eq (n := n) b.same
    rw [List.flatMap_cons, decCoefficients_append, List.map_cons, decLogisticBands]
    simp only [Band.dithers, hroot, ok_bind, hvalues]
    refine bind_congr fun r => ?_
    rw [← ih hrest r.2]
    rfl

/-- The envelope of a coefficient is in the list at its place divided by four. -/
theorem envelope_of_band {bands : List Band} {j : Nat} {c : Coefficient}
    (h : (bands.flatMap Band.coefficients)[j]? = some c) :
    (bands.map Band.envQ8)[j / 4]? = some c.envQ8 := by
  induction bands generalizing j with
  | nil => exact nomatch h
  | cons b bands ih =>
    have hfour := b.four
    rw [List.flatMap_cons] at h
    rw [List.map_cons]
    rcases Nat.lt_or_ge j 4 with hj | hj
    · rw [List.getElem?_append_left (by omega)] at h
      rw [Nat.div_eq_of_lt hj, List.getElem?_cons_zero, b.same c (List.mem_of_getElem? h)]
    · rw [List.getElem?_append_right (by omega), hfour] at h
      rw [show j / 4 = (j - 4) / 4 + 1 by omega, List.getElem?_cons_succ]
      exact ih h

/-! ## Encoder and decoder -/

variable {n : Nat} {d : BitstrDec} {p : Part} {ps : List Part}

theorem Part.lower_eq (p : Part) (w : UInt32) :
    p.symbol.lower w = scale w (lowEnd p.coefficient.envQ8 p.dataQ7.toInt) := by
  rw [Symbol.lower, Part.symbol, (Symbol.ofPart_getD p.clipped.lt).1, p.clipped.low]

theorem Part.upper_eq (p : Part) (w : UInt32) :
    p.symbol.upper w = scale w (highEnd p.coefficient.envQ8 p.dataQ7.toInt) := by
  rw [Symbol.upper, Part.symbol, (Symbol.ofPart_getD p.clipped.lt).2, p.clipped.high]

theorem Part.inPart {w v : UInt32} (h : Slot (threshold w p.symbol.cdf) p.symbol.index v.toNat) :
    InPart w p.coefficient.envQ8 v p.dataQ7.toInt := by
  obtain ⟨hlo, hhi⟩ := h
  refine ⟨?_, ?_⟩
  · rw [← p.lower_eq w]
    exact UInt32.lt_iff_toNat_lt.2 hlo
  · rw [← p.upper_eq w]
    exact UInt32.le_iff_toNat_le.2 hhi

theorem Follows.two_le (h : Follows pw s d) : 2 ≤ d.streamIndex := by
  have hahead := h.ahead
  unfold filled at hahead
  split at hahead <;> omega

/-- One value: the search halts, or it finds the encoder's value and the decoder goes on behind the
encoder. -/
theorem Part.search_follows (hl : (seen n ws).length = INTERNAL_STREAM_SIZE_W16) (h : Ready s)
    (hok : encSymbol s p.symbol.data p.symbol.cdf = .ok s') (hfit : Fits (seen n ws) s')
    (hst : d.stream = ws) (hd : Follows (seen n ws) s (d.sees n)) :
    (p.Halts → logisticSearch d p.coefficient.envQ8 p.coefficient.dither = .error (.code (-1))) ∧
    (¬p.Halts →
      logisticSearch d p.coefficient.envQ8 p.coefficient.dither =
        .ok (foundAt d.wUpper p.coefficient.envQ8 p.dataQ7)) ∧
    ∃ d', decLogisticRenormalize n (2 * INTERNAL_STREAM_SIZE_W16 + 2)
        { d with
          wUpper := p.symbol.upper d.wUpper - (p.symbol.lower d.wUpper + 1)
          streamval := d.streamval - (p.symbol.lower d.wUpper + 1) } = .ok d' ∧
      d'.stream = ws ∧ Follows (seen n ws) s' (d'.sees n) := by
  obtain ⟨-, hdec⟩ := encSymbol_follows hl h.toEncInv h.width hok hfit
  obtain ⟨hslot, d₁, hshift, hd₁⟩ := hdec _ hd
  have hw : 2 ^ 24 ≤ d.wUpper.toNat := by
    have hwidth := h.width
    rw [← hd.wUpper] at hwidth
    exact hwidth
  obtain ⟨hhalt, hfound⟩ :=
    logisticSearch_eq hw (p.inPart hslot) p.near p.coefficient.near p.congr
  refine ⟨hhalt, hfound, ?_⟩
  obtain ⟨d', hren, hsees, hst'⟩ := decLogisticRenormalize_eq (n := n) (d := { d with
    wUpper := p.symbol.upper d.wUpper - (p.symbol.lower d.wUpper + 1)
    streamval := d.streamval - (p.symbol.lower d.wUpper + 1) }) hd.two_le hshift
  exact ⟨d', hren, hst'.trans hst, hsees ▸ hd₁⟩

theorem encHistMulti_parts_cons
    (hok : encHistMulti s ((p :: ps).map fun p => p.symbol.input) = .ok s') :
    ∃ s₁, encSymbol s p.symbol.data p.symbol.cdf = .ok s₁ ∧
      encHistMulti s₁ (ps.map fun p => p.symbol.input) = .ok s' := by
  unfold encHistMulti at hok
  rw [List.map_cons, List.foldlM_cons] at hok
  exact bind_ok hok

/-- The decoder's call: it stops at the first part whose search halts, and otherwise follows the
encoder to the end. -/
theorem decCoefficients_follows (hl : (seen n ws).length = INTERNAL_STREAM_SIZE_W16)
    (h : Ready s) (hok : encHistMulti s (ps.map fun p => p.symbol.input) = .ok s')
    (hfit : Fits (seen n ws) s') (hst : d.stream = ws) (hd : Follows (seen n ws) s (d.sees n)) :
    ((∃ p ∈ ps, p.Halts) →
      decCoefficients n (ps.map Part.coefficient) d = .error (.code (-1))) ∧
    ((∀ p ∈ ps, ¬p.Halts) → ∃ d',
      decCoefficients n (ps.map Part.coefficient) d = .ok (ps.map Part.dataQ7, d') ∧
        Follows (seen n ws) s' (d'.sees n)) := by
  induction ps generalizing s d with
  | nil =>
    cases hok
    exact ⟨fun ⟨p, hp, _⟩ => (nomatch hp), fun _ => ⟨d, rfl, hd⟩⟩
  | cons p ps ih =>
    obtain ⟨s₁, hs, hrest⟩ := encHistMulti_parts_cons hok
    have h₁ := encSymbol_ready h hs
    have hsymbols : encHistMulti s₁ ((ps.map Part.symbol).map Symbol.input) = .ok s' := by
      rw [List.map_map]
      exact hrest
    obtain ⟨hhalt, hfound, d₁, hren, hst₁, hd₁⟩ := p.search_follows hl h hs
      (encHistMulti_fits hl h₁ hsymbols hfit) hst hd
    obtain ⟨hstop, hgo⟩ := ih h₁ hrest hst₁ hd₁
    by_cases hp : p.Halts
    · have herror : decCoefficients n ((p :: ps).map Part.coefficient) d =
          .error (.code (-1)) := by
        rw [List.map_cons, decCoefficients, hhalt hp, error_bind]
      exact ⟨fun _ => herror, fun hno => absurd hp (hno p List.mem_cons_self)⟩
    · have hstep : decCoefficients n ((p :: ps).map Part.coefficient) d =
          decCoefficients n (ps.map Part.coefficient) d₁ >>= fun r =>
            .ok (p.dataQ7 :: r.1, r.2) := by
        rw [List.map_cons, decCoefficients, hfound hp, ok_bind, foundAt, ← p.lower_eq,
          ← p.upper_eq]
        dsimp only
        rw [hren, ok_bind]
        rfl
      rw [hstep]
      constructor
      · rintro ⟨q, hq, hhalts⟩
        rcases List.mem_cons.1 hq with rfl | hq
        · exact absurd hhalts hp
        · rw [hstop ⟨q, hq, hhalts⟩, error_bind]
      · intro hno
        obtain ⟨d', hdec, hd'⟩ := hgo fun q hq => hno q (List.mem_cons_of_mem p hq)
        rw [hdec, ok_bind]
        exact ⟨d', rfl, hd'⟩

/-- What `encTerminate` writes puts the number in the interval, whatever is behind. -/
theorem fits_of_terminate (h : Ready s) {m : Nat} {written : List UInt16}
    (hterm : encTerminate s = .ok (m, written)) (hoctets : ∀ j < m, octet pw j = octet written j) :
    Fits pw s ∧ m = s.octets + if 0x01FFFFFF < s.wUpper then 1 else 2 := by
  obtain ⟨k, hk, hm, hcode⟩ := encTerminate_spec h.toEncInv h.width hterm
  refine ⟨?_, by rw [hm, hk]⟩
  have hsame : code pw m = code written m := value_congr hoctets
  rw [hcode, hm] at hsame
  have hw := h.width
  by_cases hbig : 0x01FFFFFF < s.wUpper
  · rw [if_pos hbig] at hk
    have hlt := UInt32.lt_iff_toNat_lt.1 hbig
    simp only [UInt32.reduceToNat] at hlt
    exact fits_of_close (k := k) (by omega) (by rw [hk]; omega) hsame
  · rw [if_neg hbig] at hk
    exact fits_of_close (k := k) (by omega) (by rw [hk]; omega) hsame

theorem firstWords_eq {ws : List UInt16} (hlen : 1 < ws.length) {d₁ : BitstrDec}
    (hok : firstWords { stream := seen n ws } = .ok d₁) :
    ∃ d, firstWords { stream := ws } = .ok d ∧ d.sees n = d₁ ∧ d.stream = ws := by
  have h0 : 0 < ws.length := Nat.zero_lt_of_lt hlen
  have hlen' := seen_length n ws
  simp only [firstWords, if_true, load_eq (show 0 < (seen n ws).length by omega),
    load_eq (show 1 < (seen n ws).length by omega), ok_bind, seen_getD h0, seen_getD hlen,
    if_pos (show 0 < max 2 n by omega), if_pos (show 1 < max 2 n by omega)] at hok
  cases hok
  simp only [firstWords, if_true, load_eq h0, load_eq hlen, ok_bind]
  exact ⟨_, rfl, rfl, rfl⟩

/-- The encoder codes the parts it clips to. -/
theorem encLogisticMulti2_parts (bands : List Band) (stream : List UInt16) :
    ∃ ps : List Part, ps.map Part.coefficient = bands.flatMap Band.coefficients ∧
      encLogisticMulti2 { stream } ((bands.flatMap Band.coefficients).map Coefficient.dataQ7)
          (bands.map Band.envQ8) =
        encHistMulti { stream } ((ps.map Part.symbol).map Symbol.input) >>= fun s =>
          .ok (ps.map Part.dataQ7, s) := by
  obtain ⟨ps, hps, henc⟩ := encLogisticValues_parts (bands.flatMap Band.coefficients)
  refine ⟨ps, hps, ?_⟩
  rw [List.map_map]
  refine henc _ 0 { stream } fun j c hj => ?_
  rw [Nat.zero_add]
  exact envelope_of_band hj

/-- The encoder's only failure is that the stream is full, and what it leaves differs from the input
by multiples of 128. -/
theorem encLogisticMulti2_clips (bands : List Band) {stream : List UInt16}
    (hstream : stream.length = STREAM_MAXW16_60MS) :
    encLogisticMulti2 { stream } ((bands.flatMap Band.coefficients).map Coefficient.dataQ7)
        (bands.map Band.envQ8) = .error (.code (-ISAC_DISALLOWED_BITSTREAM_LENGTH)) ∨
      ∃ data s, encLogisticMulti2 { stream }
          ((bands.flatMap Band.coefficients).map Coefficient.dataQ7) (bands.map Band.envQ8) =
        .ok (data, s) ∧ List.Forall₂ (fun c x => (x.toInt - c.dataQ7.toInt) % 128 = 0)
          (bands.flatMap Band.coefficients) data := by
  obtain ⟨ps, hps, hcoded⟩ := encLogisticMulti2_parts bands stream
  rcases encHistMulti_defined (ready_initial hstream) (ps.map Part.symbol) with hs | ⟨s, hs⟩
  · rw [hcoded, hs]
    exact .inl rfl
  · rw [hcoded, hs]
    refine .inr ⟨_, s, rfl, ?_⟩
    rw [← hps, List.forall₂_map_left_iff, List.forall₂_map_right_iff, List.forall₂_same]
    exact fun p _ => p.clipped.congr

/-- The decoder returns what the encoder left exactly where no coefficient is interrupted, whatever
follows the octets in the stream. -/
theorem decLogisticMulti2_iff {b : Band} {bands : List Band}
    (hroots : Yields ((1 : Int) <<< (getSizeInBits b.square.toUInt32 >>> 1)) (b :: bands))
    {stream : List UInt16} (hstream : stream.length = STREAM_MAXW16_60MS) {data : List Int16}
    {s : BitstrEnc} {m : Nat} {written ws : List UInt16} {streamSize : Nat}
    (hok : encLogisticMulti2 { stream }
      (((b :: bands).flatMap Band.coefficients).map Coefficient.dataQ7)
      ((b :: bands).map Band.envQ8) = .ok (data, s))
    (hterm : encTerminate s = .ok (m, written)) (hws : ws.length = INTERNAL_STREAM_SIZE_W16)
    (hsize : m ≤ 2 * streamSize) (hoctets : ∀ j < m, octet ws j = octet written j) :
    (∃ d, decLogisticMulti2 { stream := ws } streamSize ((b :: bands).map Band.dithers) =
        .ok (data, (m : Int), d)) ↔
      ∀ c ∈ (b :: bands).flatMap Band.coefficients, ¬c.Interrupted := by
  have h₀ := ready_initial hstream
  obtain ⟨ps, hps, hcoded⟩ := encLogisticMulti2_parts (b :: bands) stream
  rw [hcoded] at hok
  obtain ⟨s', hs, hok⟩ := bind_ok hok
  cases hok
  have hready : Ready s := encHistMulti_ready h₀ hs
  have hl : (seen streamSize ws).length = INTERNAL_STREAM_SIZE_W16 :=
    (seen_length streamSize ws).trans hws
  have hm : m ≤ 2 * ws.length := by
    obtain ⟨-, hm⟩ := fits_of_terminate hready hterm hoctets
    have hindex := hready.index
    unfold BitstrEnc.octets filled at hm
    unfold STREAM_MAXW16_60MS at hindex
    unfold INTERNAL_STREAM_SIZE_W16 at hws
    split at hm <;> split at hm <;> omega
  have hwhole (j : Nat) (hj : j < m) :
      octet (seen streamSize ws) j = octet written j := by
    rw [← hoctets j hj]
    exact seen_octet (by omega) (by omega)
  obtain ⟨hfit, hlength⟩ := fits_of_terminate hready hterm hwhole
  obtain ⟨hup, d₁, hfirst, hd₁⟩ := begins_initial hl stream
  obtain ⟨d, hread, rfl, hst⟩ :=
    firstWords_eq (by rw [hws]; decide) hfirst
  rw [List.map_map] at hs
  obtain ⟨hstop, hgo⟩ := decCoefficients_follows hl h₀ hs hfit hst hd₁
  rw [hps] at hstop hgo
  have hdec : decLogisticMulti2 { stream := ws } streamSize ((b :: bands).map Band.dithers) =
      decCoefficients streamSize ((b :: bands).flatMap Band.coefficients) d >>= fun r =>
        .ok (r.1, streamLength r.2, r.2) := by
    have hbands := decLogisticBands_eq (n := streamSize) hroots d
    unfold decLogisticMulti2
    rw [hread, ok_bind, ← hbands]
    rfl
  have hhalts : (∀ c ∈ (b :: bands).flatMap Band.coefficients, ¬c.Interrupted) ↔
      ∀ p ∈ ps, ¬p.Halts := by
    rw [← hps, List.forall_mem_map]
    exact forall₂_congr fun p _ => not_congr p.halts_iff.symm
  rw [hdec, hhalts]
  constructor
  · rintro ⟨d', hd'⟩ p hp hhalt
    rw [hstop ⟨p, hp, hhalt⟩] at hd'
    exact nomatch hd'
  · intro hno
    obtain ⟨d', hvalues, hd'⟩ := hgo hno
    have hlen := hd'.streamLength_eq
    rw [← hlength] at hlen
    rw [hvalues]
    exact ⟨d', congrArg (fun k => Except.ok (_, k, d')) hlen⟩

/-- The encoder's only failure is that the stream is full. What it leaves differs from the input by
multiples of 128, and the decoder returns it, and the number of octets, exactly where no coefficient
is interrupted, whatever follows the octets in the stream. -/
theorem multi2_iff (b : Band) (bands : List Band)
    (hroots : Yields ((1 : Int) <<< (getSizeInBits b.square.toUInt32 >>> 1)) (b :: bands))
    (stream : List UInt16) (hstream : stream.length = STREAM_MAXW16_60MS) :
    let coefficients := (b :: bands).flatMap Band.coefficients
    let coded := encLogisticMulti2 { stream } (coefficients.map Coefficient.dataQ7)
      ((b :: bands).map Band.envQ8)
    (coded = .error (.code (-ISAC_DISALLOWED_BITSTREAM_LENGTH)) ∨
      ∃ data s, coded = .ok (data, s) ∧
        List.Forall₂ (fun c x => (x.toInt - c.dataQ7.toInt) % 128 = 0) coefficients data) ∧
    ∀ data s m written ws streamSize, coded = .ok (data, s) → encTerminate s = .ok (m, written) →
      ws.length = INTERNAL_STREAM_SIZE_W16 → m ≤ 2 * streamSize →
      (∀ j < m, octet ws j = octet written j) →
      ((∃ d, decLogisticMulti2 { stream := ws } streamSize ((b :: bands).map Band.dithers) =
          .ok (data, (m : Int), d)) ↔ ∀ c ∈ coefficients, ¬c.Interrupted) := by
  exact ⟨encLogisticMulti2_clips (b :: bands) hstream, fun _ _ _ _ _ _ hok =>
    decLogisticMulti2_iff hroots hstream hok⟩

def flat : Coefficient := ⟨7, 0, 0, by decide, by decide, by decide, by decide⟩

def close : Coefficient := ⟨7, 300, -44, by decide, by decide, by decide, by decide⟩

/-- Its part is wide and the one before it empty. -/
def remote : Coefficient := ⟨7, 18895, 49, by decide, by decide, by decide, by decide⟩

def bandOf (c : Coefficient) (h : c.envQ8 = 7) : Band where
  envQ8 := 7
  square := 49
  coefficients := [c, flat, flat, flat]
  same := by
    intro c' hc
    rcases List.mem_cons.1 hc with rfl | hc
    · exact h
    · rw [List.eq_of_mem_replicate (n := 3) hc]
      rfl
  four := rfl

set_option maxRecDepth 4000 in
theorem multi2_iff_remote :
    (∃ d, decLogisticMulti2 { stream := 35710 :: 59744 :: List.replicate 303 0xFFFF } 2
      [(bandOf close rfl).dithers] = .ok ([300, 0, 0, 0], 4, d)) ∧
    ¬∃ d, decLogisticMulti2 { stream := 65482 :: 1155 :: 64768 :: List.replicate 302 0xFFFF } 3
      [(bandOf remote rfl).dithers] = .ok ([18895, 0, 0, 0], 5, d) := by
  obtain ⟨-, hclose⟩ := multi2_iff (bandOf close rfl) [] ⟨7, rfl, trivial⟩
    (List.replicate 200 0) rfl
  obtain ⟨-, hremote⟩ := multi2_iff (bandOf remote rfl) [] ⟨7, rfl, trivial⟩
    (List.replicate 200 0) rfl
  constructor
  · refine (hclose [300, 0, 0, 0]
      { stream := 35710 :: 59648 :: List.replicate 198 0, wUpper := 4004783104
        streamval := 1594974464, streamIndex := 1, full := false } 4
      (35710 :: 59744 :: List.replicate 198 0) _ 2 (by decide) (by decide)
      (by decide) (by decide) (by decide)).2 fun c hc => ?_
    rcases List.mem_cons.1 hc with rfl | hc
    · exact close.not_interrupted (by decide) (by decide)
    · obtain rfl := List.eq_of_mem_replicate (n := 3) hc
      exact flat.not_interrupted (by decide) (by decide)
  · intro h
    refine (hremote [18895, 0, 0, 0]
      { stream := 65482 :: 1155 :: List.replicate 198 0, wUpper := 2030129920
        streamval := 4244449280, streamIndex := 2 } 5
      (65482 :: 1155 :: 64768 :: List.replicate 197 0) _ 3 (by decide) (by decide)
      (by decide) (by decide) (by decide)).1 h remote List.mem_cons_self ?_
    exact ⟨18767, 18895, by decide, by decide, by decide, by decide,
      .inl ⟨by decide, by decide, by decide⟩⟩

theorem octet_append_zeros (ws : List UInt16) (k j : Nat) :
    octet (ws ++ List.replicate k 0) j = octet ws j := by
  have hget : (ws ++ List.replicate k 0).getD (j / 2) 0 = ws.getD (j / 2) 0 := by
    rw [List.getD_eq_getElem?_getD, List.getD_eq_getElem?_getD]
    rcases Nat.lt_or_ge (j / 2) ws.length with h | h
    · rw [List.getElem?_append_left h]
    · rw [List.getElem?_append_right h, List.getElem?_eq_none h, List.getElem?_replicate]
      split
      · rfl
      · rfl
  rw [octet, hget, octet]

/-- What `EncTerminate` leaves, in the larger stream of the decoder. -/
def received (written : List UInt16) : List UInt16 :=
  written ++ List.replicate (INTERNAL_STREAM_SIZE_W16 - STREAM_MAXW16_60MS) 0

/-- The distribution does not decrease; the encoder ends, and where the stream is large enough the
terminated octets are decoded to its values exactly if no coefficient is interrupted. -/
theorem spectrum_exact (b : Band) (bands : List Band)
    (hroots : Yields ((1 : Int) <<< (getSizeInBits b.square.toUInt32 >>> 1)) (b :: bands))
    (stream : List UInt16) (hstream : stream.length = STREAM_MAXW16_60MS) :
    let coefficients := (b :: bands).flatMap Band.coefficients
    let coded := encLogisticMulti2 { stream } (coefficients.map Coefficient.dataQ7)
      ((b :: bands).map Band.envQ8)
    (∀ x y : Int, x ≤ y → (piecewise x).toNat ≤ (piecewise y).toNat) ∧
    (coded = .error (.code (-ISAC_DISALLOWED_BITSTREAM_LENGTH)) ∨
      ∃ data s, coded = .ok (data, s) ∧
        List.Forall₂ (fun c x => (x.toInt - c.dataQ7.toInt) % 128 = 0) coefficients data ∧
        ∀ m written streamSize, encTerminate s = .ok (m, written) → m ≤ 2 * streamSize →
          ((∃ d, decLogisticMulti2 { stream := received written } streamSize
              ((b :: bands).map Band.dithers) = .ok (data, (m : Int), d)) ↔
            ∀ c ∈ coefficients, ¬c.Interrupted)) := by
  intro coefficients coded
  refine ⟨fun _ _ => piecewise_mono, (encLogisticMulti2_clips (b :: bands) hstream).imp_right ?_⟩
  rintro ⟨data, s, hok, hcongr⟩
  refine ⟨data, s, hok, hcongr, fun m written streamSize hterm hsize => ?_⟩
  have hready : Ready s := by
    obtain ⟨ps, -, hparts⟩ := encLogisticMulti2_parts (b :: bands) stream
    rw [hparts] at hok
    obtain ⟨s', hs, hs'⟩ := bind_ok hok
    cases hs'
    exact encHistMulti_ready (ready_initial hstream) hs
  have hlength := encTerminate_length hready.toEncInv hready.width hterm
  refine decLogisticMulti2_iff hroots hstream hok hterm ?_ hsize fun j _ => octet_append_zeros ..
  rw [received, List.length_append, List.length_replicate, hlength]
  rfl

set_option maxRecDepth 4000 in
theorem spectrum_exact_close :
    ∃ d, decLogisticMulti2 { stream := received (35710 :: 59744 :: List.replicate 198 0) } 2
      [(bandOf close rfl).dithers] = .ok ([300, 0, 0, 0], 4, d) := by
  have hcoded : encLogisticMulti2 { stream := List.replicate 200 0 } [300, 0, 0, 0] [7] =
      .ok ([300, 0, 0, 0], { stream := 35710 :: 59648 :: List.replicate 198 0
                             wUpper := 4004783104, streamval := 1594974464, streamIndex := 1
                             full := false }) := by decide
  obtain ⟨-, hclose⟩ := spectrum_exact (bandOf close rfl) [] ⟨7, rfl, trivial⟩
    (List.replicate 200 0) rfl
  rcases hclose with herror | ⟨data, s, hok, -, hreturned⟩
  · exact nomatch hcoded.symm.trans herror
  cases hcoded.symm.trans hok
  refine (hreturned 4 (35710 :: 59744 :: List.replicate 198 0) 2 (by decide)
    (by decide)).2 fun c hc => ?_
  rcases List.mem_cons.1 hc with rfl | hc
  · exact close.not_interrupted (by decide) (by decide)
  · obtain rfl := List.eq_of_mem_replicate (n := 3) hc
    exact flat.not_interrupted (by decide) (by decide)

set_option maxRecDepth 4000 in
/-- The encoder leaves the value as it is, and the decoder stops at the empty part before it. -/
theorem remote_not_returned :
    ∃ s written, encLogisticMulti2 { stream := List.replicate 200 0 } [18895, 0, 0, 0] [7] =
        .ok ([18895, 0, 0, 0], s) ∧ encTerminate s = .ok (5, written) ∧
      decLogisticMulti2 { stream := received written } 3 [(bandOf remote rfl).dithers] =
        .error (.code (-1)) :=
  ⟨{ stream := 65482 :: 1155 :: List.replicate 198 0, wUpper := 2030129920
     streamval := 4244449280, streamIndex := 2 },
    65482 :: 1155 :: 64768 :: List.replicate 197 0, by decide, by decide,
    by decide⟩

end RtcCore.L1.Isac
