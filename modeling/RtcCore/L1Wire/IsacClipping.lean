import RtcCore.L1Wire.IsacLogistic
import RtcCore.L1Wire.IsacRoundTrip

/-!
# What the spectrum coder encodes

Results:
* `piecewise_mono`: the distribution does not decrease.
* `clip_spec`: a value is moved towards zero by multiples of 128 until its part is
  wider than one unit, which it is within 64 of zero.
* `encPart_eq`: such a part is coded as a symbol of a table is, so the facts about
  the histogram coder are facts about this one.
-/
namespace RtcCore.L1.Isac

open RangeCoder

/-! ## The distribution -/

/-- Where piece `i` begins, counted from the first edge. -/
def edge (i : Nat) : Nat := 65536 * i / 5

def slope (i : Nat) : Nat := (kCdfSlope.getD i 0).toNat

def height (i : Nat) : Nat := (kCdfLogistic.getD i 0).toNat

/-- The distribution on the natural numbers up to the last edge. -/
def curve (u : Nat) : Nat :=
  height (5 * u / 65536) + (u - edge (5 * u / 65536)) * slope (5 * u / 65536) / 32768

/-- The input in its range, counted from the first edge. -/
def offset (x : Int) : Nat := (min (max x (-327680)) 327680 + 327680).toNat

theorem offset_le (x : Int) : offset x ≤ 655360 := by
  unfold offset
  omega

theorem offset_mono {x y : Int} (h : x ≤ y) : offset x ≤ offset y := by
  unfold offset
  omega

/-- Each piece ends at or below the next, and the last one below 65536. -/
theorem pieces :
    (∀ i < 50, height i + (edge (i + 1) - edge i) * slope i / 32768 ≤ height (i + 1)) ∧
    curve 655360 = 65535 ∧ (∀ i < 51, kHistEdges.getD i 0 = (edge i : Int) - 327680) ∧
    ∀ i < 51, slope i ≤ 36924 := by
  decide

theorem height_mono {i j : Nat} (hij : i ≤ j) (hj : j ≤ 50) : height i ≤ height j := by
  induction hij with
  | refl => exact Nat.le_refl _
  | @step j hij ih =>
    exact Nat.le_trans (ih (by omega)) (Nat.le_trans (Nat.le_add_right _ _) (pieces.1 j (by omega)))

theorem curve_le {u : Nat} (h : 5 * u / 65536 < 50) : curve u ≤ height (5 * u / 65536 + 1) := by
  refine Nat.le_trans ?_ (pieces.1 _ h)
  unfold curve
  refine Nat.add_le_add_left (Nat.div_le_div_right (Nat.mul_le_mul_right _ ?_)) _
  unfold edge
  omega

theorem curve_mono {u v : Nat} (h : u ≤ v) (hv : v ≤ 655360) : curve u ≤ curve v := by
  rcases Nat.lt_or_ge (5 * u / 65536) (5 * v / 65536) with hlt | hge
  · calc curve u ≤ height (5 * u / 65536 + 1) := curve_le (by omega)
      _ ≤ height (5 * v / 65536) := height_mono hlt (by omega)
      _ ≤ curve v := Nat.le_add_right _ _
  · have heq : 5 * u / 65536 = 5 * v / 65536 := by omega
    unfold curve
    rw [heq]
    exact Nat.add_le_add_left (Nat.div_le_div_right (Nat.mul_le_mul_right _ (by omega))) _

theorem curve_lt {u : Nat} (h : u ≤ 655360) : curve u < 65536 := by
  have hle := curve_mono h (Nat.le_refl _)
  have := pieces.2.1
  omega

/-- The height above the beginning of a piece, on machine words. -/
theorem rise_toNat {n : Nat} {k : UInt16} (hn : n ≤ 13108) (hk : k.toNat ≤ 36924) :
    ((UInt32.ofInt (n : Int) * k.toUInt32) >>> 15).toUInt16.toNat = n * k.toNat / 32768 := by
  have hofInt : (UInt32.ofInt (n : Int)).toNat = n := by
    unfold UInt32.ofInt
    rw [UInt32.toNat_ofNat']
    omega
  have hle : n * k.toNat ≤ 13108 * 36924 := Nat.mul_le_mul hn hk
  have hmul : (UInt32.ofInt (n : Int) * k.toUInt32).toNat = n * k.toNat := by
    rw [UInt32.toNat_mul, hofInt, UInt16.toNat_toUInt32]
    omega
  rw [UInt32.toNat_toUInt16, UInt32.toNat_shiftRight, hmul]
  simp only [UInt32.reduceToNat, Nat.reduceMod, Nat.shiftRight_eq_div_pow]
  omega

theorem piecewise_toNat (x : Int) : (piecewise x).toNat = curve (offset x) := by
  have hle := offset_le x
  have hclamp : (if kHistEdges.getD 50 0 < x then kHistEdges.getD 50 0
      else if x < kHistEdges.getD 0 0 then kHistEdges.getD 0 0 else x) =
      (offset x : Int) - 327680 := by
    have hlo : kHistEdges.getD 0 0 = -327680 := rfl
    have hhi : kHistEdges.getD 50 0 = 327680 := rfl
    rw [hlo, hhi]
    unfold offset
    split
    · omega
    · split <;> omega
  have hind : (5 * ((offset x : Int) - 327680 - kHistEdges.getD 0 0) / 65536).toNat =
      5 * offset x / 65536 := by
    have hlo : kHistEdges.getD 0 0 = -327680 := rfl
    rw [hlo]
    omega
  have hi : 5 * offset x / 65536 < 51 := by omega
  have hedge : edge (5 * offset x / 65536) ≤ offset x := by
    unfold edge
    omega
  have hdx : offset x - edge (5 * offset x / 65536) ≤ 13108 := by
    unfold edge
    omega
  have hsub : (offset x : Int) - 327680 - ((edge (5 * offset x / 65536) : Int) - 327680) =
      ((offset x - edge (5 * offset x / 65536) : Nat) : Int) := by omega
  have hslope := pieces.2.2.2 _ hi
  have hcurve := curve_lt hle
  unfold curve at hcurve
  unfold piecewise
  simp only [hclamp, hind, pieces.2.2.1 _ hi, hsub]
  rw [UInt16.toNat_add, rise_toNat hdx hslope]
  exact Nat.mod_eq_of_lt hcurve

theorem piecewise_mono {x y : Int} (h : x ≤ y) : (piecewise x).toNat ≤ (piecewise y).toNat := by
  rw [piecewise_toNat, piecewise_toNat]
  exact curve_mono (offset_mono h) (offset_le y)

/-! ## Clipping -/

variable {e : UInt16} {d : Int16}

theorem mul_eq {a : Int} (h : -32768 ≤ a) (h' : a < 32768) :
    WEBRTC_SPL_MUL_16_U16 a e = a * e.toNat := by
  unfold WEBRTC_SPL_MUL_16_U16
  rw [Int16.toInt_ofInt_of_le h h']

/-- The ends of the part of `d`. -/
def lowEnd (e : UInt16) (d : Int) : UInt16 := piecewise ((d - 64) * e.toNat)

def highEnd (e : UInt16) (d : Int) : UInt16 := piecewise ((d + 64) * e.toNat)

/-- The part of a value near zero is wide. -/
theorem wide_of_near {d : Int} (he : 1 ≤ e.toNat) (h : -64 ≤ d) (h' : d ≤ 64) :
    (lowEnd e d).toNat + 1 < (highEnd e d).toNat := by
  unfold lowEnd highEnd
  obtain ⟨hneg, hzero, hpos⟩ : (piecewise (-64)).toNat = 33264 ∧ (piecewise 0).toNat = 33336 ∧
      (piecewise 64).toNat = 33408 := by decide
  have he0 : (0 : Int) ≤ e.toNat := Int.natCast_nonneg _
  rcases Int.lt_or_le d 0 with hd | hd
  · have hlow := Int.mul_le_mul_of_nonneg_right (show d - 64 ≤ -64 by omega) he0
    have hlo := piecewise_mono (show (d - 64) * (e.toNat : Int) ≤ -64 by omega)
    have hhi := piecewise_mono (Int.mul_nonneg (show 0 ≤ d + 64 by omega) he0)
    omega
  · have hhigh := Int.mul_le_mul_of_nonneg_right (show 64 ≤ d + 64 by omega) he0
    have hlo := piecewise_mono (Int.mul_nonpos_of_nonpos_of_nonneg (show d - 64 ≤ 0 by omega) he0)
    have hhi := piecewise_mono (show 64 ≤ (d + 64) * (e.toNat : Int) by omega)
    omega

theorem toInt_sub_128 (h : 0 < d.toInt) : (d - 128).toInt = d.toInt - 128 := by
  have hlt := d.toInt_lt
  rw [Int16.toInt_sub, show (128 : Int16).toInt = 128 from rfl, Int.bmod_def]
  omega

theorem toInt_add_128 (h : d.toInt ≤ 0) : (d + 128).toInt = d.toInt + 128 := by
  have hle := d.le_toInt
  rw [Int16.toInt_add, show (128 : Int16).toInt = 128 from rfl, Int.bmod_def]
  omega

/-- What clipping leaves of `d`: a value as far from zero at most, that differs by a multiple of
128 and whose part is wider than one unit. -/
structure Clipped (e : UInt16) (d d' : Int16) (lo hi : UInt16) : Prop where
  low : lo = lowEnd e d'.toInt
  high : hi = highEnd e d'.toInt
  wide : lo.toNat + 1 < hi.toNat
  congr : (d'.toInt - d.toInt) % 128 = 0
  near : d'.toInt.natAbs ≤ d.toInt.natAbs

theorem lowEnd_eq (h : -32704 ≤ d.toInt) :
    piecewise (WEBRTC_SPL_MUL_16_U16 (d.toInt - 64) e) = lowEnd e d.toInt :=
  congrArg piecewise (mul_eq (by omega) (by have := d.toInt_lt; omega))

theorem highEnd_eq (h : d.toInt ≤ 32703) :
    piecewise (WEBRTC_SPL_MUL_16_U16 (d.toInt + 64) e) = highEnd e d.toInt :=
  congrArg piecewise (mul_eq (by have := d.le_toInt; omega) (by omega))

/-- The part of `d - 128` ends where the one of `d` begins. -/
theorem highEnd_sub_128 (h : 0 < d.toInt) : highEnd e (d - 128).toInt = lowEnd e d.toInt := by
  unfold lowEnd highEnd
  rw [toInt_sub_128 h]
  congr 2
  omega

theorem lowEnd_add_128 (h : d.toInt ≤ 0) : lowEnd e (d + 128).toInt = highEnd e d.toInt := by
  unfold lowEnd highEnd
  rw [toInt_add_128 h]
  congr 2
  omega

variable {fuel : Nat} {lo hi : UInt16}

theorem clip_wide (h : lo.toNat + 1 < hi.toNat) : clip e (fuel + 1) d lo hi = .ok (d, lo, hi) := by
  unfold clip
  exact if_neg (by omega)

theorem clip_down (h : hi.toNat ≤ lo.toNat + 1) (hd : 0 < d.toInt) :
    clip e (fuel + 1) d lo hi = clip e fuel (d - 128) (lowEnd e (d - 128).toInt) lo := by
  have hsub := toInt_sub_128 hd
  have hpos : 0 < d := Int16.lt_iff_toInt_lt.2 hd
  conv => lhs; unfold clip
  rw [if_pos h, if_pos hpos]
  dsimp only
  rw [lowEnd_eq (by omega)]

theorem clip_up (h : hi.toNat ≤ lo.toNat + 1) (hd : d.toInt ≤ 0) :
    clip e (fuel + 1) d lo hi = clip e fuel (d + 128) hi (highEnd e (d + 128).toInt) := by
  have hadd := toInt_add_128 hd
  conv => lhs; unfold clip
  rw [if_pos h, if_neg (Int16.not_lt.2 (Int16.le_iff_toInt_le.2 hd))]
  dsimp only
  rw [highEnd_eq (by omega)]

theorem Clipped.sub_128 {d' : Int16} (h : Clipped e (d - 128) d' lo hi) (hd : 64 < d.toInt) :
    Clipped e d d' lo hi := by
  have hsub := toInt_sub_128 (d := d) (by omega)
  have hcongr := h.congr
  have hnear := h.near
  exact ⟨h.low, h.high, h.wide, by omega, by omega⟩

theorem Clipped.add_128 {d' : Int16} (h : Clipped e (d + 128) d' lo hi) (hd : d.toInt < -64) :
    Clipped e d d' lo hi := by
  have hadd := toInt_add_128 (d := d) (by omega)
  have hcongr := h.congr
  have hnear := h.near
  exact ⟨h.low, h.high, h.wide, by omega, by omega⟩

/-- From the bounds of `d` the loop ends at a wide part, in one turn for each 128. -/
theorem clip_ends (he : 1 ≤ e.toNat) (hfuel : d.toInt.natAbs ≤ 128 * fuel + 64) :
    ∃ d' lo hi, clip e (fuel + 1) d (lowEnd e d.toInt) (highEnd e d.toInt) = .ok (d', lo, hi) ∧
      Clipped e d d' lo hi := by
  induction fuel generalizing d with
  | zero =>
    have hwide := wide_of_near (d := d.toInt) he (by omega) (by omega)
    exact ⟨d, _, _, clip_wide hwide, rfl, rfl, hwide, by omega, Nat.le_refl _⟩
  | succ fuel ih =>
    by_cases hwide : (lowEnd e d.toInt).toNat + 1 < (highEnd e d.toInt).toNat
    · exact ⟨d, _, _, clip_wide hwide, rfl, rfl, hwide, by omega, Nat.le_refl _⟩
    · have hfar : ¬ (-64 ≤ d.toInt ∧ d.toInt ≤ 64) := fun hc =>
        hwide (wide_of_near he hc.1 hc.2)
      rcases Int.lt_or_le 0 d.toInt with hd | hd
      · have hsub := toInt_sub_128 hd
        obtain ⟨d', lo, hi, hok, hc⟩ := @ih (d - 128) (by omega)
        rw [clip_down (by omega) hd, ← highEnd_sub_128 hd]
        exact ⟨d', lo, hi, hok, hc.sub_128 (by omega)⟩
      · have hadd := toInt_add_128 hd
        obtain ⟨d', lo, hi, hok, hc⟩ := @ih (d + 128) (by omega)
        rw [clip_up (by omega) hd, ← lowEnd_add_128 hd]
        exact ⟨d', lo, hi, hok, hc.add_128 (by omega)⟩

/-- At the ends of the range one of the two bounds is out of range and comes out on the other side
of zero; then the value is moved first. -/
theorem clip_spec (he : 1 ≤ e.toNat) (d : Int16) :
    ∃ d' lo hi, clip e 512 d (piecewise (WEBRTC_SPL_MUL_16_U16 (d.toInt - 64) e))
        (piecewise (WEBRTC_SPL_MUL_16_U16 (d.toInt + 64) e)) = .ok (d', lo, hi) ∧
      Clipped e d d' lo hi := by
  have hlt := d.toInt_lt
  have hle := d.le_toInt
  have he0 : (0 : Int) ≤ e.toNat := Int.natCast_nonneg _
  rcases Int.lt_or_le 32703 d.toInt with hd | hd
  · have hsub := toInt_sub_128 (d := d) (by omega)
    have hneg : (Int16.ofInt (d.toInt + 64)).toInt ≤ 0 := by
      rw [Int16.toInt_ofInt, Int.bmod_def, show Int16.size = 65536 from rfl]
      omega
    have hhi := piecewise_mono (Int.mul_nonpos_of_nonpos_of_nonneg hneg he0)
    have hlo := piecewise_mono (Int.mul_nonneg (show 0 ≤ d.toInt - 64 by omega) he0)
    have hnarrow : (piecewise (WEBRTC_SPL_MUL_16_U16 (d.toInt + 64) e)).toNat ≤
        (lowEnd e d.toInt).toNat + 1 := Nat.le_succ_of_le (Nat.le_trans hhi hlo)
    rw [lowEnd_eq (by omega), clip_down hnarrow (by omega), ← highEnd_sub_128 (d := d) (by omega)]
    have hends := clip_ends (d := d - 128) he (show (d - 128).toInt.natAbs ≤ 128 * 510 + 64 by omega)
    obtain ⟨d', lo, hi, hok, hc⟩ := hends
    exact ⟨d', lo, hi, hok, hc.sub_128 (by omega)⟩
  · rcases Int.lt_or_le d.toInt (-32704) with hd' | hd'
    · have hadd := toInt_add_128 (d := d) (by omega)
      have hpos : 0 ≤ (Int16.ofInt (d.toInt - 64)).toInt := by
        rw [Int16.toInt_ofInt, Int.bmod_def, show Int16.size = 65536 from rfl]
        omega
      have hlo := piecewise_mono (Int.mul_nonneg hpos he0)
      have hhi := piecewise_mono
        (Int.mul_nonpos_of_nonpos_of_nonneg (show d.toInt + 64 ≤ 0 by omega) he0)
      have hnarrow : (highEnd e d.toInt).toNat ≤
          (piecewise (WEBRTC_SPL_MUL_16_U16 (d.toInt - 64) e)).toNat + 1 :=
        Nat.le_succ_of_le (Nat.le_trans hhi hlo)
      rw [highEnd_eq hd, clip_up hnarrow (by omega), ← lowEnd_add_128 (d := d) (by omega)]
      have hends := clip_ends (d := d + 128) he (show (d + 128).toInt.natAbs ≤ 128 * 510 + 64 by omega)
      obtain ⟨d', lo, hi, hok, hc⟩ := hends
      exact ⟨d', lo, hi, hok, hc.add_128 (by omega)⟩
    · rw [lowEnd_eq hd', highEnd_eq hd]
      exact clip_ends he (by omega)

/-! ## A part as a symbol -/

/-- A table that has the part from `lo` to `hi`. -/
def partTable (lo hi : UInt16) : List UInt16 :=
  (if lo = 0 then [lo] else [0, lo]) ++ if hi = 65535 then [hi] else [hi, 65535]

theorem partTable_increasing {lo hi : UInt16} (h : lo < hi) :
    (partTable lo hi).Pairwise (· < ·) := by
  have hmax : hi ≠ 65535 → hi < 65535 := fun hc => by
    have hlt := hi.toNat_lt
    have hne : hi.toNat ≠ 65535 := fun hn => hc (UInt16.toNat_inj.1 hn)
    rw [UInt16.lt_iff_toNat_lt]
    simp only [UInt16.reduceToNat]
    omega
  unfold partTable
  refine List.pairwise_append.2 ⟨?_, ?_, fun a ha b hb => ?_⟩
  · split
    · exact List.pairwise_singleton _ _
    · rename_i hlo
      exact List.pairwise_pair.2 (UInt16.pos_iff_ne_zero.2 hlo)
  · split
    · exact List.pairwise_singleton _ _
    · rename_i hhi
      exact List.pairwise_pair.2 (hmax hhi)
  · have hle : a ≤ lo := by
      split at ha
      · rw [List.mem_singleton.1 ha]
        exact UInt16.le_refl _
      · rcases List.mem_cons.1 ha with rfl | ha
        · exact UInt16.zero_le
        · rw [List.mem_singleton.1 ha]
          exact UInt16.le_refl _
    have hge : hi ≤ b := by
      split at hb
      · rw [List.mem_singleton.1 hb]
        exact UInt16.le_refl _
      · rename_i hhi
        rcases List.mem_cons.1 hb with rfl | hb
        · exact UInt16.le_refl _
        · rw [List.mem_singleton.1 hb]
          exact UInt16.le_of_lt (hmax hhi)
    exact UInt16.lt_of_le_of_lt hle (UInt16.lt_of_lt_of_le h hge)

def Symbol.ofPart (lo hi : UInt16) (h : lo < hi) : Symbol where
  data := if lo = 0 then 0 else 1
  cdf := partTable lo hi
  increasing := partTable_increasing h
  first := by
    unfold partTable
    split
    · rename_i hlo
      rw [hlo]
      rfl
    · rfl
  last := by
    unfold partTable
    split <;> split <;> simp_all
  nonneg := by
    split <;> decide
  inside := by
    unfold partTable
    split <;> split <;> simp

theorem Symbol.ofPart_getD {lo hi : UInt16} (h : lo < hi) :
    (ofPart lo hi h).cdf.getD (ofPart lo hi h).index 0 = lo ∧
      (ofPart lo hi h).cdf.getD ((ofPart lo hi h).index + 1) 0 = hi := by
  unfold Symbol.index ofPart partTable
  by_cases hlo : lo = 0
  · simp only [hlo, if_true]
    split <;> exact ⟨rfl, rfl⟩
  · simp only [hlo, if_false]
    split <;> exact ⟨rfl, rfl⟩

variable {s s' : BitstrEnc} {lo hi : UInt16}

theorem encPart_eq (s : BitstrEnc) (h : lo < hi) :
    encPart s lo hi = encSymbol s (Symbol.ofPart lo hi h).data (Symbol.ofPart lo hi h).cdf := by
  have hin : (Symbol.ofPart lo hi h).data.toInt.toNat + 1 <
      (Symbol.ofPart lo hi h).cdf.length := (Symbol.ofPart lo hi h).inside
  obtain ⟨hlo, hhi⟩ := Symbol.ofPart_getD h
  unfold Symbol.index at hlo hhi
  unfold encSymbol
  rw [if_neg (Int16.not_lt.2 (Symbol.ofPart lo hi h).nonneg), load_eq (Nat.lt_of_succ_lt hin),
    load_eq hin, hlo, hhi]
  rfl

/-! ## Calls -/

theorem Clipped.lt {d' : Int16} (h : Clipped e d d' lo hi) : lo < hi := by
  have := h.wide
  rw [UInt16.lt_iff_toNat_lt]
  omega

/-- The envelope goes on after every fourth value. -/
theorem env_step (k : Nat) : k / 4 + ((k &&& 1) &&& (k >>> 1)) = (k + 1) / 4 := by
  rw [Nat.and_one_is_mod, Nat.shiftRight_eq_div_pow]
  rcases Nat.mod_two_eq_zero_or_one k with hk | hk
  · rw [hk, Nat.zero_and]
    omega
  · rw [hk, Nat.one_and_eq_mod_two]
    omega

/-- One value: it is clipped and its part is coded. -/
theorem encLogisticValues_cons {envQ8 : List UInt16} {k : Nat}
    (henv : ∀ e ∈ envQ8, 1 ≤ e.toNat) (hk : k / 4 < envQ8.length) (s : BitstrEnc) (d : Int16)
    (data : List Int16) :
    ∃ d' lo hi, Clipped (envQ8.getD (k / 4) 0) d d' lo hi ∧
      encLogisticValues envQ8 k (k / 4) (d :: data) s =
        encPart s lo hi >>= fun s => encLogisticValues envQ8 (k + 1) ((k + 1) / 4) data s >>=
          fun r => .ok (d' :: r.1, r.2) := by
  have he : 1 ≤ (envQ8.getD (k / 4) 0).toNat := by
    refine henv _ ?_
    rw [List.getD_eq_getElem?_getD, List.getElem?_eq_getElem hk]
    exact List.getElem_mem hk
  obtain ⟨d', lo, hi, hclip, hc⟩ := clip_spec he d
  refine ⟨d', lo, hi, hc, ?_⟩
  simp only [encLogisticValues, load_eq hk, ok_bind, hclip, env_step]
  rfl

/-- A call keeps the state between symbols; its only failure is that the stream is full. -/
theorem encLogisticValues_defined {envQ8 : List UInt16} {k : Nat} {data : List Int16}
    (henv : ∀ e ∈ envQ8, 1 ≤ e.toNat) (hlen : k + data.length ≤ 4 * envQ8.length) (h : Ready s) :
    encLogisticValues envQ8 k (k / 4) data s =
        .error (.code (-ISAC_DISALLOWED_BITSTREAM_LENGTH)) ∨
      ∃ data' s', encLogisticValues envQ8 k (k / 4) data s = .ok (data', s') ∧ Ready s' := by
  induction data generalizing k s with
  | nil => exact .inr ⟨[], s, rfl, h⟩
  | cons d data ih =>
    rw [List.length_cons] at hlen
    obtain ⟨d', lo, hi, hc, heq⟩ :=
      encLogisticValues_cons henv (show k / 4 < envQ8.length by omega) s d data
    rw [heq, encPart_eq s hc.lt]
    rcases encSymbol_defined h (Symbol.ofPart lo hi hc.lt) with hs | ⟨s₁, hs⟩
    · rw [hs]
      exact .inl rfl
    · rw [hs, ok_bind]
      rcases @ih s₁ (k + 1) (by omega) (encSymbol_ready h hs) with hrest | ⟨data', s', hrest, h'⟩
      · rw [hrest]
        exact .inl rfl
      · rw [hrest]
        exact .inr ⟨_, s', rfl, h'⟩

end RtcCore.L1.Isac
