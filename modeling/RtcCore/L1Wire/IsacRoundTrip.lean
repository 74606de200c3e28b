import RtcCore.L1Wire.IsacInterval

/-!
# The round trip of the iSAC coder

A symbol narrows the interval to the part its table gives it. The number the
stream spells lies in the last interval, so it was in every earlier one, in the
part of the symbol that came next: both searches find this symbol and the
decoder cuts out the same part.

Results:
- `round_trip`: the decoders return the symbols of the encoder, and the last call
  returns the length of the stream.
-/
namespace RtcCore.L1.Isac

open RangeCoder

variable {s s' : BitstrEnc} {ws : List UInt16} {d : BitstrDec}

/-! ## Tables -/

/-- A symbol with its table. -/
structure Symbol where
  data : Int16
  cdf : List UInt16
  increasing : cdf.Pairwise (· < ·)
  first : cdf.head? = some 0
  last : cdf.getLast? = some 65535
  nonneg : 0 ≤ data
  inside : data.toInt.toNat + 1 < cdf.length

def Symbol.index (y : Symbol) : Nat := y.data.toInt.toNat

theorem scale_toNat (w : UInt32) (c : UInt16) :
    (scale w c).toNat = w.toNat * c.toNat / 65536 := by
  have hw := w.toNat_lt
  have hc := c.toNat_lt
  have hlsb : (w &&& 0x0000FFFF).toNat = w.toNat % 65536 := by
    rw [UInt32.toNat_and]
    exact Nat.and_two_pow_sub_one_eq_mod _ 16
  have hmsb : (w >>> 16).toNat = w.toNat / 65536 := by
    rw [UInt32.toNat_shiftRight]
    simp only [UInt32.reduceToNat, Nat.reduceMod, Nat.shiftRight_eq_div_pow]
  have hcc : c.toUInt32.toNat = c.toNat := UInt16.toNat_toUInt32 c
  have hlo : w.toNat % 65536 * c.toNat < 65536 * 65536 :=
    Nat.mul_lt_mul'' (Nat.mod_lt _ (by decide)) hc
  have hprod : w.toNat * c.toNat =
      w.toNat % 65536 * c.toNat + 65536 * (w.toNat / 65536 * c.toNat) := by
    rw [← Nat.mul_assoc, ← Nat.add_mul, Nat.mod_add_div]
  have hle : w.toNat * c.toNat ≤ w.toNat * 65535 := Nat.mul_le_mul_left _ (by omega)
  simp only [scale, UInt32.toNat_add, UInt32.toNat_mul, UInt32.toNat_shiftRight, hlsb, hmsb, hcc,
    UInt32.reduceToNat, Nat.reduceMod, Nat.shiftRight_eq_div_pow]
  rw [Nat.mod_eq_of_lt hlo]
  omega

/-- Where the part of the entries from `i` on begins. -/
def threshold (w : UInt32) (cdf : List UInt16) (i : Nat) : Nat := (scale w (cdf.getD i 0)).toNat

theorem getD_lt {cdf : List UInt16} (h : cdf.Pairwise (· < ·)) {i j : Nat} (hij : i < j)
    (hj : j < cdf.length) : (cdf.getD i 0).toNat < (cdf.getD j 0).toNat := by
  have hlt := List.pairwise_iff_getElem.1 h i j (by omega) hj hij
  rw [List.getD_eq_getElem?_getD, List.getD_eq_getElem?_getD, List.getElem?_eq_getElem hj,
    List.getElem?_eq_getElem (by omega)]
  exact UInt16.lt_iff_toNat_lt.1 hlt

theorem threshold_lt {w : UInt32} (hw : 2 ^ 24 ≤ w.toNat) {cdf : List UInt16}
    (h : cdf.Pairwise (· < ·)) {i j : Nat} (hij : i < j) (hj : j < cdf.length) :
    threshold w cdf i + 256 ≤ threshold w cdf j := by
  have hlt := getD_lt h hij hj
  have hmul : w.toNat * ((cdf.getD i 0).toNat + 1) ≤ w.toNat * (cdf.getD j 0).toNat :=
    Nat.mul_le_mul_left _ hlt
  rw [Nat.mul_succ] at hmul
  unfold threshold
  rw [scale_toNat, scale_toNat]
  omega

theorem threshold_mono {w : UInt32} (hw : 2 ^ 24 ≤ w.toNat) {cdf : List UInt16}
    (h : cdf.Pairwise (· < ·)) : ∀ i j, i ≤ j → j < cdf.length →
    threshold w cdf i ≤ threshold w cdf j := by
  intro i j hij hj
  rcases Nat.lt_or_eq_of_le hij with hlt | rfl
  · have := threshold_lt hw h hlt hj
    omega
  · exact Nat.le_refl _

theorem threshold_le (w : UInt32) (cdf : List UInt16) (i : Nat) : threshold w cdf i ≤ w.toNat := by
  have hc := (cdf.getD i 0).toNat_lt
  have hle : w.toNat * (cdf.getD i 0).toNat ≤ w.toNat * 65536 := Nat.mul_le_mul_left _ (by omega)
  unfold threshold
  rw [scale_toNat]
  omega

/-! ## One symbol -/

def Symbol.lower (y : Symbol) (w : UInt32) : UInt32 := scale w (y.cdf.getD y.index 0)

def Symbol.upper (y : Symbol) (w : UInt32) : UInt32 := scale w (y.cdf.getD (y.index + 1) 0)

variable {y : Symbol}

/-- The interval is narrowed to the part of the symbol, then scaled. -/
theorem encSymbol_spec (h : EncInv s) (hw : 2 ^ 24 ≤ s.wUpper.toNat) (y : Symbol) :
    ∃ s₁, encSymbol s y.data y.cdf = renormalize (2 * STREAM_MAXW16_60MS + 2) s₁ ∧ EncInv s₁ ∧
      s₁.octets = s.octets ∧ s₁.wUpper = y.upper s.wUpper - (y.lower s.wUpper + 1) ∧
      s₁.interval =
        s.interval.narrow (y.lower s.wUpper).toNat (y.upper s.wUpper).toNat := by
  have hlt : (y.lower s.wUpper).toNat + 256 ≤ (y.upper s.wUpper).toNat :=
    threshold_lt hw y.increasing (Nat.lt_succ_self y.index) y.inside
  have hle : (y.upper s.wUpper).toNat ≤ s.wUpper.toNat := threshold_le s.wUpper y.cdf (y.index + 1)
  have hlt32 := s.wUpper.toNat_lt
  have hlow : (y.lower s.wUpper + 1).toNat = (y.lower s.wUpper).toNat + 1 := by
    rw [UInt32.toNat_add]
    simp only [UInt32.reduceToNat]
    omega
  have hsub : (y.upper s.wUpper - (y.lower s.wUpper + 1)).toNat =
      (y.upper s.wUpper).toNat - ((y.lower s.wUpper).toNat + 1) := by
    rw [UInt32.toNat_sub_of_le _ _ (by rw [UInt32.le_iff_toNat_le, hlow]; omega), hlow]
  have htop := h.top
  have hwidth : s.interval.width = s.wUpper.toNat := rfl
  obtain ⟨s₁, hok, hb, ho, hint, -, -, hup⟩ := addToStream_spec
    (s := { s with wUpper := y.upper s.wUpper - (y.lower s.wUpper + 1) })
    (v := y.lower s.wUpper + 1) ⟨h.length, h.index, h.half⟩ (by
      rw [hlow]
      exact Nat.lt_of_le_of_lt (Nat.add_le_add_left (by omega) _) htop)
  have hint' : s₁.interval =
      s.interval.narrow (y.lower s.wUpper).toNat (y.upper s.wUpper).toNat := by
    rw [hint, hlow]
    simp only [BitstrEnc.interval, hsub]
    rfl
  refine ⟨s₁, ?_, ⟨hb, ?_⟩, ho, hup, hint'⟩
  · have hneg : ¬y.data < 0 := Int16.not_lt.2 y.nonneg
    have hin : y.data.toInt.toNat + 1 < y.cdf.length := y.inside
    simp only [encSymbol, if_neg hneg, load_eq (Nat.lt_of_succ_lt hin), load_eq hin, ok_bind]
    exact congrArg (· >>= _) hok
  · rw [hint', Interval.narrow_top (by omega), ho]
    exact Nat.lt_of_le_of_lt (Nat.add_le_add_left (by omega) _) htop

/-- Where the code is in the last interval it was in every earlier one, at the symbol's part, and
the decoder that cuts out this part goes on behind the encoder. -/
theorem encSymbol_follows (hl : ws.length = INTERNAL_STREAM_SIZE_W16) (h : EncInv s)
    (hw : 2 ^ 24 ≤ s.wUpper.toNat) (hok : encSymbol s y.data y.cdf = .ok s')
    (hfit : Fits ws s') :
    Fits ws s ∧ ∀ d, Follows ws s d →
      Slot (threshold d.wUpper y.cdf) y.index d.streamval.toNat ∧
      ∃ d', shiftInterval d (y.lower d.wUpper) (y.upper d.wUpper) = .ok d' ∧
        Follows ws s' d' := by
  obtain ⟨s₁, heq, h₁, ho, hup, hint⟩ := encSymbol_spec h hw y
  rw [heq] at hok
  obtain ⟨hfit₁, hdec⟩ := renormalize_follows hl h₁ hok hfit
  have hlt : (y.lower s.wUpper).toNat + 256 ≤ (y.upper s.wUpper).toNat :=
    threshold_lt hw y.increasing (Nat.lt_succ_self y.index) y.inside
  have hle : (y.upper s.wUpper).toNat ≤ s.wUpper.toNat := threshold_le s.wUpper y.cdf (y.index + 1)
  unfold Fits at hfit₁
  rw [hint, ho] at hfit₁
  obtain ⟨hfit₀, hgt, hle'⟩ := Interval.has_of_narrow (by omega) hle hfit₁
  refine ⟨hfit₀, fun d hd => ?_⟩
  have hval : code ws (s.octets + 4) - s.interval.low = d.streamval.toNat := by
    rw [← hd.streamval]
    omega
  rw [hval] at hgt hle'
  rw [hd.wUpper]
  refine ⟨⟨hgt, hle'⟩, hdec _ _ (by decide) ⟨hd.stream, hup.symm, hd.ahead.trans (by rw [ho]), ?_⟩⟩
  have hlow : (y.lower s.wUpper + 1).toNat = (y.lower s.wUpper).toNat + 1 := by
    have := s.wUpper.toNat_lt
    rw [UInt32.toNat_add]
    simp only [UInt32.reduceToNat]
    omega
  have hsub : (d.streamval - (y.lower s.wUpper + 1)).toNat =
      d.streamval.toNat - ((y.lower s.wUpper).toNat + 1) := by
    rw [UInt32.toNat_sub_of_le _ _ (by rw [UInt32.le_iff_toNat_le, hlow]; omega), hlow]
  rw [hint, ho, ← hd.streamval, hsub]
  simp only [Interval.narrow]
  omega

/-! ## The searches -/

/-- What both searches are to find. -/
def Symbol.found (y : Symbol) (w : UInt32) : Found :=
  { data := y.index, wLower := y.lower w, wUpper := y.upper w }

variable {w v : UInt32}

theorem Symbol.below_iff (y : Symbol) (hw : 2 ^ 24 ≤ w.toNat)
    (h : Slot (threshold w y.cdf) y.index v.toNat) {i : Nat} (hi : i < y.cdf.length) :
    scale w (y.cdf.getD i 0) < v ↔ i ≤ y.index := by
  rw [UInt32.lt_iff_toNat_lt]
  exact slot_lt_iff (threshold_mono hw y.increasing) y.inside h hi

theorem stepDown_found (hw : 2 ^ 24 ≤ w.toNat) (h : Slot (threshold w y.cdf) y.index v.toNat)
    {i : Nat} (hi : i < y.cdf.length) (hgt : y.index < i) :
    stepDown y.cdf w v i (scale w (y.cdf.getD i 0)) = .ok (y.found w) := by
  induction i with
  | zero => exact absurd hgt (Nat.not_lt_zero _)
  | succ i ih =>
    have hi' : i < y.cdf.length := Nat.lt_of_succ_lt hi
    simp only [stepDown, load_eq hi', ok_bind]
    split
    · rename_i hlt
      have hle := (y.below_iff hw h hi').1 hlt
      obtain rfl : i = y.index := by omega
      rfl
    · rename_i hlt
      exact ih hi' (Nat.lt_of_not_le fun hle => hlt ((y.below_iff hw h hi').2 hle))

theorem stepUp_found (hw : 2 ^ 24 ≤ w.toNat) (h : Slot (threshold w y.cdf) y.index v.toNat)
    {fuel i : Nat} (hle : i ≤ y.index) (hfuel : y.cdf.length ≤ i + fuel) :
    stepUp y.cdf w v fuel i (scale w (y.cdf.getD i 0)) = .ok (y.found w) := by
  have hin : y.index + 1 < y.cdf.length := y.inside
  induction fuel generalizing i with
  | zero => omega
  | succ fuel ih =>
    have hi : i + 1 < y.cdf.length := by omega
    have hne : y.cdf.getD i 0 ≠ 65535 := by
      intro hc
      have hlt := getD_lt y.increasing (Nat.lt_add_one i) hi
      have hmax := (y.cdf.getD (i + 1) 0).toNat_lt
      rw [hc] at hlt
      simp only [UInt16.reduceToNat] at hlt
      omega
    simp only [stepUp, load_eq (Nat.lt_of_succ_lt hi), load_eq hi, ok_bind, if_neg hne]
    have hiff := y.below_iff hw h hi
    rw [← UInt32.not_le] at hiff
    split
    · rename_i hv
      obtain rfl : i = y.index := by
        have : ¬i + 1 ≤ y.index := fun hc => (hiff.2 hc) hv
        omega
      rfl
    · rename_i hv
      exact ih (hiff.1 hv) (by omega)

theorem oneStep_found {d : BitstrDec} (hw : 2 ^ 24 ≤ d.wUpper.toNat)
    (h : Slot (threshold d.wUpper y.cdf) y.index d.streamval.toNat) {init : UInt16}
    (hinit : init.toNat < y.cdf.length) : oneStep d y.cdf init = .ok (y.found d.wUpper) := by
  simp only [oneStep, load_eq hinit, ok_bind]
  split
  · rename_i hlt
    exact stepUp_found hw h ((y.below_iff hw h hinit).1 hlt) (by omega)
  · rename_i hlt
    exact stepDown_found hw h hinit
      (Nat.lt_of_not_le fun hle => hlt ((y.below_iff hw h hinit).2 hle))

/-- Between `cdfPtr - 2 ^ j` and `cdfPtr + 2 ^ j` the symbol is still to be found; the bounds
outside the table are not set. -/
theorem bisect_found (hw : 2 ^ 24 ≤ w.toNat) (h : Slot (threshold w y.cdf) y.index v.toNat)
    {fuel j i : Nat} {lower upper : UInt32} (hfuel : j < fuel) (hlo : 2 ^ j ≤ i + 1)
    (hhi : i + 2 ^ j ≤ y.cdf.length) (hge : i ≤ y.index + 2 ^ j) (hlt : y.index < i + 2 ^ j)
    (hlower : 2 ^ j ≤ i → lower = scale w (y.cdf.getD (i - 2 ^ j) 0))
    (hupper : i + 2 ^ j < y.cdf.length → upper = scale w (y.cdf.getD (i + 2 ^ j) 0)) :
    bisect y.cdf w v fuel (2 ^ j) i lower upper = .ok (y.found w) := by
  have hin : y.index + 1 < y.cdf.length := y.inside
  induction fuel generalizing j i lower upper with
  | zero => omega
  | succ fuel ih =>
    have hpos : 0 < 2 ^ j := Nat.two_pow_pos j
    have hi : i < y.cdf.length := by omega
    have hiff := y.below_iff hw h hi
    simp only [bisect, load_eq hi, ok_bind]
    cases j with
    | zero =>
      simp only [Nat.pow_zero, Nat.reduceDiv, if_true] at *
      split
      · rename_i hv
        have hle := hiff.1 hv
        obtain rfl : i = y.index := by omega
        rw [hupper hin]
        rfl
      · rename_i hv
        have hnle : ¬i ≤ y.index := fun hc => hv (hiff.2 hc)
        obtain rfl : i = y.index + 1 := by omega
        rw [hlower (by omega)]
        simp only [Symbol.found, Nat.add_sub_cancel, Symbol.lower, Symbol.upper]
        congr 2
        omega
    | succ j =>
      have hpow : 2 ^ (j + 1) = 2 ^ j * 2 := Nat.pow_succ 2 j
      have hposj : 0 < 2 ^ j := Nat.two_pow_pos j
      have hhalf : 2 ^ (j + 1) / 2 = 2 ^ j := by omega
      rw [hhalf, if_neg (by omega)]
      split
      · rename_i hv
        have hle := hiff.1 hv
        refine ih (by omega) (by omega) (by omega) (by omega) (by omega) (fun _ => ?_) fun hc => ?_
        · rw [Nat.add_sub_cancel]
        · rw [hupper (by omega)]
          congr 2
          omega
      · rename_i hv
        have hnle : ¬i ≤ y.index := fun hc => hv (hiff.2 hc)
        rw [if_neg (by omega)]
        refine ih (by omega) (by omega) (by omega) (by omega) (by omega) (fun hc => ?_) fun _ => ?_
        · rw [hlower (by omega)]
          congr 2
          omega
        · congr 2
          omega

/-! ## Whole calls -/

def Symbol.input (y : Symbol) : Int16 × List UInt16 := (y.data, y.cdf)

/-- Between two symbols the interval is not small. -/
structure Ready (s : BitstrEnc) : Prop extends EncInv s where
  width : 2 ^ 24 ≤ s.wUpper.toNat

theorem encSymbol_ready (h : Ready s) (hok : encSymbol s y.data y.cdf = .ok s') : Ready s' := by
  obtain ⟨s₁, heq, h₁, -⟩ := encSymbol_spec h.toEncInv h.width y
  rw [heq] at hok
  obtain ⟨h', hw'⟩ := renormalize_inv h₁ hok
  exact ⟨h', hw'⟩

/-- The carry stays inside the stream and the loop ends: the only failure is that the stream is
full. -/
theorem encSymbol_defined (h : Ready s) (y : Symbol) :
    encSymbol s y.data y.cdf = .error (.code (-ISAC_DISALLOWED_BITSTREAM_LENGTH)) ∨
    ∃ s', encSymbol s y.data y.cdf = .ok s' := by
  obtain ⟨s₁, heq, h₁, -, -, hint⟩ := encSymbol_spec h.toEncInv h.width y
  have hlt : (y.lower s.wUpper).toNat + 256 ≤ (y.upper s.wUpper).toNat :=
    threshold_lt h.width y.increasing (Nat.lt_succ_self y.index) y.inside
  have hwidth : s₁.wUpper.toNat =
      (y.upper s.wUpper).toNat - ((y.lower s.wUpper).toNat + 1) := congrArg Interval.width hint
  rw [heq]
  refine renormalize_defined (k := 3) (by decide) h₁ ?_
  calc 2 ^ 24 ≤ 255 * 256 ^ 3 := by decide
    _ ≤ s₁.wUpper.toNat * 256 ^ 3 := Nat.mul_le_mul_right _ (by omega)

theorem encHistMulti_defined (h : Ready s) (ys : List Symbol) :
    encHistMulti s (ys.map Symbol.input) =
      .error (.code (-ISAC_DISALLOWED_BITSTREAM_LENGTH)) ∨
    ∃ s', encHistMulti s (ys.map Symbol.input) = .ok s' := by
  induction ys generalizing s with
  | nil => exact Or.inr ⟨s, rfl⟩
  | cons y ys ih =>
    unfold encHistMulti at ih ⊢
    rw [List.map_cons, List.foldlM_cons]
    rcases encSymbol_defined h y with hs | ⟨s₁, hs⟩
    · simp only [Symbol.input]
      rw [hs, error_bind]
      exact Or.inl rfl
    · simp only [Symbol.input] at ih ⊢
      rw [hs, ok_bind]
      exact ih (encSymbol_ready h hs)

theorem encHistMulti_cons {ys : List Symbol}
    (hok : encHistMulti s ((y :: ys).map Symbol.input) = .ok s') :
    ∃ s₁, encSymbol s y.data y.cdf = .ok s₁ ∧
      encHistMulti s₁ (ys.map Symbol.input) = .ok s' := by
  unfold encHistMulti at hok
  rw [List.map_cons, List.foldlM_cons] at hok
  exact bind_ok hok

theorem encHistMulti_ready {ys : List Symbol} (h : Ready s)
    (hok : encHistMulti s (ys.map Symbol.input) = .ok s') : Ready s' := by
  induction ys generalizing s with
  | nil =>
    cases hok
    exact h
  | cons y ys ih =>
    obtain ⟨s₁, hs, hrest⟩ := encHistMulti_cons hok
    exact ih (encSymbol_ready h hs) hrest

theorem encHistMulti_fits (hl : ws.length = INTERNAL_STREAM_SIZE_W16) {ys : List Symbol}
    (h : Ready s) (hok : encHistMulti s (ys.map Symbol.input) = .ok s') (hfit : Fits ws s') :
    Fits ws s := by
  induction ys generalizing s with
  | nil =>
    cases hok
    exact hfit
  | cons y ys ih =>
    obtain ⟨s₁, hs, hrest⟩ := encHistMulti_cons hok
    exact (encSymbol_follows hl h.toEncInv h.width hs (ih (encSymbol_ready h hs) hrest)).1

theorem Symbol.ofInt_index (y : Symbol) : Int16.ofInt y.index = y.data := by
  have hnn : 0 ≤ y.data.toInt := by
    have := Int16.le_iff_toInt_le.1 y.nonneg
    simpa using this
  rw [Symbol.index, Int.toNat_of_nonneg hnn, Int16.ofInt_toInt]

/-- The symbols a decoder call is to find, each with its `initIndex` or its `cdfSize`. -/
abbrev Items := List (Symbol × UInt16)

def Items.symbols (ps : Items) : List Symbol := ps.map Prod.fst

def Items.input (ps : Items) : List (List UInt16 × UInt16) := ps.map fun p => (p.1.cdf, p.2)

theorem decOneStepSymbols_follows (hl : ws.length = INTERNAL_STREAM_SIZE_W16) {ps : Items}
    (hps : ∀ p ∈ ps, p.2.toNat < p.1.cdf.length) (h : Ready s)
    (hok : encHistMulti s (ps.symbols.map Symbol.input) = .ok s') (hfit : Fits ws s')
    (hd : Follows ws s d) :
    ∃ d', decOneStepSymbols d ps.input = .ok (ps.symbols.map Symbol.data, d') ∧
      Follows ws s' d' := by
  induction ps generalizing s d with
  | nil =>
    cases hok
    exact ⟨d, rfl, hd⟩
  | cons p ps ih =>
    obtain ⟨s₁, hs, hrest⟩ := encHistMulti_cons hok
    have h₁ := encSymbol_ready h hs
    obtain ⟨-, hdec⟩ := encSymbol_follows hl h.toEncInv h.width hs (encHistMulti_fits hl h₁ hrest hfit)
    obtain ⟨hslot, d₁, hshift, hd₁⟩ := hdec d hd
    obtain ⟨d', hok', hd'⟩ := ih (fun q hq => hps q (List.mem_cons_of_mem p hq)) h₁ hrest hd₁
    have hfound := oneStep_found (by rw [hd.wUpper]; exact h.width) hslot
      (hps p List.mem_cons_self)
    refine ⟨d', ?_, hd'⟩
    simp only [Items.input, Items.symbols, List.map_cons, decOneStepSymbols] at hok' ⊢
    rw [hfound, ok_bind]
    simp only [Symbol.found]
    rw [hshift, ok_bind, hok', ok_bind, p.1.ofInt_index]
    rfl

/-- A table of `2 ^ k - 1` entries. -/
def Bisectable (p : Symbol × UInt16) : Prop :=
  p.2.toNat = p.1.cdf.length + 1 ∧ ∃ k, p.1.cdf.length + 1 = 2 ^ k

theorem bisect_symbol {p : Symbol × UInt16} (hp : Bisectable p) (hw : 2 ^ 24 ≤ d.wUpper.toNat)
    (hslot : Slot (threshold d.wUpper p.1.cdf) p.1.index d.streamval.toNat) (lower : UInt32) :
    p.2.toNat / 2 ≠ 0 ∧
    bisect p.1.cdf d.wUpper d.streamval 16 (p.2.toNat / 2) (p.2.toNat / 2 - 1) lower d.wUpper =
      .ok (p.1.found d.wUpper) := by
  obtain ⟨hsize, k, hk⟩ := hp
  have hin : p.1.index + 1 < p.1.cdf.length := p.1.inside
  have hlt := p.2.toNat_lt
  cases k with
  | zero =>
    rw [Nat.pow_zero] at hk
    omega
  | succ k =>
    have hpow : 2 ^ (k + 1) = 2 ^ k * 2 := Nat.pow_succ 2 k
    have hhalf : p.2.toNat / 2 = 2 ^ k := by omega
    have hpos : 0 < 2 ^ k := Nat.two_pow_pos k
    have hk16 : k < 16 := by
      refine Nat.lt_of_not_le fun hc => ?_
      have := Nat.pow_le_pow_right (n := 2) (by decide) hc
      omega
    rw [hhalf]
    exact ⟨by omega, bisect_found hw hslot hk16 (by omega) (by omega) (by omega) (by omega)
      (fun hc => by omega) fun hc => by omega⟩

theorem decBisectSymbols_follows (hl : ws.length = INTERNAL_STREAM_SIZE_W16) {ps : Items}
    (hps : ∀ p ∈ ps, Bisectable p) (h : Ready s)
    (hok : encHistMulti s (ps.symbols.map Symbol.input) = .ok s') (hfit : Fits ws s')
    (hd : Follows ws s d) (lower : UInt32) :
    ∃ d', decBisectSymbols d lower ps.input = .ok (ps.symbols.map Symbol.data, d') ∧
      Follows ws s' d' := by
  induction ps generalizing s d lower with
  | nil =>
    cases hok
    exact ⟨d, rfl, hd⟩
  | cons p ps ih =>
    obtain ⟨s₁, hs, hrest⟩ := encHistMulti_cons hok
    have h₁ := encSymbol_ready h hs
    obtain ⟨-, hdec⟩ := encSymbol_follows hl h.toEncInv h.width hs (encHistMulti_fits hl h₁ hrest hfit)
    obtain ⟨hslot, d₁, hshift, hd₁⟩ := hdec d hd
    obtain ⟨d', hok', hd'⟩ := ih (fun q hq => hps q (List.mem_cons_of_mem p hq)) h₁ hrest hd₁
      (p.1.lower d.wUpper + 1)
    obtain ⟨hsize, hfound⟩ := bisect_symbol (hps p List.mem_cons_self)
      (by rw [hd.wUpper]; exact h.width) hslot lower
    have hne : d₁.wUpper ≠ 0 := by
      intro hc
      have := h₁.width
      rw [← hd₁.wUpper, hc] at this
      exact absurd this (by decide)
    refine ⟨d', ?_, hd'⟩
    simp only [Items.input, Items.symbols, List.map_cons, decBisectSymbols, if_neg hsize] at hok' ⊢
    rw [hfound, ok_bind]
    simp only [Symbol.found]
    rw [hshift, ok_bind, if_neg hne, hok', ok_bind, p.1.ofInt_index]
    rfl

/-! ## Runs of calls -/

/-- A call of one of the two decoders. -/
structure Call where
  bisection : Bool
  items : Items

namespace Call

variable (c : Call)

/-- `initIndex` is inside the table; for the bisection the table has `2 ^ k - 1` entries and
`cdfSize` is one more. -/
def Proper : Prop :=
  ∀ p ∈ c.items, if c.bisection then Bisectable p else p.2.toNat < p.1.cdf.length

def run (d : BitstrDec) : Except Failure (List Int16 × Int × BitstrDec) :=
  if c.bisection then decHistBisectMulti d c.items.input else decHistOneStepMulti d c.items.input

end Call

/-- The symbols and the return value of each call. -/
def runCalls (d : BitstrDec) : List Call → Except Failure (List (List Int16 × Int))
  | [] => return []
  | c :: cs => do
    let (data, n, d) ← c.run d
    let rest ← runCalls d cs
    return (data, n) :: rest

/-- Once the first words are read the decoder is where it has to be. -/
def Begins (ws : List UInt16) (s : BitstrEnc) (d : BitstrDec) : Prop :=
  d.wUpper = s.wUpper ∧ ∃ d', firstWords d = .ok d' ∧ Follows ws s d'

theorem Follows.begins (hd : Follows ws s d) : Begins ws s d := by
  refine ⟨hd.wUpper, d, ?_, hd⟩
  have ha := hd.ahead
  have hne : d.streamIndex ≠ 0 := by
    intro hc
    unfold filled at ha
    split at ha <;> omega
  simp only [firstWords, if_neg hne]
  rfl

theorem begins_initial (hl : ws.length = INTERNAL_STREAM_SIZE_W16) (stream : List UInt16) :
    Begins ws { stream } { stream := ws } := by
  have h0 : 0 < ws.length := by rw [hl]; decide
  have h1 : 1 < ws.length := by rw [hl]; decide
  refine ⟨rfl, ?_⟩
  simp only [firstWords, if_true, load_eq h0, load_eq h1, ok_bind]
  refine ⟨_, rfl, rfl, rfl, rfl, ?_⟩
  have hval : ((ws.getD 0 0).toUInt32 <<< 16 ||| (ws.getD 1 0).toUInt32).toNat =
      (ws.getD 0 0).toNat * 65536 + (ws.getD 1 0).toNat := by
    have hlt0 := (ws.getD 0 0).toNat_lt
    have hlt1 := (ws.getD 1 0).toNat_lt
    rw [UInt32.toNat_or, UInt32.toNat_shiftLeft, UInt16.toNat_toUInt32, UInt16.toNat_toUInt32]
    simp only [UInt32.reduceToNat, Nat.reduceMod, Nat.shiftLeft_eq]
    rw [Nat.mod_eq_of_lt (by omega), Nat.mul_comm]
    exact (Nat.two_pow_add_eq_or_of_lt (i := 16) hlt1 _).symm
  have hcode : code ws 4 = (ws.getD 0 0).toNat * 65536 + (ws.getD 1 0).toNat := by
    have hz : code ws (2 * 0) = 0 := rfl
    have hone : code ws (2 * 1) = (ws.getD 0 0).toNat := by
      rw [code_word, hz, Nat.zero_mul, Nat.zero_add]
    calc code ws (2 * (1 + 1)) = code ws (2 * 1) * 65536 + (ws.getD 1 0).toNat := code_word ws 1
      _ = (ws.getD 0 0).toNat * 65536 + (ws.getD 1 0).toNat := by rw [hone]
  have hlow : (BitstrEnc.interval { stream }).low = 0 := by
    simp [BitstrEnc.interval, BitstrEnc.octets, filled, code, value]
  rw [hlow, hval, Nat.zero_add]
  exact hcode.symm

theorem Call.run_follows {c : Call} (hl : ws.length = INTERNAL_STREAM_SIZE_W16) (hc : c.Proper)
    (h : Ready s) (hok : encHistMulti s (c.items.symbols.map Symbol.input) = .ok s')
    (hfit : Fits ws s') (hd : Begins ws s d) :
    ∃ d', c.run d = .ok (c.items.symbols.map Symbol.data, streamLength d', d') ∧
      Follows ws s' d' := by
  obtain ⟨hup, d₀, hfirst, hd₀⟩ := hd
  have hne : d.wUpper ≠ 0 := by
    intro hz
    have := h.width
    rw [← hup, hz] at this
    exact absurd this (by decide)
  unfold Call.run
  unfold Call.Proper at hc
  cases hb : c.bisection with
  | true =>
    simp only [hb, if_true] at hc ⊢
    obtain ⟨d', hdec, hd'⟩ := decBisectSymbols_follows hl hc h hok hfit hd₀ 0
    refine ⟨d', ?_, hd'⟩
    simp only [decHistBisectMulti, if_neg hne, hfirst, ok_bind, hdec]
    rfl
  | false =>
    simp only [hb, Bool.false_eq_true, if_false] at hc ⊢
    obtain ⟨d', hdec, hd'⟩ := decOneStepSymbols_follows hl hc h hok hfit hd₀
    refine ⟨d', ?_, hd'⟩
    simp only [decHistOneStepMulti, if_neg hne, hfirst, ok_bind, hdec]
    rfl

theorem encHistMulti_append {a b : List Symbol}
    (hok : encHistMulti s ((a ++ b).map Symbol.input) = .ok s') :
    ∃ s₁, encHistMulti s (a.map Symbol.input) = .ok s₁ ∧
      encHistMulti s₁ (b.map Symbol.input) = .ok s' := by
  unfold encHistMulti at hok
  rw [List.map_append, List.foldlM_append] at hok
  exact bind_ok hok

/-- All calls together find the symbols; the last one has read to where the encoder stopped. -/
theorem runCalls_follows (hl : ws.length = INTERNAL_STREAM_SIZE_W16) {calls : List Call}
    (hcalls : ∀ c ∈ calls, c.Proper) (h : Ready s)
    (hok : encHistMulti s ((calls.flatMap (·.items.symbols)).map Symbol.input) = .ok s')
    (hfit : Fits ws s') (hd : Begins ws s d) :
    ∃ results, runCalls d calls = .ok results ∧
      results.flatMap Prod.fst = (calls.flatMap (·.items.symbols)).map Symbol.data ∧
      (calls ≠ [] → ∃ d', Follows ws s' d' ∧
        results.getLast?.map Prod.snd = some (streamLength d')) := by
  induction calls generalizing s d with
  | nil => exact ⟨[], rfl, rfl, fun hc => absurd rfl hc⟩
  | cons c cs ih =>
    rw [List.flatMap_cons] at hok
    obtain ⟨s₁, hs, hrest⟩ := encHistMulti_append hok
    have h₁ := encHistMulti_ready h hs
    have hfit₁ := encHistMulti_fits hl h₁ hrest hfit
    obtain ⟨d₁, hrun, hd₁⟩ :=
      Call.run_follows hl (hcalls c List.mem_cons_self) h hs hfit₁ hd
    obtain ⟨results, hres, hdata, hlast⟩ :=
      ih (fun c hc => hcalls c (List.mem_cons_of_mem _ hc)) h₁ hrest hd₁.begins
    refine ⟨(c.items.symbols.map Symbol.data, streamLength d₁) :: results, ?_, ?_, fun _ => ?_⟩
    · simp only [runCalls, hrun, ok_bind, hres]
      rfl
    · rw [List.flatMap_cons, List.flatMap_cons, List.map_append, hdata]
    · cases cs with
      | nil =>
        cases hres
        cases hrest
        exact ⟨d₁, hd₁, rfl⟩
      | cons c' cs =>
        obtain ⟨d', hd', hl'⟩ := hlast (List.cons_ne_nil c' cs)
        refine ⟨d', hd', ?_⟩
        rw [← hl', List.getLast?_cons]
        cases results with
        | nil => cases hl'
        | cons r rs => rfl

theorem Follows.streamLength_eq (hd : Follows ws s d) :
    streamLength d = (s.octets + if 0x01FFFFFF < s.wUpper then 1 else 2 : Nat) := by
  have ha := hd.ahead
  unfold filled at ha
  unfold streamLength
  rw [hd.wUpper]
  split <;> split at ha <;> simp_all <;> omega

theorem foldlM_encHistMulti (groups : List (List Symbol)) (s : BitstrEnc) :
    groups.foldlM (fun s g => encHistMulti s (g.map Symbol.input)) s =
      encHistMulti s (groups.flatten.map Symbol.input) := by
  induction groups generalizing s with
  | nil => rfl
  | cons g groups ih =>
    unfold encHistMulti at ih ⊢
    rw [List.foldlM_cons, List.flatten_cons, List.map_append, List.foldlM_append]
    exact bind_congr fun s => ih s

theorem ready_initial {stream : List UInt16} (hl : stream.length = STREAM_MAXW16_60MS) :
    Ready { stream } where
  length := hl
  index := Nat.zero_lt_succ 199
  half := nofun
  top := by
    simp [BitstrEnc.interval, BitstrEnc.octets, filled, code, value]
  width := (by decide : 2 ^ 24 ≤ (0xFFFFFFFF : UInt32).toNat)

/-- Whatever symbols the encoder takes, in whatever groups, and whatever follows the octets it
ends with: the decoders, called for the same tables in whatever groups, return the symbols, and
the last call returns the number of octets. -/
theorem round_trip (groups : List (List Symbol)) (calls : List Call) (hne : calls ≠ [])
    (hsame : calls.flatMap (·.items.symbols) = groups.flatten) (hcalls : ∀ c ∈ calls, c.Proper)
    (stream : List UInt16) (hstream : stream.length = STREAM_MAXW16_60MS) (s : BitstrEnc)
    (henc : groups.foldlM (fun s g => encHistMulti s (g.map Symbol.input)) { stream } = .ok s)
    (n : Nat) (written : List UInt16) (hterm : encTerminate s = .ok (n, written))
    (ws : List UInt16) (hws : ws.length = INTERNAL_STREAM_SIZE_W16)
    (hoctets : ∀ j < n, octet ws j = octet written j) :
    ∃ results, runCalls { stream := ws } calls = .ok results ∧
      results.flatMap Prod.fst = groups.flatten.map Symbol.data ∧
      results.getLast?.map Prod.snd = some (n : Int) := by
  rw [foldlM_encHistMulti, ← hsame] at henc
  have h₀ := ready_initial hstream
  have h := encHistMulti_ready h₀ henc
  obtain ⟨k, hk, hn, hcode⟩ := encTerminate_spec h.toEncInv h.width hterm
  have hfit : Fits ws s := by
    have hsame : code ws n = code written n := value_congr hoctets
    rw [hcode, hn] at hsame
    refine fits_of_close (k := k) ?_ ?_ hsame
    · rw [hk]
      split <;> decide
    · have hw := h.width
      rw [hk]
      split
      · rename_i hbig
        have := UInt32.lt_iff_toNat_lt.1 hbig
        simp only [UInt32.reduceToNat] at this
        omega
      · omega
  obtain ⟨results, hrun, hdata, hlast⟩ :=
    runCalls_follows hws hcalls h₀ henc hfit (begins_initial hws stream)
  obtain ⟨d', hd', hl'⟩ := hlast hne
  refine ⟨results, hrun, by rw [hdata, hsame], ?_⟩
  rw [hl', hd'.streamLength_eq, hn, hk]

/-- A symbol of a table of two. -/
def ofTwo (data : Int16) (h0 : 0 ≤ data) (h : data.toInt.toNat + 1 < 3) : Symbol where
  data
  cdf := [0, 100, 65535]
  increasing := by decide
  first := rfl
  last := rfl
  nonneg := h0
  inside := h

def rare : Symbol := ofTwo 0 (by decide) (by decide)

def common : Symbol := ofTwo 1 (by decide) (by decide)

set_option maxRecDepth 4000 in
theorem round_trip_three :
    ∃ results, runCalls { stream := 0 :: 0x28FF :: List.replicate 303 0xFFFF }
        [⟨true, [(rare, 4), (common, 4)]⟩, ⟨false, [(rare, 2)]⟩] = .ok results ∧
      results.flatMap Prod.fst = [0, 1, 0] ∧ results.getLast?.map Prod.snd = some 3 := by
  refine round_trip [[rare], [common, rare]]
    [⟨true, [(rare, 4), (common, 4)]⟩, ⟨false, [(rare, 2)]⟩] (List.cons_ne_nil _ _) rfl ?_
    (List.replicate 200 0) rfl
    { stream := List.replicate 200 0, wUpper := 654349312, streamval := 655425792, streamIndex := 1 }
    (by decide) 3 ((List.replicate 200 0).set 1 0x2800) (by decide)
    (0 :: 0x28FF :: List.replicate 303 0xFFFF) (by decide) (by decide)
  intro c hc
  rcases List.mem_cons.1 hc with rfl | hc
  · intro p hp
    rcases List.mem_cons.1 hp with rfl | hp
    · exact ⟨rfl, 2, rfl⟩
    · rw [List.mem_singleton] at hp
      subst hp
      exact ⟨rfl, 2, rfl⟩
  · rw [List.mem_singleton] at hc
    subst hc
    intro p hp
    rw [List.mem_singleton] at hp
    subst hp
    exact (by decide : 2 < 3)

end RtcCore.L1.Isac
