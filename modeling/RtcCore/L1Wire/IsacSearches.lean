import RtcCore.L1Wire.IsacRoundTrip

/-!
# The two histogram decoders

`DecHistBisectMulti` halves a table, `DecHistOneStepMulti` walks through it and
checks its ends. Where the stream value is in the part of some symbol both find
it. A value of zero, or above what the last entry stands for, is in no symbol's
part: the walk reports it, the bisection has no such check and goes on with a
symbol that is not in the table and with a bound of the symbol before.

Results:
* `decOneStepSymbols_error`: the walk reports every value outside.
* `decBisectSymbols_reports_nothing`: the bisection reports none.
* `sameDecoding_iff`: the decoders agree exactly on the streams whose value is
  inside at each symbol.
-/
namespace RtcCore.L1.Isac

open RangeCoder

/-! ## Tables for both -/

/-- A table with the arguments the decoders take for it. -/
structure Table where
  cdf : List UInt16
  cdfSize : UInt16
  initIndex : UInt16
  increasing : cdf.Pairwise (· < ·)
  first : cdf.head? = some 0
  last : cdf.getLast? = some 65535
  size : cdfSize.toNat = cdf.length + 1
  pow : ∃ k, cdf.length + 1 = 2 ^ k
  init : initIndex.toNat < cdf.length

/-- The values that are in the part of some symbol. -/
def Inside (w v : UInt32) : Prop := 0 < v ∧ v ≤ scale w 65535

instance (w v : UInt32) : Decidable (Inside w v) := inferInstanceAs (Decidable (_ ∧ _))

namespace Table

variable (t : Table)

def bisected : List UInt16 × UInt16 := (t.cdf, t.cdfSize)

def stepped : List UInt16 × UInt16 := (t.cdf, t.initIndex)

theorem getD_zero : t.cdf.getD 0 0 = 0 := by
  rw [List.getD_eq_getElem?_getD, ← List.head?_eq_getElem?, t.first]
  rfl

theorem getD_last : t.cdf.getD (t.cdf.length - 1) 0 = 65535 := by
  rw [List.getD_eq_getElem?_getD, ← List.getLast?_eq_getElem?, t.last]
  rfl

/-- The entries are found with 16-bit numbers and the symbols fit in signed ones. -/
theorem length_lt : t.cdf.length < 32768 := by
  obtain ⟨k, hk⟩ := t.pow
  have hsize := t.size
  have hlt := t.cdfSize.toNat_lt
  rcases Nat.lt_or_ge k 16 with hk16 | hk16
  · have := Nat.pow_le_pow_right (n := 2) (by decide) (show k ≤ 15 by omega)
    omega
  · have := Nat.pow_le_pow_right (n := 2) (by decide) hk16
    omega

theorem toInt_ofInt {i : Nat} (h : i + 1 < t.cdf.length) : (Int16.ofInt i).toInt = i := by
  have := t.length_lt
  exact Int16.toInt_ofInt_of_le (by omega) (by omega)

/-- Symbol `i` of the table. -/
def symbol (i : Nat) (h : i + 1 < t.cdf.length) : Symbol where
  data := Int16.ofInt i
  cdf := t.cdf
  increasing := t.increasing
  first := t.first
  last := t.last
  nonneg := by
    rw [Int16.le_iff_toInt_le, t.toInt_ofInt h]
    exact Int.natCast_nonneg i
  inside := by
    rw [t.toInt_ofInt h]
    exact h

theorem index_symbol {i : Nat} (h : i + 1 < t.cdf.length) : (t.symbol i h).index = i := by
  unfold Symbol.index symbol
  rw [t.toInt_ofInt h]
  rfl

theorem threshold_zero (w : UInt32) : threshold w t.cdf 0 = 0 := by
  unfold threshold
  rw [scale_toNat, t.getD_zero, UInt16.toNat_zero, Nat.mul_zero, Nat.zero_div]

theorem threshold_last (w : UInt32) :
    threshold w t.cdf (t.cdf.length - 1) = (scale w 65535).toNat := by
  unfold threshold
  rw [t.getD_last]

theorem exists_symbol {w v : UInt32} (h : Inside w v) :
    ∃ i, i + 1 < t.cdf.length ∧ Slot (threshold w t.cdf) i v.toNat := by
  have hpos : threshold w t.cdf 0 < v.toNat := by
    rw [t.threshold_zero]
    exact UInt32.lt_iff_toNat_lt.1 h.1
  have hle : v.toNat ≤ threshold w t.cdf (t.cdf.length - 1) := by
    rw [t.threshold_last]
    exact UInt32.le_iff_toNat_le.1 h.2
  obtain ⟨i, hi, hslot⟩ := exists_slot hpos hle
  exact ⟨i, by omega, hslot⟩

/-- No entry is below a value that is not inside, or all are. -/
theorem outside {w v : UInt32} (hw : 2 ^ 24 ≤ w.toNat) (h : ¬ Inside w v) :
    (∀ i < t.cdf.length, ¬ scale w (t.cdf.getD i 0) < v) ∨
      ∀ i < t.cdf.length, scale w (t.cdf.getD i 0) < v := by
  by_cases hpos : 0 < v
  · refine .inr fun i hi => ?_
    have hmono := threshold_mono hw t.increasing i (t.cdf.length - 1) (by omega) (by omega)
    rw [t.threshold_last] at hmono
    have hlt := UInt32.lt_iff_toNat_lt.1 (UInt32.not_le.1 fun hc => h ⟨hpos, hc⟩)
    exact UInt32.lt_iff_toNat_lt.2 (Nat.lt_of_le_of_lt hmono hlt)
  · refine .inl fun i _ hlt => hpos ?_
    rw [UInt32.lt_iff_toNat_lt] at hlt ⊢
    exact Nat.lt_of_le_of_lt (Nat.zero_le _) hlt

end Table

/-! ## Searches that fail -/

theorem stepDown_error {cdf : List UInt16} {w v : UInt32} {i : Nat} (hi : i ≤ cdf.length)
    (h : ∀ k < cdf.length, ¬ scale w (cdf.getD k 0) < v) (wTmp : UInt32) :
    stepDown cdf w v i wTmp = .error (.code (-3)) := by
  induction i generalizing wTmp with
  | zero => rfl
  | succ i ih =>
    simp only [stepDown, load_eq (show i < cdf.length from hi), ok_bind]
    rw [if_neg (h i hi)]
    exact ih (Nat.le_of_succ_le hi) _

theorem Table.stepUp_error (t : Table) {w v : UInt32}
    (h : ∀ k < t.cdf.length, scale w (t.cdf.getD k 0) < v) {fuel i : Nat} (hi : i < t.cdf.length)
    (hfuel : t.cdf.length ≤ i + fuel) (wTmp : UInt32) :
    stepUp t.cdf w v fuel i wTmp = .error (.code (-3)) := by
  induction fuel generalizing i wTmp with
  | zero => omega
  | succ fuel ih =>
    simp only [stepUp, load_eq hi, ok_bind]
    by_cases hend : t.cdf.getD i 0 = 65535
    · rw [if_pos hend]
      rfl
    · rw [if_neg hend]
      have hi' : i + 1 < t.cdf.length := by
        refine Nat.lt_of_not_le fun hc => hend ?_
        rw [show i = t.cdf.length - 1 by omega]
        exact t.getD_last
      simp only [load_eq hi', ok_bind]
      rw [if_neg (UInt32.not_le.2 (h (i + 1) hi'))]
      exact ih hi' (by omega) _

theorem Table.oneStep_error (t : Table) {s : BitstrDec} (hw : 2 ^ 24 ≤ s.wUpper.toNat)
    (h : ¬ Inside s.wUpper s.streamval) :
    oneStep s t.cdf t.initIndex = .error (.code (-3)) := by
  simp only [oneStep, load_eq t.init, ok_bind]
  rcases t.outside hw h with hall | hall
  · rw [if_neg (hall _ t.init)]
    exact stepDown_error (Nat.le_of_lt t.init) hall _
  · rw [if_pos (hall _ t.init)]
    exact t.stepUp_error hall t.init (by omega) _

/-! ## Errors that are reported -/

/-- The call does not return an error. -/
def Unreported {α : Type} (x : Except Failure α) : Prop := ∀ c, x ≠ .error (.code c)

theorem Unreported.bind {α β : Type} {x : Except Failure α} {f : α → Except Failure β}
    (hx : Unreported x) (hf : ∀ a, x = .ok a → Unreported (f a)) : Unreported (x >>= f) := by
  cases x with
  | ok a => exact hf a rfl
  | error e =>
    cases e with
    | code c => exact absurd rfl (hx c)
    | undefined => exact fun c hc => nomatch hc

theorem unreported_ok {α : Type} (a : α) : Unreported (.ok a) := fun _ hc => nomatch hc

theorem unreported_undefined {α : Type} : Unreported (.error .undefined : Except Failure α) :=
  fun _ hc => nomatch hc

theorem unreported_load (ws : List UInt16) (i : Nat) : Unreported (load ws i) := by
  unfold load
  split
  · exact unreported_ok _
  · exact unreported_undefined

theorem unreported_readByte (s : BitstrDec) : Unreported (readByte s) :=
  (unreported_load _ _).bind fun w _ => by
    split
    · exact unreported_ok _
    · exact unreported_ok _

theorem unreported_decRenormalize (fuel : Nat) (s : BitstrDec) :
    Unreported (decRenormalize fuel s) := by
  induction fuel generalizing s with
  | zero => exact unreported_undefined
  | succ fuel ih =>
    unfold decRenormalize
    split
    · exact (unreported_readByte s).bind fun s' _ => ih s'
    · exact unreported_ok s

theorem unreported_bisect (cdf : List UInt16) (w v : UInt32) (fuel sizeTmp cdfPtr : Nat)
    (wLower wUpper : UInt32) : Unreported (bisect cdf w v fuel sizeTmp cdfPtr wLower wUpper) := by
  induction fuel generalizing sizeTmp cdfPtr wLower wUpper with
  | zero => exact unreported_undefined
  | succ fuel ih =>
    unfold bisect
    refine (unreported_load _ _).bind fun c _ => ?_
    dsimp only
    repeat' split
    · exact unreported_ok _
    · exact unreported_ok _
    · exact ih _ _ _ _
    · exact unreported_undefined
    · exact ih _ _ _ _

/-- Renormalisation leaves a wide interval. -/
theorem decRenormalize_width {fuel : Nat} {s s' : BitstrDec}
    (h : decRenormalize fuel s = .ok s') : 2 ^ 24 ≤ s'.wUpper.toNat := by
  induction fuel generalizing s with
  | zero => cases h
  | succ fuel ih =>
    unfold decRenormalize at h
    split at h
    · obtain ⟨s₁, -, h₁⟩ := bind_ok h
      exact ih h₁
    · rename_i hw
      cases h
      exact Nat.le_of_not_lt fun hc => hw (wUpper_small.2 hc)

theorem ne_zero_of_width {s : BitstrDec} (hw : 2 ^ 24 ≤ s.wUpper.toNat) : s.wUpper ≠ 0 := by
  intro hc
  rw [hc] at hw
  exact absurd hw (by decide)

/-! ## Whole calls -/

def Table.found (t : Table) (i : Nat) (w : UInt32) : Found :=
  { data := i, wLower := scale w (t.cdf.getD i 0), wUpper := scale w (t.cdf.getD (i + 1) 0) }

theorem Table.found_symbol (t : Table) {i : Nat} (h : i + 1 < t.cdf.length) (w : UInt32) :
    (t.symbol i h).found w = t.found i w := by
  unfold Symbol.found Symbol.lower Symbol.upper
  rw [t.index_symbol h]
  rfl

/-- Both searches find the symbol, whatever the bound of the symbol before. -/
theorem Table.searches (t : Table) {s : BitstrDec} (hw : 2 ^ 24 ≤ s.wUpper.toNat) {i : Nat}
    (hi : i + 1 < t.cdf.length) (hslot : Slot (threshold s.wUpper t.cdf) i s.streamval.toNat)
    (lower : UInt32) :
    oneStep s t.cdf t.initIndex = .ok (t.found i s.wUpper) ∧ t.cdfSize.toNat / 2 ≠ 0 ∧
      bisect t.cdf s.wUpper s.streamval 16 (t.cdfSize.toNat / 2) (t.cdfSize.toNat / 2 - 1) lower
        s.wUpper = .ok (t.found i s.wUpper) := by
  have hslot' : Slot (threshold s.wUpper (t.symbol i hi).cdf) (t.symbol i hi).index
      s.streamval.toNat := by
    rw [t.index_symbol hi]
    exact hslot
  have hbisect := bisect_symbol (p := (t.symbol i hi, t.cdfSize)) ⟨t.size, t.pow⟩ hw hslot' lower
  rw [t.found_symbol hi] at hbisect
  rw [← t.found_symbol hi]
  exact ⟨oneStep_found hw hslot' t.init, hbisect.1, t.found_symbol hi _ ▸ hbisect.2⟩

/-- At each symbol the stream value is in the part of some symbol; the next state is the one that
this part leads to. -/
def Interior (s : BitstrDec) : List Table → Prop
  | [] => True
  | t :: ts => Inside s.wUpper s.streamval ∧
      ∀ i s', i + 1 < t.cdf.length → Slot (threshold s.wUpper t.cdf) i s.streamval.toNat →
        shiftInterval s (t.found i s.wUpper).wLower (t.found i s.wUpper).wUpper = .ok s' →
          Interior s' ts

/-- Every symbol is one of its table. -/
def Valid : List Table → List Int16 → Prop
  | [], [] => True
  | t :: ts, x :: xs => (0 ≤ x.toInt ∧ x.toInt ≤ t.cdf.length - 2) ∧ Valid ts xs
  | _, _ => False

variable {s s' : BitstrDec} {ts : List Table}

theorem symbols_agree (h : Interior s ts) (hw : 2 ^ 24 ≤ s.wUpper.toNat) (lower : UInt32) :
    decBisectSymbols s lower (ts.map Table.bisected) =
        decOneStepSymbols s (ts.map Table.stepped) ∧
      ∀ data s', decOneStepSymbols s (ts.map Table.stepped) = .ok (data, s') → Valid ts data := by
  induction ts generalizing s lower with
  | nil =>
    refine ⟨rfl, fun data s' hok => ?_⟩
    cases hok
    trivial
  | cons t ts ih =>
    obtain ⟨hin, hnext⟩ := h
    obtain ⟨i, hi, hslot⟩ := t.exists_symbol hin
    obtain ⟨hstep, hsize, hbisect⟩ := t.searches hw hi hslot lower
    simp only [List.map_cons, decBisectSymbols, decOneStepSymbols, Table.bisected, Table.stepped,
      if_neg hsize, hstep, hbisect, ok_bind]
    cases hshift : shiftInterval s (t.found i s.wUpper).wLower (t.found i s.wUpper).wUpper with
    | error e =>
      refine ⟨rfl, fun data s' hok => ?_⟩
      cases hok
    | ok s₁ =>
      have hw₁ := decRenormalize_width hshift
      obtain ⟨heq, hvalid⟩ := ih (hnext i s₁ hi hslot hshift) hw₁
        ((t.found i s.wUpper).wLower + 1)
      simp only [ok_bind, if_neg (ne_zero_of_width hw₁)]
      refine ⟨?_, fun data s' hok => ?_⟩
      · rw [heq]
      · obtain ⟨⟨xs, s₂⟩, hxs, hdata⟩ := bind_ok hok
        cases hdata
        refine ⟨?_, hvalid _ _ hxs⟩
        rw [show (Int16.ofInt (t.found i s.wUpper).data).toInt = i from t.toInt_ofInt hi]
        omega

/-- The walk reports the first value that is outside. -/
theorem decOneStepSymbols_error (hw : 2 ^ 24 ≤ s.wUpper.toNat) (h : ¬ Interior s ts) :
    decOneStepSymbols s (ts.map Table.stepped) = .error (.code (-3)) := by
  induction ts generalizing s with
  | nil => exact absurd trivial h
  | cons t ts ih =>
    simp only [List.map_cons, decOneStepSymbols, Table.stepped]
    by_cases hin : Inside s.wUpper s.streamval
    · obtain ⟨i, s₁, hi, hslot, hshift, hno⟩ : ∃ i s₁, i + 1 < t.cdf.length ∧
          Slot (threshold s.wUpper t.cdf) i s.streamval.toNat ∧
          shiftInterval s (t.found i s.wUpper).wLower (t.found i s.wUpper).wUpper = .ok s₁ ∧
          ¬ Interior s₁ ts := by
        refine Classical.byContradiction fun hc => h ⟨hin, fun i s₁ hi hslot hshift => ?_⟩
        exact Classical.byContradiction fun hno => hc ⟨i, s₁, hi, hslot, hshift, hno⟩
      rw [(t.searches hw hi hslot 0).1, ok_bind, hshift, ok_bind,
        ih (decRenormalize_width hshift) hno]
      rfl
    · rw [t.oneStep_error hw hin]
      rfl

theorem decBisectSymbols_reports_nothing (lower : UInt32) (items : List (List UInt16 × UInt16)) :
    Unreported (decBisectSymbols s lower items) := by
  induction items generalizing s lower with
  | nil => exact unreported_ok _
  | cons item items ih =>
    obtain ⟨cdf, cdfSize⟩ := item
    unfold decBisectSymbols
    dsimp only
    split
    · exact unreported_undefined
    · refine (unreported_bisect _ _ _ _ _ _ _ _).bind fun found _ => ?_
      refine (unreported_decRenormalize _ _).bind fun s₁ hs₁ => ?_
      rw [if_neg (ne_zero_of_width (decRenormalize_width hs₁))]
      exact (ih _).bind fun _ _ => unreported_ok _

/-- Both report an error, both produce the same, or both read past the end of the stream. -/
def Agree : Except Failure (List Int16 × Int × BitstrDec) →
    Except Failure (List Int16 × Int × BitstrDec) → Prop
  | .ok (data, _, s), .ok (data', _, s') => data = data' ∧ s = s'
  | .error (.code _), .error (.code _) => True
  | .error .undefined, .error .undefined => True
  | _, _ => False

/-- What the two decoders are to do with a stream. -/
structure SameDecoding (s : BitstrDec) (ts : List Table) : Prop where
  agree : Agree (decHistBisectMulti s (ts.map Table.bisected))
    (decHistOneStepMulti s (ts.map Table.stepped))
  bisect : ∀ data n s',
    decHistBisectMulti s (ts.map Table.bisected) = .ok (data, n, s') → Valid ts data
  oneStep : ∀ data n s',
    decHistOneStepMulti s (ts.map Table.stepped) = .ok (data, n, s') → Valid ts data

theorem agree_self (x : Except Failure (List Int16 × Int × BitstrDec)) : Agree x x := by
  rcases x with (c | _) | ⟨data, n, s⟩
  · trivial
  · trivial
  · exact ⟨rfl, rfl⟩

theorem firstWords_width (h : firstWords s = .ok s') : s'.wUpper = s.wUpper := by
  unfold firstWords at h
  split at h
  · obtain ⟨w0, -, h⟩ := bind_ok h
    obtain ⟨w1, -, h⟩ := bind_ok h
    cases h
    rfl
  · cases h
    rfl

/-- Past the first words a call is the loop over the symbols. -/
theorem decHistBisectMulti_eq (hne : s.wUpper ≠ 0) (hfirst : firstWords s = .ok s')
    (items : List (List UInt16 × UInt16)) :
    decHistBisectMulti s items = (decBisectSymbols s' 0 items).map fun r =>
      (r.1, streamLength r.2, r.2) := by
  unfold decHistBisectMulti
  rw [if_neg hne, hfirst]
  rfl

theorem decHistOneStepMulti_eq (hne : s.wUpper ≠ 0) (hfirst : firstWords s = .ok s')
    (items : List (List UInt16 × UInt16)) :
    decHistOneStepMulti s items = (decOneStepSymbols s' items).map fun r =>
      (r.1, streamLength r.2, r.2) := by
  unfold decHistOneStepMulti
  rw [if_neg hne, hfirst]
  rfl

/-- On every stream: the decoders do the same with it, and their symbols are in the tables, exactly
where the stream value is inside at each symbol. -/
theorem sameDecoding_iff (s : BitstrDec) (ts : List Table) (hw : 2 ^ 24 ≤ s.wUpper.toNat) :
    SameDecoding s ts ↔ ∀ s', firstWords s = .ok s' → Interior s' ts := by
  have hne := ne_zero_of_width hw
  constructor
  · intro h s' hfirst
    refine Classical.byContradiction fun hno => ?_
    have hw' : 2 ^ 24 ≤ s'.wUpper.toNat := firstWords_width hfirst ▸ hw
    have hagree := h.agree
    rw [decHistBisectMulti_eq hne hfirst, decHistOneStepMulti_eq hne hfirst,
      decOneStepSymbols_error hw' hno] at hagree
    have hquiet := decBisectSymbols_reports_nothing (s := s') 0 (ts.map Table.bisected)
    cases hb : decBisectSymbols s' 0 (ts.map Table.bisected) with
    | ok r =>
      rw [hb] at hagree
      exact hagree
    | error e =>
      rw [hb] at hagree hquiet
      cases e with
      | code c => exact hquiet c rfl
      | undefined => exact hagree
  · intro h
    cases hfirst : firstWords s with
    | error e =>
      have hbisect : decHistBisectMulti s (ts.map Table.bisected) = .error e := by
        unfold decHistBisectMulti
        rw [if_neg hne, hfirst]
        rfl
      have hstep : decHistOneStepMulti s (ts.map Table.stepped) = .error e := by
        unfold decHistOneStepMulti
        rw [if_neg hne, hfirst]
        rfl
      refine ⟨?_, fun data n s' hok => ?_, fun data n s' hok => ?_⟩
      · rw [hbisect, hstep]
        exact agree_self _
      · rw [hbisect] at hok
        cases hok
      · rw [hstep] at hok
        cases hok
    | ok s' =>
      have hw' : 2 ^ 24 ≤ s'.wUpper.toNat := firstWords_width hfirst ▸ hw
      obtain ⟨heq, hvalid⟩ := symbols_agree (h s' hfirst) hw' 0
      have hsame : decHistBisectMulti s (ts.map Table.bisected) =
          decHistOneStepMulti s (ts.map Table.stepped) := by
        rw [decHistBisectMulti_eq hne hfirst, decHistOneStepMulti_eq hne hfirst, heq]
      have hall : ∀ data n s'', decHistOneStepMulti s (ts.map Table.stepped) = .ok (data, n, s'') →
          Valid ts data := by
        intro data n s'' hok
        rw [decHistOneStepMulti_eq hne hfirst] at hok
        cases hsym : decOneStepSymbols s' (ts.map Table.stepped) with
        | error e =>
          rw [hsym] at hok
          cases hok
        | ok r =>
          rw [hsym] at hok
          cases hok
          exact hvalid r.1 r.2 hsym
      exact ⟨hsame ▸ agree_self _, fun data n s'' hok => hall data n s'' (hsame ▸ hok), hall⟩

/-- A table of three entries. -/
def three : Table where
  cdf := [0, 32768, 65535]
  cdfSize := 4
  initIndex := 1
  increasing := by decide
  first := rfl
  last := rfl
  size := rfl
  pow := ⟨2, rfl⟩
  init := by decide

/-- A stream of one symbol. -/
theorem sameDecoding_middle :
    SameDecoding { stream := [0x4000, 0, 0] } [three] :=
  (sameDecoding_iff _ _ (by decide)).2 fun s' hfirst => by
    cases hfirst
    exact ⟨by decide, fun _ _ _ _ _ => trivial⟩

/-- A stream of zeros: the one decoder finds a symbol below the table, the other an error. -/
theorem sameDecoding_zeros :
    decHistBisectMulti { stream := [0, 0, 0] } [three.bisected] =
        .ok ([-1], 1, { stream := [0, 0, 0], streamval := 0xFFFFFFFF, streamIndex := 2 }) ∧
      decHistOneStepMulti { stream := [0, 0, 0] } [three.stepped] = .error (.code (-3)) ∧
      ¬ SameDecoding { stream := [0, 0, 0] } [three] := by
  have hbisect : decHistBisectMulti { stream := [0, 0, 0] } [three.bisected] =
      .ok ([-1], 1, { stream := [0, 0, 0], streamval := 0xFFFFFFFF, streamIndex := 2 }) := by
    decide
  have hstep : decHistOneStepMulti { stream := [0, 0, 0] } [three.stepped] =
      .error (.code (-3)) := by
    decide
  refine ⟨hbisect, hstep, fun h => ?_⟩
  have hagree : Agree (decHistBisectMulti { stream := [0, 0, 0] } [three.bisected])
      (decHistOneStepMulti { stream := [0, 0, 0] } [three.stepped]) := h.agree
  rw [hbisect, hstep] at hagree
  exact hagree

end RtcCore.L1.Isac
