import RtcCore.L1Wire.IsacClipping

/-!
# The buffer of the iSAC encoder

The coders check after each octet that they are still in the buffer, `EncTerminate`
writes one or two words without a check. It leaves the buffer where the last word
is half full and it has two octets to add.

Results:
* `runCodings_ready`: no sequence of calls writes outside, with the carry included;
  the only failure is the one that is reported.
* `encTerminate_iff`: what the terminator needs.
* `buffer_iff`: both, for every sequence of calls.
-/
namespace RtcCore.L1.Isac

/-! ## Calls of the two coders -/

/-- A call, for symbols of tables or for values with an envelope for each four of them. -/
inductive Coding where
  | hist (ys : List Symbol)
  | logistic (dataQ7 : List Int16) (envQ8 : List UInt16)

namespace Coding

def Proper : Coding → Prop
  | .hist _ => True
  | .logistic dataQ7 envQ8 => (∀ e ∈ envQ8, 1 ≤ e.toNat) ∧ dataQ7.length ≤ 4 * envQ8.length

def run (s : BitstrEnc) : Coding → Except Failure BitstrEnc
  | .hist ys => encHistMulti s (ys.map Symbol.input)
  | .logistic dataQ7 envQ8 => (encLogisticMulti2 s dataQ7 envQ8).map Prod.snd

end Coding

def runCodings (s : BitstrEnc) (calls : List Coding) : Except Failure BitstrEnc :=
  calls.foldlM Coding.run s

variable {s s' : BitstrEnc} {c : Coding}

theorem Coding.run_ready (h : Ready s) (hc : c.Proper) :
    c.run s = .error (.code (-ISAC_DISALLOWED_BITSTREAM_LENGTH)) ∨
      ∃ s', c.run s = .ok s' ∧ Ready s' := by
  cases c with
  | hist ys =>
    rcases encHistMulti_defined h ys with hs | ⟨s', hs⟩
    · exact .inl hs
    · exact .inr ⟨s', hs, encHistMulti_ready h hs⟩
  | logistic dataQ7 envQ8 =>
    show (encLogisticValues envQ8 0 (0 / 4) dataQ7 s).map Prod.snd = _ ∨
      ∃ s', (encLogisticValues envQ8 0 (0 / 4) dataQ7 s).map Prod.snd = _ ∧ _
    have hlen : 0 + dataQ7.length ≤ 4 * envQ8.length := by
      have := hc.2
      omega
    rcases encLogisticValues_defined hc.1 hlen h with hs | ⟨data', s', hs, h'⟩
    · rw [hs]
      exact .inl rfl
    · rw [hs]
      exact .inr ⟨s', rfl, h'⟩

theorem runCodings_ready {calls : List Coding} (h : Ready s) (hcalls : ∀ c ∈ calls, c.Proper) :
    runCodings s calls = .error (.code (-ISAC_DISALLOWED_BITSTREAM_LENGTH)) ∨
      ∃ s', runCodings s calls = .ok s' ∧ Ready s' := by
  unfold runCodings
  induction calls generalizing s with
  | nil => exact .inr ⟨s, rfl, h⟩
  | cons c calls ih =>
    rw [List.foldlM_cons]
    rcases Coding.run_ready h (hcalls c List.mem_cons_self) with hs | ⟨s₁, hs, h₁⟩
    · rw [hs]
      exact .inl rfl
    · rw [hs, ok_bind]
      exact ih h₁ fun c hc => hcalls c (List.mem_cons_of_mem _ hc)

/-! ## The terminator -/

/-- Two octets are to follow and the first of them completes the last word of the buffer. -/
def Spills (s : BitstrEnc) : Prop :=
  s.streamIndex + 1 = STREAM_MAXW16_60MS ∧ s.full = false ∧ s.wUpper ≤ 0x01FFFFFF

/-- The terminator writes inside the buffer and returns at most its length. -/
def Terminates (s : BitstrEnc) : Prop :=
  ∃ n stream, encTerminate s = .ok (n, stream) ∧ n ≤ 2 * STREAM_MAXW16_60MS

theorem encTerminate_iff (h : Ready s) : Terminates s ↔ ¬ Spills s := by
  have htop := h.top
  have hw := h.width
  have hwidth : s.interval.width = s.wUpper.toNat := rfl
  by_cases hbig : 0x01FFFFFF < s.wUpper
  · have hbig' := UInt32.lt_iff_toNat_lt.1 hbig
    simp only [UInt32.reduceToNat] at hbig'
    obtain ⟨s₁, hadd, hb, -⟩ := addToStream_spec (v := 0x01000000) h.toBufferInv (by
      simp only [UInt32.reduceToNat]
      omega)
    have hi : s₁.streamIndex < 200 := hb.index
    refine iff_of_true ?_ fun hs => absurd hs.2.2 (UInt32.not_le.2 hbig)
    unfold Terminates encTerminate
    rw [if_pos hbig, hadd, ok_bind]
    cases s₁.full with
    | true =>
      rw [if_pos rfl, store_eq hb.inside]
      exact ⟨_, _, rfl, by unfold STREAM_MAXW16_60MS; omega⟩
    | false =>
      rw [if_neg Bool.false_ne_true, load_eq hb.inside, ok_bind, store_eq hb.inside]
      exact ⟨_, _, rfl, by unfold STREAM_MAXW16_60MS; omega⟩
  · have hsmall := UInt32.not_lt.1 hbig
    obtain ⟨s₁, hadd, hb, -, -, hsi, hsf, -⟩ := addToStream_spec (v := 0x00010000)
      h.toBufferInv (by
        simp only [UInt32.reduceToNat]
        omega)
    have hi : s₁.streamIndex < 200 := hb.index
    unfold Terminates Spills encTerminate
    rw [if_neg hbig, hadd, ok_bind, ← hsi, ← hsf]
    cases s₁.full with
    | true =>
      rw [if_pos rfl, store_eq hb.inside]
      exact iff_of_true ⟨_, _, rfl, by unfold STREAM_MAXW16_60MS; omega⟩ fun hs => nomatch hs.2.1
    | false =>
      rw [if_neg Bool.false_ne_true, load_eq hb.inside, ok_bind, store_eq hb.inside, ok_bind]
      by_cases hlast : s₁.streamIndex + 1 = STREAM_MAXW16_60MS
      · -- the word after the last one
        refine iff_of_false ?_ fun hs => hs ⟨hlast, rfl, hsmall⟩
        unfold store
        rw [if_neg (by rw [List.length_set, hb.length]; omega)]
        rintro ⟨n, stream, hok, -⟩
        exact nomatch hok
      · have hin : s₁.streamIndex + 1 < STREAM_MAXW16_60MS :=
          Nat.lt_of_le_of_ne hb.index hlast
        rw [store_eq (by rw [List.length_set, hb.length]; exact hin)]
        exact iff_of_true ⟨_, _, rfl, by omega⟩ fun hs => hlast hs.1

/-- No call of the coders writes outside, and the terminator keeps to the buffer after them. -/
def WithinBuffer (stream : List UInt16) (calls : List Coding) : Prop :=
  runCodings { stream } calls ≠ .error .undefined ∧
    ∀ s, runCodings { stream } calls = .ok s → Terminates s

/-- The coders never write outside, and the terminator does only where two octets are left for
the last half word. -/
theorem buffer_iff {stream : List UInt16} (hl : stream.length = STREAM_MAXW16_60MS)
    {calls : List Coding} (hcalls : ∀ c ∈ calls, c.Proper) :
    WithinBuffer stream calls ↔ ∀ s, runCodings { stream } calls = .ok s → ¬ Spills s := by
  rcases runCodings_ready (ready_initial hl) hcalls with hs | ⟨s, hs, h⟩
  · exact iff_of_true ⟨by rw [hs]; exact nofun, fun s h => by rw [hs] at h; exact nomatch h⟩
      fun s h => by rw [hs] at h; exact nomatch h
  · constructor
    · intro hb s' hs'
      rw [hs] at hs'
      cases hs'
      exact (encTerminate_iff h).1 (hb.2 s hs)
    · intro hb
      refine ⟨by rw [hs]; exact nofun, fun s' hs' => ?_⟩
      rw [hs] at hs'
      cases hs'
      exact (encTerminate_iff h).2 (hb s hs)

theorem lower_increasing {c : UInt16} (h0 : 0 < c) (h : c < 65535) :
    [0, c, 65535].Pairwise (· < ·) := by simp [h0, h, UInt16.lt_trans h0 h]

theorem lower_nonneg : (0 : Int16) ≤ 0 := Int16.le_refl 0

theorem lower_inside : (0 : Int16).toInt.toNat + 1 < 3 := by decide

/-- The first symbol of a table of two. -/
def lower (c : UInt16) (h0 : 0 < c) (h : c < 65535) : Symbol where
  data := 0
  cdf := [0, c, 65535]
  increasing := lower_increasing h0 h
  first := rfl
  last := rfl
  nonneg := lower_nonneg
  inside := lower_inside

/-- Two octets for a symbol of probability 1 in 65536. -/
def rarest : Symbol := lower 1 (by decide) (by decide)

set_option maxRecDepth 4000 in
theorem buffer_three :
    WithinBuffer (List.replicate 200 0) [.hist [rarest, rarest], .logistic [300] [40]] :=
  (buffer_iff rfl (by
    intro c hc
    rcases List.mem_cons.1 hc with rfl | hc
    · trivial
    · rw [List.mem_singleton] at hc
      subst hc
      exact ⟨List.forall_mem_singleton.2 (by decide), Nat.le_add_left 1 3⟩)).2
    fun s hs hspill => by
    have hi : (runCodings { stream := List.replicate 200 0 }
        [.hist [rarest, rarest], .logistic [300] [40]]).map BitstrEnc.streamIndex = .ok 2 := by
      decide
    rw [hs] at hi
    have := Except.ok.inj hi
    exact absurd hspill.1 (by rw [this]; decide)

/-! ### Rare symbols -/

/-- The width of the interval after `k` of the rarest symbols. -/
def widthAfter (k : Nat) : UInt32 := if k = 0 then 0xFFFFFFFF else .ofNat ((65535 - k) * 65536)

def streamvalAfter (k : Nat) : UInt32 := if k = 0 then 0 else 0x10000

/-- Each of them has filled a word. -/
def FilledBy (k : Nat) (s : BitstrEnc) : Prop :=
  ∃ stream, stream.length = STREAM_MAXW16_60MS ∧
    s = ⟨stream, widthAfter k, streamvalAfter k, k, true⟩

set_option maxRecDepth 4000 in
theorem rarest_width : ∀ k : Fin 199,
    scale (widthAfter k) 0 + 1 = 1 ∧
      (scale (widthAfter k) 1 - 1) &&& 0xFF000000 = 0 ∧
      ((scale (widthAfter k) 1 - 1) <<< 8) &&& 0xFF000000 = 0 ∧
      (scale (widthAfter k) 1 - 1) <<< 8 <<< 8 = widthAfter (k + 1) ∧
      widthAfter (k + 1) &&& 0xFF000000 ≠ 0 ∧
      ¬ streamvalAfter k + 1 < 1 ∧
      (streamvalAfter k + 1) <<< 8 <<< 8 = streamvalAfter (k + 1) := by decide

theorem storeByte_full {stream : List UInt16} {i : Nat} (wUpper streamval : UInt32)
    (hl : stream.length = STREAM_MAXW16_60MS) (hi : i < STREAM_MAXW16_60MS) :
    storeByte ⟨stream, wUpper, streamval, i, true⟩ =
      .ok ⟨stream.set i ((streamval >>> 24).toUInt16 <<< 8), wUpper <<< 8, streamval <<< 8, i,
        false⟩ := by
  rw [storeByte, if_pos rfl, store_eq (by dsimp only; omega)]
  exact if_neg (by dsimp only; omega)

theorem storeByte_half {stream : List UInt16} {i : Nat} (wUpper streamval : UInt32)
    (hl : stream.length = STREAM_MAXW16_60MS) (hi : i + 1 < STREAM_MAXW16_60MS) :
    storeByte ⟨stream, wUpper, streamval, i, false⟩ =
      .ok ⟨stream.set i (stream.getD i 0 + (streamval >>> 24).toUInt16), wUpper <<< 8,
        streamval <<< 8, i + 1, true⟩ := by
  rw [storeByte, if_neg Bool.false_ne_true, load_eq (by dsimp only; omega), ok_bind,
    store_eq (by dsimp only; omega)]
  exact if_neg (by dsimp only; omega)

/-- The first symbol of a table of two, where nothing is carried. -/
theorem encSymbol_lower {c : UInt16} (h0 : 0 < c) (h : c < 65535) {stream : List UInt16}
    {wUpper streamval : UInt32} {i : Nat} (hlow : scale wUpper 0 + 1 = 1)
    (hcarry : ¬ streamval + 1 < 1) :
    encSymbol ⟨stream, wUpper, streamval, i, true⟩ (lower c h0 h).data (lower c h0 h).cdf =
      renormalize (2 * STREAM_MAXW16_60MS + 2)
        ⟨stream, scale wUpper c - 1, streamval + 1, i, true⟩ := by
  show (addToStream ⟨stream, scale wUpper c - (scale wUpper 0 + 1), streamval, i, true⟩
    (scale wUpper 0 + 1) >>= renormalize (2 * STREAM_MAXW16_60MS + 2)) = _
  rw [hlow, addToStream, if_neg hcarry]
  rfl

theorem encSymbol_rarest {k : Nat} (hk : k < 199) (h : FilledBy k s) :
    ∃ s', encSymbol s rarest.data rarest.cdf = .ok s' ∧ FilledBy (k + 1) s' := by
  obtain ⟨stream, hl, rfl⟩ := h
  obtain ⟨hlow, hfirst, hsecond, hwidth, hstop, hcarry, hval⟩ := rarest_width ⟨k, hk⟩
  dsimp only at hlow hfirst hsecond hwidth hstop hcarry hval
  have hi : k + 1 < STREAM_MAXW16_60MS := Nat.succ_lt_succ hk
  rw [rarest, encSymbol_lower _ _ hlow hcarry,
    show 2 * STREAM_MAXW16_60MS + 2 = 399 + 1 + 1 + 1 from rfl, renormalize, if_pos hfirst,
    storeByte_full _ _ hl (Nat.lt_of_succ_lt hi), ok_bind, renormalize, if_pos hsecond,
    storeByte_half _ _ (by rw [List.length_set, hl]) hi, ok_bind, renormalize, hwidth,
    if_neg hstop, hval]
  exact ⟨_, rfl, _, by rw [List.length_set, List.length_set, hl], rfl⟩

theorem encHistMulti_rarest {k : Nat} (hk : k ≤ 199) (h : FilledBy 0 s) :
    ∃ s', encHistMulti s ((List.replicate k rarest).map Symbol.input) = .ok s' ∧
      FilledBy k s' := by
  induction k with
  | zero => exact ⟨s, rfl, h⟩
  | succ k ih =>
    obtain ⟨s₁, hs₁, h₁⟩ := ih (Nat.le_of_succ_le hk)
    obtain ⟨s', hs', h'⟩ := encSymbol_rarest hk h₁
    refine ⟨s', ?_, h'⟩
    rw [encHistMulti] at hs₁
    rw [List.replicate_succ', List.map_append, encHistMulti, List.foldlM_append, hs₁, ok_bind]
    show encSymbol s₁ rarest.data rarest.cdf >>= _ = _
    rw [hs']
    rfl

theorem last_width :
    scale (widthAfter 199) 0 + 1 = 1 ∧ ¬ streamvalAfter 199 + 1 < 1 ∧
      (scale (widthAfter 199) 2 - 1) &&& 0xFF000000 = 0 ∧
      ¬ ((scale (widthAfter 199) 2 - 1) <<< 8) &&& 0xFF000000 = 0 ∧
      (scale (widthAfter 199) 2 - 1) <<< 8 ≤ 0x01FFFFFF := by decide

/-- Twice as probable as the rarest one. -/
def secondRarest : Symbol := lower 2 (by decide) (by decide)

/-- One octet is left in the last word, and less than 2 ^ 25 of the interval. -/
theorem encSymbol_last (h : FilledBy 199 s) :
    ∃ s', encSymbol s secondRarest.data secondRarest.cdf = .ok s' ∧ Spills s' := by
  obtain ⟨stream, hl, rfl⟩ := h
  obtain ⟨hlow, hcarry, hfirst, hstop, hsmall⟩ := last_width
  rw [secondRarest, encSymbol_lower _ _ hlow hcarry,
    show 2 * STREAM_MAXW16_60MS + 2 = 400 + 1 + 1 from rfl, renormalize, if_pos hfirst,
    storeByte_full _ _ hl (by decide), ok_bind, renormalize, if_neg hstop]
  exact ⟨_, rfl, rfl, rfl, hsmall⟩

/-- The buffer but for its last octets, and a symbol that leaves the terminator two. -/
theorem buffer_spills :
    ¬ ∀ stream : List UInt16, stream.length = STREAM_MAXW16_60MS → ∀ calls : List Coding,
      (∀ c ∈ calls, c.Proper) → WithinBuffer stream calls := by
  intro hall
  obtain ⟨s, hs, hfilled⟩ := encHistMulti_rarest (Nat.le_refl 199)
    (s := { stream := List.replicate 200 0 }) ⟨_, List.length_replicate, rfl⟩
  obtain ⟨s', hs', hspills⟩ := encSymbol_last hfilled
  have hlast : Coding.run s (.hist [secondRarest]) = .ok s' := by
    show (encSymbol s secondRarest.data secondRarest.cdf >>= fun s => Except.ok s) = _
    rw [hs']
    rfl
  have hrun : runCodings { stream := List.replicate 200 0 }
      [.hist (List.replicate 199 rarest), .hist [secondRarest]] = .ok s' := by
    unfold runCodings
    rw [List.foldlM_cons, Coding.run, hs, ok_bind, List.foldlM_cons, hlast]
    rfl
  have hcalls : ∀ c ∈ [Coding.hist (List.replicate 199 rarest), .hist [secondRarest]],
      c.Proper := by
    intro c hc
    simp only [List.mem_cons, List.not_mem_nil, or_false] at hc
    rcases hc with rfl | rfl
    · trivial
    · trivial
  have hready : Ready s' := by
    rcases runCodings_ready (ready_initial List.length_replicate) hcalls with he | ⟨t, ht, hready⟩
    · exact nomatch hrun.symm.trans he
    · cases hrun.symm.trans ht
      exact hready
  exact (encTerminate_iff hready).1 ((hall _ List.length_replicate _ hcalls).2 s' hrun) hspills

end RtcCore.L1.Isac
