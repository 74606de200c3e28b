import RtcCore.Core.RangeCoder
import RtcCore.L1Wire.IsacArith

/-!
# The intervals of the iSAC coder

The encoder holds an interval of numbers: what it has written, followed by
`streamval`, is its lower end, `W_upper` its width. A carry adds one to what is
written, `storeByte` scales the interval by 256. A decoder that reads a stream
whose number lies in the interval holds the distance of this number from the
lower end, four octets ahead.

Results:
- `addToStream_spec`, `storeByte_spec`: what the encoder's steps do to the interval.
- `renormalize_follows`: encoder and decoder scale together, and a number in the
  scaled interval was in the interval before.
- `encTerminate_spec`: the octets that `encTerminate` adds put the number in the interval.
-/
namespace RtcCore.L1.Isac

open RangeCoder

/-! ## Octets of a stream -/

/-- Octet `j` of a stream, the high half of a word first. -/
def octet (ws : List UInt16) (j : Nat) : Nat :=
  if j % 2 = 0 then (ws.getD (j / 2) 0).toNat / 256 else (ws.getD (j / 2) 0).toNat % 256

/-- The number the first `m` octets spell. -/
def code (ws : List UInt16) (m : Nat) : Nat := value 256 (octet ws) m

theorem octet_lt (ws : List UInt16) (j : Nat) : octet ws j < 256 := by
  unfold octet
  have := (ws.getD (j / 2) 0).toNat_lt
  split <;> omega

theorem octet_even (ws : List UInt16) (i : Nat) :
    octet ws (2 * i) = (ws.getD i 0).toNat / 256 := by
  unfold octet
  rw [if_pos (by omega), show 2 * i / 2 = i by omega]

theorem octet_odd (ws : List UInt16) (i : Nat) :
    octet ws (2 * i + 1) = (ws.getD i 0).toNat % 256 := by
  unfold octet
  rw [if_neg (by omega), show (2 * i + 1) / 2 = i by omega]

theorem code_succ (ws : List UInt16) (m : Nat) : code ws (m + 1) = code ws m * 256 + octet ws m :=
  rfl

theorem code_word (ws : List UInt16) (i : Nat) :
    code ws (2 * (i + 1)) = code ws (2 * i) * 65536 + (ws.getD i 0).toNat := by
  rw [show 2 * (i + 1) = 2 * i + 1 + 1 by omega, code_succ, code_succ, octet_even, octet_odd]
  omega

theorem octet_congr {ws ws' : List UInt16} {i : Nat} (h : ∀ k < i, ws'.getD k 0 = ws.getD k 0)
    {j : Nat} (hj : j < 2 * i) : octet ws' j = octet ws j := by
  unfold octet
  rw [h (j / 2) (by omega)]

theorem code_congr {ws ws' : List UInt16} {i : Nat} (h : ∀ k < i, ws'.getD k 0 = ws.getD k 0) :
    code ws' (2 * i) = code ws (2 * i) :=
  value_congr fun _ hj => octet_congr h hj

theorem getD_set_ne {ws : List UInt16} {i k : Nat} {w : UInt16} (h : k ≠ i) :
    (ws.set i w).getD k 0 = ws.getD k 0 := by
  rw [List.getD_eq_getElem?_getD, List.getD_eq_getElem?_getD, List.getElem?_set_ne (Ne.symm h)]

theorem getD_set_self {ws : List UInt16} {i : Nat} {w : UInt16} (h : i < ws.length) :
    (ws.set i w).getD i 0 = w := by
  rw [List.getD_eq_getElem?_getD, List.getElem?_set_self h, Option.getD_some]

theorem code_set {ws : List UInt16} {i : Nat} {w : UInt16} :
    code (ws.set i w) (2 * i) = code ws (2 * i) :=
  code_congr fun _ hk => getD_set_ne (Nat.ne_of_lt hk)

theorem load_eq {ws : List UInt16} {i : Nat} (h : i < ws.length) :
    load ws i = .ok (ws.getD i 0) := by
  unfold load
  rw [List.getD_eq_getElem?_getD, List.getElem?_eq_getElem h]
  rfl

theorem store_eq {ws : List UInt16} {i : Nat} {w : UInt16} (h : i < ws.length) :
    store ws i w = .ok (ws.set i w) := if_pos h

/-! ## The carry -/

theorem succ_eq_zero {w : UInt16} (h : w + 1 = 0) : w.toNat = 65535 := by
  have h' := congrArg UInt16.toNat h
  have hlt := w.toNat_lt
  rw [UInt16.toNat_add] at h'
  simp only [UInt16.reduceToNat] at h'
  omega

theorem succ_ne_zero {w : UInt16} (h : w + 1 ≠ 0) : (w + 1).toNat = w.toNat + 1 := by
  have hlt := w.toNat_lt
  rw [UInt16.toNat_add]
  simp only [UInt16.reduceToNat]
  have : (w + 1).toNat ≠ 0 := fun hc => h (UInt16.toNat_inj.1 hc)
  rw [UInt16.toNat_add] at this
  simp only [UInt16.reduceToNat] at this
  omega

theorem ok_bind {α β : Type} (a : α) (f : α → Except Failure β) :
    (Except.ok a >>= f) = f a := rfl

/-- The number in the first `i` words is one more, if there is room for it, and the words behind
stay. -/
theorem carryBack_spec {ws : List UInt16} {i : Nat} (hi : i ≤ ws.length)
    (hv : code ws (2 * i) + 1 < 256 ^ (2 * i)) :
    ∃ ws', carryBack ws i = .ok ws' ∧ ws'.length = ws.length ∧
      code ws' (2 * i) = code ws (2 * i) + 1 ∧ ∀ k, i ≤ k → ws'.getD k 0 = ws.getD k 0 := by
  induction i generalizing ws with
  | zero => exact absurd hv (by simp [code, value])
  | succ i ih =>
    have hlen : i < ws.length := hi
    rw [code_word, Nat.mul_add, Nat.pow_add] at hv
    simp only [carryBack, load_eq hlen, store_eq hlen, ok_bind]
    split
    · rename_i hz
      have hw := succ_eq_zero hz
      obtain ⟨ws', hok, hl, hc, hk⟩ := @ih (ws.set i (ws.getD i 0 + 1))
        (by rw [List.length_set]; omega) (by rw [code_set]; omega)
      refine ⟨ws', hok, by rw [hl, List.length_set], ?_, fun k hik => ?_⟩
      · rw [code_word, code_word, hc, code_set, hk i (Nat.le_refl i), getD_set_self hlen, hz, hw]
        simp only [UInt16.reduceToNat]
        omega
      · rw [hk k (by omega), getD_set_ne (by omega)]
    · rename_i hz
      refine ⟨_, rfl, List.length_set, ?_, fun k hik => getD_set_ne (by omega)⟩
      rw [code_word, code_word, code_set, getD_set_self hlen, succ_ne_zero hz]
      omega

/-- How many octets are filled. -/
def filled (i : Nat) (full : Bool) : Nat := 2 * i + if full then 0 else 1

theorem filled_full (i : Nat) : filled i true = 2 * i := rfl

theorem filled_half (i : Nat) : filled i false = 2 * i + 1 := rfl

theorem code_half (ws : List UInt16) (i : Nat) :
    code ws (2 * i + 1) = code ws (2 * i) * 256 + (ws.getD i 0).toNat / 256 := by
  rw [code_succ, octet_even]

theorem propagateCarry_spec {full : Bool} {ws : List UInt16} {i : Nat} (hi : i < ws.length)
    (hhalf : full = false → (ws.getD i 0).toNat % 256 = 0)
    (hv : code ws (filled i full) + 1 < 256 ^ filled i full) :
    ∃ ws', propagateCarry full ws i = .ok ws' ∧ ws'.length = ws.length ∧
      code ws' (filled i full) = code ws (filled i full) + 1 ∧
      (full = false → (ws'.getD i 0).toNat % 256 = 0) := by
  cases full with
  | true =>
    obtain ⟨ws', hok, hl, hc, -⟩ := carryBack_spec (Nat.le_of_lt hi) hv
    exact ⟨ws', by simpa [propagateCarry] using hok, hl, hc, nofun⟩
  | false =>
    have hw := hhalf rfl
    have hlt := (ws.getD i 0).toNat_lt
    have hadd : (ws.getD i 0 + 0x0100).toNat = ((ws.getD i 0).toNat + 256) % 65536 := by
      rw [UInt16.toNat_add]
      rfl
    rw [filled_half] at hv ⊢
    rw [code_half, Nat.pow_succ] at hv
    simp only [propagateCarry, Bool.false_eq_true, if_false, load_eq hi, store_eq hi, ok_bind]
    split
    · rename_i hz
      have hz' := congrArg UInt16.toNat hz
      rw [hadd, UInt16.toNat_zero] at hz'
      obtain ⟨ws', hok, hl, hc, hk⟩ := @carryBack_spec (ws.set i (ws.getD i 0 + 0x0100)) i
        (by rw [List.length_set]; omega) (by rw [code_set]; omega)
      have hki := hk i (Nat.le_refl i)
      rw [getD_set_self hi, hz] at hki
      refine ⟨ws', hok, by rw [hl, List.length_set], ?_, fun _ => by rw [hki]; rfl⟩
      rw [code_half, code_half, hc, code_set, hki, UInt16.toNat_zero]
      omega
    · rename_i hz
      have hz' : (ws.getD i 0 + 0x0100).toNat ≠ 0 := fun hc => hz (UInt16.toNat_inj.1 hc)
      rw [hadd] at hz'
      refine ⟨_, rfl, List.length_set, ?_, fun _ => ?_⟩
      · rw [code_half, code_half, code_set, getD_set_self hi, hadd]
        omega
      · rw [getD_set_self hi, hadd]
        omega

/-! ## The interval of the encoder -/

namespace BitstrEnc

variable (s : BitstrEnc)

/-- How many octets are filled. -/
def octets : Nat := filled s.streamIndex s.full

/-- What is written is the high part of the lower end. -/
def interval : Interval := ⟨code s.stream s.octets * 2 ^ 32 + s.streamval.toNat, s.wUpper.toNat⟩

end BitstrEnc

/-- The place to write at is in the stream, and its second half is zero if it is to be written
next. -/
structure BufferInv (s : BitstrEnc) : Prop where
  length : s.stream.length = STREAM_MAXW16_60MS
  index : s.streamIndex < STREAM_MAXW16_60MS
  half : s.full = false → (s.stream.getD s.streamIndex 0).toNat % 256 = 0

/-- The interval ends below the first number that has one octet more. -/
structure EncInv (s : BitstrEnc) : Prop extends BufferInv s where
  top : s.interval.low + s.interval.width < 256 ^ s.octets * 2 ^ 32

variable {s s' : BitstrEnc} {ws : List UInt16}

theorem BufferInv.inside (h : BufferInv s) : s.streamIndex < s.stream.length := by
  rw [h.length]
  exact h.index

theorem addToStream_spec (h : BufferInv s) {v : UInt32}
    (htop : s.interval.low + v.toNat < 256 ^ s.octets * 2 ^ 32) :
    ∃ s', addToStream s v = .ok s' ∧ BufferInv s' ∧ s'.octets = s.octets ∧
      s'.interval = ⟨s.interval.low + v.toNat, s.interval.width⟩ ∧
      s'.streamIndex = s.streamIndex ∧ s'.full = s.full ∧ s'.wUpper = s.wUpper := by
  have hsv := s.streamval.toNat_lt
  have hv := v.toNat_lt
  have hadd : (s.streamval + v).toNat = (s.streamval.toNat + v.toNat) % 2 ^ 32 :=
    UInt32.toNat_add _ _
  simp only [BitstrEnc.interval] at htop
  simp only [addToStream]
  split
  · rename_i hlt
    rw [UInt32.lt_iff_toNat_lt, hadd] at hlt
    obtain ⟨ws', hok, hl, hc, hh⟩ := propagateCarry_spec h.inside h.half (by
      simp only [BitstrEnc.octets] at htop
      omega)
    rw [hok, ok_bind]
    refine ⟨_, rfl, ⟨by rw [← h.length]; exact hl, h.index, hh⟩, rfl, ?_, rfl, rfl, rfl⟩
    simp only [BitstrEnc.interval, BitstrEnc.octets, Interval.mk.injEq, and_true]
    rw [hc, hadd]
    omega
  · rename_i hlt
    rw [UInt32.lt_iff_toNat_lt, hadd] at hlt
    refine ⟨_, rfl, ⟨h.length, h.index, h.half⟩, rfl, ?_, rfl, rfl, rfl⟩
    simp only [BitstrEnc.interval, BitstrEnc.octets, Interval.mk.injEq, and_true]
    rw [hadd]
    omega

theorem toNat_top (v : UInt32) : (v >>> 24).toUInt16.toNat = v.toNat / 2 ^ 24 := by
  have := v.toNat_lt
  rw [UInt32.toNat_toUInt16, UInt32.toNat_shiftRight]
  simp only [UInt32.reduceToNat, Nat.reduceMod, Nat.shiftRight_eq_div_pow]
  omega

theorem toNat_shiftLeft_eight (v : UInt32) : (v <<< 8).toNat = v.toNat * 256 % 2 ^ 32 := by
  rw [UInt32.toNat_shiftLeft]
  simp only [UInt32.reduceToNat, Nat.reduceMod, Nat.shiftLeft_eq]

theorem toNat_high (v : UInt16) (h : v.toNat < 256) : (v <<< 8).toNat = v.toNat * 256 := by
  rw [UInt16.toNat_shiftLeft]
  simp only [UInt16.reduceToNat, Nat.reduceMod, Nat.shiftLeft_eq]
  omega

theorem code_store_high {i : Nat} {b : UInt16} (hi : i < ws.length) (hb : b.toNat < 256) :
    code (ws.set i (b <<< 8)) (2 * i + 1) = code ws (2 * i) * 256 + b.toNat := by
  rw [code_half, code_set, getD_set_self hi, toNat_high b hb]
  omega

theorem code_store_low {i : Nat} {b : UInt16} (hi : i < ws.length)
    (hhalf : (ws.getD i 0).toNat % 256 = 0) (hb : b.toNat < 256) :
    code (ws.set i (ws.getD i 0 + b)) (2 * (i + 1)) = code ws (2 * i + 1) * 256 + b.toNat := by
  have hlt := (ws.getD i 0).toNat_lt
  rw [code_word, code_half, code_set, getD_set_self hi, UInt16.toNat_add]
  omega

theorem EncInv.widen {t : BitstrEnc} (h : EncInv s) (hw : s.wUpper.toNat < 2 ^ 24) (hb : BufferInv t)
    (ho : t.octets = s.octets + 1)
    (hc : code t.stream t.octets = code s.stream s.octets * 256 + s.streamval.toNat / 2 ^ 24)
    (hv : t.streamval = s.streamval <<< 8) (hu : t.wUpper = s.wUpper <<< 8) :
    EncInv t ∧ t.interval = s.interval.widen 256 := by
  have hint : t.interval = s.interval.widen 256 := by
    have hsv := s.streamval.toNat_lt
    simp only [BitstrEnc.interval, Interval.widen, Interval.mk.injEq, hc, hv, hu,
      toNat_shiftLeft_eight]
    omega
  refine ⟨⟨hb, ?_⟩, hint⟩
  have hlt := Interval.widen_top_lt (b := 256) (by decide) h.top
  rw [hint, ho, Nat.pow_succ, Nat.mul_right_comm]
  exact hlt

/-- One more octet: the interval is scaled, unless the stream is full. -/
theorem storeByte_spec (h : EncInv s) (hw : s.wUpper.toNat < 2 ^ 24) :
    storeByte s = .error (.code (-ISAC_DISALLOWED_BITSTREAM_LENGTH)) ∨
    ∃ s', storeByte s = .ok s' ∧ EncInv s' ∧ s'.octets = s.octets + 1 ∧
      s'.interval = s.interval.widen 256 := by
  have hsv := s.streamval.toNat_lt
  have htop := toNat_top s.streamval
  have hin := h.inside
  cases hf : s.full with
  | true =>
    have hoct : s.octets = 2 * s.streamIndex := by rw [BitstrEnc.octets, hf, filled_full]
    simp only [storeByte, hf, if_true, store_eq hin, ok_bind]
    rw [if_neg (by have := h.index; omega)]
    refine Or.inr ⟨_, rfl, ?_⟩
    have hw' := h.widen hw (t := ⟨s.stream.set s.streamIndex ((s.streamval >>> 24).toUInt16 <<< 8),
      s.wUpper <<< 8, s.streamval <<< 8, s.streamIndex, false⟩)
      ⟨by rw [List.length_set]; exact h.length, h.index, fun _ => ?_⟩
      (by rw [hoct]; rfl) ?_ rfl rfl
    · exact ⟨hw'.1, by rw [hoct]; rfl, hw'.2⟩
    · rw [getD_set_self hin, toNat_high _ (by omega)]
      omega
    · rw [hoct, ← htop]
      exact code_store_high hin (by omega)
  | false =>
    have hoct : s.octets = 2 * s.streamIndex + 1 := by rw [BitstrEnc.octets, hf, filled_half]
    simp only [storeByte, hf, Bool.false_eq_true, if_false, load_eq hin, store_eq hin, ok_bind]
    split
    · exact Or.inl rfl
    · rename_i hidx
      refine Or.inr ⟨_, rfl, ?_⟩
      have hw' := h.widen hw (t := ⟨s.stream.set s.streamIndex (s.stream.getD s.streamIndex 0 +
        (s.streamval >>> 24).toUInt16), s.wUpper <<< 8, s.streamval <<< 8, s.streamIndex + 1, true⟩)
        ⟨by rw [List.length_set]; exact h.length,
          Nat.lt_of_not_le fun hle => hidx (Nat.lt_of_lt_of_le (by decide) hle), nofun⟩
        (by rw [hoct]; rfl) ?_ rfl rfl
      · exact ⟨hw'.1, by rw [hoct]; rfl, hw'.2⟩
      · rw [hoct, ← htop]
        exact code_store_low hin (h.half hf) (by omega)

/-! ## Renormalisation -/

theorem wUpper_small {w : UInt32} : w &&& 0xFF000000 = 0 ↔ w.toNat < 2 ^ 24 := by
  have hw := w.toNat_lt
  have hdiv : (w.toNat &&& 0xFF000000) / 2 ^ 24 = w.toNat / 2 ^ 24 % 256 := by
    rw [Nat.and_div_two_pow]
    exact Nat.and_two_pow_sub_one_eq_mod _ 8
  have hmod : (w.toNat &&& 0xFF000000) % 2 ^ 24 = 0 := by
    rw [Nat.and_mod_two_pow]
    exact Nat.and_zero _
  have hzero : w &&& 0xFF000000 = 0 ↔ w.toNat &&& 0xFF000000 = 0 := by
    rw [← UInt32.toNat_inj, UInt32.toNat_and]
    rfl
  rw [hzero]
  omega

theorem bind_ok {α β : Type} {x : Except Failure α} {f : α → Except Failure β} {b : β}
    (h : (x >>= f) = .ok b) : ∃ a, x = .ok a ∧ f a = .ok b := by
  cases x with
  | error e => cases h
  | ok a => exact ⟨a, rfl, h⟩

theorem error_bind {α β : Type} (e : Failure) (f : α → Except Failure β) :
    ((Except.error e : Except Failure α) >>= f) = .error e := rfl

theorem renormalize_inv {fuel : Nat} (h : EncInv s) (hok : renormalize fuel s = .ok s') :
    EncInv s' ∧ 2 ^ 24 ≤ s'.wUpper.toNat := by
  induction fuel generalizing s with
  | zero => cases hok
  | succ fuel ih =>
    simp only [renormalize] at hok
    split at hok
    · rename_i hw
      rcases storeByte_spec h (wUpper_small.1 hw) with hs | ⟨s₁, hs, h₁, -, -⟩
      · rw [hs, error_bind] at hok
        cases hok
      · rw [hs, ok_bind] at hok
        exact ih h₁ hok
    · rename_i hw
      cases hok
      exact ⟨h, Nat.not_lt.1 fun hlt => hw (wUpper_small.2 hlt)⟩

/-- The loop ends, or the stream is full. -/
theorem renormalize_defined {k fuel : Nat} (hk : k < fuel) (h : EncInv s)
    (hw : 2 ^ 24 ≤ s.wUpper.toNat * 256 ^ k) :
    renormalize fuel s = .error (.code (-ISAC_DISALLOWED_BITSTREAM_LENGTH)) ∨
    ∃ s', renormalize fuel s = .ok s' := by
  induction fuel generalizing s k with
  | zero => exact absurd hk (Nat.not_lt_zero k)
  | succ fuel ih =>
    rw [renormalize]
    split
    · rename_i hsmall
      have hlt := wUpper_small.1 hsmall
      cases k with
      | zero =>
        rw [Nat.pow_zero, Nat.mul_one] at hw
        omega
      | succ k =>
        rcases storeByte_spec h hlt with hs | ⟨s₁, hs, h₁, -, hint⟩
        · rw [hs, error_bind]
          exact Or.inl rfl
        · rw [hs, ok_bind]
          have hwidth : s₁.wUpper.toNat = s.wUpper.toNat * 256 := congrArg Interval.width hint
          refine @ih _ k (by omega) h₁ ?_
          rw [hwidth, Nat.mul_assoc, ← Nat.pow_succ']
          exact hw
    · exact Or.inr ⟨s, rfl⟩

/-- The stream `ws` spells a code of the interval, with four octets to come. -/
def Fits (ws : List UInt16) (s : BitstrEnc) : Prop := s.interval.Has (code ws (s.octets + 4))

/-- The decoder is four octets ahead of the encoder and knows how far the code is from the lower
end of the interval. -/
structure Follows (ws : List UInt16) (s : BitstrEnc) (d : BitstrDec) : Prop where
  stream : d.stream = ws
  wUpper : d.wUpper = s.wUpper
  ahead : filled d.streamIndex d.full = s.octets + 4
  streamval : s.interval.low + d.streamval.toNat = code ws (s.octets + 4)

variable {d : BitstrDec}

theorem toNat_append {v b : UInt32} (hv : v.toNat < 2 ^ 24) (hb : b.toNat < 256) :
    ((v <<< 8) ||| b).toNat = v.toNat * 256 + b.toNat := by
  rw [UInt32.toNat_or, toNat_shiftLeft_eight, Nat.mod_eq_of_lt (by omega), Nat.mul_comm]
  exact (Nat.two_pow_add_eq_or_of_lt (i := 8) hb v.toNat).symm

theorem readByte_spec (hin : d.streamIndex < d.stream.length) (hv : d.streamval.toNat < 2 ^ 24) :
    ∃ d', readByte d = .ok d' ∧ d'.stream = d.stream ∧ d'.wUpper = d.wUpper <<< 8 ∧
      filled d'.streamIndex d'.full = filled d.streamIndex d.full + 1 ∧
      d'.streamval.toNat =
        d.streamval.toNat * 256 + octet d.stream (filled d.streamIndex d.full) := by
  have hlt := (d.stream.getD d.streamIndex 0).toNat_lt
  cases hf : d.full with
  | true =>
    simp only [readByte, hf, if_true, load_eq hin, ok_bind]
    refine ⟨_, rfl, rfl, rfl, rfl, ?_⟩
    have hb : (d.stream.getD d.streamIndex 0 >>> 8).toUInt32.toNat =
        (d.stream.getD d.streamIndex 0).toNat / 256 := by
      rw [UInt16.toNat_toUInt32, UInt16.toNat_shiftRight]
      simp only [UInt16.reduceToNat, Nat.reduceMod, Nat.shiftRight_eq_div_pow]
    rw [filled_full, octet_even, toNat_append hv (by omega), hb]
  | false =>
    simp only [readByte, hf, Bool.false_eq_true, if_false, load_eq hin, ok_bind]
    refine ⟨_, rfl, rfl, rfl, rfl, ?_⟩
    have hb : (d.stream.getD d.streamIndex 0 &&& 0x00FF).toUInt32.toNat =
        (d.stream.getD d.streamIndex 0).toNat % 256 := by
      rw [UInt16.toNat_toUInt32, UInt16.toNat_and]
      exact Nat.and_two_pow_sub_one_eq_mod _ 8
    rw [filled_half, octet_odd, toNat_append hv (by omega), hb]

theorem Follows.inside (hl : ws.length = INTERNAL_STREAM_SIZE_W16) (h : EncInv s)
    (hd : Follows ws s d) : d.streamIndex < d.stream.length := by
  have ha := hd.ahead
  have hi := h.index
  rw [hd.stream, hl]
  unfold filled at ha
  unfold BitstrEnc.octets filled at ha
  unfold STREAM_MAXW16_60MS at hi
  unfold INTERNAL_STREAM_SIZE_W16
  split at ha <;> split at ha <;> omega

theorem Follows.streamval_le (hd : Follows ws s d) (hfit : Fits ws s) :
    d.streamval.toNat ≤ s.wUpper.toNat := by
  have hs := hd.streamval
  have hle := hfit.2
  have hwidth : s.interval.width = s.wUpper.toNat := rfl
  omega

/-- The decoder reads as many octets as the encoder has stored. -/
theorem renormalize_follows (hl : ws.length = INTERNAL_STREAM_SIZE_W16) {fuel : Nat}
    (h : EncInv s) (hok : renormalize fuel s = .ok s') (hfit : Fits ws s') :
    Fits ws s ∧ ∀ fuel' d, fuel ≤ fuel' → Follows ws s d →
      ∃ d', decRenormalize fuel' d = .ok d' ∧ Follows ws s' d' := by
  induction fuel generalizing s with
  | zero => cases hok
  | succ fuel ih =>
    simp only [renormalize] at hok
    split at hok
    · rename_i hw
      have hw' := wUpper_small.1 hw
      rcases storeByte_spec h hw' with hs | ⟨s₁, hs, h₁, ho, hint⟩
      · rw [hs, error_bind] at hok
        cases hok
      · rw [hs, ok_bind] at hok
        obtain ⟨hfit₁, hdec⟩ := ih h₁ hok
        have hcode : code ws (s₁.octets + 4) =
            code ws (s.octets + 4) * 256 + octet ws (s.octets + 4) := by
          rw [ho, ← code_succ, Nat.add_right_comm]
        have hfit₀ : Fits ws s := by
          unfold Fits at hfit₁ ⊢
          rw [hint, hcode] at hfit₁
          exact Interval.has_of_widen (octet_lt ws _) hfit₁
        refine ⟨hfit₀, fun fuel' d hfuel hd => ?_⟩
        obtain ⟨fuel', rfl⟩ : ∃ n, fuel' = n + 1 := ⟨fuel' - 1, by omega⟩
        have hv := hd.streamval_le hfit₀
        obtain ⟨d₁, hr, hst, hup, hfill, hval⟩ := readByte_spec (hd.inside hl h) (by omega)
        rw [hd.stream, hd.ahead] at hval
        simp only [decRenormalize, hd.wUpper, if_pos hw, hr, ok_bind]
        have hlow : s₁.interval.low = s.interval.low * 256 := by rw [hint]; rfl
        refine hdec fuel' d₁ (by omega) ⟨hst.trans hd.stream, ?_, by rw [hfill, hd.ahead, ho], ?_⟩
        · have hwidth : s₁.wUpper.toNat = s.wUpper.toNat * 256 := congrArg Interval.width hint
          rw [hup, hd.wUpper, ← UInt32.toNat_inj, toNat_shiftLeft_eight, hwidth]
          omega
        · rw [hcode, hlow, hval, ← hd.streamval]
          omega
    · rename_i hw
      cases hok
      refine ⟨hfit, fun fuel' d hfuel hd => ⟨d, ?_, hd⟩⟩
      obtain ⟨fuel', rfl⟩ : ∃ n, fuel' = n + 1 := ⟨fuel' - 1, by omega⟩
      simp only [decRenormalize, hd.wUpper, if_neg hw]

/-! ## Termination -/

theorem code_add {ws : List UInt16} {m : Nat} (k : Nat) :
    ∃ r, r < 256 ^ k ∧ code ws (m + k) = code ws m * 256 ^ k + r := by
  induction k with
  | zero => exact ⟨0, by decide, by simp⟩
  | succ k ih =>
    obtain ⟨r, hr, hc⟩ := ih
    have ho := octet_lt ws (m + k)
    refine ⟨r * 256 + octet ws (m + k), ?_, ?_⟩
    · rw [Nat.pow_succ]
      omega
    · rw [← Nat.add_assoc, code_succ, hc, Nat.pow_succ, ← Nat.mul_assoc]
      omega

theorem fits_of_close {k : Nat} (hk : k ≤ 4) (hw : 2 * 256 ^ (4 - k) ≤ s.wUpper.toNat + 1)
    (hc : code ws (s.octets + k) = (s.interval.low + 256 ^ (4 - k)) / 256 ^ (4 - k)) :
    Fits ws s := by
  obtain ⟨r, hr, hcode⟩ := @code_add ws (s.octets + k) (4 - k)
  unfold Fits
  rw [show s.octets + 4 = s.octets + k + (4 - k) by omega, hcode, hc]
  exact Interval.has_close hw hr

theorem or_eq_add {w b : UInt16} (hw : w.toNat % 256 = 0) (hb : b.toNat < 256) : w ||| b = w + b := by
  have hlt := w.toNat_lt
  rw [← UInt16.toNat_inj, UInt16.toNat_or, UInt16.toNat_add]
  have hor := Nat.two_pow_add_eq_or_of_lt (i := 8) hb (w.toNat / 256)
  rw [show 2 ^ 8 * (w.toNat / 256) = w.toNat by omega] at hor
  rw [← hor]
  omega

theorem toNat_second (v : UInt32) :
    ((v >>> 8).toUInt16 &&& 0xFF00).toNat / 256 = v.toNat / 2 ^ 16 % 256 := by
  rw [UInt16.toNat_and, UInt32.toNat_toUInt16, UInt32.toNat_shiftRight]
  simp only [UInt32.reduceToNat, UInt16.reduceToNat, Nat.reduceMod, Nat.shiftRight_eq_div_pow]
  have hdiv := @Nat.and_div_two_pow (v.toNat / 2 ^ 8 % 2 ^ 16) 0xFF00 8
  have hand := Nat.and_two_pow_sub_one_eq_mod (v.toNat / 2 ^ 8 % 2 ^ 16 / 2 ^ 8) 8
  simp only [Nat.reducePow, Nat.reduceDiv, Nat.reduceSub] at hdiv hand ⊢
  rw [hdiv, hand]
  omega

theorem toNat_upper (v : UInt32) : (v >>> 16).toUInt16.toNat = v.toNat / 2 ^ 16 := by
  have := v.toNat_lt
  rw [UInt32.toNat_toUInt16, UInt32.toNat_shiftRight]
  simp only [UInt32.reduceToNat, Nat.reduceMod, Nat.shiftRight_eq_div_pow]
  omega

theorem top_octet (c v : Nat) : c * 256 + v / 2 ^ 24 = (c * 2 ^ 32 + v) / 2 ^ 24 := by omega

theorem top_word (c v : Nat) : c * 65536 + v / 2 ^ 16 = (c * 2 ^ 32 + v) / 2 ^ 16 := by omega

theorem top_octets (c v : Nat) :
    (c * 256 + v / 2 ^ 24) * 256 + v / 2 ^ 16 % 256 = (c * 2 ^ 32 + v) / 2 ^ 16 := by omega

/-- The octets `EncTerminate` adds determine the code. -/
theorem encTerminate_spec (h : EncInv s) (hw : 2 ^ 24 ≤ s.wUpper.toNat) {n : Nat}
    {written : List UInt16} (hok : encTerminate s = .ok (n, written)) :
    ∃ k, (k = if 0x01FFFFFF < s.wUpper then 1 else 2) ∧ n = s.octets + k ∧
      code written n = (s.interval.low + 256 ^ (4 - k)) / 256 ^ (4 - k) := by
  have htop := h.top
  have hwidth : s.interval.width = s.wUpper.toNat := rfl
  simp only [encTerminate] at hok
  split at hok
  · rename_i hbig
    have hbig' := UInt32.lt_iff_toNat_lt.1 hbig
    simp only [UInt32.reduceToNat] at hbig'
    refine ⟨1, (if_pos hbig).symm, ?_⟩
    obtain ⟨s₁, hadd, hb, ho, hint, -⟩ := addToStream_spec (v := 0x01000000) h.toBufferInv (by
      simp only [UInt32.reduceToNat]
      omega)
    have hlow : code s₁.stream s₁.octets * 2 ^ 32 + s₁.streamval.toNat =
        s.interval.low + 2 ^ 24 := congrArg Interval.low hint
    have hsv := s₁.streamval.toNat_lt
    have htop₁ := toNat_top s₁.streamval
    have hin := hb.inside
    rw [hadd, ok_bind] at hok
    rw [← ho, show 256 ^ (4 - 1) = 2 ^ 24 by decide, ← hlow]
    split at hok
    · rename_i hf
      have hoct : s₁.octets = 2 * s₁.streamIndex := by rw [BitstrEnc.octets, hf, filled_full]
      rw [store_eq hin, ok_bind] at hok
      cases hok
      refine ⟨by omega, ?_⟩
      rw [Nat.mul_comm, code_store_high hin (by omega), ← hoct, htop₁]
      exact top_octet _ _
    · rename_i hf
      rw [Bool.not_eq_true] at hf
      have hoct : s₁.octets = 2 * s₁.streamIndex + 1 := by rw [BitstrEnc.octets, hf, filled_half]
      rw [load_eq hin, ok_bind, store_eq hin, ok_bind] at hok
      cases hok
      refine ⟨by omega, ?_⟩
      rw [Nat.mul_comm, code_store_low hin (hb.half hf) (by omega), ← hoct, htop₁]
      exact top_octet _ _
  · rename_i hbig
    refine ⟨2, (if_neg hbig).symm, ?_⟩
    obtain ⟨s₁, hadd, hb, ho, hint, -⟩ := addToStream_spec (v := 0x00010000) h.toBufferInv (by
      simp only [UInt32.reduceToNat]
      omega)
    have hlow : code s₁.stream s₁.octets * 2 ^ 32 + s₁.streamval.toNat =
        s.interval.low + 2 ^ 16 := congrArg Interval.low hint
    have hsv := s₁.streamval.toNat_lt
    have htop₁ := toNat_top s₁.streamval
    have hin := hb.inside
    rw [hadd, ok_bind] at hok
    rw [← ho, show 256 ^ (4 - 2) = 2 ^ 16 by decide, ← hlow]
    split at hok
    · rename_i hf
      have hoct : s₁.octets = 2 * s₁.streamIndex := by rw [BitstrEnc.octets, hf, filled_full]
      rw [store_eq hin, ok_bind] at hok
      cases hok
      refine ⟨by omega, ?_⟩
      rw [Nat.mul_comm, code_word, code_set, getD_set_self hin, toNat_upper, ← hoct]
      exact top_word _ _
    · rename_i hf
      rw [Bool.not_eq_true] at hf
      have hoct : s₁.octets = 2 * s₁.streamIndex + 1 := by rw [BitstrEnc.octets, hf, filled_half]
      rw [load_eq hin, ok_bind, store_eq hin, ok_bind, or_eq_add (hb.half hf) (by omega)] at hok
      obtain ⟨stream, hst, hok⟩ := bind_ok hok
      cases hok
      refine ⟨by omega, ?_⟩
      have hin' : s₁.streamIndex + 1 < (s₁.stream.set s₁.streamIndex
          (s₁.stream.getD s₁.streamIndex 0 + (s₁.streamval >>> 24).toUInt16)).length := by
        unfold store at hst
        split at hst
        · assumption
        · cases hst
      rw [store_eq hin'] at hst
      cases hst
      rw [Nat.mul_comm, code_half, code_set, code_store_low hin (hb.half hf) (by omega), ← hoct,
        getD_set_self hin', toNat_second, htop₁]
      exact top_octets _ _

theorem store_length {ws' : List UInt16} {i : Nat} {w : UInt16} (h : store ws i w = .ok ws') :
    ws'.length = ws.length := by
  unfold store at h
  split at h
  · cases h
    exact List.length_set
  · cases h

theorem encTerminate_length (h : EncInv s) (hw : 2 ^ 24 ≤ s.wUpper.toNat) {n : Nat}
    {written : List UInt16} (hok : encTerminate s = .ok (n, written)) :
    written.length = STREAM_MAXW16_60MS := by
  have htop := h.top
  have hwidth : s.interval.width = s.wUpper.toNat := rfl
  simp only [encTerminate] at hok
  split at hok
  · rename_i hbig
    have hbig' := UInt32.lt_iff_toNat_lt.1 hbig
    simp only [UInt32.reduceToNat] at hbig'
    obtain ⟨s₁, hadd, hb, -⟩ := addToStream_spec (v := 0x01000000) h.toBufferInv (by
      simp only [UInt32.reduceToNat]
      omega)
    rw [hadd, ok_bind] at hok
    split at hok
    · obtain ⟨stream, hst, hok⟩ := bind_ok hok
      cases hok
      exact (store_length hst).trans hb.length
    · obtain ⟨_, -, hok⟩ := bind_ok hok
      obtain ⟨stream, hst, hok⟩ := bind_ok hok
      cases hok
      exact (store_length hst).trans hb.length
  · obtain ⟨s₁, hadd, hb, -⟩ := addToStream_spec (v := 0x00010000) h.toBufferInv (by
      simp only [UInt32.reduceToNat]
      omega)
    rw [hadd, ok_bind] at hok
    split at hok
    · obtain ⟨stream, hst, hok⟩ := bind_ok hok
      cases hok
      exact (store_length hst).trans hb.length
    · obtain ⟨_, -, hok⟩ := bind_ok hok
      obtain ⟨stream, hst, hok⟩ := bind_ok hok
      obtain ⟨stream', hst', hok⟩ := bind_ok hok
      cases hok
      exact (store_length hst').trans ((store_length hst).trans hb.length)

end RtcCore.L1.Isac
