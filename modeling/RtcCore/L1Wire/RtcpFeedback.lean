import RtcCore.L1Wire.RtcpReports

/-!
# Feedback packets, parsed

Bitrates go through an exponent and a mantissa. As long as the 32-bit shift
of the largest mantissa does not truncate, the parser gets back what
`roundDown` says.
-/
namespace RtcCore.L1.Rtcp

open Bytes

namespace Parser

/-! ## Exponent and mantissa -/

/-- Up to the exponent 32 - bits the shift does not truncate. -/
theorem mantissaMax_shift {bits i : Nat} (hb : bits = 17 ∨ bits = 18) (hi : i ≤ 32 - bits) :
    (UInt32.ofNat (2 ^ bits - 1) <<< UInt32.ofNat i).toNat = (2 ^ bits - 1) * 2 ^ i := by
  have hpow : 2 ^ bits * 2 ^ i ≤ 2 ^ 32 := by
    rw [← Nat.pow_add]
    exact Nat.pow_le_pow_right (by omega) (by omega)
  have hpos : 0 < 2 ^ i := Nat.two_pow_pos i
  have hlt : (2 ^ bits - 1) * 2 ^ i < 2 ^ 32 := by
    rw [Nat.sub_mul, Nat.one_mul]
    have : 0 < 2 ^ bits * 2 ^ i := Nat.mul_pos (Nat.two_pow_pos _) hpos
    omega
  have hle : 2 ^ bits - 1 ≤ (2 ^ bits - 1) * 2 ^ i := Nat.le_mul_of_pos_right _ hpos
  rw [UInt32.toNat_shiftLeft, UInt32.toNat_ofNat', UInt32.toNat_ofNat', Nat.shiftLeft_eq,
    Nat.mod_eq_of_lt (show 2 ^ bits - 1 < 2 ^ 32 by omega),
    show i % 2 ^ 32 % 32 = i by omega, Nat.mod_eq_of_lt hlt]

theorem computeExponent_eq {bits : Nat} (hb : bits = 17 ∨ bits = 18) {v : UInt32}
    (hv : v.toNat ≤ (2 ^ bits - 1) * 2 ^ (32 - bits)) :
    computeExponent v bits = exponent bits v.toNat ∧ exponent bits v.toNat ≤ 32 - bits ∧
      v.toNat ≤ (2 ^ bits - 1) * 2 ^ exponent bits v.toNat := by
  unfold exponent computeExponent
  cases hf : (List.range 64).find? fun e => decide (v.toNat ≤ (2 ^ bits - 1) * 2 ^ e) with
  | none =>
    have := List.find?_eq_none.1 hf (32 - bits) (List.mem_range.2 (by omega))
    simp [hv] at this
  | some e =>
    obtain ⟨he, -, hmin⟩ := List.find?_range_eq_some.1 hf
    have he := of_decide_eq_true he
    have hle : e ≤ 32 - bits := by
      by_cases hlt : 32 - bits < e
      · have := hmin _ hlt
        simp [hv] at this
      · omega
    have hcode : (List.range 64).find?
        (fun i => decide (v ≤ UInt32.ofNat (2 ^ bits - 1) <<< UInt32.ofNat i)) = some e := by
      refine List.find?_range_eq_some.2 ⟨?_, List.mem_range.2 (by omega), fun j hj => ?_⟩
      · refine decide_eq_true ?_
        rw [UInt32.le_iff_toNat_le, mantissaMax_shift hb hle]
        exact he
      · have hj' := hmin j hj
        simp only [Bool.not_eq_true', decide_eq_false_iff_not] at hj' ⊢
        rw [UInt32.le_iff_toNat_le, mantissaMax_shift hb (by omega)]
        exact hj'
    dsimp only
    rw [hcode]
    exact ⟨rfl, hle, he⟩

theorem mantissa {bits : Nat} (hb : bits = 17 ∨ bits = 18) {v : UInt32}
    (hv : v.toNat ≤ (2 ^ bits - 1) * 2 ^ (32 - bits)) :
    (v >>> UInt32.ofNat (computeExponent v bits)).toNat < 2 ^ bits ∧
    (v >>> UInt32.ofNat (computeExponent v bits)) <<< UInt32.ofNat (computeExponent v bits) =
      UInt32.ofNat (roundDown bits v.toNat) := by
  obtain ⟨heq, hle, hmax⟩ := computeExponent_eq hb hv
  rw [heq]
  unfold roundDown
  generalize exponent bits v.toNat = e at hle hmax
  have hpos : 0 < 2 ^ e := Nat.two_pow_pos e
  have hm : v.toNat / 2 ^ e ≤ 2 ^ bits - 1 := Nat.div_le_of_le_mul (by rwa [Nat.mul_comm])
  have htop : 0 < 2 ^ bits := Nat.two_pow_pos bits
  have hmod : (UInt32.ofNat e).toNat % 32 = e := by
    rw [UInt32.toNat_ofNat']
    omega
  constructor
  · rw [UInt32.toNat_shiftRight, hmod, Nat.shiftRight_eq_div_pow]
    omega
  · apply UInt32.toNat_inj.1
    rw [UInt32.toNat_shiftLeft, UInt32.toNat_shiftRight, hmod, Nat.shiftRight_eq_div_pow,
      Nat.shiftLeft_eq, UInt32.toNat_ofNat']

theorem and_three (n : Nat) : n &&& 3 = n % 4 := Nat.and_two_pow_sub_one_eq_mod n 2

theorem and_63 (n : Nat) : n &&& 63 = n % 64 := Nat.and_two_pow_sub_one_eq_mod n 6

theorem and_127 (n : Nat) : n &&& 127 = n % 128 := Nat.and_two_pow_sub_one_eq_mod n 7

/-- The mantissa and the exponent of a TMMBR item; `x` is the top bit of the overhead. -/
theorem tmmbr_mantissa (m : UInt32) (e x : UInt8) (hm : m.toNat < 2 ^ 17) (he : e.toNat < 64)
    (hx : x.toNat ≤ 1) :
    let b₀ := (e <<< 2) + ((m >>> 15) &&& 0x03).toUInt8
    let b₁ := (m >>> 7).toUInt8
    let b₂ := (m <<< 1).toUInt8 + x
    ((b₀ &&& 0x03).toUInt32 <<< 15) + (b₁.toUInt32 <<< 7) + ((b₂ >>> 1) &&& 0x7F).toUInt32 = m ∧
      ((b₀ >>> 2) &&& 0x3F) = e := by
  refine ⟨?_, ?_⟩
  · apply UInt32.toNat_inj.1
    simp [and_three, and_127, Nat.shiftRight_eq_div_pow, Nat.shiftLeft_eq]
    omega
  · apply UInt8.toNat_inj.1
    simp [and_three, and_63, Nat.shiftRight_eq_div_pow, Nat.shiftLeft_eq]
    omega

theorem tmmbr_overhead (m : UInt32) (overhead : UInt16) (ho : overhead.toNat ≤ 0x1ff) :
    tmmbrOverhead ((m <<< 1).toUInt8 + ((overhead >>> 8) &&& 0x01).toUInt8) overhead.toUInt8 =
      overhead.toUInt32 := by
  apply UInt32.toNat_inj.1
  simp [tmmbrOverhead, Nat.shiftRight_eq_div_pow, Nat.shiftLeft_eq]
  omega

/-- The fields of a REMB item. -/
theorem remb_fields (m : UInt32) (e : UInt8) (hm : m.toNat < 2 ^ 18) (he : e.toNat < 64) :
    let b₀ := (e <<< 2) + ((m >>> 16) &&& 0x03).toUInt8
    ((b₀ &&& 0x03).toUInt32 <<< 16) + ((m >>> 8).toUInt8.toUInt32 <<< 8) + m.toUInt8.toUInt32 = m ∧
      ((b₀ >>> 2) &&& 0x3F) = e := by
  refine ⟨?_, ?_⟩
  · apply UInt32.toNat_inj.1
    simp [and_three, Nat.shiftRight_eq_div_pow, Nat.shiftLeft_eq]
    omega
  · apply UInt8.toNat_inj.1
    simp [and_three, and_63, Nat.shiftRight_eq_div_pow, Nat.shiftLeft_eq]
    omega

/-- The exponent fits its field. -/
theorem exponent_octet {bits : Nat} (hb : bits = 17 ∨ bits = 18) {v : UInt32}
    (hv : v.toNat ≤ (2 ^ bits - 1) * 2 ^ (32 - bits)) :
    (UInt8.ofNat (computeExponent v bits)).toNat < 64 ∧
      (UInt8.ofNat (computeExponent v bits)).toUInt32 = UInt32.ofNat (computeExponent v bits) := by
  obtain ⟨heq, hle, -⟩ := computeExponent_eq hb hv
  have hoct : (UInt8.ofNat (computeExponent v bits)).toNat = computeExponent v bits := by
    rw [UInt8.toNat_ofNat', heq]
    omega
  constructor
  · rw [hoct, heq]
    omega
  · apply UInt32.toNat_inj.1
    rw [UInt8.toNat_toUInt32, hoct, UInt32.toNat_ofNat', heq]
    omega

/-- What the parser makes of the bitrate of a REMB packet. -/
theorem rembBitRate_fields {v : UInt32} (hv : v.toNat ≤ (2 ^ 18 - 1) * 2 ^ (32 - 18)) :
    rembBitRate
      ((UInt8.ofNat (computeExponent v 18) <<< 2) +
        (((v >>> UInt32.ofNat (computeExponent v 18)) >>> 16) &&& 0x03).toUInt8)
      ((v >>> UInt32.ofNat (computeExponent v 18)) >>> 8).toUInt8
      (v >>> UInt32.ofNat (computeExponent v 18)).toUInt8 = UInt32.ofNat (roundDown 18 v.toNat) := by
  obtain ⟨hm, hround⟩ := mantissa (Or.inr rfl) hv
  obtain ⟨he, hoct⟩ := exponent_octet (Or.inr rfl) hv
  obtain ⟨hf1, hf2⟩ := remb_fields _ _ hm he
  rw [rembBitRate, hf1, hf2, hoct, hround]

/-- What the parser makes of the bitrate of a TMMBR item. -/
theorem tmmbrBitRate_fields {v : UInt32} (hv : v.toNat ≤ (2 ^ 17 - 1) * 2 ^ (32 - 17)) {x : UInt8}
    (hx : x.toNat ≤ 1) :
    tmmbrBitRate
      ((UInt8.ofNat (computeExponent v 17) <<< 2) +
        (((v >>> UInt32.ofNat (computeExponent v 17)) >>> 15) &&& 0x03).toUInt8)
      ((v >>> UInt32.ofNat (computeExponent v 17)) >>> 7).toUInt8
      (((v >>> UInt32.ofNat (computeExponent v 17)) <<< 1).toUInt8 + x) =
        UInt32.ofNat (roundDown 17 v.toNat) / 1000 := by
  obtain ⟨hm, hround⟩ := mantissa (Or.inl rfl) hv
  obtain ⟨he, hoct⟩ := exponent_octet (Or.inl rfl) hv
  obtain ⟨hf1, hf2⟩ := tmmbr_mantissa _ _ _ hm he hx
  rw [tmmbrBitRate, hf1, hf2, hoct, hround]

/-! ## Header and SSRCs -/

section Feedback

variable {p : Parser} {inner rest fci : Bytes} {k n : Nat} {is : List Item} {fmt pt : UInt8}
  {sender media : UInt32}

/-- A feedback packet with items: `parse` says what the switch on the format
does. -/
theorem onward_feedback {item : UInt32 → UInt32 → Item} {t : ParseState} (hfmt : fmt.toNat ≤ 31)
    (hfci : fci.length = n) (hw : n % 4 = 0) (hmax : 12 + n < 65536)
    (parse : ∀ (p : Parser) (n : Nat), p.parseBlock ⟨fmt.toNat, pt, n⟩ =
      if p.length < 12 then some (false, p.endCurrentBlock)
      else do
        let (senderSSRC, p) ← (p.skip 4).u32
        let (mediaSSRC, p) ← p.u32
        p.deliver (item senderSSRC mediaSSRC) t)
    (hk : ∀ q k, At q fci rest t k → Yields 4 q is) :
    Onward (createFeedback fmt pt n sender media fci ++ rest) (item sender media :: is) := by
  refine onward_block hfmt ?_ ?_ hmax fun p k h => ?_
  · simp only [List.length_append, assignUWord32_length, kCommonFbFmtLength]
    omega
  · simp only [kCommonFbFmtLength]
    omega
  have hl := h.length
  simp only [List.length_append, assignUWord32_length, createHeader_length] at hl
  replace h := h.skipHeader
  simp only [List.append_assoc] at h
  rw [parse, if_neg (by omega)]
  refine h.u32 fun q h => ?_
  refine h.u32 fun q h => ?_
  exact (h.deliver _ _).mono fun q hq => hk q k hq

/-- A feedback packet with a row of items. -/
theorem onward_items {α : Type} {enc : α → Bytes} {item : UInt32 → UInt32 → Item}
    {item' : α → Item} {t : ParseState} (xs : List α) (hfmt : fmt.toNat ≤ 31)
    (hfci : (xs.flatMap enc).length = n) (hw : n % 4 = 0) (hmax : 12 + n < 65536)
    (parse : ∀ (p : Parser) (n : Nat), p.parseBlock ⟨fmt.toNat, pt, n⟩ =
      if p.length < 12 then some (false, p.endCurrentBlock)
      else do
        let (senderSSRC, p) ← (p.skip 4).u32
        let (mediaSSRC, p) ← p.u32
        p.deliver (item senderSSRC mediaSSRC) t)
    (ht : t ≠ .topLevel ∧ t ≠ .sdesChunk ∧ t ≠ .xrDlrrItem)
    (items : ∀ x ∈ xs, ∀ {p : Parser} {inner : Bytes} {k : Nat}, At p (enc x ++ inner) rest t k →
      Delivers p.parseItem (item' x) fun q => At q inner rest t k)
    (hk : Onward rest is) :
    Onward (createFeedback fmt pt n sender media (xs.flatMap enc) ++ rest)
      (item sender media :: xs.map item' ++ is) := by
  refine onward_feedback hfmt hfci hw hmax parse fun q k hq => ?_
  have hat : At q (xs.flatMap enc ++ []) rest t (k + xs.length * 0) := by
    rw [List.append_nil]
    exact hq
  refine yields_items ht.1 xs items (fun q hq => ?_) hat
  exact (hq.ends ht hk).mono (by omega)

/-- A PLI has no items, and its block ends behind the SSRCs. -/
theorem Pli.onward (b : Pli) (hk : Onward rest is) :
    Onward (b.block ++ rest) ((Packet.pli b).items ++ is) := by
  refine onward_block (by decide) rfl (by decide) (by decide) fun p k h => ?_
  have hl := h.length
  show Delivers (p.parseFBCommon _) _ _
  unfold parseFBCommon
  simp only [List.length_append, assignUWord32_length, createHeader_length, List.length_nil] at hl
  rw [if_neg (by omega)]
  replace h := h.skipHeader
  simp only [List.append_assoc] at h
  refine h.u32 fun q h => ?_
  refine h.u32 fun q h => ?_
  show Delivers (q.deliver _ q.state) _ fun q => Yields 4 q _
  exact (h.deliverSame _).mono fun q hq => (hk q k hq).mono (by omega)

/-! ## Slice losses -/

theorem sli_word (b : Sli) :
    assignUWord8 (b.firstMB >>> 5).toUInt8 ++
      assignUWord8 ((b.firstMB <<< 3).toUInt8 + ((b.numberOfMB >>> 10) &&& 0x07).toUInt8) ++
      assignUWord8 (b.numberOfMB >>> 2).toUInt8 ++
      assignUWord8 ((b.numberOfMB <<< 6).toUInt8 + b.pictureId) =
    assignUWord32 (UInt32.ofNat (b.firstMB.toNat * 2 ^ 19 + b.numberOfMB.toNat * 64 +
      b.pictureId.toNat)) := by
  have h1 := b.firstMB_le
  have h2 := b.numberOfMB_le
  have h3 := b.pictureId_le
  have hand : ∀ n : Nat, n &&& 7 = n % 8 := fun n => Nat.and_two_pow_sub_one_eq_mod n 3
  simp only [assignUWord8, assignUWord32, be32, UInt32.toNat_ofNat', List.cons_append,
    List.nil_append]
  refine List.cons_eq_cons.2 ⟨?_, List.cons_eq_cons.2 ⟨?_, List.cons_eq_cons.2 ⟨?_,
    List.cons_eq_cons.2 ⟨?_, rfl⟩⟩⟩⟩
  · apply UInt8.toNat_inj.1
    simp [Nat.shiftRight_eq_div_pow]
    omega
  · apply UInt8.toNat_inj.1
    simp [hand, Nat.shiftRight_eq_div_pow, Nat.shiftLeft_eq]
    omega
  · apply UInt8.toNat_inj.1
    simp [Nat.shiftRight_eq_div_pow]
    omega
  · apply UInt8.toNat_inj.1
    simp [Nat.shiftLeft_eq]
    omega

theorem sli_fields (b : Sli) :
    let v := UInt32.ofNat (b.firstMB.toNat * 2 ^ 19 + b.numberOfMB.toNat * 64 + b.pictureId.toNat)
    ((v >>> 19) &&& 0x1fff).toUInt16 = b.firstMB ∧ ((v >>> 6) &&& 0x1fff).toUInt16 = b.numberOfMB ∧
      (v &&& 0x3f).toUInt8 = b.pictureId := by
  have h1 := b.firstMB_le
  have h2 := b.numberOfMB_le
  have h3 := b.pictureId_le
  have h6 : ∀ n : Nat, n &&& 63 = n % 64 := fun n => Nat.and_two_pow_sub_one_eq_mod n 6
  have h13 : ∀ n : Nat, n &&& 8191 = n % 8192 := fun n => Nat.and_two_pow_sub_one_eq_mod n 13
  refine ⟨?_, ?_, ?_⟩
  · apply UInt16.toNat_inj.1
    simp [h13, Nat.shiftRight_eq_div_pow]
    omega
  · apply UInt16.toNat_inj.1
    simp [h13, Nat.shiftRight_eq_div_pow]
    omega
  · apply UInt8.toNat_inj.1
    simp [h6]
    omega

theorem parse_sliItem (b : Sli) (h : At p (assignUWord32 (UInt32.ofNat (b.firstMB.toNat * 2 ^ 19 +
    b.numberOfMB.toNat * 64 + b.pictureId.toNat)) ++ inner) rest .sliItem k) :
    Delivers p.parseItem (.sliItem b.firstMB b.numberOfMB b.pictureId)
      fun q => At q inner rest .sliItem k := by
  have hl := h.length
  rw [List.length_append, assignUWord32_length] at hl
  obtain ⟨h1, h2, h3⟩ := sli_fields b
  unfold parseItem
  rw [h.state]
  show Delivers p.parseSLIItem _ _
  unfold parseSLIItem
  rw [if_neg (by omega)]
  refine h.u32 fun q h => ?_
  dsimp only
  rw [h1, h2, h3]
  exact h.deliverSame _

theorem Sli.onward (b : Sli) (hk : Onward rest is) :
    Onward (b.block ++ rest) ((Packet.sli b).items ++ is) := by
  have henc : ([b].flatMap fun b => assignUWord32 (UInt32.ofNat (b.firstMB.toNat * 2 ^ 19 +
      b.numberOfMB.toNat * 64 + b.pictureId.toNat))) = assignUWord32 (UInt32.ofNat
        (b.firstMB.toNat * 2 ^ 19 + b.numberOfMB.toNat * 64 + b.pictureId.toNat)) :=
    List.append_nil _
  unfold Sli.block
  rw [sli_word, ← henc]
  refine onward_items [b] (by decide) (by rw [henc]; rfl) (by decide) (by decide)
    (fun _ _ => rfl) (by simp) (fun b _ _ _ _ hq => parse_sliItem b hq) hk

/-! ## Negative acknowledgements -/

theorem createNackField_length (x : NackField) : (createNackField x).length = 4 := rfl

theorem parse_nackField {x : NackField} (h : At p (createNackField x ++ inner) rest .nackItem k) :
    Delivers p.parseItem (.nackItem x.packetID x.bitMask) fun q => At q inner rest .nackItem k := by
  have hl := h.length
  rw [List.length_append, createNackField_length] at hl
  unfold createNackField at h
  simp only [List.append_assoc] at h
  unfold parseItem
  rw [h.state]
  show Delivers p.parseNACKItem _ _
  unfold parseNACKItem
  rw [if_neg (by omega)]
  refine h.u16 fun q h => ?_
  refine h.u16 fun q h => ?_
  exact h.deliverSame _

theorem Nack.onward (b : Nack) (hmax : 12 + 4 * b.nackFields.length < 65536) (hk : Onward rest is) :
    Onward (b.block ++ rest) ((Packet.nack b).items ++ is) := by
  have hflat := flatMap_length createNackField_length b.nackFields
  exact onward_items b.nackFields (by decide) (by omega) (by omega) hmax (fun _ _ => rfl) (by simp)
    (fun _ _ _ _ _ hq => parse_nackField hq) hk

/-! ## Reference pictures -/

theorem nativeBits_length (pid : UInt64) (n : Nat) : (nativeBits pid n).length = n := by
  induction n with
  | zero => rfl
  | succ n ih =>
    cases n with
    | zero => rfl
    | succ n =>
      unfold nativeBits
      rw [List.length_cons, ih]

theorem requiredBytes_le (pid : UInt64) : ∀ fuel, requiredBytes fuel pid ≤ fuel := by
  intro fuel
  induction fuel generalizing pid with
  | zero => exact Nat.le_refl 0
  | succ fuel ih =>
    unfold requiredBytes
    dsimp only
    split
    · have := ih ((pid >>> 7) &&& 0x1ffffffffffffff)
      omega
    · omega

theorem Rpsi.length_bounds (b : Rpsi) :
    1 ≤ b.nativeBitString.length ∧ b.nativeBitString.length ≤ 10 ∧ b.paddingBytes ≤ 3 ∧
      (2 + b.nativeBitString.length + b.paddingBytes) % 4 = 0 := by
  have hlen : b.nativeBitString.length = requiredBytes 10 b.pictureId := nativeBits_length _ _
  have hle := requiredBytes_le b.pictureId 10
  have hpos : 1 ≤ requiredBytes 10 b.pictureId := by
    unfold requiredBytes
    dsimp only
    split <;> omega
  unfold Rpsi.paddingBytes
  dsimp only
  rw [hlen]
  refine ⟨hpos, hle, ?_, ?_⟩
  · split <;> omega
  · split <;> omega

theorem parse_rpsiItem (b : Rpsi) (h : At p (assignUWord8 (UInt8.ofNat (b.paddingBytes * 8)) ++
    (assignUWord8 b.payloadType ++ ((b.nativeBitString ++ List.replicate b.paddingBytes 0) ++ [])))
      rest .rpsiItem k) :
    Delivers p.parseItem (.rpsiItem b.payloadType (UInt16.ofNat (8 * b.nativeBitString.length))
      (b.nativeBitString ++ List.replicate b.paddingBytes 0)) fun q => At q [] rest .rpsiItem k := by
  obtain ⟨h1, h2, h3, h4⟩ := Rpsi.length_bounds b
  have hl := h.length
  simp only [List.length_append, assignUWord8_length, List.length_replicate, List.length_nil] at hl
  have hbits : UInt16.ofNat ((p.length - 2) * 8) -
      UInt16.ofNat (UInt8.ofNat (b.paddingBytes * 8)).toNat =
        UInt16.ofNat (8 * b.nativeBitString.length) := by
    apply UInt16.toNat_inj.1
    rw [UInt16.toNat_sub]
    simp only [UInt16.toNat_ofNat', UInt8.toNat_ofNat']
    omega
  unfold parseItem
  rw [h.state]
  show Delivers p.parseRPSIItem _ _
  unfold parseRPSIItem
  dsimp only
  rw [if_neg (by unfold RTCP_RPSI_DATA_SIZE; omega)]
  refine h.u8 fun q h => ?_
  refine h.u8 fun q h => ?_
  refine h.read (by rw [List.length_append, List.length_replicate]; omega) fun q h => ?_
  dsimp only
  rw [hbits]
  exact h.deliverSame _

theorem Rpsi.onward (b : Rpsi) (hk : Onward rest is) :
    Onward (b.block ++ rest) ((Packet.rpsi b).items ++ is) := by
  obtain ⟨h1, h2, h3, h4⟩ := Rpsi.length_bounds b
  unfold Rpsi.block
  refine onward_feedback (by decide) ?_ (by omega) (by omega) (fun _ _ => rfl) fun q k hq => ?_
  · simp only [List.length_append, assignUWord8_length, List.length_replicate]
  · have hat : At q (assignUWord8 (UInt8.ofNat (b.paddingBytes * 8)) ++ (assignUWord8 b.payloadType ++
        ((b.nativeBitString ++ List.replicate b.paddingBytes 0) ++ []))) rest .rpsiItem k := by
      rw [List.append_nil]
      simp only [List.append_assoc] at hq
      exact hq
    refine (hat.item (by simp) (parse_rpsiItem b hat.reset) fun q hq => ?_).mono (by omega)
    exact (hq.ends (by simp) hk).mono (by omega)

/-! ## Intra requests -/

/-- What stands behind the SSRCs. -/
def firFields (b : Fir) : Bytes :=
  assignUWord32 b.ssrc ++ assignUWord8 b.commandSequenceNumber ++ assignUWord24 0

theorem parse_firItem (b : Fir) (h : At p (firFields b ++ inner) rest .firItem k) :
    Delivers p.parseItem (.firItem b.ssrc b.commandSequenceNumber)
      fun q => At q inner rest .firItem k := by
  have hl := h.length
  rw [List.length_append, show (firFields b).length = 8 from rfl] at hl
  unfold firFields at h
  simp only [List.append_assoc] at h
  unfold parseItem
  rw [h.state]
  show Delivers p.parseFIRItem _ _
  unfold parseFIRItem
  rw [if_neg (by omega)]
  refine h.u32 fun q h => ?_
  refine h.u8 fun q h => ?_
  exact h.skip.deliverSame _

theorem Fir.onward (b : Fir) (hk : Onward rest is) :
    Onward (b.block ++ rest) ((Packet.fir b).items ++ is) := by
  have henc : [b].flatMap firFields = firFields b := List.append_nil _
  unfold Fir.block
  rw [show assignUWord32 b.ssrc ++ assignUWord8 b.commandSequenceNumber ++ assignUWord24 0 =
    [b].flatMap firFields from henc.symm]
  exact onward_items [b] (by decide) (by rw [henc]; rfl) (by decide) (by decide) (fun _ _ => rfl)
    (by simp) (fun _ _ _ _ _ hq => parse_firItem _ hq) hk

/-! ## Bitrates -/

/-- The bitrate in bit/s has an exponent. -/
def TmmbrItem.representable (i : TmmbrItem) : Prop := i.bitrateKbps.toNat * 1000 ≤ 0xFFFF8000

def Remb.representable (b : Remb) : Prop := b.bitRate.toNat ≤ 0xFFFFC000

theorem createTmmbrItem_length (i : TmmbrItem) : (createTmmbrItem i).length = 8 := rfl

/-- Both parsers of TMMBR items. -/
theorem parse_tmmbItem {i : TmmbrItem} (hr : TmmbrItem.representable i) {s : ParseState}
    (item : UInt32 → UInt32 → UInt32 → Item) (h : At p (createTmmbrItem i ++ inner) rest s k) :
    Delivers (p.parseTMMBItem item) (item i.ssrc i.kbps i.overhead.toUInt32)
      fun q => At q inner rest s k := by
  have hl := h.length
  rw [List.length_append, createTmmbrItem_length] at hl
  have hbps : (i.bitrateKbps * 1000).toNat = i.bitrateKbps.toNat * 1000 := by
    unfold TmmbrItem.representable at hr
    rw [UInt32.toNat_mul]
    show i.bitrateKbps.toNat * 1000 % 4294967296 = _
    omega
  have hv : (i.bitrateKbps * 1000).toNat ≤ (2 ^ 17 - 1) * 2 ^ (32 - 17) := by
    rw [hbps]
    exact hr
  have hbit : ((i.overhead >>> 8) &&& 0x01).toUInt8.toNat ≤ 1 := by
    simp
    omega
  unfold createTmmbrItem at h
  simp only [List.append_assoc] at h
  unfold parseTMMBItem
  rw [if_neg (by omega)]
  refine h.u32 fun q h => ?_
  refine h.u8 fun q h => ?_
  refine h.u8 fun q h => ?_
  refine h.u8 fun q h => ?_
  refine h.u8 fun q h => ?_
  dsimp only
  rw [tmmbrBitRate_fields hv hbit, tmmbr_overhead _ _ i.overhead_le, hbps]
  have hkbps : UInt32.ofNat (roundDown 17 (i.bitrateKbps.toNat * 1000)) / 1000 = TmmbrItem.kbps i := by
    have hlt : roundDown 17 (i.bitrateKbps.toNat * 1000) ≤ i.bitrateKbps.toNat * 1000 :=
      Nat.div_mul_le_self _ _
    unfold TmmbrItem.representable at hr
    apply UInt32.toNat_inj.1
    unfold TmmbrItem.kbps
    rw [UInt32.toNat_div, UInt32.toNat_ofNat', UInt32.toNat_ofNat']
    show _ % 2 ^ 32 / 1000 = _
    omega
  rw [hkbps]
  exact h.deliverSame _

theorem parse_tmmbrItem {i : TmmbrItem} (hr : TmmbrItem.representable i)
    (h : At p (createTmmbrItem i ++ inner) rest .tmmbrItem k) :
    Delivers p.parseItem (.tmmbrItem i.ssrc i.kbps i.overhead.toUInt32)
      fun q => At q inner rest .tmmbrItem k := by
  unfold parseItem
  rw [h.state]
  exact parse_tmmbItem hr .tmmbrItem h

theorem parse_tmmbnItem {i : TmmbrItem} (hr : TmmbrItem.representable i)
    (h : At p (createTmmbrItem i ++ inner) rest .tmmbnItem k) :
    Delivers p.parseItem (.tmmbnItem i.ssrc i.kbps i.overhead.toUInt32)
      fun q => At q inner rest .tmmbnItem k := by
  unfold parseItem
  rw [h.state]
  exact parse_tmmbItem hr .tmmbnItem h

theorem Tmmbr.onward (b : Tmmbr) (hr : TmmbrItem.representable b.item) (hk : Onward rest is) :
    Onward (b.block ++ rest) ((Packet.tmmbr b).items ++ is) := by
  have henc : [b.item].flatMap createTmmbrItem = createTmmbrItem b.item := List.append_nil _
  have hr' : ∀ i ∈ [b.item], TmmbrItem.representable i := by
    intro i hi
    rw [List.mem_singleton.1 hi]
    exact hr
  unfold Tmmbr.block
  rw [← henc]
  exact onward_items [b.item] (by decide) (by rw [henc]; rfl) (by decide) (by decide)
    (fun _ _ => rfl) (by simp) (fun i hi _ _ _ hq => parse_tmmbrItem (hr' i hi) hq) hk

theorem Tmmbn.onward (b : Tmmbn) (hr : ∀ i ∈ b.items.list, TmmbrItem.representable i)
    (hk : Onward rest is) : Onward (b.block ++ rest) ((Packet.tmmbn b).items ++ is) := by
  have hflat := flatMap_length createTmmbrItem_length b.items.list
  have hc : b.items.list.length ≤ 50 := b.items.bound
  exact onward_items b.items.list (by decide) (by omega) (by omega) (by omega) (fun _ _ => rfl)
    (by simp) (fun i hi _ _ _ hq => parse_tmmbnItem (hr i hi) hq) hk

theorem parse_ssrcs : ∀ (xs : List UInt32) {p : Parser} {β : Type}
    {f : List UInt32 × Parser → Option β} {Q : β → Prop},
    At p (xs.flatMap assignUWord32 ++ inner) rest .psfbRembItem k →
    (∀ q, At q inner rest .psfbRembItem k → Returns (f (xs, q)) Q) →
    Returns (readSSRCs xs.length p >>= f) Q := by
  intro xs
  induction xs with
  | nil => intro p β f Q h hk; exact hk p h
  | cons x xs ih =>
    intro p β f Q h hk
    rw [List.flatMap_cons, List.append_assoc] at h
    rw [List.length_cons]
    unfold readSSRCs
    rw [bind_assoc]
    refine h.u32 fun q h => ?_
    dsimp only
    rw [bind_assoc]
    exact ih h fun q h => hk q h

/-- What stands behind the name of a REMB packet. -/
def rembFields (b : Remb) : Bytes :=
  let exp := computeExponent b.bitRate 18
  let mantissa := b.bitRate >>> UInt32.ofNat exp
  assignUWord8 (UInt8.ofNat b.ssrcs.list.length) ++
    (assignUWord8 ((UInt8.ofNat exp <<< 2) + ((mantissa >>> 16) &&& 0x03).toUInt8) ++
      (assignUWord8 (mantissa >>> 8).toUInt8 ++
        (assignUWord8 mantissa.toUInt8 ++ (b.ssrcs.list.flatMap assignUWord32 ++ []))))

theorem parse_rembItem (b : Remb) (hr : Remb.representable b)
    (h : At p (rembFields b) rest .psfbRembItem k) :
    Delivers p.parseItem (.rembItem (UInt32.ofNat (roundDown 18 b.bitRate.toNat)) b.ssrcs.list)
      fun q => At q [] rest .psfbRembItem k := by
  have hflat := flatMap_length assignUWord32_length b.ssrcs.list
  have hc : b.ssrcs.list.length ≤ 255 := b.ssrcs.bound
  have hl := h.length
  unfold rembFields at hl
  simp only [List.length_append, assignUWord8_length, hflat] at hl
  have hn : (UInt8.ofNat b.ssrcs.list.length).toNat = b.ssrcs.list.length := by
    rw [UInt8.toNat_ofNat']
    omega
  have hv : b.bitRate.toNat ≤ (2 ^ 18 - 1) * 2 ^ (32 - 18) := hr
  unfold rembFields at h
  dsimp only at h
  unfold parseItem
  rw [h.state]
  show Delivers p.parsePsfbREMBItem _ _
  unfold parsePsfbREMBItem
  rw [if_neg (by omega)]
  refine h.u8 fun q h => ?_
  refine h.u8 fun q h => ?_
  refine h.u8 fun q h => ?_
  refine h.u8 fun q h => ?_
  have hl := h.length
  rw [List.length_append, hflat, List.length_nil] at hl
  dsimp only
  rw [hn, rembBitRate_fields hv, if_neg (by omega)]
  refine parse_ssrcs _ h fun q h => ?_
  exact h.deliverSame _

theorem parse_rembName (h : At p (([0x52, 0x45, 0x4D, 0x42] : Bytes) ++ inner) rest .psfbAppItem k) :
    Delivers p.parseItem .remb fun q => At q inner rest .psfbRembItem k := by
  have hl := h.length
  rw [List.length_append] at hl
  simp only [List.length_cons, List.length_nil] at hl
  unfold parseItem
  rw [h.state]
  show Delivers p.parsePsfbAppItem _ _
  unfold parsePsfbAppItem
  rw [if_neg (by omega)]
  refine h.read rfl fun q h => ?_
  dsimp only
  rw [if_neg (by decide)]
  exact h.deliver _ _

theorem Remb.onward (b : Remb) (hr : Remb.representable b) (hk : Onward rest is) :
    Onward (b.block ++ rest) ((Packet.remb b).items ++ is) := by
  have hflat := flatMap_length assignUWord32_length b.ssrcs.list
  have hc : b.ssrcs.list.length ≤ 255 := b.ssrcs.bound
  unfold Remb.block
  dsimp only
  refine onward_feedback (by decide) ?_ (by omega) (by omega) (fun _ _ => rfl) fun q k hq => ?_
  · simp only [List.length_append, assignUWord8_length, hflat, List.length_cons, List.length_nil]
    omega
  · have hat : At q (([0x52, 0x45, 0x4D, 0x42] : Bytes) ++ rembFields b) rest .psfbAppItem k := by
      unfold rembFields
      rw [List.append_nil]
      simp only [List.append_assoc] at hq
      exact hq
    refine (hat.item (by simp) (parse_rembName hat.reset) fun q hat => ?_).mono (by omega)
    refine (hat.item (by simp) (parse_rembItem b hr hat.reset) fun q hq => ?_).mono (by omega)
    exact (hq.ends (by simp) hk).mono (by omega)

end Feedback

end Parser

end RtcCore.L1.Rtcp
