import RtcCore.L4P2p.TurnServer

/-!
# How long a nonce is accepted

A nonce is the time it was made at, in hex digits, and a hash of that time.
`ValidateNonce` decodes the digits, which it takes in upper case too and beyond
'f', and compares the age, a difference of 32-bit clocks read as signed: a nonce
older than half the clock is taken for one of the future.

Results:
* `hexDecode_hexEncode`: what is encoded is decoded.
* `validateNonce_iff`, `generatedWithin_iff`: what is accepted, and what should be.
* `nonce_iff`: the two agree exactly for a nonce that is less than half the
  clock old and, as long as it is accepted, spelled as it was made.
-/
namespace RtcCore.L4.Turn

open Bytes

variable (env : Env) (now : Nat) (nonce : Bytes)

/-- The nonce was made at a moment of the last hour. -/
def GeneratedWithin : Prop :=
  ∃ m, m ≤ now ∧ now < m + kNonceTimeout ∧ nonce = generateNonce env m

/-- The octets of the time in a nonce with the right hash. -/
structure Stamped (stamp : Bytes) : Prop where
  size : nonce.length = kNonceSize
  digits : hexDecode (nonce.take 8) = some stamp
  hash : nonce.drop 8 = env.hmacMd5 env.nonceKey stamp

/-- The age of a stamp, on the circle of the 32-bit clock. -/
def age (stamp : Bytes) : Nat := (UInt32.ofNat now - .ofNat (beValue stamp.reverse)).toNat

/-- A nonce with the right hash is younger than half the clock; one of the last
hour is not older than the clock and has the digits `hex_encode` writes. -/
def WellAged : Prop :=
  ∀ stamp, Stamped env nonce stamp →
    age now stamp < 2147483648 ∧
      (age now stamp < kNonceTimeout → age now stamp ≤ now ∧ nonce.take 8 = hexEncode stamp)

variable {env now nonce} {stamp : Bytes}

/-! ## Digits -/

theorem hexDecodeDigit_encode : ∀ v < 16, hexDecodeDigit (hexEncodeDigit v) = some v := by
  decide

theorem hexDecode_hexEncode (b : Bytes) : hexDecode (hexEncode b) = some b := by
  induction b with
  | nil => rfl
  | cons x b ih =>
    have hx := x.toNat_lt
    have hlow : x.toNat / 16 * 16 ||| x.toNat % 16 = x.toNat := by
      have hor := Nat.two_pow_add_eq_or_of_lt (Nat.mod_lt x.toNat (by decide : 0 < 2 ^ 4))
        (x.toNat / 16)
      rw [Nat.mul_comm, ← hor]
      exact Nat.div_add_mod x.toNat 16
    simp only [hexEncode, List.flatMap_cons, List.cons_append, List.nil_append, hexDecode,
      hexDecodeDigit_encode _ (by omega : x.toNat / 16 < 16),
      hexDecodeDigit_encode _ (Nat.mod_lt _ (by decide))]
    have htail : hexDecode (b.flatMap fun x =>
        [hexEncodeDigit (x.toNat / 16), hexEncodeDigit (x.toNat % 16)]) = some b := ih
    simp only [htail, hlow, Option.bind_eq_bind, Option.bind_some, UInt8.ofNat_toNat]

theorem hexEncode_length (b : Bytes) : (hexEncode b).length = 2 * b.length := by
  induction b with
  | nil => rfl
  | cons x b ih =>
    rw [List.length_cons, Nat.mul_succ, ← ih]
    simp [hexEncode]

theorem hexDecode_length : ∀ {b out : Bytes}, hexDecode b = some out → b.length = 2 * out.length
  | [], _, h => by cases h; rfl
  | [_], _, h => by cases h
  | a :: b :: rest, out, h => by
    simp only [hexDecode, Option.bind_eq_bind, Option.bind_eq_some_iff] at h
    obtain ⟨_, _, _, _, tail, htail, h⟩ := h
    cases h
    have := hexDecode_length htail
    simp only [List.length_cons]
    omega

theorem littleEndian_value {stamp : Bytes} (h : stamp.length = 4) :
    littleEndian (.ofNat (beValue stamp.reverse)) = stamp := by
  match stamp, h with
  | [a, b, c, d], _ =>
    have ha := a.toNat_lt
    have hb := b.toNat_lt
    have hc := c.toNat_lt
    have hd := d.toNat_lt
    simp only [littleEndian, be32, beValue, List.reverse_cons, List.reverse_nil, List.nil_append,
      List.cons_append, List.foldl_cons, List.foldl_nil, UInt32.toNat_ofNat', List.cons.injEq,
      and_true, ← UInt8.toNat_inj, UInt8.toNat_ofNat']
    omega

theorem littleEndian_length (v : UInt32) : (littleEndian v).length = 4 := rfl

theorem littleEndian_inverse (v : UInt32) :
    UInt32.ofNat (beValue (littleEndian v).reverse) = v := by
  have hv := v.toNat_lt
  rw [← UInt32.toNat_inj]
  simp only [littleEndian, be32, beValue, List.reverse_cons, List.reverse_nil, List.nil_append,
    List.cons_append, List.foldl_cons, List.foldl_nil, UInt32.toNat_ofNat', UInt8.toNat_ofNat']
  omega

/-! ## What is accepted -/

/-- A signed difference is under the hour when it is short, or so long that it
reads as negative. -/
theorem signed_lt_iff (v : UInt32) :
    v.toInt32.toInt < (kNonceTimeout : Int) ↔ v.toNat < kNonceTimeout ∨ 2147483648 ≤ v.toNat := by
  have hv := v.toNat_lt
  have hs : v.toInt32.toInt = if v.toNat < 2147483648 then (v.toNat : Int)
      else v.toNat - 4294967296 := by
    rw [← Int32.toInt_toBitVec, UInt32.toBitVec_toInt32, BitVec.toInt_eq_toNat_cond]
    simp only [UInt32.toNat_toBitVec]
    split <;> split <;> omega
  rw [hs]
  simp only [kNonceTimeout]
  split <;> omega

theorem validateNonce_iff :
    validateNonce env now nonce = true ↔
      ∃ stamp, Stamped env nonce stamp ∧
        (age now stamp < kNonceTimeout ∨ 2147483648 ≤ age now stamp) := by
  unfold validateNonce
  constructor
  · intro h
    split at h
    · cases h
    · rename_i hsize
      split at h
      · cases h
      · rename_i stamp hdigits
        split at h
        · cases h
        · rename_i hhash
          have hsince := (signed_lt_iff _).1 (of_decide_eq_true h)
          exact ⟨stamp, ⟨not_not.1 hsize, hdigits, not_not.1 hhash⟩, hsince⟩
  · rintro ⟨stamp, hstamp, hage⟩
    have hsince := (signed_lt_iff _).2 hage
    simpa [hstamp.size, hstamp.digits, hstamp.hash] using hsince

theorem stamp_length (h : Stamped env nonce stamp) : stamp.length = 4 := by
  have hlen := hexDecode_length h.digits
  have hsize := h.size
  simp only [List.length_take, kNonceSize] at hlen hsize
  omega

theorem stamp_unique {other : Bytes} (h : Stamped env nonce stamp)
    (h' : Stamped env nonce other) : stamp = other :=
  Option.some.inj (h.digits.symm.trans h'.digits)

/-! ## What should be -/

theorem age_littleEndian {m : Nat} (hm : m ≤ now) (hw : now < m + kNonceTimeout) :
    age now (littleEndian (.ofNat m)) = now - m := by
  rw [age, littleEndian_inverse, UInt32.toNat_sub, UInt32.toNat_ofNat', UInt32.toNat_ofNat']
  simp only [kNonceTimeout] at hw
  omega

theorem littleEndian_age (h : stamp.length = 4) (hage : age now stamp ≤ now) :
    littleEndian (.ofNat (now - age now stamp)) = stamp := by
  have hv : UInt32.ofNat (now - age now stamp) = .ofNat (beValue stamp.reverse) := by
    rw [← UInt32.toNat_inj]
    have hlt := (UInt32.ofNat (beValue stamp.reverse)).toNat_lt
    simp only [age, UInt32.toNat_sub, UInt32.toNat_ofNat'] at hage hlt ⊢
    omega
  rw [hv, littleEndian_value h]

section Hash
variable (hmac32 : ∀ b, (env.hmacMd5 env.nonceKey b).length = 32)
include hmac32

theorem stamped_generateNonce (m : Nat) :
    Stamped env (generateNonce env m) (littleEndian (.ofNat m)) ∧
      (generateNonce env m).take 8 = hexEncode (littleEndian (.ofNat m)) := by
  have hlen : (hexEncode (littleEndian (.ofNat m))).length = 8 := by
    rw [hexEncode_length, littleEndian_length]
  have htake : (generateNonce env m).take 8 = hexEncode (littleEndian (.ofNat m)) :=
    List.take_left' hlen
  refine ⟨⟨?_, ?_, List.drop_left' hlen⟩, htake⟩
  · rw [generateNonce, List.length_append, hlen, hmac32, kNonceSize]
  · rw [htake, hexDecode_hexEncode]

theorem generatedWithin_iff :
    GeneratedWithin env now nonce ↔
      ∃ stamp, Stamped env nonce stamp ∧ age now stamp < kNonceTimeout ∧ age now stamp ≤ now ∧
        nonce.take 8 = hexEncode stamp := by
  constructor
  · rintro ⟨m, hm, hw, rfl⟩
    obtain ⟨hstamp, htake⟩ := stamped_generateNonce hmac32 m
    have hage := age_littleEndian hm hw
    exact ⟨_, hstamp, by omega, by omega, htake⟩
  · rintro ⟨stamp, hstamp, hyoung, hold, hspelt⟩
    have hm := littleEndian_age (stamp_length hstamp) hold
    refine ⟨now - age now stamp, Nat.sub_le _ _, by omega, ?_⟩
    calc nonce = nonce.take 8 ++ nonce.drop 8 := (List.take_append_drop 8 nonce).symm
      _ = hexEncode stamp ++ env.hmacMd5 env.nonceKey stamp := by rw [hspelt, hstamp.hash]
      _ = generateNonce env (now - age now stamp) := by rw [generateNonce, hm]

/-- The server accepts what it made within the hour and nothing else, exactly
for the nonces that are well aged. -/
theorem nonce_iff :
    (validateNonce env now nonce = true ↔ GeneratedWithin env now nonce) ↔
      WellAged env now nonce := by
  rw [validateNonce_iff, generatedWithin_iff hmac32]
  constructor
  · intro h stamp hstamp
    have honly {other : Bytes} (hother : Stamped env nonce other) : other = stamp :=
      stamp_unique hother hstamp
    constructor
    · by_contra hold
      obtain ⟨other, hother, hyoung, -⟩ := h.1 ⟨stamp, hstamp, .inr (by omega)⟩
      rw [honly hother, kNonceTimeout] at hyoung
      omega
    · intro hyoung
      obtain ⟨other, hother, -, hnow, hspelt⟩ := h.1 ⟨stamp, hstamp, .inl hyoung⟩
      rw [honly hother] at hnow hspelt
      exact ⟨hnow, hspelt⟩
  · intro h
    constructor
    · rintro ⟨stamp, hstamp, hage⟩
      obtain ⟨hhalf, hrest⟩ := h stamp hstamp
      have hyoung : age now stamp < kNonceTimeout := by omega
      exact ⟨stamp, hstamp, hyoung, hrest hyoung⟩
    · rintro ⟨stamp, hstamp, hyoung, -⟩
      exact ⟨stamp, hstamp, .inl hyoung⟩

end Hash

/-! ## A server with a readable hash -/

/-- A hash of the right length that shows the stamp it is made of. -/
def readableHash : Env where
  hmac _ _ := []
  hmacMd5 _ b := (hexEncode b ++ List.replicate 32 0x30).take 32
  authHook := none

theorem readableHash_length (b : Bytes) :
    (readableHash.hmacMd5 readableHash.nonceKey b).length = 32 := by
  simp [readableHash]

theorem readableHash_injective {b c : Bytes} (hb : b.length = 4) (hc : c.length = 4)
    (h : readableHash.hmacMd5 readableHash.nonceKey b =
      readableHash.hmacMd5 readableHash.nonceKey c) : b = c := by
  have hdigits : hexEncode b = hexEncode c := by
    have htake := congrArg (List.take 8) h
    simp only [readableHash, List.take_take] at htake
    rwa [List.take_left' (by rw [hexEncode_length, hb]; rfl),
      List.take_left' (by rw [hexEncode_length, hc]; rfl)] at htake
  have hdecode := congrArg hexDecode hdigits
  rw [hexDecode_hexEncode, hexDecode_hexEncode] at hdecode
  exact Option.some.inj hdecode

/-- A nonce of the start, half an hour on. -/
theorem nonce_fresh :
    validateNonce readableHash 1800000 (generateNonce readableHash 0) = true ↔
      GeneratedWithin readableHash 1800000 (generateNonce readableHash 0) := by
  obtain ⟨hstamp, htake⟩ := stamped_generateNonce readableHash_length 0
  refine (nonce_iff readableHash_length).2 fun stamp h => ?_
  rw [stamp_unique h hstamp, htake]
  exact ⟨by decide, fun _ => ⟨by decide, rfl⟩⟩

/-- A nonce that has expired an hour after the start is accepted again after
twenty-five days. -/
theorem nonce_reborn :
    (∀ b c, b.length = 4 → c.length = 4 → readableHash.hmacMd5 readableHash.nonceKey b =
        readableHash.hmacMd5 readableHash.nonceKey c → b = c) ∧
      validateNonce readableHash 3600000 (generateNonce readableHash 0) = false ∧
        validateNonce readableHash 2147483648 (generateNonce readableHash 0) = true ∧
          ¬ GeneratedWithin readableHash 2147483648 (generateNonce readableHash 0) := by
  refine ⟨fun _ _ hb hc h => readableHash_injective hb hc h, by decide, by decide, fun h => ?_⟩
  obtain ⟨stamp, hstamp, hyoung, -⟩ := (generatedWithin_iff readableHash_length).1 h
  rw [stamp_unique hstamp (stamped_generateNonce readableHash_length 0).1] at hyoung
  exact absurd hyoung (by decide)

end RtcCore.L4.Turn
