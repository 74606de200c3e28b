import RtcCore.L2Receive.InsertPacket

/-!
# Scaling timestamps there and back

`TimestampScaler` adds the scaled difference to the last packet to the last
internal timestamp. Seen from the first packet, on a scale without wraps, that is
the factor times the distance, whatever came in between: the differences are
multiples of the denominator, so no division rounds, and small enough for the
product to fit. `ToExternal` goes back from the last packet in the same way.

Results:
* `toInternal_synced`: what one packet does to the two references.
* `scaling`: for every sequence of packets.
-/
namespace RtcCore.L2.NetEq

namespace TimestampScaler

/-- mirrors webrtc/modules/audio_coding/neteq/timestamp_scaler.cc:96-108 -/
def toExternal (s : TimestampScaler) (internalTimestamp : UInt32) : UInt32 :=
  if !s.firstPacketReceived ∨ (s.numerator = 1 ∧ s.denominator = 1) then internalTimestamp
  else
    let internalDiff := (internalTimestamp - s.internalRef).toInt32
    s.externalRef + (internalDiff * s.denominator / s.numerator).toUInt32

/-! ## Differences on the scale without wraps -/

theorem ofInt_toInt (v : Int32) : v.toUInt32 = UInt32.ofInt v.toInt := by
  apply UInt32.toNat_inj.1
  have hlt := v.toBitVec.isLt
  have htoNat : v.toUInt32.toNat = v.toBitVec.toNat := rfl
  rw [UInt32.ofInt, UInt32.toNat_ofNat', htoNat, ← v.toInt_toBitVec, BitVec.toInt_eq_toNat_bmod,
    Int.bmod_def]
  omega

theorem toInt32_ofInt {x : Int} (h : -2147483648 ≤ x) (h' : x < 2147483648) :
    (UInt32.ofInt x).toInt32.toInt = x := by
  have hbits : (UInt32.ofInt x).toInt32.toInt = ((UInt32.ofInt x).toNat : Int).bmod (2 ^ 32) := by
    rw [← Int32.toInt_toBitVec, BitVec.toInt_eq_toNat_bmod]
    rfl
  rw [hbits, UInt32.ofInt, UInt32.toNat_ofNat', Int.bmod_def]
  omega

theorem toInt32_sub (first : UInt32) {x y : Int} (h : -2147483648 ≤ x - y)
    (h' : x - y < 2147483648) :
    ((first + UInt32.ofInt x) - (first + UInt32.ofInt y)).toInt32.toInt = x - y := by
  have hsub : (first + UInt32.ofInt x) - (first + UInt32.ofInt y) = UInt32.ofInt (x - y) := by
    have hsum : UInt32.ofInt x = UInt32.ofInt (x - y) + UInt32.ofInt y := by
      rw [← UInt32.ofInt_add, Int.sub_add_cancel]
    rw [hsum]
    grind
  rw [hsub, toInt32_ofInt h h']

theorem add_ofInt_zero (first : UInt32) (m : Int) : first + UInt32.ofInt (m * 0) = first := by
  rw [Int.mul_zero]
  exact UInt32.add_zero first

/-- A difference that is a multiple of `b` is scaled by `a / b` without a rest. -/
theorem scaled_diff {v a b : Int32} {m : Int} (hv : v.toInt = b.toInt * m) (hb : 0 < b.toInt)
    (h : -2147483648 ≤ b.toInt * m * a.toInt) (h' : b.toInt * m * a.toInt < 2147483648) :
    (v * a / b).toUInt32 = UInt32.ofInt (a.toInt * m) := by
  have hne : b ≠ -1 := by
    rintro rfl
    exact absurd hb (by decide)
  have hmul : (v * a).toInt = b.toInt * (m * a.toInt) := by
    rw [Int32.toInt_mul, hv, ← Int.mul_assoc, Int.bmod_def]
    omega
  rw [ofInt_toInt, Int32.toInt_div_of_ne_right _ _ hne, hmul, Int.mul_tdiv_cancel_left _ (by omega),
    Int.mul_comm]

/-! ## The references -/

/-- The codecs with a factor, and the factor. -/
def factor : NetEqDecoder → Option (Int32 × Int32)
  | .g722 | .g7222ch => some (2, 1)
  | .isacFb | .cngSwb48kHz => some (2, 3)
  | _ => none

/-- DTMF and comfort noise leave the factor of the last codec. -/
def keepsFactor : NetEqDecoder → Bool
  | .avt | .cngNb | .cngWb | .cngSwb32kHz => true
  | _ => false

variable {db : DecoderDatabase} {s : TimestampScaler} {codec : NetEqDecoder} {n d : Int32}
  {first : UInt32} {pt : UInt8} {k k' : Int}

/-- The last packet was `d * k` ticks behind the first. -/
structure Synced (s : TimestampScaler) (n d : Int32) (first : UInt32) (k : Int) : Prop where
  received : s.firstPacketReceived = true
  numerator : s.numerator = n
  denominator : s.denominator = d
  externalRef : s.externalRef = first + UInt32.ofInt (d.toInt * k)
  internalRef : s.internalRef = first + UInt32.ofInt (n.toInt * k)

theorem factor_cases (h : factor codec = some (n, d)) : n.toInt = 2 ∧ (d.toInt = 1 ∨ d.toInt = 3) ∧
    ∀ s : TimestampScaler, s.setFactors codec = { s with numerator := n, denominator := d } := by
  cases codec <;> cases h <;> exact ⟨rfl, by decide, fun _ => rfl⟩

/-- What a payload type of the sequence is registered for. -/
def Carries (db : DecoderDatabase) (codec : NetEqDecoder) (pt : UInt8) : Prop :=
  ∃ info, db pt = some info ∧ (info.codecType = codec ∨ keepsFactor info.codecType = true)

theorem Synced.setFactors (hs : s.Synced n d first k) (hf : factor codec = some (n, d))
    {c : NetEqDecoder} (hc : c = codec ∨ keepsFactor c = true) : s.setFactors c = s := by
  rcases hc with rfl | hc
  · rw [(factor_cases hf).2.2, ← hs.numerator, ← hs.denominator]
  · cases c <;> first | rfl | cases hc

/-- A factor is not one. -/
theorem not_unscaled (hf : factor codec = some (n, d)) (hn : s.numerator = n) :
    ¬ (s.numerator = 1 ∧ s.denominator = 1) := by
  rintro ⟨h1, -⟩
  have := (factor_cases hf).1
  rw [← hn, h1] at this
  exact absurd this (by decide)

theorem toInternal_synced (hs : s.Synced n d first k) (hf : factor codec = some (n, d))
    (hpt : Carries db codec pt) (h : -1073741824 < d.toInt * (k' - k))
    (h' : d.toInt * (k' - k) < 1073741824) :
    ∃ s', s.toInternal db (first + UInt32.ofInt (d.toInt * k')) pt =
        (first + UInt32.ofInt (n.toInt * k'), s') ∧ s'.Synced n d first k' := by
  obtain ⟨info, hinfo, hc⟩ := hpt
  obtain ⟨hn, hd, -⟩ := factor_cases hf
  have hdiff : ((first + UInt32.ofInt (d.toInt * k')) - s.externalRef).toInt32.toInt =
      d.toInt * (k' - k) := by
    rw [Int.mul_sub] at h h' ⊢
    rw [hs.externalRef, toInt32_sub first (by omega) (by omega)]
  have hscaled := scaled_diff (a := n) hdiff (by omega) (by rw [hn]; omega) (by rw [hn]; omega)
  have hinternal : s.internalRef + UInt32.ofInt (n.toInt * (k' - k)) =
      first + UInt32.ofInt (n.toInt * k') := by
    rw [hs.internalRef, UInt32.add_assoc, ← UInt32.ofInt_add, ← Int.mul_add,
      Int.add_comm k, Int.sub_add_cancel]
  unfold toInternal
  rw [hinfo]
  dsimp only
  rw [hs.setFactors hf hc, if_neg (not_unscaled hf hs.numerator), if_pos hs.received, hs.numerator,
    hs.denominator, hscaled, hinternal]
  exact ⟨_, rfl, hs.received, rfl, rfl, rfl, rfl⟩

/-- The first packet sets both references. -/
theorem toInternal_first (hs : s.firstPacketReceived = false) (hf : factor codec = some (n, d))
    {info : DecoderInfo} (hinfo : db pt = some info) (hc : info.codecType = codec) :
    ∃ s', s.toInternal db first pt = (first, s') ∧ s'.Synced n d first 0 := by
  have hzero : (0 : Int32) * n / d = 0 := by
    cases codec <;> cases hf <;> rfl
  unfold toInternal
  rw [hinfo]
  dsimp only
  rw [hc, (factor_cases hf).2.2, if_neg (not_unscaled hf rfl), hs, if_neg Bool.false_ne_true,
    UInt32.sub_self, UInt32.toInt32_ofNat, hzero, Int32.toUInt32_ofNat, UInt32.add_zero]
  exact ⟨_, rfl, rfl, rfl, rfl, (add_ofInt_zero ..).symm, (add_ofInt_zero ..).symm⟩

theorem toExternal_synced (hs : s.Synced n d first k) (hf : factor codec = some (n, d))
    (h : -536870912 ≤ n.toInt * (k' - k)) (h' : n.toInt * (k' - k) ≤ 536870912) :
    s.toExternal (first + UInt32.ofInt (n.toInt * k')) = first + UInt32.ofInt (d.toInt * k') := by
  obtain ⟨hn, hd, -⟩ := factor_cases hf
  have hdiff : ((first + UInt32.ofInt (n.toInt * k')) - s.internalRef).toInt32.toInt =
      n.toInt * (k' - k) := by
    rw [Int.mul_sub] at h h' ⊢
    rw [hs.internalRef, toInt32_sub first (by omega) (by omega)]
  have hscaled := scaled_diff (a := d) hdiff (by omega)
    (by rcases hd with hd | hd <;> rw [hd] <;> omega)
    (by rcases hd with hd | hd <;> rw [hd] <;> omega)
  have hexternal : s.externalRef + UInt32.ofInt (d.toInt * (k' - k)) =
      first + UInt32.ofInt (d.toInt * k') := by
    rw [hs.externalRef, UInt32.add_assoc, ← UInt32.ofInt_add, ← Int.mul_add,
      Int.add_comm k, Int.sub_add_cancel]
  unfold toExternal
  rw [hs.received, if_neg (by
    rintro (hr | hone)
    · exact absurd hr (by decide)
    · exact not_unscaled hf hs.numerator hone)]
  dsimp only
  rw [hs.numerator, hs.denominator, hscaled, hexternal]

/-! ## Runs -/

/-- Packets with their payload types, `d * k` ticks behind the first one. -/
def convert (db : DecoderDatabase) (d : Int32) (first : UInt32) :
    TimestampScaler → List (UInt8 × Int) → List UInt32 × TimestampScaler
  | s, [] => ([], s)
  | s, (pt, k) :: packets =>
    let (internal, s) := s.toInternal db (first + UInt32.ofInt (d.toInt * k)) pt
    (convert db d first s packets).map (internal :: ·) id

/-- Each packet is less than 2 ^ 30 ticks from the one delivered before it. -/
def Near (d : Int32) : Int → List (UInt8 × Int) → Prop
  | _, [] => True
  | k, (_, k') :: packets =>
    (-1073741824 < d.toInt * (k' - k) ∧ d.toInt * (k' - k) < 1073741824) ∧ Near d k' packets

def lastOf (packets : List (UInt8 × Int)) (k : Int) : Int := (packets.map Prod.snd).getLastD k

theorem convert_synced (hs : s.Synced n d first k) (hf : factor codec = some (n, d))
    {packets : List (UInt8 × Int)} (hpt : ∀ p ∈ packets, Carries db codec p.1)
    (hnear : Near d k packets) :
    (convert db d first s packets).1 = packets.map (fun p => first + UInt32.ofInt (n.toInt * p.2)) ∧
      (convert db d first s packets).2.Synced n d first (lastOf packets k) := by
  induction packets generalizing s k with
  | nil => exact ⟨rfl, hs⟩
  | cons p packets ih =>
    obtain ⟨pt, k'⟩ := p
    obtain ⟨⟨h, h'⟩, hnear⟩ := hnear
    obtain ⟨s', heq, hs'⟩ := toInternal_synced hs hf (hpt _ List.mem_cons_self) h h'
    obtain ⟨hout, hlast⟩ := ih hs' (fun p hp => hpt p (List.mem_cons_of_mem _ hp)) hnear
    unfold convert
    rw [heq]
    refine ⟨congrArg (_ :: ·) hout, ?_⟩
    have hlastOf : lastOf ((pt, k') :: packets) k = lastOf packets k' := by
      unfold lastOf
      rw [List.map_cons, List.getLastD_cons]
    rw [hlastOf]
    exact hlast

/-- Packets of a codec with a factor, with DTMF and comfort noise behind the first one: each is
mapped to its place on the scaled clock, and after any of them an internal timestamp near the last
one is mapped back. -/
theorem scaling (hs : s.firstPacketReceived = false) (hf : factor codec = some (n, d))
    {info : DecoderInfo} (hinfo : db pt = some info) (hc : info.codecType = codec)
    {packets : List (UInt8 × Int)} (hpt : ∀ p ∈ packets, Carries db codec p.1)
    (hnear : Near d 0 packets) :
    (convert db d first s ((pt, 0) :: packets)).1 =
        ((pt, 0) :: packets).map (fun p => first + UInt32.ofInt (n.toInt * p.2)) ∧
      ∀ k, -536870912 ≤ n.toInt * (k - lastOf packets 0) →
        n.toInt * (k - lastOf packets 0) ≤ 536870912 →
        (convert db d first s ((pt, 0) :: packets)).2.toExternal
          (first + UInt32.ofInt (n.toInt * k)) = first + UInt32.ofInt (d.toInt * k) := by
  obtain ⟨s', heq, hs'⟩ := toInternal_first hs hf hinfo hc
  obtain ⟨hout, hlast⟩ := convert_synced hs' hf hpt hnear
  unfold convert
  rw [add_ofInt_zero, heq]
  refine ⟨?_, fun k h h' => toExternal_synced hlast hf h h'⟩
  rw [List.map_cons, add_ofInt_zero]
  exact congrArg (first :: ·) hout

/-- iSAC at 48 kHz, with DTMF under another payload type. -/
def isacAndDtmf : DecoderDatabase := fun pt =>
  if pt = 104 then some { codecType := .isacFb }
  else if pt = 106 then some { codecType := .avt } else none

theorem scaling_isac :
    (convert isacAndDtmf 3 4294967000 {} [(104, 0), (104, 960), (106, 640), (104, 320)]).1 =
        [4294967000, 1624, 984, 344] ∧
      (convert isacAndDtmf 3 4294967000 {}
        [(104, 0), (104, 960), (106, 640), (104, 320)]).2.toExternal 1624 = 2584 := by
  have hpt : ∀ p ∈ [((104, 960) : UInt8 × Int), (106, 640), (104, 320)],
      Carries isacAndDtmf .isacFb p.1 := by
    intro p hp
    simp only [List.mem_cons, List.not_mem_nil, or_false] at hp
    rcases hp with rfl | rfl | rfl
    · exact ⟨_, rfl, .inl rfl⟩
    · exact ⟨_, rfl, .inr rfl⟩
    · exact ⟨_, rfl, .inl rfl⟩
  have hnear : Near 3 0 [(104, 960), (106, 640), (104, 320)] :=
    ⟨⟨by decide, by decide⟩, ⟨by decide, by decide⟩, ⟨by decide, by decide⟩, trivial⟩
  have hs : ({} : TimestampScaler).firstPacketReceived = false := rfl
  have hf : factor .isacFb = some (2, 3) := rfl
  have hinfo : isacAndDtmf 104 = some { codecType := .isacFb } := rfl
  exact ⟨(scaling hs hf hinfo rfl hpt hnear).1,
    (scaling hs hf hinfo rfl hpt hnear).2 960 (by decide) (by decide)⟩

end TimestampScaler

end RtcCore.L2.NetEq
