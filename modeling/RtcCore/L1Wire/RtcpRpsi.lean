import RtcCore.L1Wire.RtcpSender

/-!
# Picture ids in RPSI packets

`RTCPSender::BuildRPSI` counts the octets of a picture id by shifting it by 7,
14, …, 70, `Rpsi::WithPictureId` by shifting by 7 again and again; a shift of a
64-bit number by 70 is not defined. `RTCPReceiver::HandleRPSI` puts the groups
of seven bits together again.

Results:
- `rpsi_coding`: up to 2^63 - 1 both write the same packet, and the receiver
  gets the picture id back; from 2^63 on `BuildRPSI` shifts by 70.
- `shift_pos`: a machine that takes shifts modulo 64 never leaves the loop then.
-/
namespace RtcCore.L1.Rtcp

open Bytes RtcpPacket

/-! ## The number of octets -/

theorem shiftRight_pos {pid : UInt64} {bits : Nat} (h : bits < 64) :
    pid >>> UInt64.ofNat bits > 0 ↔ 0 < pid.toNat / 2 ^ bits := by
  rw [gt_iff_lt, UInt64.lt_iff_toNat_lt, UInt64.toNat_shiftRight, UInt64.toNat_ofNat',
    Nat.shiftRight_eq_div_pow, show bits % 2 ^ 64 % 64 = bits by omega]
  rfl

/-- From `q`, what is left of the picture id after `k` groups, the two loops go
on in the same way, up to a shift by 70. -/
theorem rpsiBytesRequired_eq (pid : UInt64) : ∀ (fuel k : Nat) (q : UInt64), k + (fuel + 1) = 10 →
    q.toNat = pid.toNat / 128 ^ k → (0 < k → 0 < q.toNat) →
    rpsiBytesRequired pid (fuel + 1) (7 * (k + 1)) (k + 1) =
      if pid.toNat < 2 ^ 63 then some (k + requiredBytes (fuel + 1) q) else none := by
  intro fuel
  induction fuel with
  | zero =>
    intro k q hk hq hpos
    obtain rfl : k = 9 := by omega
    have hbig : ¬ pid.toNat < 2 ^ 63 := by
      have := hpos (by decide)
      omega
    rw [if_neg hbig]
    rfl
  | succ fuel ih =>
    intro k q hk hq hpos
    obtain ⟨r, hr⟩ : ∃ r, r = (q >>> 7) &&& 0x1ffffffffffffff := ⟨_, rfl⟩
    have hdiv : r.toNat = pid.toNat / 128 ^ (k + 1) := by
      rw [hr, shifted_toNat, hq, Nat.div_div_eq_div_mul, Nat.pow_succ]
    have hcond : pid >>> UInt64.ofNat (7 * (k + 1)) > 0 ↔ 0 < r := by
      rw [shiftRight_pos (by omega), Nat.pow_mul, UInt64.lt_iff_toNat_lt, hdiv]
      rfl
    rw [rpsiBytesRequired, if_neg (by omega), requiredBytes, ← hr]
    by_cases hmore : 0 < r
    · rw [if_pos (hcond.2 hmore), if_pos hmore, show 7 * (k + 1) + 7 = 7 * (k + 1 + 1) by omega,
        ih (k + 1) r (by omega) hdiv fun _ => UInt64.lt_iff_toNat_lt.1 hmore, Nat.add_assoc]
    · rw [if_neg (mt hcond.1 hmore), if_neg hmore, if_pos]
      -- nothing is left, so the top bit is not set
      have hzero : r.toNat = 0 := by
        rw [UInt64.lt_iff_toNat_lt] at hmore
        exact Nat.eq_zero_of_not_pos hmore
      have hlt : pid.toNat < 128 ^ (k + 1) := by
        rw [hdiv] at hzero
        exact (Nat.div_eq_zero_iff_lt (Nat.pow_pos (by decide))).1 hzero
      have hpow : 128 ^ (k + 1) ≤ 128 ^ 9 := Nat.pow_le_pow_right (by decide) (by omega)
      exact Nat.lt_of_lt_of_le hlt hpow

theorem rpsiBytesRequired_iff (pid : UInt64) : rpsiBytesRequired pid 10 7 1 =
    if pid.toNat < 2 ^ 63 then some (requiredBytes 10 pid) else none := by
  have h := rpsiBytesRequired_eq pid 9 0 pid rfl (Nat.div_one _).symm (absurd · (by decide))
  rw [Nat.zero_add (requiredBytes _ _)] at h
  exact h

/-- With shifts modulo 64, the condition of the loop stays true. -/
theorem shift_pos {pid : UInt64} (h : 2 ^ 63 ≤ pid.toNat) (bits : Nat) :
    pid >>> UInt64.ofNat bits > 0 := by
  rw [gt_iff_lt, UInt64.lt_iff_toNat_lt, UInt64.toNat_shiftRight, Nat.shiftRight_eq_div_pow]
  apply Nat.div_pos _ (Nat.two_pow_pos _)
  have hpow : 2 ^ ((UInt64.ofNat bits).toNat % 64) ≤ 2 ^ 63 :=
    Nat.pow_le_pow_right (by decide) (by omega)
  exact Nat.le_trans hpow h

/-! ## The packet -/

theorem rpsiPictureID_eq (pid : UInt64) : ∀ n, 0 < n → rpsiPictureID pid n = nativeBits pid n := by
  intro n
  induction n with
  | zero => exact fun h => absurd h (Nat.lt_irrefl 0)
  | succ n ih =>
    intro _
    cases n with
    | zero => rfl
    | succ n =>
      have hn := ih (Nat.succ_pos n)
      rw [rpsiPictureID, Nat.add_sub_cancel] at hn
      rw [rpsiPictureID, Nat.add_sub_cancel, List.range_succ, List.reverse_append]
      simp only [List.reverse_cons, List.reverse_nil, List.nil_append, List.map_cons,
        List.cons_append]
      rw [hn]
      rfl

theorem requiredBytes_pos (pid : UInt64) (fuel : Nat) : 0 < requiredBytes (fuel + 1) pid := by
  rw [requiredBytes]
  split <;> omega

/-- The length of the packet in words. -/
theorem rpsi_size : ∀ n ≤ 10, 0 < n →
    [0, if n > 6 then (5 : UInt8) else if n > 2 then 4 else 3] =
      be16 (blockToHeaderLength (kCommonFbFmtLength +
        (2 + n + if 4 - (2 + n) % 4 = 4 then 0 else 4 - (2 + n) % 4))) := by
  decide

theorem buildRPSI_eq {pos : Nat} (p : Rpsi) (hpos : pos + 24 < IP_PACKET_SIZE) :
    buildRPSI pos p.senderSSRC p.mediaSSRC p.pictureId p.payloadType =
      if p.pictureId.toNat < 2 ^ 63 then .built p.block else .fails := by
  have hn := requiredBytes_pos p.pictureId 9
  have hle := Parser.requiredBytes_le p.pictureId 10
  have hsize := rpsi_size _ hle hn
  have hpad : p.paddingBytes = if 4 - (2 + requiredBytes 10 p.pictureId) % 4 = 4 then 0
    else 4 - (2 + requiredBytes 10 p.pictureId) % 4 := rfl
  rw [buildRPSI, if_neg (by omega), rpsiBytesRequired_iff]
  by_cases hsmall : p.pictureId.toNat < 2 ^ 63
  · rw [if_pos hsmall, if_pos hsmall]
    dsimp only
    rw [← hpad, rpsiPictureID_eq _ _ hn, Rpsi.block, createFeedback, createHeader,
      Rpsi.nativeBitString, Parser.nativeBits_length]
    rw [← hpad] at hsize
    rw [← hsize]
    simp only [assignUWord8, List.append_assoc, List.cons_append, List.nil_append]
    rfl
  · rw [if_neg hsmall, if_neg hsmall]

/-! ## The receiver -/

def nextGroup (rpsiPictureId : UInt64) (b : UInt8) : UInt64 :=
  (rpsiPictureId + (b &&& 0x7f).toUInt64) <<< 7

/-- No value: the id is not set, or an octet outside the string is read.
mirrors webrtc/modules/rtp_rtcp/source/rtcp_receiver.cc:1125-1152 -/
def handleRPSI (numberOfValidBits : UInt16) (nativeBitString : Bytes) : Option UInt64 :=
  if numberOfValidBits % 8 ≠ 0 then none
  else
    let numberOfBytes := (numberOfValidBits / 8).toUInt8.toNat
    if numberOfBytes = 0 then none
    else
      let rpsiPictureId := (nativeBitString.take (numberOfBytes - 1)).foldl nextGroup 0
      nativeBitString[numberOfBytes - 1]?.map fun b => rpsiPictureId + (b &&& 0x7f).toUInt64

theorem group_and (b : UInt8) : (b &&& 0x7f).toUInt64.toNat = b.toNat % 128 := by
  rw [UInt8.toNat_toUInt64, UInt8.toNat_and]
  exact Nat.and_two_pow_sub_one_eq_mod b.toNat 7

theorem foldl_nextGroup : ∀ (bits : Bytes) (id : UInt64) (n : Nat), id.toNat = n * 128 % 2 ^ 64 →
    (bits.foldl nextGroup id).toNat =
      bits.foldl (fun n b => n * 128 + b.toNat % 128) n * 128 % 2 ^ 64 := by
  intro bits
  induction bits with
  | nil => exact fun id n h => h
  | cons b bits ih =>
    intro id n h
    rw [List.foldl_cons, List.foldl_cons]
    apply ih
    rw [nextGroup, UInt64.toNat_shiftLeft, UInt64.toNat_add, group_and, h, Nat.shiftLeft_eq]
    show (n * 128 % 2 ^ 64 + b.toNat % 128) % 2 ^ 64 * 2 ^ 7 % 2 ^ 64 = _
    omega

/-- The receiver gets what stands in the groups, modulo 2^64. -/
theorem handleRPSI_eq {bits : Bytes} (pad : Bytes) (h : 0 < bits.length ∧ bits.length ≤ 10) :
    handleRPSI (UInt16.ofNat (8 * bits.length)) (bits ++ pad) =
      some (UInt64.ofNat (pictureIdOf bits)) := by
  obtain ⟨n, hn⟩ : ∃ n, bits.length = n + 1 := ⟨bits.length - 1, by omega⟩
  have hmod : (UInt16.ofNat (8 * bits.length)) % 8 = 0 := by
    apply UInt16.toNat_inj.1
    rw [UInt16.toNat_mod, UInt16.toNat_ofNat']
    show 8 * bits.length % 2 ^ 16 % 8 = 0
    omega
  have hdiv : (UInt16.ofNat (8 * bits.length) / 8).toUInt8.toNat = n + 1 := by
    rw [UInt16.toNat_toUInt8, UInt16.toNat_div, UInt16.toNat_ofNat']
    show 8 * bits.length % 2 ^ 16 / 8 % 2 ^ 8 = n + 1
    omega
  rw [handleRPSI, if_neg (by rw [hmod]; exact fun hne => hne rfl)]
  dsimp only
  rw [hdiv, if_neg (by omega), Nat.add_sub_cancel, List.getElem?_append_left (by omega),
    List.getElem?_eq_getElem (by omega), Option.map_some, List.take_append_of_le_length (by omega)]
  congr 1
  apply UInt64.toNat_inj.1
  have hfold := foldl_nextGroup (bits.take n) 0 0 rfl
  have hsplit : bits = bits.take n ++ [bits[n]] := by
    rw [List.take_append_getElem, List.take_of_length_le (by omega)]
  rw [UInt64.toNat_add, group_and, hfold, UInt64.toNat_ofNat']
  conv => rhs; rw [pictureIdOf, hsplit, List.foldl_append]
  rw [List.foldl_cons, List.foldl_nil]
  omega

theorem rpsi_fits (p : Rpsi) : (Packet.rpsi p).blockLength ≤ IP_PACKET_SIZE := by
  obtain ⟨h1, h2, h3, -⟩ := Parser.Rpsi.length_bounds p
  show kCommonFbFmtLength + (2 + p.nativeBitString.length + p.paddingBytes) ≤ 1500
  rw [kCommonFbFmtLength]
  omega

/-- The packet of `BuildRPSI` is that of `WithPictureId` and `Create`, the parser
delivers it, and the receiver gets the picture id back: that is so up to
2^63 - 1. (In a buffer without room nothing is written.) -/
theorem rpsi_coding (pos : Nat) (p : Rpsi) :
    ((IP_PACKET_SIZE ≤ pos + 24 ∧
        buildRPSI pos p.senderSSRC p.mediaSSRC p.pictureId p.payloadType = .refused) ∨
      buildRPSI pos p.senderSSRC p.mediaSSRC p.pictureId p.payloadType = .built p.block ∧
      ∃ bits s, Delivered p.block true
          [.rpsi p.senderSSRC p.mediaSSRC, .rpsiItem p.payloadType bits s] ∧
        handleRPSI bits s = some p.pictureId) ↔
    IP_PACKET_SIZE ≤ pos + 24 ∨ p.pictureId.toNat < 2 ^ 63 := by
  by_cases hroom : IP_PACKET_SIZE ≤ pos + 24
  · have hrefused : buildRPSI pos p.senderSSRC p.mediaSSRC p.pictureId p.payloadType = .refused :=
      if_pos hroom
    simp only [hroom, hrefused, true_and, true_or]
  · rw [buildRPSI_eq p (by omega)]
    by_cases hsmall : p.pictureId.toNat < 2 ^ 63
    · rw [if_pos hsmall]
      refine iff_of_true (Or.inr ⟨rfl, UInt16.ofNat (8 * p.nativeBitString.length),
        p.nativeBitString ++ List.replicate p.paddingBytes 0, ?_, ?_⟩) (Or.inr hsmall)
      · exact single_delivered (.rpsi p) trivial (by simp) (rpsi_fits p)
      · obtain ⟨h1, h2, -⟩ := Parser.Rpsi.length_bounds p
        rw [handleRPSI_eq _ ⟨h1, h2⟩, pictureId_nativeBitString, UInt64.ofNat_toNat]
    · rw [if_neg hsmall]
      apply iff_of_false
      · rintro (⟨hfull, -⟩ | ⟨hbuilt, -⟩)
        · exact hroom hfull
        · cases hbuilt
      · exact not_or.2 ⟨hroom, hsmall⟩

/-- The picture id 2^63. -/
theorem rpsi_shift_by_70 : ¬ ∀ (pos : Nat) (p : Rpsi), pos + 24 < IP_PACKET_SIZE →
    buildRPSI pos p.senderSSRC p.mediaSSRC p.pictureId p.payloadType = .built p.block := by
  intro h
  let p : Rpsi := ⟨1, 2, 97, 0x8000000000000000, by decide⟩
  have hb := h 0 p (by decide)
  rw [buildRPSI_eq p (by decide), if_neg (by decide)] at hb
  cases hb

end RtcCore.L1.Rtcp
