import RtcCore.Core.Bytes

/-!
# The ADTS header (`ffmpeg_factory.cc`)

An AAC packet leaves the encoder behind a seven octet ADTS header, whose
fields come from the first two octets of the codec's extradata
(`AudioSpecificConfig`: five bits of object type, four of
`samplingFrequencyIndex`, four of `channelConfiguration`). Two functions write
that header: `lfrtcEncodeAudio`, through a signed `char`, an arithmetic shift
and a subtraction, and `lfRtcAudioEncoderInternal::Process`, through masks.
An `int` is 32 bits in two's complement, a `char` eight.

Results:
* `samplingFrequencyIndex_adtsBits`, `channel_adtsBits`,
  `frameLength_adtsBits`: what the ADTS layout reads back from the octets both
  writers store.
* `process_header`: `Process` writes the configuration it was given.
* `sampleIndex_clear`, `sampleIndex_set`: `lfrtcEncodeAudio` computes the index
  of the configuration where the second octet has its top bit clear, and two
  less where it is set.
* `writersAgree_iff`: the two headers are equal, and both are the
  configuration's, exactly where that bit is clear.
-/
namespace RtcCore.L1.Adts
open Bytes

/-- What the functions read of `AVCodecContext`. -/
structure CodecContext where
  extradata : Bytes
  sampleRate : Int
  deriving DecidableEq, Repr

/-- What `avcodec_encode_audio2` leaves: an error, nothing yet, or a packet. -/
inductive EncodeReply where
  | error
  | buffered
  | packet (data : Bytes)
  deriving DecidableEq, Repr

/-- An octet in an `int`. -/
def promote (b : UInt8) : BitVec 32 := b.toBitVec.setWidth 32

/-- The octet an `int` is stored as. -/
def toByte (n : BitVec 32) : UInt8 := ⟨n.setWidth 8⟩

/-- The seven stores both writers make.
mirrors ffmpeg_factory.cc:679-687,1020-1026 -/
def adtsBits (sampleIndex channel length : BitVec 32) : Bytes :=
  [0xff, 0xf1,
    toByte (0x40 ||| sampleIndex <<< 2 ||| channel.sshiftRight 2),
    toByte ((channel &&& 0x3) <<< 6 ||| length.sshiftRight 11),
    toByte (length.sshiftRight 3 &&& 0xff),
    toByte (length <<< 5 &&& 0xff ||| 0x1f),
    0xfc]

/-! ## The two writers -/

/-- `char temp = (c->extradata[1] & 0x80)`, and its value in an `int`. -/
def temp (config1 : UInt8) : BitVec 32 :=
  ((promote config1 &&& 0x80).setWidth 8).signExtend 32

/-- mirrors ffmpeg_factory.cc:664-673 -/
def sampleIndex (c : CodecContext) : BitVec 32 :=
  if c.sampleRate = 44100 then 0x7
  else (promote (getByte c.extradata 0) &&& 0x07) <<< 1 +
    (temp (getByte c.extradata 1)).sshiftRight 7

/-- mirrors ffmpeg_factory.cc:674 -/
def channel (c : CodecContext) : BitVec 32 :=
  ((promote (getByte c.extradata 1) - temp (getByte c.extradata 1)) &&& 0xff).sshiftRight 3

/-- What the encoder's packet becomes in `outBuf`: the result, the buffer and
`*(outLen[0])`; `none` where an assertion fails.
mirrors ffmpeg_factory.cc:616-625,649-697 -/
def lfrtcEncodeAudio (c : CodecContext) (sdpFlag : Bool) (outBuf : Bytes) (reply : EncodeReply) :
    Option (Int × Bytes × Nat) :=
  if outBuf.length < 7 then some (-1, outBuf, 0)
  else
    match reply with
    | .error => none
    | .buffered => some (0, outBuf, 0)
    | .packet data =>
      if sdpFlag then
        if c.extradata.length = 7 then
          let bits := adtsBits (sampleIndex c) (channel c) (BitVec.ofNat 32 (7 + data.length))
          let outData := bits ++ outBuf.drop 7
          if outBuf.length < 7 + data.length then some (-1, outData, 0)
          else some (0, bits ++ data ++ outBuf.drop (7 + data.length), 7 + data.length)
        else none
      else if outBuf.length < data.length then some (-1, outBuf, 0)
      else some (0, data ++ outBuf.drop data.length, data.length)

/-- mirrors ffmpeg_factory.cc:1014 -/
def configIndex (c : CodecContext) : UInt8 :=
  (getByte c.extradata 0 &&& 0x07) <<< 1 ||| getByte c.extradata 1 >>> 7

/-- mirrors ffmpeg_factory.cc:1015 -/
def configChannel (c : CodecContext) : UInt8 := getByte c.extradata 1 >>> 3 &&& 0x0F

/-- `lfRtcAudioEncoderInternal::Process`: the result and `m_encoded_data`.
mirrors ffmpeg_factory.cc:974-1035 -/
def process (c : CodecContext) (sdpFlag : Bool) (reply : EncodeReply) : Option (Int × Bytes) :=
  match reply with
  | .error => none
  | .buffered => some (0, [])
  | .packet data =>
    if sdpFlag then
      if 2 ≤ c.extradata.length then
        some (0, adtsBits (promote (configIndex c)) (promote (configChannel c))
          (BitVec.ofNat 32 (7 + data.length)) ++ data)
      else none
    else some (0, data)

/-! ## The ADTS layout

Twelve bits of syncword, one of ID, two of layer, one of protection, two of
profile, four of sampling frequency index, one private bit, three of channel
configuration, four bits of flags, thirteen of frame length, eleven of buffer
fullness and two of the number of frames. -/

def samplingFrequencyIndex (header : Bytes) : Nat := (getByte header 2).toNat / 4 % 16

def channelConfiguration (header : Bytes) : Nat :=
  (getByte header 2).toNat % 2 * 4 + (getByte header 3).toNat / 64

def frameLength (header : Bytes) : Nat :=
  (getByte header 3).toNat % 4 * 2048 + (getByte header 4).toNat * 8 +
    (getByte header 5).toNat / 32

/-- The header says the configuration and the length. -/
def Says (header : Bytes) (index channels length : Nat) : Prop :=
  samplingFrequencyIndex header = index ∧ channelConfiguration header = channels ∧
    frameLength header = length

/-! ## The `AudioSpecificConfig` -/

/-- The four bits of `samplingFrequencyIndex`, which straddle the octets. -/
def index (config0 config1 : UInt8) : Nat := config0.toNat % 8 * 2 + config1.toNat / 128

/-- The four bits of `channelConfiguration`. -/
def channels (config1 : UInt8) : Nat := config1.toNat / 8 % 16

/-! ## What the layout reads back -/

theorem or_mod (a b k : Nat) : (a ||| b) % 2 ^ k = a % 2 ^ k ||| b % 2 ^ k :=
  Nat.or_mod_two_pow

theorem or_div (a b k : Nat) : (a ||| b) / 2 ^ k = a / 2 ^ k ||| b / 2 ^ k := by
  rw [← Nat.shiftRight_eq_div_pow, ← Nat.shiftRight_eq_div_pow, ← Nat.shiftRight_eq_div_pow,
    Nat.shiftRight_or_distrib]

theorem or_low {a b k : Nat} (h : b < 2 ^ k) : a * 2 ^ k ||| b = a * 2 ^ k + b := by
  rw [Nat.mul_comm, Nat.two_pow_add_eq_or_of_lt h]

theorem toNat_toByte (n : BitVec 32) : (toByte n).toNat = n.toNat % 256 := by
  simp [toByte, UInt8.toNat]

theorem toNat_sshiftRight {n : BitVec 32} (h : n.toNat < 2147483648) (k : Nat) :
    (n.sshiftRight k).toNat = n.toNat / 2 ^ k := by
  rw [BitVec.sshiftRight_eq_of_msb_false (BitVec.msb_eq_false_iff_two_mul_lt.2 (by omega)),
    BitVec.toNat_ushiftRight, Nat.shiftRight_eq_div_pow]

variable {sampleIndex' channel' length' : BitVec 32}

/-- The third octet, as the index and the channels were shifted into it. -/
theorem toNat_bits2 (hchannel : channel'.toNat < 16) :
    (getByte (adtsBits sampleIndex' channel' length') 2).toNat =
      (64 ||| sampleIndex'.toNat * 4 % 4294967296 ||| channel'.toNat / 4) % 256 := by
  have hshift := toNat_sshiftRight (show channel'.toNat < 2147483648 by omega) 2
  show (toByte _).toNat = _
  rw [toNat_toByte, BitVec.toNat_or, BitVec.toNat_or, BitVec.toNat_shiftLeft, hshift,
    Nat.shiftLeft_eq]
  rfl

theorem toNat_bits3 (hlength : length'.toNat < 8192) :
    (getByte (adtsBits sampleIndex' channel' length') 3).toNat =
      channel'.toNat % 4 * 64 + length'.toNat / 2048 := by
  have hshift := toNat_sshiftRight (show length'.toNat < 2147483648 by omega) 11
  have hand : (channel' &&& 0x3).toNat = channel'.toNat % 4 := by
    rw [BitVec.toNat_and]
    exact Nat.and_two_pow_sub_one_eq_mod _ 2
  have hlow : length'.toNat / 2048 < 2 ^ 6 := by omega
  have hor := or_low (a := channel'.toNat % 4) hlow
  show (toByte _).toNat = _
  rw [toNat_toByte, BitVec.toNat_or, BitVec.toNat_shiftLeft, hshift, hand, Nat.shiftLeft_eq,
    Nat.mod_eq_of_lt (show channel'.toNat % 4 * 2 ^ 6 < 2 ^ 32 by omega)]
  rw [show (2 : Nat) ^ 11 = 2048 by rfl, hor]
  omega

theorem toNat_bits4 (hlength : length'.toNat < 8192) :
    (getByte (adtsBits sampleIndex' channel' length') 4).toNat = length'.toNat / 8 % 256 := by
  have hshift := toNat_sshiftRight (show length'.toNat < 2147483648 by omega) 3
  have hand : (length'.sshiftRight 3 &&& 0xff).toNat = length'.toNat / 8 % 256 := by
    rw [BitVec.toNat_and, hshift]
    exact Nat.and_two_pow_sub_one_eq_mod _ 8
  show (toByte _).toNat = _
  rw [toNat_toByte, hand]
  omega

theorem toNat_bits5 :
    (getByte (adtsBits sampleIndex' channel' length') 5).toNat = length'.toNat % 8 * 32 + 31 := by
  have hand : (length' <<< 5 &&& 0xff).toNat = length'.toNat % 8 * 32 := by
    rw [BitVec.toNat_and, BitVec.toNat_shiftLeft, Nat.shiftLeft_eq]
    refine (Nat.and_two_pow_sub_one_eq_mod _ 8).trans ?_
    omega
  have hor := or_low (a := length'.toNat % 8) (show 31 < 2 ^ 5 by decide)
  show (toByte _).toNat = _
  rw [toNat_toByte, BitVec.toNat_or, hand]
  refine (congrArg (· % 256) hor).trans ?_
  omega

/-- Only the low four bits of the index reach the header's field. -/
theorem samplingFrequencyIndex_adtsBits (hchannel : channel'.toNat < 16) :
    samplingFrequencyIndex (adtsBits sampleIndex' channel' length') = sampleIndex'.toNat % 16 := by
  have hfield : ∀ n : Nat, n % 256 / 4 % 16 = n / 2 ^ 2 % 2 ^ 4 := fun n => by omega
  rw [samplingFrequencyIndex, toNat_bits2 hchannel, hfield, or_div, or_div, or_mod, or_mod,
    show sampleIndex'.toNat * 4 % 4294967296 / 2 ^ 2 % 2 ^ 4 = sampleIndex'.toNat % 16 by omega,
    show channel'.toNat / 4 / 2 ^ 2 % 2 ^ 4 = 0 by omega, Nat.or_zero]
  exact Nat.zero_or _

theorem channel_adtsBits (hchannel : channel'.toNat < 16) (hlength : length'.toNat < 8192) :
    channelConfiguration (adtsBits sampleIndex' channel' length') = channel'.toNat % 8 := by
  have hlow : ∀ n : Nat, n % 256 % 2 = n % 2 ^ 1 := fun n => by omega
  have hprivate : (64 ||| sampleIndex'.toNat * 4 % 4294967296 ||| channel'.toNat / 4) % 2 ^ 1 =
      channel'.toNat / 4 % 2 := by
    rw [or_mod, or_mod, show sampleIndex'.toNat * 4 % 4294967296 % 2 ^ 1 = 0 by omega]
    exact Nat.zero_or _
  rw [channelConfiguration, toNat_bits2 hchannel, toNat_bits3 hlength, hlow, hprivate]
  omega

theorem frameLength_adtsBits (hlength : length'.toNat < 8192) :
    frameLength (adtsBits sampleIndex' channel' length') = length'.toNat := by
  rw [frameLength, toNat_bits3 hlength, toNat_bits4 hlength, toNat_bits5]
  omega

/-! ## What the writers compute -/

theorem toNat_promote (b : UInt8) : (promote b).toNat = b.toNat := by
  have := b.toNat_lt
  rw [promote, BitVec.toNat_setWidth, Nat.mod_eq_of_lt]
  · rfl
  · exact Nat.lt_trans this (by decide)

/-- The fields of the second octet, the ones the writers compute from it and from the first. -/
theorem octet_fields (b : UInt8) :
    ((b &&& 0x07) <<< 1).toNat = b.toNat % 8 * 2 ^ 1 ∧
    ((promote b &&& 0x07) <<< 1).toNat = b.toNat % 8 * 2 ∧
    (b >>> 7).toNat = b.toNat / 128 ∧ (b &&& 0x80 = 0 ↔ b.toNat / 128 = 0) ∧
    (b >>> 3 &&& 0x0F).toNat = channels b ∧
    (((promote b - temp b) &&& 0xff).sshiftRight 3).toNat = channels b ∧
    ((temp b).sshiftRight 7).toNat = if b &&& 0x80 = 0 then 0 else 4294967295 :=
  forall_uint8 (P := fun b => ((b &&& 0x07) <<< 1).toNat = b.toNat % 8 * 2 ^ 1 ∧
    ((promote b &&& 0x07) <<< 1).toNat = b.toNat % 8 * 2 ∧
    (b >>> 7).toNat = b.toNat / 128 ∧ (b &&& 0x80 = 0 ↔ b.toNat / 128 = 0) ∧
    (b >>> 3 &&& 0x0F).toNat = channels b ∧
    (((promote b - temp b) &&& 0xff).sshiftRight 3).toNat = channels b ∧
    ((temp b).sshiftRight 7).toNat = if b &&& 0x80 = 0 then 0 else 4294967295)
    (by decide) b

theorem configIndex_toNat (c : CodecContext) :
    (configIndex c).toNat = index (getByte c.extradata 0) (getByte c.extradata 1) := by
  have hlow : (getByte c.extradata 1).toNat / 128 < 2 ^ 1 := by
    have := (getByte c.extradata 1).toNat_lt
    omega
  have hor := or_low (a := (getByte c.extradata 0).toNat % 8) hlow
  obtain ⟨hbase, -⟩ := octet_fields (getByte c.extradata 0)
  obtain ⟨-, -, htop, -⟩ := octet_fields (getByte c.extradata 1)
  rw [configIndex, UInt8.toNat_or, hbase, htop, hor]
  rfl

theorem configChannel_toNat (c : CodecContext) :
    (configChannel c).toNat = channels (getByte c.extradata 1) :=
  (octet_fields _).2.2.2.2.1

/-- The subtraction takes the top bit away, whatever its sign became. -/
theorem channel_toNat (c : CodecContext) :
    (channel c).toNat = channels (getByte c.extradata 1) :=
  (octet_fields _).2.2.2.2.2.1

theorem temp_toNat (b : UInt8) :
    ((temp b).sshiftRight 7).toNat = if b &&& 0x80 = 0 then 0 else 4294967295 :=
  (octet_fields b).2.2.2.2.2.2

theorem top_clear_iff (b : UInt8) : b &&& 0x80 = 0 ↔ b.toNat / 128 = 0 :=
  (octet_fields b).2.2.2.1

/-- Away from 44100 Hz the shifted sign is added: nothing, or minus one. -/
theorem sampleIndex_toNat {c : CodecContext} (hrate : c.sampleRate ≠ 44100) :
    (sampleIndex c).toNat = ((getByte c.extradata 0).toNat % 8 * 2 +
      if getByte c.extradata 1 &&& 0x80 = 0 then 0 else 4294967295) % 4294967296 := by
  have hbase : ((promote (getByte c.extradata 0) &&& 0x07) <<< 1).toNat =
      (getByte c.extradata 0).toNat % 8 * 2 := (octet_fields _).2.1
  rw [sampleIndex, if_neg hrate, BitVec.toNat_add, hbase, temp_toNat]

theorem sampleIndex_clear {c : CodecContext} (hrate : c.sampleRate ≠ 44100)
    (h : getByte c.extradata 1 &&& 0x80 = 0) : sampleIndex c = promote (configIndex c) := by
  apply BitVec.eq_of_toNat_eq
  rw [sampleIndex_toNat hrate, if_pos h, toNat_promote, configIndex_toNat, index,
    (top_clear_iff _).1 h]
  omega

/-- Two less than the configuration's, modulo the field. -/
theorem sampleIndex_set {c : CodecContext} (hrate : c.sampleRate ≠ 44100)
    (h : getByte c.extradata 1 &&& 0x80 ≠ 0) :
    ((sampleIndex c).toNat + 2) % 16 =
      index (getByte c.extradata 0) (getByte c.extradata 1) % 16 := by
  have hset : (getByte c.extradata 1).toNat / 128 ≠ 0 := fun h0 => h ((top_clear_iff _).2 h0)
  have hlt := (getByte c.extradata 1).toNat_lt
  rw [sampleIndex_toNat hrate, if_neg h, index]
  omega

theorem channel_eq (c : CodecContext) : channel c = promote (configChannel c) :=
  BitVec.eq_of_toNat_eq (by rw [channel_toNat, toNat_promote, configChannel_toNat])

theorem index_lt (config0 config1 : UInt8) : index config0 config1 < 16 := by
  have := config1.toNat_lt
  rw [index]
  omega

theorem channels_lt (config1 : UInt8) : channels config1 < 16 := Nat.mod_lt _ (by decide)

/-! ## The headers -/

theorem take_adtsBits (sampleIndex channel length : BitVec 32) (rest : Bytes) :
    (adtsBits sampleIndex channel length ++ rest).take 7 = adtsBits sampleIndex channel length :=
  rfl

/-- The header of a packet with `size` octets is the configuration's. -/
def SaysConfig (header : Bytes) (c : CodecContext) (size : Nat) : Prop :=
  Says header (index (getByte c.extradata 0) (getByte c.extradata 1))
    (channels (getByte c.extradata 1) % 8) (7 + size)

theorem process_header (c : CodecContext) {size : Nat} (hsize : size < 8185) :
    SaysConfig (adtsBits (promote (configIndex c)) (promote (configChannel c))
      (BitVec.ofNat 32 (7 + size))) c size := by
  have hlength : (BitVec.ofNat 32 (7 + size)).toNat = 7 + size :=
    Nat.mod_eq_of_lt (by omega)
  have hchannel : (promote (configChannel c)).toNat = channels (getByte c.extradata 1) := by
    rw [toNat_promote, configChannel_toNat]
  have hlt := channels_lt (getByte c.extradata 1)
  refine ⟨?_, ?_, ?_⟩
  · rw [samplingFrequencyIndex_adtsBits (by rw [hchannel]; exact hlt), toNat_promote,
      configIndex_toNat, Nat.mod_eq_of_lt (index_lt ..)]
  · rw [channel_adtsBits (by rw [hchannel]; exact hlt) (by omega), hchannel]
  · rw [frameLength_adtsBits (by omega), hlength]

/-- What both writers leave in front of the packet is the same, and is what
the configuration says. -/
def WritersAgree (c : CodecContext) (outBuf data : Bytes) : Prop :=
  ∃ result outData outLen encoded,
    lfrtcEncodeAudio c true outBuf (.packet data) = some (result, outData, outLen) ∧
    process c true (.packet data) = some (0, encoded) ∧
    outData.take 7 = encoded.take 7 ∧
    SaysConfig (outData.take 7) c data.length ∧ SaysConfig (encoded.take 7) c data.length

/-- Behind its assertion, the first writer stores its seven octets whether or
not the packet fits behind them. -/
theorem lfrtcEncodeAudio_header {c : CodecContext} {outBuf : Bytes} (data : Bytes)
    (hbuf : 7 ≤ outBuf.length) (hextra : c.extradata.length = 7) :
    ∃ result outData outLen,
      lfrtcEncodeAudio c true outBuf (.packet data) = some (result, outData, outLen) ∧
      outData.take 7 =
        adtsBits (sampleIndex c) (channel c) (BitVec.ofNat 32 (7 + data.length)) := by
  have htake := take_adtsBits (sampleIndex c) (channel c) (BitVec.ofNat 32 (7 + data.length))
  rw [lfrtcEncodeAudio, if_neg (Nat.not_lt.2 hbuf)]
  simp only [if_pos hextra, if_true]
  by_cases hfit : outBuf.length < 7 + data.length
  · rw [if_pos hfit]
    exact ⟨_, _, _, rfl, htake _⟩
  · rw [if_neg hfit, List.append_assoc]
    exact ⟨_, _, _, rfl, htake _⟩

theorem process_encoded {c : CodecContext} (data : Bytes) (hextra : 2 ≤ c.extradata.length) :
    process c true (.packet data) = some (0, adtsBits (promote (configIndex c))
      (promote (configChannel c)) (BitVec.ofNat 32 (7 + data.length)) ++ data) := by
  rw [process, if_pos rfl, if_pos hextra]

/-- A header the writers agree on comes from the same index. -/
theorem WritersAgree.clear {c : CodecContext} {outBuf data : Bytes}
    (h : WritersAgree c outBuf data) (hrate : c.sampleRate ≠ 44100) (hbuf : 7 ≤ outBuf.length) :
    c.extradata.length = 7 ∧ getByte c.extradata 1 &&& 0x80 = 0 := by
  obtain ⟨result, outData, outLen, encoded, hlfrtc, -, -, hsays, -⟩ := h
  have h7 : c.extradata.length = 7 := by
    by_contra h7
    simp only [lfrtcEncodeAudio, if_neg (Nat.not_lt.2 hbuf), if_neg h7, if_true] at hlfrtc
    cases hlfrtc
  refine ⟨h7, by_contra fun hset => ?_⟩
  obtain ⟨result', outData', outLen', hlfrtc', hhead⟩ :=
    lfrtcEncodeAudio_header data hbuf h7
  obtain ⟨rfl, rfl, rfl⟩ : result = result' ∧ outData = outData' ∧ outLen = outLen' := by
    simpa using hlfrtc.symm.trans hlfrtc'
  have hindex := hsays.1
  have htwo := sampleIndex_set hrate hset
  have hlt := index_lt (getByte c.extradata 0) (getByte c.extradata 1)
  rw [hhead, samplingFrequencyIndex_adtsBits (by rw [channel_toNat]; exact channels_lt _)]
    at hindex
  omega

theorem writersAgree_iff {c : CodecContext} (hextra : 2 ≤ c.extradata.length)
    (hrate : c.sampleRate ≠ 44100) {outBuf data : Bytes} (hbuf : 7 ≤ outBuf.length)
    (hsize : data.length < 8185) :
    WritersAgree c outBuf data ↔
      c.extradata.length = 7 ∧ getByte c.extradata 1 &&& 0x80 = 0 := by
  refine ⟨fun h => h.clear hrate hbuf, ?_⟩
  rintro ⟨h7, hclear⟩
  obtain ⟨result, outData, outLen, hlfrtc, hhead⟩ :=
    lfrtcEncodeAudio_header data hbuf h7
  have hsays := process_header c hsize
  rw [sampleIndex_clear hrate hclear, channel_eq] at hhead
  refine ⟨result, outData, outLen, _, hlfrtc, process_encoded data hextra, ?_, ?_, ?_⟩
  · rw [hhead, take_adtsBits]
  · rw [hhead]
    exact hsays
  · rw [take_adtsBits]
    exact hsays

/-- 48000 Hz and two channels. -/
def clearConfig : CodecContext := ⟨[0x11, 0x10, 0x56, 0xe5, 0, 0, 0], 48000⟩

theorem writersAgree_48000 : WritersAgree clearConfig (List.replicate 16 0) [1, 2, 3] :=
  (writersAgree_iff (by decide) (by decide) (by decide) (by decide)).2 (by decide)

/-- 22050 Hz, whose index 7 sets the bit, and one channel: the first writer
stores 5, the index of 32000 Hz. -/
theorem writers_differ_at_22050 :
    lfrtcEncodeAudio ⟨[0x13, 0x88, 0x56, 0xe5, 0, 0, 0], 22050⟩ true (List.replicate 10 0)
        (.packet [1, 2, 3]) =
      some (0, [0xff, 0xf1, 0x54, 0x40, 0x01, 0x5f, 0xfc, 1, 2, 3], 10) ∧
    process ⟨[0x13, 0x88, 0x56, 0xe5, 0, 0, 0], 22050⟩ true (.packet [1, 2, 3]) =
      some (0, [0xff, 0xf1, 0x5c, 0x40, 0x01, 0x5f, 0xfc, 1, 2, 3]) ∧
    ¬ WritersAgree ⟨[0x13, 0x88, 0x56, 0xe5, 0, 0, 0], 22050⟩ (List.replicate 10 0) [1, 2, 3] :=
  ⟨by decide, by decide,
    fun h => absurd (h.clear (by decide) (by decide)).2 (by decide)⟩

end RtcCore.L1.Adts
