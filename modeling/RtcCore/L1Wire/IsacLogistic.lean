import RtcCore.L1Wire.IsacArith

/-!
# The spectrum coder of iSAC

`WebRtcIsacfix_EncLogisticMulti2` and `WebRtcIsacfix_DecLogisticMulti2` code a
value in Q7 by the part of a piecewise linear distribution that lies within 64 of
it, scaled by the envelope. The encoder moves a value towards zero until its part
is wider than one unit; the decoder looks for the part from the dither outwards,
and gives up where two bounds it compares are the same.

The products of a value and an envelope fit in 32 bits. The decoder's place in
the stream and the `offset` it counts beyond the end are one index, as the offset
grows only where the place has reached the end.
-/
namespace RtcCore.L1.Isac

/-! ## The distribution -/

/-- mirrors webrtc/modules/audio_coding/codecs/isac/fix/source/arith_routines_logist.c:23-30 -/
def kHistEdges : List Int :=
  [-327680, -314573, -301466, -288359, -275252, -262144, -249037, -235930, -222823, -209716,
    -196608, -183501, -170394, -157287, -144180, -131072, -117965, -104858, -91751, -78644,
    -65536, -52429, -39322, -26215, -13108, 0, 13107, 26214, 39321, 52428,
    65536, 78643, 91750, 104857, 117964, 131072, 144179, 157286, 170393, 183500,
    196608, 209715, 222822, 235929, 249036, 262144, 275251, 288358, 301465, 314572,
    327680]

/-- mirrors webrtc/modules/audio_coding/codecs/isac/fix/source/arith_routines_logist.c:33-41 -/
def kCdfSlope : List UInt16 :=
  [5, 5, 5, 5, 5, 5, 5, 5, 5, 5,
    5, 5, 13, 23, 47, 87, 154, 315, 700, 1088,
    2471, 6064, 14221, 21463, 36634, 36924, 19750, 13270, 5806, 2312,
    1095, 660, 316, 145, 86, 41, 32, 5, 5, 5,
    5, 5, 5, 5, 5, 5, 5, 5, 5, 2,
    0]

/-- mirrors webrtc/modules/audio_coding/codecs/isac/fix/source/arith_routines_logist.c:43-51 -/
def kCdfLogistic : List UInt16 :=
  [0, 2, 4, 6, 8, 10, 12, 14, 16, 18,
    20, 22, 24, 29, 38, 57, 92, 153, 279, 559,
    994, 1983, 4408, 10097, 18682, 33336, 48105, 56005, 61313, 63636,
    64560, 64998, 65262, 65389, 65447, 65481, 65497, 65510, 65512, 65514,
    65516, 65518, 65520, 65522, 65524, 65526, 65528, 65530, 65532, 65534,
    65535]

/-- mirrors webrtc/modules/audio_coding/codecs/isac/fix/source/arith_routines_logist.c:66-81 -/
def piecewise (xinQ15 : Int) : UInt16 :=
  let qtmp1 :=
    if kHistEdges.getD 50 0 < xinQ15 then kHistEdges.getD 50 0
    else if xinQ15 < kHistEdges.getD 0 0 then kHistEdges.getD 0 0
    else xinQ15
  let ind := (5 * (qtmp1 - kHistEdges.getD 0 0) / 65536).toNat
  let qtmp1 := qtmp1 - kHistEdges.getD ind 0
  let qtmp2 := ((UInt32.ofInt qtmp1 * (kCdfSlope.getD ind 0).toUInt32) >>> 15).toUInt16
  kCdfLogistic.getD ind 0 + qtmp2

/-- mirrors webrtc/common_audio/signal_processing/include/signal_processing_library.h:45-46 -/
def WEBRTC_SPL_MUL_16_U16 (a : Int) (b : UInt16) : Int := (Int16.ofInt a).toInt * b.toNat

/-! ## The encoder -/

/-- The loop ends before the fuel is gone, see `clip_spec`.
mirrors webrtc/modules/audio_coding/codecs/isac/fix/source/arith_routines_logist.c:131-145 -/
def clip (envQ8 : UInt16) :
    Nat → Int16 → UInt16 → UInt16 → Except Failure (Int16 × UInt16 × UInt16)
  | 0, _, _, _ => .error .undefined
  | fuel + 1, dataQ7, cdfLo, cdfHi =>
    if cdfHi.toNat ≤ cdfLo.toNat + 1 then
      if 0 < dataQ7 then
        let dataQ7 := dataQ7 - 128
        clip envQ8 fuel dataQ7 (piecewise (WEBRTC_SPL_MUL_16_U16 (dataQ7.toInt - 64) envQ8)) cdfLo
      else
        let dataQ7 := dataQ7 + 128
        clip envQ8 fuel dataQ7 cdfHi (piecewise (WEBRTC_SPL_MUL_16_U16 (dataQ7.toInt + 64) envQ8))
    else .ok (dataQ7, cdfLo, cdfHi)

/-- The interval is narrowed and renormalized as for a histogram.
mirrors webrtc/modules/audio_coding/codecs/isac/fix/source/arith_routines_logist.c:152-201 -/
def encPart (s : BitstrEnc) (cdfLo cdfHi : UInt16) : Except Failure BitstrEnc := do
  let wLower := scale s.wUpper cdfLo + 1
  let wUpper := scale s.wUpper cdfHi - wLower
  let s ← addToStream { s with wUpper } wLower
  renormalize (2 * STREAM_MAXW16_60MS + 2) s

/-- `k` counts the values and `env` is the place in `envQ8`.
mirrors webrtc/modules/audio_coding/codecs/isac/fix/source/arith_routines_logist.c:123-202 -/
def encLogisticValues (envQ8 : List UInt16) :
    Nat → Nat → List Int16 → BitstrEnc → Except Failure (List Int16 × BitstrEnc)
  | _, _, [], s => return ([], s)
  | k, env, dataQ7 :: rest, s => do
    let e ← load envQ8 env
    let cdfLo := piecewise (WEBRTC_SPL_MUL_16_U16 (dataQ7.toInt - 64) e)
    let cdfHi := piecewise (WEBRTC_SPL_MUL_16_U16 (dataQ7.toInt + 64) e)
    let (dataQ7, cdfLo, cdfHi) ← clip e 512 dataQ7 cdfLo cdfHi
    let s ← encPart s cdfLo cdfHi
    let (rest, s) ← encLogisticValues envQ8 (k + 1) (env + ((k &&& 1) &&& (k >>> 1))) rest s
    return (dataQ7 :: rest, s)

/-- The values as they are left, and the stream.
mirrors webrtc/modules/audio_coding/codecs/isac/fix/source/arith_routines_logist.c:98-209 -/
def encLogisticMulti2 (s : BitstrEnc) (dataQ7 : List Int16) (envQ8 : List UInt16) :
    Except Failure (List Int16 × BitstrEnc) :=
  encLogisticValues envQ8 0 0 dataQ7 s

/-! ## The decoder -/

/-- mirrors webrtc/common_audio/signal_processing/include/spl_inl.h:86-101 -/
def getSizeInBits (n : UInt32) : Nat :=
  let bits : UInt32 := if 0xFFFF0000 &&& n ≠ 0 then 16 else 0
  let bits := if 0x0000FF00 &&& (n >>> bits) ≠ 0 then bits + 8 else bits
  let bits := if 0x000000F0 &&& (n >>> bits) ≠ 0 then bits + 4 else bits
  let bits := if 0x0000000C &&& (n >>> bits) ≠ 0 then bits + 2 else bits
  let bits := if 0x00000002 &&& (n >>> bits) ≠ 0 then bits + 1 else bits
  let bits := if 0x00000001 &&& (n >>> bits) ≠ 0 then bits + 1 else bits
  bits.toNat

/-- `(inSqrt / res + res) >> 1`. -/
def rootStep (inSqrt res : Int) : Except Failure Int :=
  if res = 0 then .error .undefined else .ok ((inSqrt.tdiv res + res) / 2)

/-- `res` and `newRes` as the loop leaves them.
mirrors webrtc/modules/audio_coding/codecs/isac/fix/source/arith_routines_logist.c:282-286 -/
def rootLoop (inSqrt : Int) : Nat → Int → Except Failure (Int × Int)
  | i, newRes => do
    let res := newRes
    let newRes ← rootStep inSqrt res
    match i with
    | 0 => return (res, newRes)
    | i + 1 => if newRes ≠ res then rootLoop inSqrt i newRes else return (res, newRes)

/-- The square root of an envelope, found from the one before: `res` and `tmpARSpecQ8`.
mirrors webrtc/modules/audio_coding/codecs/isac/fix/source/arith_routines_logist.c:272-288 -/
def squareRoot (res : Int) (envQ8 : Int32) : Except Failure (Int × UInt16) := do
  let inSqrt := if envQ8 < 0 then -envQ8.toInt else envQ8.toInt
  let newRes ← rootStep inSqrt res
  let (res, newRes) ← rootLoop inSqrt 10 newRes
  return (res, UInt16.ofInt newRes)

/-- `W_tmp` at a candidate. -/
def bound (wUpper : UInt32) (envQ8 : UInt16) (candQ7 : Int16) : UInt32 :=
  scale wUpper (piecewise (WEBRTC_SPL_MUL_16_U16 candQ7.toInt envQ8))

/-- The value found, `W_lower` and `W_upper`. Candidates are 16-bit numbers; the loop has gone
round them all when the fuel is gone.
mirrors webrtc/modules/audio_coding/codecs/isac/fix/source/arith_routines_logist.c:312-334 -/
def searchUp (wUpper : UInt32) (envQ8 : UInt16) (streamval : UInt32) :
    Nat → Int16 → UInt32 → UInt32 → Except Failure (Int16 × UInt32 × UInt32)
  | 0, _, _, _ => .error .undefined
  | fuel + 1, candQ7, wLower, wTmp =>
    if wTmp < streamval then
      let candQ7 := candQ7 + 128
      let wTmp' := bound wUpper envQ8 candQ7
      if wTmp = wTmp' then .error (.code (-1))
      else searchUp wUpper envQ8 streamval fuel candQ7 wTmp wTmp'
    else .ok (candQ7 - 64, wLower, wTmp)

/-- mirrors webrtc/modules/audio_coding/codecs/isac/fix/source/arith_routines_logist.c:336-361 -/
def searchDown (wUpper : UInt32) (envQ8 : UInt16) (streamval : UInt32) :
    Nat → Int16 → UInt32 → UInt32 → Except Failure (Int16 × UInt32 × UInt32)
  | 0, _, _, _ => .error .undefined
  | fuel + 1, candQ7, wUpper', wTmp =>
    if streamval ≤ wTmp then
      let candQ7 := candQ7 - 128
      let wTmp' := bound wUpper envQ8 candQ7
      if wTmp = wTmp' then .error (.code (-1))
      else searchDown wUpper envQ8 streamval fuel candQ7 wTmp wTmp'
    else .ok (candQ7 + 64, wTmp, wUpper')

/-- mirrors webrtc/modules/audio_coding/codecs/isac/fix/source/arith_routines_logist.c:291-362 -/
def logisticSearch (s : BitstrDec) (envQ8 : UInt16) (dither : Int16) :
    Except Failure (Int16 × UInt32 × UInt32) :=
  let candQ7 := -dither + 64
  let wTmp := bound s.wUpper envQ8 candQ7
  if wTmp < s.streamval then
    searchUp s.wUpper envQ8 s.streamval 1024 (candQ7 + 128) wTmp
      (bound s.wUpper envQ8 (candQ7 + 128))
  else
    searchDown s.wUpper envQ8 s.streamval 1024 (candQ7 - 128) wTmp
      (bound s.wUpper envQ8 (candQ7 - 128))

/-- Beyond the end of the stream zeros are inserted.
mirrors webrtc/modules/audio_coding/codecs/isac/fix/source/arith_routines_logist.c:377-400 -/
def readByteOrZero (streamSize : Nat) (s : BitstrDec) : Except Failure BitstrDec :=
  if s.streamIndex < streamSize then readByte s
  else
    let wUpper := s.wUpper <<< 8
    let streamval := s.streamval <<< 8
    if s.full then .ok { s with wUpper, streamval, full := false }
    else .ok { s with wUpper, streamval, streamIndex := s.streamIndex + 1, full := true }

/-- An interval that is not empty is wide after three octets.
mirrors webrtc/modules/audio_coding/codecs/isac/fix/source/arith_routines_logist.c:374-402 -/
def decLogisticRenormalize (streamSize : Nat) : Nat → BitstrDec → Except Failure BitstrDec
  | 0, _ => .error .undefined
  | fuel + 1, s =>
    if s.wUpper &&& 0xFF000000 = 0 then do
      decLogisticRenormalize streamSize fuel (← readByteOrZero streamSize s)
    else .ok s

/-- mirrors webrtc/modules/audio_coding/codecs/isac/fix/source/arith_routines_logist.c:290-403 -/
def decLogisticValues (streamSize : Nat) (envQ8 : UInt16) :
    List Int16 → BitstrDec → Except Failure (List Int16 × BitstrDec)
  | [], s => return ([], s)
  | dither :: rest, s => do
    let (dataQ7, wLower, wUpper) ← logisticSearch s envQ8 dither
    let s ← decLogisticRenormalize streamSize (2 * INTERNAL_STREAM_SIZE_W16 + 2)
      { s with wUpper := wUpper - (wLower + 1), streamval := s.streamval - (wLower + 1) }
    let (rest, s) ← decLogisticValues streamSize envQ8 rest s
    return (dataQ7 :: rest, s)

/-- Four dither values and their envelope.
mirrors webrtc/modules/audio_coding/codecs/isac/fix/source/arith_routines_logist.c:268-405 -/
structure Dithers where
  envQ8 : Int32
  dataQ7 : List Int16
  four : dataQ7.length = 4

def decLogisticBands (streamSize : Nat) :
    Int → List Dithers → BitstrDec → Except Failure (List Int16 × BitstrDec)
  | _, [], s => return ([], s)
  | res, band :: rest, s => do
    let (res, tmpARSpecQ8) ← squareRoot res band.envQ8
    let (data, s) ← decLogisticValues streamSize tmpARSpecQ8 band.dataQ7 s
    let (rest, s) ← decLogisticBands streamSize res rest s
    return (data ++ rest, s)

/-- The values, the return value and the stream. A call has at least one band.
mirrors webrtc/modules/audio_coding/codecs/isac/fix/source/arith_routines_logist.c:229-414 -/
def decLogisticMulti2 (s : BitstrDec) (streamSize : Nat) (bands : List Dithers) :
    Except Failure (List Int16 × Int × BitstrDec) := do
  let s ← firstWords s
  match bands with
  | [] => throw .undefined
  | band :: _ =>
    let res := (1 : Int) <<< (getSizeInBits band.envQ8.toUInt32 >>> 1)
    let (data, s) ← decLogisticBands streamSize res bands s
    return (data, streamLength s, s)

end RtcCore.L1.Isac
