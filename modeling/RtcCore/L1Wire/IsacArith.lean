/-!
# The arithmetic coder of iSAC

`WebRtcIsacfix_EncHistMulti`, `WebRtcIsacfix_EncTerminate` and the two decoders,
on the words of the bit stream. The local copies the functions take of
`W_upper`, `streamval` and of the place in the stream are kept in the records.
Every access to the stream or to a table is checked: one outside the array is
`Failure.undefined`, a negative return is `Failure.code`.
-/
namespace RtcCore.L1.Isac

/-- mirrors webrtc/modules/audio_coding/codecs/isac/fix/source/settings.h:98 -/
def STREAM_MAXW16_60MS : Nat := 200

/-- mirrors webrtc/modules/audio_coding/codecs/isac/fix/source/settings.h:96-108 -/
def INTERNAL_STREAM_SIZE_W16 : Nat := 305

/-- mirrors webrtc/modules/audio_coding/codecs/isac/fix/source/settings.h:197 -/
def ISAC_DISALLOWED_BITSTREAM_LENGTH : Int := 6440

inductive Failure where
  | code (c : Int)
  | undefined
  deriving DecidableEq, Repr

instance decidableEqResult {α : Type} [DecidableEq α] : DecidableEq (Except Failure α)
  | .ok a, .ok b => decidable_of_iff (a = b) ⟨congrArg _, Except.ok.inj⟩
  | .error a, .error b => decidable_of_iff (a = b) ⟨congrArg _, Except.error.inj⟩
  | .ok _, .error _ => isFalse nofun
  | .error _, .ok _ => isFalse nofun

/-- `full` is false when the first octet of the word at `streamIndex` is filled.
mirrors webrtc/modules/audio_coding/codecs/isac/fix/source/structs.h:40-49 -/
structure BitstrEnc where
  stream : List UInt16
  wUpper : UInt32 := 0xFFFFFFFF
  streamval : UInt32 := 0
  streamIndex : Nat := 0
  full : Bool := true
  deriving DecidableEq, Repr

/-- mirrors webrtc/modules/audio_coding/codecs/isac/fix/source/structs.h:27-37 -/
structure BitstrDec where
  stream : List UInt16
  wUpper : UInt32 := 0xFFFFFFFF
  streamval : UInt32 := 0
  streamIndex : Nat := 0
  full : Bool := true
  deriving DecidableEq, Repr

def load (ws : List UInt16) (i : Nat) : Except Failure UInt16 :=
  match ws[i]? with
  | some w => .ok w
  | none => .error .undefined

def store (ws : List UInt16) (i : Nat) (w : UInt16) : Except Failure (List UInt16) :=
  if i < ws.length then .ok (ws.set i w) else .error .undefined

/-- The product of an interval and a table entry, in 16-bit halves.
mirrors webrtc/modules/audio_coding/codecs/isac/fix/source/arith_routines_hist.c:65-71 -/
def scale (wUpper : UInt32) (cdf : UInt16) : UInt32 :=
  let wUpperLSB := wUpper &&& 0x0000FFFF
  let wUpperMSB := wUpper >>> 16
  wUpperMSB * cdf.toUInt32 + ((wUpperLSB * cdf.toUInt32) >>> 16)

/-! ## The encoder -/

/-- `while ( !(++(*--streamPtr)) );`.
mirrors webrtc/modules/audio_coding/codecs/isac/fix/source/arith_routines_hist.c:94 -/
def carryBack (stream : List UInt16) : Nat → Except Failure (List UInt16)
  | 0 => .error .undefined
  | streamPtr + 1 => do
    let w ← load stream streamPtr
    let stream ← store stream streamPtr (w + 1)
    if w + 1 = 0 then carryBack stream streamPtr else return stream

/-- mirrors webrtc/modules/audio_coding/codecs/isac/fix/source/arith_routines_hist.c:81-96,
arith_routines.c:51-70, 89-106 -/
def propagateCarry (full : Bool) (stream : List UInt16) (streamPtr : Nat) :
    Except Failure (List UInt16) := do
  if full then carryBack stream streamPtr
  else
    let w ← load stream streamPtr
    let negCarry := w + 0x0100
    let stream ← store stream streamPtr negCarry
    if negCarry = 0 then carryBack stream streamPtr else return stream

/-- `streamval += v`, with the carry.
mirrors webrtc/modules/audio_coding/codecs/isac/fix/source/arith_routines_hist.c:76-97 -/
def addToStream (s : BitstrEnc) (v : UInt32) : Except Failure BitstrEnc := do
  let streamval := s.streamval + v
  let stream ←
    if streamval < v then propagateCarry s.full s.stream s.streamIndex else pure s.stream
  return { s with stream, streamval }

/-- One turn of the loop.
mirrors webrtc/modules/audio_coding/codecs/isac/fix/source/arith_routines_hist.c:103-116 -/
def storeByte (s : BitstrEnc) : Except Failure BitstrEnc := do
  let wUpper := s.wUpper <<< 8
  let top := (s.streamval >>> 24).toUInt16
  let streamval := s.streamval <<< 8
  if s.full then
    let stream ← store s.stream s.streamIndex (top <<< 8)
    if STREAM_MAXW16_60MS - 1 < s.streamIndex then
      throw (.code (-ISAC_DISALLOWED_BITSTREAM_LENGTH))
    return { s with stream, wUpper, streamval, full := false }
  else
    let w ← load s.stream s.streamIndex
    let stream ← store s.stream s.streamIndex (w + top)
    if STREAM_MAXW16_60MS - 1 < s.streamIndex + 1 then
      throw (.code (-ISAC_DISALLOWED_BITSTREAM_LENGTH))
    return { s with stream, wUpper, streamval, streamIndex := s.streamIndex + 1, full := true }

/-- The loop has run past the end of the stream when the fuel is gone.
mirrors webrtc/modules/audio_coding/codecs/isac/fix/source/arith_routines_hist.c:99-117 -/
def renormalize : Nat → BitstrEnc → Except Failure BitstrEnc
  | 0, _ => .error .undefined
  | fuel + 1, s =>
    if s.wUpper &&& 0xFF000000 = 0 then do renormalize fuel (← storeByte s) else .ok s

/-- mirrors webrtc/modules/audio_coding/codecs/isac/fix/source/arith_routines_hist.c:60-117 -/
def encSymbol (s : BitstrEnc) (data : Int16) (cdf : List UInt16) : Except Failure BitstrEnc := do
  if data < 0 then throw .undefined
  let cdfLo ← load cdf data.toInt.toNat
  let cdfHi ← load cdf (data.toInt.toNat + 1)
  let wLower := scale s.wUpper cdfLo + 1
  let wUpper := scale s.wUpper cdfHi - wLower
  let s ← addToStream { s with wUpper } wLower
  renormalize (2 * STREAM_MAXW16_60MS + 2) s

/-- A call takes `data[k]` with `cdf[k]`.
mirrors webrtc/modules/audio_coding/codecs/isac/fix/source/arith_routines_hist.c:35-125 -/
def encHistMulti (s : BitstrEnc) (input : List (Int16 × List UInt16)) : Except Failure BitstrEnc :=
  input.foldlM (fun s item => encSymbol s item.1 item.2) s

/-- The number of octets, and the stream.
mirrors webrtc/modules/audio_coding/codecs/isac/fix/source/arith_routines.c:33-122 -/
def encTerminate (s : BitstrEnc) : Except Failure (Nat × List UInt16) := do
  if 0x01FFFFFF < s.wUpper then
    let s ← addToStream s 0x01000000
    if s.full then
      let stream ← store s.stream s.streamIndex ((s.streamval >>> 24).toUInt16 <<< 8)
      return (s.streamIndex * 2 + 1, stream)
    else
      let w ← load s.stream s.streamIndex
      let stream ← store s.stream s.streamIndex (w + (s.streamval >>> 24).toUInt16)
      return ((s.streamIndex + 1) * 2, stream)
  else
    let s ← addToStream s 0x00010000
    if s.full then
      let stream ← store s.stream s.streamIndex (s.streamval >>> 16).toUInt16
      return ((s.streamIndex + 1) * 2, stream)
    else
      let w ← load s.stream s.streamIndex
      let stream ← store s.stream s.streamIndex (w ||| (s.streamval >>> 24).toUInt16)
      let stream ←
        store stream (s.streamIndex + 1) ((s.streamval >>> 8).toUInt16 &&& 0xFF00)
      return ((s.streamIndex + 1) * 2 + 1, stream)

/-! ## The decoders -/

/-- The first call for a stream reads its first two words.
mirrors webrtc/modules/audio_coding/codecs/isac/fix/source/arith_routines_hist.c:179-187, 309-317 -/
def firstWords (s : BitstrDec) : Except Failure BitstrDec := do
  if s.streamIndex = 0 then
    let w0 ← load s.stream 0
    let w1 ← load s.stream 1
    return { s with streamval := (w0.toUInt32 <<< 16) ||| w1.toUInt32, streamIndex := 2 }
  else return s

/-- One turn of the loop.
mirrors webrtc/modules/audio_coding/codecs/isac/fix/source/arith_routines_hist.c:240-249, 378-386 -/
def readByte (s : BitstrDec) : Except Failure BitstrDec := do
  let w ← load s.stream s.streamIndex
  let wUpper := s.wUpper <<< 8
  if s.full then
    return { s with wUpper, streamval := (s.streamval <<< 8) ||| (w >>> 8).toUInt32, full := false }
  else
    return { s with
      wUpper, streamval := (s.streamval <<< 8) ||| (w &&& 0x00FF).toUInt32
      streamIndex := s.streamIndex + 1, full := true }

/-- The loop has run past the end of the stream when the fuel is gone.
mirrors webrtc/modules/audio_coding/codecs/isac/fix/source/arith_routines_hist.c:236-250, 374-387 -/
def decRenormalize : Nat → BitstrDec → Except Failure BitstrDec
  | 0, _ => .error .undefined
  | fuel + 1, s =>
    if s.wUpper &&& 0xFF000000 = 0 then do decRenormalize fuel (← readByte s) else .ok s

/-- mirrors webrtc/modules/audio_coding/codecs/isac/fix/source/arith_routines_hist.c:229-250, 367-387 -/
def shiftInterval (s : BitstrDec) (wLower wUpper : UInt32) : Except Failure BitstrDec :=
  decRenormalize (2 * INTERNAL_STREAM_SIZE_W16 + 2)
    { s with wUpper := wUpper - (wLower + 1), streamval := s.streamval - (wLower + 1) }

/-- mirrors webrtc/modules/audio_coding/codecs/isac/fix/source/arith_routines_hist.c:260-268, 391-400 -/
def streamLength (s : BitstrDec) : Int :=
  (if 0x01FFFFFF < s.wUpper then s.streamIndex * 2 - 3 else s.streamIndex * 2 - 2) +
    if s.full then 0 else 1

/-- What a search finds: the symbol, `W_lower` and `W_upper`. -/
structure Found where
  data : Int
  wLower : UInt32
  wUpper : UInt32
  deriving DecidableEq, Repr

/-- mirrors webrtc/modules/audio_coding/codecs/isac/fix/source/arith_routines_hist.c:332-348 -/
def stepUp (cdf : List UInt16) (wUpper streamval : UInt32) :
    Nat → Nat → UInt32 → Except Failure Found
  | 0, _, _ => .error .undefined
  | fuel + 1, cdfPtr, wTmp => do
    if (← load cdf cdfPtr) = 65535 then throw (.code (-3))
    let wTmp' := scale wUpper (← load cdf (cdfPtr + 1))
    if streamval ≤ wTmp' then return { data := cdfPtr, wLower := wTmp, wUpper := wTmp' }
    else stepUp cdf wUpper streamval fuel (cdfPtr + 1) wTmp'

/-- mirrors webrtc/modules/audio_coding/codecs/isac/fix/source/arith_routines_hist.c:350-365 -/
def stepDown (cdf : List UInt16) (wUpper streamval : UInt32) :
    Nat → UInt32 → Except Failure Found
  | 0, _ => .error (.code (-3))
  | cdfPtr + 1, wTmp => do
    let wTmp' := scale wUpper (← load cdf cdfPtr)
    if wTmp' < streamval then return { data := cdfPtr, wLower := wTmp', wUpper := wTmp }
    else stepDown cdf wUpper streamval cdfPtr wTmp'

/-- mirrors webrtc/modules/audio_coding/codecs/isac/fix/source/arith_routines_hist.c:319-365 -/
def oneStep (s : BitstrDec) (cdf : List UInt16) (initIndex : UInt16) : Except Failure Found := do
  let wTmp := scale s.wUpper (← load cdf initIndex.toNat)
  if wTmp < s.streamval then
    stepUp cdf s.wUpper s.streamval cdf.length initIndex.toNat wTmp
  else stepDown cdf s.wUpper s.streamval initIndex.toNat wTmp

def decOneStepSymbols (s : BitstrDec) :
    List (List UInt16 × UInt16) → Except Failure (List Int16 × BitstrDec)
  | [] => return ([], s)
  | (cdf, initIndex) :: rest => do
    let found ← oneStep s cdf initIndex
    let s ← shiftInterval s found.wLower found.wUpper
    let (data, s) ← decOneStepSymbols s rest
    return (Int16.ofInt found.data :: data, s)

/-- A call takes `cdf[k]` with `initIndex[k]`; the symbols, the return value and the stream.
mirrors webrtc/modules/audio_coding/codecs/isac/fix/source/arith_routines_hist.c:281-402 -/
def decHistOneStepMulti (s : BitstrDec) (input : List (List UInt16 × UInt16)) :
    Except Failure (List Int16 × Int × BitstrDec) := do
  if s.wUpper = 0 then throw (.code (-2))
  let s ← firstWords s
  let (data, s) ← decOneStepSymbols s input
  return (data, streamLength s, s)

/-- mirrors webrtc/modules/audio_coding/codecs/isac/fix/source/arith_routines_hist.c:199-227 -/
def bisect (cdf : List UInt16) (w streamval : UInt32) :
    Nat → Nat → Nat → UInt32 → UInt32 → Except Failure Found
  | 0, _, _, _, _ => .error .undefined
  | fuel + 1, sizeTmp, cdfPtr, wLower, wUpper => do
    let wTmp := scale w (← load cdf cdfPtr)
    let sizeTmp := sizeTmp / 2
    if sizeTmp = 0 then
      if wTmp < streamval then return { data := cdfPtr, wLower := wTmp, wUpper }
      else return { data := cdfPtr - 1, wLower, wUpper := wTmp }
    else if wTmp < streamval then
      bisect cdf w streamval fuel sizeTmp (cdfPtr + sizeTmp) wTmp wUpper
    else if cdfPtr < sizeTmp then throw .undefined
    else bisect cdf w streamval fuel sizeTmp (cdfPtr - sizeTmp) wLower wTmp

/-- `W_lower` keeps its value from one symbol to the next.
mirrors webrtc/modules/audio_coding/codecs/isac/fix/source/arith_routines_hist.c:189-258 -/
def decBisectSymbols (s : BitstrDec) (wLower : UInt32) :
    List (List UInt16 × UInt16) → Except Failure (List Int16 × BitstrDec)
  | [] => return ([], s)
  | (cdf, cdfSize) :: rest => do
    let sizeTmp := cdfSize.toNat / 2
    if sizeTmp = 0 then throw .undefined
    let found ← bisect cdf s.wUpper s.streamval 16 sizeTmp (sizeTmp - 1) wLower s.wUpper
    let s ← shiftInterval s found.wLower found.wUpper
    if s.wUpper = 0 then throw (.code (-2))
    let (data, s) ← decBisectSymbols s (found.wLower + 1) rest
    return (Int16.ofInt found.data :: data, s)

/-- A call takes `cdf[k]` with `cdfSize[k]`; the symbols, the return value and the stream.
mirrors webrtc/modules/audio_coding/codecs/isac/fix/source/arith_routines_hist.c:147-268 -/
def decHistBisectMulti (s : BitstrDec) (input : List (List UInt16 × UInt16)) :
    Except Failure (List Int16 × Int × BitstrDec) := do
  if s.wUpper = 0 then throw (.code (-2))
  let s ← firstWords s
  let (data, s) ← decBisectSymbols s 0 input
  return (data, streamLength s, s)

end RtcCore.L1.Isac
