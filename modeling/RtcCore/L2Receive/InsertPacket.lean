import RtcCore.L2Receive.DtmfBuffer
import RtcCore.L2Receive.PacketBuffer
import RtcCore.L2Receive.SplitAudio

/-!
# `NetEqImpl::InsertPacketInternal`

The way of a packet into NetEq: the checks for a sync packet, the new start on
another SSRC, the blocks of RED, the payload types, the timestamps, the DTMF
events, FEC, the pieces, the packet buffer. What NetEq counts and adapts behind
that (the RTCP statistics, the delay manager, the sample rate) is left out. The
codecs are a parameter.

Results:
- `insertPacketInternal_rejects`: what an error leaves of the packet buffer, the DTMF
  buffer, the SSRC and the payload type.
-/
namespace RtcCore.L2.NetEq

open L1

/-! ## The stages -/

/-- What `SplitFec` asks a decoder. -/
structure AudioDecoder where
  packetHasFec : Bytes → Bool := fun _ => false
  packetDurationRedundant : Bytes → Int := fun _ => 0

/-- Redundant payloads of another type than the main one are discarded.
mirrors webrtc/modules/audio_coding/neteq/payload_splitter.cc:186-216 -/
def checkRedPayloads (db : DecoderDatabase) (mainPayloadType : Option UInt8) :
    List Packet → List Packet
  | [] => []
  | packet :: packetList =>
    let payloadType := packet.header.payloadType
    if !db.isDtmf payloadType && !db.isComfortNoise payloadType then
      if mainPayloadType.all (· = payloadType) then
        packet :: checkRedPayloads db (some payloadType) packetList
      else checkRedPayloads db mainPayloadType packetList
    else packet :: checkRedPayloads db mainPayloadType packetList

/-- mirrors webrtc/modules/audio_coding/neteq/timestamp_scaler.h:57-61 -/
structure TimestampScaler where
  firstPacketReceived : Bool := false
  numerator : Int32 := 1
  denominator : Int32 := 1
  externalRef : UInt32 := 0
  internalRef : UInt32 := 0
  deriving DecidableEq, Repr

namespace TimestampScaler

def reset (s : TimestampScaler) : TimestampScaler := { s with firstPacketReceived := false }

/-- mirrors webrtc/modules/audio_coding/neteq/timestamp_scaler.cc:42-73 -/
def setFactors (s : TimestampScaler) : NetEqDecoder → TimestampScaler
  | .g722 | .g7222ch => { s with numerator := 2, denominator := 1 }
  | .isacFb | .cngSwb48kHz => { s with numerator := 2, denominator := 3 }
  | .avt | .cngNb | .cngWb | .cngSwb32kHz => s
  | _ => { s with numerator := 1, denominator := 1 }

/-- mirrors webrtc/modules/audio_coding/neteq/timestamp_scaler.cc:34-93 -/
def toInternal (db : DecoderDatabase) (s : TimestampScaler) (externalTimestamp : UInt32)
    (payloadType : UInt8) : UInt32 × TimestampScaler :=
  match db payloadType with
  | none => (externalTimestamp, s)
  | some info =>
    let s := s.setFactors info.codecType
    if s.numerator = 1 ∧ s.denominator = 1 then (externalTimestamp, s)
    else
      let s := if s.firstPacketReceived then s else
        { s with
          externalRef := externalTimestamp
          internalRef := externalTimestamp
          firstPacketReceived := true }
      let externalDiff := (externalTimestamp - s.externalRef).toInt32
      let internalRef := s.internalRef + (externalDiff * s.numerator / s.denominator).toUInt32
      (internalRef, { s with externalRef := externalTimestamp, internalRef := internalRef })

/-- mirrors webrtc/modules/audio_coding/neteq/timestamp_scaler.cc:27-32 -/
def toInternalList (db : DecoderDatabase) :
    TimestampScaler → List Packet → List Packet × TimestampScaler
  | s, [] => ([], s)
  | s, packet :: packetList =>
    let (timestamp, s) := s.toInternal db packet.header.timestamp packet.header.payloadType
    (toInternalList db s packetList).map
      ({ packet with header := { packet.header with timestamp := timestamp } } :: ·) id

end TimestampScaler

/-- mirrors webrtc/modules/audio_coding/neteq/interface/neteq.h:98-124 -/
inductive ErrorCode where
  | noError
  | otherError
  | invalidRtpPayloadType
  | unknownRtpPayloadType
  | codecNotSupported
  | decoderExists
  | decoderNotFound
  | invalidSampleRate
  | invalidPointer
  | accelerateError
  | preemptiveExpandError
  | comfortNoiseErrorCode
  | decoderErrorCode
  | otherDecoderError
  | invalidOperation
  | dtmfParameterError
  | dtmfParsingError
  | dtmfInsertError
  | stereoNotSupported
  | sampleUnderrun
  | decodedTooMuch
  | frameSplitError
  | redundancySplitError
  | packetBufferCorruption
  | syncPacketNotAccepted
  deriving DecidableEq, Repr

/-- The DTMF payloads go to the DTMF buffer, up to the first one that is refused; the others
are left.
mirrors webrtc/modules/audio_coding/neteq/neteq_impl.cc:522-555 -/
def insertDtmf (db : DecoderDatabase) : List Packet → DtmfBuffer →
    Except ErrorCode (List Packet) × DtmfBuffer
  | [], dtmf => (.ok [], dtmf)
  | packet :: packetList, dtmf =>
    if db.isDtmf packet.header.payloadType then
      match DtmfBuffer.parseEvent packet.header.timestamp packet.payload with
      | .error _ => (.error .dtmfParsingError, dtmf)
      | .ok event =>
        match dtmf.insertEvent event with
        | (.ok, dtmf) => insertDtmf db packetList dtmf
        | (_, dtmf) => (.error .dtmfInsertError, dtmf)
    else (insertDtmf db packetList dtmf).map (Except.map (packet :: ·)) id

/-- No value where a decoder that is asserted is missing.
mirrors webrtc/modules/audio_coding/neteq/payload_splitter.cc:122-182 -/
def splitFec (db : DecoderDatabase) (getDecoder : UInt8 → Option AudioDecoder) :
    List Packet → Option (SplitterReturnCode × List Packet)
  | [] => some (.ok, [])
  | packet :: packetList =>
    match db packet.header.payloadType with
    | none => some (.unknownPayloadType, packet :: packetList)
    | some info =>
      if packet.syncPacket then
        (splitFec db getDecoder packetList).map (Prod.map id (packet :: ·))
      else
        (getDecoder packet.header.payloadType).bind fun decoder =>
          if !decoder.packetHasFec packet.payload then
            (splitFec db getDecoder packetList).map (Prod.map id (packet :: ·))
          else if info.codecType = .opus ∨ info.codecType = .opus2ch then
            let duration := decoder.packetDurationRedundant packet.payload
            let newPacket : Packet :=
              { packet with
                header := { packet.header with
                  timestamp := packet.header.timestamp - .ofInt duration }
                primary := false }
            (splitFec db getDecoder packetList).map
              (Prod.map id fun rest => newPacket :: { packet with primary := true } :: rest)
          else some (.fecSplitError, packet :: packetList)

/-! ## The call -/

/-- mirrors webrtc/modules/audio_coding/neteq/neteq_impl.h:344-389 -/
structure NetEqImpl where
  packetBuffer : PacketBuffer
  dtmfBuffer : DtmfBuffer
  timestampScaler : TimestampScaler := {}
  newCodec : Bool := false
  timestamp : UInt32 := 0
  currentRtpPayloadType : UInt8 := 0xFF
  currentCngRtpPayloadType : UInt8 := 0xFF
  ssrc : UInt32 := 0
  firstPacket : Bool := true
  deriving DecidableEq, Repr

namespace NetEqImpl

/-- The codecs registered, and the rounds that the loops of `SplitAudio` get. -/
structure Codecs where
  db : DecoderDatabase
  getDecoder : UInt8 → Option AudioDecoder
  fuel : Nat

/-- mirrors webrtc/modules/audio_coding/neteq/neteq_impl.cc:413-431 -/
def refusesSync (codecs : Codecs) (s : NetEqImpl) (header : RTPHeader) : Bool :=
  codecs.db.isDtmf header.payloadType || codecs.db.isRed header.payloadType ||
    codecs.db.isComfortNoise header.payloadType || s.firstPacket ||
    header.payloadType ≠ s.currentRtpPayloadType || header.ssrc ≠ s.ssrc

/-- mirrors webrtc/modules/audio_coding/neteq/neteq_impl.cc:436-456 -/
def toPacket (header : RTPHeader) (payload : Bytes) (isSyncPacket : Bool) : Packet where
  header :=
    { payloadType := header.payloadType
      sequenceNumber := header.sequenceNumber
      timestamp := header.timestamp
      ssrc := header.ssrc }
  payload := payload
  syncPacket := isSyncPacket

/-- A new start, on another SSRC or for the first packet.
mirrors webrtc/modules/audio_coding/neteq/neteq_impl.cc:464-489 -/
def reinitialize (s : NetEqImpl) (header : RTPHeader) : NetEqImpl :=
  if header.ssrc ≠ s.ssrc ∨ s.firstPacket then
    { s with
      packetBuffer := s.packetBuffer.flush
      dtmfBuffer := { s.dtmfBuffer with buffer := [] }
      ssrc := header.ssrc
      timestamp := header.timestamp
      currentRtpPayloadType := header.payloadType
      timestampScaler := s.timestampScaler.reset }
  else s

/-- mirrors webrtc/modules/audio_coding/neteq/neteq_impl.cc:495-509 -/
def separateRed (codecs : Codecs) (packet : Packet) : Option (Except ErrorCode (List Packet)) :=
  if codecs.db.isRed packet.header.payloadType then
    (splitRed [packet]).map fun (ret, packetList) =>
      if ret = .ok then .ok (checkRedPayloads codecs.db none packetList)
      else .error .redundancySplitError
  else some (.ok [packet])

/-- mirrors webrtc/modules/audio_coding/neteq/neteq_impl.cc:602-626 -/
def insertInBuffer (codecs : Codecs) (s : NetEqImpl) (packetList : List Packet) :
    ErrorCode × NetEqImpl :=
  let (ret, rtp, cng, packetBuffer) := s.packetBuffer.insertPacketList codecs.db
    (packetList.map fun packet => { packet }) s.currentRtpPayloadType s.currentCngRtpPayloadType
  let s := { s with
    packetBuffer := packetBuffer
    currentRtpPayloadType := rtp
    currentCngRtpPayloadType := cng }
  match ret with
  | .ok => (.noError, { s with newCodec := s.newCodec || s.firstPacket, firstPacket := false })
  | .flushed => (.noError, { s with newCodec := true, firstPacket := false })
  | _ => (.otherError, s)

/-- The payloads without DTMF, split and inserted.
mirrors webrtc/modules/audio_coding/neteq/neteq_impl.cc:556-626 -/
def splitAndInsert (codecs : Codecs) (s : NetEqImpl) (packetList : List Packet) :
    Option (ErrorCode × NetEqImpl) :=
  (splitFec codecs.db codecs.getDecoder packetList).bind fun (ret, packetList) =>
    match ret with
    | .ok =>
      (splitAudio codecs.fuel codecs.db packetList).map fun (ret, packetList) =>
        match ret with
        | .ok => s.insertInBuffer codecs packetList
        | .unknownPayloadType => (.unknownRtpPayloadType, s)
        | .frameSplitError => (.frameSplitError, s)
        | _ => (.otherError, s)
    | .unknownPayloadType => some (.unknownRtpPayloadType, s)
    | _ => some (.otherError, s)

/-- mirrors webrtc/modules/audio_coding/neteq/neteq_impl.cc:511-626 -/
def insertPayloads (codecs : Codecs) (s : NetEqImpl) (packetList : List Packet) :
    Option (ErrorCode × NetEqImpl) :=
  if !codecs.db.checkPayloadTypes packetList then some (.unknownRtpPayloadType, s)
  else
    let (packetList, timestampScaler) := s.timestampScaler.toInternalList codecs.db packetList
    let (ret, dtmfBuffer) := insertDtmf codecs.db packetList s.dtmfBuffer
    let s := { s with timestampScaler := timestampScaler, dtmfBuffer := dtmfBuffer }
    match ret with
    | .error error => some (error, s)
    | .ok packetList => s.splitAndInsert codecs packetList

/-- The payload is `none` for a null pointer. No value where a RED header is read outside of
the payload, an assertion fails or a loop does not end.
mirrors webrtc/modules/audio_coding/neteq/neteq_impl.cc:404-684 -/
def insertPacketInternal (codecs : Codecs) (s : NetEqImpl) (header : RTPHeader)
    (payload : Option Bytes) (isSyncPacket : Bool) : Option (ErrorCode × NetEqImpl) :=
  match payload with
  | none => some (.invalidPointer, s)
  | some payload =>
    if isSyncPacket && s.refusesSync codecs header then some (.syncPacketNotAccepted, s)
    else
      let s := s.reinitialize header
      (separateRed codecs (toPacket header payload isSyncPacket)).bind fun packetList =>
        match packetList with
        | .error error => some (error, s)
        | .ok packetList => s.insertPayloads codecs packetList

end NetEqImpl

/-! ## The stages by themselves -/

/-- The events of the DTMF payloads before the first one that is refused. -/
def acceptedEvents (db : DecoderDatabase) : List Packet → List DtmfEvent
  | [] => []
  | packet :: packetList =>
    if db.isDtmf packet.header.payloadType then
      match DtmfBuffer.parseEvent packet.header.timestamp packet.payload with
      | .error _ => []
      | .ok event =>
        if DtmfBuffer.invalidParameters event then [] else event :: acceptedEvents db packetList
    else acceptedEvents db packetList

def DtmfBuffer.insertEvents (b : DtmfBuffer) (events : List DtmfEvent) : DtmfBuffer :=
  events.foldl (fun b event => (b.insertEvent event).2) b

theorem DtmfBuffer.insertEvent_fst (b : DtmfBuffer) (event : DtmfEvent) :
    (b.insertEvent event).1 =
      if invalidParameters event then .invalidEventParameters else .ok := by
  unfold insertEvent
  split
  · rfl
  · split
    · rfl
    · rfl

theorem insertDtmf_spec (db : DecoderDatabase) (packetList : List Packet) (dtmf : DtmfBuffer) :
    (insertDtmf db packetList dtmf).2 = dtmf.insertEvents (acceptedEvents db packetList) ∧
      ((∃ left, (insertDtmf db packetList dtmf).1 = .ok left ∧ left.Sublist packetList) ∨
        (insertDtmf db packetList dtmf).1 = .error .dtmfParsingError ∨
        (insertDtmf db packetList dtmf).1 = .error .dtmfInsertError) := by
  induction packetList generalizing dtmf with
  | nil => exact ⟨rfl, .inl ⟨[], rfl, .slnil⟩⟩
  | cons packet packetList ih =>
    cases hdtmf : db.isDtmf packet.header.payloadType with
    | false =>
      obtain ⟨hsnd, hfst⟩ := ih dtmf
      simp only [insertDtmf, acceptedEvents, hdtmf, Bool.false_eq_true, if_false, Prod.map]
      refine ⟨hsnd, ?_⟩
      rcases hfst with ⟨left, hleft, hsub⟩ | herr | herr
      · rw [hleft]
        exact .inl ⟨_, rfl, hsub.cons_cons packet⟩
      · rw [herr]
        exact .inr (.inl rfl)
      · rw [herr]
        exact .inr (.inr rfl)
    | true =>
      simp only [insertDtmf, acceptedEvents, hdtmf, if_true]
      cases DtmfBuffer.parseEvent packet.header.timestamp packet.payload with
      | error _ => exact ⟨rfl, .inr (.inl rfl)⟩
      | ok event =>
        have hcode := dtmf.insertEvent_fst event
        cases hbad : DtmfBuffer.invalidParameters event with
        | true =>
          have hkeep : dtmf.insertEvent event = (.invalidEventParameters, dtmf) := by
            rw [DtmfBuffer.insertEvent, if_pos hbad]
          simp only [hkeep, hbad, if_true]
          exact ⟨rfl, .inr (.inr trivial)⟩
        | false =>
          rw [hbad, if_neg Bool.false_ne_true] at hcode
          rcases hins : dtmf.insertEvent event with ⟨code, dtmf'⟩
          rw [hins] at hcode
          subst hcode
          obtain ⟨hsnd, hfst⟩ := ih dtmf'
          simp only [hins, hbad, Bool.false_eq_true, if_false]
          refine ⟨?_, ?_⟩
          · rw [hsnd, DtmfBuffer.insertEvents, DtmfBuffer.insertEvents, List.foldl_cons, hins]
          · rcases hfst with ⟨left, hleft, hsub⟩ | herr
            · exact .inl ⟨left, hleft, hsub.cons packet⟩
            · exact .inr herr

/-- Every packet's type is known. -/
def Known (db : DecoderDatabase) (packetList : List Packet) : Prop :=
  ∀ packet ∈ packetList, (db packet.header.payloadType).isSome = true

theorem splitFec_known {db : DecoderDatabase} {getDecoder : UInt8 → Option AudioDecoder}
    {packetList out : List Packet} {ret : SplitterReturnCode} (h : Known db packetList)
    (hs : splitFec db getDecoder packetList = some (ret, out)) :
    ret ≠ .unknownPayloadType ∧ Known db out := by
  induction packetList generalizing out ret with
  | nil =>
    cases hs
    exact ⟨by decide, h⟩
  | cons packet packetList ih =>
    obtain ⟨hp, hl⟩ := List.forall_mem_cons.1 h
    obtain ⟨info, hinfo⟩ := Option.isSome_iff_exists.1 hp
    have hkeep : ∀ front : List Packet, Known db front →
        (splitFec db getDecoder packetList).map (Prod.map id (front ++ ·)) = some (ret, out) →
        ret ≠ .unknownPayloadType ∧ Known db out := by
      intro front hfront heq
      obtain ⟨⟨ret', out'⟩, h1, h2⟩ := Option.map_eq_some_iff.1 heq
      obtain ⟨hne, hout⟩ := ih hl h1
      cases h2
      refine ⟨hne, fun q hq => ?_⟩
      rcases List.mem_append.1 hq with hq | hq
      · exact hfront q hq
      · exact hout q hq
    simp only [splitFec, hinfo] at hs
    split at hs
    · exact hkeep [packet] (by simpa [Known] using hp) hs
    · obtain ⟨decoder, -, hs⟩ := Option.bind_eq_some_iff.1 hs
      split at hs
      · exact hkeep [packet] (by simpa [Known] using hp) hs
      · split at hs
        · exact hkeep [_, _] (by simpa [Known] using hp) hs
        · cases hs
          exact ⟨by decide, h⟩

theorem ilbcFrame_error {length : Nat} {code : SplitterReturnCode}
    (h : ilbcFrame length = .error code) : code ≠ .unknownPayloadType := by
  unfold ilbcFrame at h
  rintro rfl
  split at h
  · cases h
  · split at h
    · cases h
    · split at h
      · cases h
      · cases h

theorem splitPacket_known {fuel : Nat} {db : DecoderDatabase} {packet : Packet}
    {code : SplitterReturnCode} (h : (db packet.header.payloadType).isSome = true)
    (hs : splitPacket fuel db packet = some (.error code)) : code ≠ .unknownPayloadType := by
  obtain ⟨info, hinfo⟩ := Option.isSome_iff_exists.1 h
  simp only [splitPacket, hinfo] at hs
  split at hs
  · cases hs
  · split at hs
    · obtain ⟨_, -, hc⟩ := Option.map_eq_some_iff.1 hs
      cases hc
    · split at hs
      · split at hs
        · rename_i hf
          cases hs
          exact ilbcFrame_error hf
        · unfold splitByFrames at hs
          split at hs
          · cases hs
          · cases hs
          · rename_i heq
            cases hs
            split at heq
            · cases heq
              decide
            · split at heq
              · cases heq
                decide
              · cases heq
                decide
      · cases hs

theorem splitAudio_known {fuel : Nat} {db : DecoderDatabase} {packetList out : List Packet}
    {ret : SplitterReturnCode} (h : Known db packetList)
    (hs : splitAudio fuel db packetList = some (ret, out)) : ret ≠ .unknownPayloadType := by
  induction packetList generalizing out ret with
  | nil =>
    cases hs
    decide
  | cons packet packetList ih =>
    obtain ⟨hp, hl⟩ := List.forall_mem_cons.1 h
    obtain ⟨split, hsplit, hs⟩ := Option.bind_eq_some_iff.1 hs
    cases split with
    | error code =>
      cases hs
      exact splitPacket_known hp hsplit
    | ok newPackets =>
      obtain ⟨⟨ret', out'⟩, h1, h2⟩ := Option.map_eq_some_iff.1 hs
      cases h2
      exact ih hl h1

namespace PacketBuffer

theorem insertPacket_code (b : PacketBuffer) (packet : Packet) :
    (b.insertPacket (some packet)).1 = .ok ∨ (b.insertPacket (some packet)).1 = .flushed := by
  simp only [insertPacket]
  split
  · exact .inr rfl
  · exact .inl rfl

/-- A list whose packets have payloads is inserted. -/
theorem insertPacketList_code (b : PacketBuffer) (db : DecoderDatabase) (packetList : List Packet)
    (rtp cng : UInt8) :
    (b.insertPacketList db (packetList.map fun packet => { packet }) rtp cng).1 = .ok ∨
      (b.insertPacketList db (packetList.map fun packet => { packet }) rtp cng).1 = .flushed := by
  have hlist : ∀ (flushed : Bool) (rtp cng : UInt8) (b : PacketBuffer),
      (insertList flush insertPacket db flushed (packetList.map fun packet => { packet })
        rtp cng b).1 = .ok ∨
      (insertList flush insertPacket db flushed (packetList.map fun packet => { packet })
        rtp cng b).1 = .flushed := by
    induction packetList with
    | nil =>
      intro flushed rtp cng b
      cases flushed with
      | false => exact .inl rfl
      | true => exact .inr rfl
    | cons packet packetList ih =>
      intro flushed rtp cng b
      rcases hcur : currentPayloadTypes db rtp cng packet.header.payloadType
        with ⟨rtp', cng', change⟩
      have hcode := insertPacket_code (if change then flush b else b) packet
      rcases hins : insertPacket (if change then flush b else b) (some packet) with ⟨ret, b'⟩
      rw [hins] at hcode
      simp only [List.map_cons, insertList, hcur, Incoming.usable, if_true, hins]
      rcases hcode with rfl | rfl
      · exact ih _ _ _ _
      · exact ih _ _ _ _
  exact hlist false rtp cng b

end PacketBuffer

namespace NetEqImpl

/-! ## What an error leaves -/

/-- The packet buffer, the SSRC and the payload type of `base`, and its DTMF buffer with
`events`. -/
structure Leaves (base s : NetEqImpl) (events : List DtmfEvent) : Prop where
  packetBuffer : s.packetBuffer = base.packetBuffer
  dtmfBuffer : s.dtmfBuffer = base.dtmfBuffer.insertEvents events
  ssrc : s.ssrc = base.ssrc
  currentRtpPayloadType : s.currentRtpPayloadType = base.currentRtpPayloadType

theorem insertInBuffer_accepts (codecs : Codecs) (s : NetEqImpl) (packetList : List Packet) :
    (s.insertInBuffer codecs packetList).1 = .noError := by
  have hcode := s.packetBuffer.insertPacketList_code codecs.db packetList
    s.currentRtpPayloadType s.currentCngRtpPayloadType
  unfold insertInBuffer
  rcases hins : s.packetBuffer.insertPacketList codecs.db (packetList.map fun packet => { packet })
    s.currentRtpPayloadType s.currentCngRtpPayloadType with ⟨ret, rtp, cng, packetBuffer⟩
  rw [hins] at hcode
  dsimp only at hcode
  rcases hcode with rfl | rfl
  · rfl
  · rfl

theorem splitAndInsert_rejects {codecs : Codecs} {s s' : NetEqImpl} {packetList : List Packet}
    {error : ErrorCode} (hknown : Known codecs.db packetList)
    (h : s.splitAndInsert codecs packetList = some (error, s')) (he : error ≠ .noError) :
    (error = .frameSplitError ∨ error = .otherError) ∧ s' = s := by
  obtain ⟨⟨ret, left⟩, hfec, h⟩ := Option.bind_eq_some_iff.1 h
  obtain ⟨hne, hleft⟩ := splitFec_known hknown hfec
  dsimp only at h
  split at h
  · obtain ⟨⟨ret, pieces⟩, haudio, h⟩ := Option.map_eq_some_iff.1 h
    have hne := splitAudio_known hleft haudio
    dsimp only at h
    split at h
    · have := s.insertInBuffer_accepts codecs pieces
      rw [h] at this
      exact absurd this he
    · exact absurd rfl hne
    · cases h
      exact ⟨.inl rfl, rfl⟩
    · cases h
      exact ⟨.inr rfl, rfl⟩
  · exact absurd rfl hne
  · cases h
    exact ⟨.inr rfl, rfl⟩

theorem toInternalList_types (db : DecoderDatabase) (scaler : TimestampScaler)
    (packetList : List Packet) :
    (scaler.toInternalList db packetList).1.map (·.header.payloadType) =
      packetList.map (·.header.payloadType) := by
  induction packetList generalizing scaler with
  | nil => rfl
  | cons packet packetList ih =>
    simp only [TimestampScaler.toInternalList, Prod.map, List.map_cons, ih]

theorem known_iff {db : DecoderDatabase} {packetList : List Packet} :
    Known db packetList ↔
      ∀ payloadType ∈ packetList.map (·.header.payloadType), (db payloadType).isSome = true := by
  simp only [Known, List.forall_mem_map]

/-- Behind RED only payload types that are not known leave the DTMF buffer alone. -/
theorem insertPayloads_rejects {codecs : Codecs} {s s' : NetEqImpl} {packetList : List Packet}
    {error : ErrorCode} (h : s.insertPayloads codecs packetList = some (error, s'))
    (he : error ≠ .noError) :
    (error = .unknownRtpPayloadType ∧ s' = s) ∨
    ((error = .dtmfParsingError ∨ error = .dtmfInsertError ∨ error = .frameSplitError ∨
        error = .otherError) ∧
      s.Leaves s' (acceptedEvents codecs.db
        (s.timestampScaler.toInternalList codecs.db packetList).1)) := by
  unfold insertPayloads at h
  split at h
  · cases h
    exact .inl ⟨rfl, rfl⟩
  · rename_i hcheck
    refine .inr ?_
    rcases hscale : s.timestampScaler.toInternalList codecs.db packetList with ⟨scaled, scaler⟩
    obtain ⟨hdtmf, hret⟩ := insertDtmf_spec codecs.db scaled s.dtmfBuffer
    rcases hins : insertDtmf codecs.db scaled s.dtmfBuffer with ⟨ret, dtmf⟩
    rw [hins] at hdtmf hret
    simp only [hscale, hins] at h hdtmf hret
    rcases hret with ⟨left, rfl, hsub⟩ | rfl | rfl
    · have hknown : Known codecs.db packetList := by
        simpa [DecoderDatabase.checkPayloadTypes, Known, Option.isSome_iff_ne_none] using hcheck
      have hscaled : Known codecs.db scaled := by
        have htypes := toInternalList_types codecs.db s.timestampScaler packetList
        rw [hscale] at htypes
        rw [known_iff, htypes]
        exact known_iff.1 hknown
      have hleft : Known codecs.db left := fun packet hp => hscaled packet (hsub.subset hp)
      obtain ⟨hcode, rfl⟩ := splitAndInsert_rejects hleft h he
      exact ⟨.inr (.inr hcode), ⟨rfl, hdtmf, rfl, rfl⟩⟩
    · cases h
      exact ⟨.inl rfl, ⟨rfl, hdtmf, rfl, rfl⟩⟩
    · cases h
      exact ⟨.inr (.inl rfl), ⟨rfl, hdtmf, rfl, rfl⟩⟩

/-- A packet refused before the new start changes nothing. Behind it an error leaves the packet
buffer, the SSRC and the payload type as `reinitialize` made them, which changes nothing on the
same SSRC; and so the DTMF buffer, where the RED payload or a payload type is at fault. Any other
error comes after the events of the DTMF payloads in front of it were inserted. -/
theorem insertPacketInternal_rejects {codecs : Codecs} {s s' : NetEqImpl} {header : RTPHeader}
    {payload : Option Bytes} {isSyncPacket : Bool} {error : ErrorCode}
    (h : s.insertPacketInternal codecs header payload isSyncPacket = some (error, s'))
    (he : error ≠ .noError) :
    ((error = .invalidPointer ∨ error = .syncPacketNotAccepted) ∧ s' = s) ∨
    ((error = .redundancySplitError ∨ error = .unknownRtpPayloadType) ∧
      s' = s.reinitialize header) ∨
    ((error = .dtmfParsingError ∨ error = .dtmfInsertError ∨ error = .frameSplitError ∨
        error = .otherError) ∧
      ∃ octets packetList, payload = some octets ∧
        separateRed codecs (toPacket header octets isSyncPacket) = some (.ok packetList) ∧
        (s.reinitialize header).Leaves s' (acceptedEvents codecs.db
          ((s.reinitialize header).timestampScaler.toInternalList codecs.db packetList).1)) := by
  cases payload with
  | none =>
    cases h
    exact .inl ⟨.inl rfl, rfl⟩
  | some octets =>
    simp only [insertPacketInternal] at h
    split at h
    · cases h
      exact .inl ⟨.inr rfl, rfl⟩
    · refine .inr ?_
      obtain ⟨separated, hsep, h⟩ := Option.bind_eq_some_iff.1 h
      cases separated with
      | error code =>
        cases h
        refine .inl ⟨.inl ?_, rfl⟩
        unfold separateRed at hsep
        split at hsep
        · obtain ⟨⟨ret, packetList⟩, -, hcode⟩ := Option.map_eq_some_iff.1 hsep
          dsimp only at hcode
          split at hcode
          · cases hcode
          · cases hcode
            rfl
        · cases hsep
      | ok packetList =>
        rcases insertPayloads_rejects h he with ⟨hcode, hs⟩ | ⟨hcode, hs⟩
        · exact .inl ⟨.inr hcode, hs⟩
        · exact .inr ⟨hcode, octets, packetList, rfl, hsep, hs⟩

/-- PCMU as 0, DTMF as 101, RED as 127. -/
def fewCodecs : Codecs where
  db payloadType :=
    if payloadType = 0 then some { codecType := .pcmu }
    else if payloadType = 101 then some { codecType := .avt }
    else if payloadType = 127 then some { codecType := .red }
    else none
  getDecoder _ := some {}
  fuel := 100

/-- A packet of SSRC 1 is queued. -/
def queued : NetEqImpl where
  packetBuffer :=
    { maxNumberOfPackets := 50
      buffer := [{ header := { ssrc := 1 }, payload := [0] }] }
  dtmfBuffer := { maxExtrapolationSamples := 560, frameLenSamples := 80 }
  currentRtpPayloadType := 0
  ssrc := 1
  firstPacket := false

/-- A redundant DTMF event of one octet, behind a primary one that is whole. -/
def shortEvent : Bytes := [0x80 ||| 101, 2, 128, 1, 101, 0, 1, 10, 3, 232]

set_option maxRecDepth 4000 in
theorem insertPacketInternal_rejects_short : ∃ s',
    queued.insertPacketInternal fewCodecs { payloadType := 127, ssrc := 1 } (some shortEvent)
      false = some (.dtmfParsingError, s') ∧
    ∃ octets packetList, some shortEvent = some octets ∧
      separateRed fewCodecs (toPacket { payloadType := 127, ssrc := 1 } octets false) =
        some (.ok packetList) ∧
      queued.Leaves s' (acceptedEvents fewCodecs.db
        (queued.timestampScaler.toInternalList fewCodecs.db packetList).1) := by
  have hrun : (queued.insertPacketInternal fewCodecs { payloadType := 127, ssrc := 1 }
      (some shortEvent) false).map Prod.fst = some .dtmfParsingError := by decide
  obtain ⟨⟨error, s'⟩, hrun, herr⟩ := Option.map_eq_some_iff.1 hrun
  cases herr
  refine ⟨s', hrun, ?_⟩
  rcases insertPacketInternal_rejects hrun (by decide) with ⟨hcode, -⟩ | ⟨hcode, -⟩ | ⟨-, h⟩
  · exact absurd hcode (by decide)
  · exact absurd hcode (by decide)
  · exact h

set_option maxRecDepth 4000 in
/-- A packet of another SSRC whose type is not known empties the queue, and the payload of a
refused DTMF event comes behind one that was inserted. -/
theorem rejected_but_changed :
    ((queued.insertPacketInternal fewCodecs { payloadType := 99, ssrc := 2 } (some [0]) false).map
        fun r => (r.1, r.2.packetBuffer.buffer, r.2.ssrc, r.2.currentRtpPayloadType)) =
      some (.unknownRtpPayloadType, [], 2, 99) ∧
    queued.packetBuffer.buffer ≠ [] ∧ queued.ssrc ≠ 2 ∧ queued.currentRtpPayloadType ≠ 99 ∧
    ((queued.insertPacketInternal fewCodecs { payloadType := 127, ssrc := 1 } (some shortEvent)
        false).map fun r => (r.1, r.2.dtmfBuffer.buffer.length)) = some (.dtmfParsingError, 1) ∧
    queued.dtmfBuffer.buffer.length = 0 := by
  decide

end NetEqImpl

end RtcCore.L2.NetEq
