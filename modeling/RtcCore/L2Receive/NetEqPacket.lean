import RtcCore.L1Wire.RtpHeader

/-!
# Packets and decoders of NetEq

The `Packet` that NetEq's receive side passes along, its order, and the
database that says which decoder a payload type stands for. A packet's
`payload_length` is the length of its payload; `operator<` compares
timestamps, then sequence numbers, both on their circles, then prefers what is
no sync packet, then what is primary.
-/
namespace RtcCore.L2.NetEq

open L1

/-- mirrors webrtc/modules/audio_coding/neteq/packet.h:22-37 -/
structure Packet where
  header : RTPHeader := {}
  payload : Bytes
  primary : Bool := true
  waitingTime : Int := 0
  syncPacket : Bool := false
  deriving DecidableEq, Repr

namespace Packet

/-- `operator<`.
mirrors webrtc/modules/audio_coding/neteq/packet.h:52-76 -/
def lt (a b : Packet) : Bool :=
  if a.header.timestamp = b.header.timestamp then
    if a.header.sequenceNumber = b.header.sequenceNumber then
      if b.syncPacket then true
      else if a.syncPacket then false
      else a.primary && !b.primary
    else (b.header.sequenceNumber - a.header.sequenceNumber).toNat < 0xFFFF / 2
  else (b.header.timestamp - a.header.timestamp).toNat < 0xFFFFFFFF / 2

/-- `operator>=`.
mirrors webrtc/modules/audio_coding/neteq/packet.h:79 -/
def ge (a b : Packet) : Bool := !a.lt b

end Packet

/-- mirrors webrtc/modules/audio_coding/neteq/audio_decoder_impl.h:308-338 -/
inductive NetEqDecoder where
  | pcmu
  | pcma
  | pcmu2ch
  | pcma2ch
  | ilbc
  | isac
  | isacSwb
  | isacFb
  | pcm16b
  | pcm16bWb
  | pcm16bSwb32kHz
  | pcm16bSwb48kHz
  | pcm16b2ch
  | pcm16bWb2ch
  | pcm16bSwb32kHz2ch
  | pcm16bSwb48kHz2ch
  | pcm16b5ch
  | g722
  | g7222ch
  | red
  | avt
  | cngNb
  | cngWb
  | cngSwb32kHz
  | cngSwb48kHz
  | arbitrary
  | opus
  | opus2ch
  | aac1
  deriving DecidableEq, Repr

/-- mirrors webrtc/modules/audio_coding/neteq/decoder_database.h:37-56 -/
structure DecoderInfo where
  codecType : NetEqDecoder := .arbitrary
  fsHz : Int := 8000
  deriving DecidableEq, Repr

/-- What is registered for each payload type. -/
abbrev DecoderDatabase := UInt8 → Option DecoderInfo

namespace DecoderDatabase

variable (db : DecoderDatabase) (payloadType : UInt8)

/-- mirrors webrtc/modules/audio_coding/neteq/decoder_database.cc:143-151 -/
def isType (codecType : NetEqDecoder) : Bool :=
  (db payloadType).any (·.codecType = codecType)

/-- mirrors webrtc/modules/audio_coding/neteq/decoder_database.cc:153-162 -/
def isComfortNoise : Bool :=
  db.isType payloadType .cngNb || db.isType payloadType .cngWb ||
    db.isType payloadType .cngSwb32kHz || db.isType payloadType .cngSwb48kHz

/-- mirrors webrtc/modules/audio_coding/neteq/decoder_database.cc:164-166 -/
def isDtmf : Bool := db.isType payloadType .avt

/-- mirrors webrtc/modules/audio_coding/neteq/decoder_database.cc:168-170 -/
def isRed : Bool := db.isType payloadType .red

/-- Whether every payload type is found.
mirrors webrtc/modules/audio_coding/neteq/decoder_database.cc:247-256 -/
def checkPayloadTypes (packetList : List Packet) : Bool :=
  packetList.all fun packet => (db packet.header.payloadType).isSome

end DecoderDatabase

end RtcCore.L2.NetEq
