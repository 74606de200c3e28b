import RtcCore.Core.Bytes

/-!
# Video payload headers

The codec-specific part of an RTP video packet as the depacketizers fill it
in (`RTPVideoHeader` and `RtpDepacketizer::ParsedPayload`), shared by the
payload formats and by the receive-side packet (`VCMPacket`). The source's
tagged union `codec` / `codecHeader` is the inductive `CodecHeader`; of the
union's members only the fields some modelled function reads are kept
(`simulcastIdx` and `rotation` are not).
-/
namespace RtcCore

/-- mirrors webrtc/common_types.h:159-166 (the audio types are not video's) -/
inductive FrameType where
  | empty | key | delta
  deriving DecidableEq, Repr

/-- mirrors webrtc/modules/interface/module_common_types.h:33-36 -/
def kNoPictureId : Int := -1
def kNoTl0PicIdx : Int := -1
def kNoTemporalIdx : Int := 0xFF
def kNoKeyIdx : Int := -1

/-- The fields keep the source's sentinel values.
mirrors webrtc/modules/interface/module_common_types.h:38-62 -/
structure VP8Header where
  nonReference : Bool := false
  pictureId : Int := kNoPictureId
  tl0PicIdx : Int := kNoTl0PicIdx
  temporalIdx : Int := kNoTemporalIdx
  layerSync : Bool := false
  keyIdx : Int := kNoKeyIdx
  partitionId : Nat := 0
  beginningOfPartition : Bool := false
  deriving DecidableEq, Repr

/-- mirrors webrtc/modules/interface/module_common_types.h:64-67 -/
structure H264Header where
  stapA : Bool
  singleNalu : Bool
  deriving DecidableEq, Repr

/-- `codec` with its member of the union `codecHeader`. -/
inductive CodecHeader where
  | none
  | generic
  | vp8 (h : VP8Header)
  | h264 (h : H264Header)
  deriving DecidableEq, Repr

/-- mirrors webrtc/modules/interface/module_common_types.h:82-92 -/
structure VideoHeader where
  width : Nat := 0
  height : Nat := 0
  isFirstPacket : Bool
  codec : CodecHeader
  deriving DecidableEq, Repr

/-- mirrors webrtc/modules/rtp_rtcp/source/rtp_format.h:68-74 -/
structure ParsedPayload where
  payload : Bytes
  frameType : FrameType
  video : VideoHeader
  deriving DecidableEq, Repr

end RtcCore
