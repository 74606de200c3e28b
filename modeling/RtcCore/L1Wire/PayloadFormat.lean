import RtcCore.L1Wire.H264
import RtcCore.L1Wire.Generic
import RtcCore.L1Wire.Vp8Packets
import RtcCore.L1Wire.Vp8Descriptor

/-!
# Payload names and payload formats

The sender derives the payload format from the payload's name in
`RTPSenderVideo::RegisterVideoPayload`, the receiver in
`RTPPayloadRegistry::RegisterReceivePayload`. A frame arrives when the
packetizer of the one and the depacketizer of the other fit together.

A name is its characters; the comparison is `strncasecmp`. What arrives is
the list of units that frame assembly keeps apart by start codes: the NAL
units of an H264 frame, the whole frame in the other formats.

Results:
* `formats_agree_iff`: for which names and frames the two sides agree. The
  receiver takes H264 payloads for generic ones, so H264 frames never arrive.
-/
namespace RtcCore.L1.PayloadFormat

open Bytes

/-- mirrors webrtc/modules/interface/module_common_types.h:74-79 -/
inductive RtpVideoCodecType where
  | none | generic | vp8 | h264
  deriving DecidableEq, Repr

/-- `StringCompare`: the first `n` characters are the same up to case.
mirrors webrtc/modules/rtp_rtcp/source/rtp_utility.cc:123-126 -/
def stringCompare : List Char → List Char → Nat → Bool
  | _, _, 0 => true
  | [], [], _ + 1 => true
  | a :: s, b :: t, n + 1 => a.toLower == b.toLower && stringCompare s t n
  | _, _, _ + 1 => false

/-- mirrors webrtc/modules/rtp_rtcp/source/rtp_sender_video.cc:73-95 -/
def registerVideoPayload (name : List Char) : RtpVideoCodecType :=
  if stringCompare name ['V', 'P', '8'] 3 then .vp8
  else if stringCompare name ['H', '2', '6', '4'] 4 then .h264
  else if stringCompare name ['I', '4', '2', '0'] 4 then .generic
  else .generic

/-- `RTPPayloadVideoStrategy::CreatePayloadType`.
mirrors webrtc/modules/rtp_rtcp/source/rtp_payload_registry.cc:429-455 -/
def createPayloadType (name : List Char) : RtpVideoCodecType :=
  if stringCompare name ['V', 'P', '8'] 3 then .vp8
  else if stringCompare name ['H', '2', '6', '4'] 4 then .generic
  else if stringCompare name ['I', '4', '2', '0'] 4 then .generic
  else if stringCompare name ['U', 'L', 'P', 'F', 'E', 'C'] 6 then .none
  else .generic

/-- The payload of a name in the registry; RED and ULPFEC payloads are
cleared with `memset`, which leaves `kRtpVideoNone`.
mirrors webrtc/modules/rtp_rtcp/source/rtp_payload_registry.cc:106-126 -/
def registerReceivePayload (name : List Char) : RtpVideoCodecType :=
  if stringCompare name ['r', 'e', 'd'] 3 then .none
  else if stringCompare name ['u', 'l', 'p', 'f', 'e', 'c'] 3 then .none
  else createPayloadType name

/-- What `RTPSenderVideo::Send` is given. -/
structure Frame where
  frameType : FrameType
  payload : Bytes
  fragmentation : List H264.Fragment
  vp8 : VP8Header

/-- The fragmentation of a VP8 frame is not used: the whole frame is one
partition.
mirrors webrtc/modules/rtp_rtcp/source/rtp_sender_video.cc:308-317,
rtp_format_vp8.cc:156-169, 174-189 -/
def vp8Packetizer (maxPayloadLen : Nat) (f : Frame) : Vp8.Packetizer :=
  { hdr := f.vp8, mode := .equalSize, maxPayloadLen, payload := f.payload
    parts := [(0, f.payload.length)] }

/-- The payloads of the packets of a frame.
mirrors webrtc/modules/rtp_rtcp/source/rtp_format.cc:18-34,
rtp_sender_video.cc:294-327 -/
def send (codec : RtpVideoCodecType) (maxPayloadLen : Nat) (f : Frame) : List Bytes :=
  match codec with
  | .h264 => (H264.packetize f.payload maxPayloadLen f.fragmentation).1.map Prod.fst
  | .vp8 => (Vp8.packetize (vp8Packetizer maxPayloadLen f)).map Prod.fst
  | .generic => (Generic.packetize f.frameType maxPayloadLen f.payload).map Prod.fst
  | .none => []

/-- What `RTPReceiverVideo::ParseRtpPacket` hands on, or `none` when it
returns -1 or has nothing to hand on.
mirrors webrtc/modules/rtp_rtcp/source/rtp_receiver_video.cc:51-98, rtp_format.cc:36-48 -/
def parseRtpPacket (codec : RtpVideoCodecType) (b : Bytes) : Option ParsedPayload :=
  if b.isEmpty then none
  else match codec with
    | .h264 => some (H264.parse b)
    | .vp8 => Vp8.parse b
    | .generic => some (Generic.parse b)
    | .none => none

/-- A payload added to the units received so far: H264 assembly starts a unit
(with a start code in front of it) where a NAL unit begins, the other formats
go on with the frame. -/
def addPayload (us : List Bytes) (r : ParsedPayload) : List Bytes :=
  match r.video.codec with
  | .h264 ⟨true, _⟩ => us ++ H264.splitStapA r.payload
  | .h264 ⟨false, _⟩ =>
    if r.video.isFirstPacket then us ++ [r.payload] else H264.appendLast us r.payload
  | _ => H264.appendLast us r.payload

/-- The units of a frame: its NAL units, or the frame. -/
def units (codec : RtpVideoCodecType) (f : Frame) : List Bytes :=
  match codec with
  | .h264 => f.fragmentation.map (H264.nalu f.payload)
  | _ => [f.payload]

/-- Every packet is handed on, their units are the frame's, and the first one
says that it is the first and of which type the frame is. -/
def Agrees (name : List Char) (maxPayloadLen : Nat) (f : Frame) : Prop :=
  ∃ rs : List ParsedPayload,
    (send (registerVideoPayload name) maxPayloadLen f).map
        (parseRtpPacket (registerReceivePayload name)) = rs.map some ∧
      rs.foldl addPayload [] = units (registerVideoPayload name) f ∧
      ∃ r, rs.head? = some r ∧ r.video.isFirstPacket = true ∧ r.frameType = f.frameType

/-- A frame with octets, and room for it: NAL units of types 1..23 where the
format is H264; a VP8 frame says in its first octet whether it is a key
frame. -/
def FrameOk (codec : RtpVideoCodecType) (maxPayloadLen : Nat) (f : Frame) : Prop :=
  f.payload ≠ [] ∧ f.frameType ≠ .empty ∧
    match codec with
    | .h264 => 3 ≤ maxPayloadLen ∧ f.fragmentation ≠ [] ∧ ∀ g ∈ f.fragmentation, g.WF f.payload
    | .vp8 => Vp8.HeaderOk f.vp8 ∧
        1 + Vp8.payloadDescriptorExtraLength f.vp8 + 1 ≤ maxPayloadLen ∧
        (f.frameType = .key ↔ getByte f.payload 0 &&& 0x01 = 0)
    | .generic => 2 ≤ maxPayloadLen
    | .none => True

/-- The name is not H264, RED or ULPFEC, and the first packet of a VP8 key
frame has the ten octets of the frame header. -/
def FormatsMeet (name : List Char) (maxPayloadLen : Nat) (f : Frame) : Prop :=
  registerVideoPayload name ≠ .h264 ∧ stringCompare name ['r', 'e', 'd'] 3 = false ∧
    stringCompare name ['u', 'l', 'p', 'f', 'e', 'c'] 3 = false ∧
    (registerVideoPayload name = .vp8 → f.frameType = .key →
      10 ≤ Vp8.calcNextSize true (maxPayloadLen - (1 + Vp8.payloadDescriptorExtraLength f.vp8))
        f.payload.length true)

/-! ## Names -/

/-- Two names that start with different letters do not both compare equal. -/
theorem stringCompare_head {name s : List Char} {a : Char} {n : Nat}
    (h : stringCompare name (a :: s) (n + 1) = true) :
    ∃ c cs, name = c :: cs ∧ c.toLower = a.toLower := by
  cases name with
  | nil => simp [stringCompare] at h
  | cons c cs =>
    simp only [stringCompare, Bool.and_eq_true, beq_iff_eq] at h
    exact ⟨c, cs, rfl, h.1⟩

theorem stringCompare_ne {name s t : List Char} {a b : Char} {n m : Nat}
    (h : stringCompare name (a :: s) (n + 1) = true) (hab : a.toLower ≠ b.toLower) :
    stringCompare name (b :: t) (m + 1) = false := by
  cases h' : stringCompare name (b :: t) (m + 1) with
  | false => rfl
  | true =>
    obtain ⟨c, cs, rfl, hc⟩ := stringCompare_head h
    obtain ⟨c', cs', he, hc'⟩ := stringCompare_head h'
    obtain ⟨rfl, -⟩ := List.cons.inj he
    exact absurd (hc.symm.trans hc') hab

/-- Fewer characters of the same word. -/
theorem stringCompare_fewer : ∀ (m n : Nat) (name s t : List Char),
    s.map Char.toLower = t.map Char.toLower → m ≤ n → stringCompare name s n = true →
    stringCompare name t m = true
  | 0, _, _, _, _, _, _, _ => by simp [stringCompare]
  | m + 1, 0, _, _, _, _, h, _ => absurd h (by omega)
  | m + 1, n + 1, [], [], t, hst, _, _ => by
    have ht : t = [] := by simpa using hst.symm
    rw [ht]; rfl
  | m + 1, n + 1, [], b :: s, t, _, _, h => by simp [stringCompare] at h
  | m + 1, n + 1, a :: name, [], t, _, _, h => by simp [stringCompare] at h
  | m + 1, n + 1, a :: name, b :: s, [], hst, _, _ => by simp at hst
  | m + 1, n + 1, a :: name, b :: s, c :: t, hst, hmn, h => by
    simp only [List.map_cons, List.cons.injEq] at hst
    simp only [stringCompare, Bool.and_eq_true, beq_iff_eq] at h ⊢
    exact ⟨h.1.trans hst.1, stringCompare_fewer m n name s t hst.2 (by omega) h.2⟩

theorem registerReceivePayload_vp8 {name : List Char} (h : registerVideoPayload name = .vp8) :
    registerReceivePayload name = .vp8 ∧ stringCompare name ['r', 'e', 'd'] 3 = false ∧
      stringCompare name ['u', 'l', 'p', 'f', 'e', 'c'] 3 = false := by
  have hv : stringCompare name ['V', 'P', '8'] 3 = true := by
    unfold registerVideoPayload at h
    split at h
    · assumption
    · split at h
      · simp at h
      · split at h <;> simp at h
  have hr := stringCompare_ne (t := ['e', 'd']) (m := 2) (b := 'r') hv (by decide)
  have hu := stringCompare_ne (t := ['l', 'p', 'f', 'e', 'c']) (m := 2) (b := 'u') hv (by decide)
  refine ⟨?_, hr, hu⟩
  unfold registerReceivePayload createPayloadType
  rw [hr, hu, hv]
  rfl

theorem registerReceivePayload_h264 {name : List Char} (h : registerVideoPayload name = .h264) :
    registerReceivePayload name = .generic := by
  unfold registerVideoPayload at h
  split at h
  · simp at h
  rename_i hv
  split at h
  · rename_i hh
    have hr := stringCompare_ne (t := ['e', 'd']) (m := 2) (b := 'r') hh (by decide)
    have hu := stringCompare_ne (t := ['l', 'p', 'f', 'e', 'c']) (m := 2) (b := 'u') hh (by decide)
    unfold registerReceivePayload createPayloadType
    rw [hr, hu, if_neg hv, hh]
    rfl
  · split at h <;> simp at h

theorem registerReceivePayload_generic {name : List Char} (h : registerVideoPayload name = .generic) :
    registerReceivePayload name =
      if stringCompare name ['r', 'e', 'd'] 3 || stringCompare name ['u', 'l', 'p', 'f', 'e', 'c'] 3
      then .none else .generic := by
  unfold registerVideoPayload at h
  split at h
  · simp at h
  rename_i hv
  split at h
  · simp at h
  rename_i hh
  unfold registerReceivePayload createPayloadType
  rw [if_neg hv, if_neg hh]
  cases hr : stringCompare name ['r', 'e', 'd'] 3 with
  | true => rfl
  | false =>
    cases hu : stringCompare name ['u', 'l', 'p', 'f', 'e', 'c'] 3 with
    | true => rfl
    | false =>
      have hno : ¬ stringCompare name ['U', 'L', 'P', 'F', 'E', 'C'] 6 = true := fun hc => by
        rw [stringCompare_fewer 3 6 name _ _ (by decide) (by decide) hc] at hu
        simp at hu
      rw [if_neg hno]
      simp

theorem registerVideoPayload_ne_none (name : List Char) : registerVideoPayload name ≠ .none := by
  unfold registerVideoPayload
  split
  · simp
  · split
    · simp
    · split <;> simp

/-! ## Assembly of a frame without units -/

/-- The payload is one of a format without units. -/
def Plain (r : ParsedPayload) : Prop := ∀ h, r.video.codec ≠ .h264 h

theorem addPayload_plain {r : ParsedPayload} (h : Plain r) (us : List Bytes) :
    addPayload us r = H264.appendLast us r.payload := by
  unfold addPayload
  split
  · rename_i hc; exact absurd hc (h _)
  · rename_i hc; exact absurd hc (h _)
  · rfl

theorem foldl_plain : ∀ (rs : List ParsedPayload) (u : Bytes), (∀ r ∈ rs, Plain r) →
    rs.foldl addPayload [u] = [u ++ rs.flatMap (·.payload)]
  | [], u, _ => by simp
  | r :: rs, u, h => by
    have hadd : addPayload [u] r = [u ++ r.payload] :=
      (addPayload_plain (h r (List.mem_cons_self ..)) [u]).trans (H264.appendLast_concat [] u _)
    rw [List.foldl_cons, hadd, foldl_plain rs _ fun x hx => h x (List.mem_cons_of_mem _ hx)]
    simp

theorem assemble_plain {rs : List ParsedPayload} (hne : rs ≠ []) (h : ∀ r ∈ rs, Plain r) :
    rs.foldl addPayload [] = [rs.flatMap (·.payload)] := by
  obtain ⟨r, rs, rfl⟩ := List.exists_cons_of_ne_nil hne
  have hadd : addPayload [] r = [r.payload] := addPayload_plain (h r (List.mem_cons_self ..)) []
  rw [List.foldl_cons, hadd, foldl_plain rs _ fun x hx => h x (List.mem_cons_of_mem _ hx)]
  rfl

theorem plain_generic (b : Bytes) : Plain (Generic.parse b) := fun h hc => by
  simp [Generic.parse] at hc

/-! ## Generic frames -/

theorem parseRtpPacket_generic {bs : List Bytes} (h : ∀ b ∈ bs, b ≠ []) :
    bs.map (parseRtpPacket .generic) = (bs.map Generic.parse).map some := by
  rw [List.map_map]
  refine List.map_congr_left fun b hb => ?_
  have hne : b.isEmpty = false := by simpa using h b hb
  simp [parseRtpPacket, hne]

theorem generic_agrees {maxPayloadLen : Nat} {f : Frame} (hp : f.payload ≠ [])
    (ht : f.frameType ≠ .empty) (hm : 2 ≤ maxPayloadLen) :
    ∃ rs : List ParsedPayload, (send .generic maxPayloadLen f).map (parseRtpPacket .generic) =
        rs.map some ∧
      rs.foldl addPayload [] = [f.payload] ∧
      ∃ r, rs.head? = some r ∧ r.video.isFirstPacket = true ∧ r.frameType = f.frameType := by
  have hpl : 0 < (Generic.setPayloadData f.frameType maxPayloadLen f.payload).payloadLength :=
    Generic.payloadLength_pos hm hp
  have hheader : (Generic.setPayloadData f.frameType maxPayloadLen f.payload).genericHeader =
    Generic.kFirstPacketBit := rfl
  obtain ⟨hne, hspec⟩ := Generic.sendAll_spec f.payload.length
    (Generic.setPayloadData f.frameType maxPayloadLen f.payload) hpl hp (Nat.le_refl _)
  obtain ⟨hbytes, htype⟩ := Generic.sendAll_bytes f.payload.length
    (Generic.setPayloadData f.frameType maxPayloadLen f.payload) hpl hp (Nat.le_refl _)
    (fun h => absurd h (by rw [hheader]; decide))
  have hsend : send .generic maxPayloadLen f = (Generic.sendAll f.payload.length
    (Generic.setPayloadData f.frameType maxPayloadLen f.payload)).map Prod.fst := rfl
  rw [hsend]
  generalize Generic.sendAll f.payload.length
    (Generic.setPayloadData f.frameType maxPayloadLen f.payload) = xs at hne hspec hbytes htype
  have hxs : ∀ b ∈ xs.map Prod.fst, b ≠ [] := by
    intro b hb h0
    obtain ⟨x, hx, rfl⟩ := List.mem_map.1 hb
    obtain ⟨i, hi, rfl⟩ := List.getElem_of_mem hx
    refine (hspec i xs[i].1 xs[i].2 (List.getElem?_eq_getElem hi)).2.2 ?_
    rw [h0]; rfl
  refine ⟨(xs.map Prod.fst).map Generic.parse, parseRtpPacket_generic hxs, ?_, ?_⟩
  · rw [assemble_plain]
    · rw [List.map_map, List.flatMap_map]
      exact congrArg (fun b => [b]) hbytes
    · simpa using hne
    · intro r hr
      obtain ⟨b, -, rfl⟩ := List.mem_map.1 hr
      exact plain_generic b
  · obtain ⟨x, rest, rfl⟩ := List.exists_cons_of_ne_nil hne
    refine ⟨Generic.parse x.1, rfl, ?_, ?_⟩
    · rw [(hspec 0 x.1 x.2 rfl).1, hheader]
      decide
    · rw [htype x (List.mem_cons_self ..)]
      have hft : (Generic.setPayloadData f.frameType maxPayloadLen f.payload).frameType =
        f.frameType := rfl
      rw [hft]
      cases hc : f.frameType with
      | empty => exact absurd hc ht
      | key => rfl
      | delta => rfl

/-! ## VP8 frames -/

theorem vp8_valid {maxPayloadLen : Nat} {f : Frame} (hp : f.payload ≠ [])
    (hroom : 1 + Vp8.payloadDescriptorExtraLength f.vp8 + 1 ≤ maxPayloadLen) :
    (vp8Packetizer maxPayloadLen f).Valid where
  nonempty := Nat.one_pos
  le_nine := Nat.le_of_ble_eq_true rfl
  first := rfl
  next := fun i hi => absurd hi (Nat.not_lt_zero i)
  last := Nat.zero_add _
  pos := by
    intro i hi
    obtain rfl : i = 0 := Nat.lt_one_iff.1 hi
    exact List.length_pos_iff.2 hp
  room := hroom

/-- The payload of a VP8 packet. -/
def vp8Payload (p : Vp8.Packetizer) (i : Vp8.PacketInfo) : Bytes :=
  Vp8.descriptor p.hdr i :: (Vp8.extension p.hdr ++ slice p.payload i.payloadStartPos i.size)

theorem sendAll_payloads {p : Vp8.Packetizer}
    (hroom : 1 + Vp8.payloadDescriptorExtraLength p.hdr + 1 ≤ p.maxPayloadLen) :
    ∀ q, (Vp8.sendAll p q).map Prod.fst = q.map (vp8Payload p)
  | [] => rfl
  | i :: q => by
    have hw := Vp8.writeHeaderAndPayload_eq hroom i
    have ih := sendAll_payloads hroom q
    simp only [Vp8.sendAll, Vp8.nextPacket, hw, Option.map_some, List.map_cons, ih]
    rfl

/-- The packets of a VP8 frame: the first begins the frame, and no other one
begins a partition. -/
theorem vp8_packets {maxPayloadLen : Nat} {f : Frame} (hp : f.payload ≠ [])
    (hroom : 1 + Vp8.payloadDescriptorExtraLength f.vp8 + 1 ≤ maxPayloadLen) :
    ∃ rest, send .vp8 maxPayloadLen f =
        (⟨0, Vp8.calcNextSize true (maxPayloadLen - (1 + Vp8.payloadDescriptorExtraLength f.vp8))
          f.payload.length true, true, 0⟩ :: rest).map (vp8Payload (vp8Packetizer maxPayloadLen f)) ∧
      (∀ i ∈ rest, i.firstFragment = false ∧ i.firstPartitionIx = 0 ∧
        slice f.payload i.payloadStartPos i.size ≠ []) ∧
      slice f.payload 0 (Vp8.calcNextSize true
          (maxPayloadLen - (1 + Vp8.payloadDescriptorExtraLength f.vp8)) f.payload.length true) ++
        rest.flatMap (fun i => slice f.payload i.payloadStartPos i.size) = f.payload := by
  have hv := vp8_valid hp hroom
  obtain ⟨q, hq, hl, -, hflag⟩ := Vp8.generatePackets_lossless hv
  obtain ⟨rest, hfirst⟩ := Vp8.generatePackets_single hv rfl rfl
  obtain rfl := Option.some.inj (hq.symm.trans hfirst)
  have hqueue : Vp8.queue (vp8Packetizer maxPayloadLen f) = some _ :=
    (if_neg (by simp [vp8Packetizer, Vp8.Mode.aggr])).trans hq
  refine ⟨rest, ?_, fun i hi => ?_, ?_⟩
  · have hsend := sendAll_payloads (p := vp8Packetizer maxPayloadLen f) hroom
    rw [send, Vp8.packetize, hqueue]
    exact hsend _
  · have hstarts := hl.starts i (List.mem_cons_of_mem _ hi)
    have hzero := hflag rfl i (List.mem_cons_of_mem _ hi)
    have hpair := List.rel_of_pairwise_cons hl.tiles.pairwise
      (List.mem_map_of_mem (f := Vp8.PacketInfo.range) hi)
    have hin := hl.tiles.mem _
      (List.mem_cons_of_mem _ (List.mem_map_of_mem (f := Vp8.PacketInfo.range) hi))
    have hpos := (hl.tiles.mem _ (List.mem_cons_self ..)).2.1
    dsimp only [Vp8.PacketInfo.range] at hpair hin hpos
    refine ⟨?_, ?_, fun h0 => ?_⟩
    · cases hf : i.firstFragment with
      | false => rfl
      | true =>
        have := hzero.1 hf
        omega
    · exact Nat.lt_one_iff.1 hstarts.ix
    · have hlen := congrArg List.length h0
      have hbound : i.payloadStartPos + i.size ≤ f.payload.length := hin.2.2
      rw [slice_length hbound, List.length_nil] at hlen
      omega
  · have hbytes := hl.tiles.flatMap_slice f.payload
    rw [List.flatMap_map, List.flatMap_cons] at hbytes
    refine hbytes.trans ?_
    show slice f.payload 0 (f.payload.length - 0) = f.payload
    simp [slice]

/-- A packet that does not begin the frame is handed on. -/
theorem vp8_later {p : Vp8.Packetizer} (hok : Vp8.HeaderOk p.hdr) {i : Vp8.PacketInfo}
    (hflag : i.firstFragment = false) (hix : i.firstPartitionIx = 0)
    (hne : slice p.payload i.payloadStartPos i.size ≠ []) :
    ∃ r, parseRtpPacket .vp8 (vp8Payload p i) = some r ∧ Plain r ∧
      r.payload = slice p.payload i.payloadStartPos i.size := by
  have hparse := Vp8.parse_write hok (i := i) (by omega) hne
  rw [hflag] at hparse
  exact ⟨_, hparse, fun h hc => by simp at hc, rfl⟩

/-- The packet that begins the frame is handed on unless it is too short for
the header of a key frame. -/
theorem vp8_first {p : Vp8.Packetizer} (hok : Vp8.HeaderOk p.hdr) {n : Nat} (hn : 0 < n)
    (hle : n ≤ p.payload.length) {frameType : FrameType} (ht : frameType ≠ .empty)
    (hkey : frameType = .key ↔ getByte p.payload 0 &&& 0x01 = 0) :
    (frameType = .key ∧ n < 10 → parseRtpPacket .vp8 (vp8Payload p ⟨0, n, true, 0⟩) = none) ∧
    ((frameType = .key → 10 ≤ n) → ∃ r, parseRtpPacket .vp8 (vp8Payload p ⟨0, n, true, 0⟩) = some r ∧
      Plain r ∧ r.payload = slice p.payload 0 n ∧ r.video.isFirstPacket = true ∧
      r.frameType = frameType) := by
  have hlen : (slice p.payload 0 n).length = n := slice_length (by omega)
  have hne : slice p.payload 0 n ≠ [] := fun h0 => by
    rw [h0, List.length_nil] at hlen
    omega
  have hbyte : getByte (slice p.payload 0 n) 0 = getByte p.payload 0 := by
    simp only [getByte, slice, List.drop_zero, List.getElem?_take, if_pos hn]
  have hnone := Vp8.parse_write_none hok (i := ⟨0, n, true, 0⟩) (Nat.zero_le 8) hne
  have hparse := Vp8.parse_write hok (i := ⟨0, n, true, 0⟩) (Nat.zero_le 8) hne
  dsimp only at hnone hparse
  rw [hbyte, hlen] at hnone
  refine ⟨fun h => hnone.2 ⟨rfl, rfl, hkey.1 h.1, h.2⟩, fun h => ?_⟩
  cases hp : parseRtpPacket .vp8 (vp8Payload p ⟨0, n, true, 0⟩) with
  | none =>
    obtain ⟨-, -, hbit, hlt⟩ := hnone.1 hp
    have := h (hkey.2 hbit)
    omega
  | some r =>
    have hr : some r = _ := hp.symm.trans hparse
    obtain ⟨s, -, rfl⟩ := Option.map_eq_some_iff.1 hr.symm
    refine ⟨_, rfl, fun h hc => by simp at hc, rfl, rfl, ?_⟩
    dsimp only
    rw [hbyte]
    cases hft : frameType with
    | empty => exact absurd hft ht
    | key =>
      rw [hkey.1 hft]
      rfl
    | delta =>
      have hbit : ¬ getByte p.payload 0 &&& 0x01 = 0 := fun h0 => by
        rw [hkey.2 h0] at hft
        simp at hft
      simp [hbit]

theorem vp8_agrees_iff {maxPayloadLen : Nat} {f : Frame} (h : FrameOk .vp8 maxPayloadLen f) :
    (∃ rs : List ParsedPayload, (send .vp8 maxPayloadLen f).map (parseRtpPacket .vp8) =
        rs.map some ∧
      rs.foldl addPayload [] = [f.payload] ∧
      ∃ r, rs.head? = some r ∧ r.video.isFirstPacket = true ∧ r.frameType = f.frameType) ↔
    (f.frameType = .key →
      10 ≤ Vp8.calcNextSize true (maxPayloadLen - (1 + Vp8.payloadDescriptorExtraLength f.vp8))
        f.payload.length true) := by
  obtain ⟨hp, ht, hok, hroom, hkey⟩ := h
  obtain ⟨rest, hsend, hrest, hbytes⟩ := vp8_packets hp hroom
  have hpos : 0 < f.payload.length := List.length_pos_iff.2 hp
  have hn := Vp8.calcNextSize_pos true (m := maxPayloadLen -
    (1 + Vp8.payloadDescriptorExtraLength f.vp8)) (by omega) hpos
  have hle := Vp8.calcNextSize_le true (maxPayloadLen -
    (1 + Vp8.payloadDescriptorExtraLength f.vp8)) f.payload.length true
  rw [hsend]
  generalize Vp8.calcNextSize true (maxPayloadLen - (1 + Vp8.payloadDescriptorExtraLength f.vp8))
    f.payload.length true = n at hn hle hbytes
  obtain ⟨hshort, hfirst⟩ := vp8_first (p := vp8Packetizer maxPayloadLen f) hok hn hle ht hkey
  constructor
  · rintro ⟨rs, hrs, -, -⟩ hk
    refine Nat.le_of_not_lt fun hlt => ?_
    rw [List.map_cons, List.map_cons, hshort ⟨hk, hlt⟩] at hrs
    cases rs with
    | nil => simp at hrs
    | cons r rs => simp at hrs
  · intro hten
    obtain ⟨r, hr, hplain, hpay, hisFirst, htype⟩ := hfirst hten
    have hlater : ∀ i ∈ rest, ∃ r', parseRtpPacket .vp8
          (vp8Payload (vp8Packetizer maxPayloadLen f) i) = some r' ∧ Plain r' ∧
        r'.payload = slice f.payload i.payloadStartPos i.size := fun i hi =>
      vp8_later (p := vp8Packetizer maxPayloadLen f) hok (hrest i hi).1 (hrest i hi).2.1
        (hrest i hi).2.2
    obtain ⟨rs, hmap, hall, hflat⟩ : ∃ rs : List ParsedPayload,
        (rest.map (vp8Payload (vp8Packetizer maxPayloadLen f))).map (parseRtpPacket .vp8) =
          rs.map some ∧ (∀ r' ∈ rs, Plain r') ∧
        rs.flatMap (·.payload) = rest.flatMap fun i => slice f.payload i.payloadStartPos i.size := by
      clear hbytes hrest hsend
      induction rest with
      | nil => exact ⟨[], rfl, fun _ h => absurd h List.not_mem_nil, rfl⟩
      | cons i rest ih =>
        obtain ⟨rs, h1, h2, h3⟩ := ih fun j hj => hlater j (List.mem_cons_of_mem _ hj)
        obtain ⟨r', hr', hpl, hpay'⟩ := hlater i (List.mem_cons_self ..)
        refine ⟨r' :: rs, by simp only [List.map_cons, hr', h1], fun x hx => ?_, ?_⟩
        · rcases List.mem_cons.1 hx with rfl | hx
          · exact hpl
          · exact h2 x hx
        · rw [List.flatMap_cons, List.flatMap_cons, h3, hpay']
    refine ⟨r :: rs, by simp only [List.map_cons, hr, hmap], ?_, r, rfl, hisFirst, htype⟩
    rw [assemble_plain (by simp) fun x hx => ?_, List.flatMap_cons, hflat, hpay]
    · exact congrArg (fun b => [b]) hbytes
    · rcases List.mem_cons.1 hx with rfl | hx
      · exact hplain
      · exact hall x hx

/-! ## H264 frames -/

/-- The fragments of a NAL unit, with the octets they carry. -/
theorem fuALoop_slices (payload : Bytes) (h : UInt8) (fo avg : Nat) (ha : 0 < avg) :
    ∀ (fuel off len : Nat), len ≤ fuel →
    (H264.fuALoop h fo avg fuel off len).flatMap (fun p => slice payload p.offset p.size) =
      slice payload off len := by
  intro fuel
  induction fuel with
  | zero =>
    intro off len hl
    obtain rfl : len = 0 := by omega
    simp [H264.fuALoop, slice]
  | succ fuel ih =>
    intro off len hl
    unfold H264.fuALoop
    dsimp only
    split
    · generalize hpl : (if len < avg then len else avg) = pl
      have hpos : 0 < pl ∧ pl ≤ len := by subst hpl; split <;> omega
      rw [List.flatMap_cons, ih _ _ (by omega), ← slice_add,
        show pl + (len - pl) = len by omega]
    · obtain rfl : len = 0 := by omega
      simp [slice]

theorem fuALoop_two (h : UInt8) (fo off : Nat) {avg fuel len : Nat} (ha : 0 < avg)
    (hlt : avg < len) (hfuel : len ≤ fuel) :
    2 ≤ (H264.fuALoop h fo avg fuel off len).length := by
  obtain ⟨k, rfl⟩ : ∃ k, fuel = k + 2 := ⟨fuel - 2, by omega⟩
  unfold H264.fuALoop
  dsimp only
  rw [if_pos (by omega), if_neg (by omega)]
  unfold H264.fuALoop
  dsimp only
  rw [if_pos (by omega)]
  simp

/-- One NAL unit that fits is a packet. -/
theorem send_h264_small {maxPayloadLen : Nat} {payload : Bytes} {g : H264.Fragment}
    (hle : g.length ≤ maxPayloadLen) :
    (H264.packetize payload maxPayloadLen [g]).1.map Prod.fst = [H264.nalu payload g] := by
  obtain ⟨taken, rest, hnil, hq, -⟩ := H264.packetizeStapA_spec payload maxPayloadLen [] g [] hle
  obtain ⟨rfl, rfl⟩ := List.nil_eq_append_iff.1 hnil
  have hgen : H264.generatePackets payload maxPayloadLen 1 [g] [] =
      H264.markBack (H264.aggPacket payload true g :: [].map (H264.aggPacket payload false)) ++ [] := by
    rw [H264.generatePackets, if_neg (by omega), hq, List.append_nil]
    rfl
  have hsent := H264.sent_group payload g [] []
  rw [← hgen] at hsent
  exact hsent

/-- A larger one is cut into fragments. -/
theorem send_h264_large {maxPayloadLen : Nat} {payload : Bytes} {g : H264.Fragment}
    (h3 : 3 ≤ maxPayloadLen) (hlt : maxPayloadLen < g.length) :
    (H264.packetize payload maxPayloadLen [g]).1.map Prod.fst =
      (H264.packetizeFuA payload maxPayloadLen g).map (H264.nextFragmentPacket payload) := by
  have hgen : H264.generatePackets payload maxPayloadLen 1 [g] [] =
      H264.packetizeFuA payload maxPayloadLen g ++ [] := by
    rw [H264.generatePackets, if_pos hlt, List.append_nil]
    rfl
  have hsent := H264.sent_fuA payload _ _ [] _ (@H264.packetizeFuA_packets payload _ _ h3 hlt)
  rw [← hgen, H264.sent_nil, List.map_nil, List.append_nil] at hsent
  exact hsent

theorem length_flatMap_cons {α : Type} (h : α → UInt8) (t : α → Bytes) : ∀ xs : List α,
    (xs.flatMap fun x => h x :: t x).length = xs.length + (xs.flatMap t).length
  | [] => rfl
  | x :: xs => by
    have ih := length_flatMap_cons h t xs
    simp only [List.flatMap_cons, List.length_append, List.length_cons, ih]
    omega

/-- Without its first octet each packet of a NAL unit: the octets are not
those of the NAL unit. -/
theorem send_h264_lost {maxPayloadLen : Nat} {payload : Bytes} {g : H264.Fragment}
    (h3 : 3 ≤ maxPayloadLen) (hw : g.WF payload) :
    ((H264.packetize payload maxPayloadLen [g]).1.map Prod.fst).flatMap
        (fun b => (Generic.parse b).payload) ≠ H264.nalu payload g := by
  intro heq
  have hlen := congrArg List.length heq
  have hnalu : (H264.nalu payload g).length = g.length := slice_length hw.inside
  have hpos := hw.nonempty
  by_cases hbig : maxPayloadLen < g.length
  · obtain ⟨ha, -, hlt⟩ := H264.avg_bounds h3 (show maxPayloadLen ≤ g.length - 1 by omega)
    have hslices := congrArg List.length (fuALoop_slices payload (getByte payload g.offset) g.offset
      (H264.fuAAvgSize maxPayloadLen (g.length - 1)) ha (g.length - 1) (g.offset + 1)
      (g.length - 1) (Nat.le_refl _))
    have htwo := fuALoop_two (getByte payload g.offset) g.offset (g.offset + 1) ha hlt
      (Nat.le_refl _)
    have hin := hw.inside
    rw [slice_length (by omega)] at hslices
    rw [send_h264_large h3 hbig, List.flatMap_map, hnalu] at hlen
    have hcons := length_flatMap_cons
      (fun p : H264.Packet => H264.fuHeader p.header p.firstFragment p.lastFragment)
      (fun p => slice payload p.offset p.size) (H264.packetizeFuA payload maxPayloadLen g)
    have hsame : (H264.packetizeFuA payload maxPayloadLen g).flatMap
          (fun p => (Generic.parse (H264.nextFragmentPacket payload p)).payload) =
        (H264.packetizeFuA payload maxPayloadLen g).flatMap fun p =>
          H264.fuHeader p.header p.firstFragment p.lastFragment ::
            slice payload p.offset p.size := rfl
    rw [hsame, hcons] at hlen
    have hfu : H264.packetizeFuA payload maxPayloadLen g =
      H264.fuALoop (getByte payload g.offset) g.offset
        (H264.fuAAvgSize maxPayloadLen (g.length - 1)) (g.length - 1) (g.offset + 1)
        (g.length - 1) := rfl
    rw [hfu, hslices] at hlen
    omega
  · rw [send_h264_small (by omega)] at hlen
    simp only [List.flatMap_cons, List.flatMap_nil, List.append_nil, Generic.parse,
      Generic.kGenericHeaderLength, List.length_drop, hnalu] at hlen
    omega

/-- With the generic depacketizer no H264 frame arrives. -/
theorem h264_lost {maxPayloadLen : Nat} {f : Frame} (h : FrameOk .h264 maxPayloadLen f) :
    ¬ ∃ rs : List ParsedPayload, (send .h264 maxPayloadLen f).map (parseRtpPacket .generic) =
        rs.map some ∧
      rs.foldl addPayload [] = units .h264 f ∧
      ∃ r, rs.head? = some r ∧ r.video.isFirstPacket = true ∧ r.frameType = f.frameType := by
  rintro ⟨rs, hrs, hunits, r, hhead, -, -⟩
  obtain ⟨-, -, h3, -, hw⟩ := h
  have hparse : rs = (send .h264 maxPayloadLen f).map Generic.parse := by
    have hall : ∀ b ∈ send .h264 maxPayloadLen f, b ≠ [] := by
      intro b hb h0
      have hmem := List.mem_map_of_mem (f := parseRtpPacket .generic) hb
      rw [hrs, h0] at hmem
      obtain ⟨x, -, hx⟩ := List.mem_map.1 hmem
      simp [parseRtpPacket] at hx
    rw [parseRtpPacket_generic hall] at hrs
    exact (List.map_inj_right fun _ _ h => Option.some.inj h).1 hrs.symm
  have hne : rs ≠ [] := by
    intro h0
    rw [h0] at hhead
    simp at hhead
  have hplain : ∀ x ∈ rs, Plain x := by
    intro x hx
    rw [hparse] at hx
    obtain ⟨b, -, rfl⟩ := List.mem_map.1 hx
    exact plain_generic b
  rw [assemble_plain hne hplain] at hunits
  -- one unit, so one NAL unit
  cases hfr : f.fragmentation with
  | nil => simp [units, hfr] at hunits
  | cons g gs =>
    cases gs with
    | cons g' gs => simp [units, hfr] at hunits
    | nil =>
      rw [hparse, List.flatMap_map] at hunits
      refine send_h264_lost h3 (hw g (by rw [hfr]; exact List.mem_cons_self ..)) ?_
      simp only [send, units, hfr, List.map_cons, List.map_nil, List.cons.injEq, and_true] at hunits
      exact hunits

/-! ## Agreement -/

/-- Without a depacketizer nothing arrives. -/
theorem none_lost (bs : List Bytes) {rs : List ParsedPayload} {r : ParsedPayload}
    (hrs : bs.map (parseRtpPacket .none) = rs.map some) (hhead : rs.head? = some r) : False := by
  cases rs with
  | nil => simp at hhead
  | cons x rs =>
    cases bs with
    | nil => simp at hrs
    | cons b bs => simp [parseRtpPacket] at hrs

/-- The two sides agree on exactly the frames for which the formats meet. -/
theorem formats_agree_iff (name : List Char) (maxPayloadLen : Nat) (f : Frame)
    (h : FrameOk (registerVideoPayload name) maxPayloadLen f) :
    Agrees name maxPayloadLen f ↔ FormatsMeet name maxPayloadLen f := by
  unfold Agrees FormatsMeet
  cases hc : registerVideoPayload name with
  | none => exact absurd hc (registerVideoPayload_ne_none name)
  | vp8 =>
    rw [hc] at h
    obtain ⟨hr, hred, hulp⟩ := registerReceivePayload_vp8 hc
    rw [hr, hred, hulp]
    refine (vp8_agrees_iff h).trans ⟨fun h10 => ⟨by simp, rfl, rfl, fun _ => h10⟩, fun h' => ?_⟩
    exact h'.2.2.2 rfl
  | h264 =>
    rw [hc] at h
    rw [registerReceivePayload_h264 hc]
    exact ⟨fun hex => absurd hex (h264_lost h), fun h' => absurd rfl h'.1⟩
  | generic =>
    rw [hc] at h
    rw [registerReceivePayload_generic hc]
    cases hred : stringCompare name ['r', 'e', 'd'] 3 with
    | true =>
      refine ⟨fun ⟨_, hrs, _, _, hhead, _⟩ => (none_lost _ hrs hhead).elim, fun h' => ?_⟩
      exact absurd h'.2.1 (by simp)
    | false =>
      cases hulp : stringCompare name ['u', 'l', 'p', 'f', 'e', 'c'] 3 with
      | true =>
        refine ⟨fun ⟨_, hrs, _, _, hhead, _⟩ => (none_lost _ hrs hhead).elim, fun h' => ?_⟩
        exact absurd h'.2.2.1 (by simp)
      | false =>
        refine ⟨fun _ => ⟨by simp, rfl, rfl, fun h' => by simp at h'⟩, fun _ => ?_⟩
        exact generic_agrees h.1 h.2.1 h.2.2

theorem formats_agree_iff_vp8 :
    let f : Frame := ⟨.key, [0, 1, 2, 3, 4, 5, 6, 7, 8, 9, 10], [], {}⟩
    FrameOk (registerVideoPayload ['V', 'P', '8']) 20 f ∧ Agrees ['V', 'P', '8'] 20 f := by
  have hok : FrameOk (registerVideoPayload ['V', 'P', '8']) 20
      ⟨.key, [0, 1, 2, 3, 4, 5, 6, 7, 8, 9, 10], [], {}⟩ := by
    refine ⟨by simp, by simp, ⟨Or.inl rfl, Or.inl rfl, Or.inl rfl, Or.inl rfl, by simp⟩, ?_, ?_⟩
    · decide
    · decide
  refine ⟨hok, (formats_agree_iff _ _ _ hok).2 ⟨by decide, by decide, by decide, ?_⟩⟩
  intro _ _
  decide

/-- An IDR slice sent in one packet: the receiver takes its first octet for a
generic header and drops it. -/
theorem h264_stripped :
    let f : Frame := ⟨.key, [0x65, 0x88, 0x84], [⟨0, 3⟩], {}⟩
    FrameOk (registerVideoPayload ['H', '2', '6', '4']) 1200 f ∧
      send (registerVideoPayload ['H', '2', '6', '4']) 1200 f = [[0x65, 0x88, 0x84]] ∧
      (parseRtpPacket (registerReceivePayload ['H', '2', '6', '4']) [0x65, 0x88, 0x84]).map
        (·.payload) = some [0x88, 0x84] ∧
      ¬ Agrees ['H', '2', '6', '4'] 1200 f := by
  have hok : FrameOk (registerVideoPayload ['H', '2', '6', '4']) 1200
      ⟨.key, [0x65, 0x88, 0x84], [⟨0, 3⟩], {}⟩ := by
    refine ⟨by simp, by simp, by decide, by simp, fun g hg => ?_⟩
    rw [List.mem_singleton.1 hg]
    exact ⟨by decide, by decide, by decide, by decide⟩
  refine ⟨hok, by decide, by decide, ?_⟩
  unfold Agrees
  rw [registerReceivePayload_h264 (by decide)]
  exact h264_lost hok

end RtcCore.L1.PayloadFormat
