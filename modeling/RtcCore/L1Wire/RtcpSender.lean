import RtcCore.L1Wire.RtcpRoundTrip

/-!
# `RTCPSender`: the feedback packets it writes itself

`webrtc/modules/rtp_rtcp/source/rtcp_sender.cc` does not use the packet
builders: it writes REMB, TMMBR, TMMBN, RPSI and NACK packets octet by octet
behind position `pos` of a buffer of `IP_PACKET_SIZE` octets. Each function
returns the octets it appends; no value: it returns -2 and appends nothing.

Results: where both exist, the octets are those of the packet builder
(`buildREMB_eq`, `buildTMMBR_eq`, `buildTMMBN_eq`).
-/
namespace RtcCore.L1.Rtcp

open Bytes RtcpPacket

/-! ## Bitrates -/

/-- The search for an exponent, in each of the three functions. As in
`computeExponent`, shifts by 32 and more are taken modulo 32.
mirrors webrtc/modules/rtp_rtcp/source/rtcp_sender.cc:1008-1017,1126-1135,1187-1196 -/
def searchExp (mantissaMax bitRate : UInt32) : Nat :=
  ((List.range 64).find? fun i => decide (bitRate ≤ mantissaMax <<< UInt32.ofNat i)).getD 0

def brExp (rembBitrate : UInt32) : Nat := searchExp 262143 rembBitrate

def mmbrExp (bitRate : UInt32) : Nat := searchExp 131071 bitRate

/-- mirrors webrtc/modules/rtp_rtcp/source/rtcp_sender.cc:1017-1020 -/
def rembBitrateOctets (rembBitrate : UInt32) : UInt8 × UInt8 × UInt8 :=
  let brMantissa := rembBitrate >>> UInt32.ofNat (brExp rembBitrate)
  ((UInt8.ofNat (brExp rembBitrate) <<< 2) + ((brMantissa >>> 16) &&& 0x03).toUInt8,
    (brMantissa >>> 8).toUInt8, brMantissa.toUInt8)

/-- mirrors webrtc/modules/rtp_rtcp/source/rtcp_sender.cc:976-1027 -/
def buildREMB (pos : Nat) (ssrc rembBitrate : UInt32) (rembSsrcs : List UInt32) : Option Bytes :=
  if pos + 20 + 4 * rembSsrcs.length ≥ IP_PACKET_SIZE then none
  else
    let (b₀, b₁, b₂) := rembBitrateOctets rembBitrate
    some ([0x80 + 15, 206, 0, UInt8.ofNat (rembSsrcs.length + 4)] ++ be32 ssrc.toNat ++ be32 0 ++
      [0x52, 0x45, 0x4D, 0x42, UInt8.ofNat rembSsrcs.length, b₀, b₁, b₂] ++
      rembSsrcs.flatMap fun s => be32 s.toNat)

/-- The last three octets hold the overhead, too.
mirrors webrtc/modules/rtp_rtcp/source/rtcp_sender.cc:1135-1140,1196-1202 -/
def mmbrOctets (bitRate overhead : UInt32) : UInt8 × UInt8 × UInt8 × UInt8 :=
  let mmbrMantissa := bitRate >>> UInt32.ofNat (mmbrExp bitRate)
  ((UInt8.ofNat (mmbrExp bitRate) <<< 2) + ((mmbrMantissa >>> 15) &&& 0x03).toUInt8,
    (mmbrMantissa >>> 7).toUInt8,
    (mmbrMantissa <<< 1).toUInt8 + ((overhead >>> 8) &&& 0x01).toUInt8, overhead.toUInt8)

/-- A tuple of the bounding set; the bitrate is in kbit/s. -/
structure MmbrTuple where
  ssrc : UInt32
  tmmbr : UInt32
  packetOH : UInt32

def MmbrTuple.octets (t : MmbrTuple) : Bytes :=
  let (b₀, b₁, b₂, b₃) := mmbrOctets (t.tmmbr * 1000) t.packetOH
  be32 t.ssrc.toNat ++ [b₀, b₁, b₂, b₃]

/-- The part that writes, behind the look at the bounding set.
mirrors webrtc/modules/rtp_rtcp/source/rtcp_sender.cc:1093-1143 -/
def buildTMMBR (pos : Nat) (ssrc remoteSSRC tmmbrSend packetOHSend : UInt32) : Option Bytes :=
  if tmmbrSend = 0 then some []
  else if pos + 20 ≥ IP_PACKET_SIZE then none
  else some ([0x80 + 3, 205, 0, 4] ++ be32 ssrc.toNat ++ [0, 0, 0, 0] ++
    MmbrTuple.octets ⟨remoteSSRC, tmmbrSend, packetOHSend⟩)

/-- Tuples without a bitrate are left out.
mirrors webrtc/modules/rtp_rtcp/source/rtcp_sender.cc:1145-1210 -/
def buildTMMBN (pos : Nat) (ssrc : UInt32) (boundingSet : List MmbrTuple) : Option Bytes :=
  if pos + 12 + boundingSet.length * 8 ≥ IP_PACKET_SIZE then none
  else
    let written := boundingSet.filter fun t => decide (t.tmmbr > 0)
    some ([0x80 + 4, 205] ++ be16 (2 + 2 * written.length) ++ be32 ssrc.toNat ++ [0, 0, 0, 0] ++
      written.flatMap MmbrTuple.octets)

/-! ## Reference pictures and losses -/

/-- -2; or an assertion fails or C++ does not define what happens; or the octets. -/
inductive Outcome (α : Type)
  | refused
  | fails
  | built (a : α)

/-- No value: the picture id is shifted by 64 or more.
mirrors webrtc/modules/rtp_rtcp/source/rtcp_sender.cc:917-924 -/
def rpsiBytesRequired (pictureID : UInt64) : Nat → Nat → Nat → Option Nat
  | 0, _, _ => none
  | fuel + 1, bitsRequired, bytesRequired =>
    if 64 ≤ bitsRequired then none
    else if pictureID >>> UInt64.ofNat bitsRequired > 0 then
      rpsiBytesRequired pictureID fuel (bitsRequired + 7) (bytesRequired + 1)
    else some bytesRequired

/-- mirrors webrtc/modules/rtp_rtcp/source/rtcp_sender.cc:958-966 -/
def rpsiPictureID (pictureID : UInt64) (bytesRequired : Nat) : Bytes :=
  ((List.range (bytesRequired - 1)).reverse.map fun i =>
    0x80 ||| (pictureID >>> UInt64.ofNat ((i + 1) * 7)).toUInt8) ++ [(pictureID &&& 0x7f).toUInt8]

/-- mirrors webrtc/modules/rtp_rtcp/source/rtcp_sender.cc:901-974 -/
def buildRPSI (pos : Nat) (ssrc remoteSSRC : UInt32) (pictureID : UInt64) (payloadType : UInt8) :
    Outcome Bytes :=
  if pos + 24 ≥ IP_PACKET_SIZE then .refused
  else
    match rpsiBytesRequired pictureID 10 7 1 with
    | none => .fails
    | some bytesRequired =>
      let size := if bytesRequired > 6 then 5 else if bytesRequired > 2 then 4 else 3
      let padding := 4 - (2 + bytesRequired) % 4
      let paddingBytes := if padding = 4 then 0 else padding
      .built ([0x80 + 3, 206, 0, size] ++ be32 ssrc.toNat ++ be32 remoteSSRC.toNat ++
        [UInt8.ofNat (paddingBytes * 8), payloadType] ++ rpsiPictureID pictureID bytesRequired ++
        List.replicate paddingBytes 0)

def kRtcpMaxNackFields : Nat := 253

/-- The outer loop, with the position and the number of fields that may follow:
the octets written and the numbers that are left. The inner loop is that of
`WithList`. No value: the assertion fails.
mirrors webrtc/modules/rtp_rtcp/source/rtcp_sender.cc:1287-1308 -/
def buildNackLoop : Nat → Nat → List UInt16 → Option (Bytes × List UInt16)
  | _, 0, nackList => some ([], nackList)
  | _, _ + 1, [] => some ([], [])
  | pos, k + 1, nack :: ns =>
    let (bitmask, ns) := nackMask nack 0 ns
    if pos + 4 < IP_PACKET_SIZE then
      (buildNackLoop (pos + 4) k ns).map fun r =>
        (be16 nack.toNat ++ be16 bitmask.toNat ++ r.1, r.2)
    else none

/-- With the numbers that are reported as requested.
mirrors webrtc/modules/rtp_rtcp/source/rtcp_sender.cc:1254-1327 -/
def buildNACK (pos : Nat) (ssrc remoteSSRC : UInt32) (nackList : List UInt16) :
    Outcome (Bytes × List UInt16) :=
  if pos + 16 ≥ IP_PACKET_SIZE then .refused
  else
    match buildNackLoop (pos + 12) (min kRtcpMaxNackFields ((IP_PACKET_SIZE - (pos + 12)) / 4))
      nackList with
    | none => .fails
    | some (fields, left) =>
      .built ([0x80 + 1, 205, 0, UInt8.ofNat (2 + fields.length / 4)] ++ be32 ssrc.toNat ++
        be32 remoteSSRC.toNat ++ fields, nackList.take (nackList.length - left.length))

/-! ## The same packets from the builders -/

theorem searchExp_eq (bits : Nat) (v : UInt32) :
    searchExp (UInt32.ofNat (2 ^ bits - 1)) v = computeExponent v bits := rfl

theorem brExp_eq (v : UInt32) : brExp v = computeExponent v 18 := searchExp_eq 18 v

theorem mmbrExp_eq (v : UInt32) : mmbrExp v = computeExponent v 17 := searchExp_eq 17 v

theorem buildREMB_eq {pos : Nat} (p : Remb) (hn : p.ssrcs.list.length ≤ 251)
    (hpos : pos + 20 + 4 * p.ssrcs.list.length < IP_PACKET_SIZE) :
    buildREMB pos p.senderSSRC p.bitRate p.ssrcs.list = some p.block := by
  have hlen : [0, UInt8.ofNat (p.ssrcs.list.length + 4)] =
      be16 (blockToHeaderLength (kCommonFbFmtLength + (8 + 4 * p.ssrcs.list.length))) := by
    rw [blockToHeaderLength, kCommonFbFmtLength,
      show (12 + (8 + 4 * p.ssrcs.list.length)) / 4 - 1 = p.ssrcs.list.length + 4 by omega, be16,
      Nat.div_eq_of_lt (show p.ssrcs.list.length + 4 < 256 by omega)]
    rfl
  have hword : (fun s : UInt32 => be32 s.toNat) = assignUWord32 := rfl
  rw [buildREMB, if_neg (by omega), rembBitrateOctets, brExp_eq, Remb.block, createFeedback,
    createHeader, ← hlen, hword]
  simp only [assignUWord8, List.append_assoc, List.cons_append, List.nil_append]
  rfl

theorem MmbrTuple.octets_eq (i : TmmbrItem) :
    MmbrTuple.octets ⟨i.ssrc, i.bitrateKbps, i.overhead.toUInt32⟩ = createTmmbrItem i := by
  have hover : ((i.overhead.toUInt32 >>> 8) &&& 0x01).toUInt8 =
      ((i.overhead >>> 8) &&& 0x01).toUInt8 := by
    apply UInt8.toNat_inj.1
    simp
  have hlow : i.overhead.toUInt32.toUInt8 = i.overhead.toUInt8 := by
    apply UInt8.toNat_inj.1
    simp
  rw [octets, mmbrOctets, mmbrExp_eq, createTmmbrItem, hover, hlow]
  rfl

theorem buildTMMBR_eq {pos : Nat} (p : Tmmbr) (hpos : pos + 20 < IP_PACKET_SIZE)
    (hrate : p.item.bitrateKbps ≠ 0) :
    buildTMMBR pos p.senderSSRC p.item.ssrc p.item.bitrateKbps p.item.overhead.toUInt32 =
      some p.block := by
  rw [buildTMMBR, if_neg hrate, if_neg (by omega), MmbrTuple.octets_eq]
  rfl

theorem buildTMMBN_eq {pos : Nat} (p : Tmmbn)
    (hpos : pos + 12 + p.items.list.length * 8 < IP_PACKET_SIZE)
    (hrate : ∀ i ∈ p.items.list, 0 < i.bitrateKbps) :
    buildTMMBN pos p.senderSSRC (p.items.list.map fun i =>
      ⟨i.ssrc, i.bitrateKbps, i.overhead.toUInt32⟩) = some p.block := by
  have hall : (p.items.list.map fun i =>
      MmbrTuple.mk i.ssrc i.bitrateKbps i.overhead.toUInt32).filter
        (fun t => decide (t.tmmbr > 0)) = p.items.list.map fun i =>
          ⟨i.ssrc, i.bitrateKbps, i.overhead.toUInt32⟩ := by
    apply List.filter_eq_self.2
    intro t ht
    obtain ⟨i, hi, rfl⟩ := List.mem_map.1 ht
    exact decide_eq_true (hrate i hi)
  rw [buildTMMBN, List.length_map, if_neg (by omega), hall]
  simp only [List.flatMap_map, List.length_map, MmbrTuple.octets_eq]
  rw [Tmmbn.block, createFeedback, createHeader, blockToHeaderLength, kCommonFbFmtLength,
    show (12 + 8 * p.items.list.length) / 4 - 1 = 2 + 2 * p.items.list.length by omega]
  simp only [List.append_assoc]
  rfl

/-- A parser that takes reduced-size packets gets the items of a packet that stands alone. -/
theorem single_delivered (p : Packet) (hr : p.representable) (hne : p ≠ .empty)
    (hlen : p.blockLength ≤ IP_PACKET_SIZE) : Delivered p.block true p.items := by
  have hpackets : (RtcpPacket.mk p []).packets = [p] := by
    cases p with
    | empty => exact absurd rfl hne
    | _ => rfl
  have hbuilt : (RtcpPacket.mk p []).built IP_PACKET_SIZE = [p] := by
    rw [built, hpackets, written, if_neg (by omega)]
    rfl
  have h := build_delivered (.mk p []) true (show IP_PACKET_SIZE < 65536 by decide) (by
    rw [hpackets]
    simp [hr])
  rw [build_eq, itemsBuilt, hbuilt] at h
  simpa using h

end RtcCore.L1.Rtcp
