import Mathlib.Data.List.Sort
import RtcCore.L1Wire.Vp8Packets
import RtcCore.L3Video.SessionComplete
import RtcCore.L3Video.Vp8Fragmentation

/-!
# A VP8 frame from the packetizer to the decoder

The packets of a frame travel in any order and more than once. When each of them
has come the session holds them in the order of the queue, each at the offset
that it has in the payload (`Sent`); so the buffer starts with the payload, and
the fragmentation header finds the partitions the sender has put into packets of
their own.

Results:
- `strict_within`, `octetsOf_partition`: in mode `kStrict` the packets of a
  partition are as long as the partition.
- `delivered`: what the session holds.
- `payload_delivered`: the octets and the partitions.
-/
namespace RtcCore.L1.Vp8

open Bytes

/-! ## The packets of a partition -/

/-- In mode `kStrict` no packet goes over the end of its partition. -/
theorem generateLoop_within {p : Packetizer} (hv : p.Valid) (haggr : p.mode.aggr = .none) :
    ∀ (fuel total : Nat) (s b : Bool) (partIx : Nat), LoopAt p total s partIx →
      ∀ i ∈ generateLoop p fuel total s b partIx,
        i.payloadStartPos + i.size ≤
          p.partOffset i.firstPartitionIx + p.partLength i.firstPartitionIx := by
  intro fuel
  induction fuel with
  | zero => exact fun _ _ _ _ _ i hi => absurd hi List.not_mem_nil
  | succ fuel ih =>
    intro total s b partIx h i hi
    unfold generateLoop at hi
    by_cases hlt : total < p.payload.length
    · rw [if_pos hlt] at hi
      obtain ⟨-, hnext⟩ := h.next hv (b := b) hlt
      rcases List.mem_cons.1 hi with rfl | hi
      · obtain ⟨hix, hoff, hend⟩ := h.inside hlt
        have hok := fillPacket_ok hv total b s p.room
          ⟨0, p.room, p.partOffset partIx + p.partLength partIx - total, partIx, true⟩
          ⟨hix, by dsimp only; omega, by dsimp only; omega⟩
        have hstay := fillPacket_none haggr b s p.room
          ⟨0, p.room, p.partOffset partIx + p.partLength partIx - total, partIx, true⟩
        have hsum := hok.sum
        rw [hstay] at hsum
        dsimp only at hsum ⊢
        omega
      · exact ih _ _ _ _ hnext i hi
    · rw [if_neg hlt] at hi
      exact absurd hi List.not_mem_nil

theorem strict_within {p : Packetizer} (hv : p.Valid) (hmode : p.mode = .strict)
    {q : List PacketInfo} (hq : queue p = some q) : ∀ i ∈ q,
    i.payloadStartPos + i.size ≤
      p.partOffset i.firstPartitionIx + p.partLength i.firstPartitionIx := by
  have hroom := hv.room
  have haggr : p.mode.aggr = .none := by rw [hmode]; rfl
  have hp0 := hv.pos 0 hv.nonempty
  have hfirst := hv.first
  have hat : LoopAt p 0 true 0 :=
    { inside := fun _ => ⟨hv.nonempty, by omega, by omega⟩
      le := Nat.zero_le _
      flag := fun _ _ => hfirst.symm
      none := fun _ h => by simp at h
      fragments := fun _ _ => by simp }
  rw [queue, if_neg (by rw [haggr]; simp), generatePackets, if_neg (by omega)] at hq
  cases hq
  exact generateLoop_within hv haggr _ _ _ _ _ hat

/-- How many octets the packets that start in partition `k` have. -/
def octetsOf (k : Nat) (q : List PacketInfo) : Nat :=
  ((q.filter fun i => i.firstPartitionIx == k).map PacketInfo.size).sum

theorem partOffset_mono {p : Packetizer} (hv : p.Valid) : ∀ {j k : Nat}, j < k →
    k < p.parts.length → p.partOffset j + p.partLength j ≤ p.partOffset k := by
  intro j k hjk
  induction k with
  | zero => omega
  | succ k ih =>
    intro hk
    have hnext := hv.next k (by omega)
    obtain hlt | rfl := Nat.lt_succ_iff_lt_or_eq.1 hjk
    · have := ih hlt (by omega)
      omega
    · omega

/-- Packets that keep to their partitions have what is left of partition `k`. -/
theorem octetsOf_rest {p : Packetizer} (hv : p.Valid) {k : Nat} (hk : k < p.parts.length) :
    ∀ (q : List PacketInfo) (lo : Nat), Tiles lo p.payload.length (q.map PacketInfo.range) →
      (∀ i ∈ q, p.Starts i) → (∀ i ∈ q, i.payloadStartPos + i.size ≤
        p.partOffset i.firstPartitionIx + p.partLength i.firstPartitionIx) →
      octetsOf k q = p.partOffset k + p.partLength k - max lo (p.partOffset k) := by
  intro q
  induction q with
  | nil =>
    intro lo htiles _ _
    have hin := hv.inside hk
    have heq : lo = p.payload.length := htiles
    rw [show octetsOf k [] = 0 from rfl]
    omega
  | cons i q ih =>
    intro lo htiles hstarts hwithin
    obtain ⟨hlo, hpos, htiles⟩ : i.payloadStartPos = lo ∧ 0 < i.size ∧
      Tiles (lo + i.size) p.payload.length (q.map PacketInfo.range) := htiles
    have hrest := ih _ htiles (fun j hj => hstarts j (.tail _ hj))
      fun j hj => hwithin j (.tail _ hj)
    have hs := hstarts i (.head _)
    have hw := hwithin i (.head _)
    have hl := hs.lower
    rw [octetsOf, List.filter_cons]
    rcases Nat.lt_trichotomy i.firstPartitionIx k with hlt | heq | hgt
    · have := partOffset_mono hv hlt hk
      rw [if_neg (by simp; omega)]
      rw [octetsOf] at hrest
      omega
    · rw [if_pos (by simp [heq]), List.map_cons, List.sum_cons]
      rw [octetsOf] at hrest
      rw [heq] at hw hl
      omega
    · have := partOffset_mono hv hgt hs.ix
      rw [if_neg (by simp; omega)]
      rw [octetsOf] at hrest
      omega

theorem octetsOf_partition {p : Packetizer} (hv : p.Valid) (hmode : p.mode = .strict)
    {q : List PacketInfo} (hq : queue p = some q) (hl : p.Lossless q) {k : Nat}
    (hk : k < p.parts.length) : octetsOf k q = p.partLength k := by
  rw [octetsOf_rest hv hk q 0 hl.tiles hl.starts (strict_within hv hmode hq)]
  omega

/-- Each packet starts in a partition that is not before the one of an earlier packet, and in a
later one when it begins it. -/
theorem partitions_ordered {p : Packetizer} (hv : p.Valid) {q : List PacketInfo}
    (hl : p.Lossless q) : q.Pairwise fun i j => i.firstPartitionIx ≤ j.firstPartitionIx ∧
      (j.firstFragment = true → i.firstPartitionIx < j.firstPartitionIx) := by
  have hpair := List.pairwise_map.1 hl.tiles.pairwise
  refine hpair.imp_of_mem fun {i j} hi hj hij => ?_
  have hsi := hl.starts i hi
  have hsj := hl.starts j hj
  have hpos : 0 < i.size := (hl.tiles.mem _ (List.mem_map_of_mem (f := PacketInfo.range) hi)).2.1
  have hij : i.payloadStartPos + i.size ≤ j.payloadStartPos := hij
  have h1 := hsi.lower
  have h2 := hsj.upper
  have hle : i.firstPartitionIx ≤ j.firstPartitionIx := by
    by_contra hgt
    have := partOffset_mono hv (Nat.lt_of_not_le hgt) hsi.ix
    omega
  refine ⟨hle, fun hf => Nat.lt_of_le_of_ne hle fun heq => ?_⟩
  have := hsj.flag hf
  rw [heq] at h1
  omega

/-- In mode `kStrict` a packet that does not go on with a partition begins the next one. -/
theorem strict_begins {p : Packetizer} (hv : p.Valid) {q : List PacketInfo}
    (hwithin : ∀ i ∈ q, i.payloadStartPos + i.size ≤
      p.partOffset i.firstPartitionIx + p.partLength i.firstPartitionIx)
    (hmarked : ∀ i ∈ q, i.payloadStartPos = p.partOffset i.firstPartitionIx →
      i.firstFragment = true) (hstarts : ∀ i ∈ q, p.Starts i) {lo hi : Nat}
    (htiles : Tiles lo hi (q.map PacketInfo.range)) :
    q.IsChain fun i j => i.firstPartitionIx < j.firstPartitionIx → j.firstFragment = true := by
  induction q generalizing lo with
  | nil => exact .nil
  | cons i q ih =>
    obtain ⟨hlo, -, htiles⟩ : i.payloadStartPos = lo ∧ 0 < i.size ∧
      Tiles (lo + i.size) hi (q.map PacketInfo.range) := htiles
    have hrest := ih (fun j hj => hwithin j (.tail _ hj)) (fun j hj => hmarked j (.tail _ hj))
      (fun j hj => hstarts j (.tail _ hj)) htiles
    cases q with
    | nil => exact .singleton i
    | cons j q =>
      refine List.isChain_cons_cons.2 ⟨fun hlt => ?_, hrest⟩
      have hjmem : j ∈ i :: j :: q := .tail _ (.head _)
      have hs := hstarts j hjmem
      have hend := partOffset_mono hv hlt hs.ix
      have hw := hwithin i (.head _)
      have hl := hs.lower
      have hj : j.payloadStartPos = lo + i.size := htiles.1
      exact hmarked j hjmem (by omega)

theorem sendAll_get {p : Packetizer}
    (hn : 1 + payloadDescriptorExtraLength p.hdr + 1 ≤ p.maxPayloadLen) :
    ∀ q : List PacketInfo, (sendAll p q).length = q.length ∧ ∀ (k : Nat) (b : Bytes) (l : Bool),
      (sendAll p q)[k]? = some (b, l) → ∃ i, q[k]? = some i ∧
        b = descriptor p.hdr i :: (extension p.hdr ++ slice p.payload i.payloadStartPos i.size) := by
  intro q
  induction q with
  | nil => exact ⟨rfl, fun k b l h => by simp [sendAll] at h⟩
  | cons i q ih =>
    have hstep : sendAll p (i :: q) = (descriptor p.hdr i :: (extension p.hdr ++
        slice p.payload i.payloadStartPos i.size), q.isEmpty) :: sendAll p q := by
      simp [sendAll, nextPacket, writeHeaderAndPayload_eq hn]
    rw [hstep]
    refine ⟨by simp [ih.1], fun k b l h => ?_⟩
    cases k with
    | zero =>
      rw [List.getElem?_cons_zero, Option.some.injEq, Prod.mk.injEq] at h
      exact ⟨i, rfl, h.1.symm⟩
    | succ k =>
      rw [List.getElem?_cons_succ] at h
      exact ih.2 k b l h

/-- The queue and its packets. -/
theorem queue_spec {p : Packetizer} (hv : p.Valid) : ∃ q, queue p = some q ∧ p.Lossless q ∧
    (p.mode = .strict → ∀ i ∈ q, i.payloadStartPos = p.partOffset i.firstPartitionIx →
      i.firstFragment = true) ∧
    (p.mode = .equalSize → ∀ i ∈ q, (i.firstFragment = true ↔ i.payloadStartPos = 0)) := by
  unfold queue
  split
  · rename_i hmode
    obtain ⟨q, hq, hl, hflag⟩ := balanced_lossless hv
    refine ⟨q, hq, hl, fun _ => hflag, fun he => ?_⟩
    rw [he] at hmode
    simp [Mode.aggr] at hmode
  · exact generatePackets_lossless hv

end RtcCore.L1.Vp8

namespace RtcCore.L3.Session

open Bytes Serial L1.Vp8

/-! ## The packets as received -/

section Received

variable {p : Packetizer} {q : List PacketInfo} {timestamp : UInt32} {base : UInt16} {k : Nat}
  {x : VCMPacket}

/-- A packet that was received has its octets of the payload and the header of the frame. -/
theorem received_packet (hv : p.Valid) (hok : HeaderOk p.hdr) (hq : queue p = some q)
    (hl : p.Lossless q) (h : (VideoFrame.vp8 p).received timestamp base k = some x) :
    ∃ i, q[k]? = some i ∧ x.data = slice p.payload i.payloadStartPos i.size ∧
      x.codecSpecificHeader.codec = .vp8 (carried p.hdr i) := by
  unfold VideoFrame.received at h
  split at h
  · cases h
  rename_i b l hget
  obtain ⟨r, hr, rfl⟩ := Option.map_eq_some_iff.1 h
  have hpk : (VideoFrame.vp8 p).packetize = sendAll p q := by
    rw [VideoFrame.packetize, packetize, hq]
  rw [hpk] at hget
  obtain ⟨i, hi, rfl⟩ := (sendAll_get hv.room q).2 k b l hget
  have hmem := List.mem_of_getElem? hi
  obtain ⟨-, hpos, hend⟩ := hl.tiles.mem i.range (List.mem_map_of_mem hmem)
  change 0 < i.size at hpos
  change i.payloadStartPos + i.size ≤ p.payload.length at hend
  have hne : slice p.payload i.payloadStartPos i.size ≠ [] := by
    refine List.length_pos_iff.1 ?_
    rw [slice_length hend]
    exact hpos
  have hix : i.firstPartitionIx ≤ 8 := by
    have := (hl.starts i hmem).ix
    have := hv.le_nine
    omega
  rw [VideoFrame.parse, parse_write hok hix hne] at hr
  obtain ⟨wh, -, rfl⟩ := Option.map_eq_some_iff.1 hr
  exact ⟨i, hi, rfl, rfl⟩

theorem packetize_length (hv : p.Valid) (hq : queue p = some q) :
    (VideoFrame.vp8 p).packetize.length = q.length := by
  rw [VideoFrame.packetize, packetize, hq]
  exact (sendAll_get hv.room q).1

end Received

/-! ## One insertion -/

/-- The frame's octets stay in place, also when the list is full. -/
theorem delivered_step {n : Nat} {base : UInt16} {frame : List VCMPacket} {len : Nat} {s : Info}
    {buf : Bytes} {p : VCMPacket} {i : Nat} (ht : Tracked n base s) (hp : IsPacket n base i p)
    (hn : n ≤ kMaxPacketsInSession) (hf : FrameOk base frame len) (hmem : p ∈ frame)
    (h : Assembled base frame len s buf) (mode : DecodeErrorMode) (d : FrameData) :
    Assembled base frame len (insertPacket s buf p mode d).2.1 (insertPacket s buf p mode d).2.2 := by
  have hn' : n ≤ 0x8000 := by simp only [kMaxPacketsInSession] at hn; omega
  by_cases hfull : s.packets.length = kMaxPacketsInSession
  · rw [insertPacket, if_neg hp.media, if_pos hfull]
    exact h
  · refine assembled_step hf hmem h ?_
    have hdup := ht.isDuplicate_iff hn' p.seqNum (by rw [hp.pos hn']; exact hp.lt)
    rw [insertPacket, if_neg hp.media, if_neg hfull]
    split
    · exact .inr rfl
    · rename_i hd
      obtain ⟨t, htr, -⟩ := track_packet ht hp hn' fun hm => hd (hdup.2 hm)
      rw [htr]
      exact .inl (Int.natCast_nonneg _)

theorem delivered_run {n : Nat} {base : UInt16} {frame : List VCMPacket} {len : Nat}
    (hn : n ≤ kMaxPacketsInSession) (hf : FrameOk base frame len) {as : List Arrival}
    (hmem : ∀ a ∈ as, a.1 ∈ frame ∧ ∃ i, IsPacket n base i a.1) : ∀ {s : Info} {buf : Bytes},
    Tracked n base s → Assembled base frame len s buf →
    Assembled base frame len (insertAll s buf as).2.1 (insertAll s buf as).2.2 := by
  induction as with
  | nil => exact fun _ h => h
  | cons a as ih =>
    intro s buf ht h
    obtain ⟨hin, i, hi⟩ := hmem a (.head _)
    exact ih (fun b hb => hmem b (.tail _ hb)) (tracked_step ht hi hn buf a.2.1 a.2.2).1
      (delivered_step ht hi hn hf hin h a.2.1 a.2.2)

/-! ## What the session holds -/

/-- A packet of the list as the packetizer planned it. -/
def infoOf (x : Stored) : PacketInfo := ⟨x.dataPtr, x.sizeBytes, beginning x, partitionId x⟩

/-- The session holds the packets of the frame: those of the queue, one after the other, and the
buffer starts with the payload. -/
structure Delivered (p : Packetizer) (q : List PacketInfo) (s : Info) (buf : Bytes) : Prop where
  complete : s.complete = true
  bytes : buf.take s.sessionLength = p.payload
  header : ∀ x ∈ s.packets, x.pkt.codecSpecificHeader.codec = .vp8 (carried p.hdr (infoOf x))
  infos : s.packets.map infoOf = q
  data : ∀ x ∈ s.packets, x.pkt.data ≠ []
  numbers : s.packets.IsChain fun x y => inSequenceWith x y = true

theorem expanded_vp8 {x : VCMPacket} {h : VP8Header} (hx : x.codecSpecificHeader.codec = .vp8 h)
    (hs : x.insertStartCode = false) : expanded x = x.data := by
  rw [expanded, VCMPacket.isStapA, hx, hs]
  rfl

/-- Packets laid out one after the other stand where their ranges are. -/
theorem infos_of_laid {p : Packetizer} : ∀ {ps : List Stored} {q : List PacketInfo} {lo : Nat},
    LaidOut lo ps → Tiles lo p.payload.length (q.map PacketInfo.range) →
    List.Forall₂ (fun x i => expanded x.pkt = slice p.payload i.payloadStartPos i.size ∧
      x.pkt.codecSpecificHeader.codec = .vp8 (carried p.hdr i)) ps q →
    ps.map infoOf = q ∧ content ps = slice p.payload lo (p.payload.length - lo) := by
  intro ps q lo hlaid htiles hall
  induction hall generalizing lo with
  | nil =>
    have hlo : lo = p.payload.length := htiles
    rw [hlo, Nat.sub_self]
    exact ⟨rfl, by simp [content, slice]⟩
  | @cons x i ps q hx _ ih =>
    obtain ⟨hdata, hcodec⟩ := hx
    obtain ⟨hptr, hsize, hlaid⟩ := hlaid
    obtain ⟨hlo, -, htiles⟩ : i.payloadStartPos = lo ∧ 0 < i.size ∧
      Tiles (lo + i.size) p.payload.length (q.map PacketInfo.range) := htiles
    have hle := htiles.le
    rw [hdata, slice_length (by omega)] at hsize
    obtain ⟨hinfos, hcontent⟩ := ih (hsize ▸ hlaid) htiles
    have hinfo : infoOf x = i := by
      rw [infoOf, beginning, partitionId, vp8Header, hcodec, hptr, hsize]
      cases i
      cases hlo
      rfl
    refine ⟨by rw [List.map_cons, hinfo, hinfos], ?_⟩
    rw [content_cons, hdata, hcontent, hlo, ← slice_add]
    congr 1
    omega

/-- The packets of a frame, all of which can be depacketized, in their order. -/
structure IsFrame (p : Packetizer) (q : List PacketInfo) (timestamp : UInt32) (base : UInt16)
    (frame : List VCMPacket) : Prop where
  length : frame.length = q.length
  received : ∀ i (h : i < frame.length),
    (VideoFrame.vp8 p).received timestamp base i = some frame[i]

section Frame

variable {p : Packetizer} {q : List PacketInfo} {timestamp : UInt32} {base : UInt16}
  {frame : List VCMPacket} {i : Nat} {x : VCMPacket}

theorem isPacket_of_received (hv : p.Valid) (hq : queue p = some q)
    (h : (VideoFrame.vp8 p).received timestamp base i = some x) : IsPacket q.length base i x :=
  packetize_length hv hq ▸ VideoFrame.isPacket (f := .vp8 p) hv h

theorem exists_isFrame
    (hall : ∀ i < q.length, ∃ x, (VideoFrame.vp8 p).received timestamp base i = some x) :
    ∃ frame, IsFrame p q timestamp base frame := by
  choose g hg using hall
  refine ⟨List.ofFn fun i : Fin q.length => g i i.isLt, List.length_ofFn, fun i h => ?_⟩
  rw [List.getElem_ofFn]
  exact hg i _

theorem IsFrame.mem (hf : IsFrame p q timestamp base frame) (hv : p.Valid) (hq : queue p = some q)
    (h : (VideoFrame.vp8 p).received timestamp base i = some x) : x ∈ frame := by
  have hi : i < frame.length := hf.length ▸ (isPacket_of_received hv hq h).lt
  have := (hf.received i hi).symm.trans h
  exact Option.some.inj this ▸ List.getElem_mem hi

theorem IsFrame.ranges (hf : IsFrame p q timestamp base frame) (hv : p.Valid)
    (hok : HeaderOk p.hdr) (hq : queue p = some q) (hl : p.Lossless q) :
    List.Forall₂ (fun x i => expanded x = slice p.payload i.payloadStartPos i.size ∧
      x.codecSpecificHeader.codec = .vp8 (carried p.hdr i)) frame q := by
  refine List.forall₂_iff_get.2 ⟨hf.length, fun i h1 h2 => ?_⟩
  have hr := hf.received i h1
  obtain ⟨j, hj, hdata, hcodec⟩ := received_packet hv hok hq hl hr
  rw [List.getElem?_eq_getElem h2, Option.some.injEq] at hj
  rw [List.get_eq_getElem, List.get_eq_getElem, hj]
  exact ⟨(expanded_vp8 hcodec (isPacket_of_received hv hq hr).startCode).trans hdata, hcodec⟩

theorem flatMap_ranges {frame : List VCMPacket} {q : List PacketInfo}
    (h : List.Forall₂ (fun x i => expanded x = slice p.payload i.payloadStartPos i.size ∧
      x.codecSpecificHeader.codec = .vp8 (carried p.hdr i)) frame q) :
    frame.flatMap expanded = (q.map PacketInfo.range).flatMap fun r => slice p.payload r.1 r.2 := by
  induction h with
  | nil => rfl
  | cons hx _ ih =>
    rw [List.flatMap_cons, ih, hx.1]
    rfl

theorem IsFrame.octets (hf : IsFrame p q timestamp base frame) (hv : p.Valid)
    (hok : HeaderOk p.hdr) (hq : queue p = some q) (hl : p.Lossless q) :
    frame.flatMap expanded = p.payload := by
  rw [flatMap_ranges (hf.ranges hv hok hq hl), hl.tiles.flatMap_slice, Nat.sub_zero, slice,
    List.drop_zero, List.take_length]

theorem IsFrame.frameOk (hf : IsFrame p q timestamp base frame) (hv : p.Valid)
    (hok : HeaderOk p.hdr) (hq : queue p = some q) (hl : p.Lossless q) (hn : q.length ≤ 0x8000)
    {len : Nat} (hlen : p.payload.length ≤ len) : FrameOk base frame len := by
  have hpacket := fun i h => isPacket_of_received hv hq (hf.received i h)
  refine frameOk_of_consecutive (hf.length ▸ hn) (fun i h => (hpacket i h).seqNum)
    (fun x hx => ?_) (fun x hx hs => ?_) (hf.octets hv hok hq hl ▸ hlen)
  · obtain ⟨i, hi, rfl⟩ := List.getElem_of_mem hx
    exact (hpacket i hi).media
  · obtain ⟨i, hi, rfl⟩ := List.getElem_of_mem hx
    rw [(hpacket i hi).stapA] at hs
    cases hs

/-- A list in order that has each number of the frame has the packets of the frame. -/
theorem packets_eq_frame {len : Nat} {s : Info} {buf : Bytes} (hfok : FrameOk base frame len)
    (ho : s.packets.Pairwise fun a b => key base a < key base b)
    (hasm : Assembled base frame len s buf)
    (hall : ∀ x ∈ frame, x.seqNum ∈ seqNums s) : s.packets.map Stored.pkt = frame := by
  have hirrefl : Std.Irrefl fun a b : VCMPacket => dist base a.seqNum < dist base b.seqNum :=
    ⟨fun _ => Nat.lt_irrefl _⟩
  have hanti : Std.Antisymm fun a b : VCMPacket => dist base a.seqNum < dist base b.seqNum :=
    ⟨fun _ _ h h' => absurd h' (Nat.lt_asymm h)⟩
  refine List.Pairwise.eq_of_mem_iff (List.pairwise_map.2 ho) hfok.order fun x => ?_
  constructor
  · intro hx
    obtain ⟨y, hy, rfl⟩ := List.mem_map.1 hx
    exact hasm.mem y hy
  · intro hx
    obtain ⟨y, hy, hys⟩ := List.mem_map.1 (hall x hx)
    exact List.mem_map.2 ⟨y, hy, hfok.eq_of_seqNum (hasm.mem y hy) hx hys⟩

theorem inSequence_isChain {ps : List Stored} (h : inSequence ps = true) :
    ps.IsChain fun x y => inSequenceWith x y = true := by
  induction ps with
  | nil => exact .nil
  | cons x ps ih =>
    cases ps with
    | nil => exact .singleton x
    | cons y ps =>
      rw [inSequence, Bool.and_eq_true, decide_eq_true_iff] at h
      exact List.isChain_cons_cons.2 ⟨by rw [inSequenceWith, h.1, beq_self_eq_true], ih h.2⟩

/-- Every packet of the frame has come. -/
theorem delivered (hv : p.Valid) (hok : HeaderOk p.hdr) (hq : queue p = some q)
    (hl : p.Lossless q) (hn : q.length ≤ kMaxPacketsInSession) {buf : Bytes}
    (hbuf : p.payload.length ≤ buf.length) {as : List Arrival}
    (has : ∀ a ∈ as, ∃ i, (VideoFrame.vp8 p).received timestamp base i = some a.1)
    (hall : ∀ i < q.length, ∃ a ∈ as, (VideoFrame.vp8 p).received timestamp base i = some a.1) :
    Delivered p q (insertAll {} buf as).2.1 (insertAll {} buf as).2.2 := by
  have hn' : q.length ≤ 0x8000 := by simp only [kMaxPacketsInSession] at hn; omega
  have h0 : 0 < q.length := by
    rw [← packetize_length hv hq]
    exact List.length_pos_iff.2 (VideoFrame.packetize_ne_nil (f := .vp8 p) hv)
  obtain ⟨frame, hf⟩ := exists_isFrame fun i hi => by
    obtain ⟨a, -, ha⟩ := hall i hi
    exact ⟨a.1, ha⟩
  have hfok := hf.frameOk hv hok hq hl hn' hbuf
  have hempty : Tracked q.length base {} :=
    ⟨fun x hx => absurd hx List.not_mem_nil, List.Pairwise.nil, rfl, rfl, rfl⟩
  have hpacket : ∀ a ∈ as, a.1 ∈ frame ∧ ∃ i, IsPacket q.length base i a.1 := by
    intro a ha
    obtain ⟨i, hi⟩ := has a ha
    exact ⟨hf.mem hv hq hi, i, isPacket_of_received hv hq hi⟩
  obtain ⟨-, ht, hseq⟩ := tracked_run hn (fun a ha => (hpacket a ha).2) buf hempty
  have hlaid : Assembled base frame buf.length {} buf :=
    ⟨trivial, ⟨buf, rfl⟩, rfl, List.Pairwise.nil, fun x hx => absurd hx List.not_mem_nil⟩
  have hasm := delivered_run hn hfok hpacket hempty hlaid
  have hcome : ∀ i < q.length, base + .ofNat i ∈ seqNums (insertAll {} buf as).2.1 := by
    intro i hi
    obtain ⟨a, ha, hr⟩ := hall i hi
    exact (hseq _).2 (.inr ⟨a, ha, (isPacket_of_received hv hq hr).seqNum⟩)
  have hcomplete := (ht.complete_iff_all hn' h0).2 hcome
  generalize (insertAll {} buf as).2.1 = s at ht hasm hcome hcomplete ⊢
  generalize (insertAll {} buf as).2.2 = out at hasm ⊢
  have hpkts : s.packets.map Stored.pkt = frame := by
    refine packets_eq_frame hfok ht.order hasm fun x hx => ?_
    obtain ⟨i, hi, rfl⟩ := List.getElem_of_mem hx
    rw [(isPacket_of_received hv hq (hf.received i hi)).seqNum]
    exact hcome i (hf.length ▸ hi)
  have hranges := hf.ranges hv hok hq hl
  rw [← hpkts, List.forall₂_map_left_iff] at hranges
  obtain ⟨hinfos, hcontent⟩ := infos_of_laid hasm.laid hl.tiles hranges
  obtain ⟨rest, hrest⟩ := hasm.bytes
  refine ⟨hcomplete, ?_, fun x hx => ?_, hinfos, fun x hx => ?_, ?_⟩
  · rw [Info.sessionLength, hasm.laid.sizes, hrest, List.take_left, hcontent, Nat.sub_zero, slice,
      List.drop_zero, List.take_length]
  · rw [← hinfos, List.forall₂_map_right_iff] at hranges
    exact (List.forall₂_same.1 hranges x hx).2
  · obtain ⟨⟨i, hi⟩, -⟩ := ht.packet x hx
    exact hi.data
  · rw [ht.complete, Bool.and_eq_true] at hcomplete
    exact inSequence_isChain hcomplete.2

end Frame

/-! ## The partitions of a complete frame -/

section Partitions

variable {ps : List Stored} {k : Nat}

/-- Each packet is of a partition not before the one of an earlier packet, and of a later one when
it begins it. -/
def Ordered (ps : List Stored) : Prop := ps.Pairwise fun x y =>
  partitionId x ≤ partitionId y ∧ (beginning y = true → partitionId x < partitionId y)

theorem orderlyFrom_ordered : ∀ {xs : List Stored} {c : Nat} {whole : Bool} {prev : Stored},
    (∀ y ∈ xs, beginning y = true → c < partitionId y) → Ordered xs →
    orderlyFrom c whole prev xs = true := by
  intro xs
  induction xs with
  | nil => exact fun _ _ => rfl
  | cons y ys ih =>
    intro c whole prev hc ho
    obtain ⟨hy, hys⟩ := List.pairwise_cons.1 ho
    rw [orderlyFrom]
    split
    · rename_i hb
      rw [decide_eq_true (hc y (.head _) hb), Bool.true_or, Bool.true_and]
      exact ih (fun z hz => (hy z hz).2) hys
    · exact ih (fun z hz => hc z (.tail _ hz)) hys

theorem orderly_of_ordered (ho : Ordered ps) : orderly ps = true := by
  have hsub := ho.sublist (List.dropWhile_suffix fun q => !beginning q).sublist
  rw [orderly, findNextPartitionBeginning]
  cases hd : ps.dropWhile fun q => !beginning q with
  | nil => rfl
  | cons b rest =>
    rw [hd] at hsub
    obtain ⟨hb, hrest⟩ := List.pairwise_cons.1 hsub
    exact orderlyFrom_ordered (fun y hy => (hb y hy).2) hrest

/-- Behind a packet of partition `k` the run goes on as long as the packets are of partition `k`. -/
theorem takeWhile_partition {prev : Stored} (hk : partitionId prev = k) {xs : List Stored}
    (ho : Ordered (prev :: xs)) (hbegin : (prev :: xs).IsChain fun x y =>
      partitionId x < partitionId y → beginning y = true) :
    (xs.takeWhile fun q => !(beginning q && partitionId q != k)) =
      xs.filter fun q => partitionId q == k := by
  induction xs generalizing prev with
  | nil => rfl
  | cons y ys ih =>
    obtain ⟨hy, ho'⟩ := List.pairwise_cons.1 ho
    obtain ⟨hb, hbegin'⟩ := List.isChain_cons_cons.1 hbegin
    obtain heq | hlt := Nat.eq_or_lt_of_le (hy y (.head _)).1
    · have hyk : partitionId y = k := heq.symm.trans hk
      rw [List.takeWhile_cons_of_pos (by simp [hyk]), List.filter_cons_of_pos (by simp [hyk]),
        ih hyk ho' hbegin']
    · have hgt : ∀ z ∈ y :: ys, ¬ (partitionId z == k) = true := by
        intro z hz
        have hle : partitionId y ≤ partitionId z := by
          obtain rfl | hz := List.mem_cons.1 hz
          · exact Nat.le_refl _
          · exact ((List.pairwise_cons.1 ho').1 z hz).1
        rw [beq_iff_eq]
        omega
      rw [List.takeWhile_cons_of_neg (by simp [hb hlt]; omega), List.filter_eq_nil_iff.2 hgt]

theorem partitionPackets_filter (ho : Ordered ps)
    (hhead : ∀ x, ps.head? = some x → partitionId x = k → beginning x = true)
    (hbegin : ps.IsChain fun x y => partitionId x < partitionId y → beginning y = true) :
    partitionPackets ps k = ps.filter fun q => partitionId q == k := by
  rw [partitionPackets]
  induction ps with
  | nil => rfl
  | cons x xs ih =>
    by_cases hx : partitionId x = k
    · have hb := hhead x rfl hx
      rw [List.dropWhile_cons_of_neg (by simp [hb, hx]),
        List.takeWhile_cons_of_pos (by simp [hx]), List.filter_cons_of_pos (by simp [hx]),
        takeWhile_partition hx ho hbegin]
    · rw [List.dropWhile_cons_of_pos (by simp [hx]), List.filter_cons_of_neg (by simp [hx])]
      refine ih (List.pairwise_cons.1 ho).2 (fun y hy hyk => ?_) hbegin.tail
      cases xs with
      | nil => cases hy
      | cons z zs =>
        cases hy
        refine (List.isChain_cons_cons.1 hbegin).1 ?_
        have := ((List.pairwise_cons.1 ho).1 y (.head _)).1
        omega

/-- With no packet missing the packets of a partition are decodable. -/
theorem decodablePackets_complete (hn : ps.IsChain fun x y => inSequenceWith x y = true) :
    decodablePackets ps k = partitionPackets ps k := by
  have hinfix : partitionPackets ps k <:+: ps :=
    (List.takeWhile_prefix _).isInfix.trans (List.dropWhile_suffix _).isInfix
  have hchain := hn.infix hinfix
  rw [decodablePackets]
  cases hp : partitionPackets ps k with
  | nil => rfl
  | cons x xs =>
    rw [hp] at hchain
    rw [consecutivePrefix, consecutiveFrom_unbroken hchain]

theorem partitionPackets_head {x : Stored} (h : (partitionPackets ps k).head? = some x) :
    x ∈ ps ∧ beginning x = true ∧ partitionId x = k := by
  have hnot := List.head?_dropWhile_not (fun q => !(beginning q && partitionId q == k)) ps
  have hsub := (List.dropWhile_suffix (l := ps) fun q =>
    !(beginning q && partitionId q == k)).subset
  rw [partitionPackets] at h
  cases hd : ps.dropWhile fun q => !(beginning q && partitionId q == k) with
  | nil =>
    rw [hd] at h
    cases h
  | cons y ys =>
    rw [hd] at h hnot hsub
    have hxy : y = x := by
      rw [List.takeWhile_cons] at h
      split at h
      · exact Option.some.inj h
      · cases h
    rw [← hxy]
    simpa using And.intro (hsub (.head _)) hnot

theorem sizes_filter (ps : List Stored) (k : Nat) :
    sizes (ps.filter fun q => partitionId q == k) = octetsOf k (ps.map infoOf) := by
  rw [octetsOf, sizes, List.filter_map, List.map_map]
  rfl

end Partitions

section Delivered

variable {p : Packetizer} {q : List PacketInfo} {s : Info} {buf : Bytes}

theorem Delivered.starts (h : Delivered p q s buf) (hl : p.Lossless q) {x : Stored}
    (hx : x ∈ s.packets) : p.Starts (infoOf x) :=
  hl.starts _ (h.infos ▸ List.mem_map_of_mem hx)

theorem Delivered.ordered (h : Delivered p q s buf) (hv : p.Valid) (hl : p.Lossless q) :
    Ordered s.packets := by
  have := partitions_ordered hv hl
  rw [← h.infos, List.pairwise_map] at this
  exact this

theorem Delivered.sound (h : Delivered p q s buf) (hv : p.Valid) (hl : p.Lossless q) (hb : Built s)
    (f : FragmentationHeader) :
    Sound s.packets s.sessionLength (buildVP8FragmentationHeader s.packets f) := by
  obtain ⟨segs, hw⟩ := build_written hb.contiguous f
  have hslot := received_slot hb fun x hx => by
    have hix := (h.starts hl hx).ix
    have := hv.le_nine
    exact ⟨_, h.header x hx, Nat.lt_of_lt_of_le hix this, h.data x hx⟩
  obtain ⟨hids, hun⟩ := (orderly_iff hw.cuts).1 (orderly_of_ordered (h.ordered hv hl))
  exact hw.sound_of_runs hb.contiguous (fun x hx => (hslot x hx).1) (fun x hx => (hslot x hx).2)
    (Nat.le_refl _) hids hun

/-- The range of a partition that has packets: those of the partition, from where the first one
stands. -/
theorem Delivered.range (h : Delivered p q s buf) (hv : p.Valid) (hl : p.Lossless q) (hb : Built s)
    (f : FragmentationHeader) {k : Nat}
    (hfilter : partitionPackets s.packets k = s.packets.filter fun x => partitionId x == k)
    (hpos : 0 < octetsOf k q) : k < (buildVP8FragmentationHeader s.packets f).1.vectorSize ∧
      (buildVP8FragmentationHeader s.packets f).1.length k = octetsOf k q ∧
      (buildVP8FragmentationHeader s.packets f).1.offset k = p.partOffset k := by
  have hsound := h.sound hv hl hb f
  have hdec := (decodablePackets_complete (k := k) h.numbers).trans hfilter
  have hsizes : sizes (decodablePackets s.packets k) = octetsOf k q := by
    rw [hdec, sizes_filter, h.infos]
  have hlt : k < (buildVP8FragmentationHeader s.packets f).1.vectorSize := by
    by_contra hge
    rw [hsound.covered k (Nat.le_of_not_lt hge)] at hsizes
    rw [← hsizes] at hpos
    exact absurd hpos (Nat.lt_irrefl 0)
  refine ⟨hlt, (hsound.exact k hlt).1.trans hsizes, ?_⟩
  cases hhead : (decodablePackets s.packets k).head? with
  | none =>
    rw [List.head?_eq_none_iff] at hhead
    rw [hhead] at hsizes
    rw [← hsizes] at hpos
    exact absurd hpos (Nat.lt_irrefl 0)
  | some x =>
    rw [(hsound.exact k hlt).2 x hhead]
    rw [decodablePackets_complete h.numbers] at hhead
    obtain ⟨hx, hbx, rfl⟩ := partitionPackets_head hhead
    exact (h.starts hl hx).flag hbx

theorem Delivered.length_none (h : Delivered p q s buf) (hv : p.Valid) (hl : p.Lossless q)
    (hb : Built s) (f : FragmentationHeader) {k : Nat}
    (hk : k < (buildVP8FragmentationHeader s.packets f).1.vectorSize)
    (hno : ∀ x ∈ s.packets, ¬ (beginning x = true ∧ partitionId x = k)) :
    (buildVP8FragmentationHeader s.packets f).1.length k = 0 := by
  rw [((h.sound hv hl hb f).exact k hk).1, decodablePackets_complete h.numbers]
  cases hp : partitionPackets s.packets k with
  | nil => rfl
  | cons x xs =>
    have hhead : (partitionPackets s.packets k).head? = some x := by rw [hp, List.head?_cons]
    obtain ⟨hx, hbx⟩ := partitionPackets_head hhead
    exact absurd hbx (hno x hx)

theorem sum_partLength (p : Packetizer) {m : Nat} (hm : m ≤ p.parts.length) :
    ∑ k ∈ Finset.range m, p.partLength k = (p.lens.take m).sum := by
  induction m with
  | zero => rfl
  | succ m ih =>
    rw [Finset.sum_range_succ, ih (by omega), List.take_add_one,
      Packetizer.lens_get (by omega : m < p.parts.length), List.sum_append]
    rfl

/-- In mode `kStrict` the ranges are the partitions. -/
theorem Delivered.partitions (h : Delivered p q s buf) (hv : p.Valid) (hq : queue p = some q)
    (hl : p.Lossless q) (hmode : p.mode = .strict)
    (hmarked : ∀ i ∈ q, i.payloadStartPos = p.partOffset i.firstPartitionIx →
      i.firstFragment = true) (hb : Built s) (f : FragmentationHeader) :
    (∀ k < p.parts.length, k < (buildVP8FragmentationHeader s.packets f).1.vectorSize ∧
      (buildVP8FragmentationHeader s.packets f).1.offset k = p.partOffset k ∧
      (buildVP8FragmentationHeader s.packets f).1.length k = p.partLength k) ∧
    (buildVP8FragmentationHeader s.packets f).2 = p.payload.length := by
  have hwithin := strict_within hv hmode hq
  have hchain := strict_begins hv hwithin hmarked hl.starts hl.tiles
  have hhead : ∀ x, s.packets.head? = some x → beginning x = true := by
    intro x hx
    have hmem := List.mem_of_mem_head? hx
    have hi : (infoOf x).payloadStartPos = 0 := by
      have htiles := hl.tiles
      rw [← h.infos] at htiles
      cases hp : s.packets with
      | nil =>
        rw [hp] at hx
        cases hx
      | cons y ys =>
        rw [hp] at hx htiles
        cases hx
        exact htiles.1
    have hst := h.starts hl hmem
    refine hmarked (infoOf x) (h.infos ▸ List.mem_map_of_mem hmem) ?_
    have := hst.lower
    omega
  rw [← h.infos, List.isChain_map] at hchain
  have hrange : ∀ k < p.parts.length, _ := fun k hk => h.range hv hl hb f
    (partitionPackets_filter (h.ordered hv hl) (fun x hx _ => hhead x hx) hchain)
    (octetsOf_partition hv hmode hq hl hk ▸ hv.pos k hk)
  have hparts : ∀ k < p.parts.length, k < (buildVP8FragmentationHeader s.packets f).1.vectorSize ∧
      (buildVP8FragmentationHeader s.packets f).1.offset k = p.partOffset k ∧
      (buildVP8FragmentationHeader s.packets f).1.length k = p.partLength k := by
    intro k hk
    obtain ⟨h1, h2, h3⟩ := hrange k hk
    exact ⟨h1, h3, h2.trans (octetsOf_partition hv hmode hq hl hk)⟩
  refine ⟨hparts, ?_⟩
  rw [(h.sound hv hl hb f).total, hv.sum]
  have hle : p.parts.length ≤ (buildVP8FragmentationHeader s.packets f).1.vectorSize := by
    have hn := hv.nonempty
    have := (hparts (p.parts.length - 1) (by omega)).1
    omega
  rw [← Finset.sum_subset (Finset.range_subset_range.2 hle) fun k hk hout => ?_,
    Finset.sum_congr rfl fun k hk => (hparts k (Finset.mem_range.1 hk)).2.2,
    sum_partLength p (Nat.le_refl _), Packetizer.lens, List.take_of_length_le (by simp)]
  refine h.length_none hv hl hb f (Finset.mem_range.1 hk) fun x hx hxk => ?_
  rw [Finset.mem_range] at hout
  exact hout (hxk.2 ▸ (h.starts hl hx).ix)

/-- In mode `kEqualSize` one range has the whole frame. -/
theorem Delivered.whole (h : Delivered p q s buf) (hv : p.Valid) (hl : p.Lossless q)
    (hmarked : ∀ i ∈ q, (i.firstFragment = true ↔ i.payloadStartPos = 0)) (hb : Built s)
    (f : FragmentationHeader) :
    0 < (buildVP8FragmentationHeader s.packets f).1.vectorSize ∧
      (buildVP8FragmentationHeader s.packets f).1.offset 0 = 0 ∧
      (buildVP8FragmentationHeader s.packets f).1.length 0 = p.payload.length ∧
      (buildVP8FragmentationHeader s.packets f).2 = p.payload.length := by
  have hsound := h.sound hv hl hb f
  have hinside := hv.inside hv.nonempty
  have hpos := hv.pos 0 hv.nonempty
  have hbegin : ∀ x ∈ s.packets, (beginning x = true ↔ x.dataPtr = 0) := fun x hx =>
    hmarked (infoOf x) (h.infos ▸ List.mem_map_of_mem hx)
  obtain ⟨x, xs, hps, hx0, hxs, hsizes⟩ : ∃ x xs, s.packets = x :: xs ∧ x.dataPtr = 0 ∧
      (∀ y ∈ xs, y.dataPtr ≠ 0) ∧ sizes s.packets = p.payload.length := by
    have htiles := hl.tiles
    have hlaid := hb.contiguous
    rw [← h.infos] at htiles
    have htotal : ∀ (ps : List Stored) (lo : Nat),
        Tiles lo p.payload.length ((ps.map infoOf).map PacketInfo.range) →
        lo + sizes ps = p.payload.length := by
      intro ps
      induction ps with
      | nil => exact fun lo ht => ht
      | cons y ys ih =>
        intro lo ht
        have := ih _ ht.2.2
        rw [sizes_cons]
        exact (Nat.add_assoc ..).symm.trans this
    have hsum := htotal _ _ htiles
    cases hp : s.packets with
    | nil =>
      rw [hp] at hsum
      have : sizes ([] : List Stored) = 0 := rfl
      omega
    | cons y ys =>
      rw [hp] at htiles hsum
      obtain ⟨hy, hypos, htail⟩ := htiles
      refine ⟨y, ys, rfl, hy, fun z hz => ?_, by omega⟩
      have := (htail.mem _ (List.mem_map_of_mem (List.mem_map_of_mem hz))).1
      change 0 < y.sizeBytes at hypos
      change 0 + y.sizeBytes ≤ z.dataPtr at this
      omega
  have hxmem : x ∈ s.packets := hps ▸ .head _
  have hxb := (hbegin x hxmem).2 hx0
  have hxid : partitionId x = 0 := by
    have hst := h.starts hl hxmem
    by_contra hne
    have := partOffset_mono hv (Nat.pos_of_ne_zero hne) hst.ix
    have hlow : p.partOffset (partitionId x) ≤ x.dataPtr := hst.lower
    omega
  have hother : ∀ y ∈ xs, beginning y = false := fun y hy =>
    Bool.eq_false_iff.2 fun hby => hxs y hy ((hbegin y (hps ▸ .tail _ hy)).1 hby)
  have hwhole : decodablePackets s.packets 0 = s.packets := by
    rw [decodablePackets_complete h.numbers, hps, partitionPackets,
      List.dropWhile_cons_of_neg (by simp [hxb, hxid]), List.takeWhile_eq_self_iff.2]
    intro y hy
    obtain rfl | hy := List.mem_cons.1 hy
    · simp [hxid]
    · simp [hother y hy]
  have hlt : 0 < (buildVP8FragmentationHeader s.packets f).1.vectorSize := by
    by_contra hge
    have := hsound.covered 0 (Nat.le_of_not_lt hge)
    rw [hwhole, hps] at this
    cases this
  have hlen : (buildVP8FragmentationHeader s.packets f).1.length 0 = p.payload.length := by
    rw [(hsound.exact 0 hlt).1, hwhole, hsizes]
  refine ⟨hlt, ?_, hlen, ?_⟩
  · rw [(hsound.exact 0 hlt).2 x (by rw [hwhole, hps]; rfl), hx0]
  · rw [hsound.total, Finset.sum_eq_single 0, hlen]
    · intro k hk hk0
      refine h.length_none hv hl hb f (Finset.mem_range.1 hk) fun y hy hstart => ?_
      obtain ⟨hby, hyk⟩ := hstart
      rw [hps] at hy
      obtain rfl | hy := List.mem_cons.1 hy
      · exact hk0 (hyk.symm.trans hxid)
      · rw [hother y hy] at hby
        cases hby
    · exact fun hno => absurd (Finset.mem_range.2 hlt) hno

end Delivered

/-- **From the packetizer to the decoder.** A frame of at most 800 packets, each of which arrives,
in any order and any number of times: the session is complete, holds the packets of the queue with
the header of the frame, and its buffer starts with the payload. The fragmentation header has the
partitions of mode `kStrict`, and the whole frame as one in mode `kEqualSize`. -/
theorem payload_delivered (p : Packetizer) (hv : p.Valid) (hok : HeaderOk p.hdr)
    (hn : (VideoFrame.vp8 p).packetize.length ≤ kMaxPacketsInSession) (timestamp : UInt32)
    (base : UInt16) (buf : Bytes) (hbuf : p.payload.length ≤ buf.length) (as : List Arrival)
    (has : ∀ a ∈ as, ∃ i, (VideoFrame.vp8 p).received timestamp base i = some a.1)
    (hall : ∀ i < (VideoFrame.vp8 p).packetize.length,
      ∃ a ∈ as, (VideoFrame.vp8 p).received timestamp base i = some a.1)
    (f : FragmentationHeader) :
    let s := (insertAll {} buf as).2.1
    let r := buildVP8FragmentationHeader s.packets f
    s.complete = true ∧ (insertAll {} buf as).2.2.take s.sessionLength = p.payload ∧
      queue p = some (s.packets.map infoOf) ∧
      (∀ x ∈ s.packets, x.pkt.codecSpecificHeader.codec = .vp8 (carried p.hdr (infoOf x))) ∧
      (p.mode = .strict → (∀ k < p.parts.length, k < r.1.vectorSize ∧
        r.1.offset k = p.partOffset k ∧ r.1.length k = p.partLength k) ∧
        r.2 = p.payload.length) ∧
      (p.mode = .equalSize → 0 < r.1.vectorSize ∧ r.1.offset 0 = 0 ∧
        r.1.length 0 = p.payload.length ∧ r.2 = p.payload.length) := by
  obtain ⟨q, hq, hl, hstrict, hequal⟩ := queue_spec hv
  rw [packetize_length hv hq] at hn hall
  have hd := delivered hv hok hq hl hn hbuf has hall
  have hb := Built.reset.insertAll buf as
  exact ⟨hd.complete, hd.bytes, by rw [hq, hd.infos], hd.header,
    fun hm => hd.partitions hv hq hl hm (hstrict hm) hb f,
    fun hm => hd.whole hv hl (hequal hm) hb f⟩

/-- Partitions of 2, 1 and 5 octets in mode `kStrict`, three octets to a packet. -/
def interFrame : Packetizer :=
  { hdr := { pictureId := 300, temporalIdx := 1 }, mode := .strict, maxPayloadLen := 8
    payload := [1, 2, 3, 4, 5, 6, 7, 8], parts := [(0, 2), (2, 1), (3, 5)] }

theorem interFrame_valid : interFrame.Valid where
  nonempty := Nat.succ_pos 2
  le_nine := Nat.le_of_ble_eq_true rfl
  first := rfl
  next := by
    intro i hi
    have hi : i < 2 := hi
    match i, hi with
    | 0, _ => rfl
    | 1, _ => rfl
  last := rfl
  pos := by
    intro i hi
    have hi : i < 3 := hi
    match i, hi with
    | 0, _ => exact Nat.succ_pos 1
    | 1, _ => exact Nat.succ_pos 0
    | 2, _ => exact Nat.succ_pos 4
  room := Nat.le_of_ble_eq_true rfl

/-- Four packets across the wrap of the sequence numbers, the second one twice. -/
theorem payload_delivered_reordered :
    let as : List Arrival := [3, 1, 0, 2, 1].filterMap fun i =>
      ((VideoFrame.vp8 interFrame).received 9 65534 i).map fun x => (x, .noErrors, ⟨0, 0⟩)
    let s := (insertAll {} (List.replicate 9 0) as).2.1
    (insertAll {} (List.replicate 9 0) as).2.2.take s.sessionLength = [1, 2, 3, 4, 5, 6, 7, 8] ∧
      (buildVP8FragmentationHeader s.packets ⟨0, fun _ => 0, fun _ => 0⟩).1.offset 2 = 3 ∧
      (buildVP8FragmentationHeader s.packets ⟨0, fun _ => 0, fun _ => 0⟩).1.length 2 = 5 := by
  intro as s
  have hlen : (VideoFrame.vp8 interFrame).packetize.length = 4 := by decide
  have hsome : ∀ i < 4, i ∈ [3, 1, 0, 2, 1] ∧
      ((VideoFrame.vp8 interFrame).received 9 65534 i).isSome = true := by decide
  have hfrom : ∀ a ∈ as, ∃ i, (VideoFrame.vp8 interFrame).received 9 65534 i = some a.1 := by
    intro a ha
    obtain ⟨i, -, he⟩ := List.mem_filterMap.1 ha
    obtain ⟨x, hx, rfl⟩ := Option.map_eq_some_iff.1 he
    exact ⟨i, hx⟩
  have hall : ∀ i < (VideoFrame.vp8 interFrame).packetize.length,
      ∃ a ∈ as, (VideoFrame.vp8 interFrame).received 9 65534 i = some a.1 := by
    intro i hi
    obtain ⟨hin, hx⟩ := hsome i (hlen ▸ hi)
    obtain ⟨x, hx⟩ := Option.isSome_iff_exists.1 hx
    exact ⟨(x, .noErrors, ⟨0, 0⟩), List.mem_filterMap.2 ⟨i, hin, by rw [hx]; rfl⟩, hx⟩
  have hok : HeaderOk interFrame.hdr :=
    ⟨.inr (by decide), .inl rfl, .inr (by decide), .inl rfl, by decide⟩
  obtain ⟨-, hbytes, -, -, hstrict, -⟩ := payload_delivered interFrame interFrame_valid hok
    (by rw [hlen]; decide) 9 65534 (List.replicate 9 0) (by decide) as hfrom hall
    ⟨0, fun _ => 0, fun _ => 0⟩
  obtain ⟨-, h2, h3⟩ := (hstrict rfl).1 2 (by decide)
  exact ⟨hbytes, h2, h3⟩

end RtcCore.L3.Session
