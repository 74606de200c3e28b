import RtcCore.Core.Memory
import RtcCore.L1Wire.RtpHeaderBounds

/-!
# Retransmission packets

`RTPSender::BuildRtxPacket` writes the packet with another payload type,
sequence number and SSRC, and the original sequence number behind the header;
`RTPPayloadRegistry::RestoreOriginalPacket` takes that back. Both write to a
buffer of the caller; the second one is given as the stores it makes, so that
one can say which octets it writes.

Results:
- `rtx_exact`: what was packed is restored, exactly for the payload types whose
  low octet is a number of seven bits, or is what the registry takes for none and
  the packet's own; a call leaves the length alone or writes two octets less than
  the packet has, exactly if the packet has room for the fixed header and the
  payload type is the configured one.
-/
namespace RtcCore.L1

open Bytes Memory

/-- What `BuildRtxPacket` reads of the sender; `payloadTypeRtx` is -1 when none is set. -/
structure RtxSender where
  payloadTypeRtx : Int
  sequenceNumberRtx : UInt16
  ssrcRtx : UInt32

/-- What `RestoreOriginalPacket` reads of the registry; -1: not set. -/
structure RtxRegistry where
  payloadTypeRtx : Int8
  incomingPayloadType : Int8

/-- The conversion of a C `int`. -/
def toByte (n : Int) : UInt8 := .ofNat (n % 256).toNat

/-- The octet with the marker bit and the payload type. -/
def markedType (payloadType : UInt8) (markerBit : Bool) : UInt8 :=
  if markerBit then payloadType ||| 0x80 else payloadType

namespace RtxSender

variable (s : RtxSender)

/-- The length and the buffer; no value: the parser reads outside of the packet.
mirrors webrtc/modules/rtp_rtcp/source/rtp_sender.cc:1769-1807 -/
def buildRtxPacket (buffer : Bytes) (bufferRtx : Memory) : Option (Nat × Memory) :=
  (RtpHeaderParser.parse buffer none {}).map fun (_, header) =>
    let mem := store bufferRtx 0 (buffer.take header.headerLength)
    let mem :=
      if s.payloadTypeRtx ≠ -1 then
        store mem 1 [markedType (toByte s.payloadTypeRtx) header.markerBit]
      else mem
    let mem := store mem 2 (be16 s.sequenceNumberRtx.toNat)
    let mem := store mem 8 (be32 s.ssrcRtx.toNat)
    let mem := store mem header.headerLength (be16 header.sequenceNumber.toNat)
    (buffer.length + 2, store mem (header.headerLength + 2) (buffer.drop header.headerLength))

end RtxSender

/-- The result, the length and the stores, in their order. -/
structure Restored where
  ok : Bool
  packetLength : Nat
  writes : List (Nat × Bytes)

def Restored.memory (r : Restored) (mem : Memory) : Memory :=
  r.writes.foldl (fun mem w => store mem w.1 w.2) mem

/-- The addresses that are written. -/
def Restored.Writes (r : Restored) (i : Nat) : Prop :=
  ∃ w ∈ r.writes, w.1 ≤ i ∧ i < w.1 + w.2.length

namespace RtxRegistry

variable (g : RtxRegistry)

/-- The sender keeps the `int` of its call, the registry its low octet.
mirrors webrtc/modules/rtp_rtcp/source/rtp_payload_registry.cc:297-302 -/
def setRtxPayloadType (payloadType : Int) : RtxRegistry :=
  { g with payloadTypeRtx := .ofInt payloadType }

/-- mirrors webrtc/modules/rtp_rtcp/source/rtp_payload_registry.cc:245-283 -/
def restoreOriginalPacket (packet : Bytes) (originalSsrc : UInt32) (header : RTPHeader) :
    Restored :=
  if 2 + header.headerLength > packet.length then ⟨false, packet.length, []⟩
  else
    let originalSequenceNumber := beValue (slice packet header.headerLength 2)
    let writes := [
      (0, packet.take header.headerLength),
      (header.headerLength, packet.drop (header.headerLength + 2)),
      (2, be16 originalSequenceNumber),
      (8, be32 originalSsrc.toNat)]
    let packetLength := packet.length - 2
    if g.payloadTypeRtx ≠ -1 then
      if (header.payloadType.toNat : Int) = g.payloadTypeRtx.toInt ∧
          g.incomingPayloadType ≠ -1 then
        ⟨true, packetLength,
          writes ++ [(1, [markedType g.incomingPayloadType.toUInt8 header.markerBit])]⟩
      else ⟨false, packetLength, writes⟩
    else ⟨true, packetLength, writes⟩

end RtxRegistry

/-! ## Bits -/

theorem be16_beValue {b : Bytes} (h : b.length = 2) : be16 (beValue b) = b := by
  match b, h with
  | [x, y], _ =>
    have hx := x.toNat_lt
    have hy := y.toNat_lt
    simp only [be16, beValue, List.foldl_cons, List.foldl_nil, List.cons.injEq, and_true]
    refine ⟨?_, ?_⟩ <;> rw [← UInt8.toNat_inj, UInt8.toNat_ofNat'] <;> omega

theorem be32_beValue {b : Bytes} (h : b.length = 4) : be32 (beValue b) = b := by
  match b, h with
  | [x, y, z, w], _ =>
    have hx := x.toNat_lt
    have hy := y.toNat_lt
    have hz := z.toNat_lt
    have hw := w.toNat_lt
    simp only [be32, beValue, List.foldl_cons, List.foldl_nil, List.cons.injEq, and_true]
    refine ⟨?_, ?_, ?_, ?_⟩ <;> rw [← UInt8.toNat_inj, UInt8.toNat_ofNat'] <;> omega

theorem markedType_self (x : UInt8) : markedType (x &&& 0x7f) (x &&& 0x80 != 0) = x :=
  forall_uint8 (P := fun x => markedType (x &&& 0x7f) (x &&& 0x80 != 0) = x) (by decide) x

theorem markedType_parts : ∀ (n : Fin 128) (marker : Bool),
    (markedType (toByte n.val) marker &&& 0x80 != 0) = marker ∧
      (markedType (toByte n.val) marker &&& 0x7f).toNat = n.val := by decide

theorem markedType_all (marker : Bool) : markedType 0xff marker = 0xff := by
  cases marker <;> rfl

theorem toByte_emod (n : Int) : toByte (n % 256) = toByte n := by
  rw [toByte, Int.emod_emod, toByte]

/-- What the registry keeps of the number. -/
theorem toInt_ofInt (n : Int) :
    (Int8.ofInt n).toInt = if n % 256 < 128 then n % 256 else n % 256 - 256 := by
  rw [Int8.toInt_ofInt, Int.bmod_def]
  rfl

theorem toInt8_ne (x : UInt8) : (x &&& 0x7f).toInt8 ≠ -1 :=
  forall_uint8 (P := fun x => (x &&& 0x7f).toInt8 ≠ -1) (by decide) x

/-! ## Round trip -/

namespace RtxSender

open RtpHeaderParser

variable {s : RtxSender} {packet : Bytes} {bufferRtx mem : Memory} {len : Nat}

/-- The octets of the packet that is sent again. -/
structure Packed (s : RtxSender) (packet rtx : Bytes) : Prop where
  length : rtx.length = packet.length + 2
  type : getByte rtx 1 =
    if s.payloadTypeRtx ≠ -1 then
      markedType (toByte s.payloadTypeRtx) (getByte packet 1 &&& 0x80 != 0)
    else getByte packet 1
  header : ∀ i, i < headerEnd packet → i = 0 ∨ 4 ≤ i ∧ i < 8 ∨ 12 ≤ i →
    getByte rtx i = getByte packet i
  number : slice rtx (headerEnd packet) 2 = slice packet 2 2
  payload : ∀ i, headerEnd packet ≤ i → getByte rtx (i + 2) = getByte packet i

theorem buildRtxPacket_packed (ha : Accepts packet)
    (hb : s.buildRtxPacket packet bufferRtx = some (len, mem)) :
    Packed s packet (load mem 0 len) := by
  obtain ⟨⟨ok, header⟩, hp, heq⟩ := Option.map_eq_some_iff.1 hb
  obtain ⟨hok, hfields⟩ := parse_spec hp
  obtain ⟨hm, -, hseq, hlen⟩ := hfields (hok.2 ha)
  obtain ⟨h12, hle⟩ := headerEnd_bounds ha
  dsimp only at heq
  rw [hlen, hm] at heq
  obtain ⟨hl, hmem⟩ := Prod.mk.inj heq
  have htake : (packet.take (headerEnd packet)).length = headerEnd packet := by
    rw [List.length_take]
    omega
  have hdrop : (packet.drop (headerEnd packet)).length = packet.length - headerEnd packet :=
    List.length_drop
  have hseq2 : be16 header.sequenceNumber.toNat = slice packet 2 2 := by
    have hl2 : (slice packet 2 2).length = 2 := slice_length (by omega)
    have hlt : beValue (slice packet 2 2) < 2 ^ 16 := by
      have := beValue_lt (slice packet 2 2)
      rwa [hl2] at this
    rw [hseq, UInt16.toNat_ofNat', Nat.mod_eq_of_lt hlt, be16_beValue hl2]
  have hbefore : ∀ i, i < headerEnd packet → (i = 0 ∨ 4 ≤ i ∧ i < 8 ∨ 12 ≤ i) →
      mem i = getByte packet i := by
    intro i hi hcase
    rw [← hmem, store_of_lt (by omega), store_of_lt hi]
    have h4 : ∀ m : Memory, store (store m 2 (be16 s.sequenceNumberRtx.toNat)) 8
        (be32 s.ssrcRtx.toNat) i = m i := by
      intro m
      obtain h | h : i < 8 ∨ 12 ≤ i := by omega
      · rw [store_of_lt h]
        obtain h | h : i < 2 ∨ 4 ≤ i := by omega
        · exact store_of_lt h
        · exact store_of_le h
      · rw [store_of_le h, store_of_le (by rw [be16_length]; omega)]
    rw [h4]
    have h1 : store bufferRtx 0 (packet.take (headerEnd packet)) i = getByte packet i := by
      rw [store_eq (Nat.zero_le _) (by omega), Nat.sub_zero, getByte_take hi]
    split
    · rw [← h1]
      obtain h | h : i < 1 ∨ 1 + 1 ≤ i := by omega
      · exact store_of_lt h
      · exact store_of_le h
    · exact h1
  refine ⟨by rw [load_length, hl], ?_, ?_, ?_, ?_⟩
  · rw [getByte_load (by omega), ← hmem, store_of_lt (by omega), store_of_lt (by omega),
      store_of_lt (by omega), store_of_lt (by omega)]
    split
    · rfl
    · rw [store_eq (Nat.zero_le _) (by omega), Nat.sub_zero, getByte_take (by omega)]
  · intro i hi hcase
    rw [getByte_load (by omega)]
    exact hbefore i hi hcase
  · refine slice_congr (by rw [load_length]; omega) (by omega) fun j hj => ?_
    rw [getByte_load (by omega), ← hmem, store_of_lt (by omega), hseq2,
      store_eq (by omega) (by rw [slice_length (by omega)]; omega), slice, Nat.add_sub_cancel_left,
      getByte_take hj, getByte, getByte, List.getElem?_drop]
  · intro i hi
    by_cases hin : i < packet.length
    · rw [getByte_load (by omega), ← hmem, store_eq (by omega) (by omega), getByte, getByte,
        List.getElem?_drop, show headerEnd packet + (i + 2 - (headerEnd packet + 2)) = i by omega]
    · rw [getByte, getByte, List.getElem?_eq_none (by rw [load_length]; omega),
        List.getElem?_eq_none (by omega)]

/-- The parser finds the same header. -/
theorem Packed.accepts {rtx : Bytes} (h : Packed s packet rtx) (ha : Accepts packet) :
    Accepts rtx ∧ headerEnd rtx = headerEnd packet := by
  have hlen := h.length
  have hend := ha.header
  exact ha.congr (by omega) fun i hi hcase => h.header i hi (hcase.imp_right .inr)

end RtxSender

namespace RtxRegistry

open RtpHeaderParser RtxSender

variable {g : RtxRegistry} {s : RtxSender} {packet rtx : Bytes} {header : RTPHeader}

/-- What is written in any case, over the packed packet. -/
theorem restored_octet (h : Packed s packet rtx) (ha : Accepts packet) (mem : Memory)
    {ssrc : UInt32} (hssrc : ssrc.toNat = beValue (slice packet 8 4)) {i : Nat}
    (hi : i < packet.length) :
    store (store (store (store mem 0 (rtx.take (headerEnd packet))) (headerEnd packet)
      (rtx.drop (headerEnd packet + 2))) 2 (be16 (beValue (slice rtx (headerEnd packet) 2)))) 8
        (be32 ssrc.toNat) i = if i = 1 then getByte rtx 1 else getByte packet i := by
  obtain ⟨h12, hle⟩ := headerEnd_bounds ha
  have hlen := h.length
  have htake : (rtx.take (headerEnd packet)).length = headerEnd packet := by
    rw [List.length_take]
    omega
  have hdrop : (rtx.drop (headerEnd packet + 2)).length = packet.length - headerEnd packet := by
    rw [List.length_drop]
    omega
  have hl2 : (slice packet 2 2).length = 2 := slice_length (by omega)
  have hl4 : (slice packet 8 4).length = 4 := slice_length (by omega)
  rw [hssrc, be32_beValue hl4, h.number, be16_beValue hl2]
  by_cases h8 : 8 ≤ i ∧ i < 12
  · rw [if_neg (by omega), store_eq h8.1 (by omega), slice, getByte_take (by omega), getByte,
      getByte, List.getElem?_drop, show 8 + (i - 8) = i by omega]
  have hskip8 : ∀ m : Memory, store m 8 (slice packet 8 4) i = m i := by
    intro m
    obtain hc | hc : i < 8 ∨ 12 ≤ i := by omega
    · exact store_of_lt hc
    · exact store_of_le (by omega)
  rw [hskip8]
  by_cases h2 : 2 ≤ i ∧ i < 4
  · rw [if_neg (by omega), store_eq h2.1 (by omega), slice, getByte_take (by omega), getByte,
      getByte, List.getElem?_drop, show 2 + (i - 2) = i by omega]
  have hskip2 : ∀ m : Memory, store m 2 (slice packet 2 2) i = m i := by
    intro m
    obtain hc | hc : i < 2 ∨ 4 ≤ i := by omega
    · exact store_of_lt hc
    · exact store_of_le (by omega)
  rw [hskip2]
  by_cases hh : i < headerEnd packet
  · rw [store_of_lt hh, store_eq (Nat.zero_le _) (by omega), Nat.sub_zero, getByte_take hh]
    by_cases h1 : i = 1
    · rw [if_pos h1, h1]
    · rw [if_neg h1]
      exact h.header i hh (by omega)
  · rw [if_neg (by omega), store_eq (by omega) (by omega), ← h.payload i (by omega), getByte, getByte,
      List.getElem?_drop]
    congr 2
    omega

/-- The packet that is packed and restored with its own SSRC, in whatever buffers, is the packet. -/
def Restores (s : RtxSender) (g : RtxRegistry) (packet : Bytes) : Prop :=
  ∀ bufferRtx restored mem len m h₀ ok header ssrc,
    s.buildRtxPacket packet bufferRtx = some (len, mem) →
    parse (load mem 0 len) m h₀ = some (ok, header) →
    ssrc.toNat = beValue (slice packet 8 4) →
    (g.restoreOriginalPacket (load mem 0 len) ssrc header).ok = true ∧
      (g.restoreOriginalPacket (load mem 0 len) ssrc header).packetLength = packet.length ∧
      load ((g.restoreOriginalPacket (load mem 0 len) ssrc header).memory restored) 0
        packet.length = packet

/-- None; a number whose low octet is a payload type; or one that the registry takes for none,
and whose low octet the packet has in the place of its own. -/
def ValidType (n : Int) (packet : Bytes) : Prop :=
  n = -1 ∨ n % 256 < 128 ∨ n % 256 = 255 ∧ getByte packet 1 = 0xff

theorem getByte_eq {b : Bytes} {i : Nat} (h : i < b.length) : getByte b i = b[i] := by
  rw [getByte, List.getElem?_eq_getElem h]
  rfl

/-- The registry has none: the second octet is left as it came. -/
theorem restores_of_same (ha : Accepts packet) (hg : g.payloadTypeRtx = -1)
    (hsame : ∀ rtx, Packed s packet rtx → getByte rtx 1 = getByte packet 1) :
    Restores s g packet := by
  intro bufferRtx restored mem len m h₀ ok header ssrc hb hp hssrc
  have hpacked := buildRtxPacket_packed ha hb
  obtain ⟨ha', hend⟩ := hpacked.accepts ha
  obtain ⟨hok, hfields⟩ := parse_spec hp
  obtain ⟨-, -, -, hlen⟩ := hfields (hok.2 ha')
  obtain ⟨h12, hle⟩ := headerEnd_bounds ha
  have hl := hpacked.length
  have htype := hsame _ hpacked
  rw [hend] at hlen
  generalize load mem 0 len = rtx at *
  rw [restoreOriginalPacket, hlen, if_neg (by omega)]
  dsimp only
  rw [if_neg (fun hc => hc hg)]
  refine ⟨rfl, show rtx.length - 2 = packet.length by omega, load_eq fun i hi => ?_⟩
  refine (restored_octet hpacked ha restored hssrc hi).trans ?_
  rw [htype]
  split
  · subst i
    exact getByte_eq hi
  · exact getByte_eq hi

theorem restores_of_valid (ha : Accepts packet)
    (hg : g.payloadTypeRtx = .ofInt s.payloadTypeRtx)
    (hin : g.incomingPayloadType = (getByte packet 1 &&& 0x7f).toInt8)
    (hv : ValidType s.payloadTypeRtx packet) : Restores s g packet := by
  have hto := toInt_ofInt s.payloadTypeRtx
  rw [← hg] at hto
  rcases hv with hnone | hv | ⟨hv, hff⟩
  · refine restores_of_same ha (by rw [hg, hnone]; rfl) fun rtx hpacked => ?_
    rw [hpacked.type, if_neg (fun hc => hc hnone)]
  · intro bufferRtx restored mem len m h₀ ok header ssrc hb hp hssrc
    have hpacked := buildRtxPacket_packed ha hb
    obtain ⟨ha', hend⟩ := hpacked.accepts ha
    obtain ⟨hok, hfields⟩ := parse_spec hp
    obtain ⟨hm, hpt, -, hlen⟩ := hfields (hok.2 ha')
    obtain ⟨h12, hle⟩ := headerEnd_bounds ha
    have hl := hpacked.length
    rw [hend] at hlen
    generalize load mem 0 len = rtx at *
    have hoctet := fun i (hi : i < packet.length) => restored_octet hpacked ha restored hssrc hi
    rw [restoreOriginalPacket, hlen, if_neg (by omega)]
    dsimp only
    rw [if_pos hv] at hto
    have hne : s.payloadTypeRtx ≠ -1 := by omega
    have hset : g.payloadTypeRtx ≠ -1 := fun hc => by
      rw [hc] at hto
      have : (-1 : Int8).toInt = -1 := rfl
      omega
    have htype := hpacked.type
    obtain ⟨n, hn⟩ : ∃ n : Fin 128, s.payloadTypeRtx % 256 = (n.val : Int) :=
      ⟨⟨(s.payloadTypeRtx % 256).toNat, by omega⟩, by simp only; omega⟩
    obtain ⟨hmark, hlow⟩ := markedType_parts n (getByte packet 1 &&& 0x80 != 0)
    rw [if_pos hne, ← toByte_emod, hn] at htype
    rw [htype, hmark] at hm
    rw [htype] at hpt
    have hsame : (header.payloadType.toNat : Int) = g.payloadTypeRtx.toInt := by
      rw [hpt, hlow, hto, hn]
    have hknown : g.incomingPayloadType ≠ -1 := by
      rw [hin]
      exact toInt8_ne _
    rw [if_pos hset, if_pos ⟨hsame, hknown⟩]
    refine ⟨rfl, show rtx.length - 2 = packet.length by omega, load_eq fun i hi => ?_⟩
    simp only [Restored.memory, List.foldl_append, List.foldl_cons, List.foldl_nil]
    rw [hm, hin, UInt8.toUInt8_toInt8, markedType_self]
    by_cases h1 : i = 1
    · subst i
      rw [store_eq (Nat.le_refl 1) (by simp)]
      exact getByte_eq hi
    · have hother : ∀ mem : Memory, store mem 1 [getByte packet 1] i = mem i := by
        intro mem
        obtain hc | hc : i < 1 ∨ 2 ≤ i := by omega
        · exact store_of_lt hc
        · exact store_of_le hc
      rw [hother]
      refine (hoctet i hi).trans ?_
      rw [if_neg h1]
      exact getByte_eq hi
  · -- the sender writes what the packet has there
    rw [if_neg (by omega)] at hto
    have hg1 : g.payloadTypeRtx = -1 := Int8.toInt_inj.1 (show _ = (-1 : Int) by omega)
    refine restores_of_same ha hg1 fun rtx hpacked => ?_
    rw [hpacked.type, hff]
    split
    · rw [← toByte_emod, hv]
      exact markedType_all _
    · rfl

/-- With another number the types differ on the wire, or the second octet is not the packet's. -/
theorem valid_of_restores (ha : Accepts packet)
    (hg : g.payloadTypeRtx = .ofInt s.payloadTypeRtx)
    (h : Restores s g packet) : ValidType s.payloadTypeRtx packet := by
  obtain ⟨h12, hle⟩ := headerEnd_bounds ha
  obtain ⟨r, hr⟩ := parse_isSome {} ha
  obtain ⟨⟨len, mem⟩, hb⟩ : ∃ x, s.buildRtxPacket packet (fun _ => 0) = some x := by
    rw [buildRtxPacket, hr]
    exact ⟨_, rfl⟩
  have hpacked := buildRtxPacket_packed ha hb
  obtain ⟨ha', hend⟩ := hpacked.accepts ha
  obtain ⟨⟨ok, header⟩, hp⟩ := parse_isSome {} ha'
  obtain ⟨hok, hfields⟩ := parse_spec hp
  obtain ⟨-, hpt, -, hlen⟩ := hfields (hok.2 ha')
  have hl := hpacked.length
  obtain ⟨ssrc, hssrc⟩ : ∃ ssrc : UInt32, ssrc.toNat = beValue (slice packet 8 4) := by
    have hl4 : (slice packet 8 4).length = 4 := slice_length (by omega)
    have hlt := beValue_lt (slice packet 8 4)
    rw [hl4] at hlt
    exact ⟨.ofNat (beValue (slice packet 8 4)), UInt32.toNat_ofNat_of_lt' hlt⟩
  obtain ⟨hrok, -, hback⟩ := h _ (fun _ => 0) mem len none {} ok header ssrc hb hp hssrc
  rw [hend] at hlen
  generalize load mem 0 len = rtx at *
  have hoctet := restored_octet hpacked ha (fun _ => 0) hssrc (show 1 < packet.length by omega)
  rw [restoreOriginalPacket, hlen, if_neg (by omega)] at hrok hback
  dsimp only at hrok hback
  have hto := toInt_ofInt s.payloadTypeRtx
  rw [← hg] at hto
  by_cases hset : g.payloadTypeRtx ≠ -1
  · rw [if_pos hset] at hrok
    split at hrok
    · rename_i hsame
      have := hsame.1
      by_cases hv : s.payloadTypeRtx % 256 < 128
      · exact .inr (.inl hv)
      · rw [if_neg hv] at hto
        omega
    · cases hrok
  · rw [if_neg hset] at hback
    by_cases hnone : s.payloadTypeRtx = -1
    · exact .inl hnone
    have hff : s.payloadTypeRtx % 256 = 255 := by
      rw [Decidable.not_not.1 hset] at hto
      have : (-1 : Int8).toInt = -1 := rfl
      split at hto <;> omega
    refine .inr (.inr ⟨hff, ?_⟩)
    have htype := hpacked.type
    rw [if_pos hnone, ← toByte_emod, hff] at htype
    have hone : getByte (load _ 0 packet.length) 1 = getByte packet 1 :=
      congrArg (getByte · 1) hback
    rw [getByte_load (by omega)] at hone
    rw [← hone]
    refine hoctet.trans ?_
    rw [if_pos rfl, htype]
    exact markedType_all _

/-- The result is a failure that leaves the length alone, or two octets less were written. -/
def Clean (packet : Bytes) (r : Restored) : Prop :=
  r.ok = false ∧ r.packetLength = packet.length ∨
    r.ok = true ∧ r.packetLength + 2 = packet.length ∧ ∀ i, r.Writes i ↔ i + 2 < packet.length

/-- The packet is too short for the header, or long enough for the fixed header and of the
payload type that is set. -/
def Configured (g : RtxRegistry) (packet : Bytes) (header : RTPHeader) : Prop :=
  packet.length < header.headerLength + 2 ∨ 14 ≤ packet.length ∧
    (g.payloadTypeRtx = -1 ∨
      (header.payloadType.toNat : Int) = g.payloadTypeRtx.toInt ∧ g.incomingPayloadType ≠ -1)

/-- The addresses of the copy and of the fields behind it. -/
theorem writes_iff {packet : Bytes} {n : Nat} (hn : n + 2 ≤ packet.length) (number ssrc : Nat)
    (last : List (Nat × Bytes)) (hlast : ∀ w ∈ last, w.1 + w.2.length ≤ 12) (ok : Bool) :
    (∀ i, Restored.Writes ⟨ok, packet.length - 2, [(0, packet.take n), (n, packet.drop (n + 2)),
      (2, be16 number), (8, be32 ssrc)] ++ last⟩ i ↔ i + 2 < packet.length) ↔
      14 ≤ packet.length := by
  constructor
  · intro h
    have := (h 11).1 ⟨(8, be32 ssrc), by simp, Nat.le_add_left 8 3, Nat.lt_succ_self 11⟩
    omega
  · intro h i
    constructor
    · rintro ⟨w, hw, h1, h2⟩
      rcases List.mem_append.1 hw with hw | hw
      · simp only [List.mem_cons, List.not_mem_nil, or_false] at hw
        rcases hw with rfl | rfl | rfl | rfl
        · simp only [List.length_take] at h2
          omega
        · simp only [List.length_drop] at h1 h2
          omega
        · have : i < 4 := h2
          omega
        · have : i < 12 := h2
          omega
      · have := hlast w hw
        omega
    · intro hi
      by_cases hc : i < n
      · refine ⟨(0, packet.take n), by simp, Nat.zero_le _, ?_⟩
        simp only [List.length_take]
        omega
      · refine ⟨(n, packet.drop (n + 2)), by simp, by omega, ?_⟩
        simp only [List.length_drop]
        omega

theorem clean_iff (g : RtxRegistry) (packet : Bytes) (ssrc : UInt32) (header : RTPHeader) :
    Clean packet (g.restoreOriginalPacket packet ssrc header) ↔ Configured g packet header := by
  unfold restoreOriginalPacket Configured
  split
  · exact ⟨fun _ => .inl (by omega), fun _ => .inl ⟨rfl, rfl⟩⟩
  · rename_i hlong
    have hn : header.headerLength + 2 ≤ packet.length := by omega
    have hwrote : ∀ last, (∀ w ∈ last, w.1 + w.2.length ≤ 12) →
        (Clean packet ⟨true, packet.length - 2, [(0, packet.take header.headerLength),
          (header.headerLength, packet.drop (header.headerLength + 2)),
          (2, be16 (beValue (slice packet header.headerLength 2))), (8, be32 ssrc.toNat)] ++
            last⟩ ↔ 14 ≤ packet.length) := by
      intro last hlast
      refine Iff.trans ?_ (writes_iff hn (beValue (slice packet header.headerLength 2)) ssrc.toNat last
        hlast true)
      constructor
      · rintro (⟨h, -⟩ | ⟨-, -, h⟩)
        · cases h
        · exact h
      · intro h
        exact .inr ⟨rfl, by simp only; omega, h⟩
    dsimp only
    split
    · rename_i hset
      split
      · rename_i hsame
        rw [hwrote _ (by intro w hw; rw [List.mem_singleton.1 hw]; exact Nat.le_add_left 2 10)]
        constructor
        · exact fun h => .inr ⟨h, .inr hsame⟩
        · rintro (h | h)
          · omega
          · exact h.1
      · rename_i hother
        constructor
        · rintro (⟨-, h⟩ | ⟨h, -⟩)
          · simp only at h
            omega
          · cases h
        · rintro (h | ⟨-, h | h⟩)
          · omega
          · exact absurd h hset
          · exact absurd h hother
    · rename_i hnone
      have := hwrote [] nofun
      rw [List.append_nil] at this
      rw [this]
      constructor
      · exact fun h => .inr ⟨h, .inl (Decidable.not_not.1 hnone)⟩
      · rintro (h | h)
        · omega
        · exact h.1

/-- When what was packed is restored, and when a call keeps to its contract. -/
theorem rtx_exact (g : RtxRegistry) (packet : Bytes) :
    (∀ (s : RtxSender) (m : Option RtpHeaderExtensionMap) (h₀ header : RTPHeader),
      parse packet m h₀ = some (true, header) →
      g.incomingPayloadType = header.payloadType.toInt8 →
      (Restores s (g.setRtxPayloadType s.payloadTypeRtx) packet ↔
        ValidType s.payloadTypeRtx packet)) ∧
    ∀ (ssrc : UInt32) (header : RTPHeader),
      Clean packet (g.restoreOriginalPacket packet ssrc header) ↔ Configured g packet header := by
  refine ⟨fun s m h₀ header hp hin => ?_, clean_iff g packet⟩
  obtain ⟨hok, hfields⟩ := parse_spec hp
  have ha := hok.1 rfl
  rw [(hfields rfl).2.1] at hin
  exact ⟨valid_of_restores ha rfl, restores_of_valid ha rfl hin⟩

/-- A packet with the marker bit, of payload type 96. -/
def marked : Bytes := [0x80, 0xe0, 0, 7, 0, 0, 0, 1, 0, 0, 0, 9, 0xaa, 0xbb]

theorem rtx_exact_marked : Restores ⟨97, 1000, 5⟩ ⟨97, 96⟩ marked :=
  ((rtx_exact ⟨-1, 96⟩ marked).1 ⟨97, 1000, 5⟩ none {}
    ((parse marked none {}).getD (false, {})).2 (by decide) (by decide)).2
      (.inr (.inl (by decide)))

/-- The payload type is not the one that is set: the call fails with the length already reduced. -/
theorem length_reduced_on_failure :
    (restoreOriginalPacket ⟨97, 96⟩ marked 9 { headerLength := 12, payloadType := 98 }).ok = false ∧
      (restoreOriginalPacket ⟨97, 96⟩ marked 9 { headerLength := 12, payloadType := 98 }).packetLength =
        marked.length - 2 ∧
      ¬ Clean marked
        (restoreOriginalPacket ⟨97, 96⟩ marked 9 { headerLength := 12, payloadType := 98 }) := by
  refine ⟨by decide, by decide, fun h => ?_⟩
  rcases h with ⟨-, h⟩ | ⟨h, -⟩
  · exact absurd h (by decide)
  · exact absurd h (by decide)

end RtxRegistry

end RtcCore.L1
