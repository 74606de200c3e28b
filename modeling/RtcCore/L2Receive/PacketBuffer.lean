import RtcCore.Core.BackInsert
import RtcCore.Core.Serial
import RtcCore.L2Receive.NetEqPacket

/-!
# NetEq's `PacketBuffer`

The packets before decoding, one for each timestamp. A packet goes behind the
last one it is not before in the order of `Packet::operator<`; of two with the
same timestamp the better one stays. A full buffer is flushed and then takes
the packet. `step` is one call of a method that changes the buffer.

Results:
- `step_kept`: no assertion fails, neighbours have different timestamps, and the
  number of packets stays within its limit, whatever is inserted.
-/
namespace RtcCore.L2.NetEq

open L1

/-- mirrors webrtc/modules/audio_coding/neteq/packet_buffer.h:26-33 -/
inductive BufferReturnCode where
  | ok
  | flushed
  | notFound
  | bufferEmpty
  | invalidPacket
  | invalidPointer
  deriving DecidableEq, Repr

/-- A packet of a list to insert; its payload may be a null pointer. -/
structure Incoming where
  packet : Packet
  hasPayload : Bool := true
  deriving DecidableEq, Repr

/-- What `InsertPacket` sees of it. -/
def Incoming.usable (i : Incoming) : Option Packet := if i.hasPayload then some i.packet else none

/-- mirrors webrtc/modules/audio_coding/neteq/packet_buffer.h:163-164 -/
structure PacketBuffer where
  maxNumberOfPackets : Nat
  buffer : List Packet := []
  deriving DecidableEq, Repr

namespace PacketBuffer

/-! ## The code -/

/-- mirrors webrtc/modules/audio_coding/neteq/packet_buffer.cc:48-50 -/
def flush (b : PacketBuffer) : PacketBuffer := { b with buffer := [] }

def sameTimestamp (a b : Packet) : Bool := a.header.timestamp = b.header.timestamp

/-- A null pointer and a packet without payload are `none`. The search goes on from the back
while the new packet is before the one reached.
mirrors webrtc/modules/audio_coding/neteq/packet_buffer.cc:52-98 -/
def insertPacket (b : PacketBuffer) : Option Packet → BufferReturnCode × PacketBuffer
  | none => (.invalidPacket, b)
  | some packet =>
    let full := b.maxNumberOfPackets ≤ b.buffer.length
    let b := if full then b.flush else b
    (if full then .flushed else .ok,
      { b with buffer := backInsert Packet.lt sameTimestamp packet b.buffer })

/-- The payload types after a packet of the list, and whether the buffer is flushed before it.
mirrors webrtc/modules/audio_coding/neteq/packet_buffer.cc:107-124 -/
def currentPayloadTypes (db : DecoderDatabase) (rtp cng payloadType : UInt8) :
    UInt8 × UInt8 × Bool :=
  if db.isComfortNoise payloadType then
    if cng ≠ 0xFF ∧ cng ≠ payloadType then (0xFF, payloadType, true) else (rtp, payloadType, false)
  else if !db.isDtmf payloadType then
    if rtp ≠ 0xFF ∧ rtp ≠ payloadType then (payloadType, 0xFF, true) else (payloadType, cng, false)
  else (rtp, cng, false)

/-- The loop over the list, with the virtual methods it calls. The packets behind one that is
not inserted are dropped.
mirrors webrtc/modules/audio_coding/neteq/packet_buffer.cc:100-138 -/
def insertList {σ : Type} (flush : σ → σ) (insertPacket : σ → Option Packet → BufferReturnCode × σ)
    (db : DecoderDatabase) (flushed : Bool) :
    List Incoming → UInt8 → UInt8 → σ → BufferReturnCode × UInt8 × UInt8 × σ
  | [], rtp, cng, b => (if flushed then .flushed else .ok, rtp, cng, b)
  | packet :: packetList, rtp, cng, b =>
    let (rtp, cng, change) := currentPayloadTypes db rtp cng packet.packet.header.payloadType
    let (returnVal, b) := insertPacket (if change then flush b else b) packet.usable
    match returnVal with
    | .ok => insertList flush insertPacket db (flushed || change) packetList rtp cng b
    | .flushed => insertList flush insertPacket db true packetList rtp cng b
    | error => (error, rtp, cng, b)

/-- mirrors webrtc/modules/audio_coding/neteq/packet_buffer.cc:100-138 -/
def insertPacketList (b : PacketBuffer) (db : DecoderDatabase) (packetList : List Incoming)
    (rtp cng : UInt8) : BufferReturnCode × UInt8 × UInt8 × PacketBuffer :=
  insertList flush insertPacket db false packetList rtp cng b

/-- With a pointer to write the timestamp to.
mirrors webrtc/modules/audio_coding/neteq/packet_buffer.cc:140-149 -/
def nextTimestamp (b : PacketBuffer) : Except BufferReturnCode UInt32 :=
  match b.buffer with
  | [] => .error .bufferEmpty
  | packet :: _ => .ok packet.header.timestamp

/-- With a pointer to write the timestamp to.
mirrors webrtc/modules/audio_coding/neteq/packet_buffer.cc:151-168 -/
def nextHigherTimestamp (b : PacketBuffer) (timestamp : UInt32) : Except BufferReturnCode UInt32 :=
  match b.buffer with
  | [] => .error .bufferEmpty
  | _ :: _ =>
    match b.buffer.find? fun packet => timestamp ≤ packet.header.timestamp with
    | some packet => .ok packet.header.timestamp
    | none => .error .notFound

/-- mirrors webrtc/modules/audio_coding/neteq/packet_buffer.cc:206-215 -/
def discardNextPacket (b : PacketBuffer) : BufferReturnCode × PacketBuffer :=
  match b.buffer with
  | [] => (.bufferEmpty, b)
  | _ :: rest => (.ok, { b with buffer := rest })

/-- The first packet; no value where the assertion on `discards` fails.
mirrors webrtc/modules/audio_coding/neteq/packet_buffer.cc:177-204 -/
def getNextPacket (b : PacketBuffer) : Option (Option Packet × PacketBuffer) :=
  match b.buffer with
  | [] => some (none, b)
  | packet :: rest =>
    let rest' := rest.dropWhile fun next => next.header.timestamp = packet.header.timestamp
    let discards := rest.length - rest'.length
    if discards = 0 then some (some packet, { b with buffer := rest' }) else none

/-- mirrors webrtc/modules/audio_coding/neteq/packet_buffer.h:153-159 -/
def isObsoleteTimestamp (timestamp timestampLimit horizonSamples : UInt32) : Bool :=
  Serial.isNewerTimestamp timestampLimit timestamp &&
    (horizonSamples = 0 || Serial.isNewerTimestamp timestamp (timestampLimit - horizonSamples))

/-- mirrors webrtc/modules/audio_coding/neteq/packet_buffer.cc:217-230 -/
def discardOldPackets (b : PacketBuffer) (timestampLimit horizonSamples : UInt32) : PacketBuffer :=
  { b with
    buffer := b.buffer.dropWhile fun packet =>
      timestampLimit ≠ packet.header.timestamp &&
        isObsoleteTimestamp packet.header.timestamp timestampLimit horizonSamples }

/-- A call of a method that changes the buffer. The payload types that `InsertPacketList` reads
and writes belong to its caller. -/
inductive Op where
  | insertPacket (packet : Option Packet)
  | insertPacketList (db : DecoderDatabase) (packetList : List Incoming) (rtp cng : UInt8)
  | getNextPacket
  | discardNextPacket
  | discardOldPackets (timestampLimit horizonSamples : UInt32)
  | flush

def step (b : PacketBuffer) : Op → Option PacketBuffer
  | .insertPacket packet => some (b.insertPacket packet).2
  | .insertPacketList db packetList rtp cng => some (b.insertPacketList db packetList rtp cng).2.2.2
  | .getNextPacket => b.getNextPacket.map Prod.snd
  | .discardNextPacket => some b.discardNextPacket.2
  | .discardOldPackets timestampLimit horizonSamples =>
    some (b.discardOldPackets timestampLimit horizonSamples)
  | .flush => some b.flush

/-! ## The loop of `InsertPacketList` -/

section InsertList

variable {σ τ : Type} {flush : σ → σ} {insertPacket : σ → Option Packet → BufferReturnCode × σ}

/-- What flushing and inserting keep, the loop keeps. -/
theorem insertList_keeps {P : σ → Prop} {db : DecoderDatabase} {packetList : List Incoming}
    (hflush : ∀ s, P s → P (flush s))
    (hinsert : ∀ s, ∀ i ∈ packetList, P s → P (insertPacket s i.usable).2) {flushed : Bool}
    {rtp cng : UInt8} {s : σ} (h : P s) :
    P (insertList flush insertPacket db flushed packetList rtp cng s).2.2.2 := by
  induction packetList generalizing flushed rtp cng s with
  | nil => exact h
  | cons i packetList ih =>
    have hrest := fun s j (hj : j ∈ packetList) => hinsert s j (List.mem_cons_of_mem _ hj)
    rcases hcur : currentPayloadTypes db rtp cng i.packet.header.payloadType
      with ⟨rtp', cng', change⟩
    have hmid : P (if change then flush s else s) := by
      split
      · exact hflush _ h
      · exact h
    have hnext := hinsert _ i List.mem_cons_self hmid
    rcases hret : insertPacket (if change then flush s else s) i.usable with ⟨returnVal, s'⟩
    rw [hret] at hnext
    simp only [insertList, hcur, hret]
    cases returnVal with
    | ok => exact ih hrest hnext
    | flushed => exact ih hrest hnext
    | notFound => exact hnext
    | bufferEmpty => exact hnext
    | invalidPacket => exact hnext
    | invalidPointer => exact hnext

/-- What flushing and inserting commute with, the loop does. -/
theorem insertList_map {flush' : τ → τ} {insertPacket' : τ → Option Packet → BufferReturnCode × τ}
    (f : σ → τ) (hflush : ∀ s, flush' (f s) = f (flush s))
    (hinsert : ∀ s packet, insertPacket' (f s) packet = (insertPacket s packet).map id f)
    (db : DecoderDatabase) (flushed : Bool) (packetList : List Incoming) (rtp cng : UInt8) (s : σ) :
    insertList flush' insertPacket' db flushed packetList rtp cng (f s) =
      (insertList flush insertPacket db flushed packetList rtp cng s).map id
        (Prod.map id (Prod.map id f)) := by
  induction packetList generalizing flushed rtp cng s with
  | nil => rfl
  | cons i packetList ih =>
    rcases hcur : currentPayloadTypes db rtp cng i.packet.header.payloadType
      with ⟨rtp', cng', change⟩
    have hmid : (if change then flush' (f s) else f s) = f (if change then flush s else s) := by
      split
      · exact hflush s
      · rfl
    rcases hret : insertPacket (if change then flush s else s) i.usable with ⟨returnVal, s'⟩
    have hret' := hinsert (if change then flush s else s) i.usable
    rw [hret] at hret'
    simp only [insertList, hcur, hmid, hret, hret', Prod.map]
    cases returnVal with
    | ok => exact ih _ _ _ _
    | flushed => exact ih _ _ _ _
    | notFound => rfl
    | bufferEmpty => rfl
    | invalidPacket => rfl
    | invalidPointer => rfl

end InsertList

/-! ## Whatever is inserted -/

/-- What holds of every buffer: neighbours with different timestamps, and the limit. -/
structure Kept (b : PacketBuffer) : Prop where
  distinct : b.buffer.IsChain fun p q => sameTimestamp p q = false
  bounded : b.buffer.length ≤ max 1 b.maxNumberOfPackets

theorem Kept.init (maxNumberOfPackets : Nat) : Kept { maxNumberOfPackets } :=
  ⟨.nil, Nat.zero_le _⟩

theorem Kept.flush {b : PacketBuffer} (_ : Kept b) : Kept b.flush := ⟨.nil, Nat.zero_le _⟩

/-- Nothing is lost from the front but packets, and from nowhere else. -/
theorem Kept.suffix {b : PacketBuffer} (h : Kept b) {rest : List Packet} (hs : rest <:+ b.buffer) :
    Kept { b with buffer := rest } :=
  ⟨h.distinct.suffix hs, Nat.le_trans hs.length_le h.bounded⟩

theorem Kept.insertPacket {b : PacketBuffer} (h : Kept b) (packet : Option Packet) :
    Kept (b.insertPacket packet).2 := by
  cases packet with
  | none => exact h
  | some packet =>
    have hins : ∀ b : PacketBuffer, Kept b → b.buffer.length + 1 ≤ max 1 b.maxNumberOfPackets →
        Kept { b with buffer := backInsert Packet.lt sameTimestamp packet b.buffer } := by
      intro b h hroom
      refine ⟨isChain_backInsert ?_ ?_ h.distinct, Nat.le_trans length_backInsert_le hroom⟩
      · intro p q
        simp only [sameTimestamp, eq_comm]
      · intro p q r hpq hqr
        simp only [sameTimestamp, decide_eq_true_eq] at hpq hqr ⊢
        exact hpq.trans hqr
    by_cases hfull : b.maxNumberOfPackets ≤ b.buffer.length
    · simp only [PacketBuffer.insertPacket, hfull, if_true]
      exact hins b.flush h.flush (by simp [PacketBuffer.flush])
    · simp only [PacketBuffer.insertPacket, hfull, if_false]
      exact hins b h (by omega)

theorem dropWhile_same_eq {b : PacketBuffer} (h : Kept b) {packet : Packet} {rest : List Packet}
    (hb : b.buffer = packet :: rest) :
    rest.dropWhile (fun next => next.header.timestamp = packet.header.timestamp) = rest := by
  have hd := h.distinct
  rw [hb] at hd
  cases rest with
  | nil => rfl
  | cons next rest =>
    obtain ⟨hne, -⟩ := List.isChain_cons_cons.1 hd
    simp only [sameTimestamp, decide_eq_false_iff_not] at hne
    exact List.dropWhile_cons_of_neg (by simpa [eq_comm] using hne)

/-- The assertion holds, and the buffer loses its first packet. -/
theorem Kept.getNextPacket {b : PacketBuffer} (h : Kept b) :
    b.getNextPacket = some (b.buffer.head?, { b with buffer := b.buffer.tail }) := by
  cases hb : b.buffer with
  | nil =>
    simp only [PacketBuffer.getNextPacket, hb, List.head?_nil, List.tail_nil]
    rw [← hb]
  | cons packet rest =>
    simp only [PacketBuffer.getNextPacket, hb, dropWhile_same_eq h hb, Nat.sub_self, if_true]
    rfl

theorem discardNextPacket_snd (b : PacketBuffer) :
    b.discardNextPacket.2 = { b with buffer := b.buffer.tail } := by
  cases hb : b.buffer with
  | nil =>
    simp only [discardNextPacket, hb]
    rw [List.tail_nil, ← hb]
  | cons packet rest => simp only [discardNextPacket, hb, List.tail_cons]

theorem step_kept {b : PacketBuffer} (h : Kept b) (op : Op) :
    ∃ b', b.step op = some b' ∧ Kept b' := by
  cases op with
  | insertPacket packet => exact ⟨_, rfl, h.insertPacket packet⟩
  | insertPacketList db packetList rtp cng =>
    exact ⟨_, rfl, insertList_keeps (fun _ h => h.flush) (fun _ i _ h => h.insertPacket i.usable) h⟩
  | getNextPacket =>
    refine ⟨_, ?_, h.suffix (List.tail_suffix _)⟩
    rw [step, h.getNextPacket]
    rfl
  | discardNextPacket =>
    refine ⟨_, rfl, ?_⟩
    rw [discardNextPacket_snd]
    exact h.suffix (List.tail_suffix _)
  | discardOldPackets timestampLimit horizonSamples =>
    exact ⟨_, rfl, h.suffix (List.dropWhile_suffix _)⟩
  | flush => exact ⟨_, rfl, h.flush⟩

end PacketBuffer

end RtcCore.L2.NetEq
