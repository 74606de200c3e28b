import Mathlib.Algebra.Order.BigOperators.Group.List
import RtcCore.L2Receive.SplitRed

/-!
# `PayloadSplitter::SplitAudio`

Packets of sample-based codecs are cut into chunks of 20 to 40 ms, iLBC packets
into frames; other packets stay as they are. The size of a chunk is the length
of the payload, halved until it is below 40 ms; the loop that cuts goes on
while two chunks are left. It is run with fuel: an empty payload makes chunks
of no octets, of which two are always left.

`Split` says what is to become of a list, packet by packet, up to the first
that is refused.

Results:
- `split_audio_iff`: the list is split so exactly if each sample-based packet
  before that has octets, and its chunks, where it is cut at all, whole samples.
-/
namespace RtcCore.L2.NetEq

open L1

/-! ## The code -/

/-- A packet with a part of the payload. -/
def piece (packet : Packet) (timestamp : UInt32) (payload : Bytes) : Packet where
  header := { packet.header with timestamp := timestamp }
  payload := payload
  primary := packet.primary

/-- `while (split_size_bytes >= 2 * min_chunk_size) split_size_bytes >>= 1;`, in
at most as many rounds as there are octets. -/
def chunkSize (minChunkSize : Nat) : Nat → Nat → Nat
  | 0, size => size
  | rounds + 1, size =>
    if 2 * minChunkSize ≤ size then chunkSize minChunkSize rounds (size / 2) else size

/-- No value: out of fuel.
mirrors webrtc/modules/audio_coding/neteq/payload_splitter.cc:370-398 -/
def cutChunks (packet : Packet) (size : Nat) (step : UInt32) :
    Nat → UInt32 → Bytes → Option (List Packet)
  | 0, _, _ => none
  | fuel + 1, timestamp, payload =>
    if 2 * size ≤ payload.length then
      (cutChunks packet size step fuel (timestamp + step) (payload.drop size)).map
        (piece packet timestamp (payload.take size) :: ·)
    else some (if payload.length > 0 then [piece packet timestamp payload] else [])

/-- mirrors webrtc/modules/audio_coding/neteq/payload_splitter.cc:354-399 -/
def splitBySamples (fuel : Nat) (packet : Packet) (bytesPerMs timestampsPerMs : Nat) :
    Option (List Packet) :=
  let size := chunkSize (bytesPerMs * 20) packet.payload.length packet.payload.length
  cutChunks packet size (.ofNat (size * timestampsPerMs / bytesPerMs)) fuel packet.header.timestamp
    packet.payload

/-- `while (len > 0) ...`, in at most as many rounds as there are octets.
mirrors webrtc/modules/audio_coding/neteq/payload_splitter.cc:414-431 -/
def cutFrames (packet : Packet) (bytesPerFrame : Nat) (timestampsPerFrame : UInt32) :
    Nat → UInt32 → Bytes → List Packet
  | 0, _, _ => []
  | rounds + 1, timestamp, payload =>
    if payload.length > 0 then
      piece packet timestamp (payload.take bytesPerFrame) ::
        cutFrames packet bytesPerFrame timestampsPerFrame rounds (timestamp + timestampsPerFrame)
          (payload.drop bytesPerFrame)
    else []

/-- mirrors webrtc/modules/audio_coding/neteq/payload_splitter.cc:401-433 -/
def splitByFrames (packet : Packet) (bytesPerFrame : Nat) (timestampsPerFrame : UInt32) :
    SplitterReturnCode × List Packet :=
  if packet.payload.length % bytesPerFrame ≠ 0 then (.frameSplitError, [])
  else if packet.payload.length = bytesPerFrame then (.noSplit, [])
  else
    (.ok, cutFrames packet bytesPerFrame timestampsPerFrame packet.payload.length
      packet.header.timestamp packet.payload)

/-- The bytes and the timestamps per millisecond with which a codec is split.
mirrors webrtc/modules/audio_coding/neteq/payload_splitter.cc:237-299 -/
def samplesPerMs : NetEqDecoder → Option (Nat × Nat)
  | .pcmu | .pcma => some (8, 8)
  | .pcmu2ch | .pcma2ch => some (2 * 8, 8)
  | .g722 => some (8, 16)
  | .pcm16b => some (16, 8)
  | .pcm16bWb => some (32, 16)
  | .pcm16bSwb32kHz => some (64, 32)
  | .pcm16bSwb48kHz => some (96, 48)
  | .pcm16b2ch => some (2 * 16, 8)
  | .pcm16bWb2ch => some (2 * 32, 16)
  | .pcm16bSwb32kHz2ch => some (2 * 64, 32)
  | .pcm16bSwb48kHz2ch => some (2 * 96, 48)
  | .pcm16b5ch => some (5 * 16, 8)
  | _ => none

/-- The frames an iLBC payload is cut into.
mirrors webrtc/modules/audio_coding/neteq/payload_splitter.cc:303-317 -/
def ilbcFrame (length : Nat) : Except SplitterReturnCode (Nat × UInt32) :=
  if length ≥ 950 then .error .tooLargePayload
  else if length % 38 = 0 then .ok (38, 160)
  else if length % 50 = 0 then .ok (50, 240)
  else .error .frameSplitError

/-- What takes the place of a packet, or the error that ends the loop; no value
if the loop over the chunks does not end.
mirrors webrtc/modules/audio_coding/neteq/payload_splitter.cc:224-340 -/
def splitPacket (fuel : Nat) (db : DecoderDatabase) (packet : Packet) :
    Option (Except SplitterReturnCode (List Packet)) :=
  match db packet.header.payloadType with
  | none => some (.error .unknownPayloadType)
  | some info =>
    if packet.syncPacket then some (.ok [packet])
    else
      match samplesPerMs info.codecType with
      | some (bytesPerMs, timestampsPerMs) =>
        (splitBySamples fuel packet bytesPerMs timestampsPerMs).map .ok
      | none =>
        if info.codecType = .ilbc then
          match ilbcFrame packet.payload.length with
          | .error code => some (.error code)
          | .ok (bytesPerFrame, timestampsPerFrame) =>
            match splitByFrames packet bytesPerFrame timestampsPerFrame with
            | (.noSplit, _) => some (.ok [packet])
            | (.ok, newPackets) => some (.ok newPackets)
            | (code, _) => some (.error code)
        else some (.ok [packet])

/-- mirrors webrtc/modules/audio_coding/neteq/payload_splitter.cc:218-352 -/
def splitAudio (fuel : Nat) (db : DecoderDatabase) :
    List Packet → Option (SplitterReturnCode × List Packet)
  | [] => some (.ok, [])
  | packet :: packetList =>
    (splitPacket fuel db packet).bind fun split =>
      match split with
      | .error code => some (code, packet :: packetList)
      | .ok newPackets =>
        (splitAudio fuel db packetList).map fun (ret, out) => (ret, newPackets ++ out)

/-! ## What is to become of the packets -/

/-- The codec's rates, for a packet that is cut by samples. -/
def rates (db : DecoderDatabase) (packet : Packet) : Option (Nat × Nat) :=
  if packet.syncPacket then none
  else (db packet.header.payloadType).bind fun info => samplesPerMs info.codecType

/-- Whether a packet is cut into frames. -/
def framed (db : DecoderDatabase) (packet : Packet) : Bool :=
  !packet.syncPacket && db.isType packet.header.payloadType .ilbc

/-- The error a packet is refused with. -/
def refused (db : DecoderDatabase) (packet : Packet) : Option SplitterReturnCode :=
  if (db packet.header.payloadType).isNone then some .unknownPayloadType
  else if framed db packet then
    match ilbcFrame packet.payload.length with
    | .error code => some code
    | .ok _ => none
  else none

/-- Pieces of a packet at a codec's rates: together its payload, each of 20 to
80 ms (or all there is), of whole samples if the packet is, and with the
timestamp of its first sample. -/
structure Pieces (packet : Packet) (bytesPerMs timestampsPerMs : Nat) (new : List Packet) : Prop where
  payload : (new.map (·.payload)).flatten = packet.payload
  sizes : ∀ q ∈ new, (20 * bytesPerMs ≤ q.payload.length ∨ new = [q]) ∧
    q.payload.length < 80 * bytesPerMs
  whole : bytesPerMs ∣ packet.payload.length * timestampsPerMs →
    ∀ q ∈ new, bytesPerMs ∣ q.payload.length * timestampsPerMs
  times : ∀ before q after, new = before ++ q :: after → ∃ samples,
    samples * bytesPerMs = (before.map (·.payload.length)).sum * timestampsPerMs ∧
      q.header = { packet.header with timestamp := packet.header.timestamp + .ofNat samples } ∧
      q.primary = packet.primary

/-- The frames of a packet. -/
structure Frames (packet : Packet) (bytesPerFrame : Nat) (timestampsPerFrame : UInt32)
    (new : List Packet) : Prop where
  payload : (new.map (·.payload)).flatten = packet.payload
  sizes : ∀ q ∈ new, q.payload.length = bytesPerFrame
  times : ∀ before q after, new = before ++ q :: after →
    q.header = { packet.header with
        timestamp := packet.header.timestamp + .ofNat before.length * timestampsPerFrame } ∧
      q.primary = packet.primary

/-- What is to take the place of a packet. -/
inductive Part (db : DecoderDatabase) (packet : Packet) : List Packet → Prop
  | samples {new : List Packet} {bytesPerMs timestampsPerMs : Nat}
      (hr : rates db packet = some (bytesPerMs, timestampsPerMs))
      (h : Pieces packet bytesPerMs timestampsPerMs new) : Part db packet new
  | frames {new : List Packet} {bytesPerFrame : Nat} {timestampsPerFrame : UInt32}
      (hf : framed db packet = true)
      (hi : ilbcFrame packet.payload.length = .ok (bytesPerFrame, timestampsPerFrame))
      (h : Frames packet bytesPerFrame timestampsPerFrame new) : Part db packet new
  | kept (hr : rates db packet = none) (hf : framed db packet = false) : Part db packet [packet]

/-- What is to become of a list of packets, with the result of the call. -/
inductive Split (db : DecoderDatabase) : List Packet → SplitterReturnCode → List Packet → Prop
  | nil : Split db [] .ok []
  | refused {packet : Packet} {packetList : List Packet} {code : SplitterReturnCode}
      (h : refused db packet = some code) : Split db (packet :: packetList) code (packet :: packetList)
  | part {packet : Packet} {packetList new out : List Packet} {ret : SplitterReturnCode}
      (hn : NetEq.refused db packet = none) (h : Part db packet new) (t : Split db packetList ret out) :
      Split db (packet :: packetList) ret (new ++ out)

/-- There are octets to cut, and the payload's half, quarter, .. of 20 to 40 ms is
a whole number of samples. -/
def Divisible (packet : Packet) (bytesPerMs timestampsPerMs : Nat) : Prop :=
  packet.payload ≠ [] ∧ ∀ k, 20 * bytesPerMs ≤ packet.payload.length / 2 ^ (k + 1) →
    packet.payload.length / 2 ^ (k + 1) < 40 * bytesPerMs →
    bytesPerMs ∣ packet.payload.length / 2 ^ (k + 1) * timestampsPerMs

/-- Each packet that is cut by samples is divisible, up to the first refused. -/
def Clean (db : DecoderDatabase) : List Packet → Prop
  | [] => True
  | packet :: packetList =>
    (∀ bytesPerMs timestampsPerMs, rates db packet = some (bytesPerMs, timestampsPerMs) →
      Divisible packet bytesPerMs timestampsPerMs) ∧
    (refused db packet = none → Clean db packetList)

/-! ## Chunks -/

section

variable {packet : Packet} {size : Nat} {step : UInt32}

/-- The size is the length halved until it is below twice the minimum. -/
theorem chunkSize_spec {min : Nat} {rounds : Nat} (len : Nat) (hmin : 0 < min) (hr : len ≤ rounds) :
    ∃ k, chunkSize min rounds len = len / 2 ^ k ∧ chunkSize min rounds len < 2 * min ∧
      (k = 0 ∨ min ≤ chunkSize min rounds len) := by
  induction rounds generalizing len with
  | zero => exact ⟨0, by simp [chunkSize], by unfold chunkSize; omega, .inl rfl⟩
  | succ rounds ih =>
    unfold chunkSize
    split
    · rename_i hlen
      obtain ⟨k, hk, hlt, hge⟩ := ih (len / 2) (by omega)
      refine ⟨k + 1, ?_, hlt, .inr ?_⟩
      · rw [hk, Nat.div_div_eq_div_mul, Nat.pow_succ, Nat.mul_comm]
      · rcases hge with rfl | hge
        · rw [hk, Nat.pow_zero, Nat.div_one]
          omega
        · exact hge
    · exact ⟨0, by simp, by omega, .inl rfl⟩

/-- No other halving lies in that range. -/
theorem halving_unique {min j k : Nat} (len : Nat) (h1 : min ≤ len / 2 ^ j)
    (h2 : len / 2 ^ k < 2 * min) : j ≤ k := by
  by_contra hc
  have hhalf : len / 2 ^ j ≤ len / 2 ^ (k + 1) :=
    Nat.div_le_div_left (Nat.pow_le_pow_right (by decide) (by omega)) (Nat.two_pow_pos _)
  rw [Nat.pow_succ, ← Nat.div_div_eq_div_mul] at hhalf
  omega

/-- Chunks of no octets never come to an end. -/
theorem cutChunks_zero (fuel : Nat) (timestamp : UInt32) (payload : Bytes) :
    cutChunks packet 0 step fuel timestamp payload = none := by
  induction fuel generalizing timestamp payload with
  | zero => rfl
  | succ fuel ih =>
    rw [cutChunks, if_pos (by omega), ih]
    rfl

theorem step_succ (t step : UInt32) (n : Nat) :
    t + step + .ofNat n * step = t + .ofNat (n + 1) * step := by
  rw [UInt32.ofNat_add, UInt32.add_mul, UInt32.add_comm (.ofNat n * step), ← UInt32.add_assoc]
  simp

/-- What the loop over the chunks makes of a payload. -/
structure Chunks (packet : Packet) (size : Nat) (step timestamp : UInt32) (payload : Bytes)
    (new : List Packet) : Prop where
  payload : (new.map (·.payload)).flatten = payload
  sizes : ∀ q ∈ new, (size ≤ q.payload.length ∨ new = [q]) ∧ q.payload.length < 2 * size
  times : ∀ before q after, new = before ++ q :: after →
    (∀ r ∈ before, r.payload.length = size) ∧
      q.header = { packet.header with timestamp := timestamp + .ofNat before.length * step } ∧
      q.primary = packet.primary

theorem cutChunks_spec (packet : Packet) (step : UInt32) (hsize : 0 < size) {fuel : Nat}
    {payload : Bytes} (hf : payload.length < fuel) (timestamp : UInt32) :
    ∃ new, cutChunks packet size step fuel timestamp payload = some new ∧
      Chunks packet size step timestamp payload new := by
  induction fuel generalizing timestamp payload with
  | zero => exact absurd hf (Nat.not_lt_zero _)
  | succ fuel ih =>
    rw [cutChunks]
    by_cases htwo : 2 * size ≤ payload.length
    · have hless : (payload.drop size).length < fuel := by
        rw [List.length_drop]
        omega
      obtain ⟨new, hnew, hc⟩ := ih hless (timestamp + step)
      have hfirst : (payload.take size).length = size := List.length_take_of_le (by omega)
      rw [if_pos htwo, hnew]
      refine ⟨_, rfl, ?_, ?_, ?_⟩
      · rw [List.map_cons, List.flatten_cons, hc.payload]
        exact List.take_append_drop size payload
      · intro q hq
        rcases List.mem_cons.1 hq with rfl | hq
        · exact ⟨.inl (Nat.le_of_eq hfirst.symm), by simp only [piece, hfirst]; omega⟩
        · obtain ⟨hle, hlt⟩ := hc.sizes q hq
          refine ⟨.inl ?_, hlt⟩
          rcases hle with hle | rfl
          · exact hle
          · -- the only one left has all the rest
            have hall := congrArg List.length hc.payload
            simp only [List.map_cons, List.map_nil, List.flatten_cons, List.flatten_nil,
              List.append_nil, List.length_drop] at hall
            omega
      · intro before q after he
        cases before with
        | nil =>
          obtain ⟨rfl, -⟩ := List.cons.inj he
          exact ⟨fun _ h => absurd h List.not_mem_nil, by simp [piece], rfl⟩
        | cons r before =>
          obtain ⟨rfl, htail⟩ := List.cons.inj he
          obtain ⟨h1, h2, h3⟩ := hc.times before q after htail
          refine ⟨fun x hx => ?_, ?_, h3⟩
          · rcases List.mem_cons.1 hx with rfl | hx
            · exact hfirst
            · exact h1 x hx
          · rw [h2, List.length_cons, step_succ]
    · rw [if_neg htwo]
      by_cases hpos : payload.length > 0
      · rw [if_pos hpos]
        refine ⟨_, rfl, by simp [piece], ?_, ?_⟩
        · intro q hq
          rw [List.mem_singleton.1 hq]
          exact ⟨.inr rfl, by simp only [piece]; omega⟩
        · intro before q after he
          cases before with
          | nil =>
            obtain ⟨rfl, -⟩ := List.cons.inj he
            exact ⟨fun _ h => absurd h List.not_mem_nil, by simp [piece], rfl⟩
          | cons r before =>
            have := congrArg List.length he
            simp at this
      · rw [if_neg hpos]
        have hnil : payload = [] := List.eq_nil_of_length_eq_zero (by omega)
        exact ⟨_, rfl, by rw [hnil]; rfl, fun _ h => absurd h List.not_mem_nil,
          fun before q after he => by simp at he⟩

/-! ## A packet cut by samples -/

variable {bytesPerMs timestampsPerMs : Nat}

theorem cutChunks_one {fuel : Nat} (hf : 0 < fuel) {payload : Bytes} (hne : payload ≠ [])
    (hshort : payload.length < 2 * size) (timestamp : UInt32) :
    cutChunks packet size step fuel timestamp payload = some [piece packet timestamp payload] := by
  obtain ⟨fuel, rfl⟩ := Nat.exists_eq_add_one_of_ne_zero (Nat.ne_of_gt hf)
  rw [cutChunks, if_neg (by omega), if_pos (List.length_pos_iff.2 hne)]

theorem pieces_one (hshort : packet.payload.length < 40 * bytesPerMs) :
    Pieces packet bytesPerMs timestampsPerMs
      [piece packet packet.header.timestamp packet.payload] := by
  refine ⟨by simp [piece], ?_, ?_, ?_⟩
  · intro q hq
    rw [List.mem_singleton.1 hq]
    exact ⟨.inr rfl, by simp only [piece]; omega⟩
  · intro hw q hq
    rw [List.mem_singleton.1 hq]
    exact hw
  · intro before q after he
    cases before with
    | nil =>
      obtain ⟨rfl, -⟩ := List.cons.inj he
      exact ⟨0, by simp, by simp [piece], rfl⟩
    | cons r before =>
      have := congrArg List.length he
      simp at this

theorem sum_lengths {l : List Packet} (h : ∀ r ∈ l, r.payload.length = size) :
    (l.map (·.payload.length)).sum = l.length * size := by
  have : l.map (·.payload.length) = List.replicate l.length size := by
    rw [List.eq_replicate_iff]
    refine ⟨List.length_map _, fun n hn => ?_⟩
    obtain ⟨r, hr, rfl⟩ := List.mem_map.1 hn
    exact h r hr
  rw [this, List.sum_replicate_nat]

/-- Chunks of whole samples are pieces. -/
theorem Chunks.pieces {new : List Packet}
    (hc : Chunks packet size (.ofNat (size * timestampsPerMs / bytesPerMs)) packet.header.timestamp
      packet.payload new)
    (hmin : 20 * bytesPerMs ≤ size) (hmax : size < 40 * bytesPerMs)
    (hwhole : bytesPerMs ∣ size * timestampsPerMs) :
    Pieces packet bytesPerMs timestampsPerMs new := by
  refine ⟨hc.payload, fun q hq => ?_, fun hall q hq => ?_, fun before q after he => ?_⟩
  · obtain ⟨hle, hlt⟩ := hc.sizes q hq
    exact ⟨hle.imp_left fun h => by omega, by omega⟩
  · obtain ⟨before, after, he⟩ := List.append_of_mem hq
    obtain ⟨hsizes, -⟩ := hc.times before q after he
    cases after with
    | nil =>
      -- the last piece is what the chunks before it leave
      have htotal := congrArg List.length hc.payload
      rw [List.length_flatten, List.map_map, he, List.map_append, List.sum_append] at htotal
      simp only [Function.comp_def, List.map_cons, List.map_nil, List.sum_singleton] at htotal
      rw [sum_lengths hsizes] at htotal
      have hdvd : bytesPerMs ∣ before.length * (size * timestampsPerMs) := Dvd.dvd.mul_left hwhole _
      rw [← htotal, Nat.add_mul, Nat.mul_assoc] at hall
      exact (Nat.dvd_add_right hdvd).1 hall
    | cons q' after =>
      obtain ⟨hsizes', -⟩ := hc.times (before ++ [q]) q' after (by rw [he, List.append_assoc]; rfl)
      rw [hsizes' q (List.mem_append_right _ (List.mem_singleton.2 rfl))]
      exact hwhole
  · obtain ⟨hsizes, hheader, hprimary⟩ := hc.times before q after he
    refine ⟨before.length * (size * timestampsPerMs / bytesPerMs), ?_, ?_, hprimary⟩
    · rw [sum_lengths hsizes, Nat.mul_assoc, Nat.div_mul_cancel hwhole, Nat.mul_assoc]
    · rw [hheader, UInt32.ofNat_mul]

theorem splitBySamples_pieces {fuel : Nat} (hb : 0 < bytesPerMs)
    (hd : Divisible packet bytesPerMs timestampsPerMs) (hf : packet.payload.length < fuel) :
    ∃ new, splitBySamples fuel packet bytesPerMs timestampsPerMs = some new ∧
      Pieces packet bytesPerMs timestampsPerMs new := by
  obtain ⟨hne, hhalves⟩ := hd
  have hpos := List.length_pos_iff.2 hne
  have hmin : 0 < bytesPerMs * 20 := by omega
  obtain ⟨k, hk, hlt, hge⟩ := chunkSize_spec packet.payload.length hmin (Nat.le_refl _)
  unfold splitBySamples
  dsimp only
  cases k with
  | zero =>
    rw [Nat.pow_zero, Nat.div_one] at hk
    rw [hk] at hlt ⊢
    exact ⟨_, cutChunks_one (by omega) hne (by omega) _, pieces_one (by omega)⟩
  | succ k =>
    have hmin : bytesPerMs * 20 ≤ packet.payload.length / 2 ^ (k + 1) := by
      rw [← hk]
      exact hge.resolve_left (Nat.succ_ne_zero k)
    rw [hk] at hlt ⊢
    have hsize : 0 < packet.payload.length / 2 ^ (k + 1) := by omega
    obtain ⟨new, hnew, hc⟩ := cutChunks_spec packet (.ofNat (packet.payload.length / 2 ^ (k + 1) *
      timestampsPerMs / bytesPerMs)) hsize hf packet.header.timestamp
    exact ⟨new, hnew, hc.pieces (by omega) (by omega) (hhalves k (by omega) (by omega))⟩

/-- Where the loop ends, and more than one chunk is cut, the first two show the
size of a chunk. -/
theorem splitBySamples_cut {fuel : Nat} {new : List Packet} (hb : 0 < bytesPerMs)
    (h : splitBySamples fuel packet bytesPerMs timestampsPerMs = some new) :
    packet.payload ≠ [] ∧ ∀ k, 20 * bytesPerMs ≤ packet.payload.length / 2 ^ (k + 1) →
      packet.payload.length / 2 ^ (k + 1) < 40 * bytesPerMs →
      ∃ first second rest, new = first :: second :: rest ∧
        first.payload.length = packet.payload.length / 2 ^ (k + 1) := by
  unfold splitBySamples at h
  dsimp only at h
  have hne : packet.payload ≠ [] := by
    intro hnil
    rw [hnil] at h
    simp only [List.length_nil, chunkSize] at h
    rw [cutChunks_zero] at h
    cases h
  refine ⟨hne, fun k hmin hmax => ?_⟩
  have hmin' : 0 < bytesPerMs * 20 := by omega
  obtain ⟨j, hj, hlt, hge⟩ := chunkSize_spec packet.payload.length hmin' (Nat.le_refl _)
  rw [hj] at hlt hge h
  have hjk : j = k + 1 := by
    refine Nat.le_antisymm ?_ (halving_unique packet.payload.length
      (show bytesPerMs * 20 ≤ _ by omega) hlt)
    rcases hge with rfl | hge
    · exact Nat.zero_le _
    · exact halving_unique packet.payload.length hge (by omega)
  subst hjk
  have htwice : 2 * (packet.payload.length / 2 ^ (k + 1)) ≤ packet.payload.length := by
    rw [Nat.pow_succ, ← Nat.div_div_eq_div_mul]
    have := Nat.div_le_self packet.payload.length (2 ^ k)
    omega
  generalize packet.payload.length / 2 ^ (k + 1) = size at *
  cases fuel with
  | zero => cases h
  | succ fuel =>
    rw [cutChunks, if_pos htwice, Option.map_eq_some_iff] at h
    obtain ⟨rest, hrest, rfl⟩ := h
    have hfirst : (packet.payload.take size).length = size := List.length_take_of_le (by omega)
    cases fuel with
    | zero => cases hrest
    | succ fuel =>
      rw [cutChunks] at hrest
      split at hrest
      · obtain ⟨rest', -, rfl⟩ := Option.map_eq_some_iff.1 hrest
        exact ⟨_, _, _, rfl, hfirst⟩
      · rw [List.length_drop, if_pos (by omega)] at hrest
        cases hrest
        exact ⟨_, _, _, rfl, hfirst⟩

/-! ## A packet cut into frames -/

theorem cutFrames_spec (packet : Packet) {bytes : Nat} (step : UInt32) (hb : 0 < bytes)
    {rounds : Nat} {payload : Bytes} (hr : payload.length ≤ rounds) (hd : bytes ∣ payload.length)
    (timestamp : UInt32) :
    ((cutFrames packet bytes step rounds timestamp payload).map (·.payload)).flatten = payload ∧
      (∀ q ∈ cutFrames packet bytes step rounds timestamp payload, q.payload.length = bytes) ∧
      ∀ before q after, cutFrames packet bytes step rounds timestamp payload = before ++ q :: after →
        q.header = { packet.header with timestamp := timestamp + .ofNat before.length * step } ∧
          q.primary = packet.primary := by
  induction rounds generalizing timestamp payload with
  | zero =>
    have hnil : payload = [] := List.eq_nil_of_length_eq_zero (Nat.le_zero.1 hr)
    refine ⟨hnil.symm, fun _ h => absurd h List.not_mem_nil, fun before q after he => ?_⟩
    simp [cutFrames] at he
  | succ rounds ih =>
    rw [cutFrames]
    by_cases hpos : payload.length > 0
    · have hle : bytes ≤ payload.length := Nat.le_of_dvd hpos hd
      have hrest : (payload.drop bytes).length ≤ rounds := by
        rw [List.length_drop]
        omega
      obtain ⟨h1, h2, h3⟩ := ih hrest (by rw [List.length_drop]; exact Nat.dvd_sub hd (Nat.dvd_refl _))
        (timestamp + step)
      rw [if_pos hpos]
      refine ⟨?_, ?_, ?_⟩
      · rw [List.map_cons, List.flatten_cons, h1]
        exact List.take_append_drop bytes payload
      · intro q hq
        rcases List.mem_cons.1 hq with rfl | hq
        · exact List.length_take_of_le hle
        · exact h2 q hq
      · intro before q after he
        cases before with
        | nil =>
          obtain ⟨rfl, -⟩ := List.cons.inj he
          exact ⟨by simp [piece], rfl⟩
        | cons r before =>
          obtain ⟨rfl, htail⟩ := List.cons.inj he
          obtain ⟨h4, h5⟩ := h3 before q after htail
          exact ⟨by rw [h4, List.length_cons, step_succ], h5⟩
    · rw [if_neg hpos]
      have hnil : payload = [] := List.eq_nil_of_length_eq_zero (by omega)
      refine ⟨hnil.symm, fun _ h => absurd h List.not_mem_nil, fun before q after he => ?_⟩
      simp at he

theorem ilbcFrame_ok {length bytes : Nat} {step : UInt32}
    (h : ilbcFrame length = .ok (bytes, step)) : 0 < bytes ∧ bytes ∣ length := by
  unfold ilbcFrame at h
  split at h
  · cases h
  · split at h
    · cases h
      exact ⟨by decide, Nat.dvd_of_mod_eq_zero ‹_›⟩
    · split at h
      · cases h
        exact ⟨by decide, Nat.dvd_of_mod_eq_zero ‹_›⟩
      · cases h

/-- Either the packet is one frame, or its frames are cut. -/
theorem splitByFrames_frames {bytes : Nat} (step : UInt32) (hb : 0 < bytes)
    (hd : bytes ∣ packet.payload.length) :
    splitByFrames packet bytes step = (.noSplit, []) ∧ Frames packet bytes step [packet] ∨
      ∃ new, splitByFrames packet bytes step = (.ok, new) ∧ Frames packet bytes step new := by
  unfold splitByFrames
  rw [if_neg (by simpa using Nat.mod_eq_zero_of_dvd hd)]
  split
  · rename_i hone
    refine .inl ⟨rfl, by simp, fun q hq => ?_, fun before q after he => ?_⟩
    · rw [List.mem_singleton.1 hq]
      exact hone
    · cases before with
      | nil =>
        obtain ⟨rfl, -⟩ := List.cons.inj he
        exact ⟨by simp, rfl⟩
      | cons r before =>
        have := congrArg List.length he
        simp at this
  · obtain ⟨h1, h2, h3⟩ := cutFrames_spec packet step hb (Nat.le_refl packet.payload.length) hd
      packet.header.timestamp
    exact .inr ⟨_, rfl, h1, h2, h3⟩

/-! ## One packet -/

variable {db : DecoderDatabase}

theorem samplesPerMs_pos {codecType : NetEqDecoder}
    (h : samplesPerMs codecType = some (bytesPerMs, timestampsPerMs)) : 0 < bytesPerMs := by
  cases codecType <;> cases h <;> decide

theorem rates_pos (h : rates db packet = some (bytesPerMs, timestampsPerMs)) : 0 < bytesPerMs := by
  unfold rates at h
  split at h
  · cases h
  · obtain ⟨info, -, hinfo⟩ := Option.bind_eq_some_iff.1 h
    exact samplesPerMs_pos hinfo

/-- A packet that is cut by samples is neither refused nor cut into frames. -/
theorem refused_of_rates (h : rates db packet = some (bytesPerMs, timestampsPerMs)) :
    refused db packet = none ∧ framed db packet = false := by
  unfold rates at h
  split at h
  · cases h
  · obtain ⟨info, hdb, hinfo⟩ := Option.bind_eq_some_iff.1 h
    have hilbc : info.codecType ≠ .ilbc := by
      intro hc
      rw [hc] at hinfo
      cases hinfo
    have hframed : framed db packet = false := by
      simp [framed, DecoderDatabase.isType, hdb, hilbc]
    refine ⟨?_, hframed⟩
    rw [refused, hframed, hdb]
    rfl

theorem splitPacket_rates (fuel : Nat) (h : rates db packet = some (bytesPerMs, timestampsPerMs)) :
    splitPacket fuel db packet =
      (splitBySamples fuel packet bytesPerMs timestampsPerMs).map .ok := by
  unfold rates at h
  split at h
  · cases h
  · rename_i hsync
    obtain ⟨info, hdb, hinfo⟩ := Option.bind_eq_some_iff.1 h
    unfold splitPacket
    rw [hdb]
    dsimp only
    rw [if_neg hsync, hinfo]

theorem framed_iff : framed db packet = true ↔
    packet.syncPacket = false ∧ ∃ info, db packet.header.payloadType = some info ∧
      info.codecType = .ilbc := by
  unfold framed DecoderDatabase.isType
  cases db packet.header.payloadType <;> simp

theorem splitPacket_framed (fuel : Nat) (h : framed db packet = true) :
    splitPacket fuel db packet =
      match ilbcFrame packet.payload.length with
      | .error code => some (.error code)
      | .ok (bytesPerFrame, timestampsPerFrame) =>
        match splitByFrames packet bytesPerFrame timestampsPerFrame with
        | (.noSplit, _) => some (.ok [packet])
        | (.ok, newPackets) => some (.ok newPackets)
        | (code, _) => some (.error code) := by
  obtain ⟨hsync, info, hdb, hilbc⟩ := framed_iff.1 h
  unfold splitPacket
  rw [hdb]
  dsimp only
  rw [if_neg (by rw [hsync]; exact Bool.false_ne_true), hilbc]
  rfl

theorem splitPacket_refused (fuel : Nat) {code : SplitterReturnCode}
    (h : refused db packet = some code) : splitPacket fuel db packet = some (.error code) := by
  unfold refused at h
  split at h
  · rename_i hdb
    cases h
    rw [Option.isNone_iff_eq_none] at hdb
    unfold splitPacket
    rw [hdb]
  · split at h
    · rename_i hf
      rw [splitPacket_framed fuel hf]
      split at h
      · rename_i hi
        cases h
        rw [hi]
      · cases h
    · cases h

/-- What is not cut by samples is a part, or refused. -/
theorem splitPacket_other (hn : refused db packet = none) (hr : rates db packet = none) :
    ∃ new, (∀ fuel, splitPacket fuel db packet = some (.ok new)) ∧ Part db packet new := by
  unfold refused at hn
  split at hn
  · cases hn
  · rename_i hdb
    split at hn
    · rename_i hf
      split at hn
      · cases hn
      · rename_i frame hi
        obtain ⟨bytes, step⟩ := frame
        obtain ⟨hb, hd⟩ := ilbcFrame_ok hi
        have hsplit := fun fuel => splitPacket_framed fuel hf
        rw [hi] at hsplit
        dsimp only at hsplit
        rcases splitByFrames_frames step hb hd with ⟨hs, hframes⟩ | ⟨new, hs, hframes⟩
        · rw [hs] at hsplit
          exact ⟨_, hsplit, .frames hf hi hframes⟩
        · rw [hs] at hsplit
          exact ⟨_, hsplit, .frames hf hi hframes⟩
    · rename_i hf
      have hf : framed db packet = false := Bool.eq_false_iff.2 hf
      refine ⟨[packet], fun fuel => ?_, .kept hr hf⟩
      obtain ⟨info, hinfo⟩ := Option.ne_none_iff_exists'.1 (mt Option.isNone_iff_eq_none.2 hdb)
      unfold splitPacket
      rw [hinfo]
      dsimp only
      split
      · rfl
      · rename_i hsync
        have hsync : packet.syncPacket = false := Bool.eq_false_iff.2 hsync
        have hsamples : samplesPerMs info.codecType = none := by
          rw [rates, hsync, hinfo] at hr
          exact hr
        have hilbc : info.codecType ≠ .ilbc := fun hc => by
          rw [framed_iff.2 ⟨hsync, info, hinfo, hc⟩] at hf
          cases hf
        rw [hsamples]
        dsimp only
        rw [if_neg hilbc]

theorem splitPacket_part {fuel : Nat} (hn : refused db packet = none)
    (hd : ∀ b t, rates db packet = some (b, t) → Divisible packet b t)
    (hf : packet.payload.length < fuel) :
    ∃ new, splitPacket fuel db packet = some (.ok new) ∧ Part db packet new := by
  cases hr : rates db packet with
  | none =>
    obtain ⟨new, hnew, hp⟩ := splitPacket_other hn hr
    exact ⟨new, hnew fuel, hp⟩
  | some r =>
    obtain ⟨b, t⟩ := r
    obtain ⟨new, hnew, hp⟩ := splitBySamples_pieces (rates_pos hr) (hd b t hr) hf
    exact ⟨new, by rw [splitPacket_rates fuel hr, hnew]; rfl, .samples hr hp⟩

/-- An end of the loop shows that what was cut by samples is divisible. -/
theorem divisible_of_part {fuel : Nat} {new new' out out' : List Packet}
    (hs : splitPacket fuel db packet = some (.ok new)) (h : Part db packet new')
    (he : new ++ out = new' ++ out') {b t : Nat} (hr : rates db packet = some (b, t)) :
    Divisible packet b t := by
  have hb := rates_pos hr
  rw [splitPacket_rates fuel hr, Option.map_eq_some_iff] at hs
  obtain ⟨new, hs, hnew⟩ := hs
  cases hnew
  obtain ⟨hne, hcut⟩ := splitBySamples_cut hb hs
  refine ⟨hne, fun k hmin hmax => ?_⟩
  obtain ⟨first, second, rest, rfl, hfirst⟩ := hcut k hmin hmax
  cases h with
  | kept hr' => rw [hr] at hr'; cases hr'
  | frames hf => rw [(refused_of_rates hr).2] at hf; cases hf
  | samples hr' hp =>
    rw [hr] at hr'
    cases hr'
    -- the first piece is a chunk and not all of the payload, so there is a second
    have hless : packet.payload.length / 2 ^ (k + 1) < packet.payload.length :=
      Nat.div_lt_self (List.length_pos_iff.2 hne) (Nat.one_lt_two_pow (Nat.succ_ne_zero k))
    rcases new' with _ | ⟨first', _ | ⟨second', rest'⟩⟩
    · exact absurd hp.payload.symm hne
    · obtain ⟨rfl, -⟩ := List.cons.inj he
      have hall := congrArg List.length hp.payload
      simp only [List.map_cons, List.map_nil, List.flatten_cons, List.flatten_nil,
        List.append_nil] at hall
      omega
    · obtain ⟨rfl, -⟩ := List.cons.inj he
      obtain ⟨samples, hsamples, -⟩ := hp.times [first] second' rest' rfl
      rw [List.map_cons, List.map_nil, List.sum_singleton, hfirst] at hsamples
      exact ⟨samples, by rw [← hsamples, Nat.mul_comm]⟩

/-- The fuel does not matter once the loop ends. -/
theorem cutChunks_agree {fuel fuel' : Nat} {timestamp : UInt32} {payload : Bytes}
    {new new' : List Packet} (h : cutChunks packet size step fuel timestamp payload = some new)
    (h' : cutChunks packet size step fuel' timestamp payload = some new') : new = new' := by
  induction fuel generalizing fuel' timestamp payload new new' with
  | zero => cases h
  | succ fuel ih =>
    cases fuel' with
    | zero => cases h'
    | succ fuel' =>
      rw [cutChunks] at h h'
      split at h
      · rename_i htwo
        rw [if_pos htwo] at h'
        obtain ⟨rest, hrest, rfl⟩ := Option.map_eq_some_iff.1 h
        obtain ⟨rest', hrest', rfl⟩ := Option.map_eq_some_iff.1 h'
        rw [ih hrest hrest']
      · rename_i htwo
        rw [if_neg htwo] at h'
        exact Option.some.inj (h.symm.trans h')

/-! ## The list -/

theorem Part.flatten {new : List Packet} (h : Part db packet new) :
    (new.map (·.payload)).flatten = packet.payload := by
  cases h with
  | kept => simp
  | frames _ _ hp => exact hp.payload
  | samples _ hp => exact hp.payload

/-- No piece of a packet that is cut is without octets. -/
theorem Part.nonempty {new : List Packet} (h : Part db packet new)
    (hd : ∀ b t, rates db packet = some (b, t) → Divisible packet b t)
    (hcut : rates db packet = none → framed db packet = true) : ∀ q ∈ new, q.payload ≠ [] := by
  intro q hq hnil
  cases h with
  | kept hr hf =>
    rw [hcut hr] at hf
    cases hf
  | frames hf hi hp =>
    have hb := (ilbcFrame_ok hi).1
    have := hp.sizes q hq
    rw [hnil, List.length_nil] at this
    omega
  | samples hr hp =>
    have hb := rates_pos hr
    rcases (hp.sizes q hq).1 with hlen | rfl
    · rw [hnil, List.length_nil] at hlen
      omega
    · refine (hd _ _ hr).1 ?_
      rw [← hp.payload]
      simp [hnil]

/-- Nothing follows a packet's octets but packets without octets. -/
theorem nil_of_flatten {new rest : List Packet}
    (h : ((new ++ rest).map (·.payload)).flatten = (new.map (·.payload)).flatten)
    (hne : ∀ q ∈ new ++ rest, q.payload ≠ []) : rest = [] := by
  rw [List.map_append, List.flatten_append] at h
  have hnil := List.append_right_eq_self.1 h
  rcases rest with _ | ⟨q, rest⟩
  · rfl
  · rw [List.map_cons, List.flatten_cons, List.append_eq_nil_iff] at hnil
    exact absurd hnil.1 (hne q (List.mem_append_right _ List.mem_cons_self))

/-- What takes the place of a packet ends in one place only. -/
theorem Part.unique {new new' out out' : List Packet} (h : Part db packet new)
    (h' : Part db packet new')
    (hd : ∀ b t, rates db packet = some (b, t) → Divisible packet b t)
    (he : new ++ out = new' ++ out') : new = new' := by
  by_cases hcut : rates db packet = none → framed db packet = true
  · have hflat := h.flatten.trans h'.flatten.symm
    have hne := h.nonempty hd hcut
    have hne' := h'.nonempty hd hcut
    rcases List.append_eq_append_iff.1 he with ⟨rest, rfl, -⟩ | ⟨rest, rfl, -⟩
    · rw [nil_of_flatten hflat.symm hne', List.append_nil]
    · rw [nil_of_flatten hflat hne, List.append_nil]
  · obtain ⟨hr, hf⟩ := Classical.not_imp.1 hcut
    have hkept {l : List Packet} (hl : Part db packet l) : l = [packet] := by
      cases hl with
      | kept => rfl
      | frames hf' => exact absurd hf' hf
      | samples hr' => rw [hr] at hr'; cases hr'
    rw [hkept h, hkept h']

theorem splitAudio_split {fuel : Nat} {packetList : List Packet} (h : Clean db packetList)
    (hf : ∀ packet ∈ packetList, packet.payload.length < fuel) :
    ∃ ret out, splitAudio fuel db packetList = some (ret, out) ∧ Split db packetList ret out := by
  induction packetList with
  | nil => exact ⟨_, _, rfl, .nil⟩
  | cons packet packetList ih =>
    cases hn : refused db packet with
    | some code =>
      refine ⟨_, _, ?_, .refused hn⟩
      rw [splitAudio, splitPacket_refused fuel hn]
      rfl
    | none =>
      obtain ⟨new, hnew, hp⟩ := splitPacket_part hn h.1 (hf packet List.mem_cons_self)
      obtain ⟨ret, out, hout, hs⟩ := ih (h.2 hn) fun q hq => hf q (List.mem_cons_of_mem packet hq)
      refine ⟨_, _, ?_, .part hn hp hs⟩
      rw [splitAudio, hnew, Option.bind_some]
      dsimp only
      rw [hout]
      rfl

theorem clean_of_split {fuel : Nat} {packetList out : List Packet} {ret : SplitterReturnCode}
    (hc : splitAudio fuel db packetList = some (ret, out)) (hs : Split db packetList ret out) :
    Clean db packetList := by
  induction packetList generalizing ret out with
  | nil => trivial
  | cons packet packetList ih =>
    cases hn : refused db packet with
    | some code =>
      refine ⟨fun b t hr => ?_, fun hc => ?_⟩
      · rw [(refused_of_rates hr).1] at hn
        cases hn
      · rw [hn] at hc
        cases hc
    | none =>
      rw [splitAudio, Option.bind_eq_some_iff] at hc
      obtain ⟨split, hsplit, hc⟩ := hc
      cases split with
      | error code =>
        -- only a refused packet ends the loop
        exfalso
        cases hr : rates db packet with
        | none =>
          obtain ⟨new, hnew, -⟩ := splitPacket_other hn hr
          rw [hnew] at hsplit
          cases hsplit
        | some r =>
          obtain ⟨b, t⟩ := r
          rw [splitPacket_rates fuel hr, Option.map_eq_some_iff] at hsplit
          obtain ⟨_, -, hsplit⟩ := hsplit
          cases hsplit
      | ok new =>
        dsimp only at hc
        rw [Option.map_eq_some_iff] at hc
        obtain ⟨⟨ret', out'⟩, hrest, hout⟩ := hc
        cases hout
        generalize hall : new ++ out' = all at hs
        cases hs with
        | refused h =>
          rw [hn] at h
          cases h
        | part _ hp ht =>
          have hd : ∀ b t, rates db packet = some (b, t) → Divisible packet b t :=
            fun b t hr => divisible_of_part hsplit hp hall hr
          have hpart : Part db packet new := by
            cases hr : rates db packet with
            | none =>
              obtain ⟨new', hnew', hp'⟩ := splitPacket_other hn hr
              rw [hnew'] at hsplit
              cases hsplit
              exact hp'
            | some r =>
              obtain ⟨b, t⟩ := r
              obtain ⟨new', hnew', hp'⟩ := splitBySamples_pieces (rates_pos hr) (hd b t hr)
                (Nat.lt_succ_self _)
              rw [splitPacket_rates _ hr, Option.map_eq_some_iff] at hsplit
              obtain ⟨x, hx, hxn⟩ := hsplit
              cases hxn
              exact .samples hr (cutChunks_agree hnew' hx ▸ hp')
          have hsame := hpart.unique hp hd hall
          subst hsame
          rw [List.append_cancel_left_eq] at hall
          subst hall
          exact ⟨hd, fun _ => ih hrest ht⟩

/-- The list is split as it should be exactly if what is cut by samples, up to
the first packet refused, is divisible. -/
theorem split_audio_iff (db : DecoderDatabase) (packetList : List Packet) :
    (∃ fuel ret out, splitAudio fuel db packetList = some (ret, out) ∧ Split db packetList ret out) ↔
      Clean db packetList := by
  constructor
  · rintro ⟨fuel, ret, out, hc, hs⟩
    exact clean_of_split hc hs
  · intro h
    refine ⟨(packetList.map (·.payload.length)).sum + 1, splitAudio_split h fun packet hp => ?_⟩
    exact Nat.lt_succ_of_le (List.single_le_sum (fun _ _ => Nat.zero_le _) _
      (List.mem_map_of_mem hp))

/-- A block of no octets: the loop over the chunks does not end. -/
theorem empty_block_never_ends :
    ¬ ∀ (db : DecoderDatabase) (packetList : List Packet), ∃ fuel ret out,
      splitAudio fuel db packetList = some (ret, out) ∧ Split db packetList ret out := by
  intro h
  obtain ⟨fuel, ret, out, hc, hs⟩ := h (fun _ => some { codecType := .pcmu }) [{ payload := [] }]
  exact ((clean_of_split hc hs).1 8 8 rfl).1 rfl

end

end RtcCore.L2.NetEq
