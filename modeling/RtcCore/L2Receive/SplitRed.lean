import RtcCore.L2Receive.NetEqPacket

/-!
# `PayloadSplitter::SplitRed`

The blocks of RFC 2198 in a RED payload: a header of four octets for each
redundant block, one octet for the primary one, then the blocks. The loop over
the headers goes from one to the next by the F bit alone, so it may leave the
payload; such a read has no value here. `wire` writes headers, which says what
a payload is made of; `blocks` cuts what follows them.

Results:
- `readHeaders_wire`, `readHeaders_sound`: the loop reads what `wire` writes, and
  nothing else lets it come to its end.
- `split_red_iff`: packets are replaced by their blocks exactly if the headers of
  each end inside its payload.
-/
namespace RtcCore.L2.NetEq

open L1 Bytes

/-- mirrors webrtc/modules/audio_coding/neteq/payload_splitter.h:30-38 -/
inductive SplitterReturnCode where
  | ok
  | noSplit
  | tooLargePayload
  | frameSplitError
  | unknownPayloadType
  | redLengthMismatch
  | fecSplitError
  deriving DecidableEq, Repr

/-! ## The code -/

/-- The length of the last block, a difference of `size_t`s.
mirrors webrtc/modules/audio_coding/neteq/payload_splitter.cc:60-61 -/
def lastLength (red : Packet) (sumLength : Nat) : Nat :=
  if sumLength + 1 ≤ red.payload.length then red.payload.length - (sumLength + 1)
  else red.payload.length + 2 ^ 64 - (sumLength + 1)

/-- The new packets with the lengths announced for them, and the octets behind
the headers; no value where a header is read outside of the payload.
mirrors webrtc/modules/audio_coding/neteq/payload_splitter.cc:51-81 -/
def readHeaders (red : Packet) (sumLength : Nat) :
    Bytes → Option (List (Packet × Nat) × Bytes)
  | [] => none
  | b0 :: ptr =>
    if b0 &&& 0x80 = 0 then
      let packet : Packet := { header := { red.header with payloadType := b0 &&& 0x7F }, payload := [] }
      some ([(packet, lastLength red sumLength)], ptr)
    else
      match ptr with
      | b1 :: b2 :: b3 :: ptr =>
        let timestampOffset := b1.toNat * 64 + (b2 &&& 0xFC).toNat / 4
        let length := (b2 &&& 0x03).toNat * 256 + b3.toNat
        let packet : Packet :=
          { header := { red.header with
              payloadType := b0 &&& 0x7F
              timestamp := red.header.timestamp - .ofNat timestampOffset }
            payload := []
            primary := false }
        (readHeaders red (sumLength + length + 4) ptr).map fun (packets, data) =>
          ((packet, length) :: packets, data)
      | _ => none

/-- The packets that get a payload, and whether all do.
mirrors webrtc/modules/audio_coding/neteq/payload_splitter.cc:83-106 -/
def populate : List (Packet × Nat) → Bytes → List Packet × Bool
  | [], _ => ([], true)
  | (packet, length) :: rest, ptr =>
    if length > ptr.length then ([], false)
    else
      let populated := populate rest (ptr.drop length)
      ({ packet with payload := ptr.take length } :: populated.1, populated.2)

/-- One round of the loop over the list.
mirrors webrtc/modules/audio_coding/neteq/payload_splitter.cc:30-113 -/
def splitRedPacket (red : Packet) : Option (List Packet × Bool) :=
  (readHeaders red 0 red.payload).map fun (packets, data) =>
    let populated := populate packets data
    (populated.1.reverse, populated.2)

/-- mirrors webrtc/modules/audio_coding/neteq/payload_splitter.cc:26-122 -/
def splitRed : List Packet → Option (SplitterReturnCode × List Packet)
  | [] => some (.ok, [])
  | red :: packetList =>
    (splitRedPacket red).bind fun (blocks, fit) =>
      (splitRed packetList).map fun (ret, out) =>
        (if fit then ret else .redLengthMismatch, blocks ++ out)

/-! ## What a RED payload is made of -/

/-- The header of a redundant block. -/
structure RedHeader where
  payloadType : UInt8
  timestampOffset : Nat
  length : Nat
  deriving DecidableEq, Repr

namespace RedHeader

structure Valid (h : RedHeader) : Prop where
  payloadType : h.payloadType < 0x80
  timestampOffset : h.timestampOffset < 16384
  length : h.length < 1024

def octets (h : RedHeader) : Bytes :=
  [0x80 ||| h.payloadType, .ofNat (h.timestampOffset / 64),
    .ofNat (h.timestampOffset % 64 * 4 + h.length / 256), .ofNat h.length]

/-- The redundant block of a RED packet. -/
def block (h : RedHeader) (red : Packet) (payload : Bytes) : Packet where
  header := { red.header with
    payloadType := h.payloadType
    timestamp := red.header.timestamp - .ofNat h.timestampOffset }
  payload := payload
  primary := false

end RedHeader

/-- The headers of the redundant blocks and of the primary one. -/
def wire (hs : List RedHeader) (payloadType : UInt8) : Bytes :=
  hs.flatMap RedHeader.octets ++ [payloadType]

def announced (hs : List RedHeader) : Nat := (hs.map RedHeader.length).sum

/-- The redundant blocks at the start of `data`. -/
def blocks (red : Packet) : List RedHeader → Bytes → List Packet
  | [], _ => []
  | h :: hs, data => h.block red (data.take h.length) :: blocks red hs (data.drop h.length)

def primaryBlock (red : Packet) (payloadType : UInt8) (payload : Bytes) : Packet where
  header := { red.header with payloadType := payloadType }
  payload := payload

/-- The headers end inside the payload: some octet, four behind one another from
the first on, has no F bit. -/
def HeadersInside (payload : Bytes) : Prop :=
  ∃ k, (∀ i < k, ∃ b, payload[4 * i]? = some b ∧ b &&& 0x80 ≠ 0) ∧
    ∃ b, payload[4 * k]? = some b ∧ b &&& 0x80 = 0

/-- All blocks are there: they are the octets behind the headers, cut by the
announced lengths. -/
structure Fits (red : Packet) (hs : List RedHeader) (payloadType : UInt8) (data : Bytes)
    (out : List Packet) : Prop where
  room : announced hs ≤ data.length
  out : out = primaryBlock red payloadType (data.drop (announced hs)) :: (blocks red hs data).reverse
  lengths : (blocks red hs data).map (·.payload.length) = hs.map (·.length)
  partition : ((blocks red hs data).map (·.payload)).flatten ++ data.drop (announced hs) = data

/-- The blocks do not fit: those before the first that ends outside are kept. -/
structure Cut (red : Packet) (hs : List RedHeader) (data : Bytes) (kept : Nat)
    (out : List Packet) : Prop where
  short : data.length < announced hs
  out : out = ((blocks red hs data).take kept).reverse
  lengths : ((blocks red hs data).take kept).map (·.payload.length) = (hs.take kept).map (·.length)
  inside : announced (hs.take kept) ≤ data.length
  outside : data.length < announced (hs.take (kept + 1))

/-- What is to take the place of a RED packet. -/
def BlocksOf (red : Packet) (fit : Bool) (out : List Packet) : Prop :=
  ∃ hs payloadType data, (∀ h ∈ hs, h.Valid) ∧ payloadType &&& 0x80 = 0 ∧
    red.payload = wire hs payloadType ++ data ∧
      (fit = true ∧ Fits red hs payloadType data out ∨
        fit = false ∧ ∃ kept, Cut red hs data kept out)

/-- What is to become of a list of RED packets. -/
inductive Replaced : List Packet → SplitterReturnCode → List Packet → Prop
  | nil : Replaced [] .ok []
  | cons {red : Packet} {fit : Bool} {out : List Packet} {packetList rest : List Packet}
      {ret : SplitterReturnCode} (h : BlocksOf red fit out) (t : Replaced packetList ret rest) :
      Replaced (red :: packetList) (if fit then ret else .redLengthMismatch) (out ++ rest)

/-! ## The headers -/

variable {red : Packet} {hs : List RedHeader} {payloadType : UInt8} {data : Bytes}

@[simp] theorem length_wire : (wire hs payloadType).length = 4 * hs.length + 1 := by
  induction hs with
  | nil => rfl
  | cons h hs ih =>
    simp only [wire, List.flatMap_cons, List.length_append, List.length_cons, List.length_nil] at ih ⊢
    simp only [RedHeader.octets, List.length_cons, List.length_nil]
    omega

@[simp] theorem announced_nil : announced [] = 0 := rfl

@[simp] theorem announced_cons (h : RedHeader) : announced (h :: hs) = h.length + announced hs :=
  List.sum_cons

theorem flagged_type {b : UInt8} (h : b < 0x80) :
    (0x80 ||| b) &&& 0x80 ≠ 0 ∧ (0x80 ||| b) &&& 0x7F = b :=
  forall_uint8 (P := fun x => x < 0x80 → (0x80 ||| x) &&& 0x80 ≠ 0 ∧ (0x80 ||| x) &&& 0x7F = x)
    (by decide) b h

theorem type_of_flagged {b : UInt8} (h : b &&& 0x80 ≠ 0) :
    0x80 ||| (b &&& 0x7F) = b ∧ b &&& 0x7F < 0x80 :=
  forall_uint8 (P := fun x => x &&& 0x80 ≠ 0 → 0x80 ||| (x &&& 0x7F) = x ∧ x &&& 0x7F < 0x80)
    (by decide) b h

/-- The third octet of a header: six bits of the offset, two of the length. -/
theorem third_octet {b : UInt8} :
    (b &&& 0xFC).toNat / 4 = b.toNat / 4 ∧ (b &&& 0x03).toNat = b.toNat % 4 :=
  forall_uint8 (P := fun x => (x &&& 0xFC).toNat / 4 = x.toNat / 4 ∧ (x &&& 0x03).toNat = x.toNat % 4)
    (by decide) b

theorem readHeaders_last {b0 : UInt8} (h : b0 &&& 0x80 = 0) (sum : Nat) (ptr : Bytes) :
    readHeaders red sum (b0 :: ptr) =
      some ([(primaryBlock red (b0 &&& 0x7F) [], lastLength red sum)], ptr) := by
  rw [readHeaders.eq_def]
  exact if_pos h

theorem readHeaders_more {b0 : UInt8} (h : b0 &&& 0x80 ≠ 0) (sum : Nat) (b1 b2 b3 : UInt8)
    (ptr : Bytes) :
    readHeaders red sum (b0 :: b1 :: b2 :: b3 :: ptr) =
      (readHeaders red (sum + ((b2 &&& 0x03).toNat * 256 + b3.toNat) + 4) ptr).map fun r =>
        ((RedHeader.block ⟨b0 &&& 0x7F, b1.toNat * 64 + (b2 &&& 0xFC).toNat / 4,
          (b2 &&& 0x03).toNat * 256 + b3.toNat⟩ red [], (b2 &&& 0x03).toNat * 256 + b3.toNat) :: r.1,
          r.2) := by
  rw [readHeaders.eq_def]
  exact if_neg h

theorem readHeaders_short {b0 : UInt8} (h : b0 &&& 0x80 ≠ 0) (sum : Nat) {ptr : Bytes}
    (hlen : ptr.length < 3) : readHeaders red sum (b0 :: ptr) = none := by
  rw [readHeaders.eq_def]
  dsimp only
  rw [if_neg h]
  rcases ptr with _ | ⟨b1, _ | ⟨b2, _ | ⟨b3, ptr⟩⟩⟩
  · rfl
  · rfl
  · rfl
  · simp only [List.length_cons] at hlen
    omega

/-- The loop over the headers reads back what `wire` writes. -/
theorem readHeaders_wire (red : Packet) (data : Bytes) (hv : ∀ h ∈ hs, h.Valid)
    (hp : payloadType &&& 0x80 = 0) (sum : Nat) :
    readHeaders red sum (wire hs payloadType ++ data) =
      some (hs.map (fun h => (h.block red [], h.length)) ++
        [(primaryBlock red payloadType [],
          lastLength red (sum + announced hs + 4 * hs.length))], data) := by
  induction hs generalizing sum with
  | nil =>
    rw [wire, List.flatMap_nil, List.nil_append, List.singleton_append, readHeaders_last hp,
      low7_of_clear hp]
    rfl
  | cons h hs ih =>
    obtain ⟨htype, hoffset, hlength⟩ := hv h List.mem_cons_self
    obtain ⟨hflag, hlow⟩ := flagged_type htype
    have hcons : wire (h :: hs) payloadType ++ data = (0x80 ||| h.payloadType) ::
        .ofNat (h.timestampOffset / 64) ::
        .ofNat (h.timestampOffset % 64 * 4 + h.length / 256) :: .ofNat h.length ::
        (wire hs payloadType ++ data) := by
      simp [wire, RedHeader.octets]
    have hoff : (UInt8.ofNat (h.timestampOffset / 64)).toNat * 64 +
        (UInt8.ofNat (h.timestampOffset % 64 * 4 + h.length / 256) &&& 0xFC).toNat / 4 =
          h.timestampOffset := by
      rw [third_octet.1, UInt8.toNat_ofNat', UInt8.toNat_ofNat']
      omega
    have hlen : (UInt8.ofNat (h.timestampOffset % 64 * 4 + h.length / 256) &&& 0x03).toNat * 256 +
        (UInt8.ofNat h.length).toNat = h.length := by
      rw [third_octet.2, UInt8.toNat_ofNat', UInt8.toNat_ofNat']
      omega
    have hsum : sum + h.length + 4 + announced hs + 4 * hs.length =
        sum + announced (h :: hs) + 4 * (h :: hs).length := by
      rw [announced_cons, List.length_cons]
      omega
    rw [hcons, readHeaders_more hflag, hoff, hlen, hlow,
      ih (fun x hx => hv x (List.mem_cons_of_mem h hx)), Option.map_some, hsum]
    rfl

/-- The octets of a header with the F bit. -/
theorem exists_header {b0 : UInt8} (h : b0 &&& 0x80 ≠ 0) (b1 b2 b3 : UInt8) :
    ∃ h : RedHeader, h.Valid ∧ h.octets = [b0, b1, b2, b3] := by
  obtain ⟨hflag, htype⟩ := type_of_flagged h
  have h1 := b1.toNat_lt
  have h2 := b2.toNat_lt
  have h3 := b3.toNat_lt
  refine ⟨⟨b0 &&& 0x7F, b1.toNat * 64 + b2.toNat / 4, b2.toNat % 4 * 256 + b3.toNat⟩,
    ⟨htype, by dsimp only; omega, by dsimp only; omega⟩, ?_⟩
  have hb1 : (b1.toNat * 64 + b2.toNat / 4) / 64 = b1.toNat := by omega
  have hb2 : (b1.toNat * 64 + b2.toNat / 4) % 64 * 4 + (b2.toNat % 4 * 256 + b3.toNat) / 256 =
      b2.toNat := by omega
  have hb3 : UInt8.ofNat (b2.toNat % 4 * 256 + b3.toNat) = b3 := by
    apply UInt8.toNat_inj.1
    rw [UInt8.toNat_ofNat']
    omega
  simp only [RedHeader.octets, hflag, hb1, hb2, hb3, UInt8.ofNat_toNat]

/-- Where the headers end inside, the payload is one that `wire` starts. -/
theorem HeadersInside.wired {ptr : Bytes} (h : HeadersInside ptr) :
    ∃ hs payloadType data, (∀ h ∈ hs, RedHeader.Valid h) ∧ payloadType &&& 0x80 = 0 ∧
      ptr = wire hs payloadType ++ data := by
  obtain ⟨k, hk, b, hb, hclear⟩ := h
  induction k generalizing ptr with
  | zero =>
    obtain ⟨data, rfl⟩ : ∃ data, ptr = b :: data := by
      cases ptr with
      | nil => simp at hb
      | cons c ptr => exact ⟨ptr, by simpa using hb⟩
    exact ⟨[], b, data, fun _ h => absurd h List.not_mem_nil, hclear, rfl⟩
  | succ k ih =>
    obtain ⟨b0, hb0, hflag⟩ := hk 0 (Nat.zero_lt_succ k)
    have hlen : 4 * (k + 1) < ptr.length := by
      by_contra hc
      rw [List.getElem?_eq_none (by omega)] at hb
      cases hb
    rcases ptr with _ | ⟨c0, _ | ⟨c1, _ | ⟨c2, _ | ⟨c3, ptr⟩⟩⟩⟩
    iterate 4
      · simp only [List.length_cons, List.length_nil] at hlen
        omega
    · have hc0 : c0 = b0 := by simpa using hb0
      subst hc0
      have hrest : ∀ i < k, ∃ b, ptr[4 * i]? = some b ∧ b &&& 0x80 ≠ 0 :=
        fun i hi => hk (i + 1) (by omega)
      obtain ⟨hs, payloadType, data, hv, hp, rfl⟩ := ih hrest hb
      obtain ⟨h, hvalid, hoctets⟩ := exists_header hflag c1 c2 c3
      refine ⟨h :: hs, payloadType, data, ?_, hp, ?_⟩
      · intro x hx
        rcases List.mem_cons.1 hx with rfl | hx
        · exact hvalid
        · exact hv x hx
      · simp [wire, hoctets]

/-- Nothing else lets the loop come to its end. -/
theorem readHeaders_sound {ptr : Bytes} {sum : Nat} (h : (readHeaders red sum ptr).isSome) :
    HeadersInside ptr := by
  induction hn : ptr.length using Nat.strongRecOn generalizing ptr sum with
  | _ n ih =>
    cases ptr with
    | nil => simp [readHeaders] at h
    | cons b0 rest =>
      by_cases hflag : b0 &&& 0x80 = 0
      · exact ⟨0, fun _ h => absurd h (Nat.not_lt_zero _), b0, rfl, hflag⟩
      · by_cases hshort : rest.length < 3
        · rw [readHeaders_short hflag sum hshort] at h
          cases h
        · rcases rest with _ | ⟨b1, _ | ⟨b2, _ | ⟨b3, rest⟩⟩⟩
          iterate 3
            · simp only [List.length_cons, List.length_nil] at hshort
              omega
          · rw [readHeaders_more hflag, Option.isSome_map] at h
            simp only [List.length_cons] at hn
            obtain ⟨k, hk, b, hb, hclear⟩ := ih rest.length (by omega) h rfl
            refine ⟨k + 1, fun i hi => ?_, b, hb, hclear⟩
            cases i with
            | zero => exact ⟨b0, rfl, hflag⟩
            | succ i => exact hk i (by omega)

/-! ## The blocks -/

theorem blocks_lengths (h : announced hs ≤ data.length) :
    (blocks red hs data).map (·.payload.length) = hs.map (·.length) := by
  induction hs generalizing data with
  | nil => rfl
  | cons x hs ih =>
    rw [announced_cons] at h
    rw [blocks, List.map_cons, List.map_cons, ih (by rw [List.length_drop]; omega)]
    congr 1
    exact List.length_take_of_le (by omega)

theorem blocks_partition (h : announced hs ≤ data.length) :
    ((blocks red hs data).map (·.payload)).flatten ++ data.drop (announced hs) = data := by
  induction hs generalizing data with
  | nil => rfl
  | cons x hs ih =>
    rw [announced_cons] at h
    rw [blocks, List.map_cons, List.flatten_cons, announced_cons, ← List.drop_drop,
      List.append_assoc, ih (by rw [List.length_drop]; omega)]
    exact List.take_append_drop x.length data

theorem blocks_take (kept : Nat) :
    (blocks red hs data).take kept = blocks red (hs.take kept) data := by
  induction hs generalizing data kept with
  | nil => rw [List.take_nil, blocks, List.take_nil]
  | cons x hs ih =>
    cases kept with
    | zero => rfl
    | succ kept => rw [List.take_succ_cons, blocks, blocks, List.take_succ_cons, ih]

/-- With room for all blocks, all get their octets. -/
theorem populate_fits {last : Nat} (h : announced hs ≤ data.length)
    (hlast : last = data.length - announced hs) :
    populate (hs.map (fun h => (h.block red [], h.length)) ++ [(primaryBlock red payloadType [], last)])
      data =
        (blocks red hs data ++ [primaryBlock red payloadType (data.drop (announced hs))], true) := by
  induction hs generalizing data with
  | nil =>
    subst hlast
    rw [List.map_nil, List.nil_append, populate, if_neg (by rw [announced_nil]; omega)]
    simp [populate, blocks, primaryBlock]
  | cons x hs ih =>
    rw [announced_cons] at h hlast
    rw [List.map_cons, List.cons_append, populate, if_neg (by omega)]
    dsimp only
    rw [ih (by rw [List.length_drop]; omega) (by rw [List.length_drop]; omega), announced_cons,
      List.drop_drop]
    rfl

/-- Without it, those before the first that ends outside. -/
theorem populate_cut (red : Packet) (payloadType : UInt8) (last : Nat) (h : data.length < announced hs) :
    ∃ kept, populate (hs.map (fun h => (h.block red [], h.length)) ++
        [(primaryBlock red payloadType [], last)]) data = ((blocks red hs data).take kept, false) ∧
      announced (hs.take kept) ≤ data.length ∧ data.length < announced (hs.take (kept + 1)) := by
  induction hs generalizing data with
  | nil => exact absurd h (Nat.not_lt_zero _)
  | cons x hs ih =>
    rw [announced_cons] at h
    rw [List.map_cons, List.cons_append, populate]
    by_cases hfirst : x.length > data.length
    · refine ⟨0, by rw [if_pos hfirst]; rfl, Nat.zero_le _, ?_⟩
      rw [List.take_succ_cons, List.take_zero, announced_cons]
      omega
    · have hrest : (data.drop x.length).length < announced hs := by
        rw [List.length_drop]
        omega
      obtain ⟨kept, hpop, hin, hout⟩ := ih hrest
      rw [List.length_drop] at hin hout
      refine ⟨kept + 1, ?_, ?_, ?_⟩
      · rw [if_neg hfirst]
        dsimp only
        rw [hpop]
        rfl
      · rw [List.take_succ_cons, announced_cons]
        omega
      · rw [List.take_succ_cons, announced_cons]
        omega

/-! ## One packet and the list -/

theorem splitRedPacket_wire (hv : ∀ h ∈ hs, h.Valid) (hp : payloadType &&& 0x80 = 0)
    (hpayload : red.payload = wire hs payloadType ++ data) :
    ∃ out fit, splitRedPacket red = some (out, fit) ∧ BlocksOf red fit out := by
  have hlength : red.payload.length = 4 * hs.length + 1 + data.length := by
    rw [hpayload, List.length_append, length_wire]
  have hread := readHeaders_wire red data hv hp 0
  unfold splitRedPacket
  rw [hpayload, hread, Option.map_some]
  by_cases hroom : announced hs ≤ data.length
  · have hlast : lastLength red (0 + announced hs + 4 * hs.length) = data.length - announced hs := by
      rw [lastLength, if_pos (by omega)]
      omega
    refine ⟨_, _, rfl, hs, payloadType, data, hv, hp, hpayload, .inl ?_⟩
    rw [populate_fits hroom hlast]
    refine ⟨rfl, hroom, ?_, blocks_lengths hroom, blocks_partition hroom⟩
    rw [List.reverse_append]
    rfl
  · obtain ⟨kept, hpop, hin, hout⟩ := populate_cut red payloadType
      (lastLength red (0 + announced hs + 4 * hs.length)) (Nat.lt_of_not_le hroom)
    refine ⟨_, _, rfl, hs, payloadType, data, hv, hp, hpayload, .inr ?_⟩
    rw [hpop]
    refine ⟨rfl, kept, Nat.lt_of_not_le hroom, rfl, ?_, hin, hout⟩
    rw [blocks_take, blocks_lengths hin]

theorem splitRed_replaced {packetList : List Packet}
    (h : ∀ red ∈ packetList, HeadersInside red.payload) :
    ∃ ret out, splitRed packetList = some (ret, out) ∧ Replaced packetList ret out := by
  induction packetList with
  | nil => exact ⟨_, _, rfl, .nil⟩
  | cons red packetList ih =>
    obtain ⟨ret, rest, hrest, hrepl⟩ := ih fun x hx => h x (List.mem_cons_of_mem red hx)
    obtain ⟨hs, payloadType, data, hv, hp, hpayload⟩ := (h red List.mem_cons_self).wired
    obtain ⟨out, fit, hsplit, hblocks⟩ := splitRedPacket_wire hv hp hpayload
    refine ⟨_, _, ?_, .cons hblocks hrepl⟩
    rw [splitRed, hsplit, Option.bind_some, hrest]
    rfl

theorem inside_of_splitRed {packetList : List Packet} (h : (splitRed packetList).isSome) :
    ∀ red ∈ packetList, HeadersInside red.payload := by
  induction packetList with
  | nil => exact fun _ h => absurd h List.not_mem_nil
  | cons red packetList ih =>
    rw [splitRed] at h
    cases hsplit : splitRedPacket red with
    | none =>
      rw [hsplit] at h
      cases h
    | some blocks =>
      rw [hsplit, Option.bind_some, Option.isSome_map] at h
      have hread : (readHeaders red 0 red.payload).isSome := by
        rw [← Option.isSome_map, ← splitRedPacket, hsplit]
        rfl
      intro x hx
      rcases List.mem_cons.1 hx with rfl | hx
      · exact readHeaders_sound hread
      · exact ih h x hx

/-- RED packets are replaced by their blocks exactly if the headers of each end
inside its payload. -/
theorem split_red_iff (packetList : List Packet) :
    (∃ ret out, splitRed packetList = some (ret, out) ∧ Replaced packetList ret out) ↔
      ∀ red ∈ packetList, HeadersInside red.payload := by
  constructor
  · rintro ⟨ret, out, hsplit, -⟩
    exact inside_of_splitRed (by rw [hsplit]; rfl)
  · exact splitRed_replaced

/-- One octet with the F bit set: the rest of its header lies behind the payload. -/
theorem header_past_end :
    ¬ ∀ packetList : List Packet,
      ∃ ret out, splitRed packetList = some (ret, out) ∧ Replaced packetList ret out := by
  intro h
  obtain ⟨ret, out, hsplit, -⟩ := h [{ payload := [0x80] }]
  have hnone : splitRed [{ payload := [0x80] }] = none := by decide
  rw [hnone] at hsplit
  cases hsplit

end RtcCore.L2.NetEq
