import RtcCore.L1Wire.VideoHeader
import RtcCore.L1Wire.Vp8Aggregator

/-!
# VP8 payload format

`RtpPacketizerVp8` cuts one encoded frame, given with its partitions, into
payloads behind a payload descriptor. `GeneratePackets` fills one packet after
the other (modes `kStrict` and `kEqualSize`);
`GeneratePacketsBalancedAggregates` first decides which small partitions
share a packet (mode `kAggregate`). `RtpDepacketizerVp8::Parse` reads the
descriptor back.

`part_info_` is the list of (offset, length) pairs. Sizes are naturals; the
frames are shorter than 2^31 octets, as `min_size` and `num_fragments` are
`int`. The `double` division in `CalcNextSize` is exact rounding there.

Results:
* `isFirst_packetize`: of a frame's packets exactly the first has the S bit
  with partition 0.
-/
namespace RtcCore.L1.Vp8

open Bytes

inductive Mode where
  | strict | aggregate | equalSize
  deriving DecidableEq, Repr

inductive AggregationMode where
  | none | partitions | fragments
  deriving DecidableEq, Repr

/-- mirrors webrtc/modules/rtp_rtcp/source/rtp_format_vp8.cc:139-144 -/
def Mode.aggr : Mode → AggregationMode
  | .strict => .none
  | .aggregate => .partitions
  | .equalSize => .fragments

def Mode.separateFirst : Mode → Bool
  | .strict => true
  | .aggregate => false
  | .equalSize => false

/-- The packetizer after `SetPayloadData`. The constructors set `balance_`
from `balance_modes_`, which is true for every mode.
mirrors webrtc/modules/rtp_rtcp/source/rtp_format_vp8.h:196-210 -/
structure Packetizer where
  hdr : VP8Header
  mode : Mode
  balance : Bool := true
  maxPayloadLen : Nat
  payload : Bytes
  parts : List (Nat × Nat)
  deriving DecidableEq, Repr

/-- mirrors webrtc/modules/rtp_rtcp/source/rtp_format_vp8.h:94-99 -/
structure PacketInfo where
  payloadStartPos : Nat
  size : Nat
  firstFragment : Bool
  firstPartitionIx : Nat
  deriving DecidableEq, Repr

def kXBit : UInt8 := 0x80
def kNBit : UInt8 := 0x20
def kSBit : UInt8 := 0x10
def kPartIdField : UInt8 := 0x0F
def kKeyIdxField : UInt8 := 0x1F
def kIBit : UInt8 := 0x80
def kLBit : UInt8 := 0x40
def kTBit : UInt8 := 0x20
def kKBit : UInt8 := 0x10
def kYBit : UInt8 := 0x20

/-! ## Descriptor fields -/

/-- mirrors webrtc/modules/rtp_rtcp/source/rtp_format_vp8.cc:597-605 -/
def pictureIdLength (h : VP8Header) : Nat :=
  if h.pictureId = kNoPictureId then 0 else if h.pictureId ≤ 0x7F then 1 else 2

def tidFieldPresent (h : VP8Header) : Bool := h.temporalIdx != kNoTemporalIdx
def keyIdxFieldPresent (h : VP8Header) : Bool := h.keyIdx != kNoKeyIdx
def tl0PicIdxFieldPresent (h : VP8Header) : Bool := h.tl0PicIdx != kNoTl0PicIdx
def pictureIdPresent (h : VP8Header) : Bool := decide (0 < pictureIdLength h)

def xFieldPresent (h : VP8Header) : Bool :=
  tidFieldPresent h || tl0PicIdxFieldPresent h || pictureIdPresent h || keyIdxFieldPresent h

/-- mirrors webrtc/modules/rtp_rtcp/source/rtp_format_vp8.cc:586-595 -/
def payloadDescriptorExtraLength (h : VP8Header) : Nat :=
  let n := pictureIdLength h + (if tl0PicIdxFieldPresent h then 1 else 0) +
    (if tidFieldPresent h || keyIdxFieldPresent h then 1 else 0)
  if 0 < n then n + 1 else n

/-- The room for octets of the frame in one packet. -/
def Packetizer.room (p : Packetizer) : Nat :=
  p.maxPayloadLen - (1 + payloadDescriptorExtraLength p.hdr)

/-! ## Which octets go into which packet -/

/-- Balanced: `num_frags` equal parts, rounded to nearest.
mirrors webrtc/modules/rtp_rtcp/source/rtp_format_vp8.cc:251-273 -/
def calcNextSize (balance : Bool) (maxPayloadLen remaining : Nat) (split : Bool) : Nat :=
  if maxPayloadLen = 0 ∨ remaining = 0 then 0
  else if !split then if remaining ≤ maxPayloadLen then remaining else 0
  else if balance then
    let numFrags := remaining / maxPayloadLen + 1
    (2 * remaining + numFrags) / (2 * numFrags)
  else if remaining ≤ maxPayloadLen then remaining else maxPayloadLen

def Packetizer.partLength (p : Packetizer) (i : Nat) : Nat := (p.parts[i]?.getD (0, 0)).2
def Packetizer.partOffset (p : Packetizer) (i : Nat) : Nat := (p.parts[i]?.getD (0, 0)).1

/-- The state of the loop that fills one packet. -/
structure Fill where
  packetBytes : Nat
  rem : Nat
  remainingInPartition : Nat
  partIx : Nat
  split : Bool
  deriving DecidableEq, Repr

/-- The `while (size_t next_size = CalcNextSize(..))` loop; every round takes
at least one octet of `rem_payload_len`, which bounds the fuel.
mirrors webrtc/modules/rtp_rtcp/source/rtp_format_vp8.cc:299-326 -/
def fillPacket (p : Packetizer) (beginning startOnNew : Bool) : Nat → Fill → Fill
  | 0, f => f
  | fuel + 1, f =>
    let next := calcNextSize p.balance f.rem f.remainingInPartition f.split
    if next = 0 then f
    else
      let f := { f with packetBytes := f.packetBytes + next
                        rem := f.rem - next
                        remainingInPartition := f.remainingInPartition - next }
      if f.remainingInPartition = 0 ∧ ¬ (beginning && p.mode.separateFirst) = true then
        if f.partIx + 1 < p.parts.length ∧ (p.mode.aggr = .fragments ∨
            p.mode.aggr = .partitions ∧ startOnNew = true) then
          fillPacket p beginning startOnNew fuel
            { f with partIx := f.partIx + 1
                     remainingInPartition := p.partLength (f.partIx + 1)
                     split := decide (p.mode.aggr = .fragments) }
        else fillPacket p beginning startOnNew fuel f
      else if p.balance = true ∧ 0 < f.remainingInPartition then f
      else fillPacket p beginning startOnNew fuel f

/-- The outer loop; `total` is `total_bytes_processed`. Every packet takes at
least one octet.
mirrors webrtc/modules/rtp_rtcp/source/rtp_format_vp8.cc:286-341 -/
def generateLoop (p : Packetizer) : Nat → Nat → Bool → Bool → Nat → List PacketInfo
  | 0, _, _, _, _ => []
  | fuel + 1, total, startOnNew, beginning, partIx =>
    if total < p.payload.length then
      let f := fillPacket p beginning startOnNew p.room
        { packetBytes := 0
          rem := p.room
          remainingInPartition := p.partOffset partIx + p.partLength partIx - total
          partIx := partIx
          split := true }
      ⟨total, f.packetBytes, startOnNew, partIx⟩ ::
        generateLoop p fuel (total + f.packetBytes) (f.remainingInPartition == 0) false
          (if f.remainingInPartition = 0 then f.partIx + 1 else f.partIx)
    else []

/-- mirrors webrtc/modules/rtp_rtcp/source/rtp_format_vp8.cc:275-342 -/
def generatePackets (p : Packetizer) : Option (List PacketInfo) :=
  if p.maxPayloadLen < 1 + payloadDescriptorExtraLength p.hdr + 1 then none
  else some (generateLoop p p.payload.length 0 true true 0)

/-! ## Balanced aggregates -/

/-- The run of small partitions that starts `lens`. -/
def smallRun (maxLen : Nat) (lens : List Nat) : List Nat := lens.takeWhile (· < maxLen)

/-- The decision vector, one entry per partition (`none` is -1), with the
smallest and largest aggregate; `num` is `num_aggregate_packets`.
mirrors webrtc/modules/rtp_rtcp/source/rtp_format_vp8.cc:411-448 -/
def aggregateSmallPartitions (maxLen overhead : Nat) :
    Nat → List Nat → Int → Int → Nat → List (Option Nat) × Int × Int
  | 0, _, minSize, maxSize, _ => ([], minSize, maxSize)
  | _ + 1, [], minSize, maxSize, _ => ([], minSize, maxSize)
  | fuel + 1, l :: lens, minSize, maxSize, num =>
    if l < maxLen then
      let run := smallRun maxLen (l :: lens)
      let prior := if 0 ≤ minSize ∧ 0 ≤ maxSize then some (minSize, maxSize) else none
      let config := findOptimalConfiguration run prior maxLen overhead
      let m := calcMinMax config run minSize maxSize
      let r := aggregateSmallPartitions maxLen overhead fuel ((l :: lens).drop run.length) m.1 m.2
        (num + (config.getLast?.getD 0 + 1))
      (config.map (fun c => some (num + c)) ++ r.1, r.2)
    else
      let r := aggregateSmallPartitions maxLen overhead fuel lens minSize maxSize num
      (none :: r.1, r.2)

/-- The fragments of a large partition: the queued packets, the octets sent
and the sizes seen.
mirrors webrtc/modules/rtp_rtcp/source/rtp_format_vp8.cc:370-386 -/
def splitLarge (partIx packetBytes : Nat) :
    Nat → Bool → Nat → Nat → Int → Int → List PacketInfo × Nat × Int × Int
  | 0, _, total, _, minSize, maxSize => ([], total, minSize, maxSize)
  | n + 1, first, total, remaining, minSize, maxSize =>
    let this := if packetBytes < remaining then packetBytes else remaining
    let r := splitLarge partIx packetBytes n false (total + this) (remaining - this)
      (if (this : Int) < minSize then this else minSize)
      (if maxSize < (this : Int) then this else maxSize)
    (⟨total, this, first, partIx⟩ :: r.1, r.2)

/-- The loop over the partitions with their decisions.
mirrors webrtc/modules/rtp_rtcp/source/rtp_format_vp8.cc:358-407 -/
def balancedLoop (maxLen overhead : Nat) :
    Nat → List (Nat × Option Nat) → Nat → Nat → Int → Int → List PacketInfo
  | 0, _, _, _, _, _ => []
  | _ + 1, [], _, _, _, _ => []
  | fuel + 1, (len, none) :: rest, partIx, total, minSize, maxSize =>
    let num := calcNumberOfFragments len maxLen overhead minSize maxSize
    let r := splitLarge partIx ((len + num - 1) / num) num true total len minSize maxSize
    r.1 ++ balancedLoop maxLen overhead fuel rest (partIx + 1) r.2.1 r.2.2.1 r.2.2.2
  | fuel + 1, (len, some d) :: rest, partIx, total, minSize, maxSize =>
    let group := (len, some d) :: rest.takeWhile (·.2 == some d)
    let bytes := (group.map Prod.fst).sum
    ⟨total, bytes, true, partIx⟩ ::
      balancedLoop maxLen overhead fuel (rest.drop (group.length - 1)) (partIx + group.length)
        (total + bytes) minSize maxSize

/-- mirrors webrtc/modules/rtp_rtcp/source/rtp_format_vp8.cc:344-409 -/
def generatePacketsBalancedAggregates (p : Packetizer) : Option (List PacketInfo) :=
  if p.maxPayloadLen < 1 + payloadDescriptorExtraLength p.hdr + 1 then none
  else
    let overhead := 1 + payloadDescriptorExtraLength p.hdr
    let lens := p.parts.map Prod.snd
    let a := aggregateSmallPartitions p.room overhead lens.length lens (-1) (-1) 0
    some (balancedLoop p.room overhead lens.length (lens.zip a.1) 0 0 a.2.1 a.2.2)

/-! ## Writing a packet -/

/-- `WritePictureID`.
mirrors webrtc/modules/rtp_rtcp/source/rtp_format_vp8.cc:524-546 -/
def writePictureID (h : VP8Header) : Bytes :=
  let picId := (h.pictureId % 65536).toNat
  if pictureIdLength h = 2 then [0x80 ||| (UInt8.ofNat (picId / 256) &&& 0x7F), UInt8.ofNat picId]
  else if pictureIdLength h = 1 then [UInt8.ofNat picId &&& 0x7F]
  else []

/-- An optional field behind `extLength` octets of extension, or `none` when
the buffer is too short for it. -/
def writeField (present : Bool) (bufferLength extLength : Nat) (field : Bytes) : Option Bytes :=
  if present then if bufferLength < 1 + extLength + field.length then none else some field
  else some []

/-- The X field. -/
def xField (h : VP8Header) : UInt8 :=
  (if pictureIdPresent h then kIBit else 0) ||| (if tl0PicIdxFieldPresent h then kLBit else 0) |||
    (if tidFieldPresent h then kTBit else 0) ||| (if keyIdxFieldPresent h then kKBit else 0)

/-- TID, Y and KEYIDX. -/
def tidAndKeyIdx (h : VP8Header) : UInt8 :=
  (if tidFieldPresent h then
      UInt8.ofNat (h.temporalIdx.toNat * 64) ||| (if h.layerSync then kYBit else 0) else 0) |||
    (if keyIdxFieldPresent h then UInt8.ofNat (h.keyIdx % 256).toNat &&& kKeyIdxField else 0)

/-- The X field and the optional fields, in the order of the writes.
mirrors webrtc/modules/rtp_rtcp/source/rtp_format_vp8.cc:497-584 -/
def writeExtensionFields (h : VP8Header) (bufferLength : Nat) : Option Bytes :=
  if xFieldPresent h then
    match writeField (pictureIdPresent h) bufferLength 1 (writePictureID h) with
    | none => none
    | some pic =>
      match writeField (tl0PicIdxFieldPresent h) bufferLength (1 + pic.length)
          [UInt8.ofNat (h.tl0PicIdx % 256).toNat] with
      | none => none
      | some tl0 =>
        match writeField (tidFieldPresent h || keyIdxFieldPresent h) bufferLength
            (1 + pic.length + tl0.length) [tidAndKeyIdx h] with
        | none => none
        | some tk => some (xField h :: (pic ++ tl0 ++ tk))
  else some []

/-- The first octet of the descriptor. -/
def descriptor (h : VP8Header) (i : PacketInfo) : UInt8 :=
  (if xFieldPresent h then kXBit else 0) ||| (if h.nonReference then kNBit else 0) |||
    (if i.firstFragment then kSBit else 0) ||| (UInt8.ofNat i.firstPartitionIx &&& kPartIdField)

/-- mirrors webrtc/modules/rtp_rtcp/source/rtp_format_vp8.cc:461-495 -/
def writeHeaderAndPayload (p : Packetizer) (i : PacketInfo) : Option Bytes := do
  let ext ← writeExtensionFields p.hdr p.maxPayloadLen
  return descriptor p.hdr i :: (ext ++ slice p.payload i.payloadStartPos i.size)

/-- The packet queue of the first `NextPacket`.
mirrors webrtc/modules/rtp_rtcp/source/rtp_format_vp8.cc:202-214 -/
def queue (p : Packetizer) : Option (List PacketInfo) :=
  if p.mode.aggr = .partitions ∧ p.balance = true then generatePacketsBalancedAggregates p
  else generatePackets p

/-- `NextPacket` on the queue: the payload, `last_packet` and the queue left.
mirrors webrtc/modules/rtp_rtcp/source/rtp_format_vp8.cc:215-228 -/
def nextPacket (p : Packetizer) : List PacketInfo → Option (Bytes × Bool × List PacketInfo)
  | [] => none
  | i :: q => (writeHeaderAndPayload p i).map fun b => (b, q.isEmpty, q)

/-- `NextPacket` until it returns false. -/
def sendAll (p : Packetizer) : List PacketInfo → List (Bytes × Bool)
  | [] => []
  | i :: q =>
    match nextPacket p (i :: q) with
    | none => []
    | some (b, last, _) => (b, last) :: sendAll p q

def packetize (p : Packetizer) : List (Bytes × Bool) :=
  match queue p with
  | none => []
  | some q => sendAll p q

/-! ## Depacketizer -/

/-- mirrors webrtc/modules/rtp_rtcp/source/rtp_format_vp8.cc:24-45 -/
def parsePictureID (v : VP8Header) : Bytes → Option (VP8Header × Bytes)
  | [] => none
  | d :: rest =>
    let id : Int := (d &&& 0x7F).toNat
    if d &&& 0x80 != 0 then
      match rest with
      | [] => none
      | e :: rest => some ({ v with pictureId := id * 256 + e.toNat }, rest)
    else some ({ v with pictureId := id }, rest)

/-- mirrors webrtc/modules/rtp_rtcp/source/rtp_format_vp8.cc:47-60 -/
def parseTl0PicIdx (v : VP8Header) : Bytes → Option (VP8Header × Bytes)
  | [] => none
  | d :: rest => some ({ v with tl0PicIdx := d.toNat }, rest)

/-- mirrors webrtc/modules/rtp_rtcp/source/rtp_format_vp8.cc:62-83 -/
def parseTIDAndKeyIdx (hasTid hasKeyIdx : Bool) (v : VP8Header) :
    Bytes → Option (VP8Header × Bytes)
  | [] => none
  | d :: rest =>
    let v := if hasTid then
        { v with temporalIdx := ((d >>> 6) &&& 0x03).toNat, layerSync := d &&& 0x20 != 0 } else v
    some (if hasKeyIdx then { v with keyIdx := (d &&& 0x1F).toNat } else v, rest)

/-- mirrors webrtc/modules/rtp_rtcp/source/rtp_format_vp8.cc:85-122 -/
def parseExtension (v : VP8Header) : Bytes → Option (VP8Header × Bytes)
  | [] => none
  | x :: data => do
    let (v, data) ← if x &&& 0x80 != 0 then parsePictureID v data else some (v, data)
    let (v, data) ← if x &&& 0x40 != 0 then parseTl0PicIdx v data else some (v, data)
    if x &&& 0x20 != 0 || x &&& 0x10 != 0 then
      parseTIDAndKeyIdx (x &&& 0x20 != 0) (x &&& 0x10 != 0) v data
    else some (v, data)

/-- Width and height of a key frame.
mirrors webrtc/modules/rtp_rtcp/source/rtp_format_vp8.cc:124-142 -/
def parseFrameSize (frameType : FrameType) (data : Bytes) : Option (Nat × Nat) :=
  if frameType ≠ .key then some (0, 0)
  else if data.length < 10 then none
  else some (((getByte data 7).toNat * 256 + (getByte data 6).toNat) % 0x4000,
    ((getByte data 9).toNat * 256 + (getByte data 8).toNat) % 0x4000)

/-- The payload descriptor and the octets behind it.
mirrors webrtc/modules/rtp_rtcp/source/rtp_format_vp8.cc:662-718 -/
def parseDescriptor (b : Bytes) : Option (VP8Header × Bytes) :=
  let d := getByte b 0
  let v : VP8Header :=
    { nonReference := d &&& 0x20 != 0
      partitionId := (d &&& 0x0F).toNat
      beginningOfPartition := d &&& 0x10 != 0 }
  if 8 < v.partitionId then none
  else if b.length ≤ 1 then none
  else if d &&& 0x80 != 0 then
    match parseExtension v (b.drop 1) with
    | none => none
    | some r => if r.2.isEmpty then none else some r
  else some (v, b.drop 1)

/-- `RtpDepacketizerVp8::Parse`; `none` when it returns false.
mirrors webrtc/modules/rtp_rtcp/source/rtp_format_vp8.cc:657-737 -/
def parse (b : Bytes) : Option ParsedPayload :=
  let isFirst := getByte b 0 &&& 0x10 != 0 && (getByte b 0 &&& 0x0F).toNat == 0
  match parseDescriptor b with
  | none => none
  | some (v, data) =>
    let frameType := if isFirst && getByte data 0 &&& 0x01 == 0 then FrameType.key else .delta
    match parseFrameSize frameType data with
    | none => none
    | some (width, height) =>
      some { payload := data, frameType
             video := { width, height, isFirstPacket := isFirst, codec := .vp8 v } }

/-! ## The first packet of a frame -/

/-- One encoded frame: at most nine non-empty partitions, one after the other
through the payload, and room for an octet behind the descriptor. -/
structure Packetizer.Valid (p : Packetizer) : Prop where
  nonempty : 0 < p.parts.length
  le_nine : p.parts.length ≤ 9
  first : p.partOffset 0 = 0
  next : ∀ i < p.parts.length - 1, p.partOffset (i + 1) = p.partOffset i + p.partLength i
  last : p.partOffset (p.parts.length - 1) + p.partLength (p.parts.length - 1) = p.payload.length
  pos : ∀ i < p.parts.length, 0 < p.partLength i
  room : 1 + payloadDescriptorExtraLength p.hdr + 1 ≤ p.maxPayloadLen

theorem calcNextSize_le (bal : Bool) (m r : Nat) (split : Bool) :
    calcNextSize bal m r split ≤ r := by
  unfold calcNextSize
  split
  · omega
  split
  · split <;> omega
  split
  · dsimp only
    generalize r / m = k
    rw [Nat.div_le_iff_le_mul (by omega)]
    have hk : r ≤ r * (k + 1) := Nat.le_mul_of_pos_right _ (by omega)
    have hm : r * (2 * (k + 1)) = 2 * (r * (k + 1)) := by rw [Nat.mul_left_comm]
    omega
  · split <;> omega

/-- The octets taken so far end `remaining` short of the partition's end. -/
structure FillOk (p : Packetizer) (total : Nat) (f : Fill) : Prop where
  ix : f.partIx < p.parts.length
  sum : total + f.packetBytes + f.remainingInPartition =
    p.partOffset f.partIx + p.partLength f.partIx
  le : f.remainingInPartition ≤ p.partLength f.partIx

theorem fillPacket_ok {p : Packetizer} (hv : p.Valid) (total : Nat) (b s : Bool) : ∀ (fuel : Nat)
    (f : Fill), FillOk p total f → FillOk p total (fillPacket p b s fuel f) := by
  intro fuel
  induction fuel with
  | zero => intro f h; exact h
  | succ fuel ih =>
    intro f h
    have hle := calcNextSize_le p.balance f.rem f.remainingInPartition f.split
    obtain ⟨h1, h2, h3⟩ := h
    unfold fillPacket
    dsimp only
    generalize calcNextSize p.balance f.rem f.remainingInPartition f.split = next at hle
    have hok : FillOk p total { f with
        packetBytes := f.packetBytes + next
        rem := f.rem - next
        remainingInPartition := f.remainingInPartition - next } :=
      ⟨h1, by dsimp only; omega, by dsimp only; omega⟩
    split
    · exact ⟨h1, h2, h3⟩
    split
    · rename_i hz
      split
      · rename_i hadv
        have hnext := hv.next f.partIx (by omega)
        refine ih _ ⟨hadv.1, ?_, Nat.le_refl _⟩
        dsimp only at hz ⊢
        omega
      · exact ih _ hok
    split
    · exact hok
    · exact ih _ hok

/-- Where the outer loop stands: inside partition `partIx`, or done. -/
def At (p : Packetizer) (total partIx : Nat) : Prop :=
  total < p.payload.length → partIx < p.parts.length ∧ p.partOffset partIx ≤ total ∧
    total < p.partOffset partIx + p.partLength partIx

theorem at_after {p : Packetizer} (hv : p.Valid) {total : Nat} {f : Fill} (h : FillOk p total f) :
    At p (total + f.packetBytes)
      (if f.remainingInPartition = 0 then f.partIx + 1 else f.partIx) := by
  obtain ⟨h1, h2, h3⟩ := h
  intro hlt
  split
  · rename_i hz
    by_cases hl : f.partIx + 1 < p.parts.length
    · have hnext := hv.next f.partIx (by omega)
      have hpos := hv.pos (f.partIx + 1) hl
      omega
    · have hlast := hv.last
      rw [show p.parts.length - 1 = f.partIx by omega] at hlast
      omega
  · omega

/-- Packets after the first: none starts partition 0. -/
def Later (n : Nat) (i : PacketInfo) : Prop :=
  i.firstPartitionIx < n ∧ (i.firstFragment = true → i.firstPartitionIx ≠ 0)

theorem generateLoop_later {p : Packetizer} (hv : p.Valid) : ∀ (fuel total : Nat) (s b : Bool)
    (partIx : Nat), At p total partIx → (s = true → partIx ≠ 0) →
    ∀ i ∈ generateLoop p fuel total s b partIx, Later p.parts.length i := by
  intro fuel
  induction fuel with
  | zero => intro total s b partIx _ _ i hi; exact absurd hi List.not_mem_nil
  | succ fuel ih =>
    intro total s b partIx hat hs i hi
    unfold generateLoop at hi
    split at hi
    · rename_i hlt
      obtain ⟨hix, hoff, hend⟩ := hat hlt
      have hf := fillPacket_ok hv total b s p.room
        ⟨0, p.room, p.partOffset partIx + p.partLength partIx - total, partIx, true⟩
        ⟨hix, by dsimp only; omega, by dsimp only; omega⟩
      dsimp only at hi
      rcases List.mem_cons.1 hi with rfl | hi
      · exact ⟨hix, hs⟩
      · refine ih _ _ _ _ (at_after hv hf) ?_ i hi
        intro hz
        rw [if_pos (by simpa using hz)]
        omega
    · exact absurd hi List.not_mem_nil

/-- A queue whose first packet starts partition 0 and no other does. -/
def FirstOnly (n : Nat) (q : List PacketInfo) : Prop :=
  ∃ i rest, q = i :: rest ∧ i.firstFragment = true ∧ i.firstPartitionIx = 0 ∧
    ∀ j ∈ rest, Later n j

theorem generatePackets_firstOnly {p : Packetizer} (hv : p.Valid) {q : List PacketInfo}
    (hq : generatePackets p = some q) : FirstOnly p.parts.length q := by
  have hroom := hv.room
  have hn := hv.nonempty
  have hlast := hv.last
  have hpos := hv.pos (p.parts.length - 1) (by omega)
  have hp0 := hv.pos 0 hn
  have hfirst := hv.first
  unfold generatePackets at hq
  rw [if_neg (by omega), Option.some.injEq] at hq
  subst hq
  obtain ⟨m, hm⟩ : ∃ m, p.payload.length = m + 1 := ⟨p.payload.length - 1, by omega⟩
  rw [hm, generateLoop, if_pos (by omega)]
  dsimp only
  have hf := fillPacket_ok hv 0 true true p.room
    ⟨0, p.room, p.partOffset 0 + p.partLength 0 - 0, 0, true⟩
    ⟨hn, by dsimp only; omega, by dsimp only; omega⟩
  refine ⟨_, _, rfl, rfl, rfl, generateLoop_later hv _ _ _ _ _ (at_after hv hf) ?_⟩
  intro hz
  rw [if_pos (by simpa using hz)]
  omega

theorem splitLarge_packets (partIx k : Nat) : ∀ (n : Nat) (first : Bool) (total remaining : Nat)
    (minSize maxSize : Int), ∀ i ∈ (splitLarge partIx k n first total remaining minSize maxSize).1,
    i.firstPartitionIx = partIx ∧ (i.firstFragment = true → first = true) := by
  intro n
  induction n with
  | zero => intro first total remaining mn mx i hi; exact absurd hi List.not_mem_nil
  | succ n ih =>
    intro first total remaining mn mx i hi
    rcases List.mem_cons.1 hi with rfl | hi
    · exact ⟨rfl, fun h => h⟩
    · obtain ⟨h1, h2⟩ := ih _ _ _ _ _ i hi
      exact ⟨h1, fun h => absurd (h2 h) Bool.false_ne_true⟩

/-- Every packet of the loop starts in one of the partitions left. -/
theorem balancedLoop_ix (m o : Nat) : ∀ (fuel : Nat) (ds : List (Nat × Option Nat))
    (partIx total : Nat) (mn mx : Int), ∀ i ∈ balancedLoop m o fuel ds partIx total mn mx,
    partIx ≤ i.firstPartitionIx ∧ i.firstPartitionIx < partIx + ds.length := by
  intro fuel
  induction fuel with
  | zero => intro ds partIx total mn mx i hi; exact absurd hi List.not_mem_nil
  | succ fuel ih =>
    intro ds partIx total mn mx i hi
    match ds with
    | [] => exact absurd hi List.not_mem_nil
    | (len, none) :: rest =>
      unfold balancedLoop at hi
      dsimp only at hi
      rcases List.mem_append.1 hi with hi | hi
      · have := (splitLarge_packets _ _ _ _ _ _ _ _ i hi).1
        simp only [List.length_cons]; omega
      · have := ih _ _ _ _ _ i hi
        simp only [List.length_cons]; omega
    | (len, some d) :: rest =>
      unfold balancedLoop at hi
      dsimp only at hi
      rcases List.mem_cons.1 hi with rfl | hi
      · simp only [List.length_cons]; omega
      · have := ih _ _ _ _ _ i hi
        have hle := (List.takeWhile_sublist (fun x : Nat × Option Nat => x.2 == some d)
          (l := rest)).length_le
        simp only [List.length_cons, List.length_drop] at this ⊢
        omega

theorem aggregateSmallPartitions_minOk (m o : Nat) : ∀ (fuel : Nat) (lens : List Nat) (mn mx : Int)
    (num : Nat), (∀ l ∈ lens, 0 < l) → MinOk m mn →
    MinOk m (aggregateSmallPartitions m o fuel lens mn mx num).2.1 := by
  intro fuel
  induction fuel with
  | zero => intro lens mn mx num _ h; exact h
  | succ fuel ih =>
    intro lens mn mx num hpos h
    match lens with
    | [] => exact h
    | l :: lens =>
      unfold aggregateSmallPartitions
      dsimp only
      split
      · rename_i hl
        refine ih _ _ _ _ (fun x hx => hpos x (List.mem_of_mem_drop hx)) (calcMinMax_ok ?_ ?_ h)
        · rw [smallRun, List.takeWhile_cons_of_pos (by simpa using hl)]; simp
        · intro x hx
          have hsmall : x < m := by simpa using List.all_eq_true.1 List.all_takeWhile x hx
          exact ⟨hpos x ((List.takeWhile_sublist _).mem hx), Nat.le_of_lt hsmall⟩
      · exact ih _ _ _ _ (fun x hx => hpos x (List.mem_cons_of_mem _ hx)) h

/-- The decision vector has an entry for each partition. -/
theorem aggregateSmallPartitions_length (m o : Nat) : ∀ (fuel : Nat) (lens : List Nat) (mn mx : Int)
    (num : Nat), lens.length ≤ fuel →
    (aggregateSmallPartitions m o fuel lens mn mx num).1.length = lens.length := by
  intro fuel
  induction fuel with
  | zero =>
    intro lens mn mx num h
    rw [List.eq_nil_of_length_eq_zero (Nat.le_zero.1 h)]; rfl
  | succ fuel ih =>
    intro lens mn mx num h
    match lens with
    | [] => rfl
    | l :: lens =>
      unfold aggregateSmallPartitions
      dsimp only
      simp only [List.length_cons] at h
      split
      · rename_i hl
        have hrun : 0 < (smallRun m (l :: lens)).length := by
          rw [smallRun, List.takeWhile_cons_of_pos (by simpa using hl)]; simp
        have hle := (List.takeWhile_sublist (fun x : Nat => decide (x < m)) (l := l :: lens)).length_le
        simp only [smallRun] at hrun
        simp only [List.length_append, List.length_map, findOptimalConfiguration_length,
          smallRun, List.length_cons] at hle ⊢
        rw [ih _ _ _ _ (by rw [List.length_drop]; simp only [List.length_cons]; omega)]
        simp only [List.length_drop, List.length_cons]
        omega
      · simp only [List.length_cons]
        rw [ih _ _ _ _ (by omega)]

theorem balanced_firstOnly {p : Packetizer} (hv : p.Valid) {q : List PacketInfo}
    (hq : generatePacketsBalancedAggregates p = some q) : FirstOnly p.parts.length q := by
  have hroom := hv.room
  have hn := hv.nonempty
  have hlens : ∀ l ∈ p.parts.map Prod.snd, 0 < l := by
    intro l hl
    obtain ⟨x, hx, rfl⟩ := List.mem_map.1 hl
    obtain ⟨i, hi, rfl⟩ := List.getElem_of_mem hx
    have := hv.pos i hi
    simpa [Packetizer.partLength, List.getElem?_eq_getElem hi] using this
  have hmin := aggregateSmallPartitions_minOk p.room (1 + payloadDescriptorExtraLength p.hdr)
    (p.parts.map Prod.snd).length (p.parts.map Prod.snd) (-1) (-1) 0 hlens (Or.inl (by decide))
  have hlen := aggregateSmallPartitions_length p.room (1 + payloadDescriptorExtraLength p.hdr)
    (p.parts.map Prod.snd).length (p.parts.map Prod.snd) (-1) (-1) 0 (Nat.le_refl _)
  unfold generatePacketsBalancedAggregates at hq
  rw [if_neg (by omega), Option.some.injEq] at hq
  generalize aggregateSmallPartitions p.room (1 + payloadDescriptorExtraLength p.hdr)
    (p.parts.map Prod.snd).length (p.parts.map Prod.snd) (-1) (-1) 0 = a at hq hmin hlen
  have hm : 0 < p.room := by unfold Packetizer.room; omega
  generalize p.room = m at hq hmin hm
  have hopos : 0 < 1 + payloadDescriptorExtraLength p.hdr := by omega
  generalize 1 + payloadDescriptorExtraLength p.hdr = o at hq hopos
  have hlater : ∀ (n : Nat) (ds : List (Nat × Option Nat)) (partIx total : Nat) (mn mx : Int),
      0 < partIx → partIx + ds.length ≤ p.parts.length →
      ∀ i ∈ balancedLoop m o n ds partIx total mn mx, Later p.parts.length i := by
    intro n ds partIx total mn mx hpos hle i hi
    have := balancedLoop_ix m o n ds partIx total mn mx i hi
    exact ⟨by omega, fun _ => by omega⟩
  -- the first partition with its decision
  rw [List.length_map] at hq hlen
  generalize hzip : (p.parts.map Prod.snd).zip a.1 = ds at hq
  have hdl : ds.length = p.parts.length := by
    rw [← hzip, List.length_zip, List.length_map, hlen, Nat.min_self]
  have hdpos : ∀ x ∈ ds, 0 < x.1 := fun x hx => by
    rw [← hzip] at hx
    exact hlens _ (List.of_mem_zip hx).1
  obtain ⟨fuel, hfuel⟩ : ∃ k, p.parts.length = k + 1 := ⟨p.parts.length - 1, by omega⟩
  rw [hfuel] at hq
  match ds, hdl, hdpos, hq with
  | [], hdl, _, _ =>
    have h0 : 0 = p.parts.length := hdl
    omega
  | (len, none) :: rest, hdl, hdpos, hq =>
    have hdl' : rest.length + 1 = p.parts.length := hdl
    have hnum : 0 < calcNumberOfFragments len m o a.2.1 a.2.2 :=
      (calcNumberOfFragments_spec (hdpos (len, none) (List.mem_cons_self ..)) hm hopos hmin).1
    unfold balancedLoop at hq
    dsimp only at hq
    obtain ⟨k, hk⟩ : ∃ k, calcNumberOfFragments len m o a.2.1 a.2.2 = k + 1 :=
      ⟨_, (Nat.sub_add_cancel hnum).symm⟩
    rw [hk] at hq
    unfold splitLarge at hq
    dsimp only at hq
    rw [List.cons_append] at hq
    refine ⟨_, _, hq.symm, rfl, rfl, fun j hj => ?_⟩
    rcases List.mem_append.1 hj with hj | hj
    · obtain ⟨h1, h2⟩ := splitLarge_packets _ _ _ _ _ _ _ _ j hj
      exact ⟨by omega, fun h => absurd (h2 h) Bool.false_ne_true⟩
    · exact hlater _ _ _ _ _ _ (by omega) (by omega) j hj
  | (len, some d) :: rest, hdl, _, hq =>
    have hdl' : rest.length + 1 = p.parts.length := hdl
    have hle := (List.takeWhile_sublist (fun x : Nat × Option Nat => x.2 == some d)
      (l := rest)).length_le
    refine ⟨_, _, hq.symm, rfl, rfl, hlater _ _ _ _ _ _ (by simp) ?_⟩
    simp only [List.length_cons, List.length_drop]
    omega

theorem queue_firstOnly {p : Packetizer} (hv : p.Valid) {q : List PacketInfo}
    (hq : queue p = some q) : FirstOnly p.parts.length q := by
  unfold queue at hq
  split at hq
  · exact balanced_firstOnly hv hq
  · exact generatePackets_firstOnly hv hq

/-- The three flags and the partition number in the first octet. -/
theorem descriptor_bits (h : VP8Header) {i : PacketInfo} (hix : i.firstPartitionIx < 16) :
    (descriptor h i &&& 0x80 != 0) = xFieldPresent h ∧
    (descriptor h i &&& 0x20 != 0) = h.nonReference ∧
    (descriptor h i &&& 0x10 != 0) = i.firstFragment ∧
    (descriptor h i &&& 0x0F).toNat = i.firstPartitionIx := by
  have hall : ∀ (x n s : Bool) (ix : Fin 16),
      let d : UInt8 := (if x then kXBit else 0) ||| (if n then kNBit else 0) |||
        (if s then kSBit else 0) ||| (UInt8.ofNat ix.val &&& kPartIdField)
      (d &&& 0x80 != 0) = x ∧ (d &&& 0x20 != 0) = n ∧ (d &&& 0x10 != 0) = s ∧
        (d &&& 0x0F).toNat = ix.val := by
    decide
  exact hall (xFieldPresent h) h.nonReference i.firstFragment ⟨i.firstPartitionIx, hix⟩

theorem parseDescriptor_data {b : Bytes} {r : VP8Header × Bytes}
    (h : parseDescriptor b = some r) : r.2 ≠ [] := by
  unfold parseDescriptor at h
  dsimp only at h
  split at h
  · simp at h
  split at h
  · simp at h
  rename_i hlen
  split at h
  · split at h
    · simp at h
    · split at h
      · simp at h
      · rename_i he
        simp only [Option.some.injEq] at h
        rw [← h]
        simpa using he
  · simp only [Option.some.injEq] at h
    rw [← h]
    intro h0
    have := congrArg List.length h0
    simp only [List.length_drop, List.length_nil] at this
    omega

/-- What `Parse` makes of a packet's first octet. -/
theorem parse_isFirst {b : Bytes} {r : ParsedPayload} (h : parse b = some r) :
    r.video.isFirstPacket = (getByte b 0 &&& 0x10 != 0 && (getByte b 0 &&& 0x0F).toNat == 0) ∧
      r.payload ≠ [] ∧ r.frameType ≠ .empty ∧ ∃ v, r.video.codec = .vp8 v := by
  unfold parse at h
  dsimp only at h
  split at h
  · simp at h
  rename_i v data hd
  split at h
  · simp at h
  · simp only [Option.some.injEq] at h
    subst h
    refine ⟨rfl, parseDescriptor_data hd, ?_, v, rfl⟩
    dsimp only
    split <;> simp

theorem writeHeaderAndPayload_first {p : Packetizer} {i : PacketInfo} {b : Bytes}
    (hb : writeHeaderAndPayload p i = some b) : getByte b 0 = descriptor p.hdr i := by
  simp only [writeHeaderAndPayload, Option.bind_eq_bind, Option.bind_eq_some_iff, Option.pure_def,
    Option.some.injEq] at hb
  obtain ⟨ext, -, rfl⟩ := hb
  rfl

theorem isFirst_packet {p : Packetizer} {i : PacketInfo} {b : Bytes} {r : ParsedPayload}
    (hb : writeHeaderAndPayload p i = some b) (hr : parse b = some r)
    (hix : i.firstPartitionIx < 16) :
    r.video.isFirstPacket = (i.firstFragment && i.firstPartitionIx == 0) := by
  obtain ⟨-, -, h1, h2⟩ := descriptor_bits p.hdr hix
  rw [(parse_isFirst hr).1, writeHeaderAndPayload_first hb, h1, h2]

/-- Later packets of a frame. -/
theorem sendAll_later {p : Packetizer} {n : Nat} (hn : n ≤ 16) : ∀ q : List PacketInfo,
    (∀ i ∈ q, Later n i) → ∀ (b : Bytes) (l : Bool), (b, l) ∈ sendAll p q →
    ∀ r, parse b = some r → r.video.isFirstPacket = false := by
  intro q
  induction q with
  | nil => intro _ b l h; exact absurd h List.not_mem_nil
  | cons i q ih =>
    intro hq b l hm r hr
    unfold sendAll nextPacket at hm
    split at hm
    · exact absurd hm List.not_mem_nil
    · rename_i b' last q' hw
      rw [Option.map_eq_some_iff] at hw
      obtain ⟨c, hc, he⟩ := hw
      obtain ⟨rfl, -⟩ := Prod.mk.inj he
      rcases List.mem_cons.1 hm with h | h
      · obtain ⟨rfl, -⟩ := Prod.mk.inj h
        obtain ⟨h1, h2⟩ := hq i (List.mem_cons_self ..)
        rw [isFirst_packet hc hr (by omega)]
        cases hf : i.firstFragment with
        | false => rfl
        | true =>
          rw [Bool.true_and]
          exact beq_false_of_ne (h2 hf)
      · exact ih (fun j hj => hq j (List.mem_cons_of_mem _ hj)) b l h r hr

theorem writePictureID_length (h : VP8Header) : (writePictureID h).length = pictureIdLength h := by
  have hle : pictureIdLength h ≤ 2 := by
    unfold pictureIdLength
    split
    · omega
    · split <;> omega
  unfold writePictureID
  dsimp only
  split
  · rename_i h2; rw [h2]; rfl
  split
  · rename_i h1; rw [h1]; rfl
  · rw [List.length_nil]; omega

theorem writeField_some {present : Bool} {n ext : Nat} {field : Bytes}
    (h : present = true → 1 + ext + field.length ≤ n) :
    writeField present n ext field = some (if present then field else []) := by
  unfold writeField
  cases present with
  | false => rfl
  | true =>
    have := h rfl
    rw [if_pos rfl, if_pos rfl, if_neg (by omega)]

/-- The octets of the extension. -/
def extension (h : VP8Header) : Bytes :=
  if xFieldPresent h then
    xField h :: ((if pictureIdPresent h then writePictureID h else []) ++
      (if tl0PicIdxFieldPresent h then [UInt8.ofNat (h.tl0PicIdx % 256).toNat] else []) ++
      (if tidFieldPresent h || keyIdxFieldPresent h then [tidAndKeyIdx h] else []))
  else []

/-- The three optional fields of the extension. -/
theorem extension_lengths (h : VP8Header) :
    (if pictureIdPresent h then writePictureID h else []).length = pictureIdLength h ∧
    (if tl0PicIdxFieldPresent h then [UInt8.ofNat (h.tl0PicIdx % 256).toNat] else []).length =
      (if tl0PicIdxFieldPresent h then 1 else 0) ∧
    (if tidFieldPresent h || keyIdxFieldPresent h then [tidAndKeyIdx h] else []).length =
      (if tidFieldPresent h || keyIdxFieldPresent h then 1 else 0) := by
  refine ⟨?_, by split <;> rfl, by split <;> rfl⟩
  cases hf : pictureIdPresent h with
  | true => exact writePictureID_length h
  | false =>
    have h0 : pictureIdLength h = 0 := by simpa [pictureIdPresent] using hf
    rw [h0]; rfl

theorem extension_length (h : VP8Header) :
    (extension h).length = payloadDescriptorExtraLength h := by
  obtain ⟨h1, h2, h3⟩ := extension_lengths h
  unfold extension payloadDescriptorExtraLength
  dsimp only
  split
  · rename_i hx
    have hpos : 0 < pictureIdLength h + (if tl0PicIdxFieldPresent h then 1 else 0) +
        (if tidFieldPresent h || keyIdxFieldPresent h then 1 else 0) := by
      simp only [xFieldPresent, Bool.or_eq_true] at hx
      rcases hx with ((hx | hx) | hx) | hx
      · simp only [hx, Bool.true_or, if_true]; omega
      · simp only [hx, if_true]; omega
      · have : 0 < pictureIdLength h := of_decide_eq_true hx
        omega
      · simp only [hx, Bool.or_true, if_true]; omega
    rw [if_pos hpos, List.length_cons, List.length_append, List.length_append, h1, h2, h3]
  · rename_i hx
    simp only [xFieldPresent, Bool.or_eq_true, not_or] at hx
    obtain ⟨⟨⟨ht, hl⟩, hp⟩, hk⟩ := hx
    have hpl : pictureIdLength h = 0 := by simpa [pictureIdPresent] using hp
    simp [ht, hl, hk, hpl]

/-- The descriptor fits whenever `GeneratePackets` starts. -/
theorem writeExtensionFields_eq {h : VP8Header} {n : Nat}
    (hn : 1 + payloadDescriptorExtraLength h + 1 ≤ n) :
    writeExtensionFields h n = some (extension h) := by
  obtain ⟨hp, htl, -⟩ := extension_lengths h
  -- the three lengths and the X octet fit in front of one octet of payload
  have hsum : 0 < pictureIdLength h + (if tl0PicIdxFieldPresent h then 1 else 0) +
        (if tidFieldPresent h || keyIdxFieldPresent h then 1 else 0) →
      pictureIdLength h + (if tl0PicIdxFieldPresent h then 1 else 0) +
        (if tidFieldPresent h || keyIdxFieldPresent h then 1 else 0) + 3 ≤ n := by
    intro hpos
    unfold payloadDescriptorExtraLength at hn
    dsimp only at hn
    rw [if_pos hpos] at hn
    omega
  have ht : tl0PicIdxFieldPresent h = true → (if tl0PicIdxFieldPresent h then 1 else 0) = 1 :=
    fun hc => if_pos hc
  have hk : (tidFieldPresent h || keyIdxFieldPresent h) = true →
      (if tidFieldPresent h || keyIdxFieldPresent h then 1 else 0) = 1 := fun hc => if_pos hc
  have hpp : pictureIdPresent h = true → 0 < pictureIdLength h := of_decide_eq_true
  have hpic := writePictureID_length h
  generalize (if tl0PicIdxFieldPresent h then 1 else 0) = T at htl hsum ht
  generalize (if tidFieldPresent h || keyIdxFieldPresent h then 1 else 0) = K at hsum hk
  unfold writeExtensionFields extension
  split
  · rw [writeField_some fun hc => by have := hpp hc; omega]
    dsimp only
    rw [writeField_some fun hc => by have := ht hc; rw [hp, List.length_singleton]; omega]
    dsimp only
    rw [writeField_some fun hc => by have := hk hc; rw [hp, htl, List.length_singleton]; omega]
  · rfl

theorem writeHeaderAndPayload_eq {p : Packetizer}
    (hn : 1 + payloadDescriptorExtraLength p.hdr + 1 ≤ p.maxPayloadLen) (i : PacketInfo) :
    writeHeaderAndPayload p i =
      some (descriptor p.hdr i :: (extension p.hdr ++ slice p.payload i.payloadStartPos i.size)) := by
  simp [writeHeaderAndPayload, writeExtensionFields_eq hn]

/-- Of a frame's packets exactly the first starts partition 0, and exactly
the last is flagged. -/
theorem isFirst_packetize {p : Packetizer} (hv : p.Valid) :
    packetize p ≠ [] ∧ ∀ i b l, (packetize p)[i]? = some (b, l) →
      l = decide (i + 1 = (packetize p).length) ∧
        ∀ r, parse b = some r → r.video.isFirstPacket = decide (i = 0) := by
  have hwrite := writeHeaderAndPayload_eq hv.room
  generalize extension p.hdr = e at hwrite
  have hsend : ∀ q, (sendAll p q).length = q.length ∧
      ∀ i b l, (sendAll p q)[i]? = some (b, l) → l = decide (i + 1 = q.length) := by
    intro q
    induction q with
    | nil => exact ⟨rfl, fun i b l h => by simp [sendAll] at h⟩
    | cons x q ih =>
      have hstep : sendAll p (x :: q) =
          (descriptor p.hdr x :: (e ++ slice p.payload x.payloadStartPos x.size), q.isEmpty) ::
            sendAll p q := by
        simp [sendAll, nextPacket, hwrite]
      rw [hstep]
      refine ⟨by simp [ih.1], fun i b l h => ?_⟩
      cases i with
      | zero =>
        simp only [List.getElem?_cons_zero, Option.some.injEq, Prod.mk.injEq] at h
        rw [← h.2]
        cases q <;> simp
      | succ i =>
        simp only [List.getElem?_cons_succ] at h
        rw [ih.2 i b l h, List.length_cons, decide_eq_decide]
        omega
  have hq : ∃ q, queue p = some q := by
    have hroom := hv.room
    unfold queue generatePacketsBalancedAggregates generatePackets
    split
    · exact ⟨_, if_neg (by omega)⟩
    · exact ⟨_, if_neg (by omega)⟩
  obtain ⟨q, hq⟩ := hq
  obtain ⟨x, rest, rfl, hfrag, hix, hlater⟩ := queue_firstOnly hv hq
  have hpk : packetize p = sendAll p (x :: rest) := by simp only [packetize, hq]
  have hstep : sendAll p (x :: rest) =
      (descriptor p.hdr x :: (e ++ slice p.payload x.payloadStartPos x.size), rest.isEmpty) ::
        sendAll p rest := by
    simp [sendAll, nextPacket, hwrite]
  rw [hpk]
  refine ⟨by rw [hstep]; simp, fun i b l hi => ⟨?_, fun r hr => ?_⟩⟩
  · rw [(hsend (x :: rest)).1]
    exact (hsend (x :: rest)).2 i b l hi
  · rw [hstep] at hi
    cases i with
    | zero =>
      simp only [List.getElem?_cons_zero, Option.some.injEq, Prod.mk.injEq] at hi
      rw [isFirst_packet (hi.1 ▸ hwrite x) hr (by omega), hfrag, hix]
      rfl
    | succ i =>
      simp only [List.getElem?_cons_succ] at hi
      have hle := hv.le_nine
      rw [sendAll_later (by omega) rest hlater b l (List.mem_of_getElem? hi) r hr]
      simp

end RtcCore.L1.Vp8
