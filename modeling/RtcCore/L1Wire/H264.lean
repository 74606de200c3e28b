import RtcCore.L1Wire.VideoHeader

/-!
# H.264 payload format (RFC 6184): packetizer and depacketizer

`RtpPacketizerH264` turns one encoded frame into RTP payloads. The frame is
described by an `RTPFragmentationHeader`: offset and length of each NAL unit
inside `payload_data_` (`Fragment`). `GeneratePackets` queues one `Packet`
per fragment of a NAL unit (FU-A) or per NAL unit (single or aggregated);
`NextPacket` turns the head of the queue into one payload. The index `i` of
the source's loops is the list of the fragments not yet consumed.

`RtpDepacketizerH264::Parse` is the receiving side. A STAP-A payload is
split by `VCMSessionInfo::InsertBuffer`'s walk over its 16-bit lengths
(`splitStapA`).

Results:
* `h264_roundtrip`: for every fragmentation of a payload into non-empty NAL
  units of types 1..23 and every `3 ≤ max_payload_len ≤ 65535`, the queue is
  drained, every payload has at most `max_payload_len` octets,
  `last_packet` is true exactly on the last one, no FU-A payload carries
  both the S and the E bit, and depacketizing gives the NAL units back in
  order.

`size_t` values are naturals: no sum here reaches 2^64, and the only
differences that could go below zero (`max_payload_len_ - kFuAHeaderSize`,
`payload_size_left`) do not for `max_payload_len ≥ 3`.
-/
namespace RtcCore.L1.H264

open Bytes

def kStapA : UInt8 := 24
def kFuA : UInt8 := 28
def kIdr : UInt8 := 5
def kSps : UInt8 := 7
def kPps : UInt8 := 8

def kNalHeaderSize : Nat := 1
def kFuAHeaderSize : Nat := 2
def kLengthFieldSize : Nat := 2

/-- `kFBit | kNriMask`. -/
def fnriMask : UInt8 := 0xE0
def kTypeMask : UInt8 := 0x1F
def kSBit : UInt8 := 0x80
def kEBit : UInt8 := 0x40

/-- One entry of `RTPFragmentationHeader`. -/
structure Fragment where
  offset : Nat
  length : Nat
  deriving DecidableEq, Repr

/-- mirrors webrtc/modules/rtp_rtcp/source/rtp_format_h264.h:50-71 -/
structure Packet where
  offset : Nat
  size : Nat
  firstFragment : Bool
  lastFragment : Bool
  aggregated : Bool
  header : UInt8
  deriving DecidableEq, Repr

/-! ## Packetizer -/

/-- The `while (fragment_length > 0)` loop; the fuel is the number of octets
left, each round takes at least one of them (`avg_pos`).
mirrors webrtc/modules/rtp_rtcp/source/rtp_format_h264.cc:150-164 -/
def fuALoop (header : UInt8) (fragmentOffset avg : Nat) : Nat → Nat → Nat → List Packet
  | 0, _, _ => []
  | fuel + 1, offset, fragmentLength =>
    if 0 < fragmentLength then
      let packetLength := if fragmentLength < avg then fragmentLength else avg
      ⟨offset, packetLength, offset - kNalHeaderSize == fragmentOffset,
        fragmentLength == packetLength, false, header⟩ ::
        fuALoop header fragmentOffset avg fuel (offset + packetLength)
          (fragmentLength - packetLength)
    else []

/-- Number of FU-A fragments for `n` octets after the NAL header. -/
def fuAFragments (maxLen n : Nat) : Nat :=
  let bytesAvailable := maxLen - kFuAHeaderSize
  (n + (bytesAvailable - 1)) / bytesAvailable

def fuAAvgSize (maxLen n : Nat) : Nat :=
  (n + fuAFragments maxLen n - 1) / fuAFragments maxLen n

/-- mirrors webrtc/modules/rtp_rtcp/source/rtp_format_h264.cc:140-165 -/
def packetizeFuA (payload : Bytes) (maxLen : Nat) (f : Fragment) : List Packet :=
  let fragmentLength := f.length - kNalHeaderSize
  fuALoop (getByte payload f.offset) f.offset (fuAAvgSize maxLen fragmentLength) fragmentLength
    (f.offset + kNalHeaderSize) fragmentLength

/-- The aggregation loop: `left` is `payload_size_left`, `agg` is
`aggregated_fragments`, `hdrs` is `fragment_headers_length`, `f` the fragment
under consideration. Returns the queued packets and the fragments left.
mirrors webrtc/modules/rtp_rtcp/source/rtp_format_h264.cc:175-200 -/
def stapALoop (payload : Bytes) (left agg hdrs : Nat) (f : Fragment) :
    List Fragment → List Packet × List Fragment
  | [] =>
    if f.length + hdrs ≤ left then
      ([⟨f.offset, f.length, agg == 0, false, true, getByte payload f.offset⟩], [])
    else ([], [f])
  | g :: rest =>
    if f.length + hdrs ≤ left then
      let r := stapALoop payload (left - f.length - hdrs) (agg + 1)
        (kLengthFieldSize + if agg = 0 then kNalHeaderSize + kLengthFieldSize else 0) g rest
      (⟨f.offset, f.length, agg == 0, false, true, getByte payload f.offset⟩ :: r.1, r.2)
    else ([], f :: g :: rest)

/-- `packets_.back().last_fragment = true`. -/
def markBack : List Packet → List Packet
  | [] => []
  | [p] => [{ p with lastFragment := true }]
  | p :: q :: rest => p :: markBack (q :: rest)

/-- The queue after the call and the fragments it left.
mirrors webrtc/modules/rtp_rtcp/source/rtp_format_h264.cc:167-202 -/
def packetizeStapA (payload : Bytes) (maxLen : Nat) (q : List Packet) (f : Fragment)
    (rest : List Fragment) : List Packet × List Fragment :=
  let r := stapALoop payload maxLen 0 0 f rest
  (markBack (q ++ r.1), r.2)

/-- The loop over the fragments; every round consumes at least one.
mirrors webrtc/modules/rtp_rtcp/source/rtp_format_h264.cc:126-138 -/
def generatePackets (payload : Bytes) (maxLen : Nat) :
    Nat → List Fragment → List Packet → List Packet
  | 0, _, q => q
  | _ + 1, [], q => q
  | fuel + 1, f :: rest, q =>
    if maxLen < f.length then
      generatePackets payload maxLen fuel rest (q ++ packetizeFuA payload maxLen f)
    else
      let r := packetizeStapA payload maxLen q f rest
      generatePackets payload maxLen fuel r.2 r.1

/-- mirrors webrtc/modules/rtp_rtcp/source/rtp_format_h264.cc:114-124 -/
def setPayloadData (payload : Bytes) (maxLen : Nat) (frags : List Fragment) : List Packet :=
  generatePackets payload maxLen frags.length frags []

/-- The body of `while (packet.aggregated)`: the octets after the STAP-A
header, and the queue left.
mirrors webrtc/modules/rtp_rtcp/source/rtp_format_h264.cc:245-260 -/
def aggregateLoop (payload : Bytes) : List Packet → Bytes × List Packet
  | [] => ([], [])
  | p :: q =>
    if p.aggregated then
      let unit := be16 p.size ++ slice payload p.offset p.size
      if p.lastFragment then (unit, q)
      else
        let r := aggregateLoop payload q
        (unit ++ r.1, r.2)
    else ([], p :: q)

/-- mirrors webrtc/modules/rtp_rtcp/source/rtp_format_h264.cc:237-262 -/
def nextAggregatePacket (payload : Bytes) (p : Packet) (q : List Packet) : Bytes × List Packet :=
  let r := aggregateLoop payload (p :: q)
  ((p.header &&& fnriMask ||| kStapA) :: r.1, r.2)

/-- mirrors webrtc/modules/rtp_rtcp/source/rtp_format_h264.cc:264-289 -/
def nextFragmentPacket (payload : Bytes) (p : Packet) : Bytes :=
  let fuIndicator := p.header &&& fnriMask ||| kFuA
  let fuHeader := (if p.firstFragment then kSBit else 0) ||| (if p.lastFragment then kEBit else 0) |||
    p.header &&& kTypeMask
  fuIndicator :: fuHeader :: slice payload p.offset p.size

/-- `NextPacket`: the payload, `last_packet` and the queue left, or `none`
when it returns false.
mirrors webrtc/modules/rtp_rtcp/source/rtp_format_h264.cc:204-235 -/
def nextPacket (payload : Bytes) : List Packet → Option (Bytes × Bool × List Packet)
  | [] => none
  | p :: q =>
    if p.firstFragment && p.lastFragment then some (slice payload p.offset p.size, q.isEmpty, q)
    else if p.aggregated then
      let r := nextAggregatePacket payload p q
      some (r.1, r.2.isEmpty, r.2)
    else some (nextFragmentPacket payload p, q.isEmpty, q)

/-- `NextPacket` until it returns false: the payloads with their
`last_packet`, and the queue left. Each call takes at least one packet off
the queue. -/
def sendAll (payload : Bytes) : Nat → List Packet → List (Bytes × Bool) × List Packet
  | 0, q => ([], q)
  | fuel + 1, q =>
    match nextPacket payload q with
    | none => ([], q)
    | some (b, last, q') => ((b, last) :: (sendAll payload fuel q').1, (sendAll payload fuel q').2)

/-- A whole frame through the packetizer. -/
def packetize (payload : Bytes) (maxLen : Nat) (frags : List Fragment) :
    List (Bytes × Bool) × List Packet :=
  sendAll payload (setPayloadData payload maxLen frags).length (setPayloadData payload maxLen frags)

/-! ## Depacketizer -/

/-- mirrors webrtc/modules/rtp_rtcp/source/rtp_format_h264.cc:40-67 -/
def parseSingleNalu (b : Bytes) : ParsedPayload :=
  let t := getByte b 0 &&& kTypeMask
  let stapA := t == kStapA
  let nalType := if stapA then getByte b 3 &&& kTypeMask else t
  { payload := b
    frameType := if nalType == kSps || nalType == kPps || nalType == kIdr then .key else .delta
    video := { isFirstPacket := true, codec := .h264 ⟨stapA, true⟩ } }

/-- mirrors webrtc/modules/rtp_rtcp/source/rtp_format_h264.cc:69-100; the
first fragment's FU header is overwritten with the original NAL header. -/
def parseFuaNalu (b : Bytes) : ParsedPayload :=
  let fnri := getByte b 0 &&& fnriMask
  let originalNalType := getByte b 1 &&& kTypeMask
  let firstFragment := getByte b 1 &&& kSBit != 0
  { payload := if firstFragment then (fnri ||| originalNalType) :: b.drop kFuAHeaderSize
      else b.drop kFuAHeaderSize
    frameType := if originalNalType == kIdr then .key else .delta
    video := { isFirstPacket := firstFragment, codec := .h264 ⟨false, false⟩ } }

/-- `RtpDepacketizerH264::Parse`.
mirrors webrtc/modules/rtp_rtcp/source/rtp_format_h264.cc:299-317 -/
def parse (b : Bytes) : ParsedPayload :=
  if getByte b 0 &&& kTypeMask == kFuA then parseFuaNalu b else parseSingleNalu b

/-- The walk over a STAP-A payload from `ptr` on; the fuel is its length.
mirrors webrtc/modules/video_coding/main/source/session_info.cc:153-161 -/
def splitStapAFrom (b : Bytes) : Nat → Nat → List Bytes
  | 0, _ => []
  | fuel + 1, ptr =>
    if ptr < b.length then
      slice b (ptr + kLengthFieldSize) (rd16 b ptr) ::
        splitStapAFrom b fuel (ptr + kLengthFieldSize + rd16 b ptr)
    else []

def splitStapA (b : Bytes) : List Bytes := splitStapAFrom b b.length kNalHeaderSize

/-- Octets appended to the NAL unit under assembly. -/
def appendLast (us : List Bytes) (b : Bytes) : List Bytes :=
  match us.getLast? with
  | none => [b]
  | some u => us.dropLast ++ [u ++ b]

/-- One received payload added to the NAL units received so far: a STAP-A is
split, a single NAL unit or a first fragment starts a unit, any other
fragment continues the last one. -/
def deliver (us : List Bytes) (b : Bytes) : List Bytes :=
  let p := parse b
  match p.video.codec with
  | .h264 ⟨true, _⟩ => us ++ splitStapA p.payload
  | _ => if p.video.isFirstPacket then us ++ [p.payload] else appendLast us p.payload

def depacketize (us : List Bytes) (bs : List Bytes) : List Bytes := bs.foldl deliver us

/-! ## Header octets -/

theorem stapA_type (h : UInt8) : (h &&& fnriMask ||| kStapA) &&& kTypeMask = kStapA :=
  forall_uint8 (P := fun h => (h &&& fnriMask ||| kStapA) &&& kTypeMask = kStapA)
    (by decide) h

theorem fuA_type (h : UInt8) : (h &&& fnriMask ||| kFuA) &&& kTypeMask = kFuA :=
  forall_uint8 (P := fun h => (h &&& fnriMask ||| kFuA) &&& kTypeMask = kFuA) (by decide) h

/-- The FU header octet of a fragment. -/
def fuHeader (h : UInt8) (s e : Bool) : UInt8 :=
  (if s then kSBit else 0) ||| (if e then kEBit else 0) ||| h &&& kTypeMask

theorem fuHeader_spec (h : UInt8) (s e : Bool) :
    fuHeader h s e &&& kTypeMask = h &&& kTypeMask ∧ (fuHeader h s e &&& kSBit != 0) = s ∧
      (fuHeader h s e &&& kEBit != 0) = e := by
  revert h
  refine forall_uint8 ?_
  cases s <;> cases e <;> decide

/-- The NAL header is recovered from the FU indicator and the FU header. -/
theorem nalHeader_recovered (h : UInt8) (s e : Bool) :
    ((h &&& fnriMask ||| kFuA) &&& fnriMask) ||| (fuHeader h s e &&& kTypeMask) = h := by
  rw [(fuHeader_spec h s e).1]
  exact forall_uint8
    (P := fun h => ((h &&& fnriMask ||| kFuA) &&& fnriMask) ||| (h &&& kTypeMask) = h)
    (by decide) h

/-! ## Draining the queue -/

theorem aggregateLoop_length (payload : Bytes) (q : List Packet) :
    (aggregateLoop payload q).2.length ≤ q.length := by
  induction q with
  | nil => simp [aggregateLoop]
  | cons p q ih =>
    simp only [aggregateLoop]
    split
    · split
      · simp
      · simp only [List.length_cons]; omega
    · simp

/-- Every `NextPacket` takes something off the queue: an aggregate's first
packet is itself aggregated. -/
theorem nextPacket_length {payload : Bytes} {q q' : List Packet} {b : Bytes} {l : Bool}
    (h : nextPacket payload q = some (b, l, q')) : q'.length < q.length ∧ l = q'.isEmpty := by
  cases q with
  | nil => simp [nextPacket] at h
  | cons p q =>
    simp only [nextPacket] at h
    split at h
    · simp only [Option.some.injEq, Prod.mk.injEq] at h; obtain ⟨-, rfl, rfl⟩ := h; simp
    · split at h
      · rename_i hagg
        simp only [Option.some.injEq, Prod.mk.injEq] at h; obtain ⟨-, rfl, rfl⟩ := h
        refine ⟨?_, rfl⟩
        have := aggregateLoop_length payload q
        simp only [nextAggregatePacket, aggregateLoop, hagg, if_true]
        split
        · simp
        · simp only [List.length_cons]; omega
      · simp only [Option.some.injEq, Prod.mk.injEq] at h; obtain ⟨-, rfl, rfl⟩ := h; simp

theorem nextPacket_ne_none (payload : Bytes) {q : List Packet} (h : q ≠ []) :
    ∃ b l q', nextPacket payload q = some (b, l, q') := by
  cases q with
  | nil => exact absurd rfl h
  | cons p q =>
    simp only [nextPacket]
    split
    · exact ⟨_, _, _, rfl⟩
    · split <;> exact ⟨_, _, _, rfl⟩

/-- More fuel than packets changes nothing. -/
theorem sendAll_fuel (payload : Bytes) : ∀ (n : Nat) (q : List Packet), q.length ≤ n →
    sendAll payload n q = sendAll payload q.length q := by
  intro n
  induction n using Nat.strongRecOn with
  | ind n ih =>
    intro q hq
    cases q with
    | nil => cases n <;> simp [sendAll, nextPacket]
    | cons p q =>
      obtain ⟨m, rfl⟩ : ∃ m, n = m + 1 := ⟨n - 1, by simp at hq; omega⟩
      obtain ⟨b, l, q', hn⟩ := nextPacket_ne_none payload (q := p :: q) (by simp)
      have hlt := (nextPacket_length hn).1
      simp only [List.length_cons] at hlt hq ⊢
      simp only [sendAll, hn]
      rw [ih m (by omega) q' (by omega)]
      by_cases hmq : q.length < m + 1
      · rw [ih q.length (by omega) q' (by omega)]
      · have : q.length = m := by omega
        rw [this, ih m (by omega) q' (by omega)]

/-- The payloads sent for a queue. -/
def sent (payload : Bytes) (q : List Packet) : List (Bytes × Bool) :=
  (sendAll payload q.length q).1

theorem sendAll_step {payload : Bytes} {q q' : List Packet} {b : Bytes} {l : Bool}
    (h : nextPacket payload q = some (b, l, q')) :
    sendAll payload q.length q =
      ((b, l) :: sent payload q', (sendAll payload q'.length q').2) := by
  have hlt := (nextPacket_length h).1
  obtain ⟨m, hm⟩ : ∃ m, q.length = m + 1 := ⟨q.length - 1, by omega⟩
  rw [hm, sendAll, h]
  simp only [sent]
  rw [sendAll_fuel payload m q' (by omega)]

theorem sent_step {payload : Bytes} {q q' : List Packet} {b : Bytes} {l : Bool}
    (h : nextPacket payload q = some (b, l, q')) :
    sent payload q = (b, l) :: sent payload q' := by
  rw [sent, sendAll_step h]

theorem sent_nil (payload : Bytes) : sent payload [] = [] := rfl

/-- The queue is drained, and `last_packet` is true exactly on the last
payload. -/
theorem sendAll_drains (payload : Bytes) (q : List Packet) :
    (sendAll payload q.length q).2 = [] ∧
      ∀ i b l, (sent payload q)[i]? = some (b, l) → (l = true ↔ i + 1 = (sent payload q).length) := by
  induction hk : q.length using Nat.strongRecOn generalizing q with
  | ind k ih =>
    subst hk
    cases q with
    | nil => exact ⟨rfl, by intro i b l h; simp [sent_nil] at h⟩
    | cons p q =>
      obtain ⟨b, l, q', hn⟩ := nextPacket_ne_none payload (q := p :: q) (by simp)
      obtain ⟨hlt, hl⟩ := nextPacket_length hn
      obtain ⟨h1, h2⟩ := ih q'.length hlt q' rfl
      refine ⟨by rw [sendAll_step hn]; exact h1, ?_⟩
      rw [sent_step hn]
      intro i b' l' hi
      cases i with
      | zero =>
        simp only [List.getElem?_cons_zero, Option.some.injEq, Prod.mk.injEq] at hi
        rw [← hi.2, hl, List.isEmpty_iff]
        cases q' with
        | nil => simp [sent_nil]
        | cons p' q' =>
          obtain ⟨b₂, l₂, q₂, hn₂⟩ := nextPacket_ne_none payload (q := p' :: q') (by simp)
          simp [sent_step hn₂]
      | succ i =>
        simp only [List.getElem?_cons_succ] at hi
        rw [h2 i b' l' hi]
        simp

/-! ## Aggregation: single NAL units and STAP-A -/

/-- The packet queued for a whole fragment. -/
def aggPacket (payload : Bytes) (first : Bool) (f : Fragment) : Packet :=
  ⟨f.offset, f.length, first, false, true, getByte payload f.offset⟩

/-- A NAL unit inside a STAP-A. -/
def stapUnit (payload : Bytes) (f : Fragment) : Bytes :=
  be16 f.length ++ slice payload f.offset f.length

def stapSize (fs : List Fragment) : Nat := (fs.map fun f => kLengthFieldSize + f.length).sum

/-- The loop takes `f` and a prefix `taken` of the rest; what it takes fits
the space left, the STAP-A header and the first length field being charged
to the second fragment. -/
theorem stapALoop_spec (payload : Bytes) : ∀ (rest : List Fragment) (left agg hdrs : Nat)
    (f : Fragment), f.length + hdrs ≤ left →
    ∃ taken rest', rest = taken ++ rest' ∧
      stapALoop payload left agg hdrs f rest =
        (aggPacket payload (agg == 0) f :: taken.map (aggPacket payload false), rest') ∧
      f.length + hdrs + stapSize taken + (if agg = 0 ∧ taken ≠ [] then 3 else 0) ≤ left := by
  intro rest
  induction rest with
  | nil =>
    intro left agg hdrs f h
    exact ⟨[], [], rfl, by simp [stapALoop, h, aggPacket], by simpa [stapSize] using h⟩
  | cons g rest ih =>
    intro left agg hdrs f h
    simp only [stapALoop, h, if_true]
    generalize hH : (kLengthFieldSize + if agg = 0 then kNalHeaderSize + kLengthFieldSize else 0) = H
    by_cases hg : g.length + H ≤ left - f.length - hdrs
    · obtain ⟨taken, rest', hr, he, hs⟩ := ih (left - f.length - hdrs) (agg + 1) H g hg
      refine ⟨g :: taken, rest', by rw [hr]; rfl, by rw [he]; simp [aggPacket], ?_⟩
      have hS : stapSize (g :: taken) = 2 + g.length + stapSize taken := by
        simp [stapSize, kLengthFieldSize]
      rw [hS]
      simp only [kLengthFieldSize, kNalHeaderSize] at hH
      by_cases ha : agg = 0
      · simp only [ha, if_true] at hH
        simp only [Nat.add_eq_zero_iff, Nat.one_ne_zero, and_false, false_and, if_false,
          Nat.add_zero] at hs
        simp only [ha, ne_eq, reduceCtorEq, not_false_eq_true, and_self, if_true]
        omega
      · simp only [ha, if_false] at hH
        simp only [Nat.add_eq_zero_iff, Nat.one_ne_zero, and_false, false_and, if_false,
          Nat.add_zero] at hs
        simp only [ha, false_and, if_false]
        omega
    · refine ⟨[], g :: rest, rfl, ?_, by simpa [stapSize] using h⟩
      cases rest with
      | nil => simp [stapALoop, hg, aggPacket]
      | cons g' rest => simp [stapALoop, hg, aggPacket]

theorem markBack_append (q : List Packet) (p : Packet) (ps : List Packet) :
    markBack (q ++ p :: ps) = q ++ markBack (p :: ps) := by
  induction q with
  | nil => rfl
  | cons a q ih =>
    cases q with
    | nil => rfl
    | cons b q =>
      simp only [List.cons_append] at ih ⊢
      rw [markBack, ih]

theorem markBack_cons_cons (p q : Packet) (ps : List Packet) :
    markBack (p :: q :: ps) = p :: markBack (q :: ps) := rfl

/-- The units of an aggregate, up to the packet marked last. -/
theorem aggregateLoop_group (payload : Bytes) (Q : List Packet) : ∀ (fs : List Fragment)
    (f : Fragment) (first : Bool),
    aggregateLoop payload
        (markBack (aggPacket payload first f :: fs.map (aggPacket payload false)) ++ Q) =
      ((f :: fs).flatMap (stapUnit payload), Q) := by
  intro fs
  induction fs with
  | nil => intro f first; simp [markBack, aggPacket, aggregateLoop, stapUnit]
  | cons g fs ih =>
    intro f first
    rw [List.map_cons, markBack_cons_cons, List.cons_append, aggregateLoop, ih]
    simp [aggPacket, stapUnit]

theorem stapUnits_length {payload : Bytes} {fs : List Fragment}
    (hb : ∀ f ∈ fs, f.offset + f.length ≤ payload.length) :
    (fs.flatMap (stapUnit payload)).length = stapSize fs := by
  induction fs with
  | nil => rfl
  | cons f fs ih =>
    have h1 := ih fun g hg => hb g (List.mem_cons_of_mem _ hg)
    have h2 := slice_length (hb f (List.mem_cons_self ..))
    simp only [List.flatMap_cons, List.length_append, h1]
    simp only [stapUnit, List.length_append, be16_length, h2, stapSize, kLengthFieldSize,
      List.map_cons, List.sum_cons]

/-- A NAL unit behind its 16-bit length. -/
def lengthPrefixed (u : Bytes) : Bytes := be16 u.length ++ u

/-- What the walk reads at a unit that follows `pre`. -/
theorem lengthPrefixed_read (pre u post : Bytes) (h : u.length < 65536) :
    pre.length < (pre ++ (lengthPrefixed u ++ post)).length ∧
      rd16 (pre ++ (lengthPrefixed u ++ post)) pre.length = u.length ∧
      slice (pre ++ (lengthPrefixed u ++ post)) (pre.length + 2) u.length = u := by
  refine ⟨by simp [lengthPrefixed, be16], ?_, ?_⟩
  · have := rd16_be16 pre (u ++ post) u.length h
    simpa [lengthPrefixed, List.append_assoc] using this
  · have := slice_mid (pre ++ be16 u.length) u post
    simpa [lengthPrefixed, be16_length, List.append_assoc] using this

/-- The walk over the lengths finds the units. -/
theorem splitStapAFrom_units : ∀ (us : List Bytes) (pre : Bytes) (fuel : Nat),
    (∀ u ∈ us, u.length < 65536) → us.length ≤ fuel →
    splitStapAFrom (pre ++ us.flatMap lengthPrefixed) fuel pre.length = us := by
  intro us
  induction us with
  | nil => intro pre fuel _ _; cases fuel <;> simp [splitStapAFrom]
  | cons u us ih =>
    intro pre fuel hb hf
    obtain ⟨n, rfl⟩ : ∃ n, fuel = n + 1 := ⟨fuel - 1, by simp at hf; omega⟩
    obtain ⟨hne, hrd, hsl⟩ :=
      lengthPrefixed_read pre u (us.flatMap lengthPrefixed) (hb u (List.mem_cons_self ..))
    rw [List.flatMap_cons, splitStapAFrom, if_pos hne, hrd, kLengthFieldSize, hsl]
    congr 1
    have el : pre.length + 2 + u.length = (pre ++ lengthPrefixed u).length := by
      simp [lengthPrefixed, be16]; omega
    rw [el, ← List.append_assoc]
    exact ih _ n (fun g hg => hb g (List.mem_cons_of_mem _ hg)) (by simp at hf; omega)

theorem length_le_lengthPrefixed (us : List Bytes) :
    us.length ≤ (us.flatMap lengthPrefixed).length := by
  induction us with
  | nil => simp
  | cons u us ih =>
    simp only [List.flatMap_cons, List.length_append, List.length_cons, lengthPrefixed, be16_length]
    omega

theorem splitStapA_units (h : UInt8) (us : List Bytes) (hb : ∀ u ∈ us, u.length < 65536) :
    splitStapA (h :: us.flatMap lengthPrefixed) = us := by
  have hl := length_le_lengthPrefixed us
  exact splitStapAFrom_units us [h] _ hb (by simp only [List.length_cons]; omega)

/-! ## Fragmentation: FU-A -/

/-- A NAL unit above the limit is cut into at least two fragments, none
empty and none above the room left by the FU-A header. -/
theorem avg_bounds {maxLen n : Nat} (h3 : 3 ≤ maxLen) (hn : maxLen ≤ n) :
    0 < fuAAvgSize maxLen n ∧ fuAAvgSize maxLen n + 2 ≤ maxLen ∧ fuAAvgSize maxLen n < n := by
  obtain ⟨B, rfl⟩ : ∃ B, maxLen = B + 3 := ⟨maxLen - 3, by omega⟩
  have hF : fuAFragments (B + 3) n = (n + B) / (B + 1) := by
    simp [fuAFragments, kFuAHeaderSize]
  have hF2 : 2 ≤ (n + B) / (B + 1) := (Nat.le_div_iff_mul_le (by omega)).2 (by omega)
  have hup : n + B < (B + 1) * ((n + B) / (B + 1) + 1) := Nat.lt_mul_div_succ _ (by omega)
  simp only [fuAAvgSize, hF]
  generalize (n + B) / (B + 1) = F at hF2 hup
  obtain ⟨F, rfl⟩ : ∃ G, F = G + 2 := ⟨F - 2, by omega⟩
  obtain ⟨n, rfl⟩ : ∃ m, n = m + 3 := ⟨n - 3, by omega⟩
  refine ⟨Nat.div_pos (by omega) (by omega), ?_, ?_⟩
  · have : (n + 3 + (F + 2) - 1) / (F + 2) < B + 2 := by
      rw [Nat.div_lt_iff_lt_mul (by omega)]
      simp only [Nat.add_mul, Nat.mul_add] at hup ⊢
      omega
    omega
  · rw [Nat.div_lt_iff_lt_mul (by omega)]
    simp only [Nat.add_mul, Nat.mul_add]
    omega

/-- A queued fragment: not aggregated, the NAL unit's header, within the
size limit, and not both first and last. -/
def FuPacket (h : UInt8) (avg : Nat) (p : Packet) : Prop :=
  p.aggregated = false ∧ p.header = h ∧ p.size ≤ avg ∧
    (p.firstFragment && p.lastFragment) = false

theorem fuALoop_packets (h : UInt8) (fo avg : Nat) (ha : 0 < avg) : ∀ (fuel off len : Nat),
    fo < off → (fo + 1 < off ∨ avg < len) →
    ∀ p ∈ fuALoop h fo avg fuel off len, FuPacket h avg p := by
  intro fuel
  induction fuel with
  | zero => intro off len _ _ p hp; simp [fuALoop] at hp
  | succ fuel ih =>
    intro off len hoff hd p hp
    simp only [fuALoop] at hp
    split at hp
    · rename_i hlen
      generalize hpl : (if len < avg then len else avg) = pl at hp
      have hpos : 0 < pl ∧ pl ≤ avg := by subst hpl; split <;> omega
      rcases List.mem_cons.1 hp with rfl | hp
      · refine ⟨rfl, rfl, hpos.2, ?_⟩
        simp only [kNalHeaderSize, Bool.and_eq_false_iff, beq_eq_false_iff_ne, ne_eq]
        rcases hd with hd | hd
        · left; omega
        · right; subst hpl; split <;> omega
      · exact ih (off + pl) (len - pl) (by omega) (Or.inl (by omega)) p hp
    · simp at hp

theorem deliver_fragment (payload : Bytes) (p : Packet) (us : List Bytes) :
    deliver us (nextFragmentPacket payload p) =
      if p.firstFragment then us ++ [p.header :: slice payload p.offset p.size]
      else appendLast us (slice payload p.offset p.size) := by
  have hx : nextFragmentPacket payload p = (p.header &&& fnriMask ||| kFuA) ::
      fuHeader p.header p.firstFragment p.lastFragment :: slice payload p.offset p.size := rfl
  have ht : parse (nextFragmentPacket payload p) = parseFuaNalu (nextFragmentPacket payload p) := by
    rw [parse, hx]; simp [getByte, fuA_type]
  obtain ⟨-, hS, -⟩ := fuHeader_spec p.header p.firstFragment p.lastFragment
  have hr := nalHeader_recovered p.header p.firstFragment p.lastFragment
  simp only [deliver, ht]
  simp only [parseFuaNalu, hx, getByte, List.getElem?_cons_zero, Option.getD_some,
    List.getElem?_cons_succ, hS, hr, kFuAHeaderSize, List.drop_succ_cons, List.drop_zero]
  split <;> rfl

theorem appendLast_concat (us : List Bytes) (u b : Bytes) :
    appendLast (us ++ [u]) b = us ++ [u ++ b] := by
  simp [appendLast]

/-- The fragments after the first extend the unit under assembly. -/
theorem deliver_rest (payload : Bytes) (h : UInt8) (fo avg : Nat) (ha : 0 < avg) :
    ∀ (fuel off len : Nat) (us : List Bytes) (u : Bytes), fo + 1 < off → len ≤ fuel →
    depacketize (us ++ [u]) ((fuALoop h fo avg fuel off len).map (nextFragmentPacket payload)) =
      us ++ [u ++ slice payload off len] := by
  intro fuel
  induction fuel with
  | zero =>
    intro off len us u _ hl
    obtain rfl : len = 0 := by omega
    simp [fuALoop, depacketize, slice]
  | succ fuel ih =>
    intro off len us u hoff hl
    simp only [fuALoop]
    split
    · generalize hpl : (if len < avg then len else avg) = pl
      have hpos : 0 < pl ∧ pl ≤ len := by subst hpl; split <;> omega
      have hfirst : (off - kNalHeaderSize == fo) = false := by
        simp only [kNalHeaderSize, beq_eq_false_iff_ne, ne_eq]; omega
      simp only [List.map_cons, depacketize, List.foldl_cons, deliver_fragment, hfirst,
        Bool.false_eq_true, if_false, appendLast_concat]
      have := ih (off + pl) (len - pl) us (u ++ slice payload off pl) (by omega) (by omega)
      rw [depacketize] at this
      rw [this, List.append_assoc, ← slice_add, show pl + (len - pl) = len by omega]
    · obtain rfl : len = 0 := by omega
      simp [depacketize, slice]

/-- The FU-A fragments of a NAL unit give it back. -/
theorem deliver_fuA {payload : Bytes} {maxLen : Nat} {f : Fragment} (h3 : 3 ≤ maxLen)
    (hf : maxLen < f.length) (hb : f.offset + f.length ≤ payload.length) (us : List Bytes) :
    depacketize us ((packetizeFuA payload maxLen f).map (nextFragmentPacket payload)) =
      us ++ [slice payload f.offset f.length] := by
  obtain ⟨ha, -, hlt⟩ := avg_bounds h3 (show maxLen ≤ f.length - 1 by omega)
  obtain ⟨n, hn⟩ : ∃ n, f.length = n + 2 := ⟨f.length - 2, by omega⟩
  simp only [packetizeFuA, kNalHeaderSize, hn, show n + 2 - 1 = n + 1 by omega] at ha hlt ⊢
  generalize hA : fuAAvgSize maxLen (n + 1) = A at ha hlt
  simp only [fuALoop, kNalHeaderSize, Nat.add_sub_cancel, Nat.succ_pos, if_true,
    if_neg (show ¬ n + 1 < A by omega), List.map_cons, depacketize, List.foldl_cons,
    deliver_fragment, beq_self_eq_true]
  have := deliver_rest payload (getByte payload f.offset) f.offset A ha n (f.offset + 1 + A)
    (n + 1 - A) us (getByte payload f.offset :: slice payload (f.offset + 1) A) (by omega) (by omega)
  rw [depacketize] at this
  have hunit : slice payload f.offset (1 + (n + 1)) =
      getByte payload f.offset :: slice payload (f.offset + 1) (n + 1) := by
    rw [slice_add, slice_one (by omega)]; rfl
  rw [this, List.cons_append, ← slice_add, show A + (n + 1 - A) = n + 1 by omega, ← hunit,
    show 1 + (n + 1) = n + 2 by omega]

theorem packetizeFuA_packets {payload : Bytes} {maxLen : Nat} {f : Fragment} (h3 : 3 ≤ maxLen)
    (hf : maxLen < f.length) :
    ∀ p ∈ packetizeFuA payload maxLen f, FuPacket (getByte payload f.offset) (maxLen - 2) p := by
  obtain ⟨ha, hle, hlt⟩ := avg_bounds h3 (show maxLen ≤ f.length - 1 by omega)
  intro p hp
  obtain ⟨h1, h2, hs, h4⟩ := fuALoop_packets (getByte payload f.offset) f.offset
    (fuAAvgSize maxLen (f.length - kNalHeaderSize)) ha (f.length - kNalHeaderSize) (f.offset + 1)
    (f.length - kNalHeaderSize) (by omega) (Or.inr hlt) p hp
  simp only [kNalHeaderSize] at hs
  exact ⟨h1, h2, by omega, h4⟩

theorem sent_fuA (payload : Bytes) (h : UInt8) (avg : Nat) (Q : List Packet) : ∀ ps : List Packet,
    (∀ p ∈ ps, FuPacket h avg p) →
    (sent payload (ps ++ Q)).map Prod.fst =
      ps.map (nextFragmentPacket payload) ++ (sent payload Q).map Prod.fst := by
  intro ps
  induction ps with
  | nil => intro _; rfl
  | cons p ps ih =>
    intro hp
    obtain ⟨h1, -, -, h2⟩ := hp p (List.mem_cons_self ..)
    have hn : nextPacket payload (p :: (ps ++ Q)) =
        some (nextFragmentPacket payload p, (ps ++ Q).isEmpty, ps ++ Q) := by
      simp [nextPacket, h1, h2]
    rw [List.cons_append, sent_step hn, List.map_cons,
      ih fun q hq => hp q (List.mem_cons_of_mem _ hq)]
    rfl

/-! ## The round trip -/

/-- The NAL unit a fragment describes. -/
def nalu (payload : Bytes) (f : Fragment) : Bytes := slice payload f.offset f.length

/-- The fragment lies in the payload and is a NAL unit of type 1..23. -/
structure Fragment.WF (payload : Bytes) (f : Fragment) : Prop where
  nonempty : 0 < f.length
  inside : f.offset + f.length ≤ payload.length
  type_pos : 1 ≤ (getByte payload f.offset &&& kTypeMask).toNat
  type_le : (getByte payload f.offset &&& kTypeMask).toNat ≤ 23

/-- An FU-A payload with both the S and the E bit. -/
def fuStartEnd (b : Bytes) : Bool :=
  getByte b 0 &&& kTypeMask == kFuA && (getByte b 1 &&& kSBit != 0 && getByte b 1 &&& kEBit != 0)

/-- What the payloads `bs` sent for the NAL units `us` must satisfy. -/
structure Carries (maxLen : Nat) (bs us : List Bytes) : Prop where
  fits : ∀ b ∈ bs, b.length ≤ maxLen
  noStartEnd : ∀ b ∈ bs, fuStartEnd b = false
  delivers : ∀ acc, depacketize acc bs = acc ++ us

theorem Carries.nil (maxLen : Nat) : Carries maxLen [] [] :=
  ⟨by simp, by simp, by simp [depacketize]⟩

theorem Carries.append {maxLen : Nat} {bs cs us vs : List Bytes} (h : Carries maxLen bs us)
    (k : Carries maxLen cs vs) : Carries maxLen (bs ++ cs) (us ++ vs) where
  fits b hb := (List.mem_append.1 hb).elim (h.fits b) (k.fits b)
  noStartEnd b hb := (List.mem_append.1 hb).elim (h.noStartEnd b) (k.noStartEnd b)
  delivers acc := by
    have h1 := h.delivers acc
    have h2 := k.delivers (acc ++ us)
    unfold depacketize at h1 h2 ⊢
    rw [List.foldl_append, h1, h2, List.append_assoc]

theorem carries_fuA {payload : Bytes} {maxLen : Nat} {f : Fragment} (h3 : 3 ≤ maxLen)
    (hf : maxLen < f.length) (hw : f.WF payload) :
    Carries maxLen ((packetizeFuA payload maxLen f).map (nextFragmentPacket payload))
      [nalu payload f] where
  fits b hb := by
    obtain ⟨p, hp, rfl⟩ := List.mem_map.1 hb
    obtain ⟨-, -, hs, -⟩ := packetizeFuA_packets h3 hf p hp
    simp only [nextFragmentPacket, List.length_cons, slice, List.length_take]
    omega
  noStartEnd b hb := by
    obtain ⟨p, hp, rfl⟩ := List.mem_map.1 hb
    obtain ⟨-, -, -, hse⟩ := packetizeFuA_packets h3 hf p hp
    obtain ⟨-, hS, hE⟩ := fuHeader_spec p.header p.firstFragment p.lastFragment
    show (_ && (fuHeader p.header p.firstFragment p.lastFragment &&& kSBit != 0 &&
      fuHeader p.header p.firstFragment p.lastFragment &&& kEBit != 0)) = false
    rw [hS, hE, hse, Bool.and_false]
  delivers := deliver_fuA h3 hf hw.inside

theorem getByte_slice_zero (payload : Bytes) (f : Fragment) (h : 0 < f.length) :
    getByte (nalu payload f) 0 = getByte payload f.offset := by
  obtain ⟨n, hn⟩ : ∃ n, f.length = n + 1 := ⟨f.length - 1, by omega⟩
  simp [nalu, slice, getByte, hn]

theorem carries_single {payload : Bytes} {maxLen : Nat} {f : Fragment} (hf : f.length ≤ maxLen)
    (hw : f.WF payload) : Carries maxLen [nalu payload f] [nalu payload f] := by
  have h0 := getByte_slice_zero payload f hw.nonempty
  have hle := hw.type_le
  have hfu : getByte payload f.offset &&& kTypeMask ≠ kFuA := fun e => by
    rw [e] at hle; exact absurd hle (by decide)
  have hst : getByte payload f.offset &&& kTypeMask ≠ kStapA := fun e => by
    rw [e] at hle; exact absurd hle (by decide)
  refine ⟨?_, ?_, ?_⟩
  · intro b hb
    rw [List.mem_singleton.1 hb, nalu, slice_length hw.inside]; exact hf
  · intro b hb
    rw [List.mem_singleton.1 hb, fuStartEnd, h0]
    simp [hfu]
  · intro acc
    have hp : parse (nalu payload f) = parseSingleNalu (nalu payload f) := by
      simp [parse, h0, hfu]
    simp only [depacketize, List.foldl_cons, List.foldl_nil, deliver, hp, parseSingleNalu, h0]
    rw [beq_false_of_ne hst]
    rfl

/-- The octets of a STAP-A. -/
def stapA (payload : Bytes) (f : Fragment) (fs : List Fragment) : Bytes :=
  (getByte payload f.offset &&& fnriMask ||| kStapA) :: (f :: fs).flatMap (stapUnit payload)

theorem length_le_stapSize {fs : List Fragment} {g : Fragment} (h : g ∈ fs) :
    g.length ≤ stapSize fs := by
  induction fs with
  | nil => simp at h
  | cons f fs ih =>
    simp only [stapSize, List.map_cons, List.sum_cons] at ih ⊢
    rcases List.mem_cons.1 h with rfl | h
    · omega
    · have := ih h
      omega

theorem stapUnits_eq {payload : Bytes} {fs : List Fragment}
    (hb : ∀ f ∈ fs, f.offset + f.length ≤ payload.length) :
    fs.flatMap (stapUnit payload) = (fs.map (nalu payload)).flatMap lengthPrefixed := by
  rw [List.flatMap_def, List.flatMap_def, List.map_map]
  congr 1
  refine List.map_congr_left fun f hf => ?_
  rw [Function.comp, stapUnit, lengthPrefixed, nalu, slice_length (hb f hf)]

theorem carries_stapA {payload : Bytes} {maxLen : Nat} {f : Fragment} {fs : List Fragment}
    (hm : maxLen ≤ 65535) (hs : 1 + stapSize (f :: fs) ≤ maxLen)
    (hw : ∀ g ∈ f :: fs, g.WF payload) :
    Carries maxLen [stapA payload f fs] ((f :: fs).map (nalu payload)) := by
  have hin : ∀ g ∈ f :: fs, g.offset + g.length ≤ payload.length := fun g hg => (hw g hg).inside
  have hlen := stapUnits_length hin
  have hlt : ∀ g ∈ f :: fs, g.length < 65536 := fun g hg => by
    have := length_le_stapSize hg
    omega
  have htype : getByte (stapA payload f fs) 0 &&& kTypeMask = kStapA := by
    simp [stapA, getByte, stapA_type]
  have hfu : (getByte (stapA payload f fs) 0 &&& kTypeMask == kFuA) = false := by
    rw [htype]; rfl
  refine ⟨?_, ?_, ?_⟩
  · intro b hb
    rw [List.mem_singleton.1 hb, stapA, List.length_cons, hlen]; omega
  · intro b hb
    rw [List.mem_singleton.1 hb, fuStartEnd, hfu, Bool.false_and]
  · intro acc
    have hp : parse (stapA payload f fs) = parseSingleNalu (stapA payload f fs) := by
      rw [parse, hfu]; rfl
    have hsp : splitStapA (stapA payload f fs) = (f :: fs).map (nalu payload) := by
      rw [stapA, stapUnits_eq hin]
      refine splitStapA_units _ _ fun u hu => ?_
      obtain ⟨g, hg, rfl⟩ := List.mem_map.1 hu
      rw [nalu, slice_length (hin g hg)]
      exact hlt g hg
    simp only [depacketize, List.foldl_cons, List.foldl_nil, deliver, hp, parseSingleNalu, htype,
      beq_self_eq_true, hsp]

/-- What a group queued by `PacketizeStapA` sends: the NAL unit itself, or a
STAP-A when it has company. -/
def groupPayload (payload : Bytes) (f : Fragment) : List Fragment → Bytes
  | [] => nalu payload f
  | g :: fs => stapA payload f (g :: fs)

theorem sent_group (payload : Bytes) (f : Fragment) (fs : List Fragment) (Q : List Packet) :
    (sent payload
        (markBack (aggPacket payload true f :: fs.map (aggPacket payload false)) ++ Q)).map
        Prod.fst = groupPayload payload f fs :: (sent payload Q).map Prod.fst := by
  cases fs with
  | nil =>
    have hn : nextPacket payload (markBack [aggPacket payload true f] ++ Q) =
        some (nalu payload f, Q.isEmpty, Q) := by
      simp [markBack, aggPacket, nextPacket, nalu]
    rw [List.map_nil, sent_step hn, List.map_cons]
    rfl
  | cons g fs =>
    have hl := aggregateLoop_group payload Q (g :: fs) f true
    rw [List.map_cons, markBack_cons_cons, List.cons_append] at hl ⊢
    have hn : nextPacket payload (aggPacket payload true f ::
          (markBack (aggPacket payload false g :: fs.map (aggPacket payload false)) ++ Q)) =
        some (stapA payload f (g :: fs), Q.isEmpty, Q) := by
      simp only [nextPacket, nextAggregatePacket, hl]
      rfl
    rw [sent_step hn, List.map_cons]
    rfl

theorem carries_group {payload : Bytes} {maxLen : Nat} {f : Fragment} {fs : List Fragment}
    (hm : maxLen ≤ 65535) (hs : f.length + stapSize fs + (if fs ≠ [] then 3 else 0) ≤ maxLen)
    (hw : ∀ g ∈ f :: fs, g.WF payload) :
    Carries maxLen [groupPayload payload f fs] ((f :: fs).map (nalu payload)) := by
  cases fs with
  | nil =>
    refine carries_single ?_ (hw f (List.mem_cons_self ..))
    simp only [ne_eq, not_true_eq_false, if_false] at hs
    omega
  | cons g fs =>
    refine carries_stapA hm ?_ hw
    simp only [ne_eq, reduceCtorEq, not_false_eq_true, if_true] at hs
    have : stapSize (f :: g :: fs) = 2 + f.length + stapSize (g :: fs) := by
      simp [stapSize, kLengthFieldSize]
    omega

/-- The group `PacketizeStapA` appends to the queue. -/
theorem packetizeStapA_spec (payload : Bytes) (maxLen : Nat) (q : List Packet) (f : Fragment)
    (rest : List Fragment) (hf : f.length ≤ maxLen) :
    ∃ taken rest', rest = taken ++ rest' ∧
      packetizeStapA payload maxLen q f rest =
        (q ++ markBack (aggPacket payload true f :: taken.map (aggPacket payload false)), rest') ∧
      f.length + stapSize taken + (if taken ≠ [] then 3 else 0) ≤ maxLen := by
  obtain ⟨taken, rest', hr, he, hs⟩ := stapALoop_spec payload rest maxLen 0 0 f (by omega)
  refine ⟨taken, rest', hr, ?_, by simpa using hs⟩
  simp only [packetizeStapA, he, markBack_append, beq_self_eq_true]

/-- The queue is only appended to. -/
theorem generatePackets_append (payload : Bytes) (maxLen : Nat) : ∀ (n : Nat)
    (fs : List Fragment) (q : List Packet),
    generatePackets payload maxLen n fs q = q ++ generatePackets payload maxLen n fs [] := by
  intro n
  induction n with
  | zero => intro fs q; simp [generatePackets]
  | succ n ih =>
    intro fs q
    cases fs with
    | nil => simp [generatePackets]
    | cons f rest =>
      simp only [generatePackets]
      split
      · rw [ih rest (q ++ _), ih rest ([] ++ _), List.nil_append, List.append_assoc]
      · rename_i hf
        obtain ⟨taken, rest', -, he, -⟩ :=
          stapALoop_spec payload rest maxLen 0 0 f (by omega)
        simp only [packetizeStapA, he, markBack_append, List.nil_append]
        rw [ih rest' (q ++ _), ih rest' (markBack _), List.append_assoc]

/-- Round by round: a NAL unit above the limit goes out as FU-A fragments,
any other opens a group. -/
theorem generatePackets_carries {payload : Bytes} {maxLen : Nat} (h3 : 3 ≤ maxLen)
    (hm : maxLen ≤ 65535) : ∀ (n : Nat) (fs : List Fragment), fs.length ≤ n →
    (∀ f ∈ fs, f.WF payload) →
    Carries maxLen ((sent payload (generatePackets payload maxLen n fs [])).map Prod.fst)
      (fs.map (nalu payload)) := by
  intro n
  induction n with
  | zero =>
    intro fs hn _
    obtain rfl : fs = [] := List.eq_nil_of_length_eq_zero (by omega)
    exact Carries.nil maxLen
  | succ n ih =>
    intro fs hn hw
    cases fs with
    | nil => exact Carries.nil maxLen
    | cons f rest =>
      simp only [generatePackets]
      split
      · rename_i hf
        rw [List.nil_append, generatePackets_append,
          sent_fuA payload _ _ _ _ (packetizeFuA_packets h3 hf)]
        exact (carries_fuA h3 hf (hw f (List.mem_cons_self ..))).append
          (ih rest (by simp at hn; omega) fun g hg => hw g (List.mem_cons_of_mem _ hg))
      · rename_i hf
        obtain ⟨taken, rest', rfl, he, hs⟩ :=
          packetizeStapA_spec payload maxLen [] f rest (by omega)
        rw [he, generatePackets_append, List.nil_append, sent_group]
        have hg : Carries maxLen [groupPayload payload f taken] ((f :: taken).map (nalu payload)) :=
          carries_group hm hs fun g hg => hw g (by
            rcases List.mem_cons.1 hg with rfl | hg
            · exact List.mem_cons_self ..
            · exact List.mem_cons_of_mem _ (List.mem_append_left _ hg))
        have hrest := ih rest' (by simp at hn; omega) fun g hg =>
          hw g (List.mem_cons_of_mem _ (List.mem_append_right _ hg))
        simpa using hg.append hrest

theorem wf_of_nalu {payload : Bytes} {f : Fragment} (hin : f.offset + f.length ≤ payload.length)
    (hne : nalu payload f ≠ []) (h1 : 1 ≤ (getByte (nalu payload f) 0 &&& kTypeMask).toNat)
    (h23 : (getByte (nalu payload f) 0 &&& kTypeMask).toNat ≤ 23) : f.WF payload := by
  have hpos : 0 < f.length := by
    have := List.length_pos_iff.2 hne
    rwa [nalu, slice_length hin] at this
  rw [getByte_slice_zero payload f hpos] at h1 h23
  exact ⟨hpos, hin, h1, h23⟩

/-- The round trip: for every list of NAL units, wherever the fragmentation
header finds them in the payload, the packets drain the queue, fit the limit,
flag the last one only, never carry S and E together, and depacketize to the
NAL units in order. -/
theorem h264_roundtrip (nalus : List Bytes) (payload : Bytes) (frags : List Fragment)
    (maxLen : Nat) (h3 : 3 ≤ maxLen) (hm : maxLen ≤ 65535)
    (hin : ∀ f ∈ frags, f.offset + f.length ≤ payload.length)
    (hnalus : frags.map (nalu payload) = nalus)
    (htypes : ∀ u ∈ nalus, u ≠ [] ∧ 1 ≤ (getByte u 0 &&& kTypeMask).toNat ∧
      (getByte u 0 &&& kTypeMask).toNat ≤ 23) :
    (packetize payload maxLen frags).2 = [] ∧
    (∀ p ∈ (packetize payload maxLen frags).1, p.1.length ≤ maxLen ∧ fuStartEnd p.1 = false) ∧
    (∀ i b l, (packetize payload maxLen frags).1[i]? = some (b, l) →
      (l = true ↔ i + 1 = (packetize payload maxLen frags).1.length)) ∧
    depacketize [] ((packetize payload maxLen frags).1.map Prod.fst) = nalus := by
  subst hnalus
  have hw : ∀ f ∈ frags, f.WF payload := by
    intro f hf
    obtain ⟨hne, h1, h23⟩ := htypes _ (List.mem_map_of_mem hf)
    exact wf_of_nalu (hin f hf) hne h1 h23
  have hc := generatePackets_carries h3 hm frags.length frags (Nat.le_refl _) hw
  obtain ⟨hd, hl⟩ := sendAll_drains payload (setPayloadData payload maxLen frags)
  refine ⟨hd, ?_, hl, ?_⟩
  · intro p hp
    have hp' := List.mem_map_of_mem (f := Prod.fst) hp
    exact ⟨hc.fits _ hp', hc.noStartEnd _ hp'⟩
  · have := hc.delivers []
    rwa [List.nil_append] at this

/-- One NAL unit cut in two fragments, then two aggregated ones. -/
theorem h264_roundtrip_fua_stapA :
    let payload : Bytes := [0x65, 1, 2, 3, 4, 5, 6, 7, 8, 9, 0x41, 9, 0x01]
    let frags : List Fragment := [⟨0, 10⟩, ⟨10, 2⟩, ⟨12, 1⟩]
    (packetize payload 9 frags).1.length = 3 ∧
    depacketize [] ((packetize payload 9 frags).1.map Prod.fst) =
      [[0x65, 1, 2, 3, 4, 5, 6, 7, 8, 9], [0x41, 9], [0x01]] :=
  ⟨by decide, (h264_roundtrip [[0x65, 1, 2, 3, 4, 5, 6, 7, 8, 9], [0x41, 9], [0x01]]
    [0x65, 1, 2, 3, 4, 5, 6, 7, 8, 9, 0x41, 9, 0x01] [⟨0, 10⟩, ⟨10, 2⟩, ⟨12, 1⟩] 9 (by decide)
    (by decide) (by decide) (by decide) (by decide)).2.2.2⟩

end RtcCore.L1.H264
