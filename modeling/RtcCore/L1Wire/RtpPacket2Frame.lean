import RtcCore.Core.Bytes
import RtcCore.Core.LTS

/-!
# `RtpPacket2Frame`

The reassembly of H.264 frames from RTP packets that carry their own length in
the header extension: one call gets those packets of a frame that have arrived,
one behind the other, and counts what is missing with `int` differences of the
16-bit sequence numbers. Neither the count nor the comparison with the last
number of the call before knows of the wrap from 65535 to 0.

Results:
- `reassembly_correct`: in every run of calls none of which gets all packets of
  a frame whose numbers wrap, or the packet 0 right after 65535, completeness,
  continuity, the count and the data are what they should be.
- `wrapped_frame_incomplete`: a frame of two packets, all there, is incomplete.
-/
namespace RtcCore.L1

open Bytes

namespace EncPacket

/-! ## Fields, at their places in `RTP_FIXED_HEADER` and `EXTEND_HEADER`
mirrors webrtc/base/basetype.h:5-34 -/

variable (d : Bytes)

def seqNo : Nat := beValue (slice d 2 2)
def extension : Bool := getByte d 0 &&& 0x10 != 0
def marker : Bool := getByte d 1 &&& 0x80 != 0
def extendLength : Nat := beValue (slice d 14 2)
def rtpLen : Nat := beValue (slice d 16 2)
def firstPacket : Bool := getByte d 18 &&& 0x40 != 0
def keyframe : Bool := getByte d 18 &&& 0x80 != 0

end EncPacket

structure RtpPacket2Frame where
  seqNum : Nat := 0
  frameData : Bytes := []
  frameLen : Nat := 0
  frameComplete : Bool := false
  frameContinuous : Bool := false
  keyframe : Bool := false
  missingCount : Int := 0
  init : Bool := true
  deriving DecidableEq, Repr

namespace RtpPacket2Frame

/-- The local variables of `ParseRtpPackets`, with the object. -/
structure Parsing where
  frame : RtpPacket2Frame
  gotFirst : Bool := false
  gotLast : Bool := false

def startCode : Bytes := [0, 0, 0, 1]

/-- What the payload of `len` octets from `off` adds to the frame; no value: too short.
mirrors webrtc/modules/av_coding/codecs/ffmpeg/main/source/rtp_enc_h264.cc:100-146 -/
def unitOf (payload : Bytes) : Option Bytes :=
  let fuInd := getByte payload 0
  if fuInd &&& 0x1f = 28 then
    if payload.length < 2 then none
    else
      let fuHdr := getByte payload 1
      if fuHdr &&& 0x80 ≠ 0 then
        some (startCode ++ ((fuInd &&& 0xe0) ||| (fuHdr &&& 0x1f)) :: payload.drop 2)
      else some (payload.drop 2)
  else some (startCode ++ payload)

/-- The head of a pass: the sequence number is compared and counted.
mirrors webrtc/modules/av_coding/codecs/ffmpeg/main/source/rtp_enc_h264.cc:60-72 -/
def count (lastSeqNum seqnum : Nat) (f : RtpPacket2Frame) : RtpPacket2Frame :=
  let f :=
    if f.init then { f with init := false, frameContinuous := true, seqNum := seqnum }
    else if lastSeqNum + 1 = seqnum then { f with frameContinuous := true }
    else f
  { f with missingCount := f.missingCount + ((seqnum : Int) - f.seqNum - 1), seqNum := seqnum }

/-- mirrors webrtc/modules/av_coding/codecs/ffmpeg/main/source/rtp_enc_h264.cc:82-94 -/
def flags (d : Bytes) (p : Parsing) : Parsing where
  frame := { p.frame with
    missingCount := if EncPacket.firstPacket d then 0 else p.frame.missingCount
    keyframe := p.frame.keyframe || EncPacket.keyframe d }
  gotFirst := p.gotFirst || EncPacket.firstPacket d
  gotLast := p.gotLast || EncPacket.marker d

/-- Whether the loop ran to the end. Every pass takes a packet off, so as many passes as there
are octets are enough.
mirrors webrtc/modules/av_coding/codecs/ffmpeg/main/source/rtp_enc_h264.cc:57-150 -/
def parseLoop (lastSeqNum : Nat) : Nat → Bytes → Parsing → Bool × Parsing
  | 0, _, p => (true, p)
  | fuel + 1, d, p =>
    if d.length ≤ 12 then (true, p)
    else
      let p := { p with frame := p.frame.count lastSeqNum (EncPacket.seqNo d) }
      if !EncPacket.extension d ∨ d.length < 12 + 8 then (false, p)
      else
        let extLen := (EncPacket.extendLength d + 1) * 4
        let rtpLen := EncPacket.rtpLen d
        let p := flags d p
        if extLen ≠ 8 ∨ rtpLen ≤ 12 + extLen ∨ d.length < rtpLen then (false, p)
        else
          match unitOf (slice d 20 (rtpLen - 20)) with
          | none => (false, p)
          | some data =>
            parseLoop lastSeqNum fuel (d.drop rtpLen)
              { p with frame := { p.frame with frameData := p.frame.frameData ++ data } }

/-- mirrors webrtc/modules/av_coding/codecs/ffmpeg/main/source/rtp_enc_h264.cc:39-154 -/
def parseRtpPackets (f : RtpPacket2Frame) (data : Bytes) : RtpPacket2Frame :=
  let f := { f with
    frameLen := 0, frameComplete := false, frameContinuous := false, keyframe := false
    missingCount := 0, frameData := [] }
  if data.length < 12 then f
  else
    match parseLoop f.seqNum data.length data { frame := f } with
    | (false, p) => p.frame
    | (true, p) =>
      { p.frame with
        frameLen := p.frame.frameData.length
        frameComplete := p.gotFirst && p.gotLast && p.frame.missingCount = 0 }

/-- mirrors webrtc/modules/av_coding/codecs/ffmpeg/main/source/rtp_enc_h264.cc:156-163 -/
def getFrameData (f : RtpPacket2Frame) : Bytes := if f.frameLen ≤ 0 then [] else f.frameData

/-! ## Frames -/

/-- A packet of the format: the extension in place, the length its own, a payload of a kind. -/
structure WellFormed (p : Bytes) : Prop where
  extension : EncPacket.extension p = true
  extendLength : EncPacket.extendLength p = 1
  rtpLen : EncPacket.rtpLen p = p.length
  payload : 20 < p.length
  unit : (unitOf (p.drop 20)).isSome = true

/-- The fragments behind the first one. -/
def laterFragments (indicator type : UInt8) (bodies : List Bytes) (payloads : List Bytes) : Prop :=
  payloads.length = bodies.length ∧ ∀ i (h : i < payloads.length) (h' : i < bodies.length),
    ∃ header : UInt8, header &&& 0x80 = 0 ∧ header &&& 0x1f = type ∧
      payloads[i] = indicator :: header :: bodies[i]

/-- Payloads that carry NAL units: as they are, or in fragments. -/
inductive Carries : List Bytes → List Bytes → Prop
  | nil : Carries [] []
  | single {nal : Bytes} {payloads nals : List Bytes} (hne : nal ≠ [])
      (htype : getByte nal 0 &&& 0x1f ≠ 28) (rest : Carries payloads nals) :
      Carries (nal :: payloads) (nal :: nals)
  | fragments {header indicator fuHdr : UInt8} {body : Bytes} {bodies later payloads nals : List Bytes}
      (hind : indicator &&& 0x1f = 28) (hnri : indicator &&& 0xe0 = header &&& 0xe0)
      (hstart : fuHdr &&& 0x80 ≠ 0) (htype : fuHdr &&& 0x1f = header &&& 0x1f)
      (hlater : laterFragments indicator (header &&& 0x1f) bodies later)
      (rest : Carries payloads nals) :
      Carries ((indicator :: fuHdr :: body) :: later ++ payloads)
        ((header :: (body ++ bodies.flatten)) :: nals)

/-- The packets of one frame, numbered from `start`. -/
structure IsFrame (start : Nat) (packets nals : List Bytes) : Prop where
  formed : ∀ p ∈ packets, WellFormed p
  number : ∀ i (h : i < packets.length), EncPacket.seqNo packets[i] = (start + i) % 65536
  first : ∀ i (h : i < packets.length), EncPacket.firstPacket packets[i] = true ↔ i = 0
  last : ∀ i (h : i < packets.length), EncPacket.marker packets[i] = true ↔ i + 1 = packets.length
  units : Carries (packets.map (·.drop 20)) nals

/-- A call: a frame, and those of its packets that are there. -/
structure Call where
  start : Nat
  packets : List Bytes
  nals : List Bytes
  given : List Bytes
  frame : IsFrame start packets nals
  sub : given.Sublist packets
  nonempty : given ≠ []

/-! ## The loop over well-formed packets -/

/-- One pass over a well-formed packet. -/
def takePacket (lastSeqNum : Nat) (p : Parsing) (d : Bytes) : Parsing :=
  let p := flags d { p with frame := p.frame.count lastSeqNum (EncPacket.seqNo d) }
  { p with frame := { p.frame with
      frameData := p.frame.frameData ++ (unitOf (d.drop 20)).getD [] } }

theorem parseLoop_packet {lastSeqNum fuel : Nat} {d rest : Bytes} (h : WellFormed d) (p : Parsing) :
    parseLoop lastSeqNum (fuel + 1) (d ++ rest) p =
      parseLoop lastSeqNum fuel rest (takePacket lastSeqNum p d) := by
  have hlen := h.payload
  have hseq : EncPacket.seqNo (d ++ rest) = EncPacket.seqNo d := by
    rw [EncPacket.seqNo, slice_append_left rest (by omega)]
    rfl
  have hext : EncPacket.extension (d ++ rest) = true := by
    rw [EncPacket.extension, getByte_append_left rest (by omega)]
    exact h.extension
  have hextLen : EncPacket.extendLength (d ++ rest) = 1 := by
    rw [EncPacket.extendLength, slice_append_left rest (by omega)]
    exact h.extendLength
  have hrtp : EncPacket.rtpLen (d ++ rest) = d.length := by
    rw [EncPacket.rtpLen, slice_append_left rest (by omega)]
    exact h.rtpLen
  have hflags : ∀ q : Parsing, flags (d ++ rest) q = flags d q := by
    intro q
    have h18 := getByte_append_left rest (p := d) (i := 18) (by omega)
    have h1 := getByte_append_left rest (p := d) (i := 1) (by omega)
    have hf : EncPacket.firstPacket (d ++ rest) = EncPacket.firstPacket d := by
      rw [EncPacket.firstPacket, h18, EncPacket.firstPacket]
    have hk : EncPacket.keyframe (d ++ rest) = EncPacket.keyframe d := by
      rw [EncPacket.keyframe, h18, EncPacket.keyframe]
    have hm : EncPacket.marker (d ++ rest) = EncPacket.marker d := by
      rw [EncPacket.marker, h1, EncPacket.marker]
    rw [flags, flags, hf, hk, hm]
  have hpay : slice (d ++ rest) 20 (d.length - 20) = d.drop 20 := by
    rw [slice_append_left rest (by omega), slice,
      List.take_of_length_le (Nat.le_of_eq List.length_drop)]
  obtain ⟨unit, hunit⟩ := Option.isSome_iff_exists.1 h.unit
  rw [parseLoop, if_neg (by rw [List.length_append]; omega)]
  dsimp only
  rw [hseq, hext, if_neg (by simp only [List.length_append]; simp; omega), hextLen, hrtp, hflags,
    if_neg (by rw [List.length_append]; omega), hpay, hunit, List.drop_left, takePacket, hunit]
  rfl

theorem parseLoop_flatten {lastSeqNum : Nat} : ∀ {ps : List Bytes} {fuel : Nat} (p : Parsing),
    (∀ d ∈ ps, WellFormed d) → ps.flatten.length ≤ fuel →
    parseLoop lastSeqNum fuel ps.flatten p = (true, ps.foldl (takePacket lastSeqNum) p)
  | [], fuel, p, _, _ => by
    cases fuel with
    | zero => rfl
    | succ fuel => exact if_pos (Nat.zero_le _)
  | d :: ps, fuel, p, h, hf => by
    have hd := h d List.mem_cons_self
    have hlen := hd.payload
    rw [List.flatten_cons, List.length_append] at hf
    obtain ⟨fuel, rfl⟩ : ∃ n, fuel = n + 1 := ⟨fuel - 1, by omega⟩
    rw [List.flatten_cons, parseLoop_packet hd, List.foldl_cons]
    exact parseLoop_flatten _ (fun x hx => h x (List.mem_cons_of_mem _ hx)) (by omega)

/-- What the loop has computed behind the first packet. -/
structure Folded (lastSeqNum : Nat) (ps : List Bytes) (p q : Parsing) : Prop where
  first : q.gotFirst = (p.gotFirst || ps.any EncPacket.firstPacket)
  last : q.gotLast = (p.gotLast || ps.any EncPacket.marker)
  data : q.frame.frameData = p.frame.frameData ++ ps.flatMap fun d => (unitOf (d.drop 20)).getD []
  init : q.frame.init = false
  continuous : q.frame.frameContinuous =
    (p.frame.frameContinuous || ps.any fun d => lastSeqNum + 1 = EncPacket.seqNo d)
  number : q.frame.seqNum = ((ps.getLast?).map EncPacket.seqNo).getD p.frame.seqNum
  missing : ps.any EncPacket.firstPacket = false →
    q.frame.missingCount = p.frame.missingCount + ((q.frame.seqNum : Int) - p.frame.seqNum - ps.length)

/-- Behind the first packet of all. -/
theorem count_later {f : RtpPacket2Frame} (h : f.init = false) (lastSeqNum seqnum : Nat) :
    f.count lastSeqNum seqnum = { f with
      frameContinuous := f.frameContinuous || lastSeqNum + 1 = seqnum
      missingCount := f.missingCount + ((seqnum : Int) - f.seqNum - 1)
      seqNum := seqnum } := by
  rw [count, h]
  by_cases hc : lastSeqNum + 1 = seqnum
  · simp [hc]
  · simp [hc, h]

theorem folded (lastSeqNum : Nat) : ∀ (ps : List Bytes) (p : Parsing), p.frame.init = false →
    Folded lastSeqNum ps p (ps.foldl (takePacket lastSeqNum) p)
  | [], p, h => by
    refine ⟨by simp, by simp, by simp, h, by simp, rfl, fun _ => ?_⟩
    simp only [List.foldl_nil, List.length_nil]
    omega
  | d :: ps, p, h => by
    have htake : takePacket lastSeqNum p d = {
        frame := { p.frame with
          frameContinuous := p.frame.frameContinuous || lastSeqNum + 1 = EncPacket.seqNo d
          missingCount := if EncPacket.firstPacket d then 0
            else p.frame.missingCount + ((EncPacket.seqNo d : Int) - p.frame.seqNum - 1)
          seqNum := EncPacket.seqNo d
          keyframe := p.frame.keyframe || EncPacket.keyframe d
          frameData := p.frame.frameData ++ (unitOf (d.drop 20)).getD [] }
        gotFirst := p.gotFirst || EncPacket.firstPacket d
        gotLast := p.gotLast || EncPacket.marker d } := by
      simp only [takePacket, count_later h]
      rfl
    have ih := folded lastSeqNum ps (takePacket lastSeqNum p d) (by rw [htake]; exact h)
    rw [List.foldl_cons]
    generalize ps.foldl (takePacket lastSeqNum) (takePacket lastSeqNum p d) = q at ih ⊢
    rw [htake] at ih
    refine ⟨?_, ?_, ?_, ih.init, ?_, ?_, fun hno => ?_⟩
    · rw [ih.first, List.any_cons, Bool.or_assoc]
    · rw [ih.last, List.any_cons, Bool.or_assoc]
    · rw [ih.data, List.flatMap_cons, List.append_assoc]
    · rw [ih.continuous, List.any_cons, Bool.or_assoc]
    · rw [ih.number]
      cases ps with
      | nil => rfl
      | cons x ps =>
        rw [List.getLast?_cons_cons]
        cases hl : (x :: ps).getLast? with
        | none => exact absurd hl (by simp)
        | some y => rfl
    · rw [List.any_cons, Bool.or_eq_false_iff] at hno
      rw [ih.missing hno.2, List.length_cons]
      simp only [hno.1, Bool.false_eq_true, if_false]
      omega

/-! ## The data of a frame -/

theorem fragment_units {indicator type : UInt8} (hind : indicator &&& 0x1f = 28) :
    ∀ {bodies payloads : List Bytes}, laterFragments indicator type bodies payloads →
      payloads.flatMap (fun d => (unitOf d).getD []) = bodies.flatten
  | [], payloads, h => by
    rw [List.eq_nil_of_length_eq_zero h.1]
    rfl
  | body :: bodies, [], h => by cases h.1
  | body :: bodies, payload :: payloads, h => by
    obtain ⟨header, hs, -, heq⟩ := h.2 0 (by simp) (by simp)
    have heq : payload = indicator :: header :: body := heq
    have hunit : unitOf payload = some body := by
      rw [heq, unitOf]
      change (if indicator &&& 0x1f = 28 then _ else _) = _
      rw [if_pos hind, if_neg (by simp)]
      change (if header &&& 0x80 ≠ 0 then _ else _) = _
      rw [if_neg fun hc => hc hs]
      rfl
    have hrest : laterFragments indicator type bodies payloads := by
      refine ⟨Nat.succ.inj h.1, fun i h1 h2 => ?_⟩
      have := h.2 (i + 1) (by simpa using h1) (by simpa using h2)
      simpa using this
    rw [List.flatMap_cons, List.flatten_cons, hunit, fragment_units hind hrest]
    rfl

theorem Carries.units {payloads nals : List Bytes} (h : Carries payloads nals) :
    payloads.flatMap (fun d => (unitOf d).getD []) = nals.flatMap (startCode ++ ·) := by
  induction h with
  | nil => rfl
  | @single nal payloads nals hne htype rest ih =>
    have hunit : unitOf nal = some (startCode ++ nal) := by
      rw [unitOf]
      exact if_neg htype
    rw [List.flatMap_cons, List.flatMap_cons, hunit, ih]
    rfl
  | @fragments header indicator fuHdr body bodies later payloads nals hind hnri hstart htype hlater
      rest ih =>
    have hheader : (indicator &&& 0xe0) ||| (fuHdr &&& 0x1f) = header := by
      rw [hnri, htype]
      exact forall_uint8 (P := fun x => (x &&& 0xe0) ||| (x &&& 0x1f) = x) (by decide) header
    have hunit : unitOf (indicator :: fuHdr :: body) = some (startCode ++ header :: body) := by
      rw [unitOf]
      change (if indicator &&& 0x1f = 28 then _ else _) = _
      rw [if_pos hind, if_neg (by simp)]
      change (if fuHdr &&& 0x80 ≠ 0 then _ else _) = _
      rw [if_pos hstart, ← hheader]
      rfl
    rw [List.cons_append, List.flatMap_cons, List.flatMap_append, List.flatMap_cons, hunit, ih,
      fragment_units hind hlater]
    simp only [Option.getD_some, List.append_assoc, List.cons_append]

/-! ## One call -/

/-- The wrap from 65535 to 0 is not met: not in a frame all of whose packets are there, and not
between the last packet of the call before and one of these. -/
structure NoWrap (first : Prop) (f : RtpPacket2Frame) (call : Call) : Prop where
  size : call.packets.length ≤ 65536
  within : call.given = call.packets → call.start % 65536 + call.packets.length ≤ 65536
  between : ¬first → f.seqNum = 65535 → ∀ d ∈ call.given, EncPacket.seqNo d ≠ 0

/-- What a call must have found; `first`: there was none before it. -/
structure Correct (first : Prop) (f : RtpPacket2Frame) (call : Call) (f' : RtpPacket2Frame) :
    Prop where
  complete : f'.frameComplete = true ↔ call.given = call.packets
  continuous : f'.frameContinuous = true ↔
    first ∨ ∃ d ∈ call.given, EncPacket.seqNo d = (f.seqNum + 1) % 65536
  missing : f'.frameComplete = true → f'.missingCount = 0
  data : f'.frameComplete = true → f'.getFrameData = call.nals.flatMap (startCode ++ ·)

variable {f : RtpPacket2Frame} {call : Call}

/-- The object when the loop starts. -/
def reset (f : RtpPacket2Frame) : RtpPacket2Frame :=
  { f with
    frameLen := 0, frameComplete := false, frameContinuous := false, keyframe := false
    missingCount := 0, frameData := [] }

theorem parseRtpPackets_eq (f : RtpPacket2Frame) (call : Call) :
    f.parseRtpPackets call.given.flatten =
      let q := call.given.foldl (takePacket f.seqNum) { frame := f.reset }
      { q.frame with
        frameLen := q.frame.frameData.length
        frameComplete := q.gotFirst && q.gotLast && q.frame.missingCount = 0 } := by
  have hformed : ∀ d ∈ call.given, WellFormed d := fun d hd =>
    call.frame.formed d (call.sub.subset hd)
  have hlong : 12 ≤ call.given.flatten.length := by
    cases hg : call.given with
    | nil => exact absurd hg call.nonempty
    | cons d ps =>
      have := (hformed d (hg ▸ List.mem_cons_self)).payload
      rw [List.flatten_cons, List.length_append]
      omega
  rw [parseRtpPackets, if_neg (by omega)]
  change (match parseLoop f.seqNum _ _ { frame := f.reset } with
    | (false, p) => p.frame
    | (true, p) => _) = _
  rw [parseLoop_flatten _ hformed (Nat.le_refl _)]

/-- The first packet. -/
theorem takePacket_first (f : RtpPacket2Frame) (d : Bytes) :
    (takePacket f.seqNum { frame := f.reset } d).gotFirst = EncPacket.firstPacket d ∧
    (takePacket f.seqNum { frame := f.reset } d).gotLast = EncPacket.marker d ∧
    (takePacket f.seqNum { frame := f.reset } d).frame.frameData = (unitOf (d.drop 20)).getD [] ∧
    (takePacket f.seqNum { frame := f.reset } d).frame.init = false ∧
    (takePacket f.seqNum { frame := f.reset } d).frame.frameContinuous =
      (f.init || f.seqNum + 1 = EncPacket.seqNo d) ∧
    (takePacket f.seqNum { frame := f.reset } d).frame.seqNum = EncPacket.seqNo d ∧
    (EncPacket.firstPacket d = true →
      (takePacket f.seqNum { frame := f.reset } d).frame.missingCount = 0) := by
  cases hi : f.init with
  | true =>
    refine ⟨by simp [takePacket, flags], by simp [takePacket, flags], ?_, ?_, ?_, rfl, fun hf => ?_⟩
    · simp [takePacket, flags, count, reset, hi]
    · simp [takePacket, flags, count, reset, hi]
    · simp [takePacket, flags, count, reset, hi]
    · simp [takePacket, flags, hf]
  | false =>
    have hi' : f.reset.init = false := hi
    refine ⟨by simp [takePacket, flags], by simp [takePacket, flags], ?_, ?_, ?_, rfl, fun hf => ?_⟩
    · simp only [takePacket, flags, count_later hi']
      rfl
    · simp only [takePacket, flags, count_later hi', hi']
    · simp only [takePacket, flags, count_later hi']
      rfl
    · simp [takePacket, flags, hf]

/-- Only the first packet of a frame has the flag. -/
theorem first_cases {d : Bytes} {gs : List Bytes} (hg : call.given = d :: gs) :
    gs.any EncPacket.firstPacket = false ∧
      (EncPacket.firstPacket d = true → EncPacket.seqNo d = call.start % 65536) ∧
      (call.given = call.packets → EncPacket.firstPacket d = true) := by
  have hsub := call.sub
  have hframe := call.frame
  cases hp : call.packets with
  | nil =>
    rw [hp, hg] at hsub
    cases hsub
  | cons x fs =>
    rw [hp] at hsub hframe
    have hlater : ∀ y ∈ fs, EncPacket.firstPacket y = false := by
      intro y hy
      obtain ⟨i, hi, rfl⟩ := List.getElem_of_mem hy
      have := hframe.first (i + 1) (by simpa using hi)
      rw [List.getElem_cons_succ] at this
      exact Bool.eq_false_iff.2 fun hc => absurd (this.1 hc) (Nat.succ_ne_zero i)
    have hx := hframe.first 0 (by simp)
    have hn := hframe.number 0 (by simp)
    rw [List.getElem_cons_zero] at hx hn
    rw [hg] at hsub ⊢
    cases hsub with
    | cons _ h =>
      -- the frame's first packet is not there
      refine ⟨List.any_eq_false.2 fun y hy => ?_, fun hf => ?_, fun heq => ?_⟩
      · rw [hlater y (h.subset (List.mem_cons_of_mem _ hy))]
        exact Bool.false_ne_true
      · rw [hlater d (h.subset List.mem_cons_self)] at hf
        cases hf
      · have := h.length_le
        rw [heq, List.length_cons] at this
        omega
    | cons_cons _ h =>
      refine ⟨List.any_eq_false.2 fun y hy => ?_, fun _ => hn, fun _ => hx.2 rfl⟩
      rw [hlater y (h.subset hy)]
      exact Bool.false_ne_true

/-- Only the last packet of a frame has the marker. -/
theorem last_cases {gs : List Bytes} {d : Bytes} (hg : call.given = gs ++ [d]) :
    (call.given.any EncPacket.marker = true →
      EncPacket.seqNo d = (call.start + (call.packets.length - 1)) % 65536) ∧
    (call.given = call.packets → call.given.any EncPacket.marker = true ∧
      EncPacket.seqNo d = (call.start + (call.packets.length - 1)) % 65536) := by
  have hsub := call.sub
  have hframe := call.frame
  have hall : call.given = call.packets → call.given.any EncPacket.marker = true ∧
      EncPacket.seqNo d = (call.start + (call.packets.length - 1)) % 65536 := by
    intro heq
    have hlen : call.packets.length = gs.length + 1 := by rw [← heq, hg]; simp
    have hget : ∀ h : gs.length < call.packets.length, call.packets[gs.length] = d := by
      intro h
      simp only [← heq, hg]
      simp
    have hmark := (hframe.last gs.length (by omega)).2 hlen.symm
    have hnum := hframe.number gs.length (by omega)
    rw [hget] at hmark hnum
    refine ⟨List.any_eq_true.2 ⟨d, by rw [hg]; simp, hmark⟩, ?_⟩
    rw [hnum, hlen, Nat.add_sub_cancel]
  refine ⟨fun hany => ?_, hall⟩
  rcases List.eq_nil_or_concat call.packets with hp | ⟨fs, x, hp⟩
  · rw [hp] at hsub
    rw [List.sublist_nil.1 hsub] at hany
    cases hany
  · rw [List.concat_eq_append] at hp
    have hearlier : ∀ y ∈ fs, EncPacket.marker y = false := by
      intro y hy
      obtain ⟨i, hi, rfl⟩ := List.getElem_of_mem hy
      have hlen : call.packets.length = fs.length + 1 := by rw [hp]; simp
      have := hframe.last i (by omega)
      have hget : call.packets[i] = fs[i] := by
        simp only [hp]
        exact List.getElem_append_left hi
      rw [hget] at this
      exact Bool.eq_false_iff.2 fun hc => by have := this.1 hc; omega
    obtain ⟨y, hy, hmark⟩ := List.any_eq_true.1 hany
    have hrev : (d :: gs.reverse).Sublist (x :: fs.reverse) := by
      have := hsub.reverse
      rw [hg, hp, List.reverse_append, List.reverse_append] at this
      exact this
    have hdx : d = x := by
      cases hrev with
      | cons _ h =>
        -- none of the packets that are there is the last one
        have : y ∈ fs.reverse := h.subset (by rw [hg] at hy; simpa [or_comm] using hy)
        rw [hearlier y (List.mem_reverse.1 this)] at hmark
        cases hmark
      | cons_cons _ h => rfl
    have hnum := hframe.number fs.length (by rw [hp]; simp)
    have hget : ∀ h : fs.length < call.packets.length, call.packets[fs.length] = x := by
      intro h
      simp only [hp]
      simp
    rw [hget] at hnum
    rw [hdx, hnum, hp, List.length_append, List.length_singleton, Nat.add_sub_cancel]

theorem seqNo_lt (d : Bytes) (h : 4 ≤ d.length) : EncPacket.seqNo d < 65536 := by
  have := beValue_lt (slice d 2 2)
  rw [slice_length (by omega)] at this
  exact this

theorem correct_of_noWrap (hs : f.seqNum < 65536) (h : NoWrap (f.init = true) f call) :
    Correct (f.init = true) f call (f.parseRtpPackets call.given.flatten) ∧
      (f.parseRtpPackets call.given.flatten).init = false ∧
      (f.parseRtpPackets call.given.flatten).seqNum < 65536 := by
  rw [parseRtpPackets_eq]
  have hformed : ∀ d ∈ call.given, WellFormed d := fun d hd =>
    call.frame.formed d (call.sub.subset hd)
  have hsize := h.size
  have hlen := call.sub.length_le
  cases hg : call.given with
  | nil => exact absurd hg call.nonempty
  | cons d gs =>
    obtain ⟨hnone, hfirstNo, hfirstAll⟩ := first_cases hg
    obtain ⟨p1, p2, p3, p4, p5, p6, p7⟩ := takePacket_first f d
    have q := folded f.seqNum gs (takePacket f.seqNum { frame := f.reset } d) p4
    rw [List.foldl_cons]
    generalize takePacket f.seqNum { frame := f.reset } d = p at *
    generalize gs.foldl (takePacket f.seqNum) p = r at *
    rw [hg, List.length_cons] at hlen
    have hfirst : r.gotFirst = EncPacket.firstPacket d := by rw [q.first, p1, hnone, Bool.or_false]
    have hlast : r.gotLast = call.given.any EncPacket.marker := by
      rw [q.last, p2, hg, List.any_cons]
    have hmiss : EncPacket.firstPacket d = true →
        r.frame.missingCount = (r.frame.seqNum : Int) - (call.start % 65536 : Nat) - gs.length := by
      intro hf
      rw [q.missing hnone, p7 hf, p6, hfirstNo hf]
      omega
    obtain ⟨gs', x, hx⟩ : ∃ gs' x, call.given = gs' ++ [x] := by
      rcases List.eq_nil_or_concat call.given with hc | ⟨gs', x, hc⟩
      · exact absurd hc call.nonempty
      · exact ⟨gs', x, by rw [hc, List.concat_eq_append]⟩
    obtain ⟨hlastNo, hlastAll⟩ := last_cases hx
    have hnum : r.frame.seqNum = EncPacket.seqNo x := by
      have hgl : (d :: gs).getLast? = some x := by rw [← hg, hx, List.getLast?_concat]
      rw [q.number, p6]
      cases gs with
      | nil =>
        rw [List.getLast?_singleton] at hgl
        cases hgl
        rfl
      | cons y gs =>
        rw [List.getLast?_cons_cons] at hgl
        rw [hgl]
        rfl
    have hpos : 1 ≤ call.packets.length := by omega
    have hcomplete : (r.gotFirst && r.gotLast && decide (r.frame.missingCount = 0)) = true ↔
        call.given = call.packets := by
      rw [Bool.and_eq_true, Bool.and_eq_true, decide_eq_true_eq, hfirst, hlast]
      constructor
      · rintro ⟨⟨hf, hm⟩, h0⟩
        have h1 := hlastNo hm
        rw [hmiss hf, hnum, h1] at h0
        refine call.sub.eq_of_length ?_
        rw [hg, List.length_cons]
        omega
      · intro heq
        obtain ⟨hm, h1⟩ := hlastAll heq
        have hw := h.within heq
        have hll : call.packets.length = gs.length + 1 := by rw [← heq, hg, List.length_cons]
        refine ⟨⟨hfirstAll heq, hm⟩, ?_⟩
        rw [hmiss (hfirstAll heq), hnum, h1]
        omega
    have hxlt : EncPacket.seqNo x < 65536 := by
      have hxm : x ∈ call.given := by rw [hx]; simp
      exact seqNo_lt x (by have := (hformed x hxm).payload; omega)
    refine ⟨⟨hg ▸ hcomplete, ?_, fun hc => ?_, fun hc => ?_⟩, q.init, by rw [← hnum] at hxlt; exact hxlt⟩
    · have hcont : r.frame.frameContinuous =
          (f.init || call.given.any fun d => f.seqNum + 1 = EncPacket.seqNo d) := by
        rw [q.continuous, p5, hg, List.any_cons, Bool.or_assoc]
      change r.frame.frameContinuous = true ↔ _
      rw [hcont, Bool.or_eq_true, List.any_eq_true]
      cases hi : f.init with
      | true => exact ⟨fun _ => .inl rfl, fun _ => .inl rfl⟩
      | false =>
        constructor
        · rintro (hc | ⟨y, hy, hc⟩)
          · cases hc
          · have := of_decide_eq_true hc
            have hyl := seqNo_lt y (by have := (hformed y hy).payload; omega)
            exact .inr ⟨y, hy, by omega⟩
        · rintro (hc | ⟨y, hy, hc⟩)
          · cases hc
          · refine .inr ⟨y, hy, decide_eq_true ?_⟩
            have hne : f.seqNum ≠ 65535 := fun h5 =>
              h.between (by rw [hi]; exact Bool.false_ne_true) h5 y hy (by omega)
            omega
    · have hc := (Bool.and_eq_true _ _ ▸ hc).2
      exact of_decide_eq_true hc
    · have heq := hcomplete.1 hc
      have hdata : r.frame.frameData = call.nals.flatMap (startCode ++ ·) := by
        rw [q.data, p3, ← call.frame.units.units, ← heq, hg, List.map_cons, List.flatMap_cons,
          List.flatMap_map]
      rw [getFrameData]
      dsimp only
      split
      · rename_i hzero
        rw [← hdata]
        exact (List.eq_nil_of_length_eq_zero (Nat.le_zero.1 hzero)).symm
      · exact hdata

/-! ## Runs of calls -/

/-- The object, and the number the next frame starts with. -/
structure Stream where
  parser : RtpPacket2Frame := {}
  next : Option Nat := none

/-- Calls with one frame after the other, whose numbers follow on. -/
def calls : LTS Stream Call where
  init s := s = {}
  step s call s' :=
    (∀ n, s.next = some n → call.start % 65536 = n % 65536) ∧
      s' = { parser := s.parser.parseRtpPackets call.given.flatten
             next := some (call.start + call.packets.length) }

/-- No call meets the wrap. -/
def callsWithoutWrap : LTS Stream Call :=
  calls.within fun s call => NoWrap (s.next = none) s.parser call

theorem callsWithoutWrap_inductive : callsWithoutWrap.Inductive fun s =>
    (s.parser.init = true ↔ s.next = none) ∧ s.parser.seqNum < 65536 where
  init s h := by
    cases h
    exact ⟨⟨fun _ => rfl, fun _ => rfl⟩, by decide⟩
  step s call s' h hstep := by
    obtain ⟨hinit, hs⟩ := h
    obtain ⟨hw, -, rfl⟩ := hstep
    rw [← propext hinit] at hw
    obtain ⟨-, h1, h2⟩ := correct_of_noWrap hs hw
    exact ⟨⟨fun hc => absurd (h1.symm.trans hc) Bool.false_ne_true, fun hc => nomatch hc⟩, h2⟩

theorem reassembly_correct {s s' : Stream} {call : Call} (hr : callsWithoutWrap.Reachable s)
    (hstep : callsWithoutWrap.step s call s') :
    Correct (s.next = none) s.parser call s'.parser := by
  obtain ⟨hinit, hs⟩ := callsWithoutWrap_inductive.reachable s hr
  obtain ⟨hw, -, rfl⟩ := hstep
  rw [← propext hinit] at hw ⊢
  exact (correct_of_noWrap hs hw).1

/-- A packet with one NAL unit: the flags in the second octet and the one behind the length. -/
def packet (seqHi seqLo marker flags : UInt8) (nal : Bytes) : Bytes :=
  [0x10, marker, seqHi, seqLo, 0, 0, 0, 0, 0, 0, 0, 0,
    0, 0, 0, 1, 0, (20 + nal.length).toUInt8, flags, 0] ++ nal

instance (p : Bytes) : Decidable (WellFormed p) :=
  decidable_of_iff (EncPacket.extension p = true ∧ EncPacket.extendLength p = 1 ∧
      EncPacket.rtpLen p = p.length ∧ 20 < p.length ∧ (unitOf (p.drop 20)).isSome = true)
    ⟨fun ⟨h1, h2, h3, h4, h5⟩ => ⟨h1, h2, h3, h4, h5⟩, fun h => ⟨h.1, h.2, h.3, h.4, h.5⟩⟩

/-- A unit by itself, and one in two fragments. -/
def mixedFrame : Call where
  start := 65533
  packets := [packet 0xff 0xfd 0 0xc0 [0x67, 1], packet 0xff 0xfe 0 0x80 [0x7c, 0x85, 2, 3],
    packet 0xff 0xff 0x80 0x80 [0x7c, 0x45, 4]]
  nals := [[0x67, 1], [0x65, 2, 3, 4]]
  given := [packet 0xff 0xfd 0 0xc0 [0x67, 1], packet 0xff 0xfe 0 0x80 [0x7c, 0x85, 2, 3],
    packet 0xff 0xff 0x80 0x80 [0x7c, 0x45, 4]]
  frame := {
    formed := by decide
    number := by decide
    first := by decide
    last := by decide
    units := .single (by decide) (by decide) <|
      @Carries.fragments 0x65 0x7c 0x85 [2, 3] [[4]] [[0x7c, 0x45, 4]] [] [] (by decide) (by decide)
        (by decide) (by decide) ⟨rfl, fun i h h' => by
          obtain rfl : i = 0 := Nat.lt_one_iff.1 h
          exact ⟨0x45, by decide, by decide, rfl⟩⟩ .nil }
  sub := List.Sublist.refl _
  nonempty := by decide

theorem mixedFrame_noWrap : NoWrap True {} mixedFrame where
  size := by decide
  within _ := by decide
  between h := absurd trivial h

theorem mixedFrame_correct :
    Correct True {} mixedFrame (parseRtpPackets {} mixedFrame.given.flatten) := by
  have hnext : ((({} : Stream).next = none) : Prop) = True := eq_true rfl
  have hw : NoWrap (({} : Stream).next = none) {} mixedFrame := hnext ▸ mixedFrame_noWrap
  have h := @reassembly_correct {} _ mixedFrame ⟨{}, [], rfl, .nil _⟩
    ⟨hw, fun n hn => (by cases hn), rfl⟩
  rw [hnext] at h
  exact h

/-- Two packets, the second of which is number 0. -/
def wrappedFrame : Call where
  start := 65535
  packets := [packet 0xff 0xff 0 0xc0 [0x67, 1], packet 0 0 0x80 0x80 [0x65, 2]]
  nals := [[0x67, 1], [0x65, 2]]
  given := [packet 0xff 0xff 0 0xc0 [0x67, 1], packet 0 0 0x80 0x80 [0x65, 2]]
  frame := {
    formed := by decide
    number := by decide
    first := by decide
    last := by decide
    units := .single (by decide) (by decide) (.single (by decide) (by decide) .nil) }
  sub := List.Sublist.refl _
  nonempty := by decide

theorem wrapped_frame_incomplete :
    ∃ s, calls.step {} wrappedFrame s ∧ wrappedFrame.given = wrappedFrame.packets ∧
      s.parser.frameComplete = false ∧ s.parser.missingCount = -65536 ∧
      ¬Correct True {} wrappedFrame s.parser := by
  have hinc : (parseRtpPackets {} wrappedFrame.given.flatten).frameComplete = false := by
    decide
  have hmiss : (parseRtpPackets {} wrappedFrame.given.flatten).missingCount = -65536 := by
    decide
  refine ⟨_, ⟨fun n hn => (by cases hn), rfl⟩, rfl, hinc, hmiss, fun h => ?_⟩
  exact Bool.false_ne_true (hinc.symm.trans (h.complete.2 rfl))

end RtpPacket2Frame

end RtcCore.L1
