import RtcCore.L1Wire.VideoHeader

/-!
# Generic payload format

One octet of header (key-frame bit, first-packet bit), then a slice of the
frame. The payload is split into packets of equal size; `NextPacket` is
called until it reports the last packet.
-/
namespace RtcCore.L1.Generic

open Bytes

def kKeyFrameBit : UInt8 := 0x01
def kFirstPacketBit : UInt8 := 0x02
def kGenericHeaderLength : Nat := 1

/-- `payload` is what `payload_data_` and `payload_size_` still hold.
mirrors webrtc/modules/rtp_rtcp/source/rtp_format_video_generic.h:59-66 -/
structure Packetizer where
  payload : Bytes
  payloadLength : Nat
  frameType : FrameType
  genericHeader : UInt8
  deriving DecidableEq, Repr

/-- mirrors webrtc/modules/rtp_rtcp/source/rtp_format_video_generic.cc:20-46 -/
def setPayloadData (frameType : FrameType) (maxPayloadLen : Nat) (payload : Bytes) : Packetizer :=
  let maxLen := maxPayloadLen - kGenericHeaderLength
  let numPackets := (payload.length + maxLen - 1) / maxLen
  { payload, frameType
    payloadLength := (payload.length + numPackets - 1) / numPackets
    genericHeader := kFirstPacketBit }

/-- The payload, `last_packet` and the packetizer after the call.
mirrors webrtc/modules/rtp_rtcp/source/rtp_format_video_generic.cc:48-78 -/
def nextPacket (p : Packetizer) : Bytes × Bool × Packetizer :=
  let n := if p.payload.length < p.payloadLength then p.payload.length else p.payloadLength
  let header := if p.frameType = .key then p.genericHeader ||| kKeyFrameBit else p.genericHeader
  (header :: p.payload.take n, (p.payload.drop n).isEmpty,
    { p with payload := p.payload.drop n
             payloadLength := n
             genericHeader := header &&& ~~~kFirstPacketBit })

/-- `NextPacket` until the last packet. -/
def sendAll : Nat → Packetizer → List (Bytes × Bool)
  | 0, _ => []
  | fuel + 1, p =>
    let r := nextPacket p
    (r.1, r.2.1) :: if r.2.1 then [] else sendAll fuel r.2.2

def packetize (frameType : FrameType) (maxPayloadLen : Nat) (payload : Bytes) :
    List (Bytes × Bool) :=
  sendAll payload.length (setPayloadData frameType maxPayloadLen payload)

/-- mirrors webrtc/modules/rtp_rtcp/source/rtp_format_video_generic.cc:93-116 -/
def parse (b : Bytes) : ParsedPayload :=
  let header := getByte b 0
  { payload := b.drop kGenericHeaderLength
    frameType := if header &&& kKeyFrameBit != 0 then .key else .delta
    video := { isFirstPacket := header &&& kFirstPacketBit != 0, codec := .generic } }

/-! ## The bits and flags of a packetized frame -/

/-- The first-packet bit survives the key-frame bit and is cleared after. -/
theorem header_bits (h : UInt8) (key : Bool) :
    ((if key then h ||| kKeyFrameBit else h) &&& kFirstPacketBit != 0) =
        (h &&& kFirstPacketBit != 0) ∧
      ((if key then h ||| kKeyFrameBit else h) &&& ~~~kFirstPacketBit) &&& kFirstPacketBit = 0 := by
  revert h
  refine forall_uint8 ?_
  cases key <;> decide

/-- Enough octets per packet to get through the payload. -/
theorem payloadLength_pos {frameType : FrameType} {maxLen : Nat} {payload : Bytes}
    (hm : 2 ≤ maxLen) (hp : payload ≠ []) :
    0 < (setPayloadData frameType maxLen payload).payloadLength := by
  have hlen := List.length_pos_iff.2 hp
  simp only [setPayloadData, kGenericHeaderLength]
  have hnum : 0 < (payload.length + (maxLen - 1) - 1) / (maxLen - 1) :=
    Nat.div_pos (by omega) (by omega)
  exact Nat.div_pos (by omega) hnum

/-- One `NextPacket` from a packetizer with octets left. -/
theorem nextPacket_spec {p : Packetizer} (hpl : 0 < p.payloadLength) (hne : p.payload ≠ []) :
    (parse (nextPacket p).1).video.isFirstPacket = (p.genericHeader &&& kFirstPacketBit != 0) ∧
      (parse (nextPacket p).1).payload ≠ [] ∧
      (nextPacket p).2.1 = (nextPacket p).2.2.payload.isEmpty ∧
      0 < (nextPacket p).2.2.payloadLength ∧
      (nextPacket p).2.2.payload.length < p.payload.length ∧
      ((nextPacket p).2.2.genericHeader &&& kFirstPacketBit != 0) = false := by
  have hpos := List.length_pos_iff.2 hne
  obtain ⟨hb1, hb2⟩ := header_bits p.genericHeader (decide (p.frameType = .key))
  simp only [decide_eq_true_eq] at hb1 hb2
  generalize hn : (if p.payload.length < p.payloadLength then p.payload.length
    else p.payloadLength) = n
  have hnpos : 0 < n ∧ n ≤ p.payload.length := by subst hn; split <;> omega
  simp only [nextPacket, hn]
  refine ⟨?_, ?_, trivial, hnpos.1, ?_, ?_⟩
  · simp only [parse, getByte, List.getElem?_cons_zero, Option.getD_some, hb1]
  · simp only [parse, kGenericHeaderLength, List.drop_succ_cons, List.drop_zero]
    intro h
    have := congrArg List.length h
    simp only [List.length_take, List.length_nil] at this
    omega
  · rw [List.length_drop]; omega
  · rw [hb2]; rfl

/-- What is sent from a packetizer with octets left: the first-packet bit on
the first packet only (if it is still set), the last flag on the last only,
and no empty payload. -/
theorem sendAll_spec : ∀ (fuel : Nat) (p : Packetizer), 0 < p.payloadLength → p.payload ≠ [] →
    p.payload.length ≤ fuel →
    sendAll fuel p ≠ [] ∧ ∀ i b l, (sendAll fuel p)[i]? = some (b, l) →
      (parse b).video.isFirstPacket =
        (decide (i = 0) && (p.genericHeader &&& kFirstPacketBit != 0)) ∧
      l = decide (i + 1 = (sendAll fuel p).length) ∧ (parse b).payload ≠ [] := by
  intro fuel
  induction fuel with
  | zero =>
    intro p _ hne hf
    exact absurd (List.eq_nil_of_length_eq_zero (by omega)) hne
  | succ fuel ih =>
    intro p hpl hne hf
    obtain ⟨hfirst, hdata, hlast, hpl', hlt, hclear⟩ := nextPacket_spec hpl hne
    have hstep : sendAll (fuel + 1) p = ((nextPacket p).1, (nextPacket p).2.1) ::
        if (nextPacket p).2.1 then [] else sendAll fuel (nextPacket p).2.2 := rfl
    rw [hstep]
    refine ⟨by simp, ?_⟩
    by_cases hl : (nextPacket p).2.1 = true
    · rw [if_pos hl]
      intro i b l hi
      cases i with
      | zero =>
        simp only [List.getElem?_cons_zero, Option.some.injEq, Prod.mk.injEq] at hi
        obtain ⟨rfl, rfl⟩ := hi
        refine ⟨?_, ?_, hdata⟩
        · rw [hfirst]; simp
        · rw [hl]; simp
      | succ i => simp at hi
    · rw [if_neg hl]
      have hrest : (nextPacket p).2.2.payload ≠ [] := by
        rw [hlast, List.isEmpty_iff] at hl; exact hl
      obtain ⟨h1, h2⟩ := ih (nextPacket p).2.2 hpl' hrest (by omega)
      have hlen := List.length_pos_iff.2 h1
      intro i b l hi
      cases i with
      | zero =>
        simp only [List.getElem?_cons_zero, Option.some.injEq, Prod.mk.injEq] at hi
        obtain ⟨rfl, rfl⟩ := hi
        refine ⟨?_, ?_, hdata⟩
        · rw [hfirst]; simp
        · rw [Bool.not_eq_true _ |>.mp hl, List.length_cons]
          exact (decide_eq_false (by omega)).symm
      | succ i =>
        simp only [List.getElem?_cons_succ] at hi
        obtain ⟨h3, h4, h5⟩ := h2 i b l hi
        rw [hclear, Bool.and_false] at h3
        refine ⟨by rw [h3]; simp, ?_, h5⟩
        rw [h4, List.length_cons, decide_eq_decide]
        omega

/-! ## The octets and the frame type -/

theorem key_bit (h : UInt8) (key : Bool) :
    ((if key then h ||| kKeyFrameBit else h) &&& kKeyFrameBit != 0) =
        (key || h &&& kKeyFrameBit != 0) ∧
      (((if key then h ||| kKeyFrameBit else h) &&& ~~~kFirstPacketBit) &&& kKeyFrameBit != 0) =
        (key || h &&& kKeyFrameBit != 0) := by
  revert h
  refine forall_uint8 ?_
  cases key <;> decide

/-- The key-frame bit is set for key frames only. -/
def KeyOk (p : Packetizer) : Prop :=
  (p.genericHeader &&& kKeyFrameBit != 0) = true → p.frameType = .key

theorem nextPacket_key {p : Packetizer} (h : KeyOk p) :
    (parse (nextPacket p).1).frameType = (if p.frameType = .key then .key else .delta) ∧
      KeyOk (nextPacket p).2.2 ∧ (nextPacket p).2.2.frameType = p.frameType := by
  obtain ⟨h1, h2⟩ := key_bit p.genericHeader (decide (p.frameType = .key))
  simp only [decide_eq_true_eq] at h1 h2
  have htype : (parse (nextPacket p).1).frameType =
      if (if p.frameType = .key then p.genericHeader ||| kKeyFrameBit else p.genericHeader) &&&
        kKeyFrameBit != 0 then .key else .delta := rfl
  rw [htype, h1]
  by_cases hkey : p.frameType = .key
  · refine ⟨?_, fun _ => hkey, rfl⟩
    rw [decide_eq_true hkey, Bool.true_or, if_pos rfl, if_pos hkey]
  · have hno : (p.genericHeader &&& kKeyFrameBit != 0) = false := by
      cases hb : (p.genericHeader &&& kKeyFrameBit != 0) with
      | false => rfl
      | true => exact absurd (h hb) hkey
    rw [hno, Bool.or_false, decide_eq_false hkey] at h2
    refine ⟨?_, fun hc => ?_, rfl⟩
    · rw [decide_eq_false hkey, hno, Bool.or_false, if_neg hkey]
      rfl
    · have hc' : ((if p.frameType = .key then p.genericHeader ||| kKeyFrameBit
          else p.genericHeader) &&& ~~~kFirstPacketBit &&& kKeyFrameBit != 0) = true := hc
      rw [h2] at hc'
      exact absurd hc' Bool.false_ne_true

theorem nextPacket_payload (p : Packetizer) :
    (parse (nextPacket p).1).payload ++ (nextPacket p).2.2.payload = p.payload := by
  simp [parse, nextPacket, kGenericHeaderLength]

/-- The packets carry the payload, and each the frame's type. -/
theorem sendAll_bytes : ∀ (fuel : Nat) (p : Packetizer), 0 < p.payloadLength → p.payload ≠ [] →
    p.payload.length ≤ fuel → KeyOk p →
    (sendAll fuel p).flatMap (fun x => (parse x.1).payload) = p.payload ∧
      ∀ x ∈ sendAll fuel p, (parse x.1).frameType = if p.frameType = .key then .key else .delta := by
  intro fuel
  induction fuel with
  | zero =>
    intro p _ hne hf _
    exact absurd (List.eq_nil_of_length_eq_zero (by omega)) hne
  | succ fuel ih =>
    intro p hpl hne hf hkey
    obtain ⟨-, -, hlast, hpl', hlt, -⟩ := nextPacket_spec hpl hne
    obtain ⟨htype, hkey', hsame⟩ := nextPacket_key hkey
    have hbytes := nextPacket_payload p
    unfold sendAll
    dsimp only
    by_cases hl : (nextPacket p).2.1 = true
    · rw [if_pos hl]
      rw [hlast, List.isEmpty_iff] at hl
      rw [hl, List.append_nil] at hbytes
      refine ⟨by simpa using hbytes, fun x hx => ?_⟩
      rw [List.mem_singleton.1 hx]
      exact htype
    · rw [if_neg hl]
      have hrest : (nextPacket p).2.2.payload ≠ [] := by
        rw [hlast, List.isEmpty_iff] at hl; exact hl
      obtain ⟨h1, h2⟩ := ih (nextPacket p).2.2 hpl' hrest (by omega) hkey'
      refine ⟨by rw [List.flatMap_cons, h1, hbytes], fun x hx => ?_⟩
      rcases List.mem_cons.1 hx with rfl | hx
      · exact htype
      · rw [h2 x hx, hsame]

end RtcCore.L1.Generic
