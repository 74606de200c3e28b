import RtcCore.L1Wire.RtpPacket2Frame
import Mathlib.Tactic.Tauto

/-!
# `RtpPacket2Frame` on arbitrary input

`ParseRtpPackets` once more, with everything it may not do: read outside of
the buffer, take the address of an element that `m_frame_data` does not have,
break an assertion, or go on for ever have no value here. Where there is a
value it is that of `RtcCore.L1Wire.RtpPacket2Frame`.

Results:
- `parseLoopChecked_succ`: one pass, with its faults; no read is among them.
- `parseLoopChecked_eq`: a value is that of the loop without checks.
- `parseLoopChecked_isSome_iff`: which packets of a buffer lead to a fault.
- `runChecked_iff`: a sequence of buffers is parsed without a fault, and with
  no frame to show for an error, exactly if no packet behind the first one of
  its buffer says it is the first, none follows one that says it is the last,
  and none is a continuation without octets.
-/
namespace RtcCore.L1.RtpPacket2Frame

open Bytes

/-! ## The function with its faults -/

/-- `m_frame_data.resize(..)` and `&m_frame_data[old_frame_len]`. -/
def grow (frameData added : Bytes) : Option Bytes :=
  if frameData.length < frameData.length + added.length then some (frameData ++ added) else none

/-- The new frame data; no value inside: an error is returned.
mirrors webrtc/modules/av_coding/codecs/ffmpeg/main/source/rtp_enc_h264.cc:98-146 -/
def takePayload (d : Bytes) (rtpLen : Nat) (frameData : Bytes) : Option (Option Bytes) := do
  let fuInd ← readAt d 20 1
  if getByte fuInd 0 &&& 0x1f = 28 then
    if rtpLen < 22 then return none
    else
      let fuHdr ← readAt d 21 1
      let body ← readAt d 22 (rtpLen - 22)
      if getByte fuHdr 0 &&& 0x80 ≠ 0 then
        let nalHeader := (getByte fuInd 0 &&& 0xe0) ||| (getByte fuHdr 0 &&& 0x1f)
        return ← grow frameData (startCode ++ nalHeader :: body)
      else return ← grow frameData body
  else
    let payload ← readAt d 20 (rtpLen - 20)
    return ← grow frameData (startCode ++ payload)

/-- mirrors webrtc/modules/av_coding/codecs/ffmpeg/main/source/rtp_enc_h264.cc:57-150 -/
def parseLoopChecked (lastSeqNum : Nat) : Nat → Bytes → Parsing → Option (Bool × Parsing)
  | 0, d, p => if d.length ≤ 12 then some (true, p) else none
  | fuel + 1, d, p =>
    if d.length ≤ 12 then some (true, p)
    else do
      let header ← readAt d 0 12
      let p := { p with frame := p.frame.count lastSeqNum (EncPacket.seqNo header) }
      if !EncPacket.extension header ∨ d.length < 12 + 8 then return (false, p)
      else
        let extend ← readAt d 12 8
        let front := header ++ extend
        -- the assertions on the flags, in front of the checks of the lengths
        if EncPacket.firstPacket front ∧ (p.gotFirst ∨ p.frame.frameData ≠ []) then none
        else if p.gotLast then none
        else
          let extLen := (EncPacket.extendLength front + 1) * 4
          let rtpLen := EncPacket.rtpLen front
          let p := flags front p
          if extLen ≠ 8 ∨ rtpLen ≤ 12 + extLen ∨ d.length < rtpLen then return (false, p)
          else
            match ← takePayload d rtpLen p.frame.frameData with
            | none => return (false, p)
            | some frameData =>
              parseLoopChecked lastSeqNum fuel (d.drop rtpLen)
                { p with frame := { p.frame with frameData := frameData } }

/-- The result and the object.
mirrors webrtc/modules/av_coding/codecs/ffmpeg/main/source/rtp_enc_h264.cc:39-154 -/
def parseRtpPacketsChecked (f : RtpPacket2Frame) (data : Bytes) : Option (Int × RtpPacket2Frame) :=
  let f := { f with
    frameLen := 0, frameComplete := false, frameContinuous := false, keyframe := false
    missingCount := 0, frameData := [] }
  if data.length < 12 then some (-1, f)
  else
    (parseLoopChecked f.seqNum data.length data { frame := f }).map fun r =>
      if r.1 then
        (0, { r.2.frame with
          frameLen := r.2.frame.frameData.length
          frameComplete := r.2.gotFirst && r.2.gotLast && r.2.frame.missingCount = 0 })
      else (-1, r.2.frame)

/-- One call after the other: what each returned, and the object behind it. -/
def runChecked : RtpPacket2Frame → List Bytes → Option (List (Int × RtpPacket2Frame))
  | _, [] => some []
  | f, data :: buffers => do
    let r ← parseRtpPacketsChecked f data
    let outs ← runChecked r.2 buffers
    return r :: outs

/-! ## The packets of a buffer -/

/-- The head of a packet is looked at, with its flags. -/
def Reached (d : Bytes) : Bool := EncPacket.extension d && decide (20 ≤ d.length)

/-- What an accepted packet adds.
mirrors webrtc/modules/av_coding/codecs/ffmpeg/main/source/rtp_enc_h264.cc:94-146 -/
def unitAt (d : Bytes) : Option Bytes :=
  if EncPacket.extendLength d = 1 ∧ 20 < EncPacket.rtpLen d ∧ EncPacket.rtpLen d ≤ d.length then
    unitOf (slice d 20 (EncPacket.rtpLen d - 20))
  else none

/-- The packets one behind the other, each with what follows it, up to the first
that is not accepted. -/
def walk : Nat → Bytes → List Bytes
  | 0, _ => []
  | fuel + 1, d =>
    if Reached d then
      d :: if (unitAt d).isSome then walk fuel (d.drop (EncPacket.rtpLen d)) else []
    else []

/-- A fragment that does not start its unit, of 22 octets: the two headers only. -/
structure EmptyContinuation (d : Bytes) : Prop where
  extendLength : EncPacket.extendLength d = 1
  rtpLen : EncPacket.rtpLen d = 22
  inside : 22 ≤ d.length
  fragment : getByte d 20 &&& 0x1f = 28
  notStart : getByte d 21 &&& 0x80 = 0

/-- No packet but the first one says it is, none follows the last, and none is a
continuation without octets. -/
structure WellMarked (data : Bytes) : Prop where
  first : ∀ d ∈ (walk data.length data).tail, EncPacket.firstPacket d = false
  last : ∀ d ∈ (walk data.length data).dropLast, EncPacket.marker d = false
  continuation : ∀ d ∈ walk data.length data, ¬ EmptyContinuation d

/-! ## One pass -/

theorem front_eq (d : Bytes) : slice d 0 12 ++ slice d 12 8 = d.take 20 := by
  have := slice_add d 0 12 8
  rw [Nat.zero_add] at this
  rw [← this]
  rfl

theorem slice_take {d : Bytes} {off len n : Nat} (h : off + len ≤ n) :
    slice (d.take n) off len = slice d off len := by
  rw [slice, slice, List.drop_take, List.take_take, Nat.min_eq_left (by omega)]

/-- The fields of the two headers are those of the packet. -/
theorem seqNo_take {d : Bytes} {n : Nat} (h : 4 ≤ n) :
    EncPacket.seqNo (d.take n) = EncPacket.seqNo d := by
  rw [EncPacket.seqNo, slice_take h, EncPacket.seqNo]

theorem extension_take {d : Bytes} {n : Nat} (h : 0 < n) :
    EncPacket.extension (d.take n) = EncPacket.extension d := by
  rw [EncPacket.extension, getByte_take h, EncPacket.extension]

theorem firstPacket_take (d : Bytes) : EncPacket.firstPacket (d.take 20) = EncPacket.firstPacket d := by
  rw [EncPacket.firstPacket, getByte_take (by decide), EncPacket.firstPacket]

theorem extendLength_take (d : Bytes) :
    EncPacket.extendLength (d.take 20) = EncPacket.extendLength d := by
  rw [EncPacket.extendLength, slice_take (by decide), EncPacket.extendLength]

theorem rtpLen_take (d : Bytes) : EncPacket.rtpLen (d.take 20) = EncPacket.rtpLen d := by
  rw [EncPacket.rtpLen, slice_take (by decide), EncPacket.rtpLen]

theorem flags_take (d : Bytes) (p : Parsing) : flags (d.take 20) p = flags d p := by
  rw [flags, flags, firstPacket_take, EncPacket.keyframe, EncPacket.marker,
    getByte_take (by decide), getByte_take (by decide), EncPacket.keyframe, EncPacket.marker]

theorem grow_eq (frameData added : Bytes) :
    grow frameData added = if added = [] then none else some (frameData ++ added) := by
  rw [grow]
  by_cases h : added = []
  · simp [h]
  · have := List.length_pos_iff.2 h
    rw [if_pos (by omega), if_neg h]

theorem getByte_slice {d : Bytes} {off len i : Nat} (h : i < len) :
    getByte (slice d off len) i = getByte d (off + i) := by
  rw [getByte, getByte, slice, List.getElem?_take_of_lt h, List.getElem?_drop]

theorem drop_slice (d : Bytes) (off len n : Nat) :
    (slice d off len).drop n = slice d (off + n) (len - n) := by
  rw [slice, slice, List.drop_take, List.drop_drop]

/-- Inside of the packet nothing is read that is not there. -/
theorem takePayload_eq {d : Bytes} {rtpLen : Nat} (h : 20 < rtpLen) (hd : rtpLen ≤ d.length)
    (frameData : Bytes) :
    takePayload d rtpLen frameData =
      (unitOf (slice d 20 (rtpLen - 20))).elim (some none) fun unit =>
        if unit = [] then none else some (some (frameData ++ unit)) := by
  have hlen : (slice d 20 (rtpLen - 20)).length = rtpLen - 20 := slice_length (by omega)
  have hind : readAt d 20 1 = some (slice d 20 1) := if_pos (by omega)
  have hpayload : readAt d 20 (rtpLen - 20) = some (slice d 20 (rtpLen - 20)) := if_pos (by omega)
  have hind0 : getByte (slice d 20 1) 0 = getByte d 20 := getByte_slice (by decide)
  have hunit0 : getByte (slice d 20 (rtpLen - 20)) 0 = getByte d 20 := getByte_slice (by omega)
  rw [takePayload, hind, unitOf]
  simp only [Option.bind_eq_bind, Option.bind_some, hind0, hunit0, hlen]
  by_cases htype : getByte d 20 &&& 0x1f = 28
  · rw [if_pos htype, if_pos htype]
    by_cases hshort : rtpLen < 22
    · rw [if_pos hshort, if_pos (by omega)]
      rfl
    · have hhdr : readAt d 21 1 = some (slice d 21 1) := if_pos (by omega)
      have hbody : readAt d 22 (rtpLen - 22) = some (slice d 22 (rtpLen - 22)) := if_pos (by omega)
      have hhdr0 : getByte (slice d 21 1) 0 = getByte d 21 := getByte_slice (by decide)
      have hunit1 : getByte (slice d 20 (rtpLen - 20)) 1 = getByte d 21 := getByte_slice (by omega)
      have hdrop : (slice d 20 (rtpLen - 20)).drop 2 = slice d 22 (rtpLen - 22) := drop_slice ..
      rw [if_neg hshort, if_neg (by omega), hhdr, hbody]
      simp only [Option.bind_some, hhdr0, hunit1, hdrop, grow_eq]
      by_cases hstart : getByte d 21 &&& 0x80 ≠ 0
      · rw [if_pos hstart, if_pos hstart]
        simp [startCode]
      · rw [if_neg hstart, if_neg hstart]
        split <;> simp_all
  · rw [if_neg htype, if_neg htype, hpayload]
    simp only [Option.bind_some, grow_eq]
    simp [startCode]

/-- The assertions fail: a first packet that is not the first, or one behind the last. -/
def Clashes (d : Bytes) (p : Parsing) : Prop :=
  (EncPacket.firstPacket d = true ∧ (p.gotFirst = true ∨ p.frame.frameData ≠ [])) ∨ p.gotLast = true

instance (d : Bytes) (p : Parsing) : Decidable (Clashes d p) := inferInstanceAs (Decidable (_ ∨ _))

/-- The frame with what a packet adds. -/
def add (p : Parsing) (unit : Bytes) : Parsing :=
  { p with frame := { p.frame with frameData := p.frame.frameData ++ unit } }

/-- The head of a pass, up to the assertions, and behind them. -/
def counted (lastSeqNum : Nat) (d : Bytes) (p : Parsing) : Parsing :=
  { p with frame := p.frame.count lastSeqNum (EncPacket.seqNo d) }

@[simp] theorem count_frameData (f : RtpPacket2Frame) (lastSeqNum seqnum : Nat) :
    (f.count lastSeqNum seqnum).frameData = f.frameData := by
  rw [count]
  split
  · rfl
  · split <;> rfl

variable {lastSeqNum fuel : Nat} {d : Bytes} {p : Parsing}

theorem parseLoopChecked_stop (fuel : Nat) (h : d.length ≤ 12) :
    parseLoopChecked lastSeqNum fuel d p = some (true, p) := by
  cases fuel with
  | zero => exact if_pos h
  | succ fuel => exact if_pos h

theorem parseLoopChecked_unreached (h : 12 < d.length) (hr : Reached d = false) :
    parseLoopChecked lastSeqNum (fuel + 1) d p = some (false, counted lastSeqNum d p) := by
  have hheader : readAt d 0 12 = some (d.take 12) := if_pos (by omega)
  have hcheck : (!EncPacket.extension d) = true ∨ d.length < 12 + 8 := by
    rw [Reached, Bool.and_eq_false_iff, decide_eq_false_iff_not] at hr
    obtain hr | hr := hr
    · exact .inl (by rw [hr]; rfl)
    · exact .inr (by omega)
  rw [parseLoopChecked, if_neg (by omega), hheader]
  simp only [Option.bind_eq_bind, Option.bind_some]
  rw [seqNo_take (by decide), extension_take (by decide), if_pos hcheck]
  rfl

/-- A pass over a packet whose head is there: the assertions, then the lengths,
then the payload. -/
theorem parseLoopChecked_reached (hr : Reached d = true) :
    parseLoopChecked lastSeqNum (fuel + 1) d p =
      if Clashes d p then none
      else (unitAt d).elim (some (false, flags d (counted lastSeqNum d p))) fun unit =>
        if unit = [] then none
        else parseLoopChecked lastSeqNum fuel (d.drop (EncPacket.rtpLen d))
          (add (flags d (counted lastSeqNum d p)) unit) := by
  rw [Reached, Bool.and_eq_true, decide_eq_true_eq] at hr
  obtain ⟨hext, hlen⟩ := hr
  have hheader : readAt d 0 12 = some (slice d 0 12) := if_pos (by omega)
  have hextend : readAt d 12 8 = some (slice d 12 8) := if_pos (by omega)
  have hslice : slice d 0 12 = d.take 12 := rfl
  rw [parseLoopChecked, if_neg (by omega), hheader]
  simp only [Option.bind_eq_bind, Option.bind_some, hextend, front_eq]
  rw [hslice, seqNo_take (by decide), extension_take (by decide),
    if_neg (by rw [hext]; simp only [Bool.not_true, Bool.false_eq_true, false_or]; omega),
    firstPacket_take, extendLength_take, rtpLen_take, flags_take]
  simp only [count_frameData]
  by_cases hfirst : EncPacket.firstPacket d = true ∧ (p.gotFirst = true ∨ p.frame.frameData ≠ [])
  · rw [if_pos hfirst, if_pos (show Clashes d p from .inl hfirst)]
  rw [if_neg hfirst]
  by_cases hlast : p.gotLast = true
  · rw [if_pos hlast, if_pos (show Clashes d p from .inr hlast)]
  rw [if_neg hlast, if_neg (show ¬ Clashes d p from not_or.2 ⟨hfirst, hlast⟩), unitAt]
  by_cases hsize : EncPacket.extendLength d = 1 ∧ 20 < EncPacket.rtpLen d ∧
      EncPacket.rtpLen d ≤ d.length
  · rw [if_neg (by omega), if_pos hsize, takePayload_eq hsize.2.1 hsize.2.2]
    cases unitOf (slice d 20 (EncPacket.rtpLen d - 20)) with
    | none => rfl
    | some unit =>
      simp only [Option.elim]
      by_cases hempty : unit = []
      · rw [if_pos hempty, if_pos hempty]
        rfl
      · rw [if_neg hempty, if_neg hempty]
        rfl
  · rw [if_pos (by omega), if_neg hsize]
    rfl

/-! ## The loop -/

theorem parseLoop_stop (fuel : Nat) (h : d.length ≤ 12) :
    parseLoop lastSeqNum fuel d p = (true, p) := by
  cases fuel with
  | zero => rfl
  | succ fuel => exact if_pos h

theorem parseLoop_unreached (h : 12 < d.length) (hr : Reached d = false) :
    parseLoop lastSeqNum (fuel + 1) d p = (false, counted lastSeqNum d p) := by
  have hcheck : (!EncPacket.extension d) = true ∨ d.length < 12 + 8 := by
    rw [Reached, Bool.and_eq_false_iff, decide_eq_false_iff_not] at hr
    obtain hr | hr := hr
    · exact .inl (by rw [hr]; rfl)
    · exact .inr (by omega)
  rw [parseLoop, if_neg (by omega)]
  exact if_pos hcheck

theorem parseLoop_reached (hr : Reached d = true) :
    parseLoop lastSeqNum (fuel + 1) d p =
      (unitAt d).elim (false, flags d (counted lastSeqNum d p)) fun unit =>
        parseLoop lastSeqNum fuel (d.drop (EncPacket.rtpLen d))
          (add (flags d (counted lastSeqNum d p)) unit) := by
  rw [Reached, Bool.and_eq_true, decide_eq_true_eq] at hr
  obtain ⟨hext, hlen⟩ := hr
  rw [parseLoop, if_neg (by omega)]
  dsimp only
  rw [if_neg (by rw [hext]; simp only [Bool.not_true, Bool.false_eq_true, false_or]; omega), unitAt]
  by_cases hsize : EncPacket.extendLength d = 1 ∧ 20 < EncPacket.rtpLen d ∧
      EncPacket.rtpLen d ≤ d.length
  · rw [if_neg (by omega), if_pos hsize]
    cases unitOf (slice d 20 (EncPacket.rtpLen d - 20)) <;> rfl
  · rw [if_pos (by omega), if_neg hsize]
    rfl

/-- Where there is no fault, the loop does what it does without checks. -/
theorem parseLoopChecked_eq {r : Bool × Parsing} : ∀ {fuel : Nat} {d : Bytes} {p : Parsing},
    parseLoopChecked lastSeqNum fuel d p = some r → parseLoop lastSeqNum fuel d p = r := by
  intro fuel
  induction fuel with
  | zero =>
    intro d p h
    rw [parseLoopChecked] at h
    split at h
    · exact Option.some.inj h
    · cases h
  | succ fuel ih =>
    intro d p h
    by_cases hstop : d.length ≤ 12
    · rw [parseLoopChecked_stop _ hstop] at h
      exact (parseLoop_stop _ hstop).trans (Option.some.inj h)
    · cases hr : Reached d with
      | false =>
        rw [parseLoopChecked_unreached (Nat.lt_of_not_le hstop) hr] at h
        exact (parseLoop_unreached (Nat.lt_of_not_le hstop) hr).trans (Option.some.inj h)
      | true =>
        rw [parseLoopChecked_reached hr] at h
        rw [parseLoop_reached hr]
        split at h
        · cases h
        · cases hunit : unitAt d with
          | none =>
            rw [hunit] at h
            exact Option.some.inj h
          | some unit =>
            rw [hunit] at h
            simp only [Option.elim] at h ⊢
            split at h
            · cases h
            · exact ih h

/-- The fault of the payload, by its octets. -/
theorem unitAt_empty_iff (d : Bytes) : unitAt d = some [] ↔ EmptyContinuation d := by
  constructor
  · intro h
    rw [unitAt] at h
    split at h
    · rename_i hsize
      obtain ⟨hext, hlow, hhigh⟩ := hsize
      have hlen : (slice d 20 (EncPacket.rtpLen d - 20)).length = EncPacket.rtpLen d - 20 :=
        slice_length (by omega)
      have h0 : getByte (slice d 20 (EncPacket.rtpLen d - 20)) 0 = getByte d 20 :=
        getByte_slice (by omega)
      rw [unitOf, h0, hlen] at h
      split at h
      · rename_i htype
        split at h
        · cases h
        · rename_i hlong
          have h1 : getByte (slice d 20 (EncPacket.rtpLen d - 20)) 1 = getByte d 21 :=
            getByte_slice (by omega)
          rw [h1] at h
          dsimp only at h
          split at h
          · cases h
          · rename_i hstart
            have hdrop := congrArg List.length (Option.some.inj h)
            rw [List.length_drop, hlen, List.length_nil] at hdrop
            exact ⟨hext, by omega, by omega, htype, Decidable.not_not.1 hstart⟩
      · cases h
    · cases h
  · intro h
    have hlen : (slice d 20 2).length = 2 := slice_length (by have := h.inside; omega)
    have h0 : getByte (slice d 20 2) 0 = getByte d 20 := getByte_slice (by decide)
    have h1 : getByte (slice d 20 2) 1 = getByte d 21 := getByte_slice (by decide)
    rw [unitAt, h.rtpLen, if_pos ⟨h.extendLength, by decide, h.inside⟩, unitOf]
    simp only [Nat.reduceSub, h0, h1, hlen, h.fragment, h.notStart]
    rw [if_pos trivial, if_neg (by decide), if_neg (by decide),
      List.drop_eq_nil_of_le (Nat.le_of_eq hlen)]

/-! ## Which buffers lead to a fault -/

/-- What the packets reached may say: `begun`, whether the frame has octets, and
`ended`, whether the last packet was seen. -/
def Fine : Prop → Prop → List Bytes → Prop
  | _, _, [] => True
  | begun, ended, d :: w =>
    ¬ (EncPacket.firstPacket d = true ∧ begun) ∧ ¬ ended ∧ ¬ EmptyContinuation d ∧
      Fine True (EncPacket.marker d = true) w

@[simp] theorem flags_frameData (d : Bytes) (p : Parsing) :
    (flags d p).frame.frameData = p.frame.frameData := rfl

/-- A frame that has its first packet has octets. -/
def Begun (p : Parsing) : Prop := p.gotFirst = true → p.frame.frameData ≠ []

theorem clashes_iff (h : Begun p) :
    Clashes d p ↔ (EncPacket.firstPacket d = true ∧ p.frame.frameData ≠ []) ∨ p.gotLast = true := by
  have hor : (p.gotFirst = true ∨ p.frame.frameData ≠ []) ↔ p.frame.frameData ≠ [] :=
    ⟨fun h' => h'.elim h id, .inr⟩
  rw [Clashes, hor]

theorem parseLoopChecked_isSome_iff : ∀ {fuel : Nat} {d : Bytes} {p : Parsing}, d.length ≤ fuel →
    Begun p →
    ((parseLoopChecked lastSeqNum fuel d p).isSome = true ↔
      Fine (p.frame.frameData ≠ []) (p.gotLast = true) (walk fuel d)) := by
  intro fuel
  induction fuel with
  | zero =>
    intro d p hfuel _
    rw [parseLoopChecked_stop 0 (by omega)]
    exact ⟨fun _ => trivial, fun _ => rfl⟩
  | succ fuel ih =>
    intro d p hfuel hbegun
    rw [walk]
    cases hr : Reached d with
    | false =>
      by_cases hstop : d.length ≤ 12
      · rw [parseLoopChecked_stop _ hstop]
        exact ⟨fun _ => trivial, fun _ => rfl⟩
      · rw [parseLoopChecked_unreached (Nat.lt_of_not_le hstop) hr]
        exact ⟨fun _ => trivial, fun _ => rfl⟩
    | true =>
      rw [parseLoopChecked_reached hr, if_pos rfl, Fine, ← unitAt_empty_iff]
      by_cases hclash : Clashes d p
      · rw [if_pos hclash]
        have hor := (clashes_iff hbegun).1 hclash
        refine ⟨fun h => (nomatch h), fun h => ?_⟩
        exact absurd hor (not_or.2 ⟨h.1, h.2.1⟩)
      · rw [if_neg hclash]
        obtain ⟨hfirst, hlast⟩ := not_or.1 ((clashes_iff hbegun).not.1 hclash)
        cases hunit : unitAt d with
        | none => exact ⟨fun _ => ⟨hfirst, hlast, nofun, trivial⟩, fun _ => rfl⟩
        | some unit =>
          simp only [Option.elim, Option.isSome_some, if_true]
          by_cases hempty : unit = []
          · rw [if_pos hempty, hempty]
            exact ⟨fun h => (nomatch h), fun h => absurd rfl h.2.2.1⟩
          · have hsize : 20 < EncPacket.rtpLen d := by
              rw [unitAt] at hunit
              split at hunit
              · rename_i h
                exact h.2.1
              · cases hunit
            have hdata : (add (flags d (counted lastSeqNum d p)) unit).frame.frameData ≠ [] := by
              simp [add, hempty]
            have hended : (add (flags d (counted lastSeqNum d p)) unit).gotLast =
                EncPacket.marker d := by
              show (p.gotLast || EncPacket.marker d) = EncPacket.marker d
              rw [Bool.not_eq_true] at hlast
              rw [hlast, Bool.false_or]
            rw [if_neg hempty, ih (by rw [List.length_drop]; omega) fun _ => hdata, hended]
            simp only [ne_eq, hdata, not_false_eq_true]
            refine ⟨fun h => ⟨hfirst, hlast, ?_, h⟩, fun h => h.2.2.2⟩
            exact fun h => hempty (Option.some.inj h)

/-- Behind the first packet. -/
theorem fine_begun_iff (ended : Prop) (w : List Bytes) :
    Fine True ended w ↔ (∀ d ∈ w, EncPacket.firstPacket d = false) ∧ (w ≠ [] → ¬ ended) ∧
      (∀ d ∈ w.dropLast, EncPacket.marker d = false) ∧ ∀ d ∈ w, ¬ EmptyContinuation d := by
  induction w generalizing ended with
  | nil => simp [Fine]
  | cons d w ih =>
    rw [Fine, ih]
    obtain _ | ⟨e, w⟩ := w
    · simp
    · rw [List.dropLast_cons_of_ne_nil (List.cons_ne_nil e w)]
      simp only [List.forall_mem_cons, and_true, Bool.not_eq_true, ne_eq, reduceCtorEq,
        not_false_eq_true, forall_const]
      tauto

theorem fine_iff (data : Bytes) : Fine False False (walk data.length data) ↔ WellMarked data := by
  have hmarked : WellMarked data ↔
      (∀ d ∈ (walk data.length data).tail, EncPacket.firstPacket d = false) ∧
      (∀ d ∈ (walk data.length data).dropLast, EncPacket.marker d = false) ∧
      ∀ d ∈ walk data.length data, ¬ EmptyContinuation d :=
    ⟨fun h => ⟨h.first, h.last, h.continuation⟩, fun h => ⟨h.1, h.2.1, h.2.2⟩⟩
  rw [hmarked]
  generalize walk data.length data = w
  obtain _ | ⟨d, w⟩ := w
  · simp [Fine]
  · rw [Fine, fine_begun_iff, List.tail_cons]
    obtain _ | ⟨e, w⟩ := w
    · simp
    · rw [List.dropLast_cons_of_ne_nil (List.cons_ne_nil e w)]
      simp only [List.forall_mem_cons, and_false, not_false_eq_true, true_and, Bool.not_eq_true,
        ne_eq, reduceCtorEq, forall_const]
      tauto

/-! ## Calls -/

/-- A call that goes wrong leaves no frame. -/
theorem count_frameLen (f : RtpPacket2Frame) (lastSeqNum seqnum : Nat) :
    (f.count lastSeqNum seqnum).frameLen = f.frameLen ∧
      (f.count lastSeqNum seqnum).frameComplete = f.frameComplete := by
  rw [count]
  split
  · exact ⟨rfl, rfl⟩
  · split <;> exact ⟨rfl, rfl⟩

theorem parseLoop_frameLen (lastSeqNum : Nat) : ∀ (fuel : Nat) (d : Bytes) (p : Parsing),
    (parseLoop lastSeqNum fuel d p).2.frame.frameLen = p.frame.frameLen ∧
      (parseLoop lastSeqNum fuel d p).2.frame.frameComplete = p.frame.frameComplete := by
  intro fuel
  induction fuel with
  | zero => exact fun _ _ => ⟨rfl, rfl⟩
  | succ fuel ih =>
    intro d p
    have hcount := count_frameLen p.frame lastSeqNum (EncPacket.seqNo d)
    by_cases hstop : d.length ≤ 12
    · rw [parseLoop_stop _ hstop]
      exact ⟨rfl, rfl⟩
    · cases hr : Reached d with
      | false =>
        rw [parseLoop_unreached (Nat.lt_of_not_le hstop) hr]
        exact hcount
      | true =>
        rw [parseLoop_reached hr]
        cases unitAt d with
        | none => exact hcount
        | some unit =>
          obtain ⟨hlen, hcomplete⟩ := ih (d.drop (EncPacket.rtpLen d))
            (add (flags d (counted lastSeqNum d p)) unit)
          exact ⟨hlen.trans hcount.1, hcomplete.trans hcount.2⟩

/-- What a call should leave: an error comes without a frame. -/
def NoFrameOnError (r : Int × RtpPacket2Frame) : Prop :=
  r.1 ≠ 0 → r.2.frameComplete = false ∧ r.2.frameLen = 0

theorem parseRtpPacketsChecked_eq {f : RtpPacket2Frame} {data : Bytes} {r : Int × RtpPacket2Frame}
    (h : parseRtpPacketsChecked f data = some r) :
    r.2 = f.parseRtpPackets data ∧ NoFrameOnError r := by
  rw [parseRtpPacketsChecked] at h
  rw [parseRtpPackets]
  dsimp only at h ⊢
  split at h
  · rename_i hshort
    obtain rfl := Option.some.inj h
    exact ⟨(if_pos hshort).symm, fun _ => ⟨rfl, rfl⟩⟩
  · rename_i hlong
    obtain ⟨q, hq, rfl⟩ := Option.map_eq_some_iff.1 h
    have hloop := parseLoopChecked_eq hq
    rw [if_neg hlong, hloop]
    obtain ⟨ended, p⟩ := q
    cases ended with
    | true => exact ⟨rfl, fun h => absurd rfl h⟩
    | false =>
      obtain ⟨hlen, hcomplete⟩ := parseLoop_frameLen f.seqNum data.length data
        { frame := { seqNum := f.seqNum, init := f.init } }
      rw [hloop] at hlen hcomplete
      exact ⟨rfl, fun _ => ⟨hcomplete, hlen⟩⟩

theorem parseRtpPacketsChecked_isSome_iff (f : RtpPacket2Frame) (data : Bytes) :
    (parseRtpPacketsChecked f data).isSome = true ↔ WellMarked data := by
  rw [parseRtpPacketsChecked]
  dsimp only
  split
  · rename_i hshort
    refine ⟨fun _ => ?_, fun _ => rfl⟩
    rw [← fine_iff]
    have hnone : walk data.length data = [] := by
      cases hn : data.length with
      | zero => rfl
      | succ n =>
        rw [walk, if_neg]
        rw [Reached, decide_eq_false (by omega), Bool.and_false]
        decide
    rw [hnone]
    trivial
  · rw [Option.isSome_map, parseLoopChecked_isSome_iff (Nat.le_refl _) fun h => Bool.noConfusion h,
      ← fine_iff]
    simp

theorem runChecked_iff (buffers : List Bytes) (f : RtpPacket2Frame) :
    (∃ outs, runChecked f buffers = some outs ∧ ∀ r ∈ outs, NoFrameOnError r) ↔
      ∀ data ∈ buffers, WellMarked data := by
  induction buffers generalizing f with
  | nil =>
    refine ⟨fun _ data h => absurd h List.not_mem_nil, fun _ => ⟨[], rfl, ?_⟩⟩
    exact fun r h => absurd h List.not_mem_nil
  | cons data buffers ih =>
    rw [List.forall_mem_cons, ← parseRtpPacketsChecked_isSome_iff f]
    constructor
    · rintro ⟨outs, houts, hall⟩
      obtain ⟨r, hr, houts⟩ := Option.bind_eq_some_iff.1 houts
      obtain ⟨rest, hrest, houts⟩ := Option.bind_eq_some_iff.1 houts
      obtain rfl := Option.some.inj houts
      refine ⟨by rw [hr]; rfl, (ih r.2).1 ⟨rest, hrest, fun q hq => hall q (.tail _ hq)⟩⟩
    · rintro ⟨hfirst, hrest⟩
      obtain ⟨r, hr⟩ := Option.isSome_iff_exists.1 hfirst
      obtain ⟨rest, houts, hall⟩ := (ih r.2).2 hrest
      refine ⟨r :: rest, ?_, List.forall_mem_cons.2 ⟨(parseRtpPacketsChecked_eq hr).2, hall⟩⟩
      rw [runChecked, hr]
      simp only [Option.bind_eq_bind, Option.bind_some, houts]
      rfl

/-- A packet of the format, with an octet for the marker and one for the flags. -/
def packetOf (marker flags : UInt8) (payload : Bytes) : Bytes :=
  [0x90, marker ||| 96, 0, 1, 0, 0, 0, 0, 0, 0, 0, 0, 0, 0, 0, 1] ++ be16 (20 + payload.length) ++
    [flags, 0] ++ payload

/-- Two first packets, a packet behind the last one, and a continuation without octets. -/
theorem runChecked_faults :
    runChecked {} [packetOf 0 0x40 [0x65] ++ packetOf 0 0x40 [0x65]] = none ∧
      runChecked {} [packetOf 0x80 0x40 [0x65] ++ packetOf 0 0 [0x65]] = none ∧
      runChecked {} [packetOf 0 0x40 [0x7c, 0x05]] = none := by
  decide

end RtcCore.L1.RtpPacket2Frame
