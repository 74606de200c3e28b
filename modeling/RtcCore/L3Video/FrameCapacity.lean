import RtcCore.L3Video.FrameState

/-!
# Room for a packet in its frame buffer

`VCMFrameBuffer::InsertPacket` makes room for a packet's octets and one start
code. `InsertBuffer` then writes a STAP-A unit by unit, a start code before
each, and takes the units' lengths from the payload. Here the octets a call
reads and writes are listed (`Extent`), as the loops go through them.

Results:
* `stapReads_inside`: the payload is read inside its bounds exactly when its
  length fields tile it.
* `capacity_iff`: in a run of insertions after `Reset` every call reads the
  payload and writes the frame buffer inside their bounds, and the frame fits
  the buffer afterwards, exactly when every STAP-A that is taken is tiled and
  its expanded units fit the buffer behind the frame.
* `stap_length_trusted`: a length field that points outside.
-/
namespace RtcCore.L3

open Bytes Serial

namespace Session

/-! ## What is read and written -/

/-- A run of octets. -/
structure Extent where
  start : Nat
  length : Nat
  deriving DecidableEq, Repr

def Extent.stop (e : Extent) : Nat := e.start + e.length

/-- mirrors webrtc/modules/video_coding/main/source/session_info.cc:190-205 -/
def shiftWrites (rest : List Stored) (steps : Nat) : List Extent :=
  match rest with
  | [] => []
  | p :: ps => [⟨p.dataPtr + steps, sizes (p :: ps)⟩]

def startCodeLength (sc : Bool) : Nat := if sc then kH264StartCodeLengthBytes else 0

/-- mirrors webrtc/modules/video_coding/main/source/session_info.cc:174-188 -/
def insertWrites (length : Nat) (sc : Bool) (off : Nat) : List Extent :=
  [⟨off, startCodeLength sc⟩, ⟨off + startCodeLength sc, length⟩]

/-- mirrors webrtc/modules/video_coding/main/source/session_info.cc:151-161 -/
def stapWrites (data : Bytes) (sc : Bool) : Nat → Nat → Nat → List Extent
  | 0, _, _ => []
  | fuel + 1, ptr, off =>
    if ptr < data.length then
      insertWrites (rd16 data ptr) sc off ++
        stapWrites data sc fuel (ptr + 2 + rd16 data ptr) (off + (rd16 data ptr + startCodeLength sc))
    else []

/-- The length field and the unit of each round.
mirrors webrtc/modules/video_coding/main/source/session_info.cc:141-161 -/
def stapReads (data : Bytes) : Nat → Nat → List Extent
  | 0, _ => []
  | fuel + 1, ptr =>
    if ptr < data.length then
      ⟨ptr, 2⟩ :: ⟨ptr + 2, rd16 data ptr⟩ :: stapReads data fuel (ptr + 2 + rd16 data ptr)
    else []

/-- The octets the packet takes in the frame buffer. -/
def bufferSize (p : VCMPacket) : Nat :=
  if p.isStapA then stapRequiredLength p.data p.insertStartCode p.data.length 1
  else p.data.length + startCodeLength p.insertStartCode

/-- mirrors webrtc/modules/video_coding/main/source/session_info.cc:119-172 -/
def bufferWrites (front : List Stored) (p : VCMPacket) (back : List Stored) : List Extent :=
  shiftWrites back (bufferSize p) ++
    if p.isStapA then stapWrites p.data p.insertStartCode p.data.length 1 (sizes front)
    else insertWrites p.data.length p.insertStartCode (sizes front)

def bufferReads (p : VCMPacket) : List Extent :=
  if p.isStapA then stapReads p.data p.data.length 1 else [⟨0, p.data.length⟩]

/-- `InsertBuffer` is reached.
mirrors webrtc/modules/video_coding/main/source/session_info.cc:443-536 -/
def takes (s : Info) (p : VCMPacket) : Bool :=
  p.frameType != .empty && s.packets.length != kMaxPacketsInSession &&
    !isDuplicate (scanFront s.packets p.seqNum) p.seqNum && (s.track p).1

theorem takes_iff {s : Info} {p : VCMPacket} : takes s p = true ↔ Taken s p := by
  simp only [takes, Taken, reachesTracking, Bool.and_eq_true, bne_iff_ne, ne_eq, Bool.not_eq_true',
    ← track_accepts, and_assoc]

/-! ## A STAP-A payload -/

theorem be16_pair (a b : UInt8) : be16 (a.toNat * 256 + b.toNat) = [a, b] := by
  have ha := a.toNat_lt
  have hb := b.toNat_lt
  simp only [be16, List.cons.injEq, and_true, ← UInt8.toNat_inj, UInt8.toNat_ofNat']
  omega

/-- From an offset on, what is read inside the payload tiles it. -/
theorem units_of_reads : ∀ (fuel : Nat) (pre rest : Bytes), rest.length ≤ fuel →
    (∀ r ∈ stapReads (pre ++ rest) fuel pre.length, r.stop ≤ (pre ++ rest).length) →
    ∃ us : List Bytes, (∀ u ∈ us, u.length < 65536) ∧ rest = us.flatMap L1.H264.lengthPrefixed := by
  intro fuel
  induction fuel with
  | zero =>
    intro pre rest hl _
    exact ⟨[], fun u hu => absurd hu List.not_mem_nil, List.eq_nil_of_length_eq_zero (by omega)⟩
  | succ fuel ih =>
    intro pre rest hl hr
    rcases rest with - | ⟨a, - | ⟨b, rest⟩⟩
    · exact ⟨[], fun u hu => absurd hu List.not_mem_nil, rfl⟩
    · -- one octet is left where two are read
      have := hr ⟨pre.length, 2⟩ (by simp [stapReads])
      simp [Extent.stop] at this
    · have hlt : pre.length < (pre ++ a :: b :: rest).length := by
        simp only [List.length_append, List.length_cons]; omega
      have hrd : rd16 (pre ++ a :: b :: rest) pre.length = a.toNat * 256 + b.toNat := by
        simp [rd16, getByte]
      simp only [stapReads, if_pos hlt, hrd, List.forall_mem_cons] at hr
      obtain ⟨-, hu, hr⟩ := hr
      simp only [Extent.stop, List.length_append, List.length_cons] at hu
      have ha := a.toNat_lt
      have hb := b.toNat_lt
      generalize hn : a.toNat * 256 + b.toNat = n at hu hr
      have hsplit : pre ++ a :: b :: rest = (pre ++ a :: b :: rest.take n) ++ rest.drop n := by
        simp
      have hlen : (pre ++ a :: b :: rest.take n).length = pre.length + 2 + n := by
        simp only [List.length_append, List.length_cons, List.length_take]; omega
      rw [hsplit, ← hlen] at hr
      obtain ⟨us, hus, he⟩ := ih _ _ (by
        simp only [List.length_cons] at hl
        rw [List.length_drop]; omega) hr
      refine ⟨rest.take n :: us, fun u hu => ?_, ?_⟩
      · rcases List.mem_cons.1 hu with rfl | hu
        · rw [List.length_take]; omega
        · exact hus u hu
      · rw [List.flatMap_cons, ← he, L1.H264.lengthPrefixed, List.length_take,
          Nat.min_eq_left (by omega), ← hn, be16_pair]
        simp

theorem reads_of_units : ∀ (us : List Bytes) (fuel : Nat) (pre : Bytes),
    (∀ u ∈ us, u.length < 65536) →
    ∀ r ∈ stapReads (pre ++ us.flatMap L1.H264.lengthPrefixed) fuel pre.length,
      r.stop ≤ (pre ++ us.flatMap L1.H264.lengthPrefixed).length := by
  intro us
  induction us with
  | nil =>
    intro fuel pre _ r hr
    cases fuel <;> simp [stapReads] at hr
  | cons u us ih =>
    intro fuel pre hus r hr
    cases fuel with
    | zero => exact absurd hr List.not_mem_nil
    | succ fuel =>
      obtain ⟨hlt, hrd, -⟩ := L1.H264.lengthPrefixed_read pre u
        (us.flatMap L1.H264.lengthPrefixed) (hus u (List.mem_cons_self ..))
      have hnext := ih fuel (pre ++ L1.H264.lengthPrefixed u)
        fun v hv => hus v (List.mem_cons_of_mem _ hv)
      have hlen : (pre ++ L1.H264.lengthPrefixed u).length = pre.length + 2 + u.length := by
        simp [L1.H264.lengthPrefixed, be16]; omega
      rw [hlen, List.append_assoc] at hnext
      have htotal : (pre ++ (L1.H264.lengthPrefixed u ++
          us.flatMap L1.H264.lengthPrefixed)).length =
          pre.length + 2 + u.length + (us.flatMap L1.H264.lengthPrefixed).length := by
        rw [← List.append_assoc, List.length_append, hlen]
      simp only [List.flatMap_cons, stapReads, if_pos hlt, hrd, List.mem_cons] at hr ⊢
      rcases hr with rfl | rfl | hr
      · rw [htotal, Extent.stop]; dsimp only; omega
      · rw [htotal, Extent.stop]; dsimp only; omega
      · exact hnext r hr

/-- The length fields tile the payload behind its header octet. -/
def Tiled (data : Bytes) : Prop := data = [] ∨ StapAWellFormed data

theorem stapReads_inside (data : Bytes) :
    (∀ r ∈ stapReads data data.length 1, r.stop ≤ data.length) ↔ Tiled data := by
  cases data with
  | nil => exact iff_of_true (fun r hr => absurd hr List.not_mem_nil) (Or.inl rfl)
  | cons h rest =>
    constructor
    · intro hr
      obtain ⟨us, hus, rfl⟩ := units_of_reads (h :: rest).length [h] rest
        (by rw [List.length_cons]; omega) hr
      exact Or.inr ⟨h, us, hus, rfl⟩
    · rintro (he | ⟨h', us, hus, he⟩)
      · cases he
      · rw [he]
        exact reads_of_units us _ [h'] hus

theorem bufferSize_eq {p : VCMPacket} (h : p.isStapA = true → Tiled p.data) :
    bufferSize p = (expanded p).length := by
  unfold bufferSize expanded
  split
  · rename_i hs
    rcases h hs with he | hw
    · rw [he]; rfl
    · exact stapRequired_eq hw _
  · cases p.insertStartCode <;> simp [unit, startCode, startCodeLength, kH264StartCodeLengthBytes]

/-! ## The layout -/

/-- Each packet starts where the one before it ends. -/
def Consecutive : Nat → List Stored → Prop
  | _, [] => True
  | off, q :: qs => q.dataPtr = off ∧ Consecutive (off + q.sizeBytes) qs

theorem sizes_cons (q : Stored) (qs : List Stored) : sizes (q :: qs) = q.sizeBytes + sizes qs :=
  rfl

theorem sizes_append (ps qs : List Stored) : sizes (ps ++ qs) = sizes ps + sizes qs := by
  simp [sizes]

theorem sizes_shift (k : Nat) (ps : List Stored) : sizes (ps.map (Stored.shift k)) = sizes ps := by
  simp [sizes, Stored.shift, Function.comp_def]

theorem consecutive_append {ps qs : List Stored} {off : Nat} :
    Consecutive off (ps ++ qs) ↔ Consecutive off ps ∧ Consecutive (off + sizes ps) qs := by
  induction ps generalizing off with
  | nil => simp [Consecutive, sizes]
  | cons q ps ih =>
    simp only [List.cons_append, Consecutive, ih, sizes_cons, Nat.add_assoc, and_assoc]

theorem Consecutive.shift {ps : List Stored} {off : Nat} (h : Consecutive off ps) (k : Nat) :
    Consecutive (off + k) (ps.map (Stored.shift k)) := by
  induction ps generalizing off with
  | nil => trivial
  | cons q ps ih =>
    obtain ⟨hp, hr⟩ := h
    refine ⟨by simp only [Stored.shift, hp], ?_⟩
    have := ih hr
    rwa [Nat.add_right_comm] at this

theorem insertBuffer_size (buf : Bytes) (front : List Stored) (p : VCMPacket)
    (back : List Stored) :
    (insertBuffer buf front p back).2 =
      (front ++ ⟨p, sizes front, bufferSize p⟩ :: back.map (Stored.shift (bufferSize p)),
        bufferSize p) := by
  have hsh : ∀ k, (shiftSubsequentPackets buf back k).2 = back.map (Stored.shift k) := by
    intro k; cases back <;> rfl
  unfold insertBuffer bufferSize
  dsimp only
  simp only [hsh]
  split
  · rfl
  · cases p.insertStartCode <;> rfl

theorem stapWrites_inside (data : Bytes) (sc : Bool) : ∀ (fuel ptr off : Nat),
    ∀ w ∈ stapWrites data sc fuel ptr off, w.stop ≤ off + stapRequiredLength data sc fuel ptr := by
  intro fuel
  induction fuel with
  | zero => intro ptr off w hw; exact absurd hw List.not_mem_nil
  | succ fuel ih =>
    intro ptr off w hw
    simp only [stapWrites, stapRequiredLength] at hw ⊢
    split at hw
    · rename_i hlt
      rw [if_pos hlt]
      have hsc : startCodeLength sc = if sc = true then kH264StartCodeLengthBytes else 0 := rfl
      rw [← hsc]
      simp only [insertWrites, List.cons_append, List.nil_append, List.mem_cons] at hw
      rcases hw with rfl | rfl | hw
      · simp only [Extent.stop]; omega
      · simp only [Extent.stop]; omega
      · have := ih _ _ w hw
        omega
    · exact absurd hw List.not_mem_nil

/-- All that `InsertBuffer` writes lies before the end of the longer frame. -/
theorem bufferWrites_inside {front back : List Stored} {p : VCMPacket}
    (h : Consecutive 0 (front ++ back)) :
    ∀ w ∈ bufferWrites front p back, w.stop ≤ sizes (front ++ back) + bufferSize p := by
  intro w hw
  have hback := (consecutive_append.1 h).2
  rw [Nat.zero_add] at hback
  rw [sizes_append]
  rcases List.mem_append.1 hw with hw | hw
  · cases back with
    | nil => exact absurd hw List.not_mem_nil
    | cons q back =>
      rw [List.mem_singleton.1 hw, Extent.stop, hback.1]
      dsimp only
      omega
  · unfold bufferSize
    split at hw
    · rename_i hs
      rw [if_pos hs]
      have := stapWrites_inside p.data p.insertStartCode p.data.length 1 (sizes front) w hw
      omega
    · rename_i hs
      rw [if_neg hs]
      simp only [insertWrites, List.mem_cons, List.not_mem_nil, or_false] at hw
      rcases hw with rfl | rfl <;> simp only [Extent.stop] <;> omega

/-- What a call that reaches `InsertBuffer` returns, and its list. -/
theorem insertPacket_buffer {s : Info} {p : VCMPacket} (h : takes s p = true) (buf : Bytes)
    (mode : DecodeErrorMode) (d : FrameData) :
    (insertPacket s buf p mode d).1 = bufferSize p ∧
      (insertPacket s buf p mode d).2.1.packets = scanFront s.packets p.seqNum ++
        ⟨p, sizes (scanFront s.packets p.seqNum), bufferSize p⟩ ::
          (scanBack s.packets p.seqNum).map (Stored.shift (bufferSize p)) := by
  simp only [takes, Bool.and_eq_true, bne_iff_ne, ne_eq, Bool.not_eq_true'] at h
  obtain ⟨⟨⟨hm, hfull⟩, hdup⟩, htrack⟩ := h
  have hcall := insertBuffer_size buf (scanFront s.packets p.seqNum) p (scanBack s.packets p.seqNum)
  obtain ⟨b, hb⟩ := updateDecodable_eq (Info.updateCompleteSession { (s.track p).2 with
    packets := (insertBuffer buf (scanFront s.packets p.seqNum) p
      (scanBack s.packets p.seqNum)).2.1 }) mode d
  unfold insertPacket
  rw [if_neg hm, if_neg hfull, if_neg (Bool.eq_false_iff.1 hdup)]
  dsimp only
  rw [if_pos htrack]
  dsimp only
  rw [hb, updateCompleteSession_eq, hcall]
  exact ⟨rfl, rfl⟩

end Session

/-! ## One call -/

namespace FrameBuffer

open Session

/-- The buffer's size when the packet is written.
mirrors webrtc/modules/video_coding/main/source/frame_buffer.cc:107-122 -/
def capacity (f : FrameBuffer) (p : VCMPacket) : Nat :=
  if f.size ≤ f.requiredSizeBytes p then f.newSize (f.requiredSizeBytes p) else f.size

/-- The packet gets as far as `InsertBuffer`. -/
def reaches (f : FrameBuffer) (p : VCMPacket) : Bool :=
  ((f.openWith p).grow p).isSome && takes f.session p

/-- What the call writes to the frame buffer. -/
def writes (f : FrameBuffer) (p : VCMPacket) : List Extent :=
  if f.reaches p then
    bufferWrites (scanFront f.session.packets p.seqNum) p (scanBack f.session.packets p.seqNum)
  else []

/-- What the call reads of the payload. -/
def reads (f : FrameBuffer) (p : VCMPacket) : List Extent :=
  if f.reaches p then bufferReads p else []

/-- The call stays inside the buffer and the payload, and so does the frame
after it. -/
structure Safe (f : FrameBuffer) (a : Arrival) : Prop where
  writes : ∀ w ∈ f.writes a.1, w.stop ≤ f.capacity a.1
  reads : ∀ r ∈ f.reads a.1, r.stop ≤ a.1.data.length
  length : (f.insertPacket a.1 a.2.1 a.2.2).2.length ≤ (f.insertPacket a.1 a.2.1 a.2.2).2.size

/-- A STAP-A that is taken is tiled, and there is room for all its units with
their start codes. -/
def Fits (f : FrameBuffer) (a : Arrival) : Prop :=
  f.reaches a.1 = true → a.1.isStapA = true →
    Tiled a.1.data ∧ f.length + (expanded a.1).length ≤ f.capacity a.1

structure Placed (f : FrameBuffer) : Prop where
  packets : Consecutive 0 f.session.packets
  length : f.length = sizes f.session.packets
  fits : f.length ≤ f.size

theorem placed_reset (f : FrameBuffer) : f.reset.Placed := ⟨trivial, rfl, Nat.zero_le _⟩

theorem openWith_fields (f : FrameBuffer) (p : VCMPacket) :
    (f.openWith p).session = f.session ∧ (f.openWith p).length = f.length ∧
      (f.openWith p).size = f.size := by
  unfold openWith
  split <;> exact ⟨rfl, rfl, rfl⟩

theorem size_le_capacity (f : FrameBuffer) (p : VCMPacket) : f.size ≤ f.capacity p := by
  unfold capacity newSize
  split
  · exact Nat.le_add_right ..
  · exact Nat.le_refl _

/-- The octets and a start code are counted. -/
theorem required_le_capacity (f : FrameBuffer) (p : VCMPacket) :
    f.requiredSizeBytes p ≤ f.capacity p := by
  unfold capacity newSize
  split
  · have := Nat.div_add_mod (f.requiredSizeBytes p) kBufferIncStepSizeBytes
    by_cases hm : 0 < f.requiredSizeBytes p % kBufferIncStepSizeBytes
    · rw [if_pos hm]
      simp only [kBufferIncStepSizeBytes] at *
      omega
    · rw [if_neg hm]
      simp only [kBufferIncStepSizeBytes] at *
      omega
  · omega

theorem grow_fields {f g : FrameBuffer} {p : VCMPacket} (h : (f.openWith p).grow p = some g) :
    g.session = f.session ∧ g.length = f.length ∧ g.size = f.capacity p := by
  obtain ⟨hs, hl, hz⟩ := f.openWith_fields p
  have hreq : (f.openWith p).requiredSizeBytes p = f.requiredSizeBytes p := by
    rw [requiredSizeBytes, hl]; rfl
  have hnew : ∀ n, (f.openWith p).newSize n = f.newSize n := by
    intro n; rw [newSize, hz]; rfl
  unfold grow at h
  dsimp only at h
  rw [hreq, hz, hnew] at h
  unfold capacity
  split at h
  · rename_i hle
    rw [if_pos hle]
    split at h
    · cases h
    · cases h
      exact ⟨hs, hl, rfl⟩
  · rename_i hle
    rw [if_neg hle]
    cases h
    exact ⟨hs, hl, hz⟩

/-- A call that reaches `InsertBuffer`. -/
theorem insertPacket_reached {f : FrameBuffer} {a : Arrival} (h : f.reaches a.1 = true) :
    (f.insertPacket a.1 a.2.1 a.2.2).2.session.packets =
        scanFront f.session.packets a.1.seqNum ++
          ⟨a.1, sizes (scanFront f.session.packets a.1.seqNum), bufferSize a.1⟩ ::
          (scanBack f.session.packets a.1.seqNum).map (Stored.shift (bufferSize a.1)) ∧
      (f.insertPacket a.1 a.2.1 a.2.2).2.length = f.length + bufferSize a.1 ∧
      (f.insertPacket a.1 a.2.1 a.2.2).2.size = f.capacity a.1 := by
  obtain ⟨p, mode, d⟩ := a
  dsimp only at h ⊢
  rw [reaches, Bool.and_eq_true] at h
  obtain ⟨hroom, ht⟩ := h
  obtain ⟨g, hg⟩ := Option.isSome_iff_exists.1 hroom
  obtain ⟨hs, hl, hz⟩ := grow_fields hg
  obtain ⟨hcode, hps⟩ := insertPacket_buffer ht g.buffer mode d
  unfold insertPacket
  rw [hg]
  dsimp only
  rw [hs, hcode, if_neg (by omega), if_neg (by omega), if_neg (by omega), Int.toNat_natCast, hl]
  split
  · exact ⟨hps, rfl, hz⟩
  · split
    · exact ⟨hps, rfl, hz⟩
    · exact ⟨hps, rfl, hz⟩

/-- A call that does not leaves the packets and the frame's length alone. -/
theorem insertPacket_unreached {f : FrameBuffer} {a : Arrival} (h : f.reaches a.1 = false) :
    (f.insertPacket a.1 a.2.1 a.2.2).2.session.packets = f.session.packets ∧
      (f.insertPacket a.1 a.2.1 a.2.2).2.length = f.length ∧
      f.size ≤ (f.insertPacket a.1 a.2.1 a.2.2).2.size := by
  obtain ⟨p, mode, d⟩ := a
  dsimp only at h ⊢
  obtain ⟨hos, hol, hoz⟩ := f.openWith_fields p
  unfold insertPacket
  split
  · rw [hos, hol, hoz]
    exact ⟨rfl, rfl, Nat.le_refl _⟩
  rename_i g hg
  obtain ⟨hs, hl, hz⟩ := grow_fields hg
  have hsize : f.size ≤ g.size := hz ▸ f.size_le_capacity p
  have ht : ¬ Taken f.session p := by
    intro ht
    rw [reaches, hg, takes_iff.2 ht] at h
    cases h
  dsimp only
  rw [hs]
  rcases insertPacket_not_taken ht g.buffer mode d with ⟨-, he⟩ | ⟨hneg, ht⟩
  · rw [he]
    dsimp only
    rw [if_neg (by decide), if_neg (by decide), if_neg (by decide)]
    split
    · exact ⟨rfl, hl, hsize⟩
    · split
      · exact ⟨rfl, hl, hsize⟩
      · exact ⟨rfl, hl, hsize⟩
  · have hps : (Session.insertPacket f.session g.buffer p mode d).2.1.packets =
        f.session.packets := by
      rcases ht with ht | ⟨-, -, ht⟩
      · rw [ht]
      · rw [ht]; exact (track_fields f.session p).1
    have hcode := insertPacket_code f.session g.buffer p mode d
    split
    · exact ⟨hps, hl, hsize⟩
    split
    · exact ⟨hps, hl, hsize⟩
    split
    · exact ⟨hps, hl, hsize⟩
    · omega

/-- One call: safe exactly when the packet fits, and then the layout is kept. -/
theorem insertPacket_capacity {f : FrameBuffer} (h : f.Placed) (a : Arrival) :
    (f.Safe a ↔ f.Fits a) ∧ (f.Fits a → (f.insertPacket a.1 a.2.1 a.2.2).2.Placed) := by
  cases hr : f.reaches a.1 with
  | false =>
    obtain ⟨hps, hl, hz⟩ := insertPacket_unreached hr
    have hfits := h.fits
    refine ⟨iff_of_true ⟨?_, ?_, ?_⟩ fun hc => absurd (hr.symm.trans hc) Bool.false_ne_true,
      fun _ => ⟨?_, ?_, ?_⟩⟩
    · simp [writes, hr]
    · simp [reads, hr]
    · omega
    · rw [hps]; exact h.packets
    · rw [hps, hl]; exact h.length
    · omega
  | true =>
    obtain ⟨hps, hl, hz⟩ := insertPacket_reached hr
    have hsplit := scan_split f.session.packets a.1.seqNum
    have hlen := h.length
    rw [← hsplit] at hlen
    -- an ordinary packet always fits
    have hplain : a.1.isStapA = false → f.length + bufferSize a.1 ≤ f.capacity a.1 := by
      intro hs
      have := f.required_le_capacity a.1
      rw [bufferSize, if_neg (Bool.eq_false_iff.1 hs)]
      simp only [requiredSizeBytes, startCodeLength] at this ⊢
      omega
    have hroom : f.Fits a → f.length + bufferSize a.1 ≤ f.capacity a.1 := by
      intro hf
      cases hs : a.1.isStapA with
      | false => exact hplain hs
      | true =>
        rw [bufferSize_eq fun _ => (hf hr hs).1]
        exact (hf hr hs).2
    refine ⟨⟨fun hsafe _ hs => ?_, fun hf => ⟨?_, ?_, ?_⟩⟩, fun hf => ⟨?_, ?_, ?_⟩⟩
    · have htiled : Tiled a.1.data := by
        have := hsafe.reads
        simp only [reads, hr, if_true, bufferReads, hs] at this
        exact (stapReads_inside a.1.data).1 this
      refine ⟨htiled, ?_⟩
      have := hsafe.length
      rw [hl, hz, bufferSize_eq fun _ => htiled] at this
      exact this
    · intro w hw
      rw [writes, hr, if_pos rfl] at hw
      have := bufferWrites_inside (by rw [hsplit]; exact h.packets) w hw
      have := hroom hf
      omega
    · intro r hw
      rw [reads, hr, if_pos rfl, bufferReads] at hw
      split at hw
      · rename_i hs
        exact (stapReads_inside a.1.data).2 (hf hr hs).1 r hw
      · rw [List.mem_singleton.1 hw, Extent.stop]
        dsimp only
        omega
    · rw [hl, hz]
      exact hroom hf
    · rw [hps, consecutive_append, Nat.zero_add]
      have hc := h.packets
      rw [← hsplit, consecutive_append, Nat.zero_add] at hc
      exact ⟨hc.1, rfl, hc.2.shift _⟩
    · rw [hps, hl, hlen, sizes_append, sizes_append, sizes_cons, sizes_shift]
      dsimp only
      omega
    · rw [hl, hz]
      exact hroom hf

/-! ## Runs -/

def SafeRun (f : FrameBuffer) : List Arrival → Prop
  | [] => True
  | a :: as => f.Safe a ∧ SafeRun (f.insertPacket a.1 a.2.1 a.2.2).2 as

def FitsRun (f : FrameBuffer) : List Arrival → Prop
  | [] => True
  | a :: as => f.Fits a ∧ FitsRun (f.insertPacket a.1 a.2.1 a.2.2).2 as

theorem safeRun_iff {as : List Arrival} : ∀ {f : FrameBuffer}, f.Placed →
    (f.SafeRun as ↔ f.FitsRun as) := by
  induction as with
  | nil => exact fun _ => Iff.rfl
  | cons a as ih =>
    intro f h
    obtain ⟨hiff, hkeep⟩ := insertPacket_capacity h a
    simp only [SafeRun, FitsRun, hiff]
    exact and_congr_right fun hf => ih (hkeep hf)

/-- **Capacity.** From `Reset` on, whatever is inserted into a buffer of
whatever size: every call stays in bounds exactly when every STAP-A that is
taken is tiled and fits. -/
theorem capacity_iff (f : FrameBuffer) (as : List Arrival) :
    f.reset.SafeRun as ↔ f.reset.FitsRun as := safeRun_iff f.placed_reset

/-- A STAP-A of three octets whose length field says 65535. -/
def shortStapA : VCMPacket := .ofParsed (L1.H264.parse [0x18, 0xFF, 0xFF]) 9 1 false

/-- The unit is read from behind the payload and written over the end of the
buffer of 30000 octets. -/
theorem stap_length_trusted :
    let f : FrameBuffer := ({ id := 0 } : FrameBuffer).reset
    f.reads shortStapA = [⟨1, 2⟩, ⟨3, 65535⟩] ∧ shortStapA.data.length = 3 ∧
      f.writes shortStapA = [⟨0, 4⟩, ⟨4, 65535⟩] ∧ f.capacity shortStapA = 30000 ∧
      ¬ f.SafeRun [(shortStapA, .noErrors, ⟨0, 0⟩)] := by
  intro f
  have hreads : f.reads shortStapA = [⟨1, 2⟩, ⟨3, 65535⟩] := by decide
  refine ⟨hreads, by decide, by decide, by decide, fun h => ?_⟩
  have := h.1.reads ⟨3, 65535⟩ (by rw [hreads]; simp)
  exact absurd this (by decide)

end FrameBuffer

end RtcCore.L3
