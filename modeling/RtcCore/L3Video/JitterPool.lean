import RtcCore.L3Video.JitterRecycling

/-!
# No frame is lost

Every allocated frame is in one place: free, decodable, incomplete or with
the decoder. Frames are counted by identity (`own`), and, because a frame
inserted into a list under a timestamp equivalent to one already there would
be lost, no two frames of the lists have equivalent timestamps (`Apart`):
equivalence is equality modulo 2^31.

The lists stand for maps ordered by `TimestampLessThan`, which is an order only
on timestamps from one half of their circle. `Ordered` says of a step that it
looks a timestamp up only where that one and the timestamps of the frames lie in
such a half. Elsewhere the search of a map can miss a frame that is there, and
the frame that is then put in under the same timestamp is lost.

The other path that loses frames is `ExtractAndSetDecode` of a frame that is
not complete: the frame and what the search for a key frame passes over are
in no list any more.

Results:
* `frames_conserved`: in every run whose look-ups are ordered and whose
  extractions all find a complete frame (or none), every frame is in exactly
  one place, and a packet can be inserted unless the decoder holds all
  `kMaxNumberOfFrames` frames.
* `extraction_loses_frame`: a run that loses a frame.
-/
namespace RtcCore.L3

open Serial

/-! ## Timestamps -/

/-- The class of a timestamp under the lists' comparator. -/
def timestampClass (t : UInt32) : Nat := t.toNat % 0x80000000

theorem equiv_iff_class (a b : UInt32) :
    Keyed.equiv timestampLessThan a b = true ↔ timestampClass a = timestampClass b := by
  have ha := a.toNat_lt
  have hb := b.toNat_lt
  simp only [Keyed.equiv, timestampLessThan, isNewerTimestamp, timestampClass, Bool.and_eq_true,
    Bool.not_eq_true', Bool.and_eq_false_iff, bne_eq_false_iff_eq, decide_eq_false_iff_not,
    UInt32.toNat_sub, ← UInt32.toNat_inj]
  omega

/-- One half of the timestamps' circle. -/
def inHalf (base t : UInt32) : Prop := (t - base).toNat < 0x80000000

theorem timestamp_ranked (base : UInt32) :
    Keyed.Ranked timestampLessThan (inHalf base) (fun t => (t - base).toNat) where
  lt_iff {a b} ha hb := by
    have h1 := a.toNat_lt
    have h2 := b.toNat_lt
    have h3 := base.toNat_lt
    simp only [inHalf, UInt32.toNat_sub] at ha hb
    simp only [timestampLessThan, isNewerTimestamp, bne_iff_ne, ne_eq, Bool.and_eq_true,
      decide_eq_true_eq, UInt32.toNat_sub, ← UInt32.toNat_inj]
    omega
  inj {a b} _ _ h := by
    have := UInt32.toNat_inj.1 h
    simpa using this

/-! ## Counting frames -/

/-- 1 for the frame with identity `i`. -/
def own (i : Nat) (f : FrameBuffer) : Nat := if f.id = i then 1 else 0

def isId (i : Nat) (f : FrameBuffer) : Bool := f.id == i

def inClass (c : Nat) (f : FrameBuffer) : Bool := timestampClass f.timestamp == c

namespace FrameList

theorem popFrame_count {l l' : FrameList} {t : UInt32} {f : FrameBuffer}
    (h : l.popFrame t = some (f, l')) (P : FrameBuffer → Bool) :
    l.countP P = l'.countP P + if P f then 1 else 0 := by
  obtain ⟨-, a, b, rfl, rfl⟩ := Keyed.pop_some h
  simp only [List.countP_append, List.countP_cons]
  omega

theorem popFrame_class {l l' : FrameList} {t : UInt32} {f : FrameBuffer}
    (h : l.popFrame t = some (f, l')) : timestampClass f.timestamp = timestampClass t :=
  (equiv_iff_class ..).1 (Keyed.pop_some h).1

theorem popFrame_none {l : FrameList} {t : UInt32} (h : l.popFrame t = none) :
    l.countP (inClass (timestampClass t)) = 0 := by
  rw [List.countP_eq_zero]
  intro f hf hc
  have := Keyed.pop_none h f hf
  rw [(equiv_iff_class ..).2 (by simpa [inClass] using hc)] at this
  cases this

theorem insertFrame_count {l : FrameList} {f : FrameBuffer}
    (h : l.countP (inClass (timestampClass f.timestamp)) = 0) (P : FrameBuffer → Bool) :
    (l.insertFrame f).countP P = l.countP P + if P f then 1 else 0 := by
  have hnew : ∀ g ∈ l, Keyed.equiv timestampLessThan f.timestamp g.timestamp = false := by
    intro g hg
    rw [List.countP_eq_zero] at h
    refine Bool.eq_false_iff.2 fun hc => h g hg ?_
    simp [inClass, (equiv_iff_class ..).1 hc]
  obtain ⟨a, b, rfl, he⟩ := Keyed.insertEnd_new hnew
  rw [insertFrame, he]
  simp only [List.countP_append, List.countP_cons]
  omega

theorem countP_id_reset (i : Nat) (l : FrameList) :
    (l.map FrameBuffer.reset).countP (isId i) = l.countP (isId i) := by
  rw [List.countP_map]; rfl

end FrameList

namespace JitterBuffer

/-- The frames of the two lists that satisfy `P`. -/
def count (P : FrameBuffer → Bool) (s : JitterBuffer) : Nat :=
  s.decodableFrames.countP P + s.incompleteFrames.countP P

/-- How often frame `i` is in the buffer. -/
def held (i : Nat) (s : JitterBuffer) : Nat := s.freeFrames.countP (isId i) + s.count (isId i)

/-- No two frames of the lists have equivalent timestamps. -/
def Apart (s : JitterBuffer) : Prop := ∀ c, s.count (inClass c) ≤ 1

/-- 1 for an allocated identity. -/
def allocated (i : Nat) (s : JitterBuffer) : Nat := if i < s.maxNumberOfFrames then 1 else 0

/-- Frames move from the lists to the free ones, none is lost. -/
structure Recycles (s t : JitterBuffer) : Prop where
  held : ∀ i, t.held i = s.held i
  count : ∀ P, t.count P ≤ s.count P
  max : t.maxNumberOfFrames = s.maxNumberOfFrames

theorem Recycles.refl (s : JitterBuffer) : Recycles s s := ⟨fun _ => rfl, fun _ => Nat.le_refl _, rfl⟩

theorem Recycles.trans {s t u : JitterBuffer} (h : Recycles s t) (h' : Recycles t u) :
    Recycles s u :=
  ⟨fun i => (h'.held i).trans (h.held i), fun P => Nat.le_trans (h'.count P) (h.count P),
    h'.max.trans h.max⟩

theorem Recycles.apart {s t : JitterBuffer} (h : Recycles s t) (ha : s.Apart) : t.Apart :=
  fun c => Nat.le_trans (h.count _) (ha c)

/-- A change that leaves the three lists alone. -/
theorem Recycles.of_eq {s t : JitterBuffer} (hf : t.freeFrames = s.freeFrames)
    (hd : t.decodableFrames = s.decodableFrames) (hi : t.incompleteFrames = s.incompleteFrames)
    (hm : t.maxNumberOfFrames = s.maxNumberOfFrames) : Recycles s t :=
  ⟨fun i => by simp only [JitterBuffer.held, JitterBuffer.count, hf, hd, hi],
    fun P => by simp only [JitterBuffer.count, hd, hi, Nat.le_refl], hm⟩

theorem recycles_afterRecycling (s : JitterBuffer) (key : Option FrameBuffer) :
    Recycles s (s.afterRecycling key).2 := by
  unfold afterRecycling
  split
  · exact .of_eq rfl rfl rfl rfl
  · dsimp only
    split
    · exact .of_eq rfl rfl rfl rfl
    · exact .refl s

theorem recycles_recycle (s : JitterBuffer) : Recycles s s.recycleFramesUntilKeyFrame.2 := by
  unfold recycleFramesUntilKeyFrame
  dsimp only
  split
  · refine Recycles.trans ?_ (recycles_afterRecycling _ _)
    obtain ⟨a, h1, h2⟩ := FrameList.recycle_split s.incompleteFrames
    refine ⟨fun i => ?_, fun P => ?_, rfl⟩
    · have := congrArg (List.countP (isId i)) h1
      simp only [held, count, List.countP_append, h2, FrameList.countP_id_reset] at this ⊢
      omega
    · have := congrArg (List.countP P) h1
      simp only [count, List.countP_append] at this ⊢
      omega
  · refine Recycles.trans ?_ (recycles_afterRecycling _ _)
    obtain ⟨a, h1, h2⟩ := FrameList.recycle_split s.decodableFrames
    refine ⟨fun i => ?_, fun P => ?_, rfl⟩
    · have := congrArg (List.countP (isId i)) h1
      simp only [held, count, List.countP_append, h2, FrameList.countP_id_reset] at this ⊢
      omega
    · have := congrArg (List.countP P) h1
      simp only [count, List.countP_append] at this ⊢
      omega

theorem recycling : Recycling Recycles := ⟨.refl, .trans, recycles_recycle⟩

theorem recycles_noteReceived (s : JitterBuffer) (p : VCMPacket) (code : BufferEnum)
    (f : FrameBuffer) :
    Recycles s (s.noteReceived p code f).2.2 ∧ (s.noteReceived p code f).2.1.id = f.id ∧
      (s.noteReceived p code f).2.1.timestamp = f.timestamp := by
  unfold noteReceived
  split
  · exact ⟨.refl s, rfl, rfl⟩
  split
  · exact ⟨.of_eq rfl rfl rfl rfl, rfl, rfl⟩
  · have h := recycling.updateNackList (fun _ _ => .of_eq rfl rfl rfl rfl) s p.seqNum
    dsimp only
    refine ⟨h.trans (.of_eq rfl rfl rfl rfl), ?_, ?_⟩
    · split <;> rfl
    · split <;> rfl

theorem recycles_cleanUp (s : JitterBuffer) : Recycles s s.cleanUpOldOrEmptyFrames := by
  have hd := FrameList.cleanUp_split s.lastDecodedState s.decodableFrames
  unfold cleanUpOldOrEmptyFrames
  dsimp only
  generalize FrameList.cleanUpOldOrEmptyFrames s.lastDecodedState s.decodableFrames = r at hd
  have hi := FrameList.cleanUp_split r.1 s.incompleteFrames
  generalize FrameList.cleanUpOldOrEmptyFrames r.1 s.incompleteFrames = t at hi
  have h : Recycles s { s with
      lastDecodedState := t.1, decodableFrames := r.2.2, incompleteFrames := t.2.2
      freeFrames := s.freeFrames ++ r.2.1 ++ t.2.1 } := by
    refine ⟨fun i => ?_, fun P => ?_, rfl⟩
    · have h1 := congrArg (List.countP (isId i)) hd
      have h2 := congrArg (List.countP (isId i)) hi
      simp only [held, count, List.countP_append] at h1 h2 ⊢
      omega
    · have h1 := congrArg (List.countP P) hd
      have h2 := congrArg (List.countP P) hi
      simp only [count, List.countP_append] at h1 h2 ⊢
      omega
  split
  · exact h
  · exact h.trans (.of_eq rfl rfl rfl rfl)

theorem recycles_flush (s : JitterBuffer) : Recycles s s.flush := by
  refine ⟨fun i => ?_, fun P => ?_, rfl⟩
  · simp only [held, count, flush, List.countP_append, FrameList.countP_id_reset, List.countP_nil]
    omega
  · simp [count, flush]

theorem recycles_stop (s : JitterBuffer) : Recycles s s.stop := by
  refine ⟨fun i => ?_, fun P => ?_, rfl⟩
  · simp only [held, count, stop, FrameList.countP_id_reset, List.countP_append, List.countP_nil]
    omega
  · simp [count, stop]

theorem recycles_nackTooLong (s : JitterBuffer) : Recycles s s.nackTooLong.2 := by
  unfold nackTooLong
  split
  · split
    · exact .refl s
    · exact .of_eq rfl rfl rfl rfl
  · exact .refl s

theorem recycles_getNackList (s : JitterBuffer) : Recycles s s.getNackList.2 :=
  recycling.getNackList recycles_nackTooLong s

theorem recycles_pollComplete (s : JitterBuffer) : Recycles s s.pollComplete.2 := by
  unfold pollComplete
  split
  · exact .refl s
  · exact recycles_cleanUp s

theorem recycles_nextComplete (s : JitterBuffer) : Recycles s s.nextCompleteTimestamp.2 := by
  have h := recycles_pollComplete s
  unfold nextCompleteTimestamp
  dsimp only
  split
  · exact h
  · exact h.trans (recycles_cleanUp _)

/-! ## InsertPacket -/

/-- What `GetFrame` takes out of the buffer: the frame, of which the buffer
then holds one copy less, and no frame with its timestamp is left. -/
structure Taken (s t : JitterBuffer) (f : FrameBuffer) (p : VCMPacket) : Prop where
  held : ∀ i, t.held i + own i f + s.allocated i = s.held i + t.allocated i
  count : ∀ P, t.count P ≤ s.count P
  alone : t.count (inClass (timestampClass p.timestamp)) = 0
  stamp : f.state = .empty ∨ timestampClass f.timestamp = timestampClass p.timestamp

theorem own_eq (i : Nat) (f : FrameBuffer) : own i f = if isId i f then 1 else 0 := by
  simp [own, isId]

theorem getEmptyFrame_taken {s t : JitterBuffer} {f : FrameBuffer}
    (h : s.getEmptyFrame = some (f, t)) :
    (∀ i, t.held i + own i f + s.allocated i = s.held i + t.allocated i) ∧
      ∀ P, t.count P = s.count P := by
  unfold getEmptyFrame at h
  split at h
  · rename_i g l hf
    cases h
    refine ⟨fun i => ?_, fun P => rfl⟩
    simp only [held, count, hf, List.countP_cons, own_eq, allocated]
    omega
  · rename_i hf
    split at h
    · cases h
    · cases h
      refine ⟨fun i => ?_, fun P => rfl⟩
      simp only [held, count, own, allocated]
      split <;> split <;> split <;> omega

theorem taken_of_pop {s t : JitterBuffer} {f : FrameBuffer} {p : VCMPacket} (ha : s.Apart)
    (hf : t.freeFrames = s.freeFrames) (hm : t.maxNumberOfFrames = s.maxNumberOfFrames)
    (hc : ∀ P, s.count P = t.count P + if P f then 1 else 0)
    (hs : timestampClass f.timestamp = timestampClass p.timestamp) : Taken s t f p := by
  refine ⟨fun i => ?_, fun P => ?_, ?_, Or.inr hs⟩
  · have := hc (isId i)
    simp only [held, own_eq, allocated, hf, hm]
    omega
  · have := hc P
    omega
  · have h1 := hc (inClass (timestampClass p.timestamp))
    have h2 := ha (timestampClass p.timestamp)
    rw [if_pos (by simp [inClass, hs])] at h1
    omega

/-- What `GetFrame` does, apart from the assert. -/
theorem getFrame_cases {s t : JitterBuffer} {p : VCMPacket} {o : Option (FrameBuffer × Origin)}
    (ha : s.Apart) (h : s.getFrame p = some (o, t)) :
    (o = none ∧ (∀ i, t.held i + s.allocated i = s.held i + t.allocated i) ∧
      ∀ P, t.count P ≤ s.count P) ∨
    ∃ f origin, o = some (f, origin) ∧ Taken s t f p ∧ (origin = .new → f.state = .empty) := by
  unfold getFrame at h
  split at h
  · rename_i f l hp
    cases h
    refine Or.inr ⟨f, _, rfl, taken_of_pop ha rfl rfl (fun P => ?_) (FrameList.popFrame_class hp),
      fun h => by cases h⟩
    have := FrameList.popFrame_count hp P
    simp only [count]
    omega
  rename_i hi
  split at h
  · rename_i f l hp
    cases h
    refine Or.inr ⟨f, _, rfl, taken_of_pop ha rfl rfl (fun P => ?_) (FrameList.popFrame_class hp),
      fun h => by cases h⟩
    have := FrameList.popFrame_count hp P
    simp only [count]
    omega
  rename_i hd
  have h0 : s.count (inClass (timestampClass p.timestamp)) = 0 := by
    rw [count, FrameList.popFrame_none hi, FrameList.popFrame_none hd]
  split at h
  · rename_i f t' he
    cases h
    obtain ⟨h1, h2⟩ := getEmptyFrame_taken he
    exact Or.inr ⟨_, _, rfl, ⟨h1, fun P => Nat.le_of_eq (h2 P), (h2 _).trans h0, Or.inl rfl⟩,
      fun _ => rfl⟩
  -- the pool is used up: frames are recycled first
  have hr := recycles_recycle s
  dsimp only at h
  generalize s.recycleFramesUntilKeyFrame = r at h hr
  split at h
  · cases h
  rename_i f t' he
  obtain ⟨h1, h2⟩ := getEmptyFrame_taken he
  have h3 : ∀ i, t'.held i + own i f + s.allocated i = s.held i + t'.allocated i := by
    intro i
    have := h1 i
    rw [hr.held i] at this
    simp only [allocated, hr.max] at this ⊢
    exact this
  have h4 : ∀ P, t'.count P ≤ s.count P := fun P => by rw [h2]; exact hr.count P
  split at h
  · cases h
    refine Or.inr ⟨_, _, rfl, ⟨h3, h4, ?_, Or.inl rfl⟩, fun _ => rfl⟩
    have := h4 (inClass (timestampClass p.timestamp))
    omega
  · cases h
    refine Or.inl ⟨rfl, fun i => ?_, h4⟩
    have := h3 i
    simp only [held, allocated, own_eq, List.countP_append, List.countP_singleton] at this ⊢
    simp only [count] at this ⊢
    omega

/-- A packet changes neither the identity of its frame nor the class of its
timestamp. -/
theorem insertPacket_stamp (f : FrameBuffer) (p : VCMPacket) (mode : Session.DecodeErrorMode)
    (d : Session.FrameData)
    (h : f.state = .empty ∨ timestampClass f.timestamp = timestampClass p.timestamp) :
    (f.insertPacket p mode d).2.id = f.id ∧
      timestampClass (f.insertPacket p mode d).2.timestamp = timestampClass p.timestamp := by
  have ho : (f.openWith p).id = f.id ∧
      timestampClass (f.openWith p).timestamp = timestampClass p.timestamp := by
    unfold FrameBuffer.openWith
    split
    · exact ⟨rfl, rfl⟩
    · rename_i hne
      exact ⟨rfl, h.resolve_left hne⟩
  unfold FrameBuffer.insertPacket
  split
  · exact ho
  · rename_i g hgrow
    obtain ⟨buffer, size, rfl⟩ := FrameBuffer.grow_eq hgrow
    dsimp only
    split
    · exact ho
    split
    · exact ho
    split
    · exact ho
    split
    · exact ho
    split <;> exact ho

theorem promote_count (mode : Session.DecodeErrorMode) (new : FrameBuffer) :
    ∀ (inc dec : FrameList) (d : DecodingState),
    (∀ c, dec.countP (inClass c) + inc.countP (inClass c) ≤ 1) → ∀ P,
    (promote mode new d inc dec).2.countP P + (promote mode new d inc dec).1.countP P =
      dec.countP P + inc.countP P := by
  intro inc
  induction inc with
  | nil => intro dec d _ P; rfl
  | cons f l ih =>
    intro dec d ha P
    have hrest : ∀ c, dec.countP (inClass c) + l.countP (inClass c) ≤ 1 := by
      intro c
      have := ha c
      rw [List.countP_cons] at this
      omega
    unfold promote
    split
    · have := ih dec d hrest P
      dsimp only
      rw [List.countP_cons, List.countP_cons]
      omega
    split
    · have h0 : dec.countP (inClass (timestampClass f.timestamp)) = 0 := by
        have := ha (timestampClass f.timestamp)
        rw [List.countP_cons, if_pos (by simp [inClass])] at this
        omega
      have hi := FrameList.insertFrame_count h0
      rw [ih (dec.insertFrame f) _ (fun c => ?_) P, hi P, List.countP_cons]
      · omega
      · have := ha c
        rw [List.countP_cons] at this
        rw [hi]
        omega
    split
    · rfl
    · have := ih dec d hrest P
      dsimp only
      rw [List.countP_cons, List.countP_cons]
      omega

theorem recycles_findAndInsert {s : JitterBuffer} (ha : s.Apart) (new : FrameBuffer) :
    Recycles s (s.findAndInsertContinuousFrames new) := by
  have hp := promote_count s.decodeErrorMode new s.incompleteFrames s.decodableFrames
    (s.lastDecodedState.setState new) ha
  have hc : ∀ P, (s.findAndInsertContinuousFrames new).count P = s.count P := hp
  exact ⟨fun i => by rw [held, hc]; rfl, fun P => Nat.le_of_eq (hc P), rfl⟩

/-- `f` is put into the buffer, in one place. -/
structure Added (s t : JitterBuffer) (f : FrameBuffer) : Prop where
  held : ∀ i, t.held i = s.held i + own i f
  count : ∀ P, t.count P ≤ s.count P + if P f then 1 else 0
  max : t.maxNumberOfFrames = s.maxNumberOfFrames

section Added

variable {s t u : JitterBuffer} {f : FrameBuffer}

theorem Added.then (h : Added s t f) (h' : Recycles t u) : Added s u f :=
  ⟨fun i => (h'.held i).trans (h.held i), fun P => Nat.le_trans (h'.count P) (h.count P),
    h'.max.trans h.max⟩

theorem Added.apart (h : Added s t f) (ha : s.Apart)
    (h0 : s.count (inClass (timestampClass f.timestamp)) = 0) : t.Apart := by
  intro c
  have := h.count (inClass c)
  by_cases hc : inClass c f = true
  · have he : timestampClass f.timestamp = c := by simpa [inClass] using hc
    rw [he] at h0
    rw [h0, if_pos hc] at this
    exact this
  · rw [if_neg hc] at this
    exact Nat.le_trans this (ha c)

theorem added_free (hf : t.freeFrames = s.freeFrames ++ [f])
    (hd : t.decodableFrames = s.decodableFrames) (hi : t.incompleteFrames = s.incompleteFrames)
    (hm : t.maxNumberOfFrames = s.maxNumberOfFrames) : Added s t f := by
  have hc : ∀ P, t.count P = s.count P := fun P => by simp only [JitterBuffer.count, hd, hi]
  refine ⟨fun i => ?_, fun P => ?_, hm⟩
  · simp only [JitterBuffer.held, hc, own_eq, hf, List.countP_append, List.countP_singleton]
    omega
  · rw [hc]; exact Nat.le_add_right ..

theorem added_of_count (hf : t.freeFrames = s.freeFrames)
    (hc : ∀ P, t.count P = s.count P + if P f then 1 else 0)
    (hm : t.maxNumberOfFrames = s.maxNumberOfFrames) : Added s t f := by
  refine ⟨fun i => ?_, fun P => Nat.le_of_eq (hc P), hm⟩
  simp only [JitterBuffer.held, hc, own_eq, hf]
  omega

theorem added_incomplete (h0 : s.count (inClass (timestampClass f.timestamp)) = 0) :
    Added s { s with incompleteFrames := s.incompleteFrames.insertFrame f } f := by
  have hi0 : s.incompleteFrames.countP (inClass (timestampClass f.timestamp)) = 0 := by
    simp only [JitterBuffer.count] at h0; omega
  refine added_of_count rfl (fun P => ?_) rfl
  simp only [JitterBuffer.count, FrameList.insertFrame_count hi0]
  omega

theorem added_decodable (h0 : s.count (inClass (timestampClass f.timestamp)) = 0) :
    Added s { s with decodableFrames := s.decodableFrames.insertFrame f } f := by
  have hd0 : s.decodableFrames.countP (inClass (timestampClass f.timestamp)) = 0 := by
    simp only [JitterBuffer.count] at h0; omega
  refine added_of_count rfl (fun P => ?_) rfl
  simp only [JitterBuffer.count, FrameList.insertFrame_count hd0]
  omega

end Added

/-- The frame is back in the buffer. -/
theorem placeFrame_added {s : JitterBuffer} (origin : Origin) {code : BufferEnum} {f : FrameBuffer}
    (hcode : code ≠ .oldPacket) (ha : s.Apart)
    (h0 : s.count (inClass (timestampClass f.timestamp)) = 0) :
    Added s (s.placeFrame origin code f).2 f := by
  have hinc := added_incomplete h0
  have hdec := added_decodable h0
  have hboth : Added s (if s.isContinuous f then
        { s with decodableFrames := s.decodableFrames.insertFrame f }.findAndInsertContinuousFrames f
      else { s with incompleteFrames := s.incompleteFrames.insertFrame f }) f := by
    split
    · exact hdec.then (recycles_findAndInsert (hdec.apart ha h0) f)
    · exact hinc
  have hback : Added s (s.placeFrame origin .noError f).2 f := by
    cases origin with
    | incomplete => exact hinc
    | decodable => exact hdec
    | new => exact added_free rfl rfl rfl rfl
  unfold placeFrame
  cases code with
  | generalError => exact added_free rfl rfl rfl rfl
  | timeStampError => exact added_free rfl rfl rfl rfl
  | sizeError => exact added_free rfl rfl rfl rfl
  | flushIndicator => exact added_free rfl rfl rfl rfl
  | completeSession => exact hboth
  | decodableSession => exact hboth
  | incomplete =>
    dsimp only
    split
    · exact added_free rfl rfl rfl rfl
    · exact hinc
  | duplicatePacket => exact hback
  | noError => exact hback
  | outOfBoundsPacket => exact hback
  | oldPacket => exact absurd rfl hcode

/-- A packet's result is never the jitter buffer's own `kOldPacket`. -/
theorem noteReceived_code (s : JitterBuffer) (f : FrameBuffer) (p : VCMPacket)
    (mode : Session.DecodeErrorMode) (d : Session.FrameData) :
    (s.noteReceived p (f.insertPacket p mode d).1 (f.insertPacket p mode d).2).1 ≠ .oldPacket := by
  have h : (f.insertPacket p mode d).1 ≠ .oldPacket := by
    unfold FrameBuffer.insertPacket
    split
    · simp
    dsimp only
    repeat' split
    all_goals simp
  unfold noteReceived
  split
  · exact h
  split
  · exact h
  · dsimp only
    split
    · simp
    · exact h

theorem recycles_insertOldPacket (s : JitterBuffer) (p : VCMPacket) :
    Recycles s (s.insertOldPacket p).2 := by
  unfold insertOldPacket
  dsimp only
  generalize (if 0 < p.data.length then s.numConsecutiveOldPackets + 1
    else s.numConsecutiveOldPackets) = n
  split
  · exact Recycles.trans (.of_eq rfl rfl rfl rfl) (recycles_flush _)
  · exact .of_eq rfl rfl rfl rfl

/-- Frames move, and new ones are allocated; none is lost. -/
structure Keeps (s t : JitterBuffer) : Prop where
  held : ∀ i, t.held i + s.allocated i = s.held i + t.allocated i
  apart : t.Apart

theorem Recycles.keeps {s t : JitterBuffer} (h : Recycles s t) (ha : s.Apart) : Keeps s t :=
  ⟨fun i => by simp only [h.held i, allocated, h.max], h.apart ha⟩

theorem keeps_insertIntoFrame {s t : JitterBuffer} {p : VCMPacket} {f : FrameBuffer}
    (origin : Origin) (ha : s.Apart) (ht : Taken s t f p) :
    Keeps s (t.insertIntoFrame p f origin).2 := by
  obtain ⟨hid, hst⟩ := insertPacket_stamp f p t.decodeErrorMode
    ⟨t.rttMs, t.averagePacketsPerFrame⟩ ht.stamp
  have hcode := noteReceived_code t f p t.decodeErrorMode ⟨t.rttMs, t.averagePacketsPerFrame⟩
  unfold insertIntoFrame
  dsimp only
  generalize f.insertPacket p t.decodeErrorMode ⟨t.rttMs, t.averagePacketsPerFrame⟩ = q
    at hid hst hcode
  obtain ⟨hn, hnid, hnst⟩ := recycles_noteReceived t p q.1 q.2
  generalize t.noteReceived p q.1 q.2 = n at hcode hn hnid hnst
  have ha' : t.Apart := fun c => Nat.le_trans (ht.count _) (ha c)
  have h0 : n.2.2.count (inClass (timestampClass n.2.1.timestamp)) = 0 := by
    rw [hnst, hst]
    have := hn.count (inClass (timestampClass p.timestamp))
    have := ht.alone
    omega
  have hadd := placeFrame_added origin hcode (hn.apart ha') h0
  refine ⟨fun i => ?_, hadd.apart (hn.apart ha') h0⟩
  have h1 := ht.held i
  have h2 : own i n.2.1 = own i f := by simp only [own, hnid, hid]
  have h3 : (n.2.2.placeFrame origin n.1 n.2.1).2.allocated i = t.allocated i := by
    simp only [allocated, hadd.max, hn.max]
  rw [hadd.held i, hn.held i, h2, h3]
  exact h1

/-- `InsertPacket` loses no frame. -/
theorem keeps_insertPacket {s t : JitterBuffer} {p : VCMPacket} {r : Reply} (ha : s.Apart)
    (h : s.insertPacket p = some (r, t)) : Keeps s t := by
  have hnew : ∀ s : JitterBuffer, s.Apart → s.insertNewPacket p = some (r, t) → Keeps s t := by
    intro s ha h
    unfold insertNewPacket at h
    split at h
    · cases h
    · rename_i t' hg
      cases h
      rcases getFrame_cases ha hg with ⟨-, h1, h2⟩ | ⟨f, o, hc, -⟩
      · exact ⟨h1, fun c => Nat.le_trans (h2 _) (ha c)⟩
      · cases hc
    · rename_i f origin t' hg
      obtain rfl : (t'.insertIntoFrame p f origin).2 = t := congrArg Prod.snd (Option.some.inj h)
      rcases getFrame_cases ha hg with ⟨hc, -⟩ | ⟨f', o', hc, ht, -⟩
      · cases hc
      · cases hc
        exact keeps_insertIntoFrame origin ha ht
  unfold insertPacket at h
  split at h
  · obtain rfl : (s.insertOldPacket p).2 = t := congrArg Prod.snd (Option.some.inj h)
    exact (recycles_insertOldPacket s p).keeps ha
  · have := hnew { s with numConsecutiveOldPackets := 0 } ha h
    exact ⟨this.held, this.apart⟩

/-! ## Extraction -/

/-- Extracting a complete frame, or nothing. -/
theorem extract_keeps {s : JitterBuffer} {t : UInt32}
    (hc : ∀ f l, s.decodableFrames.popFrame t = some (f, l) → f.state = .complete) :
    (∀ i, (s.extractAndSetDecode t).2.held i + ((s.extractAndSetDecode t).1.toList.countP (isId i)) =
        s.held i) ∧
      (∀ P, (s.extractAndSetDecode t).2.count P ≤ s.count P) ∧
      (s.extractAndSetDecode t).2.maxNumberOfFrames = s.maxNumberOfFrames := by
  unfold extractAndSetDecode
  split
  · exact ⟨fun i => rfl, fun P => Nat.le_refl _, rfl⟩
  split
  · exact ⟨fun i => rfl, fun P => Nat.le_refl _, rfl⟩
  rename_i f l hp
  rw [if_pos (hc f l hp)]
  dsimp only
  have hr : Recycles { s with decodableFrames := l }
      (setDecoded { s with decodableFrames := l } f).2 := by
    unfold setDecoded
    dsimp only
    split
    · unfold updateAveragePacketsPerFrame
      dsimp only
      split
      · exact .of_eq rfl rfl rfl rfl
      split <;> exact .of_eq rfl rfl rfl rfl
    · exact .of_eq rfl rfl rfl rfl
  have hid : ((setDecoded { s with decodableFrames := l } f).1).id = f.id := rfl
  generalize setDecoded { s with decodableFrames := l } f = u at hr hid
  refine ⟨fun i => ?_, fun P => ?_, hr.max⟩
  · have h1 := FrameList.popFrame_count hp (isId i)
    have h2 : isId i u.1 = isId i f := by simp only [isId, hid]
    rw [hr.held i]
    simp only [held, count, Option.toList_some, List.countP_singleton, h2]
    omega
  · have h1 := FrameList.popFrame_count hp P
    refine Nat.le_trans (hr.count P) ?_
    simp only [count]
    omega

/-! ## When no frame can be found -/

theorem freeFrames_afterRecycling (s : JitterBuffer) (key : Option FrameBuffer) :
    (s.afterRecycling key).2.freeFrames = s.freeFrames := by
  unfold afterRecycling
  split
  · rfl
  · dsimp only
    split <;> rfl

theorem recycle_nil {l : FrameList} (h : (FrameList.recycleFramesUntilKeyFrame l).1 = []) :
    l = [] := by
  cases l with
  | nil => rfl
  | cons f l =>
    unfold FrameList.recycleFramesUntilKeyFrame at h
    split at h
    · cases h
    · split at h <;> cases h

theorem freeFrames_recycle {s : JitterBuffer}
    (h : s.recycleFramesUntilKeyFrame.2.freeFrames = []) :
    s.freeFrames = [] ∧ s.decodableFrames = [] ∧ s.incompleteFrames = [] := by
  unfold recycleFramesUntilKeyFrame at h
  dsimp only at h
  split at h
  · rename_i hne
    rw [freeFrames_afterRecycling, List.append_eq_nil_iff] at h
    exact absurd h.2 hne
  · rename_i hnil
    rw [freeFrames_afterRecycling, List.append_eq_nil_iff] at h
    exact ⟨h.1, recycle_nil h.2, recycle_nil (Classical.not_not.1 hnil)⟩

/-- The assert of `GetFrame` fails only when the buffer has no frame left. -/
theorem held_of_assert {s : JitterBuffer} {p : VCMPacket} (h : s.insertPacket p = none) :
    kMaxNumberOfFrames ≤ s.maxNumberOfFrames ∧ ∀ i, s.held i = 0 := by
  have hempty : ∀ s : JitterBuffer, s.getEmptyFrame = none →
      s.freeFrames = [] ∧ kMaxNumberOfFrames ≤ s.maxNumberOfFrames := by
    intro s h
    unfold getEmptyFrame at h
    split at h
    · cases h
    · rename_i hf
      split at h
      · rename_i hm; exact ⟨hf, hm⟩
      · cases h
  have hnew : ∀ s : JitterBuffer, s.insertNewPacket p = none →
      kMaxNumberOfFrames ≤ s.maxNumberOfFrames ∧ ∀ i, s.held i = 0 := by
    intro s h
    have hg : s.getFrame p = none := by
      unfold insertNewPacket at h
      split at h
      · assumption
      · cases h
      · cases h
    unfold getFrame at hg
    split at hg
    · cases hg
    split at hg
    · cases hg
    split at hg
    · cases hg
    rename_i he
    dsimp only at hg
    split at hg
    · rename_i hr
      obtain ⟨h1, h2, h3⟩ := freeFrames_recycle (hempty _ hr).1
      refine ⟨(hempty _ he).2, fun i => ?_⟩
      simp [held, count, h1, h2, h3]
    · split at hg <;> cases hg
  unfold insertPacket at h
  split at h
  · cases h
  · exact hnew { s with numConsecutiveOldPackets := 0 } h

end JitterBuffer

/-! ## Runs -/

def JitterBuffer.frames (s : JitterBuffer) : FrameList := s.decodableFrames ++ s.incompleteFrames

/-- The timestamp lies in one half of the circle with those of the frames in the lists. -/
def JitterBuffer.OneHalf (s : JitterBuffer) (t : UInt32) : Prop :=
  ∃ base, inHalf base t ∧ ∀ f ∈ s.frames, inHalf base f.timestamp

namespace System

/-- Every allocated frame is in exactly one of the four places, once, and no
other frame is. -/
def Conserved (s : System) : Prop :=
  ∀ i, s.jb.freeFrames.countP (isId i) + s.jb.decodableFrames.countP (isId i) +
    s.jb.incompleteFrames.countP (isId i) + s.decoder.countP (isId i) =
      if i < s.jb.maxNumberOfFrames then 1 else 0

/-- An extraction finds no frame under its timestamp or a complete one. -/
def ExtractsComplete (s : System) (op : Op) : Prop :=
  ∀ t, op = .extractAndSetDecode t → s.jb.running = true →
    ∀ f l, s.jb.decodableFrames.popFrame t = some (f, l) → f.state = .complete

/-- Where a step searches the maps, their comparator is an order. -/
def Ordered (s : System) : Op → Prop
  | .insertPacket p => s.jb.OneHalf p.timestamp
  | .extractAndSetDecode t => s.jb.OneHalf t
  | _ => True

def Conserving (s : System) (op : Op) : Prop := s.Ordered op ∧ s.ExtractsComplete op

theorem conserved_iff (s : System) :
    s.Conserved ↔ ∀ i, s.jb.held i + s.decoder.countP (isId i) = s.jb.allocated i := by
  simp only [Conserved, JitterBuffer.held, JitterBuffer.count, JitterBuffer.allocated]
  constructor
  · intro h i; rw [← h i]; omega
  · intro h i; rw [← h i]; omega

structure Inv (s : System) : Prop where
  conserved : s.Conserved
  apart : s.jb.Apart

theorem Inv.keeps {s : System} {t : JitterBuffer} (h : s.Inv) (hk : JitterBuffer.Keeps s.jb t) :
    Inv { s with jb := t } := by
  refine ⟨(conserved_iff _).2 fun i => ?_, hk.apart⟩
  have h1 := (conserved_iff s).1 h.conserved i
  have h2 := hk.held i
  dsimp only
  omega

theorem Inv.recycles {s : System} {t : JitterBuffer} (h : s.Inv)
    (hr : JitterBuffer.Recycles s.jb t) : Inv { s with jb := t } :=
  h.keeps (hr.keeps h.apart)

/-- One step. -/
theorem inv_step {s s' : System} {op : Op} (hc : s.ExtractsComplete op) (h : s.Inv)
    (hs : s.step op = some s') : s'.Inv := by
  cases op with
  | insertPacket p =>
    simp only [step] at hs
    split at hs
    · cases hs
    · rename_i r hr
      cases hs
      exact h.keeps (JitterBuffer.keeps_insertPacket h.apart hr)
  | pollComplete => cases hs; exact h.recycles (JitterBuffer.recycles_pollComplete _)
  | nextCompleteTimestamp => cases hs; exact h.recycles (JitterBuffer.recycles_nextComplete _)
  | nextMaybeIncompleteTimestamp => cases hs; exact h
  | extractAndSetDecode t =>
    cases hs
    by_cases hrun : s.jb.running = true
    · obtain ⟨h1, h2, h3⟩ := JitterBuffer.extract_keeps (hc t rfl hrun)
      refine ⟨(conserved_iff _).2 fun i => ?_, fun c => Nat.le_trans (h2 _) (h.apart c)⟩
      have h4 := h1 i
      have h5 := (conserved_iff s).1 h.conserved i
      simp only [JitterBuffer.allocated, h3, List.countP_append] at h5 ⊢
      omega
    · have : s.jb.extractAndSetDecode t = (none, s.jb) := by
        unfold JitterBuffer.extractAndSetDecode
        rw [if_pos (by simpa using hrun)]
      rw [this]
      exact h
  | releaseFrame id =>
    simp only [step] at hs
    split at hs
    · cases hs
    · rename_i f l hp
      cases hs
      obtain ⟨-, a, b, hd, rfl⟩ := Keyed.pop_some hp
      refine ⟨(conserved_iff _).2 fun i => ?_, h.apart⟩
      have := (conserved_iff s).1 h.conserved i
      show _ = s.jb.allocated i
      rw [← this, hd]
      simp only [JitterBuffer.held, JitterBuffer.count, JitterBuffer.releaseFrame,
        List.countP_append, List.countP_cons, List.countP_nil]
      omega
  | flush => cases hs; exact h.recycles (JitterBuffer.recycles_flush _)
  | getNackList => cases hs; exact h.recycles (JitterBuffer.recycles_getNackList _)
  | setDecodeErrorMode mode => cases hs; exact h.recycles (.of_eq rfl rfl rfl rfl)
  | setNackMode mode high => cases hs; exact h.recycles (.of_eq rfl rfl rfl rfl)
  | setNackSettings size age time => cases hs; exact h.recycles (.of_eq rfl rfl rfl rfl)
  | updateRtt rtt => cases hs; exact h.recycles (.of_eq rfl rfl rfl rfl)
  | start => cases hs; exact h.recycles (.of_eq rfl rfl rfl rfl)
  | stop => cases hs; exact h.recycles (JitterBuffer.recycles_stop _)

theorem inv_initial : initial.Inv := by
  refine ⟨(conserved_iff _).2 fun i => ?_, fun c => Nat.zero_le _⟩
  have hids : initial.jb.freeFrames.countP (isId i) = (List.range 6).countP (· == i) := by
    show ((List.range 6).map fun j => ({ id := j } : FrameBuffer)).countP (isId i) = _
    rw [List.countP_map]
    rfl
  rw [JitterBuffer.held, hids]
  show List.count i (List.range 6) + 0 + 0 = if i < 6 then 1 else 0
  rw [List.count_range]
  rfl

theorem inv_reachable (s : System) (h : (lts.within Conserving).Reachable s) : s.Inv := by
  refine LTS.Inductive.reachable ⟨?_, ?_⟩ s h
  · rintro s rfl
    exact inv_initial
  · rintro s op s' hi ⟨hc, hs⟩
    exact inv_step hc.2 hi hs

/-- **No frame is lost.** In every run whose look-ups are ordered and whose
extractions find a complete frame or none, every frame is in exactly one place;
and a packet finds a frame unless the decoder holds `kMaxNumberOfFrames` of them. -/
theorem frames_conserved (s : System) (h : (lts.within Conserving).Reachable s) :
    s.Conserved ∧ ∀ p, s.decoder.length < kMaxNumberOfFrames → (s.step (.insertPacket p)).isSome := by
  have hi := inv_reachable s h
  refine ⟨hi.conserved, fun p hlt => ?_⟩
  simp only [step]
  split
  · rename_i hn
    obtain ⟨hmax, h0⟩ := JitterBuffer.held_of_assert hn
    -- all the allocated frames would be with the decoder
    have hsub : List.range s.jb.maxNumberOfFrames ⊆ s.decoder.map FrameBuffer.id := by
      intro i hir
      have h1 := (conserved_iff s).1 hi.conserved i
      rw [h0 i, JitterBuffer.allocated, if_pos (List.mem_range.1 hir)] at h1
      obtain ⟨f, hf, hid⟩ := List.countP_pos_iff.1 (show 0 < s.decoder.countP (isId i) by omega)
      exact List.mem_map.2 ⟨f, hf, by simpa [isId] using hid⟩
    have := List.nodup_range.length_le_of_subset hsub
    rw [List.length_range, List.length_map] at this
    omega
  · rfl

/-- A complete key frame goes to the decoder. -/
theorem frames_conserved_extract :
    let p : VCMPacket := .ofRtp [1] 1000 7 true .key { isFirstPacket := true, codec := .generic }
    ∃ s, (lts.within Conserving).Run initial [.insertPacket p, .extractAndSetDecode 1000] s ∧
      s.decoder.map FrameBuffer.id = [0] ∧ s.Conserved := by
  intro p
  have h : ∃ s₁, initial.step (.insertPacket p) = some s₁ ∧
      s₁.jb.frames.map FrameBuffer.timestamp = [1000] ∧
      (s₁.jb.decodableFrames.popFrame 1000).map (fun r => r.1.state) = some .complete ∧
      ∃ s₂, s₁.step (.extractAndSetDecode 1000) = some s₂ ∧ s₂.decoder.map FrameBuffer.id = [0] :=
    ⟨_, rfl, by decide, by decide, _, rfl, by decide⟩
  obtain ⟨s₁, h1, hf, hst, s₂, h2, hd⟩ := h
  have hhalf : ∀ {s : JitterBuffer}, s.frames.map FrameBuffer.timestamp ⊆ [1000] →
      s.OneHalf 1000 := fun hs => ⟨1000, by unfold inHalf; decide, fun f hf => by
    rw [List.mem_singleton.1 (hs (List.mem_map_of_mem hf))]
    unfold inHalf
    decide⟩
  have hrun : (lts.within Conserving).Run initial
      [.insertPacket p, .extractAndSetDecode 1000] s₂ := by
    refine .cons ⟨⟨hhalf (List.nil_subset _), fun t ht => (by cases ht)⟩, h1⟩
      (.cons ⟨⟨hhalf (hf ▸ List.Subset.refl _), fun t ht _ f l hp => ?_⟩, h2⟩ (.nil _))
    cases ht
    rw [hp] at hst
    exact Option.some.inj hst
  exact ⟨s₂, hrun, hd, (frames_conserved s₂ ⟨initial, _, rfl, hrun⟩).1⟩

/-- A delta frame decodable with errors, extracted while incomplete, is in no
list any more. -/
theorem extraction_loses_frame :
    let p : VCMPacket := .ofRtp [1] 1000 7 false .delta { isFirstPacket := false, codec := .generic }
    ∃ s, lts.Reachable s ∧ ¬ s.Conserved ∧
      lts.Run initial
        [.setDecodeErrorMode .withErrors, .insertPacket p, .extractAndSetDecode 1000] s := by
  intro p
  have h1 : ∃ s₁, initial.step (.setDecodeErrorMode .withErrors) = some s₁ ∧
      ∃ s₂, s₁.step (.insertPacket p) = some s₂ ∧
        ∃ s₃, s₂.step (.extractAndSetDecode 1000) = some s₃ ∧
          s₃.jb.freeFrames.countP (isId 0) + s₃.jb.decodableFrames.countP (isId 0) +
            s₃.jb.incompleteFrames.countP (isId 0) + s₃.decoder.countP (isId 0) = 0 ∧
          s₃.jb.maxNumberOfFrames = 6 :=
    ⟨_, rfl, _, rfl, _, rfl, by decide, by decide⟩
  obtain ⟨s₁, h1, s₂, h2, s₃, h3, h0, hm⟩ := h1
  have hrun : lts.Run initial
      [.setDecodeErrorMode .withErrors, .insertPacket p, .extractAndSetDecode 1000] s₃ :=
    .cons h1 (.cons h2 (.cons h3 (.nil _)))
  refine ⟨s₃, ⟨initial, _, rfl, hrun⟩, fun hc => ?_, hrun⟩
  have := hc 0
  rw [h0, hm] at this
  exact absurd this (by decide)

end System

end RtcCore.L3
