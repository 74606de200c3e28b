import RtcCore.L3Video.JitterPool
import RtcCore.L3Video.FrameSteps

/-!
# What the jitter buffer's steps do

Lemmas about single operations that the results on NACK lists and on decode
order share: which frames can be in the lists afterwards, what recycling may
do to the missing numbers, and the way an accepted packet takes through
`InsertPacket`.
-/
namespace RtcCore.L3

open Serial

/-! ## Frames in the lists -/

/-- The codes of a packet that the buffer has taken in. -/
def BufferEnum.accepted : BufferEnum → Bool
  | .noError | .incomplete | .completeSession | .decodableSession | .duplicatePacket => true
  | _ => false

namespace JitterBuffer

open Classical in
theorem mem_frames_iff (s : JitterBuffer) (f : FrameBuffer) :
    f ∈ s.frames ↔ 0 < s.count fun g => decide (g = f) := by
  rw [count, ← List.countP_append, List.countP_pos_iff]
  constructor
  · intro h; exact ⟨f, h, decide_eq_true rfl⟩
  · rintro ⟨g, hg, he⟩
    rw [← of_decide_eq_true he]
    exact hg

theorem mem_of_count {s t : JitterBuffer} (h : ∀ P, t.count P ≤ s.count P) {f : FrameBuffer}
    (hf : f ∈ t.frames) : f ∈ s.frames := by
  rw [mem_frames_iff] at hf ⊢
  exact Nat.lt_of_lt_of_le hf (h _)

open Classical in
theorem Added.mem {s t : JitterBuffer} {f g : FrameBuffer} (h : Added s t f) (hg : g ∈ t.frames) :
    g ∈ s.frames ∨ g = f := by
  rw [mem_frames_iff] at hg ⊢
  have := h.count fun x => decide (x = g)
  by_cases hfg : f = g
  · exact Or.inr hfg.symm
  · rw [if_neg (fun hc => hfg (of_decide_eq_true hc))] at this
    exact Or.inl (Nat.lt_of_lt_of_le hg this)

/-- The frame `GetFrame` finds is in the lists or fresh. -/
theorem getFrame_mem {s t : JitterBuffer} {p : VCMPacket} {f : FrameBuffer} {origin : Origin}
    (h : s.getFrame p = some (some (f, origin), t)) :
    (origin = .new ∧ ∃ g : FrameBuffer, f = g.reset) ∨ (origin ≠ .new ∧ f ∈ s.frames) := by
  unfold getFrame at h
  split at h
  · rename_i g l hp
    cases h
    obtain ⟨-, a, b, hl, -⟩ := Keyed.pop_some hp
    refine Or.inr ⟨by simp, ?_⟩
    rw [frames, hl]
    simp
  split at h
  · rename_i g l hp
    cases h
    obtain ⟨-, a, b, hl, -⟩ := Keyed.pop_some hp
    refine Or.inr ⟨by simp, ?_⟩
    rw [frames, hl]
    simp
  split at h
  · cases h
    exact Or.inl ⟨rfl, _, rfl⟩
  dsimp only at h
  split at h
  · cases h
  split at h
  · cases h
    exact Or.inl ⟨rfl, _, rfl⟩
  · cases h

/-! ## Recycling and the missing numbers -/

/-- Missing numbers may go, and the decoding state may be reset. -/
structure Pruned (s t : JitterBuffer) : Prop where
  missing : t.missingSequenceNumbers.Sublist s.missingSequenceNumbers
  last : t.lastDecodedState = s.lastDecodedState ∨ t.lastDecodedState = {}
  latest : t.latestReceivedSequenceNumber = s.latestReceivedSequenceNumber
  first : t.firstPacketSinceReset = s.firstPacketSinceReset
  nackMode : t.nackMode = s.nackMode
  errorMode : t.decodeErrorMode = s.decodeErrorMode

theorem Pruned.refl (s : JitterBuffer) : Pruned s s :=
  ⟨.refl _, Or.inl rfl, rfl, rfl, rfl, rfl⟩

theorem Pruned.trans {s t u : JitterBuffer} (h : Pruned s t) (h' : Pruned t u) : Pruned s u := by
  refine ⟨h'.missing.trans h.missing, ?_, h'.latest.trans h.latest, h'.first.trans h.first,
    h'.nackMode.trans h.nackMode, h'.errorMode.trans h.errorMode⟩
  rcases h'.last with hl | hl
  · rcases h.last with hl' | hl'
    · exact Or.inl (hl.trans hl')
    · exact Or.inr (hl.trans hl')
  · exact Or.inr hl

theorem pruned_afterRecycling (s : JitterBuffer) (key : Option FrameBuffer) :
    Pruned s (s.afterRecycling key).2 := by
  unfold afterRecycling
  split
  · exact ⟨Keyed.dropThrough_sublist, Or.inr rfl, rfl, rfl, rfl, rfl⟩
  · dsimp only
    split
    · exact ⟨List.nil_sublist _, Or.inr rfl, rfl, rfl, rfl, rfl⟩
    · exact .refl s

theorem pruned_recycle (s : JitterBuffer) : Pruned s s.recycleFramesUntilKeyFrame.2 := by
  unfold recycleFramesUntilKeyFrame
  dsimp only
  split
  · refine Pruned.trans ?_ (pruned_afterRecycling _ _)
    exact ⟨.refl _, Or.inl rfl, rfl, rfl, rfl, rfl⟩
  · refine Pruned.trans ?_ (pruned_afterRecycling _ _)
    exact ⟨.refl _, Or.inl rfl, rfl, rfl, rfl, rfl⟩

theorem pruning : Recycling Pruned := ⟨.refl, .trans, pruned_recycle⟩

/-- `GetNackList` changes the state. -/
def nackEvent (s : JitterBuffer) : Bool :=
  (s.lastDecodedState.inInitialState && !s.firstFrameIsKey) || s.tooLargeNackList ||
    decide (0 < s.maxIncompleteTimeMs ∧
      90 * s.maxIncompleteTimeMs < s.nonContinuousOrIncompleteDuration)

theorem pruned_nackTooLong (s : JitterBuffer) : Pruned s s.nackTooLong.2 := by
  unfold nackTooLong
  split
  · split
    · exact .refl s
    · exact ⟨Keyed.dropThrough_sublist, Or.inr rfl, rfl, rfl, rfl, rfl⟩
  · exact .refl s

theorem pruned_getNackList (s : JitterBuffer) : Pruned s s.getNackList.2 :=
  pruning.getNackList pruned_nackTooLong s

theorem getNackList_calm {s : JitterBuffer} (h : s.nackEvent = false) : s.getNackList.2 = s := by
  simp only [nackEvent, Bool.or_eq_false_iff, decide_eq_false_iff_not] at h
  obtain ⟨⟨h1, h2⟩, h3⟩ := h
  have hinit : s.nackInitial = (none, s) := by
    unfold nackInitial
    rw [if_pos]
    revert h1
    cases s.lastDecodedState.inInitialState <;> cases s.firstFrameIsKey <;> simp
  have hlong : s.nackTooLong = (none, s) := by
    unfold nackTooLong
    rw [if_neg h3]
  unfold getNackList
  split
  · rfl
  · rw [hinit]
    dsimp only
    rw [h2, if_neg Bool.false_ne_true, hlong]

theorem pruned_getFrame {s t : JitterBuffer} {p : VCMPacket} {o : Option (FrameBuffer × Origin)}
    (h : s.getFrame p = some (o, t)) : Pruned s t := by
  have hempty : ∀ {s t : JitterBuffer} {f : FrameBuffer}, s.getEmptyFrame = some (f, t) →
      Pruned s t := by
    intro s t f h
    unfold getEmptyFrame at h
    split at h
    · cases h
      exact ⟨.refl _, Or.inl rfl, rfl, rfl, rfl, rfl⟩
    · split at h
      · cases h
      · cases h
        exact ⟨.refl _, Or.inl rfl, rfl, rfl, rfl, rfl⟩
  unfold getFrame at h
  split at h
  · cases h
    exact ⟨.refl _, Or.inl rfl, rfl, rfl, rfl, rfl⟩
  split at h
  · cases h
    exact ⟨.refl _, Or.inl rfl, rfl, rfl, rfl, rfl⟩
  split at h
  · rename_i he
    cases h
    exact hempty he
  dsimp only at h
  split at h
  · cases h
  rename_i he
  have hr := (pruned_recycle s).trans (hempty he)
  split at h
  · cases h
    exact hr
  · cases h
    exact hr.trans ⟨.refl _, Or.inl rfl, rfl, rfl, rfl, rfl⟩

/-! ## The way of an accepted packet -/

/-- Covering the numbers up to `seq` makes the missing ones too many or too
old. -/
def prunesOn (s : JitterBuffer) (seq : UInt16) : Bool :=
  isNewerSequenceNumber seq s.latestForNack &&
    ((s.coverMissing seq).tooLargeNackList || missingTooOldPacket seq (s.coverMissing seq))

/-- No frame is left for a packet with timestamp `t`. -/
def poolUsedUp (s : JitterBuffer) (t : UInt32) : Bool :=
  (s.incompleteFrames.popFrame t).isNone && (s.decodableFrames.popFrame t).isNone &&
    s.freeFrames.isEmpty && decide (kMaxNumberOfFrames ≤ s.maxNumberOfFrames)

/-- `InsertPacket(p)` recycles frames. -/
def recyclesOn (s : JitterBuffer) (p : VCMPacket) : Bool :=
  s.poolUsedUp p.timestamp ||
    (!s.firstPacketSinceReset && s.nackMode == .nack && s.prunesOn p.seqNum)

theorem placeFrame_code {s : JitterBuffer} {origin : Origin} {code : BufferEnum} {f : FrameBuffer}
    (h : (s.placeFrame origin code f).1.code.accepted = true) : code.accepted = true := by
  unfold placeFrame at h
  cases code <;> first | rfl | exact h

/-- Bookkeeping keeps the code of a packet that is accepted, and such a code
is positive. -/
theorem noteReceived_accepted {s : JitterBuffer} {f g : FrameBuffer} {p : VCMPacket}
    {mode : Session.DecodeErrorMode} {d : Session.FrameData} {code : BufferEnum}
    (ho : FrameBuffer.Outcome f p mode d code g)
    (h : (s.noteReceived p code g).1.accepted = true) :
    code.positive = true ∧ (s.noteReceived p code g).1 = code := by
  have hcode : code.accepted = true → code.positive = true := by
    intro hacc
    cases ho with
    | sizeError => cases hacc
    | rejected _ _ _ hc =>
      rcases hc with ⟨-, rfl⟩ | ⟨-, rfl⟩
      · rfl
      · cases hacc
    | taken _ _ _ hst => rcases hst with ⟨rfl, -⟩ | ⟨rfl, -⟩ | ⟨rfl, -⟩ <;> rfl
  have hnote : (s.noteReceived p code g).1 = code ∨
      (s.noteReceived p code g).1 = .flushIndicator := by
    unfold noteReceived
    split
    · exact Or.inl rfl
    split
    · exact Or.inl rfl
    · dsimp only
      split
      · exact Or.inr rfl
      · exact Or.inl rfl
  rcases hnote with he | he
  · rw [he] at h
    exact ⟨hcode h, he⟩
  · rw [he] at h
    cases h

/-- The code of `VCMFrameBuffer::InsertPacket` in `s`. -/
def frameInsert (s : JitterBuffer) (f : FrameBuffer) (p : VCMPacket) : BufferEnum × FrameBuffer :=
  f.insertPacket p s.decodeErrorMode ⟨s.rttMs, s.averagePacketsPerFrame⟩

/-- The way of a packet that is accepted: from `s`, `u` is the state once its
frame `f` is taken out, `g` the frame with the packet, `v` the state once the
packet is noted. -/
structure Way (s : JitterBuffer) (p : VCMPacket) (u v : JitterBuffer) (f g : FrameBuffer)
    (origin : Origin) (code : BufferEnum) : Prop where
  fresh : s.lastDecodedState.isOld p.timestamp = false
  getFrame : getFrame { s with numConsecutiveOldPackets := 0 } p = some (some (f, origin), u)
  insert : code = (u.frameInsert f p).1
  positive : code.positive = true
  note : u.noteReceived p code (u.frameInsert f p).2 = (code, g, v)

/-- An accepted packet has gone into its frame and into the bookkeeping. -/
theorem insertPacket_accepted {s t : JitterBuffer} {p : VCMPacket} {r : Reply}
    (h : s.insertPacket p = some (r, t)) (hr : r.code.accepted = true) :
    ∃ u v f g origin code, Way s p u v f g origin code ∧ (r, t) = v.placeFrame origin code g := by
  unfold insertPacket at h
  split at h
  · obtain rfl : (s.insertOldPacket p).1 = r := congrArg Prod.fst (Option.some.inj h)
    unfold insertOldPacket at hr
    dsimp only at hr
    generalize (if 0 < p.data.length then s.numConsecutiveOldPackets + 1
      else s.numConsecutiveOldPackets) = n at hr
    split at hr <;> cases hr
  · rename_i hold
    unfold insertNewPacket at h
    split at h
    · cases h
    · cases h; cases hr
    · rename_i f origin u hg
      have ho : FrameBuffer.Outcome f p u.decodeErrorMode ⟨u.rttMs, u.averagePacketsPerFrame⟩
          (u.frameInsert f p).1 (u.frameInsert f p).2 := FrameBuffer.outcome ..
      have he := Option.some.inj h
      unfold insertIntoFrame at he
      change ((u.noteReceived p (u.frameInsert f p).1 (u.frameInsert f p).2).2.2.placeFrame origin
        (u.noteReceived p (u.frameInsert f p).1 (u.frameInsert f p).2).1
        (u.noteReceived p (u.frameInsert f p).1 (u.frameInsert f p).2).2.1) = (r, t) at he
      have hacc : (u.noteReceived p (u.frameInsert f p).1 (u.frameInsert f p).2).1.accepted = true :=
        placeFrame_code (by rw [he]; exact hr)
      obtain ⟨hpos, hcode⟩ := noteReceived_accepted ho hacc
      rw [hcode] at he
      exact ⟨u, _, f, _, origin, _, ⟨by simpa using hold, hg, rfl, hpos, Prod.ext hcode rfl⟩,
        he.symm⟩

section Way

variable {s u v : JitterBuffer} {p : VCMPacket} {f g : FrameBuffer} {origin : Origin}
  {code : BufferEnum}

theorem Way.outcome (h : Way s p u v f g origin code) :
    FrameBuffer.Outcome f p u.decodeErrorMode ⟨u.rttMs, u.averagePacketsPerFrame⟩ code
      (u.frameInsert f p).2 := by
  rw [h.insert]
  exact FrameBuffer.outcome ..

/-- Noting a packet only counts retransmissions in its frame. -/
theorem noteReceived_frame (s : JitterBuffer) (p : VCMPacket) (code : BufferEnum)
    (f : FrameBuffer) : ∃ n, (s.noteReceived p code f).2.1 = { f with nackCount := n } := by
  unfold noteReceived
  split
  · exact ⟨_, rfl⟩
  split
  · exact ⟨_, rfl⟩
  · dsimp only
    split
    · exact ⟨_, rfl⟩
    · exact ⟨_, rfl⟩

theorem Way.frame (h : Way s p u v f g origin code) :
    ∃ n, g = { (u.frameInsert f p).2 with nackCount := n } := by
  have := noteReceived_frame u p code (u.frameInsert f p).2
  rw [h.note] at this
  exact this

theorem Way.taken (h : Way s p u v f g origin code) (ha : s.Apart) : Taken s u f p := by
  rcases getFrame_cases (s := { s with numConsecutiveOldPackets := 0 }) ha h.getFrame with
    ⟨hc, -⟩ | ⟨f', o', hc, ht, -⟩
  · cases hc
  · cases hc
    exact ⟨ht.held, ht.count, ht.alone, ht.stamp⟩

theorem Way.recycles (h : Way s p u v f g origin code) : Recycles u v := by
  have := (recycles_noteReceived u p code (u.frameInsert f p).2).1
  rw [h.note] at this
  exact this

/-- After an accepted packet the lists hold frames they held before, and the
packet's own. -/
theorem Way.added (h : Way s p u v f g origin code) (ha : s.Apart) :
    Added v (v.placeFrame origin code g).2 g := by
  have ht := h.taken ha
  obtain ⟨-, hst⟩ := insertPacket_stamp f p u.decodeErrorMode
    ⟨u.rttMs, u.averagePacketsPerFrame⟩ ht.stamp
  have ha' : u.Apart := fun c => Nat.le_trans (ht.count _) (ha c)
  obtain ⟨n, hg⟩ := h.frame
  have h0 : v.count (inClass (timestampClass g.timestamp)) = 0 := by
    have h1 : timestampClass g.timestamp = timestampClass p.timestamp := by rw [hg]; exact hst
    have h2 := h.recycles.count (inClass (timestampClass p.timestamp))
    have h3 := ht.alone
    rw [h1]
    omega
  refine placeFrame_added origin (fun hc => ?_) (h.recycles.apart ha') h0
  have := h.positive
  rw [hc] at this
  cases this

theorem Way.mem (h : Way s p u v f g origin code) (ha : s.Apart) {x : FrameBuffer}
    (hx : x ∈ (v.placeFrame origin code g).2.frames) : x ∈ s.frames ∨ x = g := by
  rcases (h.added ha).mem hx with hx | hx
  · exact Or.inl (mem_of_count (h.taken ha).count (mem_of_count h.recycles.count hx))
  · exact Or.inr hx

end Way

/-- What placing a frame leaves alone. -/
theorem placeFrame_fields (s : JitterBuffer) (origin : Origin) (code : BufferEnum)
    (f : FrameBuffer) :
    let t := (s.placeFrame origin code f).2
    t.missingSequenceNumbers = s.missingSequenceNumbers ∧
      t.latestReceivedSequenceNumber = s.latestReceivedSequenceNumber ∧
      t.firstPacketSinceReset = s.firstPacketSinceReset ∧ t.nackMode = s.nackMode ∧
      (t.lastDecodedState = s.lastDecodedState ∨
        f.state = .empty ∧ (s.lastDecodedState.updateEmptyFrame f).1 = true ∧
          t.lastDecodedState = (s.lastDecodedState.updateEmptyFrame f).2) := by
  have hboth : ∀ {code : BufferEnum}, code = .completeSession ∨ code = .decodableSession →
      let t := (s.placeFrame origin code f).2
      t.missingSequenceNumbers = s.missingSequenceNumbers ∧
        t.latestReceivedSequenceNumber = s.latestReceivedSequenceNumber ∧
        t.firstPacketSinceReset = s.firstPacketSinceReset ∧ t.nackMode = s.nackMode ∧
        t.lastDecodedState = s.lastDecodedState := by
    intro code hcode
    rcases hcode with rfl | rfl
    all_goals
      unfold placeFrame
      dsimp only
      split
      · exact ⟨rfl, rfl, rfl, rfl, rfl⟩
      · exact ⟨rfl, rfl, rfl, rfl, rfl⟩
  cases code with
  | completeSession =>
    obtain ⟨h1, h2, h3, h4, h5⟩ := hboth (Or.inl rfl)
    exact ⟨h1, h2, h3, h4, Or.inl h5⟩
  | decodableSession =>
    obtain ⟨h1, h2, h3, h4, h5⟩ := hboth (Or.inr rfl)
    exact ⟨h1, h2, h3, h4, Or.inl h5⟩
  | incomplete =>
    unfold placeFrame
    dsimp only
    split
    · rename_i h
      exact ⟨rfl, rfl, rfl, rfl, Or.inr ⟨h.1, h.2, rfl⟩⟩
    · exact ⟨rfl, rfl, rfl, rfl, Or.inl rfl⟩
  | duplicatePacket => cases origin <;> exact ⟨rfl, rfl, rfl, rfl, Or.inl rfl⟩
  | noError => cases origin <;> exact ⟨rfl, rfl, rfl, rfl, Or.inl rfl⟩
  | outOfBoundsPacket => cases origin <;> exact ⟨rfl, rfl, rfl, rfl, Or.inl rfl⟩
  | _ => exact ⟨rfl, rfl, rfl, rfl, Or.inl rfl⟩

/-- Without recycling only lists change before the packet is noted. -/
theorem getFrame_calm {s u : JitterBuffer} {p : VCMPacket} {o : Option (FrameBuffer × Origin)}
    (h : s.getFrame p = some (o, u)) (hc : s.poolUsedUp p.timestamp = false) :
    ∃ free dec inc n, u = { s with
      freeFrames := free, decodableFrames := dec, incompleteFrames := inc, maxNumberOfFrames := n } := by
  have hempty : ∀ {s u : JitterBuffer} {f : FrameBuffer}, s.getEmptyFrame = some (f, u) →
      ∃ free n, u = { s with freeFrames := free, maxNumberOfFrames := n } := by
    intro s u f h
    unfold getEmptyFrame at h
    split at h
    · cases h
      exact ⟨_, _, rfl⟩
    · split at h
      · cases h
      · cases h
        exact ⟨_, _, rfl⟩
  unfold getFrame at h
  split at h
  · cases h
    exact ⟨_, _, _, _, rfl⟩
  rename_i hi
  split at h
  · cases h
    exact ⟨_, _, _, _, rfl⟩
  rename_i hd
  split at h
  · rename_i he
    cases h
    obtain ⟨free, n, rfl⟩ := hempty he
    exact ⟨_, _, _, _, rfl⟩
  · rename_i he
    rw [poolUsedUp, hi, hd] at hc
    unfold getEmptyFrame at he
    split at he
    · cases he
    · rename_i hfree
      split at he
      · rename_i hmax
        rw [hfree, decide_eq_true hmax] at hc
        cases hc
      · cases he

/-! ## Cleaning up and extraction -/

end JitterBuffer

/-- What empty frames passed over keep of the decoding state. -/
theorem FrameList.cleanUp_keeps {P : DecodingState → Prop} {l : FrameList}
    (hstep : ∀ f ∈ l, f.state = .empty → ∀ d, P d → (d.updateEmptyFrame f).1 = true →
      P (d.updateEmptyFrame f).2) {d : DecodingState} (hd : P d) :
    P (cleanUpOldOrEmptyFrames d l).1 := by
  induction l generalizing d with
  | nil => exact hd
  | cons f l ih =>
    have hr : P (if f.state = .empty ∧ l ≠ [] then d.updateEmptyFrame f
        else (d.isOld f.timestamp, d)).2 := by
      split
      · rename_i hc
        by_cases hu : (d.updateEmptyFrame f).1 = true
        · exact hstep f (List.mem_cons_self ..) hc.1 d hd hu
        · -- a frame that stays leaves the state
          have : (d.updateEmptyFrame f).2 = d := by
            unfold DecodingState.updateEmptyFrame at hu ⊢
            dsimp only at hu ⊢
            split
            · rfl
            · split
              · rename_i h1 h2
                rw [if_neg h1, if_pos h2] at hu
                exact absurd rfl hu
              · rfl
          rw [this]
          exact hd
      · exact hd
    unfold cleanUpOldOrEmptyFrames
    dsimp only
    generalize (if f.state = .empty ∧ l ≠ [] then d.updateEmptyFrame f
        else (d.isOld f.timestamp, d)) = r at hr
    split
    · exact ih (fun g hg => hstep g (List.mem_cons_of_mem _ hg)) hr
    · exact hr

theorem FrameList.skipToKeyFrame_some {t : UInt32} {l : FrameList} {f : FrameBuffer}
    (h : (skipToKeyFrame t l).1 = some f) :
    ∃ a, l = a ++ f :: (skipToKeyFrame t l).2 ∧ f.isKey = true ∧ f.state = .complete ∧
      isNewerTimestamp f.timestamp t = true := by
  induction l with
  | nil => cases h
  | cons g l ih =>
    unfold skipToKeyFrame at h ⊢
    split
    · rename_i hc
      rw [if_pos hc] at h
      cases h
      simp only [Bool.and_eq_true, beq_iff_eq] at hc
      exact ⟨[], rfl, hc.1.2, hc.2, hc.1.1⟩
    · rename_i hc
      rw [if_neg hc] at h
      obtain ⟨a, ha, hrest⟩ := ih h
      refine ⟨g :: a, ?_, hrest⟩
      rw [List.cons_append, ← ha]

theorem FrameList.skipToKeyFrame_none {t : UInt32} {l : FrameList}
    (h : (skipToKeyFrame t l).1 = none) : (skipToKeyFrame t l).2 = [] := by
  induction l with
  | nil => rfl
  | cons g l ih =>
    unfold skipToKeyFrame at h ⊢
    split
    · rename_i hc
      rw [if_pos hc] at h
      cases h
    · rename_i hc
      rw [if_neg hc] at h
      exact ih h

namespace JitterBuffer

/-- The decoding state once both lists are cleaned up. -/
def cleanedState (s : JitterBuffer) : DecodingState :=
  (s.incompleteFrames.cleanUpOldOrEmptyFrames
    (s.decodableFrames.cleanUpOldOrEmptyFrames s.lastDecodedState).1).1

theorem cleanUp_fields (s : JitterBuffer) :
    let t := s.cleanUpOldOrEmptyFrames
    t.lastDecodedState = s.cleanedState ∧
      t.missingSequenceNumbers = (if s.cleanedState.inInitialState then s.missingSequenceNumbers
        else Keyed.dropThrough sequenceNumberLessThan id s.cleanedState.sequenceNum
          s.missingSequenceNumbers) ∧
      t.latestReceivedSequenceNumber = s.latestReceivedSequenceNumber ∧
      t.firstPacketSinceReset = s.firstPacketSinceReset ∧ t.nackMode = s.nackMode ∧
      t.decodeErrorMode = s.decodeErrorMode ∧ t.running = s.running := by
  unfold cleanUpOldOrEmptyFrames cleanedState
  dsimp only
  generalize FrameList.cleanUpOldOrEmptyFrames s.lastDecodedState s.decodableFrames = r
  generalize FrameList.cleanUpOldOrEmptyFrames r.1 s.incompleteFrames = t
  cases t.1.inInitialState <;> exact ⟨rfl, rfl, rfl, rfl, rfl, rfl, rfl⟩

/-- Extraction removes frames and, when it hands out `f`, sets the decoding
state to it. -/
theorem extract_inv (s : JitterBuffer) (t : UInt32) :
    ∃ l, (∀ P : FrameBuffer → Bool, l.countP P ≤ s.decodableFrames.countP P) ∧
      (s.extractAndSetDecode t = (none, { s with decodableFrames := l }) ∨
        ∃ f ∈ s.decodableFrames, f.state = .complete ∧
          s.extractAndSetDecode t = (some (setDecoded { s with decodableFrames := l } f).1,
            (setDecoded { s with decodableFrames := l } f).2)) := by
  unfold extractAndSetDecode
  split
  · exact ⟨s.decodableFrames, fun P => Nat.le_refl _, Or.inl rfl⟩
  split
  · exact ⟨s.decodableFrames, fun P => Nat.le_refl _, Or.inl rfl⟩
  rename_i f l hp
  obtain ⟨-, a, b, hl, hl'⟩ := Keyed.pop_some hp
  have hsub : l.Sublist s.decodableFrames := by
    rw [hl, hl']
    exact (List.sublist_cons_self f b).append_left a
  dsimp only
  by_cases hc : f.state = .complete
  · refine ⟨l, fun P => hsub.countP_le, Or.inr ⟨f, ?_, hc, ?_⟩⟩
    · rw [hl]; simp
    · rw [if_pos hc]
  · rw [if_neg hc]
    cases hk : (FrameList.skipToKeyFrame t l).1 with
    | none =>
      refine ⟨(FrameList.skipToKeyFrame t l).2, fun P => ?_, Or.inl rfl⟩
      rw [FrameList.skipToKeyFrame_none hk]
      exact Nat.zero_le _
    | some k =>
      obtain ⟨c, hcl, -, hst, -⟩ := FrameList.skipToKeyFrame_some hk
      have hk' := List.sublist_append_right c (k :: (FrameList.skipToKeyFrame t l).2)
      rw [← hcl] at hk'
      refine ⟨(FrameList.skipToKeyFrame t l).2, fun P => ?_, Or.inr ⟨k, ?_, hst, rfl⟩⟩
      · exact (((List.sublist_cons_self ..).trans hk').trans hsub).countP_le
      · exact hsub.subset (hk'.subset (List.mem_cons_self ..))

theorem setDecoded_fields (s : JitterBuffer) (f : FrameBuffer) :
    let t := (s.setDecoded f).2
    t.decodableFrames = s.decodableFrames ∧ t.incompleteFrames = s.incompleteFrames ∧
      t.lastDecodedState = s.lastDecodedState.setState f ∧
      t.missingSequenceNumbers = Keyed.dropThrough sequenceNumberLessThan id
        (toUInt16 f.highSeqNum) s.missingSequenceNumbers ∧
      t.latestReceivedSequenceNumber = s.latestReceivedSequenceNumber ∧
      t.firstPacketSinceReset = s.firstPacketSinceReset ∧ t.nackMode = s.nackMode ∧
      t.decodeErrorMode = s.decodeErrorMode := by
  have havg : ∀ (s : JitterBuffer) (n : Nat), ∃ a c,
      s.updateAveragePacketsPerFrame n = { s with averagePacketsPerFrame := a, frameCounter := c } := by
    intro s n
    unfold updateAveragePacketsPerFrame
    dsimp only
    split
    · exact ⟨_, _, rfl⟩
    split
    · exact ⟨_, _, rfl⟩
    · exact ⟨_, _, rfl⟩
  unfold setDecoded
  dsimp only
  split
  · obtain ⟨a, c, he⟩ := havg (dropPacketsFromNackList
      { s with lastDecodedState := s.lastDecodedState.setState f }
      (s.lastDecodedState.setState f).sequenceNum) f.session.packets.length
    rw [he]
    exact ⟨rfl, rfl, rfl, rfl, rfl, rfl, rfl, rfl⟩
  · exact ⟨rfl, rfl, rfl, rfl, rfl, rfl, rfl, rfl⟩

end JitterBuffer

end RtcCore.L3
