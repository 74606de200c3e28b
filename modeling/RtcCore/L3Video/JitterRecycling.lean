import RtcCore.L3Video.JitterBuffer

/-!
# What giving up frames keeps

`RecycleFramesUntilKeyFrame` is called in loops and on several ways through
`InsertPacket` and `GetNackList`. A relation between a buffer and what becomes
of it (`Recycling`) that one call keeps is kept by all of them.

The lists themselves only get shorter (`Trimmed`).
-/
namespace RtcCore.L3

namespace FrameList

theorem recycle_split (l : FrameList) :
    ∃ a, l = a ++ (recycleFramesUntilKeyFrame l).2 ∧
      (recycleFramesUntilKeyFrame l).1 = a.map FrameBuffer.reset := by
  induction l with
  | nil => exact ⟨[], rfl, rfl⟩
  | cons f l ih =>
    unfold recycleFramesUntilKeyFrame
    split
    · exact ⟨[f], rfl, rfl⟩
    · split
      · exact ⟨[f], rfl, rfl⟩
      · obtain ⟨a, h1, h2⟩ := ih
        exact ⟨f :: a, by rw [List.cons_append, ← h1], by rw [List.map_cons, ← h2]⟩

theorem recycle_sublist (l : FrameList) : (recycleFramesUntilKeyFrame l).2.Sublist l := by
  obtain ⟨a, ha, -⟩ := recycle_split l
  conv => rhs; rw [ha]
  exact List.sublist_append_right ..

theorem cleanUp_split (d : DecodingState) (l : FrameList) :
    l = (cleanUpOldOrEmptyFrames d l).2.1 ++ (cleanUpOldOrEmptyFrames d l).2.2 := by
  induction l generalizing d with
  | nil => rfl
  | cons f l ih =>
    unfold cleanUpOldOrEmptyFrames
    dsimp only
    generalize (if f.state = .empty ∧ l ≠ [] then d.updateEmptyFrame f
      else (d.isOld f.timestamp, d)) = r
    split
    · exact congrArg (f :: ·) (ih _)
    · rfl

end FrameList

namespace JitterBuffer

/-- `R` goes from a buffer to the one in which frames are given up. -/
structure Recycling (R : JitterBuffer → JitterBuffer → Prop) : Prop where
  refl : ∀ s, R s s
  trans : ∀ {s t u}, R s t → R t u → R s u
  recycle : ∀ s, R s s.recycleFramesUntilKeyFrame.2

namespace Recycling

variable {R : JitterBuffer → JitterBuffer → Prop}

theorem recycleWhile (h : Recycling R) (cond : JitterBuffer → Bool) (fuel : Nat) (found : Bool)
    (s : JitterBuffer) : R s (recycleWhile cond fuel found s).2 := by
  induction fuel generalizing found s with
  | zero => exact h.refl s
  | succ fuel ih =>
    unfold JitterBuffer.recycleWhile
    split
    · exact h.trans (h.recycle s) (ih _ _)
    · exact h.refl s

/-- The check that comes first in `UpdateNackList` and in `GetNackList`. -/
theorem tooLarge (h : Recycling R) (s : JitterBuffer) :
    R s (if s.tooLargeNackList then s.handleTooLargeNackList else (true, s)).2 := by
  split
  · exact h.recycleWhile ..
  · exact h.refl s

theorem pruneMissing (h : Recycling R) (s : JitterBuffer) (seq : UInt16) :
    R s (s.pruneMissing seq).2 := by
  have hlarge := h.tooLarge s
  unfold JitterBuffer.pruneMissing
  dsimp only
  generalize (if s.tooLargeNackList then s.handleTooLargeNackList else (true, s)) = r at hlarge
  split
  · exact hlarge
  · split
    · exact h.trans hlarge (h.recycleWhile ..)
    · exact hlarge

theorem updateNackList (h : Recycling R) (hcover : ∀ s seq, R s (s.coverMissing seq))
    (s : JitterBuffer) (seq : UInt16) : R s (s.updateNackList seq).2 := by
  unfold JitterBuffer.updateNackList
  split
  · exact h.refl s
  · split
    · exact h.trans (hcover s seq) (h.pruneMissing ..)
    · exact hcover s seq

theorem nackInitial (h : Recycling R) (s : JitterBuffer) : R s s.nackInitial.2 := by
  unfold JitterBuffer.nackInitial
  dsimp only
  split
  · exact h.refl s
  · split <;> exact h.recycle s

theorem getNackList (h : Recycling R) (hlong : ∀ s, R s s.nackTooLong.2) (s : JitterBuffer) :
    R s s.getNackList.2 := by
  have h1 := h.nackInitial s
  unfold JitterBuffer.getNackList
  split
  · exact h.refl s
  generalize s.nackInitial = r at h1
  obtain ⟨o, s₁⟩ := r
  cases o with
  | some r => exact h1
  | none =>
    dsimp only
    have h2 := h.trans h1 (h.tooLarge s₁)
    generalize (if s₁.tooLargeNackList then s₁.handleTooLargeNackList else (true, s₁)) = r at h2
    have h3 := h.trans h2 (hlong r.2)
    generalize r.2.nackTooLong = u at h3
    obtain ⟨o, s₂⟩ := u
    cases o <;> exact h3

end Recycling

/-! ## The lists get shorter -/

/-- Frames may leave the lists. -/
structure Trimmed (s t : JitterBuffer) : Prop where
  decodable : t.decodableFrames.Sublist s.decodableFrames
  incomplete : t.incompleteFrames.Sublist s.incompleteFrames

theorem Trimmed.refl (s : JitterBuffer) : Trimmed s s := ⟨.refl _, .refl _⟩

theorem Trimmed.trans {s t u : JitterBuffer} (h : Trimmed s t) (h' : Trimmed t u) : Trimmed s u :=
  ⟨h'.decodable.trans h.decodable, h'.incomplete.trans h.incomplete⟩

theorem Trimmed.of_eq {s t : JitterBuffer} (hd : t.decodableFrames = s.decodableFrames)
    (hi : t.incompleteFrames = s.incompleteFrames) : Trimmed s t :=
  ⟨hd ▸ .refl _, hi ▸ .refl _⟩

theorem trimmed_afterRecycling (s : JitterBuffer) (key : Option FrameBuffer) :
    Trimmed s (s.afterRecycling key).2 := by
  unfold afterRecycling
  split
  · exact .of_eq rfl rfl
  · dsimp only
    split
    · exact .of_eq rfl rfl
    · exact .refl s

theorem trimmed_recycle (s : JitterBuffer) : Trimmed s s.recycleFramesUntilKeyFrame.2 := by
  unfold recycleFramesUntilKeyFrame
  dsimp only
  split
  · refine Trimmed.trans ?_ (trimmed_afterRecycling _ _)
    exact ⟨.refl _, FrameList.recycle_sublist _⟩
  · refine Trimmed.trans ?_ (trimmed_afterRecycling _ _)
    exact ⟨FrameList.recycle_sublist _, .refl _⟩

theorem trimming : Recycling Trimmed := ⟨.refl, .trans, trimmed_recycle⟩

theorem trimmed_nackTooLong (s : JitterBuffer) : Trimmed s s.nackTooLong.2 := by
  unfold nackTooLong
  split
  · split
    · exact .refl s
    · exact .of_eq rfl rfl
  · exact .refl s

theorem trimmed_noteReceived (s : JitterBuffer) (p : VCMPacket) (code : BufferEnum)
    (f : FrameBuffer) : Trimmed s (s.noteReceived p code f).2.2 := by
  unfold noteReceived
  split
  · exact .refl s
  split
  · exact .of_eq rfl rfl
  · have h := trimming.updateNackList (fun _ _ => .of_eq rfl rfl) s p.seqNum
    exact h.trans (.of_eq rfl rfl)

theorem trimmed_cleanUp (s : JitterBuffer) : Trimmed s s.cleanUpOldOrEmptyFrames := by
  have hd := FrameList.cleanUp_split s.lastDecodedState s.decodableFrames
  unfold cleanUpOldOrEmptyFrames
  dsimp only
  generalize FrameList.cleanUpOldOrEmptyFrames s.lastDecodedState s.decodableFrames = r at hd
  have hi := FrameList.cleanUp_split r.1 s.incompleteFrames
  generalize FrameList.cleanUpOldOrEmptyFrames r.1 s.incompleteFrames = t at hi
  have h : r.2.2.Sublist s.decodableFrames ∧ t.2.2.Sublist s.incompleteFrames :=
    ⟨hd ▸ List.sublist_append_right .., hi ▸ List.sublist_append_right ..⟩
  split
  · exact ⟨h.1, h.2⟩
  · exact ⟨h.1, h.2⟩

theorem trimmed_pollComplete (s : JitterBuffer) : Trimmed s s.pollComplete.2 := by
  unfold pollComplete
  split
  · exact .refl s
  · exact trimmed_cleanUp s

theorem trimmed_nextComplete (s : JitterBuffer) : Trimmed s s.nextCompleteTimestamp.2 := by
  have hpoll := trimmed_pollComplete s
  unfold nextCompleteTimestamp
  dsimp only
  split
  · exact hpoll
  · exact hpoll.trans (trimmed_cleanUp _)

theorem trimmed_insertOldPacket (s : JitterBuffer) (p : VCMPacket) :
    Trimmed s (s.insertOldPacket p).2 := by
  unfold insertOldPacket
  dsimp only
  generalize (if 0 < p.data.length then s.numConsecutiveOldPackets + 1
    else s.numConsecutiveOldPackets) = n
  split
  · exact ⟨List.nil_sublist _, List.nil_sublist _⟩
  · exact .of_eq rfl rfl

end JitterBuffer

end RtcCore.L3
