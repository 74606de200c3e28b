import Mathlib.Data.List.Chain
import RtcCore.Core.Loop
import RtcCore.L3Video.JitterNack

/-!
# Pruning the list of missing numbers

`HandleTooLargeNackList` and `HandleTooOldPackets` give up frames until the
list is short or young enough. Every round takes a frame from the lists or,
when there is none, clears the missing numbers, so the loops end.
`GetNackList` copies what is left into `nack_seq_nums_`, which has
`max_nack_list_size_` entries since `SetNackSettings` (`Receiver`).

The numbers of the list increase one by one, and what goes at the front leaves
it so. Taking a number out of the middle does not, when the list covers half
of the circle or more. `Behind` says of a step that it puts no packet in while
it does.

Results:
- `nack_pruning`: the loops end, with a list short or young enough, the copy is
  inside the array, and in runs with `Behind` its entries increase.
- `nack_list_not_increasing`: a list that covers more than half of the circle.
-/
namespace RtcCore.L3

open Serial

/-- Every number is newer than the one before. -/
def Increasing (l : List UInt16) : Prop := l.IsChain fun a b => isNewerSequenceNumber b a = true

theorem newer_succ (i : UInt16) : isNewerSequenceNumber (i + 1) i = true := by
  have := i.toNat_lt
  simp only [isNewerSequenceNumber, bne_iff_ne, ne_eq, Bool.and_eq_true, decide_eq_true_eq,
    UInt16.toNat_sub, UInt16.toNat_add, UInt16.reduceToNat, ← UInt16.toNat_inj]
  omega

/-- In half of the circle the numbers that increase are in order. -/
theorem increasing_iff {base : UInt16} {l : List UInt16} (hl : ∀ x ∈ l, dist base x < 0x8000) :
    Increasing l ↔ l.Pairwise fun a b => dist base a < dist base b := by
  have htrans : IsTrans UInt16 fun a b => dist base a < dist base b :=
    ⟨fun _ _ _ h h' => Nat.lt_trans h h'⟩
  rw [← List.isChain_iff_pairwise]
  exact List.IsChain.iff_of_mem_imp fun {a b} ha hb => by
    rw [newer_dist base (hl b hb) (hl a ha), decide_eq_true_eq]

namespace JitterBuffer

variable {s t : JitterBuffer} {seq : UInt16}

/-! ## The numbers increase -/

theorem pushMissing_increasing (seq : UInt16) (fuel : Nat) {i : UInt16} {l : List UInt16}
    (h : Increasing l) (hl : ∀ y ∈ l.getLast?, isNewerSequenceNumber i y = true) :
    Increasing (pushMissing seq fuel i l) := by
  induction fuel generalizing i l with
  | zero => exact h
  | succ fuel ih =>
    unfold pushMissing
    split
    · rw [Keyed.insertEnd_of_last hl]
      refine ih (List.isChain_append.2 ⟨h, List.isChain_singleton _, fun y hy z hz => ?_⟩) ?_
      · cases hz
        exact hl y hy
      · intro y hy
        rw [List.getLast?_concat] at hy
        cases hy
        exact newer_succ i
    · exact h

theorem coverMissing_increasing (h : Increasing s.missingSequenceNumbers)
    (hb : ∀ m ∈ s.missingSequenceNumbers,
      isNewerSequenceNumber (s.latestForNack + 1) m = true) (seq : UInt16) :
    Increasing (s.coverMissing seq).missingSequenceNumbers := by
  unfold coverMissing
  dsimp only
  split
  · exact pushMissing_increasing seq _ h fun y hy => hb y (List.mem_of_getLast? hy)
  · -- the numbers lie in one half of the circle, so one may be taken out
    have hwin : ∀ m ∈ s.missingSequenceNumbers,
        dist (s.latestForNack + 1 - 0x8000) m < 0x8000 := by
      intro m hm
      have hnew := hb m hm
      have h1 := m.toNat_lt
      have h2 := s.latestForNack.toNat_lt
      simp only [isNewerSequenceNumber, bne_iff_ne, ne_eq, Bool.and_eq_true, decide_eq_true_eq,
        UInt16.toNat_sub, UInt16.toNat_add, UInt16.reduceToNat, ← UInt16.toNat_inj] at hnew
      simp only [Serial.dist, UInt16.toNat_sub, UInt16.toNat_add, UInt16.reduceToNat]
      omega
    have hsub : (Keyed.erase sequenceNumberLessThan id seq s.missingSequenceNumbers).Sublist
        s.missingSequenceNumbers := Keyed.erase_sublist
    rw [increasing_iff hwin] at h
    rw [increasing_iff fun m hm => hwin m (hsub.subset hm)]
    exact h.sublist hsub

/-! ## What the steps keep -/

/-- Numbers go at the front of the list only. -/
structure Shortened (s t : JitterBuffer) : Prop where
  missing : t.missingSequenceNumbers <:+ s.missingSequenceNumbers
  size : t.maxNackListSize = s.maxNackListSize
  age : t.maxPacketAgeToNack = s.maxPacketAgeToNack

theorem Shortened.refl (s : JitterBuffer) : Shortened s s := ⟨List.suffix_refl _, rfl, rfl⟩

theorem Shortened.trans {u : JitterBuffer} (h : Shortened s t) (h' : Shortened t u) :
    Shortened s u :=
  ⟨h'.missing.trans h.missing, h'.size.trans h.size, h'.age.trans h.age⟩

theorem Shortened.of_eq (hm : t.missingSequenceNumbers = s.missingSequenceNumbers)
    (hs : t.maxNackListSize = s.maxNackListSize)
    (ha : t.maxPacketAgeToNack = s.maxPacketAgeToNack) : Shortened s t :=
  ⟨hm ▸ List.suffix_refl _, hs, ha⟩

theorem Shortened.from {u : JitterBuffer} (h : Shortened t u)
    (hm : t.missingSequenceNumbers = s.missingSequenceNumbers)
    (hs : t.maxNackListSize = s.maxNackListSize)
    (ha : t.maxPacketAgeToNack = s.maxPacketAgeToNack) : Shortened s u :=
  (Shortened.of_eq hm hs ha).trans h

theorem Shortened.increasing (h : Shortened s t) (hi : Increasing s.missingSequenceNumbers) :
    Increasing t.missingSequenceNumbers :=
  hi.suffix h.missing

theorem shortened_drop (s : JitterBuffer) (seq : UInt16) :
    Shortened s (s.dropPacketsFromNackList seq) :=
  ⟨List.dropWhile_suffix _, rfl, rfl⟩

theorem shortened_afterRecycling (s : JitterBuffer) (key : Option FrameBuffer) :
    Shortened s (s.afterRecycling key).2 := by
  unfold afterRecycling
  split
  · exact .from (shortened_drop _ _) rfl rfl rfl
  · dsimp only
    split
    · exact ⟨List.nil_suffix, rfl, rfl⟩
    · exact .refl s

theorem shortened_recycle (s : JitterBuffer) : Shortened s s.recycleFramesUntilKeyFrame.2 := by
  unfold recycleFramesUntilKeyFrame
  dsimp only
  split
  · exact .from (shortened_afterRecycling _ _) rfl rfl rfl
  · exact .from (shortened_afterRecycling _ _) rfl rfl rfl

theorem shortening : Recycling Shortened := ⟨.refl, .trans, shortened_recycle⟩

theorem shortened_nackTooLong (s : JitterBuffer) : Shortened s s.nackTooLong.2 := by
  unfold nackTooLong
  split
  · split
    · exact .refl s
    · exact .from (shortened_drop _ _) rfl rfl rfl
  · exact .refl s

theorem shortened_getFrame {p : VCMPacket} {o : Option (FrameBuffer × Origin)}
    (h : s.getFrame p = some (o, t)) : Shortened s t := by
  have hempty : ∀ {s t : JitterBuffer} {f : FrameBuffer}, s.getEmptyFrame = some (f, t) →
      Shortened s t := by
    intro s t f h
    unfold getEmptyFrame at h
    split at h
    · cases h
      exact .of_eq rfl rfl rfl
    · split at h
      · cases h
      · cases h
        exact .of_eq rfl rfl rfl
  unfold getFrame at h
  split at h
  · cases h
    exact .of_eq rfl rfl rfl
  split at h
  · cases h
    exact .of_eq rfl rfl rfl
  split at h
  · rename_i he
    cases h
    exact hempty he
  dsimp only at h
  split at h
  · cases h
  rename_i he
  have hr := (shortened_recycle s).trans (hempty he)
  split at h
  · cases h
    exact hr
  · cases h
    exact hr.trans (.of_eq rfl rfl rfl)

theorem shortened_placeFrame (s : JitterBuffer) (origin : Origin) (code : BufferEnum)
    (f : FrameBuffer) : Shortened s (s.placeFrame origin code f).2 := by
  have hset : (s.placeFrame origin code f).2.maxNackListSize = s.maxNackListSize ∧
      (s.placeFrame origin code f).2.maxPacketAgeToNack = s.maxPacketAgeToNack := by
    unfold placeFrame
    cases code with
    | completeSession | decodableSession | incomplete =>
      dsimp only
      split <;> exact ⟨rfl, rfl⟩
    | duplicatePacket | noError | outOfBoundsPacket => cases origin <;> exact ⟨rfl, rfl⟩
    | _ => exact ⟨rfl, rfl⟩
  exact .of_eq (placeFrame_fields s origin code f).1 hset.1 hset.2

theorem shortened_insertOldPacket (s : JitterBuffer) (p : VCMPacket) :
    Shortened s (s.insertOldPacket p).2 := by
  unfold insertOldPacket
  dsimp only
  generalize (if 0 < p.data.length then s.numConsecutiveOldPackets + 1
    else s.numConsecutiveOldPackets) = n
  split
  · exact ⟨List.nil_suffix, rfl, rfl⟩
  · exact .from (shortened_drop _ _) rfl rfl rfl

theorem shortened_cleanUp (s : JitterBuffer) : Shortened s s.cleanUpOldOrEmptyFrames := by
  unfold cleanUpOldOrEmptyFrames
  dsimp only
  generalize FrameList.cleanUpOldOrEmptyFrames s.lastDecodedState s.decodableFrames = r
  generalize FrameList.cleanUpOldOrEmptyFrames r.1 s.incompleteFrames = t
  split
  · exact .of_eq rfl rfl rfl
  · exact .from (shortened_drop _ _) rfl rfl rfl

theorem shortened_pollComplete (s : JitterBuffer) : Shortened s s.pollComplete.2 := by
  unfold pollComplete
  split
  · exact .refl s
  · exact shortened_cleanUp s

theorem shortened_nextComplete (s : JitterBuffer) : Shortened s s.nextCompleteTimestamp.2 := by
  have hpoll := shortened_pollComplete s
  unfold nextCompleteTimestamp
  dsimp only
  split
  · exact hpoll
  · exact hpoll.trans (shortened_cleanUp _)

theorem shortened_setDecoded (s : JitterBuffer) (f : FrameBuffer) :
    Shortened s (s.setDecoded f).2 := by
  have havg : ∀ (s : JitterBuffer) (n : Nat), Shortened s (s.updateAveragePacketsPerFrame n) := by
    intro s n
    unfold updateAveragePacketsPerFrame
    dsimp only
    split
    · exact .of_eq rfl rfl rfl
    split <;> exact .of_eq rfl rfl rfl
  have hdrop := Shortened.trans (s := s)
    (t := { s with lastDecodedState := s.lastDecodedState.setState f }) (.of_eq rfl rfl rfl)
    (shortened_drop _ (s.lastDecodedState.setState f).sequenceNum)
  unfold setDecoded
  dsimp only
  split
  · exact hdrop.trans (havg _ _)
  · exact hdrop

theorem shortened_extract (s : JitterBuffer) (t : UInt32) :
    Shortened s (s.extractAndSetDecode t).2 := by
  obtain ⟨l, -, h | ⟨f, -, -, h⟩⟩ := extract_inv s t
  · rw [h]
    exact .of_eq rfl rfl rfl
  · rw [h]
    exact .from (shortened_setDecoded _ f) rfl rfl rfl

/-! ## A packet -/

/-- The missing numbers lie in the half of the circle behind the next number. -/
def Behind (s : JitterBuffer) : Prop :=
  ∀ m ∈ s.missingSequenceNumbers,
    isNewerSequenceNumber (s.latestReceivedSequenceNumber + 1) m = true ∧
      isNewerSequenceNumber (s.latestForNack + 1) m = true

theorem noteReceived_settings (s : JitterBuffer) (p : VCMPacket) (code : BufferEnum)
    (f : FrameBuffer) : (s.noteReceived p code f).2.2.maxNackListSize = s.maxNackListSize := by
  have hupdate : (s.updateNackList p.seqNum).2.maxNackListSize = s.maxNackListSize := by
    unfold updateNackList
    split
    · rfl
    · split
      · exact (shortening.pruneMissing (s.coverMissing p.seqNum) p.seqNum).size
      · rfl
  unfold noteReceived
  split
  · rfl
  split
  · rfl
  · exact hupdate

theorem noteReceived_increasing (h : Increasing s.missingSequenceNumbers)
    (hb : ∀ m ∈ s.missingSequenceNumbers,
      isNewerSequenceNumber (s.latestForNack + 1) m = true) (p : VCMPacket) (code : BufferEnum)
    (f : FrameBuffer) : Increasing (s.noteReceived p code f).2.2.missingSequenceNumbers := by
  have hcover := coverMissing_increasing h hb p.seqNum
  have hupdate : Increasing (s.updateNackList p.seqNum).2.missingSequenceNumbers := by
    unfold updateNackList
    split
    · exact h
    · split
      · exact (shortening.pruneMissing (s.coverMissing p.seqNum) p.seqNum).increasing hcover
      · exact hcover
  unfold noteReceived
  split
  · exact h
  split
  · exact h
  · exact hupdate

theorem insertPacket_pruning {p : VCMPacket} {r : Reply} (h : s.insertPacket p = some (r, t)) :
    t.maxNackListSize = s.maxNackListSize ∧
      (Behind s → Increasing s.missingSequenceNumbers → Increasing t.missingSequenceNumbers) := by
  unfold insertPacket at h
  split at h
  · obtain rfl : (s.insertOldPacket p).2 = t := congrArg Prod.snd (Option.some.inj h)
    have hold := shortened_insertOldPacket s p
    exact ⟨hold.size, fun _ => hold.increasing⟩
  · unfold insertNewPacket at h
    split at h
    · cases h
    · rename_i u hg
      cases h
      have hget := shortened_getFrame hg
      exact ⟨hget.size, fun _ => hget.increasing⟩
    · rename_i f origin u hg
      obtain rfl : (u.insertIntoFrame p f origin).2 = t := congrArg Prod.snd (Option.some.inj h)
      have hget := shortened_getFrame hg
      have hprune := pruned_getFrame hg
      unfold insertIntoFrame
      dsimp only
      generalize f.insertPacket p u.decodeErrorMode ⟨u.rttMs, u.averagePacketsPerFrame⟩ = q
      have hplace := shortened_placeFrame (u.noteReceived p q.1 q.2).2.2 origin
        (u.noteReceived p q.1 q.2).1 (u.noteReceived p q.1 q.2).2.1
      refine ⟨(hplace.size.trans (noteReceived_settings ..)).trans hget.size, fun hb hi => ?_⟩
      -- a frame that had to be made free may have reset the decoding state
      have hlatest : ∀ m ∈ u.missingSequenceNumbers,
          isNewerSequenceNumber (u.latestForNack + 1) m = true := by
        intro m hm
        obtain ⟨h1, h2⟩ := hb m (hget.missing.subset hm)
        have hu : u.latestForNack = s.latestForNack ∨
            u.latestForNack = s.latestReceivedSequenceNumber := by
          unfold latestForNack
          rw [hprune.latest]
          rcases hprune.last with hl | hl
          · rw [hl]
            exact .inl rfl
          · rw [hl]
            exact .inr rfl
        rcases hu with hu | hu
        · rwa [hu]
        · rwa [hu]
      exact hplace.increasing (noteReceived_increasing (hget.increasing hi) hlatest p q.1 q.2)

/-! ## The loops end -/

theorem missing_afterRecycling (s : JitterBuffer) (h : s.decodableFrames = []) :
    (s.afterRecycling none).2.missingSequenceNumbers = [] := by
  unfold afterRecycling
  dsimp only
  rw [if_pos h]

theorem frames_afterRecycling (s : JitterBuffer) (key : Option FrameBuffer) :
    (s.afterRecycling key).2.frames = s.frames := by
  unfold afterRecycling
  split
  · rfl
  · dsimp only
    split <;> rfl

theorem recycle_length {l : FrameList} (h : (FrameList.recycleFramesUntilKeyFrame l).1 ≠ []) :
    (FrameList.recycleFramesUntilKeyFrame l).2.length < l.length := by
  obtain ⟨a, ha, hr⟩ := FrameList.recycle_split l
  rw [hr] at h
  have hpos : 0 < a.length := by
    cases a with
    | nil => exact absurd rfl h
    | cons x a => simp
  have := congrArg List.length ha
  rw [List.length_append] at this
  omega

/-- A round takes a frame from the lists or clears the missing numbers. -/
theorem recycle_progress (s : JitterBuffer) :
    s.recycleFramesUntilKeyFrame.2.missingSequenceNumbers = [] ∨
      s.recycleFramesUntilKeyFrame.2.frames.length < s.frames.length := by
  unfold recycleFramesUntilKeyFrame
  dsimp only
  split
  · rename_i hne
    rw [frames_afterRecycling]
    have := recycle_length hne
    simp only [frames, List.length_append]
    omega
  · by_cases hne : (FrameList.recycleFramesUntilKeyFrame s.decodableFrames).1 ≠ []
    · rw [frames_afterRecycling]
      have := recycle_length hne
      simp only [frames, List.length_append]
      omega
    · -- no frame is left
      have hnil := recycle_nil (Classical.not_not.1 hne)
      left
      rw [hnil]
      exact missing_afterRecycling _ rfl

/-- The rounds that a state can still need. -/
def rounds (x : Bool × JitterBuffer) : Nat :=
  if x.2.missingSequenceNumbers = [] then 0 else x.2.frames.length + 1

/-- The loops of `HandleTooLargeNackList` and `HandleTooOldPackets`. -/
def Pruning (cond : JitterBuffer → Bool) (s : JitterBuffer) (r : Bool × JitterBuffer) : Prop :=
  Loop (fun x : Bool × JitterBuffer => cond x.2) (fun x => x.2.recycleFramesUntilKeyFrame) (false, s) r

theorem recycleWhile_eq (cond : JitterBuffer → Bool) (fuel : Nat) (found : Bool)
    (s : JitterBuffer) : recycleWhile cond fuel found s =
      runWhile (fun x : Bool × JitterBuffer => cond x.2) (fun x => x.2.recycleFramesUntilKeyFrame)
        fuel (found, s) := by
  induction fuel generalizing found s with
  | zero => rfl
  | succ fuel ih =>
    unfold recycleWhile runWhile
    split
    · exact ih ..
    · rfl

theorem recycleWhile_ends {cond : JitterBuffer → Bool}
    (hc : ∀ s : JitterBuffer, s.missingSequenceNumbers = [] → cond s = false) (s : JitterBuffer) :
    Pruning cond s (recycleWhile cond (s.incompleteFrames.length + s.decodableFrames.length + 1)
      false s) := by
  rw [recycleWhile_eq]
  refine Loop.of_runWhile (m := rounds) (fun x hx => ?_) ?_
  · have hne : x.2.missingSequenceNumbers ≠ [] := by
      intro h
      rw [hc _ h] at hx
      cases hx
    unfold rounds
    rw [if_neg hne]
    rcases recycle_progress x.2 with h | h
    · rw [if_pos h]
      omega
    · split <;> omega
  · unfold rounds
    split
    · omega
    · simp only [frames, List.length_append]
      omega

/-- Both loops end, and what they leave is short or young enough. -/
structure Prunes (s : JitterBuffer) : Prop where
  large : Pruning tooLargeNackList s s.handleTooLargeNackList
  short : s.handleTooLargeNackList.2.missingSequenceNumbers.length ≤ s.maxNackListSize
  old : ∀ seq, Pruning (missingTooOldPacket seq) s (s.handleTooOldPackets seq)
  young : ∀ seq, ∀ oldest ∈ (s.handleTooOldPackets seq).2.missingSequenceNumbers.head?,
    ((seq - oldest).toNat : Int) ≤ s.maxPacketAgeToNack

theorem prunes (s : JitterBuffer) : Prunes s := by
  have hlarge : Pruning tooLargeNackList s s.handleTooLargeNackList :=
    recycleWhile_ends (fun s h => by simp [tooLargeNackList, h]) s
  have hold : ∀ seq, Pruning (missingTooOldPacket seq) s (s.handleTooOldPackets seq) :=
    fun seq => recycleWhile_ends (fun s h => by simp [missingTooOldPacket, h]) s
  refine ⟨hlarge, ?_, hold, fun seq oldest ho => ?_⟩
  · have hdone := Loop.done hlarge
    have hsize := (shortening.recycleWhile tooLargeNackList
      (s.incompleteFrames.length + s.decodableFrames.length + 1) false s).size
    change s.handleTooLargeNackList.2.maxNackListSize = _ at hsize
    rw [tooLargeNackList, decide_eq_false_iff_not, hsize] at hdone
    exact Nat.le_of_not_lt hdone
  · have hdone := Loop.done (hold seq)
    have hage := (shortening.recycleWhile (missingTooOldPacket seq)
      (s.incompleteFrames.length + s.decodableFrames.length + 1) false s).age
    change (s.handleTooOldPackets seq).2.maxPacketAgeToNack = _ at hage
    generalize s.handleTooOldPackets seq = r at hdone hage ho
    unfold missingTooOldPacket at hdone
    cases hl : r.2.missingSequenceNumbers with
    | nil =>
      rw [hl] at ho
      cases ho
    | cons x l =>
      rw [hl] at ho hdone
      cases ho
      have := of_decide_eq_false hdone
      omega

/-- The ways out that come before the end hand out no list. -/
theorem nackInitial_reply (s : JitterBuffer) : ∀ r ∈ s.nackInitial.1, r.list = none := by
  unfold nackInitial
  dsimp only
  split
  · exact fun r hr => (by cases hr)
  · split
    · exact fun r hr => (by cases hr)
    · intro r hr
      cases hr
      rfl

theorem nackTooLong_reply (s : JitterBuffer) : ∀ r ∈ s.nackTooLong.1, r.list = none := by
  unfold nackTooLong
  split
  · split
    · intro r hr
      cases hr
      rfl
    · exact fun r hr => (by cases hr)
  · exact fun r hr => (by cases hr)

/-- A list that is handed out is what is missing then, and short enough. -/
theorem getNackList_length {l : List UInt16} (h : s.getNackList.1.list = some l) :
    l = s.getNackList.2.missingSequenceNumbers ∧ l.length ≤ s.maxNackListSize := by
  have hinit := shortening.nackInitial s
  unfold getNackList at h ⊢
  by_cases hmode : s.nackMode = .noNack
  · rw [if_pos hmode] at h
    cases h
  · rw [if_neg hmode] at h ⊢
    have hreply := nackInitial_reply s
    generalize s.nackInitial = r at h hinit hreply
    obtain ⟨o, t⟩ := r
    cases o with
    | some r => exact absurd (hreply r rfl) (by rw [h]; simp)
    | none =>
      dsimp only at h hinit ⊢
      have hlen : (if t.tooLargeNackList then t.handleTooLargeNackList
          else (true, t)).2.missingSequenceNumbers.length ≤ s.maxNackListSize := by
        rw [← hinit.size]
        split
        · exact (prunes t).short
        · rename_i hc
          rw [tooLargeNackList, decide_eq_true_eq] at hc
          exact Nat.le_of_not_lt hc
      generalize (if t.tooLargeNackList then t.handleTooLargeNackList else (true, t)) = u at h hlen
      have hlong := shortened_nackTooLong u.2
      have hreply' := nackTooLong_reply u.2
      generalize u.2.nackTooLong = v at h hlong hreply'
      obtain ⟨o, w⟩ := v
      cases o with
      | some r => exact absurd (hreply' r rfl) (by rw [h]; simp)
      | none =>
        cases h
        exact ⟨rfl, Nat.le_trans hlong.missing.length_le hlen⟩

end JitterBuffer

/-! ## Runs -/

/-- The buffer and its array `nack_seq_nums_`. `inside` says that no entry was written behind it. -/
structure Receiver where
  sys : System
  nackSeqNums : List UInt16
  inside : Bool

namespace Receiver

open JitterBuffer

/-- `std::vector::resize`. -/
def resize (n : Nat) (a : List UInt16) : List UInt16 := a.take n ++ List.replicate (n - a.length) 0

/-- The copy at the end of `GetNackList`.
mirrors webrtc/modules/video_coding/main/source/jitter_buffer.cc:1071-1077 -/
def copyMissing (r : Receiver) (l : List UInt16) : Receiver :=
  { r with
    nackSeqNums := l ++ r.nackSeqNums.drop l.length
    inside := r.inside && decide (l.length ≤ r.nackSeqNums.length) }

/-- What an operation does to the array. -/
def array (r : Receiver) : System.Op → Receiver
  | .setNackSettings n _ _ => { r with nackSeqNums := resize n r.nackSeqNums }
  | .getNackList =>
    match r.sys.jb.getNackList.1.list with
    | none => r
    | some l => r.copyMissing l
  | _ => r

def step (r : Receiver) (op : System.Op) : Option Receiver :=
  (r.sys.step op).map fun s => { r.array op with sys := s }

def initial : Receiver := { sys := System.initial, nackSeqNums := [], inside := true }

def lts : LTS Receiver System.Op := LTS.ofFn (· = initial) step

def Behind (r : Receiver) : System.Op → Prop
  | .insertPacket _ => r.sys.jb.Behind
  | _ => True

/-- The array has the size that `SetNackSettings` gave it, and was never left. -/
structure Fits (r : Receiver) : Prop where
  size : r.nackSeqNums.length = r.sys.jb.maxNackListSize
  inside : r.inside = true

theorem resize_length (n : Nat) (a : List UInt16) : (resize n a).length = n := by
  rw [resize, List.length_append, List.length_take, List.length_replicate]
  omega

/-- What an operation does to the size of the list and to its numbers. -/
theorem step_pruning {s t : System} {op : System.Op} (h : s.step op = some t) :
    ((∀ n age time, op ≠ .setNackSettings n age time) →
      t.jb.maxNackListSize = s.jb.maxNackListSize) ∧
    ((∀ p, op = .insertPacket p → s.jb.Behind) → Increasing s.jb.missingSequenceNumbers →
      Increasing t.jb.missingSequenceNumbers) := by
  have hshort : Shortened s.jb t.jb →
      ((∀ n age time, op ≠ .setNackSettings n age time) →
        t.jb.maxNackListSize = s.jb.maxNackListSize) ∧
      ((∀ p, op = .insertPacket p → s.jb.Behind) → Increasing s.jb.missingSequenceNumbers →
        Increasing t.jb.missingSequenceNumbers) :=
    fun hu => ⟨fun _ => hu.size, fun _ => hu.increasing⟩
  cases op with
  | insertPacket p =>
    simp only [System.step] at h
    split at h
    · cases h
    · rename_i r hr
      cases h
      obtain ⟨h1, h2⟩ := insertPacket_pruning hr
      exact ⟨fun _ => h1, fun hb => h2 (hb p rfl)⟩
  | pollComplete =>
    cases h
    exact hshort (shortened_pollComplete _)
  | nextCompleteTimestamp =>
    cases h
    exact hshort (shortened_nextComplete _)
  | extractAndSetDecode ts =>
    cases h
    exact hshort (shortened_extract _ _)
  | releaseFrame id =>
    simp only [System.step] at h
    split at h
    · cases h
    · cases h
      exact hshort (.of_eq rfl rfl rfl)
  | flush =>
    cases h
    exact hshort ⟨List.nil_suffix, rfl, rfl⟩
  | getNackList =>
    cases h
    exact hshort (shortening.getNackList shortened_nackTooLong _)
  | setNackMode mode high =>
    cases h
    refine hshort ⟨?_, rfl, rfl⟩
    change (if mode = .noNack then [] else s.jb.missingSequenceNumbers) <:+ _
    split
    · exact List.nil_suffix
    · exact List.suffix_refl _
  | setNackSettings n age time =>
    cases h
    exact ⟨fun hne => absurd rfl (hne n age time), fun _ => id⟩
  | nextMaybeIncompleteTimestamp | setDecodeErrorMode | updateRtt | start | stop =>
    cases h
    exact hshort (.of_eq rfl rfl rfl)

theorem fits_step {r r' : Receiver} {op : System.Op} (h : r.Fits) (hs : r.step op = some r') :
    r'.Fits := by
  obtain ⟨t, ht, rfl⟩ := Option.map_eq_some_iff.1 hs
  obtain ⟨hsize, -⟩ := step_pruning ht
  cases op with
  | setNackSettings n age time =>
    cases ht
    exact ⟨resize_length n r.nackSeqNums, h.inside⟩
  | getNackList =>
    have hkeep : t.jb.maxNackListSize = r.sys.jb.maxNackListSize := hsize (by simp)
    unfold array
    dsimp only
    cases hl : r.sys.jb.getNackList.1.list with
    | none => exact ⟨h.size.trans hkeep.symm, h.inside⟩
    | some l =>
      have hlen := (getNackList_length hl).2
      have hfit : l.length ≤ r.nackSeqNums.length := h.size ▸ hlen
      refine ⟨?_, ?_⟩
      · change (l ++ r.nackSeqNums.drop l.length).length = t.jb.maxNackListSize
        rw [List.length_append, List.length_drop, hkeep, ← h.size]
        omega
      · change (r.inside && decide (l.length ≤ r.nackSeqNums.length)) = true
        rw [h.inside, decide_eq_true hfit]
        rfl
  | _ => exact ⟨h.size.trans (hsize (by simp)).symm, h.inside⟩

theorem fits_reachable (r : Receiver) (h : lts.Reachable r) : r.Fits := by
  have hind : lts.Inductive Fits :=
    ⟨fun r hr => hr ▸ ⟨rfl, rfl⟩, fun r op r' h hs => fits_step h hs⟩
  exact hind.reachable r h

theorem increasing_reachable (r : Receiver) (h : (lts.within Behind).Reachable r) :
    Increasing r.sys.jb.missingSequenceNumbers := by
  have hind : (lts.within Behind).Inductive fun r => Increasing r.sys.jb.missingSequenceNumbers := by
    refine ⟨fun r hr => hr ▸ List.isChain_nil, fun r op r' h hs => ?_⟩
    obtain ⟨hb, hs⟩ := hs
    obtain ⟨t, ht, rfl⟩ := Option.map_eq_some_iff.1 hs
    exact (step_pruning ht).2 (fun p hp => by rw [hp] at hb; exact hb) h
  exact hind.reachable r h

theorem nack_pruning {r : Receiver} (hr : lts.Reachable r) :
    Prunes r.sys.jb ∧ r.inside = true ∧
      ∀ l, r.sys.jb.getNackList.1.list = some l →
        l.length ≤ r.sys.jb.maxNackListSize ∧ l.length ≤ r.nackSeqNums.length ∧
          ((lts.within Behind).Reachable r → Increasing l) := by
  have hfits := fits_reachable r hr
  refine ⟨prunes _, hfits.inside, fun l hl => ?_⟩
  obtain ⟨rfl, hlen⟩ := getNackList_length hl
  exact ⟨hlen, hfits.size ▸ hlen, fun hb =>
    (shortening.getNackList shortened_nackTooLong r.sys.jb).increasing (increasing_reachable r hb)⟩

/-- A key frame of one packet. -/
def keyFrame (timestamp : UInt32) (seq : UInt16) : System.Op :=
  .insertPacket (.ofRtp [1] timestamp seq true .key { isFirstPacket := true, codec := .generic })

/-- Two numbers are missing, both are copied. -/
theorem nack_pruning_gap : ∃ r, lts.Reachable r ∧ r.sys.jb.getNackList.1.list = some [2, 3] ∧
    r.nackSeqNums.length = 10 ∧ Prunes r.sys.jb ∧ Increasing [2, 3] := by
  have h : ∃ r₁, initial.step (.setNackMode .nack (-1)) = some r₁ ∧
      ∃ r₂, r₁.step (.setNackSettings 10 100 0) = some r₂ ∧
        r₂.sys.jb.missingSequenceNumbers = [] ∧ ∃ r₃, r₂.step (keyFrame 1000 1) = some r₃ ∧
          r₃.sys.jb.missingSequenceNumbers = [] ∧ ∃ r₄, r₃.step (keyFrame 4000 4) = some r₄ ∧
            r₄.sys.jb.getNackList.1.list = some [2, 3] ∧ r₄.nackSeqNums.length = 10 :=
    ⟨_, rfl, _, rfl, by decide, _, rfl, by decide, _, rfl, by decide,
      by decide⟩
  obtain ⟨r₁, h1, r₂, h2, hm2, r₃, h3, hm3, r₄, h4, hl, ha⟩ := h
  have hb : ∀ {r : Receiver} (t : UInt32) (seq : UInt16), r.sys.jb.missingSequenceNumbers = [] →
      r.Behind (keyFrame t seq) := by
    intro r t seq hm m hmem
    rw [hm] at hmem
    cases hmem
  have hset : initial.Behind (.setNackMode .nack (-1)) ∧ r₁.Behind (.setNackSettings 10 100 0) :=
    ⟨trivial, trivial⟩
  have hrun := show (lts.within Behind).Reachable r₄ from ⟨_, _, rfl, .cons ⟨hset.1, h1⟩
    (.cons ⟨hset.2, h2⟩ (.cons ⟨hb 1000 1 hm2, h3⟩ (.cons ⟨hb 4000 4 hm3, h4⟩ (.nil _))))⟩
  have hr := show lts.Reachable r₄ from
    ⟨_, _, rfl, .cons h1 (.cons h2 (.cons h3 (.cons h4 (.nil _))))⟩
  obtain ⟨hp, -, hlist⟩ := nack_pruning hr
  exact ⟨r₄, hr, hl, ha, hp, (hlist _ hl).2.2 hrun⟩

/-- Numbers may be missing from before a restart. With an age of up to 65535 the list comes to hold
1, 20001 and 40001; when 20001 arrives, the two others are not in order. -/
theorem nack_list_not_increasing : ∃ r, lts.Reachable r ∧
    r.sys.jb.getNackList.1.list = some [1, 40001] ∧ ¬ Increasing [1, 40001] := by
  have h : ∃ r, [.setNackMode .nack (-1), .setNackSettings 100 65535 0, keyFrame 1000 0,
      keyFrame 4000 2, .stop, .start, keyFrame 7000 20000, keyFrame 10000 20002, .stop, .start,
      keyFrame 13000 40000, keyFrame 16000 40002, keyFrame 19000 20001].foldlM step initial = some r ∧
      r.sys.jb.getNackList.1.list = some [1, 40001] :=
    ⟨_, rfl, by decide⟩
  obtain ⟨r, hrun, hl⟩ := h
  refine ⟨r, ⟨initial, _, rfl, LTS.Run.of_foldlM hrun⟩, hl, fun hc => ?_⟩
  exact absurd (List.isChain_pair.1 hc) (by decide)

end Receiver

end RtcCore.L3
