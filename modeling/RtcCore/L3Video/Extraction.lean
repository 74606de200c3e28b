import RtcCore.L3Video.JitterSteps

/-!
# The frame that was announced is the frame that is handed out

`NextCompleteTimestamp` answers with the timestamp of the first decodable
frame, if that one is complete or a complete key frame waits behind it;
`ExtractAndSetDecode` hands out the one or the other. A frame handed out stays
`kStateComplete`: there is no state of its own for it.

The lists are ordered by `IsNewerTimestamp`, which is an order only on
timestamps from one half of their circle. `InHalf` says of a step of a run that
it puts no packet in with a timestamp outside of such a half; the half may move
on from one step to the next. The decodable frames then are in order
(`inOrder_reachable`).

Results:
- `announced_is_extracted`: in such a run the two agree, nothing older than the
  frame handed out stays decodable, and the decoding state is the one after it.
- `announced_not_extracted`: without it they do not, and the frame handed out
  is in state `kStateComplete`.
-/
namespace RtcCore.L3

open Serial

/-! ## Timestamps from one half of the circle -/

theorem newerTimestamp_asymm {a b : UInt32} (h : isNewerTimestamp a b = true) :
    isNewerTimestamp b a = false := by
  have h1 := a.toNat_lt
  have h2 := b.toNat_lt
  simp only [isNewerTimestamp, bne_iff_ne, ne_eq, Bool.and_eq_true, decide_eq_true_eq,
    UInt32.toNat_sub, ← UInt32.toNat_inj] at h
  simp only [isNewerTimestamp, Bool.and_eq_false_iff, decide_eq_false_iff_not, UInt32.toNat_sub]
  omega

/-- Every later frame is newer than every earlier one. -/
def FrameList.InOrder (l : FrameList) : Prop :=
  l.Pairwise fun f g => isNewerTimestamp g.timestamp f.timestamp = true

theorem FrameList.inOrder_iff {base : UInt32} {l : FrameList}
    (hl : ∀ f ∈ l, inHalf base f.timestamp) :
    l.InOrder ↔ l.Pairwise fun f g => (f.timestamp - base).toNat < (g.timestamp - base).toNat :=
  List.Pairwise.iff_of_mem fun hf hg => (timestamp_ranked base).lt_iff (hl _ hf) (hl _ hg)

theorem FrameList.InOrder.insertFrame {base : UInt32} {l : FrameList} {f : FrameBuffer}
    (h : l.InOrder) (hl : ∀ g ∈ l, inHalf base g.timestamp) (hf : inHalf base f.timestamp) :
    (l.insertFrame f).InOrder := by
  have hl' : ∀ g ∈ l.insertFrame f, inHalf base g.timestamp := by
    intro g hg
    rcases Keyed.mem_insertEnd hg with rfl | hg
    · exact hf
    · exact hl g hg
  rw [FrameList.inOrder_iff hl']
  rw [FrameList.inOrder_iff hl] at h
  exact (timestamp_ranked base).insertEnd_pairwise hl hf h

/-- The search finds a complete key frame newer than `t` if there is one. -/
theorem FrameList.skipToKeyFrame_ne_none {t : UInt32} {l : FrameList} {k : FrameBuffer} (hk : k ∈ l)
    (hkey : k.isKey = true) (hc : k.state = .complete)
    (ht : isNewerTimestamp k.timestamp t = true) : (skipToKeyFrame t l).1 ≠ none := by
  induction l with
  | nil => cases hk
  | cons g l ih =>
    unfold skipToKeyFrame
    split
    · exact Option.some_ne_none _
    · rename_i hg
      rcases List.mem_cons.1 hk with rfl | hk
      · rw [hkey, hc, ht] at hg
        exact absurd rfl hg
      · exact ih hk

namespace JitterBuffer

theorem Trimmed.mem {s t : JitterBuffer} (h : Trimmed s t) {f : FrameBuffer} (hf : f ∈ t.frames) :
    f ∈ s.frames := by
  rcases List.mem_append.1 hf with hf | hf
  · exact List.mem_append_left _ (h.decodable.subset hf)
  · exact List.mem_append_right _ (h.incomplete.subset hf)

theorem trimmed_getFrame {s t : JitterBuffer} {p : VCMPacket} {o : Option (FrameBuffer × Origin)}
    (h : s.getFrame p = some (o, t)) : Trimmed s t := by
  have hpop : ∀ {l l' : FrameList} {f : FrameBuffer}, l.popFrame p.timestamp = some (f, l') →
      l'.Sublist l := by
    intro l l' f h
    obtain ⟨-, a, b, rfl, rfl⟩ := Keyed.pop_some h
    exact (List.sublist_cons_self f b).append_left a
  have hempty : ∀ {s t : JitterBuffer} {f : FrameBuffer}, s.getEmptyFrame = some (f, t) →
      Trimmed s t := by
    intro s t f h
    unfold getEmptyFrame at h
    split at h
    · cases h
      exact .of_eq rfl rfl
    · split at h
      · cases h
      · cases h
        exact .of_eq rfl rfl
  unfold getFrame at h
  split at h
  · rename_i hp
    cases h
    exact ⟨.refl _, hpop hp⟩
  split at h
  · rename_i hp
    cases h
    exact ⟨hpop hp, .refl _⟩
  split at h
  · rename_i he
    cases h
    exact hempty he
  dsimp only at h
  split at h
  · cases h
  rename_i he
  have hr := (trimmed_recycle s).trans (hempty he)
  split at h
  · cases h
    exact hr
  · cases h
    exact hr.trans (.of_eq rfl rfl)

/-- A packet gives its timestamp to an empty frame only. -/
theorem insertPacket_timestamp (f : FrameBuffer) (p : VCMPacket) (mode : Session.DecodeErrorMode)
    (d : Session.FrameData) : (f.insertPacket p mode d).2.timestamp =
      if f.state = .empty then p.timestamp else f.timestamp := by
  have ho : (f.openWith p).timestamp = if f.state = .empty then p.timestamp else f.timestamp := by
    unfold FrameBuffer.openWith
    split <;> rfl
  rw [← ho]
  unfold FrameBuffer.insertPacket
  split
  · rfl
  · rename_i g hgrow
    obtain ⟨buffer, size, rfl⟩ := FrameBuffer.grow_eq hgrow
    dsimp only
    split
    · rfl
    split
    · rfl
    split
    · rfl
    split
    · rfl
    split <;> rfl

/-! ## The lists are in order -/

def InOrder (s : JitterBuffer) : Prop := s.decodableFrames.InOrder ∧ s.incompleteFrames.InOrder

theorem InOrder.trimmed {s t : JitterBuffer} (ho : s.InOrder) (h : Trimmed s t) : t.InOrder :=
  ⟨ho.1.sublist h.decodable, ho.2.sublist h.incomplete⟩

section Order

variable {base : UInt32} {s t : JitterBuffer} {p : VCMPacket} {f : FrameBuffer}

theorem promote_inOrder (mode : Session.DecodeErrorMode) (new : FrameBuffer) {inc : FrameList}
    (hi : ∀ f ∈ inc, inHalf base f.timestamp) {dec : FrameList}
    (hd : ∀ f ∈ dec, inHalf base f.timestamp) (ho : dec.InOrder) (d : DecodingState) :
    (promote mode new d inc dec).2.InOrder := by
  induction inc generalizing dec d with
  | nil => exact ho
  | cons f l ih =>
    have hl : ∀ g ∈ l, inHalf base g.timestamp := fun g hg => hi g (List.mem_cons_of_mem _ hg)
    have hf := hi f List.mem_cons_self
    have hins : ∀ g ∈ dec.insertFrame f, inHalf base g.timestamp := by
      intro g hg
      rcases Keyed.mem_insertEnd hg with rfl | hg
      · exact hf
      · exact hd g hg
    unfold promote
    split
    · exact ih hl hd ho d
    split
    · exact ih hl hins (ho.insertFrame hd hf) _
    split
    · exact ho
    · exact ih hl hd ho d

theorem promote_sublist (mode : Session.DecodeErrorMode) (new : FrameBuffer) (inc dec : FrameList)
    (d : DecodingState) : (promote mode new d inc dec).1.Sublist inc := by
  induction inc generalizing dec d with
  | nil => exact .refl _
  | cons f l ih =>
    unfold promote
    split
    · exact (ih dec d).cons_cons f
    split
    · exact (ih _ _).cons f
    split
    · exact .refl _
    · exact (ih dec d).cons_cons f

theorem placeFrame_inOrder (hs : ∀ g ∈ s.frames, inHalf base g.timestamp)
    (hf : inHalf base f.timestamp) (ho : s.InOrder) (origin : Origin) (code : BufferEnum) :
    (s.placeFrame origin code f).2.InOrder := by
  have hd : ∀ g ∈ s.decodableFrames, inHalf base g.timestamp :=
    fun g hg => hs g (List.mem_append_left _ hg)
  have hi : ∀ g ∈ s.incompleteFrames, inHalf base g.timestamp :=
    fun g hg => hs g (List.mem_append_right _ hg)
  have hins : ∀ g ∈ s.decodableFrames.insertFrame f, inHalf base g.timestamp := by
    intro g hg
    rcases Keyed.mem_insertEnd hg with rfl | hg
    · exact hf
    · exact hd g hg
  have hdec := ho.1.insertFrame hd hf
  have hinc := ho.2.insertFrame hi hf
  have hready : (if s.isContinuous f then
      { s with decodableFrames := s.decodableFrames.insertFrame f }.findAndInsertContinuousFrames f
      else { s with incompleteFrames := s.incompleteFrames.insertFrame f }).InOrder := by
    split
    · exact ⟨promote_inOrder _ _ hi hins hdec _, ho.2.sublist (promote_sublist ..)⟩
    · exact ⟨ho.1, hinc⟩
  cases code with
  | completeSession => exact hready
  | decodableSession => exact hready
  | incomplete =>
    unfold placeFrame
    dsimp only
    split
    · exact ho
    · exact ⟨ho.1, hinc⟩
  | duplicatePacket | noError | outOfBoundsPacket =>
    cases origin with
    | decodable => exact ⟨hdec, ho.2⟩
    | incomplete => exact ⟨ho.1, hinc⟩
    | new => exact ho
  | _ => exact ho

theorem insertPacket_inOrder {r : Reply} (hp : inHalf base p.timestamp)
    (hs : ∀ g ∈ s.frames, inHalf base g.timestamp) (ho : s.InOrder)
    (h : s.insertPacket p = some (r, t)) : t.InOrder := by
  unfold insertPacket at h
  split at h
  · obtain rfl : (s.insertOldPacket p).2 = t := congrArg Prod.snd (Option.some.inj h)
    exact ho.trimmed (trimmed_insertOldPacket s p)
  · replace ho : InOrder { s with numConsecutiveOldPackets := 0 } := ho
    unfold insertNewPacket at h
    split at h
    · cases h
    · rename_i u hg
      cases h
      exact ho.trimmed (trimmed_getFrame hg)
    · rename_i f origin u hg
      obtain rfl : (u.insertIntoFrame p f origin).2 = t := congrArg Prod.snd (Option.some.inj h)
      have hu := trimmed_getFrame hg
      -- the packet's frame has its timestamp, or one that was in the lists
      have hf : inHalf base (if f.state = .empty then p.timestamp else f.timestamp) := by
        rcases getFrame_mem hg with ⟨-, g, rfl⟩ | ⟨-, hf⟩
        · exact hp
        · split
          · exact hp
          · exact hs f hf
      unfold insertIntoFrame
      dsimp only
      rw [← insertPacket_timestamp f p u.decodeErrorMode ⟨u.rttMs, u.averagePacketsPerFrame⟩] at hf
      generalize f.insertPacket p u.decodeErrorMode ⟨u.rttMs, u.averagePacketsPerFrame⟩ = q at hf
      have hv := hu.trans (trimmed_noteReceived u p q.1 q.2)
      have hn := (recycles_noteReceived u p q.1 q.2).2.2
      generalize u.noteReceived p q.1 q.2 = n at hv hn
      exact placeFrame_inOrder (fun g hg => hs g (hv.mem hg)) (hn ▸ hf) (ho.trimmed hv) ..

end Order

/-! ## Handing out -/

theorem trimmed_extract (s : JitterBuffer) (t : UInt32) :
    Trimmed s (s.extractAndSetDecode t).2 := by
  unfold extractAndSetDecode
  split
  · exact .refl s
  split
  · exact .refl s
  rename_i f l hp
  obtain ⟨-, a, b, hl, rfl⟩ := Keyed.pop_some hp
  have hpop : (a ++ b).Sublist s.decodableFrames := by
    rw [hl]
    exact (List.sublist_cons_self f b).append_left a
  have hset : ∀ (l : FrameList) (f : FrameBuffer), l.Sublist s.decodableFrames →
      Trimmed s (setDecoded { s with decodableFrames := l } f).2 := by
    intro l f hsub
    obtain ⟨hd, hi, -⟩ := setDecoded_fields { s with decodableFrames := l } f
    have hsub : Trimmed s { s with decodableFrames := l } := ⟨hsub, .refl _⟩
    exact hsub.trans (.of_eq hd hi)
  dsimp only
  by_cases hc : f.state = .complete
  · rw [if_pos hc]
    exact hset _ _ hpop
  · rw [if_neg hc]
    cases hk : (FrameList.skipToKeyFrame t (a ++ b)).1 with
    | none =>
      refine ⟨?_, .refl _⟩
      change List.Sublist (FrameList.skipToKeyFrame t (a ++ b)).2 _
      rw [FrameList.skipToKeyFrame_none hk]
      exact List.nil_sublist _
    | some k =>
      obtain ⟨c, hcl, -⟩ := FrameList.skipToKeyFrame_some hk
      refine hset _ _ (List.Sublist.trans ?_ hpop)
      conv => rhs; rw [hcl]
      exact (List.sublist_cons_self ..).trans (List.sublist_append_right ..)

/-- The frame `f`, waiting in `s`, is what `r` hands out after `t` was announced. -/
structure Handed (s : JitterBuffer) (t : UInt32) (f : FrameBuffer)
    (r : Option FrameBuffer × JitterBuffer) : Prop where
  waiting : f ∈ s.decodableFrames
  complete : f.state = .complete
  which : f.timestamp = t ∨ f.isKey = true ∧ isNewerTimestamp f.timestamp t = true
  frame : r.1 = some (f.prepareForDecode (s.lastDecodedState.continuousFrame f))
  state : r.1.map FrameBuffer.state = some .complete
  older : ∀ g ∈ r.2.decodableFrames, isNewerTimestamp f.timestamp g.timestamp = false
  last : r.2.lastDecodedState = s.lastDecodedState.setState f

theorem handed_of {s : JitterBuffer} {t : UInt32} {f : FrameBuffer} {l : FrameList}
    (hr : s.extractAndSetDecode t = (some (setDecoded { s with decodableFrames := l } f).1,
      (setDecoded { s with decodableFrames := l } f).2))
    (hf : f ∈ s.decodableFrames) (hc : f.state = .complete)
    (hw : f.timestamp = t ∨ f.isKey = true ∧ isNewerTimestamp f.timestamp t = true)
    (hl : ∀ g ∈ l, isNewerTimestamp g.timestamp f.timestamp = true) :
    Handed s t f (s.extractAndSetDecode t) := by
  obtain ⟨hd, -, hlast, -⟩ := setDecoded_fields { s with decodableFrames := l } f
  rw [hr]
  refine ⟨hf, hc, hw, rfl, congrArg some hc, fun g hg => ?_, hlast⟩
  change g ∈ (setDecoded { s with decodableFrames := l } f).2.decodableFrames at hg
  rw [hd] at hg
  exact newerTimestamp_asymm (hl g hg)

/-- What `NextCompleteTimestamp` has seen when it answers. -/
theorem announced {s u : JitterBuffer} {t : UInt32} (h : s.nextCompleteTimestamp = (some t, u)) :
    u.running = true ∧ ∃ f l, u.decodableFrames = f :: l ∧ f.timestamp = t ∧
      (f.state = .complete ∨ ∃ k ∈ f :: l, k.isKey = true ∧ k.state = .complete) := by
  have hfront : ∀ {v : JitterBuffer}, v.frontComplete = some t →
      ∃ f l, v.decodableFrames = f :: l ∧ f.timestamp = t ∧ f.state = .complete := by
    intro v hv
    unfold frontComplete at hv
    cases hl : v.decodableFrames with
    | nil =>
      rw [hl] at hv
      cases hv
    | cons f l =>
      rw [hl] at hv
      change (if f.state = .complete then some f.timestamp else none) = some t at hv
      by_cases hc : f.state = .complete
      · rw [if_pos hc] at hv
        exact ⟨f, l, rfl, Option.some.inj hv, hc⟩
      · rw [if_neg hc] at hv
        cases hv
  have hrun : ∀ v : JitterBuffer, v.cleanUpOldOrEmptyFrames.running = v.running :=
    fun v => (cleanUp_fields v).2.2.2.2.2.2
  unfold nextCompleteTimestamp at h
  unfold pollComplete at h
  cases hr : s.running with
  | false =>
    rw [hr] at h
    cases h
  | true =>
    rw [hr] at h
    simp only [Bool.not_true, Bool.false_eq_true, if_false, Bool.or_false] at h
    cases hp : s.cleanUpOldOrEmptyFrames.frontComplete with
    | some t' =>
      rw [hp] at h
      change (some t', s.cleanUpOldOrEmptyFrames) = (some t, u) at h
      cases h
      obtain ⟨f, l, hl, ht, hc⟩ := hfront hp
      exact ⟨(hrun s).trans hr, f, l, hl, ht, .inl hc⟩
    | none =>
      rw [hp] at h
      simp only [Option.isSome_none, Bool.false_eq_true, if_false] at h
      have hrun' := ((hrun _).trans (hrun s)).trans hr
      generalize s.cleanUpOldOrEmptyFrames.cleanUpOldOrEmptyFrames = w at h hrun'
      obtain ⟨ht, rfl⟩ := Prod.mk.inj h
      refine ⟨hrun', ?_⟩
      cases hq : w.frontComplete with
      | some t' =>
        rw [hq] at ht
        cases ht
        obtain ⟨f, l, hl, ht, hc⟩ := hfront hq
        exact ⟨f, l, hl, ht, .inl hc⟩
      | none =>
        rw [hq] at ht
        dsimp only at ht
        split at ht
        · rename_i hany
          obtain ⟨k, hk, hkey⟩ := List.any_eq_true.1 hany
          simp only [Bool.and_eq_true, beq_iff_eq] at hkey
          cases hl : w.decodableFrames with
          | nil =>
            rw [hl] at hk
            cases hk
          | cons f l =>
            rw [hl] at hk ht
            exact ⟨f, l, rfl, Option.some.inj ht, .inr ⟨k, hk, hkey.1, hkey.2⟩⟩
        · cases ht

/-- With the decodable frames in order the frame announced, or a complete key frame behind it, is
handed out. -/
theorem handed_inOrder {u : JitterBuffer} {t : UInt32} {f : FrameBuffer} {l : FrameList}
    (hrun : u.running = true) (hl : u.decodableFrames = f :: l) (ht : f.timestamp = t)
    (hc : f.state = .complete ∨ ∃ k ∈ f :: l, k.isKey = true ∧ k.state = .complete)
    (ho : u.decodableFrames.InOrder) : ∃ g, Handed u t g (u.extractAndSetDecode t) := by
  have hpop : u.decodableFrames.popFrame t = some (f, l) := by
    have heq : Keyed.equiv timestampLessThan f.timestamp t = true := by
      rw [equiv_iff_class, ht]
    rw [hl]
    exact if_pos heq
  rw [hl] at ho
  obtain ⟨hfirst, hrest⟩ := List.pairwise_cons.1 ho
  by_cases hcomplete : f.state = .complete
  · refine ⟨f, handed_of (l := l) ?_ (by rw [hl]; simp) hcomplete (.inl ht) hfirst⟩
    unfold extractAndSetDecode
    rw [hrun, hpop]
    dsimp only
    rw [if_pos hcomplete]
    rfl
  · obtain ⟨k, hk, hkey, hkc⟩ := hc.resolve_left hcomplete
    have hkl : k ∈ l := by
      rcases List.mem_cons.1 hk with rfl | hk
      · exact absurd hkc hcomplete
      · exact hk
    cases hskip : (FrameList.skipToKeyFrame t l).1 with
    | none => exact absurd hskip (FrameList.skipToKeyFrame_ne_none hkl hkey hkc (ht ▸ hfirst k hkl))
    | some g =>
      obtain ⟨a, hla, hgkey, hgc, hgt⟩ := FrameList.skipToKeyFrame_some hskip
      have hgl : g ∈ u.decodableFrames := by
        rw [hl, hla]
        simp
      rw [hla] at hrest
      have hlater := (List.pairwise_cons.1 (List.pairwise_append.1 hrest).2.1).1
      refine ⟨g, handed_of (l := (FrameList.skipToKeyFrame t l).2) ?_ hgl hgc (.inr ⟨hgkey, hgt⟩)
        hlater⟩
      unfold extractAndSetDecode
      rw [hrun, hpop]
      dsimp only
      rw [if_neg hcomplete, hskip]
      rfl

end JitterBuffer

/-! ## Runs -/

namespace System

open JitterBuffer

/-- A packet's timestamp is put in only with those of the frames in the lists in one half of the
circle. -/
def InHalf (s : System) : Op → Prop
  | .insertPacket p => ∃ base, inHalf base p.timestamp ∧ ∀ f ∈ s.jb.frames, inHalf base f.timestamp
  | _ => True

theorem inOrder_step {s s' : System} {op : Op} (hc : s.InHalf op) (h : s.jb.InOrder)
    (hs : s.step op = some s') : s'.jb.InOrder := by
  cases op with
  | insertPacket p =>
    obtain ⟨base, hp, hf⟩ := hc
    simp only [step] at hs
    split at hs
    · cases hs
    · rename_i r hr
      cases hs
      exact insertPacket_inOrder hp hf h hr
  | pollComplete =>
    cases hs
    exact h.trimmed (trimmed_pollComplete s.jb)
  | nextCompleteTimestamp =>
    cases hs
    exact h.trimmed (trimmed_nextComplete s.jb)
  | extractAndSetDecode t =>
    cases hs
    exact h.trimmed (trimmed_extract s.jb t)
  | releaseFrame id =>
    simp only [step] at hs
    split at hs
    · cases hs
    · cases hs
      exact h
  | flush | stop =>
    cases hs
    exact ⟨List.Pairwise.nil, List.Pairwise.nil⟩
  | getNackList =>
    cases hs
    exact h.trimmed (trimming.getNackList trimmed_nackTooLong s.jb)
  | nextMaybeIncompleteTimestamp | setDecodeErrorMode | setNackMode | setNackSettings | updateRtt
  | start =>
    cases hs
    exact h

theorem inOrder_reachable (s : System) (h : (lts.within InHalf).Reachable s) :
    s.jb.InOrder := by
  have hind : (lts.within InHalf).Inductive fun s => s.jb.InOrder := by
    refine ⟨fun s hs => ?_, fun s op s' hs hstep => inOrder_step hstep.1 hs hstep.2⟩
    cases hs
    exact ⟨List.Pairwise.nil, List.Pairwise.nil⟩
  exact hind.reachable s h

theorem announced_is_extracted {s : System} {t : UInt32} {u : JitterBuffer}
    (hr : (lts.within InHalf).Reachable s) (hn : s.jb.nextCompleteTimestamp = (some t, u)) :
    ∃ f, Handed u t f (u.extractAndSetDecode t) := by
  obtain ⟨hrun, f, l, hl, ht, hc⟩ := announced hn
  have hu : u.decodableFrames.Sublist s.jb.decodableFrames := by
    have := (trimmed_nextComplete s.jb).decodable
    rwa [hn] at this
  exact handed_inOrder hrun hl ht hc ((inOrder_reachable s hr).1.sublist hu)

/-- A first packet, alone in its frame. -/
def firstPacket (timestamp : UInt32) (seq : UInt16) (last : Bool) (t : FrameType) : VCMPacket :=
  .ofRtp [1] timestamp seq last t { isFirstPacket := true, codec := .generic }

/-- The frame announced is not complete, the key frame behind it is handed out. -/
theorem announced_is_extracted_key : ∃ s t u, (lts.within InHalf).Reachable s ∧
    s.jb.nextCompleteTimestamp = (some t, u) ∧ t = 1000 ∧
    (u.extractAndSetDecode t).1.map FrameBuffer.timestamp = some 4000 ∧
    ∃ f, Handed u t f (u.extractAndSetDecode t) := by
  have h : ∃ s₁, initial.step (.setDecodeErrorMode .withErrors) = some s₁ ∧
      s₁.jb.frames.map FrameBuffer.timestamp = [] ∧
      ∃ s₂, s₁.step (.insertPacket (firstPacket 1000 10 false .delta)) = some s₂ ∧
        s₂.jb.frames.map FrameBuffer.timestamp = [1000] ∧
        ∃ s₃, s₂.step (.insertPacket (firstPacket 4000 11 true .key)) = some s₃ ∧
          s₃.jb.nextCompleteTimestamp.1 = some 1000 ∧
          (s₃.jb.nextCompleteTimestamp.2.extractAndSetDecode 1000).1.map FrameBuffer.timestamp =
            some 4000 :=
    ⟨_, rfl, by decide, _, rfl, by decide, _, rfl, by decide,
      by decide⟩
  obtain ⟨s₁, h1, hf1, s₂, h2, hf2, s₃, h3, hnext, hout⟩ := h
  have hhalf : ∀ {s : System} {p : VCMPacket}, inHalf 0 p.timestamp →
      (∀ t ∈ s.jb.frames.map FrameBuffer.timestamp, inHalf 0 t) → s.InHalf (.insertPacket p) :=
    fun hp hs => ⟨0, hp, fun f hf => hs _ (List.mem_map_of_mem hf)⟩
  have hset : initial.InHalf (.setDecodeErrorMode .withErrors) := trivial
  have hr : (lts.within InHalf).Reachable s₃ := ⟨initial, _, rfl,
    .cons ⟨hset, h1⟩ (.cons ⟨hhalf (by unfold inHalf; decide) (by rw [hf1]; simp), h2⟩
      (.cons ⟨hhalf (by unfold inHalf; decide) (by rw [hf2]; unfold inHalf; simp), h3⟩ (.nil _)))⟩
  have hn : s₃.jb.nextCompleteTimestamp = (some 1000, s₃.jb.nextCompleteTimestamp.2) :=
    Prod.ext hnext rfl
  exact ⟨s₃, 1000, _, hr, hn, rfl, hout, announced_is_extracted hr hn⟩

/-- Three frames, each three eighths of the circle behind the one before, of which the last is a
complete key frame: the first is announced, and nothing is handed out. A frame that is handed out
is in state `kStateComplete`: no state is one of being decoded. -/
theorem announced_not_extracted :
    (∃ s t u, lts.Reachable s ∧ s.jb.nextCompleteTimestamp = (some t, u) ∧
      (u.extractAndSetDecode t).1 = none) ∧
    (∃ s t u, lts.Reachable s ∧ s.jb.nextCompleteTimestamp = (some t, u) ∧
      (u.extractAndSetDecode t).1.map FrameBuffer.state = some .complete) ∧
    ∀ x : FrameState, x = .empty ∨ x = .incomplete ∨ x = .decodable ∨ x = .complete := by
  refine ⟨?_, ?_, fun x => (by cases x <;> simp)⟩
  · have h : ∃ s₁, initial.step (.setDecodeErrorMode .withErrors) = some s₁ ∧
        ∃ s₂, s₁.step (.insertPacket (firstPacket 0 10 false .delta)) = some s₂ ∧
          ∃ s₃, s₂.step (.insertPacket (firstPacket 0x60000000 11 false .delta)) = some s₃ ∧
            ∃ s₄, s₃.step (.insertPacket (firstPacket 0xC0000000 12 true .key)) = some s₄ ∧
              s₄.jb.nextCompleteTimestamp.1 = some 0 ∧
              (s₄.jb.nextCompleteTimestamp.2.extractAndSetDecode 0).1.isNone = true :=
      ⟨_, rfl, _, rfl, _, rfl, _, rfl, by decide, by decide⟩
    obtain ⟨s₁, h1, s₂, h2, s₃, h3, s₄, h4, hnext, hout⟩ := h
    exact ⟨s₄, 0, _, ⟨initial, _, rfl, .cons h1 (.cons h2 (.cons h3 (.cons h4 (.nil _))))⟩,
      Prod.ext hnext rfl, Option.isNone_iff_eq_none.1 hout⟩
  · have h : ∃ s₁, initial.step (.insertPacket (firstPacket 1000 10 true .key)) = some s₁ ∧
        s₁.jb.nextCompleteTimestamp.1 = some 1000 ∧
        (s₁.jb.nextCompleteTimestamp.2.extractAndSetDecode 1000).1.map FrameBuffer.state =
          some .complete :=
      ⟨_, rfl, by decide, by decide⟩
    obtain ⟨s₁, h1, hnext, hout⟩ := h
    exact ⟨s₁, 1000, _, ⟨initial, _, rfl, .cons h1 (.nil _)⟩, Prod.ext hnext rfl, hout⟩

end System

end RtcCore.L3
