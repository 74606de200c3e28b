import RtcCore.L3Video.JitterSteps

/-!
# The NACK list is exact

A run of accepted `InsertPacket` calls, polls, extractions, releases and
`GetNackList` calls in NACK mode, with sequence numbers inside half the
circle, observed by the numbers accepted so far, the numbers the decoding
state has held, and whether frames were ever recycled or the list pruned.

Results:
- `nack_list_exact`: in every reached state `missing_sequence_numbers_` is in
  order and holds no accepted number; in a calm run it holds every number
  past the first accepted one and past all that the decoding state has held,
  older than the latest one and not accepted.
- `decoded_out_of_order`: with the last decoded frame alone the last part
  fails. When a frame with an older number and a newer timestamp is decoded
  last, the numbers between have gone with the frame decoded before it.
-/
namespace RtcCore.L3

open Serial

/-! ## Frames made of accepted packets -/

/-- The numbers of the frame are in `l`. -/
structure FrameBuffer.Within (l : List UInt16) (f : FrameBuffer) : Prop where
  packets : ∀ n ∈ Session.seqNums f.session, n ∈ l
  empty : ∀ e, f.session.emptySeqNumHigh = some e → e ∈ l

/-- And there is one. -/
structure FrameBuffer.Known (l : List UInt16) (f : FrameBuffer) : Prop where
  within : f.Within l
  numbered : f.highSeqNum.isSome = true

namespace FrameBuffer

theorem Within.mono {l l' : List UInt16} {f : FrameBuffer} (h : f.Within l)
    (hl : ∀ n ∈ l, n ∈ l') : f.Within l' :=
  ⟨fun n hn => hl n (h.packets n hn), fun e he => hl e (h.empty e he)⟩

theorem latest_mem {l : List UInt16} {a b : UInt16} (ha : a ∈ l) (hb : b ∈ l) :
    latestSequenceNumber a b ∈ l := by
  unfold latestSequenceNumber
  split
  · exact ha
  · exact hb

theorem Known.high {l : List UInt16} {f : FrameBuffer} (h : f.Known l) :
    toUInt16 f.highSeqNum ∈ l := by
  have hs := h.numbered
  unfold highSeqNum Session.Info.highSequenceNumber at hs ⊢
  split
  · rename_i hp
    rw [hp] at hs
    obtain ⟨e, he⟩ : ∃ e, f.session.emptySeqNumHigh = some e := Option.isSome_iff_exists.1 hs
    rw [he]
    exact h.within.empty e he
  · rename_i q hq
    have hq' : q.pkt.seqNum ∈ l :=
      h.within.packets _ (List.mem_map.2 ⟨q, List.mem_of_getLast? hq, rfl⟩)
    split
    · exact hq'
    · rename_i e he
      exact latest_mem hq' (h.within.empty e he)

theorem high_isSome {f : FrameBuffer} (h : f.session.packets ≠ []) : f.highSeqNum.isSome = true := by
  unfold highSeqNum Session.Info.highSequenceNumber
  split
  · rename_i hp
    exact absurd (List.getLast?_eq_none_iff.1 hp) h
  · split <;> rfl

theorem high_isSome_of_empty {f : FrameBuffer} {e : UInt16}
    (h : f.session.emptySeqNumHigh = some e) : f.highSeqNum.isSome = true := by
  unfold highSeqNum Session.Info.highSequenceNumber
  split
  · rw [h]; rfl
  · split <;> rfl

/-- A frame of known numbers stays one with an accepted packet. -/
theorem Outcome.known {f g : FrameBuffer} {p : VCMPacket} {mode : Session.DecodeErrorMode}
    {d : Session.FrameData} {code : BufferEnum} {l : List UInt16} (h : Outcome f p mode d code g)
    (hpos : code.positive = true) (hw : f.Within l) : g.Known (p.seqNum :: l) := by
  have hw' := hw.mono fun n hn => List.mem_cons_of_mem p.seqNum hn
  cases h with
  | sizeError => cases hpos
  | @rejected g code buf buf' c hs ht hst hc =>
    have hinv := Session.insertPacket_inv f.session buf p mode d
    rw [hs] at hinv
    rcases hc with ⟨rfl, rfl⟩ | ⟨rfl, rfl⟩
    · rcases hinv with ⟨-, he⟩ | ⟨-, -, he, hm⟩ | ⟨-, hc, -⟩
      · exact absurd (congrArg Prod.fst he) (by simp)
      · have hses : g.session = f.session := by
          rcases he with he | ⟨hc, -⟩
          · exact he
          · exact absurd hc (by simp)
        refine ⟨⟨hses ▸ hw'.packets, hses ▸ hw'.empty⟩, high_isSome ?_⟩
        rw [hses]
        intro hnil
        have := hm rfl
        rw [Session.seqNums, hnil] at this
        cases this
      · exact absurd hc (by simp)
    · cases hpos
  | @taken g code buf buf' c hs ht hc hst =>
    have hinv := Session.insertPacket_inv f.session buf p mode d
    rw [hs] at hinv
    rcases hinv with ⟨-, he⟩ | ⟨-, hneg, -⟩ | ⟨-, -, -, -, off, size, shift, b, he⟩
    · have hses : g.session = f.session.informOfEmptyPacket p.seqNum :=
        congrArg (fun r => r.2.1) he
      have hhigh : ∃ e ∈ p.seqNum :: l, g.session.emptySeqNumHigh = some e := by
        rw [hses]
        refine ⟨_, ?_, rfl⟩
        split
        · exact List.mem_cons_self ..
        · rename_i e hee
          exact latest_mem (List.mem_cons_self ..) (hw'.empty e hee)
      obtain ⟨e, hmem, hsome⟩ := hhigh
      refine ⟨⟨?_, ?_⟩, high_isSome_of_empty hsome⟩
      · rw [hses]
        exact hw'.packets
      · intro e' he'
        rw [hsome] at he'
        cases he'
        exact hmem
    · exact absurd hc (Int.not_le.2 hneg)
    · obtain ⟨-, hhigh, -⟩ := Session.track_fields f.session p
      have hp : g.session.packets = Session.placed f.session p off size shift := by
        rw [show g.session = _ from he, Session.updateCompleteSession_eq]
      have he' : g.session.emptySeqNumHigh = f.session.emptySeqNumHigh := by
        rw [show g.session = _ from he, Session.updateCompleteSession_eq]
        exact hhigh
      refine ⟨⟨fun n hn => ?_, fun e hee => hw'.empty e (he' ▸ hee)⟩, high_isSome ?_⟩
      · rw [Session.seqNums, hp, Session.seqNums_placed] at hn
        rcases hn with hn | rfl
        · exact hw'.packets n hn
        · exact List.mem_cons_self ..
      · rw [hp]
        simp [Session.placed]

end FrameBuffer

/-! ## The list of missing numbers -/

/-- Inside half the circle from `base` the set's comparator is the order of the
distances. -/
theorem ranked (base : UInt16) :
    Keyed.Ranked sequenceNumberLessThan (fun x => dist base x < 0x8000) (dist base) where
  lt_iff ha hb := by rw [sequenceNumberLessThan, newer_dist base hb ha, decide_eq_true_eq]
  inj _ _ h := (dist_inj base).1 h

/-- The list is in order, inside the window. -/
structure Ordered (base : UInt16) (l : List UInt16) : Prop where
  window : ∀ x ∈ l, dist base x < 0x8000
  order : l.Pairwise fun a b => dist base a < dist base b

section Ordered

variable {base seq i : UInt16} {l l' : List UInt16}

theorem Ordered.sublist (h : Ordered base l) (hs : l'.Sublist l) : Ordered base l' :=
  ⟨fun x hx => h.window x (hs.subset hx), h.order.sublist hs⟩

theorem Ordered.mem_dropThrough (h : Ordered base l) (hseq : dist base seq < 0x8000) {x : UInt16} :
    x ∈ Keyed.dropThrough sequenceNumberLessThan id seq l ↔
      x ∈ l ∧ dist base seq < dist base x :=
  (ranked base).mem_dropThrough hseq h.window h.order

theorem Ordered.mem_erase (h : Ordered base l) (hseq : dist base seq < 0x8000) {x : UInt16} :
    x ∈ Keyed.erase sequenceNumberLessThan id seq l ↔ x ∈ l ∧ x ≠ seq :=
  (ranked base).mem_erase hseq h.window h.order

/-- One round of the loop: the number goes behind the others. -/
theorem Ordered.push (h : Ordered base l) (hi : dist base i < 0x8000)
    (hl : ∀ x ∈ l, dist base x < dist base i) :
    Keyed.insertEnd sequenceNumberLessThan id i l = l ++ [i] ∧ Ordered base (l ++ [i]) := by
  refine ⟨(ranked base).insertEnd_last h.window hi hl, fun x hx => ?_, ?_⟩
  · rcases List.mem_append.1 hx with hx | hx
    · exact h.window x hx
    · rw [List.mem_singleton.1 hx]
      exact hi
  · refine List.pairwise_append.2 ⟨h.order, List.pairwise_singleton .., fun a ha b hb => ?_⟩
    rw [List.mem_singleton.1 hb]
    exact hl a ha

/-- The loop adds the numbers from `i` on that are older than `seq`. -/
theorem Ordered.pushMissing (hseq : dist base seq < 0x8000) (fuel : Nat) :
    ∀ {i : UInt16} {l : List UInt16}, Ordered base l → dist base i ≤ dist base seq →
      dist base seq ≤ dist base i + fuel → (∀ x ∈ l, dist base x < dist base i) →
      Ordered base (JitterBuffer.pushMissing seq fuel i l) ∧
        ∀ x, x ∈ JitterBuffer.pushMissing seq fuel i l ↔
          x ∈ l ∨ dist base i ≤ dist base x ∧ dist base x < dist base seq := by
  induction fuel with
  | zero =>
    intro i l h hi hf hl
    refine ⟨h, fun x => ⟨Or.inl, ?_⟩⟩
    rintro (hx | hx)
    · exact hx
    · omega
  | succ fuel ih =>
    intro i l h hi hf hl
    unfold JitterBuffer.pushMissing
    rw [newer_dist base hseq (by omega)]
    by_cases hlt : dist base i < dist base seq
    · rw [decide_eq_true hlt, if_pos rfl]
      have hsucc := dist_succ (show dist base i < 0x8000 by omega)
      obtain ⟨hpush, ho⟩ := h.push (by omega) hl
      rw [hpush]
      obtain ⟨h1, h2⟩ := ih ho (show dist base (i + 1) ≤ _ by omega) (by omega) (by
        intro x hx
        rcases List.mem_append.1 hx with hx | hx
        · have := hl x hx
          omega
        · rw [List.mem_singleton.1 hx]
          omega)
      refine ⟨h1, fun x => ?_⟩
      rw [h2, hsucc, List.mem_append, List.mem_singleton, ← dist_inj base]
      constructor
      · rintro ((hx | hx) | hx)
        · exact Or.inl hx
        · exact Or.inr (by omega)
        · exact Or.inr (by omega)
      · rintro (hx | hx)
        · exact Or.inl (Or.inl hx)
        · by_cases he : dist base x = dist base i
          · exact Or.inl (Or.inr he)
          · exact Or.inr (by omega)
    · rw [decide_eq_false hlt, if_neg Bool.false_ne_true]
      refine ⟨h, fun x => ⟨Or.inl, ?_⟩⟩
      rintro (hx | hx)
      · exact hx
      · omega

end Ordered

/-! ## The state of the list -/

namespace JitterBuffer

/-- The list against the numbers accepted so far, newest first. -/
structure ListOk (base : UInt16) (accepted : List UInt16) (s : JitterBuffer) : Prop where
  mode : s.nackMode = .nack
  first : s.firstPacketSinceReset = accepted.isEmpty
  window : ∀ x ∈ accepted, dist base x < 0x8000
  latest : accepted ≠ [] → s.latestReceivedSequenceNumber ∈ accepted ∧
    ∀ x ∈ accepted, dist base x ≤ dist base s.latestReceivedSequenceNumber
  last : s.lastDecodedState.inInitialState = true ∨ s.lastDecodedState.sequenceNum ∈ accepted
  order : Ordered base s.missingSequenceNumbers
  missing : ∀ x ∈ s.missingSequenceNumbers, x ∉ accepted ∧ accepted ≠ [] ∧
    dist base x < dist base s.latestReceivedSequenceNumber

section ListOk

variable {base : UInt16} {accepted : List UInt16} {s t : JitterBuffer}

/-- Numbers may leave the list and the decoding state may change. -/
theorem ListOk.sublist (h : ListOk base accepted s) (hm : t.nackMode = s.nackMode)
    (hf : t.firstPacketSinceReset = s.firstPacketSinceReset)
    (hl : t.latestReceivedSequenceNumber = s.latestReceivedSequenceNumber)
    (hs : t.missingSequenceNumbers.Sublist s.missingSequenceNumbers)
    (hd : t.lastDecodedState.inInitialState = true ∨ t.lastDecodedState.sequenceNum ∈ accepted) :
    ListOk base accepted t where
  mode := hm.trans h.mode
  first := hf.trans h.first
  window := h.window
  latest := hl ▸ h.latest
  last := hd
  order := h.order.sublist hs
  missing x hx := hl ▸ h.missing x (hs.subset hx)

theorem ListOk.pruned (h : ListOk base accepted s) (hp : Pruned s t) : ListOk base accepted t := by
  refine h.sublist hp.nackMode hp.first hp.latest hp.missing ?_
  rcases hp.last with hl | hl
  · rw [hl]; exact h.last
  · rw [hl]; exact Or.inl rfl

/-- The decoding state is never ahead of the latest number. -/
theorem ListOk.latestForNack (h : ListOk base accepted s) (hne : accepted ≠ []) :
    s.latestForNack = s.latestReceivedSequenceNumber := by
  unfold JitterBuffer.latestForNack
  split
  · rfl
  · rename_i hi
    have hd := h.last.resolve_left hi
    obtain ⟨hm, hmax⟩ := h.latest hne
    exact (latest_dist (h.window _ hm) (h.window _ hd)).2 (hmax _ hd)

/-- The list covers what is older than a newest number. -/
theorem ListOk.mem_coverMissing (h : ListOk base accepted s) (hne : accepted ≠ []) {seq : UInt16}
    (hseq : dist base seq < 0x8000) :
    Ordered base (s.coverMissing seq).missingSequenceNumbers ∧
      ∀ x, x ∈ (s.coverMissing seq).missingSequenceNumbers ↔
        x ∈ s.missingSequenceNumbers ∧ x ≠ seq ∨
          dist base s.latestReceivedSequenceNumber < dist base x ∧ dist base x < dist base seq := by
  obtain ⟨hm, hmax⟩ := h.latest hne
  have hlat := h.window _ hm
  unfold coverMissing
  dsimp only
  rw [h.latestForNack hne, newer_dist base hseq hlat]
  generalize hL : s.latestReceivedSequenceNumber = latest at hm hmax hlat
  have hmiss : ∀ x ∈ s.missingSequenceNumbers, dist base x < dist base latest :=
    fun x hx => hL ▸ (h.missing x hx).2.2
  by_cases hlt : dist base latest < dist base seq
  · rw [decide_eq_true hlt, if_pos rfl]
    have hsucc := dist_succ hlat
    have hfuel : dist base seq ≤ dist base (latest + 1) + (seq - latest).toNat := by
      have h1 := latest.toNat_lt
      have h2 := base.toNat_lt
      have h3 := seq.toNat_lt
      rw [hsucc]
      simp only [Serial.dist, UInt16.toNat_sub] at hlt ⊢
      omega
    obtain ⟨ho, hmem⟩ := h.order.pushMissing hseq (seq - latest).toNat (by omega) hfuel
      (fun x hx => by have := hmiss x hx; omega)
    refine ⟨ho, fun x => ?_⟩
    rw [hmem, hsucc]
    constructor
    · rintro (hx | hx)
      · refine Or.inl ⟨hx, ?_⟩
        rintro rfl
        have := hmiss x hx
        omega
      · exact Or.inr (by omega)
    · rintro (hx | hx)
      · exact Or.inl hx.1
      · exact Or.inr (by omega)
  · rw [decide_eq_false hlt, if_neg Bool.false_ne_true]
    refine ⟨h.order.sublist Keyed.erase_sublist, fun x => ?_⟩
    rw [h.order.mem_erase hseq]
    exact ⟨Or.inl, fun hx => hx.resolve_right (by omega)⟩

theorem dist_latest {a b : UInt16} (ha : dist base a < 0x8000) (hb : dist base b < 0x8000) :
    dist base a ≤ dist base (latestSequenceNumber a b) ∧
      dist base b ≤ dist base (latestSequenceNumber a b) ∧
      (latestSequenceNumber a b = a ∨ latestSequenceNumber a b = b) := by
  unfold latestSequenceNumber
  rw [newer_dist base ha hb]
  by_cases h : dist base b < dist base a
  · rw [decide_eq_true h, if_pos rfl]
    exact ⟨Nat.le_refl _, Nat.le_of_lt h, Or.inl rfl⟩
  · rw [decide_eq_false h, if_neg Bool.false_ne_true]
    exact ⟨Nat.le_of_not_lt h, Nat.le_refl _, Or.inr rfl⟩

/-- The state of `NoteReceived` when nothing is pruned. -/
def noted (s : JitterBuffer) (seq : UInt16) : JitterBuffer :=
  { s.coverMissing seq with
    latestReceivedSequenceNumber := latestSequenceNumber s.latestForNack seq }

theorem ListOk.noted (h : ListOk base accepted s) (hne : accepted ≠ []) {seq : UInt16}
    (hseq : dist base seq < 0x8000) : ListOk base (seq :: accepted) (s.noted seq) := by
  obtain ⟨hm, hmax⟩ := h.latest hne
  obtain ⟨ho, hmem⟩ := h.mem_coverMissing hne hseq
  obtain ⟨h1, h2, h3⟩ := dist_latest (h.window _ hm) hseq
  have hlat : (s.noted seq).latestReceivedSequenceNumber =
      latestSequenceNumber s.latestReceivedSequenceNumber seq := by
    rw [← h.latestForNack hne]; rfl
  refine ⟨h.mode, h.first.trans ?_, ?_, fun _ => ⟨?_, ?_⟩, ?_, ho, ?_⟩
  · cases accepted with
    | nil => exact absurd rfl hne
    | cons => rfl
  · exact List.forall_mem_cons.2 ⟨hseq, h.window⟩
  · rw [hlat]
    rcases h3 with h3 | h3
    · rw [h3]; exact List.mem_cons_of_mem _ hm
    · rw [h3]; exact List.mem_cons_self ..
  · rw [hlat]
    refine List.forall_mem_cons.2 ⟨h2, fun x hx => ?_⟩
    exact Nat.le_trans (hmax x hx) h1
  · exact h.last.imp id (List.mem_cons_of_mem _)
  · intro x hx
    rw [hlat]
    rcases (hmem x).1 hx with ⟨hx, hne'⟩ | ⟨hx1, hx2⟩
    · obtain ⟨hx1, -, hx2⟩ := h.missing x hx
      exact ⟨by simp [hx1, hne'], List.cons_ne_nil _ _, by omega⟩
    · refine ⟨fun hc => ?_, List.cons_ne_nil _ _, by omega⟩
      rcases List.mem_cons.1 hc with rfl | hc
      · exact Nat.lt_irrefl _ hx2
      · have := hmax x hc
        omega

/-- A packet that is noted, other than the first one. -/
theorem noteReceived_pruned {p : VCMPacket} {code : BufferEnum} {f : FrameBuffer}
    (hpos : code.positive = true) (hf : s.firstPacketSinceReset = false) (hm : s.nackMode = .nack) :
    let t := (s.noteReceived p code f).2.2
    t.nackMode = s.nackMode ∧ t.firstPacketSinceReset = s.firstPacketSinceReset ∧
      t.latestReceivedSequenceNumber = (s.noted p.seqNum).latestReceivedSequenceNumber ∧
      t.missingSequenceNumbers.Sublist (s.noted p.seqNum).missingSequenceNumbers ∧
      (t.lastDecodedState = s.lastDecodedState ∨ t.lastDecodedState = {}) ∧
      (s.prunesOn p.seqNum = false → t = s.noted p.seqNum) := by
  unfold noteReceived updateNackList prunesOn
  rw [hpos, hf, Bool.not_true, if_neg Bool.false_ne_true, if_neg Bool.false_ne_true]
  dsimp only
  generalize (if (Keyed.pop sequenceNumberLessThan id p.seqNum s.missingSequenceNumbers).isSome
    then { f with nackCount := f.nackCount + 1 } else f) = f
  rw [if_neg (show ¬ s.nackMode = .noNack by rw [hm]; decide)]
  split
  · rename_i hn
    have hp := pruning.pruneMissing (s.coverMissing p.seqNum) p.seqNum
    refine ⟨hp.nackMode, hp.first.trans hf, ?_, hp.missing, hp.last, fun hcalm => ?_⟩
    · rw [hp.latest]; rfl
    · rw [hn, Bool.true_and, Bool.or_eq_false_iff] at hcalm
      have : (s.coverMissing p.seqNum).pruneMissing p.seqNum = (true, s.coverMissing p.seqNum) := by
        unfold pruneMissing
        rw [hcalm.1, if_neg Bool.false_ne_true]
        dsimp only
        rw [hcalm.2]
        rfl
      rw [this]
      rfl
  · exact ⟨rfl, hf, rfl, .refl _, Or.inl rfl, fun _ => rfl⟩

/-- Noting an accepted packet. -/
theorem ListOk.noteReceived (h : ListOk base accepted s) {p : VCMPacket} {code : BufferEnum}
    {f : FrameBuffer} (hpos : code.positive = true) (hp : dist base p.seqNum < 0x8000) :
    ListOk base (p.seqNum :: accepted) (s.noteReceived p code f).2.2 := by
  by_cases hf : s.firstPacketSinceReset = true
  · -- the first packet: nothing is missing yet
    obtain rfl : accepted = [] := List.isEmpty_iff.1 (h.first.symm.trans hf)
    have hnil : s.missingSequenceNumbers = [] := by
      cases hmiss : s.missingSequenceNumbers with
      | nil => rfl
      | cons x l => exact absurd rfl (h.missing x (by rw [hmiss]; exact List.mem_cons_self ..)).2.1
    unfold JitterBuffer.noteReceived
    rw [hpos, hf, Bool.not_true, if_neg Bool.false_ne_true, if_pos rfl]
    refine ⟨h.mode, rfl, ?_, fun _ => ⟨List.mem_cons_self .., ?_⟩, ?_, h.order, ?_⟩
    · exact List.forall_mem_cons.2 ⟨hp, h.window⟩
    · exact List.forall_mem_cons.2 ⟨Nat.le_refl _, fun x hx => absurd hx List.not_mem_nil⟩
    · exact h.last.imp id (List.mem_cons_of_mem _)
    · intro x hx
      rw [show s.missingSequenceNumbers = [] from hnil] at hx
      cases hx
  · have hf' : s.firstPacketSinceReset = false := by simpa using hf
    have hne : accepted ≠ [] := by
      rintro rfl
      exact hf h.first
    obtain ⟨h1, h2, h3, h4, h5, -⟩ := noteReceived_pruned (p := p) (f := f) hpos hf' h.mode
    refine (h.noted hne hp).sublist h1 h2 h3 h4 ?_
    rcases h5 with h5 | h5
    · rw [h5]; exact (h.noted hne hp).last
    · rw [h5]; exact Or.inl rfl

end ListOk

end JitterBuffer

/-! ## Runs -/

/-- The buffer with what has been observed of the run. -/
structure NackRun where
  jb : JitterBuffer
  /-- The numbers of the accepted packets, newest first. -/
  accepted : List UInt16 := []
  /-- The numbers the decoding state has held. -/
  decoded : List UInt16 := []
  /-- No frame was recycled and the list was never too large or too old. -/
  calm : Bool := true

namespace NackRun

def heldNumber (d : DecodingState) : List UInt16 :=
  if d.inInitialState then [] else [d.sequenceNum]

def observe (r : NackRun) (jb : JitterBuffer) (calm : Bool) : NackRun :=
  { r with jb, decoded := heldNumber jb.lastDecodedState ++ r.decoded, calm := r.calm && calm }

inductive Op where
  | insertPacket (p : VCMPacket)
  | pollComplete
  | nextCompleteTimestamp
  | extractAndSetDecode (timestamp : UInt32)
  | releaseFrame (f : FrameBuffer)
  | getNackList
  | updateRtt (rttMs : Int)

/-- Only accepted packets are inserted. -/
def step (r : NackRun) : Op → Option NackRun
  | .insertPacket p =>
    match r.jb.insertPacket p with
    | none => none
    | some (reply, jb) =>
      if reply.code.accepted then
        some { r.observe jb (!r.jb.recyclesOn p) with accepted := p.seqNum :: r.accepted }
      else none
  | .pollComplete => some (r.observe r.jb.pollComplete.2 true)
  | .nextCompleteTimestamp =>
    some ((r.observe r.jb.pollComplete.2 true).observe r.jb.nextCompleteTimestamp.2 true)
  | .extractAndSetDecode t => some (r.observe (r.jb.extractAndSetDecode t).2 true)
  | .releaseFrame f => some (r.observe (r.jb.releaseFrame f) true)
  | .getNackList => some (r.observe r.jb.getNackList.2 (!r.jb.nackEvent))
  | .updateRtt rtt => some (r.observe (r.jb.updateRtt rtt) true)

/-- A started buffer in NACK mode, under any settings. -/
def Initial (r : NackRun) : Prop :=
  ∃ (highRttNackThresholdMs : Int) (maxNackListSize : Nat)
    (maxPacketAgeToNack maxIncompleteTimeMs : Int) (mode : Session.DecodeErrorMode),
    r = { jb := ((JitterBuffer.new.start.setNackMode .nack highRttNackThresholdMs).setNackSettings
      maxNackListSize maxPacketAgeToNack maxIncompleteTimeMs).setDecodeErrorMode mode }

def lts : LTS NackRun Op := LTS.ofFn Initial step

/-- The packets stay in half the circle from `base`. -/
def InWindow (base : UInt16) (_ : NackRun) (op : Op) : Prop :=
  ∀ p, op = .insertPacket p → dist base p.seqNum < 0x8000

/-! ## The invariant -/

structure Inv (base : UInt16) (r : NackRun) : Prop where
  apart : r.jb.Apart
  list : r.jb.ListOk base r.accepted
  frames : ∀ f ∈ r.jb.frames, f.Known r.accepted
  decoded : ∀ d ∈ r.decoded, d ∈ r.accepted
  covers : r.calm = true → ∀ x y, r.accepted.getLast? = some y → dist base y < dist base x →
    (∀ d ∈ r.decoded, dist base d < dist base x) →
    dist base x < dist base r.jb.latestReceivedSequenceNumber → x ∉ r.accepted →
    x ∈ r.jb.missingSequenceNumbers

section Inv

variable {base : UInt16} {r : NackRun} {jb : JitterBuffer}

theorem heldNumber_setState (d : DecodingState) (f : FrameBuffer) :
    heldNumber (d.setState f) = [toUInt16 f.highSeqNum] := rfl

theorem heldNumber_mem {d : DecodingState} {l : List UInt16}
    (h : d.inInitialState = true ∨ d.sequenceNum ∈ l) : ∀ x ∈ heldNumber d, x ∈ l := by
  intro x hx
  unfold heldNumber at hx
  split at hx
  · cases hx
  · rename_i hi
    rw [List.mem_singleton.1 hx]
    exact h.resolve_left hi

/-- A step that accepts no packet and takes from the list only numbers up to
the one then held. -/
theorem Inv.observe (h : r.Inv base) {calm : Bool} (hcount : ∀ P, jb.count P ≤ r.jb.count P)
    (hlist : jb.ListOk base r.accepted)
    (hlat : jb.latestReceivedSequenceNumber = r.jb.latestReceivedSequenceNumber)
    (hmiss : calm = true → ∀ x ∈ r.jb.missingSequenceNumbers,
      (∀ d ∈ heldNumber jb.lastDecodedState, dist base d < dist base x) →
        x ∈ jb.missingSequenceNumbers) :
    (r.observe jb calm).Inv base where
  apart c := Nat.le_trans (hcount _) (h.apart c)
  list := hlist
  frames f hf := h.frames f (JitterBuffer.mem_of_count hcount hf)
  decoded d hd := by
    rcases List.mem_append.1 hd with hd | hd
    · exact heldNumber_mem hlist.last d hd
    · exact h.decoded d hd
  covers hcalm x y hy h1 h2 h3 h4 := by
    obtain ⟨hc1, hc2⟩ := Bool.and_eq_true_iff.1 hcalm
    refine hmiss hc2 x (h.covers hc1 x y hy h1 (fun d hd => ?_) (hlat ▸ h3) h4) (fun d hd => ?_)
    · exact h2 d (List.mem_append_right _ hd)
    · exact h2 d (List.mem_append_left _ hd)

theorem Inv.observe_self (h : r.Inv base) {calm : Bool} : (r.observe r.jb calm).Inv base :=
  h.observe (fun _ => Nat.le_refl _) h.list rfl fun _ _ hx _ => hx

theorem inv_cleanUp (h : r.Inv base) {calm : Bool} :
    (r.observe r.jb.cleanUpOldOrEmptyFrames calm).Inv base := by
  have hcount := (JitterBuffer.recycles_cleanUp r.jb).count
  -- an empty frame's numbers are accepted ones
  have hkeep : ∀ l : FrameList, (∀ f ∈ l, f ∈ r.jb.frames) → ∀ d : DecodingState,
      (d.inInitialState = true ∨ d.sequenceNum ∈ r.accepted) →
      (l.cleanUpOldOrEmptyFrames d).1.inInitialState = true ∨
        (l.cleanUpOldOrEmptyFrames d).1.sequenceNum ∈ r.accepted := by
    intro l hl d hd
    refine FrameList.cleanUp_keeps (P := fun d => d.inInitialState = true ∨
      d.sequenceNum ∈ r.accepted) (fun f hf _ d hd _ => ?_) hd
    unfold DecodingState.updateEmptyFrame
    dsimp only
    split
    · exact hd
    split
    · exact Or.inr (h.frames f (hl f hf)).high
    · exact hd
  have hlast : r.jb.cleanedState.inInitialState = true ∨
      r.jb.cleanedState.sequenceNum ∈ r.accepted :=
    hkeep r.jb.incompleteFrames (fun f hf => List.mem_append_right _ hf) _
      (hkeep r.jb.decodableFrames (fun f hf => List.mem_append_left _ hf) _ h.list.last)
  obtain ⟨hl, hm, hlat, hf, hn, -⟩ := JitterBuffer.cleanUp_fields r.jb
  refine h.observe hcount (h.list.sublist hn hf hlat ?_ (hl ▸ hlast)) hlat fun _ x hx hd => ?_
  · rw [hm]
    split
    · exact .refl _
    · exact Keyed.dropThrough_sublist
  · rw [hm]
    rw [hl] at hd
    split
    · exact hx
    · rename_i hi
      have hseq := hlast.resolve_left hi
      refine (h.list.order.mem_dropThrough (h.list.window _ hseq)).2 ⟨hx, hd _ ?_⟩
      rw [heldNumber, if_neg hi]
      exact List.mem_singleton.2 rfl

theorem inv_extract (h : r.Inv base) (t : UInt32) {calm : Bool} :
    (r.observe (r.jb.extractAndSetDecode t).2 calm).Inv base := by
  obtain ⟨l, hl, he | ⟨f, hf, -, he⟩⟩ := JitterBuffer.extract_inv r.jb t
  · rw [he]
    refine h.observe (fun P => Nat.add_le_add_right (hl P) _) ?_ rfl fun _ x hx _ => hx
    exact h.list.sublist rfl rfl rfl (.refl _) h.list.last
  · rw [he]
    obtain ⟨h1, h2, h3, h4, h5, h6, h7, -⟩ :=
      JitterBuffer.setDecoded_fields { r.jb with decodableFrames := l } f
    have hseq := (h.frames f (List.mem_append_left _ hf)).high
    refine h.observe (fun P => ?_) (h.list.sublist h7 h6 h5 ?_ ?_) h5 fun _ x hx hd => ?_
    · rw [JitterBuffer.count, h1, h2]
      exact Nat.add_le_add_right (hl P) _
    · rw [h4]; exact Keyed.dropThrough_sublist
    · rw [h3]; exact Or.inr hseq
    · rw [h4]
      refine (h.list.order.mem_dropThrough (h.list.window _ hseq)).2 ⟨hx, hd _ ?_⟩
      rw [h3, heldNumber_setState]
      exact List.mem_singleton.2 rfl

theorem inv_getNackList (h : r.Inv base) :
    (r.observe r.jb.getNackList.2 (!r.jb.nackEvent)).Inv base := by
  have hp := JitterBuffer.pruned_getNackList r.jb
  refine h.observe (JitterBuffer.recycles_getNackList r.jb).count (h.list.pruned hp) hp.latest
    fun hc x hx _ => ?_
  rw [JitterBuffer.getNackList_calm (by simpa using hc)]
  exact hx

/-- The list after an accepted packet of a calm step. -/
theorem covers_insert {p : VCMPacket} {u v : JitterBuffer} {f g : FrameBuffer}
    {origin : JitterBuffer.Origin} {code : BufferEnum} (h : r.Inv base)
    (hw : r.jb.Way p u v f g origin code) (hp : dist base p.seqNum < 0x8000)
    (hcalm : r.calm = true) (hrec : r.jb.recyclesOn p = false) {x y : UInt16}
    (hy : (p.seqNum :: r.accepted).getLast? = some y) (h1 : dist base y < dist base x)
    (h2 : ∀ d ∈ r.decoded, dist base d < dist base x)
    (h3 : dist base x < dist base v.latestReceivedSequenceNumber)
    (h4 : x ∉ p.seqNum :: r.accepted) : x ∈ v.missingSequenceNumbers := by
  rw [JitterBuffer.recyclesOn, Bool.or_eq_false_iff] at hrec
  obtain ⟨free, dec, inc, n, hu⟩ := JitterBuffer.getFrame_calm hw.getFrame hrec.1
  have hv : v = (u.noteReceived p code (u.frameInsert f p).2).2.2 := by rw [hw.note]
  by_cases hfirst : r.jb.firstPacketSinceReset = true
  · -- the first packet is the latest one
    have hacc : r.accepted = [] := List.isEmpty_iff.1 (h.list.first.symm.trans hfirst)
    rw [hacc] at hy
    cases hy
    have hfu : u.firstPacketSinceReset = true := by rw [hu]; exact hfirst
    rw [hv, JitterBuffer.noteReceived, hw.positive, hfu, Bool.not_true,
      if_neg Bool.false_ne_true, if_pos rfl] at h3
    exact absurd h3 (Nat.lt_asymm h1)
  · have hne : r.accepted ≠ [] := fun hc => hfirst (h.list.first.trans (by rw [hc]; rfl))
    have hfu : u.firstPacketSinceReset = false := by rw [hu]; simpa using hfirst
    have hpr : u.prunesOn p.seqNum = false := by
      have : r.jb.firstPacketSinceReset = false := by simpa using hfirst
      have hrec' := hrec.2
      rw [this, h.list.mode] at hrec'
      rw [hu]
      exact hrec'
    have hok : u.ListOk base r.accepted := by
      rw [hu]
      exact h.list.sublist rfl rfl rfl (.refl _) h.list.last
    obtain ⟨-, -, -, -, -, hnoted⟩ := JitterBuffer.noteReceived_pruned (p := p)
      (f := (u.frameInsert f p).2) hw.positive hfu hok.mode
    rw [hv, hnoted hpr] at h3 ⊢
    obtain ⟨hm, hmax⟩ := hok.latest hne
    refine ((hok.mem_coverMissing hne hp).2 x).2 ?_
    have hxp : x ≠ p.seqNum := fun hc => h4 (hc ▸ List.mem_cons_self ..)
    have hxa : x ∉ r.accepted := fun hc => h4 (List.mem_cons_of_mem _ hc)
    have hlat : u.latestReceivedSequenceNumber = r.jb.latestReceivedSequenceNumber := by rw [hu]
    by_cases hlt : dist base x < dist base u.latestReceivedSequenceNumber
    · left
      refine ⟨?_, hxp⟩
      rw [hu]
      refine h.covers hcalm x y ?_ h1 h2 (hlat ▸ hlt) hxa
      rw [List.getLast?_cons_of_ne_nil hne] at hy
      exact hy
    · right
      have hne' : dist base x ≠ dist base u.latestReceivedSequenceNumber := by
        intro hc
        rw [(dist_inj base).1 hc] at hxa
        exact hxa hm
      have h3' : dist base x < dist base (latestSequenceNumber u.latestForNack p.seqNum) := h3
      rw [hok.latestForNack hne] at h3'
      rcases (JitterBuffer.dist_latest (hok.window _ hm) hp).2.2 with he | he
      · rw [he] at h3'
        exact absurd h3' hlt
      · rw [he] at h3'
        omega

theorem inv_insert {p : VCMPacket} {reply : JitterBuffer.Reply} (h : r.Inv base)
    (hp : dist base p.seqNum < 0x8000) (he : r.jb.insertPacket p = some (reply, jb))
    (hr : reply.code.accepted = true) :
    Inv base { r.observe jb (!r.jb.recyclesOn p) with accepted := p.seqNum :: r.accepted } := by
  have hkeep := JitterBuffer.keeps_insertPacket h.apart he
  obtain ⟨u, v, f, g, origin, code, hw, hrt⟩ := JitterBuffer.insertPacket_accepted he hr
  obtain rfl : jb = (v.placeFrame origin code g).2 := congrArg Prod.snd hrt
  obtain ⟨hmiss, hlat, hfst, hmode, hlast⟩ := JitterBuffer.placeFrame_fields v origin code g
  -- the packet's frame
  have hwithin : f.Within r.accepted := by
    rcases JitterBuffer.getFrame_mem hw.getFrame with ⟨-, f', rfl⟩ | ⟨-, hf⟩
    · exact ⟨fun n hn => absurd hn List.not_mem_nil, fun e hee => by cases hee⟩
    · exact (h.frames f hf).within
  have hg : g.Known (p.seqNum :: r.accepted) := by
    obtain ⟨n, rfl⟩ := hw.frame
    obtain ⟨⟨h1, h2⟩, h3⟩ := hw.outcome.known hw.positive hwithin
    exact ⟨⟨h1, h2⟩, h3⟩
  -- the list
  have hu : u.ListOk base r.accepted := by
    refine JitterBuffer.ListOk.pruned ?_ (JitterBuffer.pruned_getFrame hw.getFrame)
    exact h.list.sublist rfl rfl rfl (.refl _) h.list.last
  have hv : v.ListOk base (p.seqNum :: r.accepted) := by
    have := hu.noteReceived (f := (u.frameInsert f p).2) hw.positive hp
    rw [hw.note] at this
    exact this
  have hlist : (v.placeFrame origin code g).2.ListOk base (p.seqNum :: r.accepted) := by
    refine hv.sublist hmode hfst hlat (hmiss ▸ .refl _) ?_
    rcases hlast with hl | ⟨-, -, hl⟩
    · rw [hl]; exact hv.last
    · rw [hl]
      unfold DecodingState.updateEmptyFrame
      dsimp only
      split
      · exact hv.last
      split
      · exact Or.inr hg.high
      · exact hv.last
  refine ⟨hkeep.apart, hlist, fun x hx => ?_, fun d hd => ?_, fun hcalm x y hy h1 h2 h3 h4 => ?_⟩
  · rcases hw.mem h.apart hx with hx | rfl
    · obtain ⟨hx1, hx2⟩ := h.frames x hx
      exact ⟨hx1.mono fun n hn => List.mem_cons_of_mem _ hn, hx2⟩
    · exact hg
  · rcases List.mem_append.1 hd with hd | hd
    · exact heldNumber_mem hlist.last d hd
    · exact List.mem_cons_of_mem _ (h.decoded d hd)
  · obtain ⟨hc1, hc2⟩ := Bool.and_eq_true_iff.1 hcalm
    change x ∈ (v.placeFrame origin code g).2.missingSequenceNumbers
    rw [hmiss]
    refine covers_insert h hw hp hc1 (by simpa using hc2) hy h1 (fun d hd => ?_) (hlat ▸ h3) h4
    exact h2 d (List.mem_append_right _ hd)

end Inv

/-- Every step keeps the invariant. -/
theorem inv_step {base : UInt16} {r r' : NackRun} {op : Op} (hwin : r.InWindow base op)
    (h : r.Inv base) (hs : r.step op = some r') : r'.Inv base := by
  have hpoll : (r.observe r.jb.pollComplete.2 true).Inv base := by
    unfold JitterBuffer.pollComplete
    split
    · exact h.observe_self
    · exact inv_cleanUp h
  cases op with
  | insertPacket p =>
    unfold step at hs
    dsimp only at hs
    split at hs
    · cases hs
    · rename_i reply jb he
      split at hs
      · rename_i hr
        cases hs
        exact inv_insert h (hwin p rfl) he hr
      · cases hs
  | pollComplete =>
    cases hs
    exact hpoll
  | nextCompleteTimestamp =>
    cases hs
    unfold JitterBuffer.nextCompleteTimestamp
    dsimp only
    split
    · exact hpoll.observe_self
    · exact inv_cleanUp hpoll
  | extractAndSetDecode t =>
    cases hs
    exact inv_extract h t
  | releaseFrame f =>
    cases hs
    refine h.observe (fun _ => Nat.le_refl _) ?_ rfl fun _ _ hx _ => hx
    exact h.list.sublist rfl rfl rfl (.refl _) h.list.last
  | getNackList =>
    cases hs
    exact inv_getNackList h
  | updateRtt rtt =>
    cases hs
    refine h.observe (fun _ => Nat.le_refl _) ?_ rfl fun _ _ hx _ => hx
    exact h.list.sublist rfl rfl rfl (.refl _) h.list.last

theorem inv_initial {base : UInt16} {r : NackRun} (h : r.Initial) : r.Inv base := by
  obtain ⟨high, size, age, time, mode, rfl⟩ := h
  refine ⟨fun c => Nat.zero_le _, ⟨rfl, rfl, ?_, fun h => absurd rfl h, Or.inl rfl, ⟨?_, .nil⟩, ?_⟩,
    ?_, ?_, fun _ x y hy => by cases hy⟩
  · exact fun x hx => absurd hx List.not_mem_nil
  · exact fun x hx => absurd hx List.not_mem_nil
  · exact fun x hx => absurd hx List.not_mem_nil
  · exact fun x hx => absurd hx List.not_mem_nil
  · exact fun x hx => absurd hx List.not_mem_nil

/-- Between two numbers of the window there are only numbers of the window. -/
theorem newer_between {base a b x : UInt16} (ha : dist base a < 0x8000) (hb : dist base b < 0x8000)
    (hab : dist base a ≤ dist base b) (h1 : isNewerSequenceNumber x a = true)
    (h2 : isNewerSequenceNumber b x = true) : dist base a < dist base x ∧ dist base x < dist base b := by
  have h3 := a.toNat_lt
  have h4 := b.toNat_lt
  have h5 := x.toNat_lt
  have h6 := base.toNat_lt
  simp only [isNewerSequenceNumber, bne_iff_ne, ne_eq, Bool.and_eq_true, decide_eq_true_eq,
    UInt16.toNat_sub, ← UInt16.toNat_inj, Serial.dist] at *
  omega

/-- In every reached state the NACK list is in order and free of accepted
numbers, and complete in a calm run. -/
theorem nack_list_exact (base : UInt16) (r : NackRun)
    (h : (lts.within (InWindow base)).Reachable r) :
    r.jb.missingSequenceNumbers.Pairwise (fun a b => isNewerSequenceNumber b a = true) ∧
      (∀ x ∈ r.jb.missingSequenceNumbers, x ∉ r.accepted) ∧
      (r.calm = true → ∀ x first, r.accepted.getLast? = some first →
        isNewerSequenceNumber x first = true →
        (∀ d ∈ r.decoded, isNewerSequenceNumber x d = true) →
        isNewerSequenceNumber r.jb.latestReceivedSequenceNumber x = true → x ∉ r.accepted →
        x ∈ r.jb.missingSequenceNumbers) := by
  have hinv : r.Inv base := by
    refine LTS.Inductive.reachable (P := Inv base) ⟨fun r h => inv_initial h, ?_⟩ r h
    exact fun r op r' hi hs => inv_step hs.1 hi hs.2
  refine ⟨?_, fun x hx => (hinv.list.missing x hx).1, fun hcalm x first hfirst h1 h2 h3 h4 => ?_⟩
  · refine hinv.list.order.order.imp_of_mem fun ha hb hlt => ?_
    rw [newer_dist base (hinv.list.order.window _ hb) (hinv.list.order.window _ ha)]
    exact decide_eq_true hlt
  · have hmem := List.mem_of_getLast? hfirst
    obtain ⟨hm, hmax⟩ := hinv.list.latest (List.ne_nil_of_mem hmem)
    obtain ⟨hx1, hx2⟩ := newer_between (hinv.list.window _ hmem) (hinv.list.window _ hm)
      (hmax _ hmem) h1 h3
    have hxw : dist base x < 0x8000 := Nat.lt_trans hx2 (hinv.list.window _ hm)
    refine hinv.covers hcalm x first hfirst hx1 (fun d hd => ?_) hx2 h4
    have := h2 d hd
    rw [newer_dist base hxw (hinv.list.window _ (hinv.decoded d hd))] at this
    exact of_decide_eq_true this

/-- A key frame in one packet. -/
def keyPacket (timestamp : UInt32) (seq : UInt16) : VCMPacket :=
  .ofRtp [1] timestamp seq true .key { isFirstPacket := true, codec := .generic }

def usual : NackRun :=
  { jb := ((JitterBuffer.new.start.setNackMode .nack 0).setNackSettings 250 450 0).setDecodeErrorMode
      .noErrors }

theorem usual_initial : usual.Initial := ⟨0, 250, 450, 0, .noErrors, rfl⟩

/-- Numbers 10 and 13 arrive: 11 and 12 are asked for. -/
theorem nack_list_exact_gap :
    ∃ r, (lts.within (InWindow 10)).Run usual
        [.insertPacket (keyPacket 1000 10), .insertPacket (keyPacket 2000 13)] r ∧
      r.calm = true ∧ 11 ∈ r.jb.missingSequenceNumbers ∧ 12 ∈ r.jb.missingSequenceNumbers ∧
      13 ∉ r.jb.missingSequenceNumbers := by
  have h : ∃ r₁, usual.step (.insertPacket (keyPacket 1000 10)) = some r₁ ∧
      ∃ r₂, r₁.step (.insertPacket (keyPacket 2000 13)) = some r₂ ∧ r₂.calm = true ∧
        r₂.accepted = [13, 10] ∧ r₂.decoded = [] ∧ r₂.jb.latestReceivedSequenceNumber = 13 :=
    ⟨_, rfl, _, rfl, by decide⟩
  obtain ⟨r₁, h1, r₂, h2, hcalm, hacc, hdec, hlat⟩ := h
  have hrun : (lts.within (InWindow 10)).Run usual
      [.insertPacket (keyPacket 1000 10), .insertPacket (keyPacket 2000 13)] r₂ := by
    refine .cons ⟨fun p hp => ?_, h1⟩ (.cons ⟨fun p hp => ?_, h2⟩ (.nil _))
    · cases hp; decide
    · cases hp; decide
  obtain ⟨-, hno, hall⟩ := nack_list_exact 10 r₂ ⟨usual, _, usual_initial, hrun⟩
  have hmem : ∀ x : UInt16, isNewerSequenceNumber x 10 = true → isNewerSequenceNumber 13 x = true →
      x ∉ [13, 10] → x ∈ r₂.jb.missingSequenceNumbers := by
    intro x hx1 hx2 hx3
    refine hall hcalm x 10 (by rw [hacc]; rfl) hx1 (fun d hd => ?_) (hlat ▸ hx2) (hacc ▸ hx3)
    rw [hdec] at hd
    cases hd
  refine ⟨r₂, hrun, hcalm, hmem 11 (by decide) (by decide) (by decide),
    hmem 12 (by decide) (by decide) (by decide), fun hc => hno 13 hc ?_⟩
  rw [hacc]
  decide

/-- With the last decoded frame in place of all that the decoding state has
held: 12 is decoded after 14, and 13 has gone with 14. -/
theorem decoded_out_of_order :
    ¬ ∀ (base : UInt16) (r : NackRun), (lts.within (InWindow base)).Reachable r →
      r.calm = true → r.jb.lastDecodedState.inInitialState = false →
      ∀ x first, r.accepted.getLast? = some first → isNewerSequenceNumber x first = true →
        isNewerSequenceNumber x r.jb.lastDecodedState.sequenceNum = true →
        isNewerSequenceNumber r.jb.latestReceivedSequenceNumber x = true → x ∉ r.accepted →
        x ∈ r.jb.missingSequenceNumbers := by
  intro hall
  have h : ∃ r₁, usual.step (.insertPacket (keyPacket 1000 10)) = some r₁ ∧
      ∃ r₂, r₁.step (.insertPacket (keyPacket 2000 14)) = some r₂ ∧
      ∃ r₃, r₂.step (.insertPacket (keyPacket 3000 12)) = some r₃ ∧
      ∃ r₄, r₃.step (.extractAndSetDecode 1000) = some r₄ ∧
      ∃ r₅, r₄.step (.extractAndSetDecode 2000) = some r₅ ∧
      ∃ r₆, r₅.step (.extractAndSetDecode 3000) = some r₆ ∧ r₆.calm = true ∧
        r₆.accepted = [12, 14, 10] ∧ r₆.jb.lastDecodedState.inInitialState = false ∧
        r₆.jb.lastDecodedState.sequenceNum = 12 ∧ r₆.jb.latestReceivedSequenceNumber = 14 ∧
        r₆.jb.missingSequenceNumbers = [] :=
    ⟨_, rfl, _, rfl, _, rfl, _, rfl, _, rfl, _, rfl, by decide⟩
  obtain ⟨r₁, h1, r₂, h2, r₃, h3, r₄, h4, r₅, h5, r₆, h6, hcalm, hacc, hinit, hseq, hlat, hmiss⟩ := h
  have hrun : (lts.within (InWindow 10)).Run usual
      [.insertPacket (keyPacket 1000 10), .insertPacket (keyPacket 2000 14),
        .insertPacket (keyPacket 3000 12), .extractAndSetDecode 1000, .extractAndSetDecode 2000,
        .extractAndSetDecode 3000] r₆ := by
    refine .cons ⟨fun p hp => ?_, h1⟩ (.cons ⟨fun p hp => ?_, h2⟩ (.cons ⟨fun p hp => ?_, h3⟩
      (.cons ⟨fun p hp => ?_, h4⟩ (.cons ⟨fun p hp => ?_, h5⟩ (.cons ⟨fun p hp => ?_, h6⟩ (.nil _))))))
    all_goals cases hp
    all_goals decide
  have := hall 10 r₆ ⟨usual, _, usual_initial, hrun⟩ hcalm hinit 13 10 (by rw [hacc]; rfl)
    (by decide) (by rw [hseq]; decide) (by rw [hlat]; decide) (by rw [hacc]; decide)
  rw [hmiss] at this
  cases this

end NackRun

end RtcCore.L3
