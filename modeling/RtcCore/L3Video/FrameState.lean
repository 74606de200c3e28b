import RtcCore.L3Video.FrameSteps
import RtcCore.L3Video.SessionRejects

/-!
# What `kStateComplete` says about the packets

A frame stays in `kStateComplete` once it got there, while its session goes on
recomputing `complete_` and the numbers of its first and last packet. `Sound`
is what the state promises: a list without a gap that begins with the packet
on record as first and ends with the marker packet on record as last.

The promise survives a packet exactly when the packet is `Faithful`: if it
goes into a complete frame, or fills the last gap of a frame whose first and
last packet are on record, then the recorded packets are the outermost ones,
the new packet being allowed to become one of them.

Results:
* `state_sound_iff`: in a run of insertions after `Reset` the promise holds in
  every state exactly when every packet is faithful.
* `first_nalu_after_complete`: the last packet of an H.264 frame completes it
  alone, an earlier one then leaves a gap.
-/
namespace RtcCore.L3

open Serial

namespace Session

/-- What a complete frame promises. -/
structure Whole (s : Info) : Prop where
  sequence : inSequence s.packets = true
  first : ∃ q, s.packets.head? = some q ∧ s.firstPacketSeqNum = some q.pkt.seqNum
  last : ∃ q, s.packets.getLast? = some q ∧ s.lastPacketSeqNum = some q.pkt.seqNum ∧
    q.pkt.markerBit = true

/-! ## Lists in sequence -/

theorem inSequence_congr : ∀ {ps qs : List Stored},
    (ps.map fun q => q.pkt.seqNum) = qs.map (fun q => q.pkt.seqNum) →
    inSequence ps = inSequence qs := by
  intro ps
  induction ps with
  | nil =>
    intro qs h
    rw [List.map_eq_nil_iff.1 h.symm]
  | cons p ps ih =>
    intro qs h
    cases qs with
    | nil => cases h
    | cons q qs =>
      obtain ⟨hpq, hrest⟩ := List.cons.inj h
      have := ih hrest
      cases ps with
      | nil => rw [List.map_eq_nil_iff.1 hrest.symm]; rfl
      | cons p' ps =>
        cases qs with
        | nil => cases hrest
        | cons q' qs =>
          have hpq' := (List.cons.inj hrest).1
          simp only [inSequence, this, hpq, hpq']

/-- In sequence from `q` on, the distances count up. -/
theorem inSequence_keys {base : UInt16} {q : Stored} {ps : List Stored}
    (h : inSequence (q :: ps) = true) (hl : key base q + (q :: ps).length ≤ 0x8000) :
    (q :: ps).map (key base) = List.range' (key base q) (q :: ps).length := by
  induction ps generalizing q with
  | nil => rfl
  | cons r ps ih =>
    simp only [inSequence, Bool.and_eq_true, decide_eq_true_eq] at h
    simp only [List.length_cons] at hl ih
    have hr : key base r = key base q + 1 := by
      rw [key, ← h.1]
      exact dist_succ (by simp only [key] at hl; omega)
    have := ih h.2 (by omega)
    rw [List.map_cons, this, hr]
    rfl

/-- A packet in a list in sequence is newer than those before it and older
than those behind it. -/
theorem inSequence_split {front back : List Stored} {x : Stored}
    (h : inSequence (front ++ x :: back) = true) (hl : (front ++ x :: back).length ≤ 0x8000) :
    (∀ y ∈ front, isNewerSequenceNumber x.pkt.seqNum y.pkt.seqNum = true) ∧
      ∀ y ∈ back, isNewerSequenceNumber y.pkt.seqNum x.pkt.seqNum = true := by
  cases hps : front ++ x :: back with
  | nil => simp at hps
  | cons q ps =>
    rw [hps] at h hl
    have hk0 : key q.pkt.seqNum q = 0 := dist_self _
    have hkeys := @inSequence_keys q.pkt.seqNum q ps h (by rw [hk0]; omega)
    rw [hk0] at hkeys
    have hlt : ∀ y ∈ front ++ x :: back, key q.pkt.seqNum y < 0x8000 := by
      intro y hy
      have : key q.pkt.seqNum y ∈ (q :: ps).map (key q.pkt.seqNum) := by
        rw [← hps]; exact List.mem_map_of_mem hy
      rw [hkeys, List.mem_range'_1] at this
      omega
    have ho : (front ++ x :: back).Pairwise fun a b => key q.pkt.seqNum a < key q.pkt.seqNum b := by
      rw [← List.pairwise_map (f := key q.pkt.seqNum) (R := (· < ·)), hps, hkeys]
      exact List.pairwise_lt_range'
    obtain ⟨-, hback, hfront⟩ := List.pairwise_append.1 ho
    have hx := hlt x (List.mem_append_right _ (List.mem_cons_self ..))
    constructor
    · intro y hy
      rw [newer_dist q.pkt.seqNum hx (hlt y (List.mem_append_left _ hy))]
      exact decide_eq_true (hfront y hy x (List.mem_cons_self ..))
    · intro y hy
      rw [newer_dist q.pkt.seqNum
        (hlt y (List.mem_append_right _ (List.mem_cons_of_mem _ hy))) hx]
      exact decide_eq_true ((List.pairwise_cons.1 hback).1 y hy)

theorem ne_of_newer {a b : UInt16} (h : isNewerSequenceNumber a b = true) : a ≠ b := by
  rintro rfl
  rw [newer_irrefl] at h
  cases h

/-! ## Taking a packet in -/

variable (s : Info) (p : VCMPacket)

/-- The list with the packet in its place. -/
def withPacket : List Stored :=
  scanFront s.packets p.seqNum ++ ⟨p, 0, 0⟩ :: scanBack s.packets p.seqNum

def widens : Prop := p.codec = .unknown ∨ p.codec = .h264

instance : Decidable (widens p) :=
  inferInstanceAs (Decidable (p.codec = .unknown ∨ p.codec = .h264))

/-- Neither before the first packet nor behind the last one. -/
def inBounds : Prop :=
  widens p ∨ (∀ f, s.firstPacketSeqNum = some f → isNewerSequenceNumber f p.seqNum = false) ∧
    ∀ l, s.lastPacketSeqNum = some l → isNewerSequenceNumber p.seqNum l = false

/-- The packet goes into the list. -/
def Taken : Prop := reachesTracking s p ∧ inBounds s p

/-- The lowest packet is the one on record, or the new one, flagged first and
older than any on record. -/
def FirstInPlace : Prop :=
  match (scanFront s.packets p.seqNum).head? with
  | some q => s.firstPacketSeqNum = some q.pkt.seqNum
  | none => p.isFirstPacket = true ∧
      ∀ f, s.firstPacketSeqNum = some f → isNewerSequenceNumber f p.seqNum = true

/-- The highest packet is the one on record, or the new one, with the marker
and newer than any on record. -/
def LastInPlace : Prop :=
  match (scanBack s.packets p.seqNum).getLast? with
  | some q => s.lastPacketSeqNum = some q.pkt.seqNum
  | none => p.markerBit = true ∧
      ∀ l, s.lastPacketSeqNum = some l → isNewerSequenceNumber p.seqNum l = true

variable {s p}

theorem track_accepts : (s.track p).1 = true ↔ inBounds s p := by
  unfold Info.track inBounds
  split
  · rename_i hc
    exact ⟨fun _ => Or.inl hc, fun _ => rfl⟩
  rename_i hc
  split
  · rename_i hf
    refine ⟨fun h => (nomatch h), fun h => ?_⟩
    obtain ⟨hfirst, -⟩ := h.resolve_left hc
    unfold Info.trackFirst at hf
    split at hf
    · split at hf
      · cases hf
      · split at hf <;> cases hf
    · rename_i f hs
      rw [hfirst f hs, if_neg Bool.false_ne_true] at hf
      split at hf <;> cases hf
  rename_i t hf
  have hfirst : ∀ f, s.firstPacketSeqNum = some f → isNewerSequenceNumber f p.seqNum = false := by
    intro f hs
    unfold Info.trackFirst at hf
    rw [hs] at hf
    refine Bool.eq_false_iff.2 fun hn => ?_
    simp only [hn, if_true] at hf
    cases hf
  split
  · rename_i hl
    obtain ⟨l, hs, hn⟩ := trackLast_none_iff.1 hl
    rw [trackFirst_last hf] at hs
    refine ⟨fun h => (nomatch h), fun h => ?_⟩
    have := (h.resolve_left hc).2 l hs
    rw [hn] at this
    cases this
  · rename_i u hl
    refine ⟨fun _ => Or.inr ⟨hfirst, fun l hs => Bool.eq_false_iff.2 fun hn => ?_⟩, fun _ => rfl⟩
    have : t.trackLast p = none := trackLast_none_iff.2 ⟨l, (trackFirst_last hf).trans hs, hn⟩
    rw [hl] at this
    cases this

/-- An accepted packet is tracked the same way for all codecs. -/
theorem track_bounds (h : (s.track p).1 = true) :
    (s.track p).2.firstPacketSeqNum = (s.trackWidening p).firstPacketSeqNum ∧
      (s.track p).2.lastPacketSeqNum = (s.trackWidening p).lastPacketSeqNum := by
  have hb := track_accepts.1 h
  unfold Info.track at h ⊢
  split
  · exact ⟨rfl, rfl⟩
  rename_i hc
  rw [if_neg hc] at h
  obtain ⟨hfirst, hlast⟩ := hb.resolve_left hc
  split
  · rename_i hf
    rw [hf] at h
    cases h
  rename_i t hf
  rw [hf] at h
  have h1 : t.firstPacketSeqNum = (s.trackWidening p).firstPacketSeqNum := by
    unfold Info.trackFirst at hf
    simp only [Info.trackWidening]
    split at hf
    · rename_i hs
      split at hf
      · rename_i hp
        cases hf
        simp only [hp, if_true]
      · rename_i hp
        split at hf <;>
        · cases hf
          simp only [hs, if_neg hp]
    · rename_i f hs
      rw [hfirst f hs, if_neg Bool.false_ne_true] at hf
      split at hf <;>
      · cases hf
        simp only [hs, hfirst f hs, Bool.and_false, if_neg Bool.false_ne_true]
  split
  · rename_i hl
    simp only [hl] at h
    cases h
  · rename_i u hl
    have htl := trackFirst_last hf
    unfold Info.trackLast at hl
    simp only [Info.trackWidening] at h1 ⊢
    split at hl
    · rename_i hs
      rw [htl] at hs
      split at hl
      · rename_i hp
        cases hl
        exact ⟨h1, by simp only [hs, hp, if_true]⟩
      · rename_i hp
        cases hl
        exact ⟨h1, by rw [htl]; simp only [hs, if_neg hp]⟩
    · rename_i l hs
      rw [htl] at hs
      rw [hlast l hs, if_neg Bool.false_ne_true] at hl
      cases hl
      refine ⟨h1, ?_⟩
      rw [htl]
      simp only [hs, hlast l hs, Bool.and_false, if_neg Bool.false_ne_true]

theorem widening_first_known :
    (s.trackWidening p).firstPacketSeqNum.isSome =
      (s.firstPacketSeqNum.isSome || p.isFirstPacket) := by
  simp only [Info.trackWidening]
  split
  · rename_i h
    rw [h]
    cases p.isFirstPacket <;> rfl
  · rename_i f h
    rw [h]
    split <;> rfl

theorem widening_last_known :
    (s.trackWidening p).lastPacketSeqNum.isSome =
      (s.lastPacketSeqNum.isSome || p.markerBit) := by
  simp only [Info.trackWidening]
  split
  · rename_i h
    rw [h]
    cases p.markerBit <;> rfl
  · rename_i f h
    rw [h]
    split <;> rfl

/-! ## What is on record -/

/-- The record of the first packet is not older than every packet, that of
the last one is a marker packet of the list. -/
structure Recorded (s : Info) : Prop where
  first : ∀ f, s.firstPacketSeqNum = some f → ∃ q ∈ s.packets, notBefore f q = false
  last : ∀ l, s.lastPacketSeqNum = some l →
    ∃ q ∈ s.packets, q.pkt.seqNum = l ∧ q.pkt.markerBit = true
  typed : s.frameType ≠ .empty
  few : s.packets.length ≤ kMaxPacketsInSession

theorem notBefore_self {seq : UInt16} {q : Stored} (h : q.pkt.seqNum = seq) :
    notBefore seq q = false := by
  simp [notBefore, latestSequenceNumber, h]

theorem notBefore_of_newer {seq : UInt16} {q : Stored}
    (h : isNewerSequenceNumber seq q.pkt.seqNum = true) : notBefore seq q = false := by
  simp [notBefore, latestSequenceNumber, h]

theorem recorded_empty : Recorded {} :=
  ⟨fun _ h => (nomatch h), fun _ h => (nomatch h), FrameType.noConfusion, Nat.zero_le _⟩

/-- Also the record that a refused packet may leave is of that kind. -/
theorem Recorded.refused (h : Recorded s) (hm : p.frameType ≠ .empty)
    (hr : (s.track p).1 = false) : Recorded (s.track p).2 := by
  unfold Info.track at hr ⊢
  split
  · rename_i hc
    rw [if_pos hc] at hr
    cases hr
  rename_i hc
  rw [if_neg hc] at hr
  split
  · exact h
  rename_i t hf
  split
  · rename_i hl
    obtain ⟨l, hs, hn⟩ := trackLast_none_iff.1 hl
    rw [trackFirst_last hf] at hs
    obtain ⟨q, hq, hql, -⟩ := h.last l hs
    unfold Info.trackFirst at hf
    split at hf
    · split at hf
      · cases hf
        refine ⟨fun f he => ?_, h.last, hm, h.few⟩
        cases he
        exact ⟨q, hq, notBefore_of_newer (hql ▸ hn)⟩
      · split at hf
        · cases hf
          exact ⟨h.first, h.last, hm, h.few⟩
        · cases hf
          exact h
    · split at hf
      · cases hf
      · split at hf
        · cases hf
          exact ⟨h.first, h.last, hm, h.few⟩
        · cases hf
          exact h
  · rename_i u hl
    simp only [hf, hl] at hr
    cases hr

theorem mem_placed_pkt (off size shift : Nat) {q : Stored} (hq : q ∈ s.packets) :
    ∃ q' ∈ placed s p off size shift, q'.pkt = q.pkt := by
  rw [← scan_split s.packets p.seqNum] at hq
  rcases List.mem_append.1 hq with hq | hq
  · exact ⟨q, List.mem_append_left _ hq, rfl⟩
  · exact ⟨q.shift shift, List.mem_append_right _
      (List.mem_cons_of_mem _ (List.mem_map_of_mem hq)), rfl⟩

theorem self_mem_placed {off size shift : Nat} :
    (⟨p, off, size⟩ : Stored) ∈ placed s p off size shift :=
  List.mem_append_right _ (List.mem_cons_self ..)

theorem placed_length {off size shift : Nat} :
    (placed s p off size shift).length = s.packets.length + 1 := by
  conv => rhs; rw [← scan_split s.packets p.seqNum]
  simp only [placed, List.length_append, List.length_cons, List.length_map]
  omega

theorem withPacket_length (s : Info) (p : VCMPacket) :
    (withPacket s p).length = s.packets.length + 1 := by
  conv => rhs; rw [← scan_split s.packets p.seqNum]
  simp only [withPacket, List.length_append, List.length_cons]
  omega

theorem inSequence_placed {off size shift : Nat} :
    inSequence (placed s p off size shift) = inSequence (withPacket s p) := by
  refine inSequence_congr ?_
  simp [placed, withPacket, Stored.shift, Function.comp_def]

/-- The session right after the packet has been put in. -/
theorem Recorded.taken (h : Recorded s) (hm : p.frameType ≠ .empty)
    (hfull : s.packets.length ≠ kMaxPacketsInSession) (hb : (s.track p).1 = true) {b c : Bool}
    {off size shift : Nat} :
    Recorded { (s.track p).2 with
      packets := placed s p off size shift, complete := b, decodable := c } := by
  obtain ⟨hfirst, hlast⟩ := track_bounds hb
  have hself : (⟨p, off, size⟩ : Stored) ∈ placed s p off size shift := self_mem_placed
  refine ⟨fun f he => ?_, fun l he => ?_, ?_, ?_⟩
  · have he := hfirst.symm.trans he
    have hnew : p.seqNum = f → ∃ q ∈ placed s p off size shift, notBefore f q = false :=
      fun e => ⟨_, hself, notBefore_self e⟩
    have hold : s.firstPacketSeqNum = some f →
        ∃ q ∈ placed s p off size shift, notBefore f q = false := by
      intro e
      obtain ⟨q, hq, hn⟩ := h.first f e
      obtain ⟨q', hq', hpkt⟩ := mem_placed_pkt off size shift hq
      exact ⟨q', hq', by simpa only [notBefore, hpkt] using hn⟩
    simp only [Info.trackWidening] at he
    split at he
    · split at he
      · exact hnew (Option.some.inj he)
      · cases he
    · rename_i f' hs
      split at he
      · exact hnew (Option.some.inj he)
      · exact hold (hs.trans he)
  · have he := hlast.symm.trans he
    have hold : s.lastPacketSeqNum = some l →
        ∃ q ∈ placed s p off size shift, q.pkt.seqNum = l ∧ q.pkt.markerBit = true := by
      intro e
      obtain ⟨q, hq, hn⟩ := h.last l e
      obtain ⟨q', hq', hpkt⟩ := mem_placed_pkt off size shift hq
      exact ⟨q', hq', by rw [hpkt]; exact hn⟩
    simp only [Info.trackWidening] at he
    split at he
    · split at he
      · rename_i hmark
        exact ⟨_, hself, Option.some.inj he, hmark⟩
      · cases he
    · rename_i l' hs
      split at he
      · rename_i hmark
        exact ⟨_, hself, Option.some.inj he, (Bool.and_eq_true _ _ ▸ hmark).1⟩
      · exact hold (hs.trans he)
  · show (s.track p).2.frameType ≠ .empty
    unfold Info.track at hb ⊢
    split
    · exact hm
    rename_i hc
    rw [if_neg hc] at hb
    split
    · exact h.typed
    rename_i t hf
    have ht : t.frameType ≠ .empty := by
      unfold Info.trackFirst at hf
      repeat' split at hf
      all_goals cases hf
      all_goals first | exact hm | exact h.typed
    split
    · exact ht
    · rename_i u hl
      unfold Info.trackLast at hl
      repeat' split at hl
      all_goals cases hl
      all_goals exact ht
  · show (placed s p off size shift).length ≤ _
    have := h.few
    rw [placed_length]
    omega

/-! ## The outermost packets -/

section Ends

variable {off size shift : Nat} (hseq : inSequence (withPacket s p) = true)
  (hrec : Recorded s)

include hseq hrec

theorem newer_around :
    (∀ y ∈ scanFront s.packets p.seqNum, isNewerSequenceNumber p.seqNum y.pkt.seqNum = true) ∧
      ∀ y ∈ scanBack s.packets p.seqNum, isNewerSequenceNumber y.pkt.seqNum p.seqNum = true := by
  have hlen := withPacket_length s p
  have hfew := hrec.few
  simp only [kMaxPacketsInSession] at hfew
  exact inSequence_split (x := ⟨p, 0, 0⟩) hseq (show (withPacket s p).length ≤ _ by omega)

theorem head_recorded_iff :
    (∃ q, (placed s p off size shift).head? = some q ∧
      (s.trackWidening p).firstPacketSeqNum = some q.pkt.seqNum) ↔ FirstInPlace s p := by
  obtain ⟨hfront, -⟩ := newer_around hseq hrec
  unfold FirstInPlace placed
  cases hf : scanFront s.packets p.seqNum with
  | nil =>
    simp only [List.nil_append, List.head?_cons, List.head?_nil, Option.some.injEq,
      exists_eq_left', Info.trackWidening]
    split
    · rename_i hs
      simp [hs]
    · rename_i f hs
      have hne : f ≠ p.seqNum := by
        rintro rfl
        -- everything lies behind the packet, yet the record is not older than all of it
        obtain ⟨q, hq, hn⟩ := hrec.first _ hs
        rw [← scan_split s.packets p.seqNum, hf, List.nil_append] at hq
        rw [mem_scanBack hq] at hn
        cases hn
      split
      · rename_i hc
        rw [Bool.and_eq_true] at hc
        simp [hs, hc]
      · rename_i hc
        simp only [Option.some.injEq, hs, forall_eq', hne, false_iff]
        exact fun h => hc (Bool.and_eq_true _ _ ▸ h)
  | cons q front =>
    have hq := hfront q (by rw [hf]; exact List.mem_cons_self ..)
    have hne := ne_of_newer hq
    simp only [List.cons_append, List.head?_cons, Option.some.injEq, exists_eq_left',
      Info.trackWidening]
    split
    · rename_i hs
      split <;> simp [hs, hne]
    · rename_i f hs
      split
      · rename_i hc
        rw [Bool.and_eq_true] at hc
        simp only [Option.some.injEq, hne, hs, false_iff]
        rintro rfl
        rw [newer_asymm hq] at hc
        cases hc.2
      · rw [hs]

theorem last_recorded_iff :
    (∃ q, (placed s p off size shift).getLast? = some q ∧
      (s.trackWidening p).lastPacketSeqNum = some q.pkt.seqNum ∧ q.pkt.markerBit = true) ↔
      LastInPlace s p := by
  obtain ⟨hfront, hback⟩ := newer_around hseq hrec
  unfold LastInPlace placed
  rcases List.eq_nil_or_concat (scanBack s.packets p.seqNum) with hb | ⟨back, q, hb⟩
  · simp only [hb, List.map_nil, List.getLast?_append, List.getLast?_singleton, Option.some_or,
      Option.some.injEq, exists_eq_left', List.getLast?_nil, Info.trackWidening]
    split
    · rename_i hs
      simp [hs]
    · rename_i l hs
      have hne : l ≠ p.seqNum := by
        rintro rfl
        obtain ⟨q, hq, hl, -⟩ := hrec.last _ hs
        rw [← scan_split s.packets p.seqNum, hb, List.append_nil] at hq
        exact ne_of_newer (hfront q hq) hl.symm
      split
      · rename_i hc
        rw [Bool.and_eq_true] at hc
        simp [hs, hc]
      · rename_i hc
        simp only [Option.some.injEq, hne, false_and, hs, forall_eq', false_iff]
        exact fun h => hc (Bool.and_eq_true _ _ ▸ h)
  · rw [List.concat_eq_append] at hb
    have hmem : q ∈ scanBack s.packets p.seqNum := by
      rw [hb]; exact List.mem_append_right _ (List.mem_singleton.2 rfl)
    have hq := hback q hmem
    have hne := (ne_of_newer hq).symm
    have hlast : (placed s p off size shift).getLast? = some (q.shift shift) := by
      have hall : placed s p off size shift = (scanFront s.packets p.seqNum ++
          ⟨p, off, size⟩ :: back.map (Stored.shift shift)) ++ [q.shift shift] := by
        simp [placed, hb]
      rw [hall, List.getLast?_concat]
    -- a marker packet with the number of `q` is `q`
    have hmark : s.lastPacketSeqNum = some q.pkt.seqNum → q.pkt.markerBit = true := by
      intro hs
      obtain ⟨x, hx, hxq, hxm⟩ := hrec.last _ hs
      have hxe : x = q := by
        have hall : withPacket s p = (scanFront s.packets p.seqNum ++ ⟨p, 0, 0⟩ :: back) ++
            q :: [] := by
          simp [withPacket, hb]
        have hlen := withPacket_length s p
        have hfew := hrec.few
        simp only [kMaxPacketsInSession] at hfew
        have hs' := inSequence_split (hall ▸ hseq) (by rw [← hall]; omega)
        rw [← scan_split s.packets p.seqNum, hb] at hx
        have hin : x ∈ scanFront s.packets p.seqNum ++ ⟨p, 0, 0⟩ :: back ∨ x = q := by
          simp only [List.mem_append, List.mem_cons, List.not_mem_nil, or_false] at hx ⊢
          tauto
        refine hin.resolve_left fun hin => ?_
        exact ne_of_newer (hs'.1 x hin) hxq.symm
      exact hxe ▸ hxm
    have hlast' := hlast
    unfold placed at hlast'
    rw [hlast', hb, List.getLast?_append, List.getLast?_singleton, Option.some_or]
    simp only [Option.some.injEq, exists_eq_left', Info.trackWidening, Stored.shift]
    split
    · rename_i hs
      split <;> simp [hs, hne]
    · rename_i l hs
      split
      · rename_i hc
        rw [Bool.and_eq_true] at hc
        simp only [Option.some.injEq, hne, hs, false_and, false_iff]
        rintro rfl
        rw [newer_asymm hq] at hc
        cases hc.2
      · rw [hs]
        exact ⟨fun h => h.1, fun h => ⟨h, hmark (hs.trans h)⟩⟩

end Ends

/-! ## The call -/

/-- A packet that is not taken leaves the list and the flags. -/
theorem insertPacket_not_taken (h : ¬ Taken s p) (buf : Bytes) (mode : DecodeErrorMode)
    (d : FrameData) :
    p.frameType = .empty ∧ insertPacket s buf p mode d = (0, s.informOfEmptyPacket p.seqNum, buf) ∨
    (insertPacket s buf p mode d).1 < 0 ∧
      ((insertPacket s buf p mode d).2.1 = s ∨ p.frameType ≠ .empty ∧ (s.track p).1 = false ∧
        (insertPacket s buf p mode d).2.1 = (s.track p).2) := by
  unfold insertPacket
  split
  · rename_i hm
    exact Or.inl ⟨hm, rfl⟩
  rename_i hm
  refine Or.inr ?_
  split
  · exact ⟨show (-1 : Int) < 0 by decide, Or.inl rfl⟩
  rename_i hfull
  split
  · exact ⟨show (-2 : Int) < 0 by decide, Or.inl rfl⟩
  rename_i hdup
  dsimp only
  have ht : (s.track p).1 = false := Bool.eq_false_iff.2 fun ht =>
    h ⟨⟨hm, hfull, Bool.eq_false_iff.2 hdup⟩, track_accepts.1 ht⟩
  rw [if_neg (Bool.eq_false_iff.1 ht)]
  exact ⟨show (-3 : Int) < 0 by decide, Or.inr ⟨hm, ht, rfl⟩⟩

theorem insertPacket_taken (h : Taken s p) (buf : Bytes) (mode : DecodeErrorMode) (d : FrameData) :
    0 ≤ (insertPacket s buf p mode d).1 ∧ ∃ off size shift, (insertPacket s buf p mode d).2.1 =
      (Info.updateCompleteSession { (s.track p).2 with
        packets := placed s p off size shift }).updateDecodable mode d := by
  obtain ⟨⟨hm, hfull, hdup⟩, hb⟩ := h
  unfold insertPacket
  rw [if_neg hm, if_neg hfull, if_neg (Bool.eq_false_iff.1 hdup)]
  dsimp only
  rw [if_pos (track_accepts.2 hb)]
  obtain ⟨off, n, k, hps, -⟩ := insertBuffer_packets buf (scanFront s.packets p.seqNum) p
    (scanBack s.packets p.seqNum)
  rw [hps]
  exact ⟨Int.natCast_nonneg _, off, n, k, rfl⟩

/-- The frame goes back to `kStateDecodable` if the packet leaves a gap.
mirrors webrtc/modules/video_coding/main/source/session_info.cc:225-249, 543-547 -/
def lossTolerated (s : Info) (p : VCMPacket) (mode : DecodeErrorMode) (d : FrameData) : Bool :=
  let n : Float32 := Float32.ofNat (s.packets.length + 1)
  s.decodable || mode == .withErrors ||
    (mode == .selectiveErrors &&
      !(d.rttMs < 100 || (if widens p then p.frameType else s.frameType) == .key ||
        (decide (n ≤ 0.8 * d.rollingAveragePacketsPerFrame) &&
          decide (0.2 * d.rollingAveragePacketsPerFrame < n))))

/-- Type of a frame whose first packet is known. -/
theorem track_frameType {f : UInt16} (hf : s.firstPacketSeqNum = some f)
    (ht : s.frameType ≠ .empty) :
    (s.track p).2.frameType = if widens p then p.frameType else s.frameType := by
  unfold Info.track
  split
  · rename_i hc
    rw [if_pos (show widens p from hc)]
    rfl
  rename_i hc
  rw [if_neg (show ¬ widens p from hc)]
  split
  · rfl
  rename_i t hf'
  have h1 : t.frameType = s.frameType := by
    unfold Info.trackFirst at hf'
    rw [hf] at hf'
    dsimp only at hf'
    split at hf'
    · cases hf'
    · split at hf'
      · rename_i he
        exact absurd he.1 ht
      · cases hf'
        rfl
  split
  · exact h1
  · rename_i u hl
    unfold Info.trackLast at hl
    repeat' split at hl
    all_goals cases hl
    all_goals exact h1

theorem updateDecodable_of_gap {t : Info} (hc : t.complete = false) (hf : t.haveFirstPacket = true)
    (mode : DecodeErrorMode) (d : FrameData) :
    (t.updateDecodable mode d).decodable =
      (let n : Float32 := Float32.ofNat t.packets.length
       t.decodable || mode == .withErrors ||
        (mode == .selectiveErrors &&
          !(d.rttMs < 100 || t.frameType == .key ||
            (decide (n ≤ 0.8 * d.rollingAveragePacketsPerFrame) &&
              decide (0.2 * d.rollingAveragePacketsPerFrame < n))))) := by
  cases mode with
  | noErrors =>
    show t.decodable = (t.decodable || false || (false && _))
    rw [Bool.or_false, Bool.false_and, Bool.or_false]
  | withErrors =>
    show true = (t.decodable || true || (false && _))
    rw [Bool.or_true, Bool.true_or]
  | selectiveErrors =>
    simp only [Info.updateDecodable, Info.updateDecodableSession, hc, hf, Bool.not_true,
      Bool.or_false, Bool.false_or]
    cases hd : t.decodable with
    | true => simp [hd]
    | false =>
      rw [if_neg Bool.false_ne_true]
      show _ = (false || false || (true && _))
      rw [Bool.or_false, Bool.false_or, Bool.true_and]
      split
      · rename_i h
        rw [h, hd]
        rfl
      · rename_i h
        rw [Bool.eq_false_iff.2 h]
        rfl

/-- The session of a taken packet. -/
def taken (s : Info) (p : VCMPacket) (off size shift : Nat) (mode : DecodeErrorMode)
    (d : FrameData) : Info :=
  (Info.updateCompleteSession { (s.track p).2 with
    packets := placed s p off size shift }).updateDecodable mode d

section Taken

variable (off size shift : Nat) (mode : DecodeErrorMode) (d : FrameData) (hrec : Recorded s)
  (ht : Taken s p)

include ht

theorem taken_fields :
    (taken s p off size shift mode d).packets = placed s p off size shift ∧
      (taken s p off size shift mode d).firstPacketSeqNum =
        (s.trackWidening p).firstPacketSeqNum ∧
      (taken s p off size shift mode d).lastPacketSeqNum =
        (s.trackWidening p).lastPacketSeqNum := by
  obtain ⟨hf, hl⟩ := track_bounds (track_accepts.2 ht.2)
  obtain ⟨b, hb⟩ := updateDecodable_eq (Info.updateCompleteSession { (s.track p).2 with
    packets := placed s p off size shift }) mode d
  rw [taken, hb, updateCompleteSession_eq]
  exact ⟨rfl, hf, hl⟩

/-- The ends on record: those there were, or the new packet's flags. -/
def endsKnown (s : Info) (p : VCMPacket) : Bool :=
  (s.firstPacketSeqNum.isSome || p.isFirstPacket) && (s.lastPacketSeqNum.isSome || p.markerBit)

theorem complete_placed :
    (Info.updateCompleteSession { (s.track p).2 with
      packets := placed s p off size shift }).complete =
      if endsKnown s p then inSequence (withPacket s p) else s.complete := by
  obtain ⟨hf, hl⟩ := track_bounds (track_accepts.2 ht.2)
  have hne : (placed s p off size shift).isEmpty = false := by
    cases hps : placed s p off size shift with
    | nil => exact absurd (hps ▸ self_mem_placed (s := s) (p := p)) List.not_mem_nil
    | cons _ _ => rfl
  rw [updateCompleteSession_eq]
  simp only [Info.haveFirstPacket, Info.haveLastPacket, hne, Bool.not_false, Bool.true_and, hf, hl,
    widening_first_known, widening_last_known, inSequence_placed, (track_fields s p).2.2.2.1,
    endsKnown]
  rfl

theorem taken_complete :
    (taken s p off size shift mode d).complete =
      if endsKnown s p then inSequence (withPacket s p) else s.complete := by
  obtain ⟨b, hb⟩ := updateDecodable_eq (Info.updateCompleteSession { (s.track p).2 with
    packets := placed s p off size shift }) mode d
  rw [taken, hb, ← complete_placed off size shift ht]

include hrec

theorem taken_recorded : Recorded (taken s p off size shift mode d) := by
  obtain ⟨b, hb⟩ := updateDecodable_eq (Info.updateCompleteSession { (s.track p).2 with
    packets := placed s p off size shift }) mode d
  rw [taken, hb, updateCompleteSession_eq]
  exact hrec.taken ht.1.1 ht.1.2.1 (track_accepts.2 ht.2)

theorem taken_whole :
    Whole (taken s p off size shift mode d) ↔
      inSequence (withPacket s p) = true ∧ FirstInPlace s p ∧ LastInPlace s p := by
  obtain ⟨hp, hf, hl⟩ := taken_fields off size shift mode d ht
  constructor
  · rintro ⟨h1, h2, h3⟩
    rw [hp] at h1 h2 h3
    rw [hf] at h2
    rw [hl] at h3
    rw [inSequence_placed] at h1
    exact ⟨h1, (head_recorded_iff h1 hrec).1 h2, (last_recorded_iff h1 hrec).1 h3⟩
  · rintro ⟨h1, h2, h3⟩
    refine ⟨?_, ?_, ?_⟩
    · rw [hp, inSequence_placed]; exact h1
    · rw [hp, hf]; exact (head_recorded_iff h1 hrec).2 h2
    · rw [hp, hl]; exact (last_recorded_iff h1 hrec).2 h3

omit ht hrec in
theorem Whole.endsKnown (h : Whole s) : endsKnown s p = true := by
  obtain ⟨-, ⟨q, -, hf⟩, r, -, hl, -⟩ := h
  simp [Session.endsKnown, hf, hl]

/-- A packet that leaves a gap in a frame whose ends are known. -/
theorem taken_decodable {f : UInt16} (hf : s.firstPacketSeqNum = some f)
    (hk : endsKnown s p = true) (hgap : inSequence (withPacket s p) = false) :
    (taken s p off size shift mode d).decodable = lossTolerated s p mode d := by
  have hc := complete_placed off size shift ht
  rw [if_pos hk, hgap] at hc
  have hfirst := (track_bounds (track_accepts.2 ht.2)).1
  have hknown := widening_first_known (s := s) (p := p)
  rw [taken, updateDecodable_of_gap hc]
  · rw [updateCompleteSession_eq]
    simp only [placed_length, track_frameType hf hrec.typed, (track_fields s p).2.2.2.2]
    rfl
  · rw [updateCompleteSession_eq]
    have hne : (placed s p off size shift).isEmpty = false := by
      cases hps : placed s p off size shift with
      | nil => exact absurd (hps ▸ self_mem_placed (s := s) (p := p)) List.not_mem_nil
      | cons _ _ => rfl
    simp only [Info.haveFirstPacket, hne, hfirst, hknown, hf]
    rfl

end Taken

end Session

/-! ## Frames -/

namespace FrameBuffer

open Session

/-- What `kStateComplete` promises. -/
def Sound (f : FrameBuffer) : Prop := f.state = .complete → Whole f.session

/-- The step of a run keeps the promise: a packet that goes into a complete
frame becomes its new end, unless the gap it leaves is tolerated; one that
fills the last gap of a frame with both ends known finds them in place. -/
def Faithful (f : FrameBuffer) (a : Arrival) : Prop :=
  (f.openWith a.1).grow a.1 ≠ none → Taken f.session a.1 →
    if f.state = .complete then
      if inSequence (withPacket f.session a.1) then
        FirstInPlace f.session a.1 ∧ LastInPlace f.session a.1
      else lossTolerated f.session a.1 a.2.1 a.2.2 = true
    else
      (f.session.firstPacketSeqNum.isSome || a.1.isFirstPacket) = true →
      (f.session.lastPacketSeqNum.isSome || a.1.markerBit) = true →
      inSequence (withPacket f.session a.1) = true →
      FirstInPlace f.session a.1 ∧ LastInPlace f.session a.1

structure Consistent (f : FrameBuffer) : Prop where
  recorded : Recorded f.session
  state : f.session.complete = true → f.state = .complete

theorem consistent_reset (f : FrameBuffer) : f.reset.Consistent :=
  ⟨recorded_empty, fun h => (nomatch h)⟩

theorem openWith_state (f : FrameBuffer) (p : VCMPacket) :
    (f.openWith p).session = f.session ∧
      ((f.openWith p).state = .complete ↔ f.state = .complete) := by
  unfold openWith
  split
  · rename_i h
    refine ⟨rfl, ?_⟩
    rw [h]
    dsimp only
    split <;> simp
  · exact ⟨rfl, Iff.rfl⟩

/-- A packet that is not taken. -/
theorem insertPacket_skipped {f : FrameBuffer} (h : f.Consistent) {a : Arrival}
    (hn : ¬ ((f.openWith a.1).grow a.1 ≠ none ∧ Taken f.session a.1)) :
    (f.insertPacket a.1 a.2.1 a.2.2).2.Consistent ∧
      (f.Sound → (f.insertPacket a.1 a.2.1 a.2.2).2.Sound) := by
  obtain ⟨p, mode, d⟩ := a
  dsimp only at hn ⊢
  obtain ⟨hs, hst⟩ := f.openWith_state p
  unfold insertPacket
  split
  · refine ⟨⟨hs ▸ h.recorded, fun hc => hst.2 (h.state (hs ▸ hc))⟩, fun hsd hc => ?_⟩
    rw [hs]
    exact hsd (hst.1 hc)
  rename_i g hg
  have hroom : (f.openWith p).grow p ≠ none := by rw [hg]; exact Option.some_ne_none _
  obtain ⟨buffer, size, rfl⟩ := grow_eq hg
  dsimp only
  rw [hs]
  rcases insertPacket_not_taken (fun ht => hn ⟨hroom, ht⟩) buffer mode d with ⟨hm, he⟩ | ⟨hneg, ht⟩
  · rw [he]
    dsimp only
    rw [if_neg (by decide), if_neg (by decide), if_neg (by decide)]
    have hrec : Recorded (f.session.informOfEmptyPacket p.seqNum) :=
      ⟨h.recorded.first, h.recorded.last, h.recorded.typed, h.recorded.few⟩
    have hwhole : Whole f.session → Whole (f.session.informOfEmptyPacket p.seqNum) :=
      fun hw => ⟨hw.sequence, hw.first, hw.last⟩
    split
    · rename_i hc
      exact ⟨⟨hrec, fun _ => rfl⟩, fun hsd _ => hwhole (hsd (h.state hc))⟩
    rename_i hc
    split
    · exact ⟨⟨hrec, fun hc' => absurd hc' hc⟩, fun _ hc' => (nomatch hc')⟩
    · exact ⟨⟨hrec, fun hc' => absurd hc' hc⟩, fun hsd hc' => hwhole (hsd (hst.1 hc'))⟩
  · -- the three negative returns leave the state alone
    have hrec : Recorded (Session.insertPacket f.session buffer p mode d).2.1 := by
      rcases ht with ht | ⟨hm, hr, ht⟩
      · rw [ht]; exact h.recorded
      · rw [ht]; exact h.recorded.refused hm hr
    have hcomp : (Session.insertPacket f.session buffer p mode d).2.1.complete =
        f.session.complete := by
      rcases ht with ht | ⟨-, -, ht⟩
      · rw [ht]
      · rw [ht]; exact (track_fields f.session p).2.2.2.1
    have hwhole : Whole f.session →
        Whole (Session.insertPacket f.session buffer p mode d).2.1 := by
      intro hw
      rcases ht with ht | ⟨hm, hr, ht⟩
      · rw [ht]; exact hw
      · rw [ht]
        -- the first packet is on record, so there is nothing to write
        obtain ⟨q, -, hq⟩ := hw.first
        by_cases hb : firstBookkeeping f.session p
        · unfold firstBookkeeping at hb
          rw [hq] at hb
          exact absurd hb.2 h.recorded.typed
        · rw [(track_refused hm hr).2 fun hall => hb hall.2.2]
          exact hw
    have hcode := insertPacket_code f.session buffer p mode d
    split
    · exact ⟨⟨hrec, fun hc => hst.2 (h.state (hcomp ▸ hc))⟩, fun hsd hc => hwhole (hsd (hst.1 hc))⟩
    split
    · exact ⟨⟨hrec, fun hc => hst.2 (h.state (hcomp ▸ hc))⟩, fun hsd hc => hwhole (hsd (hst.1 hc))⟩
    split
    · exact ⟨⟨hrec, fun hc => hst.2 (h.state (hcomp ▸ hc))⟩, fun hsd hc => hwhole (hsd (hst.1 hc))⟩
    · omega

/-- A packet that is taken. -/
theorem insertPacket_takes {f : FrameBuffer} (h : f.Consistent) {a : Arrival}
    (hroom : (f.openWith a.1).grow a.1 ≠ none) (ht : Taken f.session a.1) :
    (f.insertPacket a.1 a.2.1 a.2.2).2.Consistent ∧
      (f.Sound → ((f.insertPacket a.1 a.2.1 a.2.2).2.Sound ↔ f.Faithful a)) := by
  obtain ⟨p, mode, d⟩ := a
  dsimp only at hroom ht ⊢
  obtain ⟨hs, hst⟩ := f.openWith_state p
  have hfaith : f.Faithful (p, mode, d) ↔ if f.state = .complete then
      if inSequence (withPacket f.session p) then
        FirstInPlace f.session p ∧ LastInPlace f.session p
      else lossTolerated f.session p mode d = true
    else
      endsKnown f.session p = true → inSequence (withPacket f.session p) = true →
      FirstInPlace f.session p ∧ LastInPlace f.session p := by
    simp only [Faithful, hroom, ht, ne_eq, not_false_eq_true, forall_const, endsKnown,
      Bool.and_eq_true, and_imp]
  rw [hfaith]
  unfold insertPacket
  split
  · rename_i hg
    exact absurd hg hroom
  rename_i g hg
  obtain ⟨buffer, size, rfl⟩ := grow_eq hg
  dsimp only
  rw [hs]
  obtain ⟨hpos, off, n, shift, hinfo⟩ := insertPacket_taken ht buffer mode d
  rw [if_neg (by omega), if_neg (by omega), if_neg (by omega)]
  have hinfo : (Session.insertPacket f.session buffer p mode d).2.1 =
    taken f.session p off n shift mode d := hinfo
  rw [hinfo]
  have hrec := taken_recorded off n shift mode d h.recorded ht
  have hwhole := taken_whole off n shift mode d h.recorded ht
  have hcomp := taken_complete off n shift mode d ht
  by_cases hstate : f.state = .complete
  · rw [if_pos hstate]
    by_cases hc : (taken f.session p off n shift mode d).complete = true
    · rw [if_pos hc]
      refine ⟨⟨hrec, fun _ => rfl⟩, fun hsd => ?_⟩
      have hq : inSequence (withPacket f.session p) = true := by
        rw [← hc, hcomp, if_pos (hsd hstate).endsKnown]
      rw [if_pos hq]
      exact ⟨fun hg => (hwhole.1 (hg rfl)).2, fun hends _ => hwhole.2 ⟨hq, hends⟩⟩
    · rw [if_neg hc]
      have hgap : f.Sound → inSequence (withPacket f.session p) = false := fun hsd => by
        rw [hcomp, if_pos (hsd hstate).endsKnown] at hc
        exact Bool.eq_false_iff.2 hc
      have hdec : f.Sound → (taken f.session p off n shift mode d).decodable =
          lossTolerated f.session p mode d := fun hsd => by
        obtain ⟨q, -, hf⟩ := (hsd hstate).first
        exact taken_decodable off n shift mode d h.recorded ht hf (hsd hstate).endsKnown (hgap hsd)
      split
      · rename_i hd
        refine ⟨⟨hrec, fun hc' => absurd hc' hc⟩, fun hsd => ?_⟩
        rw [hdec hsd] at hd
        rw [if_neg (Bool.eq_false_iff.1 (hgap hsd))]
        exact iff_of_true (fun hg => (nomatch hg)) hd
      · rename_i hd
        refine ⟨⟨hrec, fun hc' => absurd hc' hc⟩, fun hsd => ?_⟩
        rw [hdec hsd] at hd
        rw [if_neg (Bool.eq_false_iff.1 (hgap hsd))]
        refine iff_of_false (fun hg => ?_) hd
        have := (hwhole.1 (hg (hst.2 hstate))).1
        rw [hgap hsd] at this
        cases this
  · rw [if_neg hstate]
    have hsc : f.session.complete = false :=
      Bool.eq_false_iff.2 fun hc => hstate (h.state hc)
    rw [hsc] at hcomp
    by_cases hc : (taken f.session p off n shift mode d).complete = true
    · rw [if_pos hc]
      refine ⟨⟨hrec, fun _ => rfl⟩, fun _ => ?_⟩
      -- the packet fills the last gap
      rw [hcomp] at hc
      split at hc
      · rename_i hk
        exact ⟨fun hg _ _ => (hwhole.1 (hg rfl)).2, fun hends _ => hwhole.2 ⟨hc, hends hk hc⟩⟩
      · cases hc
    · rw [if_neg hc]
      have hvac : endsKnown f.session p = true → inSequence (withPacket f.session p) = true →
          FirstInPlace f.session p ∧ LastInPlace f.session p := by
        intro hk hq
        rw [hcomp, if_pos hk] at hc
        exact absurd hq hc
      split
      · exact ⟨⟨hrec, fun hc' => absurd hc' hc⟩, fun _ => iff_of_true (fun hg => (nomatch hg)) hvac⟩
      · exact ⟨⟨hrec, fun hc' => absurd hc' hc⟩, fun _ =>
          iff_of_true (fun hg => absurd (hst.1 hg) hstate) hvac⟩

/-! ## Runs -/

/-- The frame after each call. -/
def states (f : FrameBuffer) : List Arrival → List FrameBuffer
  | [] => [f]
  | a :: as => f :: states (f.insertPacket a.1 a.2.1 a.2.2).2 as

def FaithfulRun (f : FrameBuffer) : List Arrival → Prop
  | [] => True
  | a :: as => f.Faithful a ∧ FaithfulRun (f.insertPacket a.1 a.2.1 a.2.2).2 as

theorem insertPacket_sound {f : FrameBuffer} (h : f.Consistent) (a : Arrival) :
    (f.insertPacket a.1 a.2.1 a.2.2).2.Consistent ∧
      (f.Sound → ((f.insertPacket a.1 a.2.1 a.2.2).2.Sound ↔ f.Faithful a)) := by
  by_cases hroom : (f.openWith a.1).grow a.1 ≠ none
  · by_cases ht : Taken f.session a.1
    · exact insertPacket_takes h hroom ht
    · obtain ⟨hc, hsd⟩ := insertPacket_skipped h fun hn => ht hn.2
      exact ⟨hc, fun hs => iff_of_true (hsd hs) fun _ htk => absurd htk ht⟩
  · obtain ⟨hc, hsd⟩ := insertPacket_skipped h fun hn => hroom hn.1
    exact ⟨hc, fun hs => iff_of_true (hsd hs) fun hr _ => absurd hr hroom⟩

theorem states_sound {as : List Arrival} : ∀ {f : FrameBuffer}, f.Consistent → f.Sound →
    ((∀ g ∈ states f as, g.Sound) ↔ FaithfulRun f as) := by
  induction as with
  | nil =>
    intro f _ hs
    simp only [states, List.mem_singleton, forall_eq, hs, FaithfulRun]
  | cons a as ih =>
    intro f hc hs
    obtain ⟨hc', hstep⟩ := insertPacket_sound hc a
    simp only [states, List.forall_mem_cons, FaithfulRun, hs, true_and]
    constructor
    · intro hall
      have hs' : (f.insertPacket a.1 a.2.1 a.2.2).2.Sound := by
        refine hall _ ?_
        cases as <;> exact List.mem_cons_self ..
      exact ⟨(hstep hs).1 hs', (ih hc' hs').1 hall⟩
    · rintro ⟨hf, hrun⟩
      exact (ih hc' ((hstep hs).2 hf)).2 hrun

/-- **`kStateComplete` means complete exactly in faithful runs.** Whatever is
inserted after `Reset`, every state of the run keeps the promise of
`kStateComplete` if and only if every packet is faithful when it comes. -/
theorem state_sound_iff (f : FrameBuffer) (as : List Arrival) :
    (∀ g ∈ states f.reset as, g.Sound) ↔ FaithfulRun f.reset as :=
  states_sound f.consistent_reset fun h => (nomatch h)

/-- A single NAL unit as received. -/
def naluPacket (seq : UInt16) (marker : Bool) : VCMPacket :=
  .ofParsed (L1.H264.parse [0x41, 1]) 9 seq marker

/-- Three slices are numbered 11 to 13. The last one alone makes the frame
complete; the first one then leaves a gap in a frame that stays in
`kStateComplete`. -/
theorem first_nalu_after_complete :
    let f := (({ id := 0 } : FrameBuffer).reset.insertPacket (naluPacket 13 true) .noErrors ⟨0, 0⟩).2
    let g := (f.insertPacket (naluPacket 11 false) .noErrors ⟨0, 0⟩).2
    f.state = .complete ∧ g.state = .complete ∧ seqNums g.session = [11, 13] ∧ ¬ g.Sound := by
  intro f g
  have hstate : g.state = .complete := by decide
  have hgap : inSequence g.session.packets = false := by decide
  refine ⟨by decide, hstate, by decide, fun h => ?_⟩
  rw [(h hstate).sequence] at hgap
  cases hgap

end FrameBuffer

end RtcCore.L3
