import RtcCore.Core.Peeling
import RtcCore.L2Receive.FecPeeling

/-!
# FEC recovery does not depend on the order

What the decoder knows when all packets were delivered is what can be recovered
from them at all (`Recovers`), in whatever order and in however many calls they
came. This takes packets for which the decoder throws nothing away (`Fits`): the
lists do not overflow, and no FEC packet is so far from another packet that it
counts as an old one.

Results:
- `deliver_known`: what is known after all calls.
- `fec_recovery`: the loop of recovery, the list over whole runs, and the order.
-/
namespace RtcCore.L2.FecDecoder

open Serial Peeling L1.ForwardErrorCorrection

variable {b : Search UInt16}

/-- What can be recovered from the packets. -/
def Recovers (packets : List ReceivedPacket) (x : UInt16) : Prop :=
  Recoverable (fun x => ∃ rx ∈ packets, rx.isFec = false ∧ rx.seqNum = x)
    (fun rx : ReceivedPacket => rx ∈ packets ∧ rx.isFec = true)
    (fun rx x => x ∈ protectedSeqs rx.pkt) x

/-- Packets of which the decoder throws nothing away. -/
structure Fits (packets : List ReceivedPacket) : Prop where
  half : ∃ base, ∀ rx ∈ packets, ∀ x ∈ mentions rx, Half base x
  near : ∀ rx ∈ packets, ∀ fec ∈ packets, fec.isFec = true →
    seqNumDiff rx.seqNum fec.seqNum ≤ 0x3fff
  same : ∀ fec ∈ packets, ∀ fec' ∈ packets, fec.isFec = true → fec'.isFec = true →
    fec.seqNum = fec'.seqNum → protectedSeqs fec.pkt = protectedSeqs fec'.pkt
  recovered : ∀ l : List UInt16, l.Nodup → (∀ x ∈ l, Recovers packets x) →
    l.length < kMaxMediaPackets
  fecs : ∀ l : List UInt16, l.Nodup → (∀ x ∈ l, ∃ rx ∈ packets, rx.isFec = true ∧ rx.seqNum = x) →
    l.length ≤ kMaxFecPackets

/-- What is known when `delivered` came, out of `packets`. -/
structure Known (packets delivered : List ReceivedPacket) (fecs : List FecPacket)
    (recovered : List RecoveredPacket) : Prop where
  media : ∀ rx ∈ delivered, rx.isFec = false → rx.seqNum ∈ recoveredSeqs recovered
  recovers : ∀ x ∈ recoveredSeqs recovered, Recovers packets x
  checks : ∀ rx ∈ delivered, rx.isFec = true →
    (∃ f ∈ fecs, f.seqs = protectedSeqs rx.pkt) ∨
      ∀ x ∈ protectedSeqs rx.pkt, x ∈ recoveredSeqs recovered
  origin : ∀ f ∈ fecs, ∃ rx ∈ packets, rx.isFec = true ∧ rx.seqNum = f.seqNum ∧
    protectedSeqs rx.pkt = f.seqs
  distinct : (fecs.map (·.seqNum)).Nodup
  pointers : ∀ f ∈ fecs, ∀ x ∈ f.seqs, x ∉ f.missing → x ∈ recoveredSeqs recovered

section Known

variable {packets delivered : List ReceivedPacket} {fecs fecs' : List FecPacket}
  {recovered : List RecoveredPacket} {base : UInt16}

theorem Known.length_lt (h : Known packets delivered fecs recovered) (hfits : Fits packets)
    (hheld : Held base fecs recovered) : recovered.length < kMaxMediaPackets := by
  have := hfits.recovered _ hheld.nodup h.recovers
  rwa [recoveredSeqs, List.length_map] at this

theorem Known.fecs_length (h : Known packets delivered fecs recovered) (hfits : Fits packets) :
    fecs.length ≤ kMaxFecPackets := by
  have := hfits.fecs _ h.distinct fun x hx => by
    obtain ⟨f, hf, rfl⟩ := List.mem_map.1 hx
    obtain ⟨rx, hrx, hfec, hseq, -⟩ := h.origin f hf
    exact ⟨rx, hrx, hfec, hseq⟩
  rwa [List.length_map] at this

/-- A packet is known in addition, and the pointers to it are set. -/
theorem Known.insert (h : Known packets delivered fecs recovered) {p : RecoveredPacket}
    (hp : Recovers packets p.seqNum) :
    Known packets delivered (fecs.map (updateCovering b p)) (insertRecovered recovered p)
    where
  media rx hrx hm := mem_insertRecovered.2 (.inl (h.media rx hrx hm))
  recovers x hx := by
    obtain hx | rfl := mem_insertRecovered.1 hx
    · exact h.recovers x hx
    · exact hp
  checks rx hrx hfec := by
    obtain ⟨f, hf, hseqs⟩ | hall := h.checks rx hrx hfec
    · exact .inl ⟨_, List.mem_map_of_mem hf, (updateCovering_seqs p f).trans hseqs⟩
    · exact .inr fun x hx => mem_insertRecovered.2 (.inl (hall x hx))
  origin f hf := by
    obtain ⟨g, hg, rfl⟩ := List.mem_map.1 hf
    rw [updateCovering_seqNum, updateCovering_seqs]
    exact h.origin g hg
  distinct := by
    have := h.distinct
    simpa [Function.comp_def] using this
  pointers f hf x hx hm := by
    obtain ⟨g, hg, rfl⟩ := List.mem_map.1 hf
    rw [updateCovering_seqs] at hx
    rw [updateCovering_missing, List.mem_filter, bne_iff_ne, not_and, not_not] at hm
    by_cases hxm : x ∈ g.missing
    · exact mem_insertRecovered.2 (.inr (hm hxm))
    · exact mem_insertRecovered.2 (.inl (h.pointers g hg x hx hxm))

/-- A FEC packet all of whose packets are known may go. -/
theorem Known.drop {front back : List FecPacket} {f : FecPacket}
    (h : Known packets delivered (front ++ f :: back) recovered)
    (hall : ∀ x ∈ f.seqs, x ∈ recoveredSeqs recovered) :
    Known packets delivered (front ++ back) recovered := by
  have hsub : (front ++ back).Sublist (front ++ f :: back) :=
    (List.sublist_cons_self f back).append_left front
  refine ⟨h.media, h.recovers, fun rx hrx hfec => ?_, fun g hg => h.origin g (hsub.subset hg),
    h.distinct.sublist (hsub.map _), fun g hg => h.pointers g (hsub.subset hg)⟩
  obtain ⟨g, hg, hseqs⟩ | hknown := h.checks rx hrx hfec
  · obtain hg | hg := List.mem_append.1 hg
    · exact .inl ⟨g, List.mem_append_left _ hg, hseqs⟩
    · obtain rfl | hg := List.mem_cons.1 hg
      · exact .inr fun x hx => hall x (hseqs ▸ hx)
      · exact .inl ⟨g, List.mem_append_right _ hg, hseqs⟩
  · exact .inr hknown

/-- The list of the FEC packets may be sorted. -/
theorem Known.perm (h : Known packets delivered fecs recovered) (hp : fecs'.Perm fecs) :
    Known packets delivered fecs' recovered where
  media := h.media
  recovers := h.recovers
  checks rx hrx hfec := (h.checks rx hrx hfec).imp_left fun ⟨f, hf, hseqs⟩ =>
    ⟨f, hp.mem_iff.2 hf, hseqs⟩
  origin f hf := h.origin f (hp.mem_iff.1 hf)
  distinct := (hp.map _).nodup_iff.2 h.distinct
  pointers f hf := h.pointers f (hp.mem_iff.1 hf)

theorem Known.deliver (h : Known packets delivered fecs recovered) {rx : ReceivedPacket}
    (hm : rx.isFec = false → rx.seqNum ∈ recoveredSeqs recovered)
    (hf : rx.isFec = true → (∃ f ∈ fecs, f.seqs = protectedSeqs rx.pkt) ∨
      ∀ x ∈ protectedSeqs rx.pkt, x ∈ recoveredSeqs recovered) :
    Known packets (delivered ++ [rx]) fecs recovered := by
  refine ⟨fun r hr => ?_, h.recovers, fun r hr => ?_, h.origin, h.distinct, h.pointers⟩ <;>
    obtain hr | hr := List.mem_append.1 hr
  · exact h.media r hr
  · exact List.mem_singleton.1 hr ▸ hm
  · exact h.checks r hr
  · exact List.mem_singleton.1 hr ▸ hf

/-! ## A packet comes in -/

variable {d : Decoder} {rx : ReceivedPacket}

def Decoder.Known (packets delivered : List ReceivedPacket) (d : Decoder) : Prop :=
  FecDecoder.Known packets delivered d.fecPacketList d.recoveredPacketList

theorem insertMediaPacket_known (h : d.Known packets delivered) (hrx : rx ∈ packets)
    (hm : rx.isFec = false) :
    (insertMediaPacket b d rx).Known packets (delivered ++ [rx]) := by
  have hfec : ¬ rx.isFec = true := by simp [hm]
  rw [insertMediaPacket]
  split
  · rename_i hany
    obtain ⟨p, hp, hseq⟩ := List.any_eq_true.1 hany
    refine Known.deliver h (fun _ => ?_) fun hf => absurd hf hfec
    exact eq_of_beq hseq ▸ List.mem_map_of_mem hp
  · have hinsert := Known.insert (b := b) h
      (p := ⟨rx.seqNum, false, true, [], rx.pkt⟩) (.given ⟨rx, hrx, hm, rfl⟩)
    exact hinsert.deliver (fun _ => mem_insertRecovered.2 (.inr rfl)) fun hf => absurd hf hfec

theorem insertFecPacket_known (hfits : Fits packets) (hheld : d.Held base)
    (h : d.Known packets delivered) (hrx : rx ∈ packets) (hfec : rx.isFec = true)
    (hx : ∀ x ∈ protectedSeqs rx.pkt, Half base x) :
    ∃ d', insertFecPacket d rx = some d' ∧ d'.Known packets (delivered ++ [rx]) := by
  have hm : ¬ rx.isFec = false := by simp [hfec]
  rw [insertFecPacket]
  split
  · -- the packet was there already
    rename_i hany
    obtain ⟨f, hf, hseq⟩ := List.any_eq_true.1 hany
    obtain ⟨rx', hrx', hfec', hseq', hseqs⟩ := FecDecoder.Known.origin h f hf
    have hsame := hfits.same rx hrx rx' hrx' hfec hfec' ((eq_of_beq hseq).symm.trans hseq'.symm)
    exact ⟨d, rfl, Known.deliver h (fun h => absurd h hm) fun _ =>
      .inl ⟨f, hf, hseqs.symm.trans hsame.symm⟩⟩
  · rename_i hany
    split
    · rename_i hnil
      refine ⟨d, rfl, Known.deliver h (fun h => absurd h hm) fun _ => .inr fun x hx => ?_⟩
      rw [hnil] at hx
      cases hx
    · obtain ⟨f, hassign, hseq, hseqs, hmissing⟩ := assignRecoveredPackets_spec hheld.sorted
        (fun p hp => FecDecoder.Held.inside hheld _ (List.mem_map_of_mem hp)) hx
      rw [hassign]
      have hall : FecDecoder.Known packets (delivered ++ [rx]) (d.fecPacketList ++ [f])
          d.recoveredPacketList := by
        refine Known.deliver ⟨FecDecoder.Known.media h, FecDecoder.Known.recovers h, ?_, ?_, ?_, ?_⟩
          (fun h => absurd h hm) fun _ => .inl ⟨f, by simp, hseqs⟩
        · intro r hr hf
          refine (FecDecoder.Known.checks h r hr hf).imp_left fun hold => ?_
          obtain ⟨g, hg, hgs⟩ := hold
          exact ⟨g, List.mem_append_left _ hg, hgs⟩
        · intro g hg
          obtain hg | hg := List.mem_append.1 hg
          · exact FecDecoder.Known.origin h g hg
          · rw [List.mem_singleton.1 hg]
            exact ⟨rx, hrx, hfec, hseq.symm, hseqs.symm⟩
        · rw [List.map_append, List.nodup_append]
          refine ⟨FecDecoder.Known.distinct h, List.nodup_singleton _, ?_⟩
          rintro x hx y hy rfl
          obtain ⟨g, hg, hgs⟩ := List.mem_map.1 hx
          have hy : x = f.seqNum := List.mem_singleton.1 hy
          exact hany (List.any_eq_true.2 ⟨g, hg, beq_iff_eq.2 (hgs.trans (hy.trans hseq))⟩)
        · intro g hg x hxs hxm
          obtain hg | hg := List.mem_append.1 hg
          · exact FecDecoder.Known.pointers h g hg x hxs hxm
          · rw [List.mem_singleton.1 hg] at hxs hxm
            rw [hmissing, List.mem_filter, not_and, decide_eq_true_eq, not_not] at hxm
            exact hxm (hseqs ▸ hxs)
      have hsorted := hall.perm (sortBy_perm lessThan (FecPacket.seqNum ·) _)
      have hlen := hsorted.fecs_length hfits
      refine ⟨_, rfl, ?_⟩
      dsimp only [Decoder.Known]
      rw [if_neg (by omega)]
      exact hsorted

theorem discardOldestFec_eq (hfits : Fits packets) (h : d.Known packets delivered)
    (hrx : rx ∈ packets) : discardOldestFec d.fecPacketList rx = d.fecPacketList := by
  unfold discardOldestFec
  split
  · rename_i heq
    rw [heq]
  · rename_i front rest heq
    have hmem : front ∈ d.fecPacketList := heq ▸ List.mem_cons_self ..
    obtain ⟨fec, hfec, his, hseq, -⟩ := FecDecoder.Known.origin h front hmem
    have hnear := hfits.near rx hrx fec hfec his
    rw [if_neg (by rw [← hseq]; omega), heq]

theorem insertPacket_known (hfits : Fits packets) (hheld : d.Held base)
    (h : d.Known packets delivered) (hrx : rx ∈ packets) (hx : ∀ x ∈ mentions rx, Half base x) :
    ∃ d', insertPacket b d rx = some d' ∧ d'.Held base ∧
      d'.Known packets (delivered ++ [rx]) := by
  obtain ⟨d', hinsert, hheld'⟩ := insertPacket_held (b := b) hheld hx
  refine ⟨d', hinsert, hheld', ?_⟩
  rw [insertPacket, discardOldestFec_eq hfits h hrx] at hinsert
  cases hfec : rx.isFec with
  | true =>
    rw [mentions, if_pos hfec] at hx
    obtain ⟨d₁, h1, hknown⟩ := insertFecPacket_known hfits hheld h hrx hfec hx
    rw [if_pos hfec] at hinsert
    cases h1.symm.trans hinsert
    exact hknown
  | false =>
    rw [if_neg (by simp [hfec])] at hinsert
    cases hinsert
    exact insertMediaPacket_known h hrx hfec

theorem insertPackets_known {received : List ReceivedPacket} (hfits : Fits packets)
    (hheld : d.Held base) (h : d.Known packets delivered) (hsub : received ⊆ packets)
    (hx : ∀ rx ∈ packets, ∀ x ∈ mentions rx, Half base x) :
    ∃ d', insertPackets b d received = some d' ∧ d'.Held base ∧
      d'.Known packets (delivered ++ received) := by
  have hfold : ∃ d', received.foldlM (insertPacket b) d = some d' ∧ d'.Held base ∧
      d'.Known packets (delivered ++ received) := by
    induction received generalizing d delivered with
    | nil => exact ⟨d, rfl, hheld, (List.append_nil delivered).symm ▸ h⟩
    | cons rx received ih =>
      have hrx := hsub (List.mem_cons_self ..)
      obtain ⟨d₁, h1, hheld₁, hknown₁⟩ := insertPacket_known (b := b) hfits hheld h
        hrx (hx rx hrx)
      obtain ⟨d', h2, hheld', hknown⟩ := ih hheld₁ hknown₁ fun r hr =>
        hsub (List.mem_cons_of_mem _ hr)
      rw [List.append_assoc] at hknown
      exact ⟨d', by rw [List.foldlM_cons, h1]; exact h2, hheld', hknown⟩
  obtain ⟨d', hfold, hheld', hknown⟩ := hfold
  have hlen := FecDecoder.Known.length_lt hknown hfits hheld'
  refine ⟨d', ?_, hheld', hknown⟩
  rw [insertPackets, hfold]
  dsimp only [Option.bind_eq_bind, Option.bind_some]
  rw [discardOldPackets_eq (Nat.le_of_lt hlen)]

/-! ## A packet is recovered -/

theorem body_known {s : Recovery} (hfits : Fits packets) (hc : s.cond = true)
    (hheld : Held base s.fecs s.recovered) (h : Known packets delivered s.fecs s.recovered) :
    Known packets delivered (s.body b).fecs (s.body b).recovered := by
  obtain ⟨fec, rest, hrest, hcases⟩ := Recovery.body_cases (b := b) hc
  have hfecs : s.fecs = s.passed ++ fec :: rest := by rw [Recovery.fecs, hrest]
  have hmem : fec ∈ s.fecs := hfecs ▸ List.mem_append_right _ (List.mem_cons_self ..)
  have hbut : ∀ x ∈ fec.seqs, x ∉ fec.missing → x ∈ recoveredSeqs s.recovered :=
    h.pointers fec hmem
  obtain ⟨x, hm, -, hseq, heq⟩ | ⟨hm, -, heq⟩ | ⟨-, -, heq⟩ := hcases <;> rw [heq, Recovery.fecs]
  · have hx : x ∈ fec.missing := by rw [hm]; exact List.mem_cons_self ..
    have hothers : ∀ y ∈ fec.seqs, y ≠ x → y ∈ recoveredSeqs s.recovered := fun y hy hne =>
      hbut y hy (by rwa [hm, List.mem_singleton])
    have hrecovers : Recovers packets (recoverPacket fec).seqNum := by
      obtain ⟨rx, hrx, hfec, -, hseqs⟩ := h.origin fec hmem
      rw [hseq]
      exact .recover (c := rx) ⟨hrx, hfec⟩ (hseqs ▸ mem_missing hx) fun y hy hne =>
        h.recovers y (hothers y (hseqs ▸ hy) hne)
    have hinsert := h.insert (b := b) hrecovers
    have hheld' := hheld.insert (b := b)
      (hseq ▸ hheld.covers fec hmem x (mem_missing hx)) (hseq ▸ hheld.missing fec hmem x hx)
    have hlen := hinsert.length_lt hfits hheld'
    rw [discardOldPackets_eq (Nat.le_of_lt hlen), List.nil_append, List.map_append]
    rw [hfecs, List.map_append, List.map_cons] at hinsert
    refine hinsert.drop fun y hy => ?_
    rw [updateCovering_seqs] at hy
    by_cases hyx : y = x
    · exact mem_insertRecovered.2 (.inr (hyx.trans hseq.symm))
    · exact mem_insertRecovered.2 (.inl (hothers y hy hyx))
  · rw [hfecs] at h
    exact h.drop fun x hx => hbut x hx (by rw [hm]; exact List.not_mem_nil)
  · rw [hfecs] at h
    rw [List.append_assoc]
    exact h

theorem attemptRecover_known (hfits : Fits packets) (hheld : d.Held base)
    (h : d.Known packets delivered) :
    (attemptRecover b d).Known packets delivered := by
  have hkeeps := (attemptRecover_ends (b := b) d).keeps
    (P := fun s => FecDecoder.Held base s.fecs s.recovered ∧
      FecDecoder.Known packets delivered s.fecs s.recovered)
    fun _ hc hs => ⟨body_held hc hs.1, body_known hfits hc hs.1 hs.2⟩
  exact (hkeeps ⟨hheld, h⟩).2

/-! ## All calls -/

/-- Each FEC packet has two packets missing. -/
def Decoder.Stuck (d : Decoder) : Prop := ∀ f ∈ d.fecPacketList, 2 ≤ f.missing.length

theorem decodeFec_known {received : List ReceivedPacket} (hfits : Fits packets)
    (hheld : d.Held base) (h : d.Known packets delivered) (hsub : received ⊆ packets)
    (hx : ∀ rx ∈ packets, ∀ x ∈ mentions rx, Half base x) :
    ∃ d', decodeFec b d received = some d' ∧ d'.Held base ∧
      d'.Known packets (delivered ++ received) ∧ d'.Stuck := by
  have hlen := FecDecoder.Known.length_lt h hfits hheld
  have hreset : resetOnGap d received = some d := by
    rw [resetOnGap, if_neg (by omega)]
  obtain ⟨d₁, h1, hheld₁, hknown⟩ := insertPackets_known (b := b) hfits hheld h
    hsub hx
  refine ⟨attemptRecover b d₁, ?_, attemptRecover_held hheld₁,
    attemptRecover_known hfits hheld₁ hknown, attemptRecover_stuck d₁⟩
  rw [decodeFec, hreset]
  dsimp only [Option.bind_eq_bind, Option.bind_some]
  rw [h1]
  rfl

def deliver (lowerBound : Search UInt16) (calls : List (List ReceivedPacket)) : Option Decoder :=
  calls.foldlM (decodeFec lowerBound) {}

theorem Decoder.Known.stuck (h : d.Known packets delivered) (hheld : d.Held base)
    (hall : packets ⊆ delivered) (hstuck : d.Stuck) :
    Peeling.Stuck (fun rx : ReceivedPacket => rx ∈ packets ∧ rx.isFec = true)
      (fun rx x => x ∈ protectedSeqs rx.pkt) (· ∈ recoveredSeqs d.recoveredPacketList) := by
  rintro rx ⟨hrx, hfec⟩
  obtain ⟨f, hf, hseqs⟩ | hknown := FecDecoder.Known.checks h rx (hall hrx) hfec
  · have htwo := hstuck f hf
    have hnodup := f.missing_nodup
    have hmissing := FecDecoder.Held.missing hheld f hf
    have hsub : ∀ x ∈ f.missing, x ∈ protectedSeqs rx.pkt := fun x hx => hseqs ▸ mem_missing hx
    match hm : f.missing with
    | [] =>
      rw [hm] at htwo
      cases htwo
    | [x] =>
      rw [hm, List.length_singleton] at htwo
      omega
    | x :: y :: l =>
      rw [hm] at hnodup hmissing hsub
      have hne : x ≠ y := fun h => (List.nodup_cons.1 hnodup).1 (h ▸ List.mem_cons_self ..)
      exact .inr ⟨x, y, hne, hsub x (by simp), hsub y (by simp), hmissing x (by simp),
        hmissing y (by simp)⟩
  · exact .inl hknown

/-- What is known after all calls is what can be recovered. -/
theorem deliver_known {calls : List (List ReceivedPacket)} (hfits : Fits calls.flatten) :
    ∃ d, deliver b calls = some d ∧ Sound d ∧
      ∀ x, x ∈ recoveredSeqs d.recoveredPacketList ↔ Recovers calls.flatten x := by
  obtain ⟨base, hx⟩ := hfits.half
  have hrun : ∀ (rest : List (List ReceivedPacket)) (d : Decoder) (delivered : List ReceivedPacket),
      rest.flatten ⊆ calls.flatten → d.Held base → d.Known calls.flatten delivered → d.Stuck →
      ∃ d', rest.foldlM (decodeFec b) d = some d' ∧ d'.Held base ∧
        d'.Known calls.flatten (delivered ++ rest.flatten) ∧ d'.Stuck := by
    intro rest
    induction rest with
    | nil =>
      intro d delivered _ hheld hknown hstuck
      exact ⟨d, rfl, hheld, (List.append_nil delivered).symm ▸ hknown, hstuck⟩
    | cons received rest ih =>
      intro d delivered hsub hheld hknown _
      rw [List.flatten_cons] at hsub ⊢
      obtain ⟨d₁, h1, hheld₁, hknown₁, hstuck₁⟩ := decodeFec_known (b := b) hfits
        hheld hknown (fun r hr => hsub (List.mem_append_left _ hr)) hx
      obtain ⟨d', h2, hheld', hknown', hstuck'⟩ := ih d₁ _
        (fun r hr => hsub (List.mem_append_right _ hr)) hheld₁ hknown₁ hstuck₁
      rw [List.append_assoc] at hknown'
      exact ⟨d', by rw [List.foldlM_cons, h1]; exact h2, hheld', hknown', hstuck'⟩
  have hheld : Decoder.Held base {} :=
    ⟨.nil, fun _ hx => absurd hx List.not_mem_nil, fun _ hf => absurd hf List.not_mem_nil,
      fun _ hf => absurd hf List.not_mem_nil⟩
  have hknown : Decoder.Known calls.flatten [] {} :=
    ⟨fun _ hr => absurd hr List.not_mem_nil, fun _ hx => absurd hx List.not_mem_nil,
      fun _ hr => absurd hr List.not_mem_nil, fun _ hf => absurd hf List.not_mem_nil, .nil,
      fun _ hf => absurd hf List.not_mem_nil⟩
  obtain ⟨d, hd, hheld', hknown', hstuck⟩ := hrun calls {} [] (fun _ h => h) hheld hknown
    fun _ hf => absurd hf List.not_mem_nil
  rw [List.nil_append] at hknown'
  refine ⟨d, hd, hheld'.sound, fun x => ?_⟩
  refine (hknown'.stuck hheld' (fun _ h => h) hstuck).known_iff ?_
    (FecDecoder.Known.recovers hknown') x
  rintro x ⟨rx, hrx, hm, rfl⟩
  exact FecDecoder.Known.media hknown' rx hrx hm

end Known

/-! ## The order -/

theorem Recovers.congr {packets packets' : List ReceivedPacket} (h : packets.Perm packets')
    (x : UInt16) : Recovers packets x ↔ Recovers packets' x := by
  have hmono : ∀ {p q : List ReceivedPacket}, p ⊆ q → Recovers p x → Recovers q x := fun hsub =>
    Recoverable.mono (fun _ ⟨rx, hrx, hm⟩ => ⟨rx, hsub hrx, hm⟩) fun _ ⟨hrx, hfec⟩ =>
      ⟨hsub hrx, hfec⟩
  exact ⟨hmono h.subset, hmono h.symm.subset⟩

theorem Fits.perm {packets packets' : List ReceivedPacket} (h : Fits packets)
    (hp : packets'.Perm packets) : Fits packets' where
  half := by
    obtain ⟨base, hx⟩ := h.half
    exact ⟨base, fun rx hrx => hx rx (hp.mem_iff.1 hrx)⟩
  near rx hrx fec hfec := h.near rx (hp.mem_iff.1 hrx) fec (hp.mem_iff.1 hfec)
  same fec hfec fec' hfec' := h.same fec (hp.mem_iff.1 hfec) fec' (hp.mem_iff.1 hfec')
  recovered l hl hx := h.recovered l hl fun x hxl => (Recovers.congr hp x).1 (hx x hxl)
  fecs l hl hx := h.fecs l hl fun x hxl => by
    obtain ⟨rx, hrx, his⟩ := hx x hxl
    exact ⟨rx, hp.mem_iff.1 hrx, his⟩

theorem Recovers.mentioned {packets : List ReceivedPacket} {x : UInt16} (h : Recovers packets x) :
    x ∈ packets.flatMap mentions := by
  cases h with
  | given h =>
    obtain ⟨rx, hrx, hm, rfl⟩ := h
    exact List.mem_flatMap.2 ⟨rx, hrx, by simp [mentions, hm]⟩
  | @recover rx _ hc hx _ =>
    exact List.mem_flatMap.2 ⟨rx, hc.1, by rw [mentions, if_pos hc.2]; exact hx⟩

/-- The limits are met by few packets that mention few numbers. -/
theorem Fits.of_few {packets : List ReceivedPacket} (base : UInt16)
    (half : ∀ x ∈ packets.flatMap mentions, dist base x < 0x8000)
    (near : ∀ rx ∈ packets, ∀ fec ∈ packets, fec.isFec = true →
      seqNumDiff rx.seqNum fec.seqNum ≤ 0x3fff)
    (same : ∀ fec ∈ packets, ∀ fec' ∈ packets, fec.isFec = true → fec'.isFec = true →
      fec.seqNum = fec'.seqNum → protectedSeqs fec.pkt = protectedSeqs fec'.pkt)
    (mentioned : (packets.flatMap mentions).length < kMaxMediaPackets)
    (few : packets.length ≤ kMaxFecPackets) : Fits packets where
  half := ⟨base, fun rx hrx x hx => half x (List.mem_flatMap.2 ⟨rx, hrx, hx⟩)⟩
  near := near
  same := same
  recovered l hl hx := Nat.lt_of_le_of_lt
    (List.subperm_of_subset hl fun x hxl => (hx x hxl).mentioned).length_le mentioned
  fecs l hl hx := by
    have hsub : l ⊆ packets.map (·.seqNum) := fun x hxl => by
      obtain ⟨rx, hrx, -, rfl⟩ := hx x hxl
      exact List.mem_map_of_mem hrx
    have hle := (List.subperm_of_subset hl hsub).length_le
    rw [List.length_map] at hle
    exact Nat.le_trans hle few

/-- Sorted lists of the same numbers are the same. -/
theorem Sound.ext {d d' : Decoder} (h : Sound d) (h' : Sound d')
    (hx : ∀ x, x ∈ recoveredSeqs d.recoveredPacketList ↔ x ∈ recoveredSeqs d'.recoveredPacketList) :
    recoveredSeqs d.recoveredPacketList = recoveredSeqs d'.recoveredPacketList := by
  have hperm := (List.perm_ext_iff_of_nodup (nodup_of_ascending h.ascending)
    (nodup_of_ascending h'.ascending)).2 hx
  refine hperm.eq_of_pairwise (fun a b _ _ hab hba => ?_) h.ascending h'.ascending
  rw [lessThan_asymm hab] at hba
  cases hba

/-- The loop of recovery ends with at least two packets missing in each FEC packet, and recovers no
packet twice. In runs whose calls stay within half the circle, the list is sorted without a number
twice. Packets of which nothing is thrown away give the same list in every order. -/
theorem fec_recovery (lowerBound : Search UInt16) :
    (∀ d : Decoder,
      Loop Recovery.cond (Recovery.body lowerBound) d.recovery (d.recovered lowerBound) ∧
      (∀ f ∈ (attemptRecover lowerBound d).fecPacketList, numCoveredPacketsMissing f = 2) ∧
      ∀ ls s, (rounds lowerBound).Run d.recovery ls s → (ls.filterMap id).Nodup) ∧
    (∀ d, ((decoding lowerBound).within HalfCircle).Reachable d →
      (recoveredSeqs d.recoveredPacketList).Pairwise (fun a b => lessThan a b = true) ∧
      (recoveredSeqs d.recoveredPacketList).Nodup ∧
      ∀ received, received ≠ [] → HalfCircle d received →
        ∃ d', decodeFec lowerBound d received = some d') ∧
    ∀ calls calls' : List (List ReceivedPacket), Fits calls.flatten →
      calls'.flatten.Perm calls.flatten →
      ∃ d d', deliver lowerBound calls = some d ∧ deliver lowerBound calls' = some d' ∧
        recoveredSeqs d.recoveredPacketList = recoveredSeqs d'.recoveredPacketList := by
  refine ⟨fun d => ⟨attemptRecover_ends d, fun f hf => ?_, fun ls s r => recovered_once r⟩,
    fun d hd => ?_, fun calls calls' hfits hperm => ?_⟩
  · have := attemptRecover_stuck d f hf
    rw [numCoveredPacketsMissing_eq]
    omega
  · have hsound := decoding_sound.reachable d hd
    exact ⟨hsound.ascending, nodup_of_ascending hsound.ascending, fun received hne hhalf =>
      decodeFec_isSome hsound hhalf hne⟩
  · obtain ⟨d, hd, hsound, hx⟩ := deliver_known (b := lowerBound) hfits
    obtain ⟨d', hd', hsound', hx'⟩ := deliver_known (b := lowerBound) (hfits.perm hperm)
    exact ⟨d, d', hd, hd', hsound.ext hsound' fun x =>
      (hx x).trans ((Recovers.congr hperm x).symm.trans (hx' x).symm)⟩

/-- A FEC packet for 1 and 2. -/
def fecFor12 (seqNum : UInt16) : ReceivedPacket :=
  ⟨seqNum, some 0, true, ⟨14, [0, 0, 0, 1, 0, 0, 0, 0, 0, 0, 0, 0, 0xc0, 0], by decide⟩⟩

def mediaPacket (seqNum : UInt16) : ReceivedPacket := ⟨seqNum, none, false, ⟨12, [], by decide⟩⟩

theorem numbers_half : ∀ x ∈ [[fecFor12 3], [mediaPacket 1]].flatten.flatMap mentions,
    dist 0 x < 0x8000 := by
  have hnumbers : [[fecFor12 3], [mediaPacket 1]].flatten.flatMap mentions = [1, 2, 1] := by decide
  intro x hx
  rw [hnumbers] at hx
  simp only [List.mem_cons, List.not_mem_nil, or_false] at hx
  obtain rfl | rfl | rfl := hx <;> decide

theorem fec_recovery_two : ∃ d d',
    deliver Search.linear [[fecFor12 3], [mediaPacket 1]] = some d ∧
      deliver Search.linear [[mediaPacket 1, fecFor12 3]] = some d' ∧
      recoveredSeqs d.recoveredPacketList = recoveredSeqs d'.recoveredPacketList :=
  (fec_recovery Search.linear).2.2 _ _
    (Fits.of_few 0 numbers_half (by decide) (by decide) (by decide) (by decide)) (by decide)

/-- A FEC packet that is 0x4001 away from the last packet is thrown away before it recovers 2. -/
theorem recovery_depends_on_order :
    (deliver Search.linear [[fecFor12 0, mediaPacket 1, mediaPacket 0x4001]]).map
        (recoveredSeqs ·.recoveredPacketList) = some [1, 0x4001] ∧
      (deliver Search.linear [[mediaPacket 0x4001, fecFor12 0, mediaPacket 1]]).map
        (recoveredSeqs ·.recoveredPacketList) = some [1, 2, 0x4001] := by
  decide

end RtcCore.L2.FecDecoder
