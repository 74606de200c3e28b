import RtcCore.L2Receive.FecDecoder

/-!
# The loop of FEC recovery

What a FEC packet has is its numbers and those that have no pointer
(`FecPacket.missing`). A packet that comes in or is recovered is taken out of
the missing ones everywhere.

Results:
- `attemptRecover_ends`, `attemptRecover_stuck`, `recovered_once`: on every
  state the loop ends, each FEC packet that stays has two packets missing, and
  no packet is recovered twice.
- `decoding_sound`, `decodeFec_isSome`: as long as each call stays within half
  the circle, the list is sorted, a packet without a pointer is not in it, and
  no walk passes its end.
-/
namespace RtcCore.L2.FecDecoder

open Serial L1.ForwardErrorCorrection

variable {b : Search UInt16}

/-! ## Pointers -/

theorem lessThan_irrefl (a : UInt16) : lessThan a a = false := newer_irrefl a

theorem lessThan_asymm {a b : UInt16} (h : lessThan a b = true) : lessThan b a = false :=
  newer_asymm h

theorem ne_of_lessThan {a b : UInt16} (h : lessThan a b = true) : a ≠ b := by
  rintro rfl
  rw [lessThan_irrefl] at h
  cases h

theorem nodup_of_ascending {l : List UInt16} (h : l.Pairwise fun a b => lessThan a b = true) :
    l.Nodup := h.imp ne_of_lessThan

/-- The numbers that a FEC packet protects. -/
def FecPacket.seqs (f : FecPacket) : List UInt16 := seqNums f.protectedPktList

theorem FecPacket.seqs_nodup (f : FecPacket) : f.seqs.Nodup := nodup_of_ascending f.ascending

theorem missingOf_append (a b : List ProtectedPacket) :
    missingOf (a ++ b) = missingOf a ++ missingOf b := by
  simp [missingOf, seqNums]

theorem missingOf_sublist (ps : List ProtectedPacket) : (missingOf ps).Sublist (seqNums ps) :=
  List.filter_sublist.map _

theorem missingOf_setPkt (pkt : Packet) (q : ProtectedPacket) (ps : List ProtectedPacket) :
    missingOf (setPkt pkt q :: ps) = missingOf ps := by
  simp [missingOf, setPkt]

theorem mem_missing {f : FecPacket} {x : UInt16} (h : x ∈ f.missing) : x ∈ f.seqs :=
  (missingOf_sublist _).subset h

theorem FecPacket.missing_nodup (f : FecPacket) : f.missing.Nodup :=
  f.seqs_nodup.sublist (missingOf_sublist _)

/-- A pointer is set, and the others stay. -/
theorem missingOf_modify {pre post : List ProtectedPacket} {q : ProtectedPacket} {pkt : Packet}
    (hnodup : (seqNums (pre ++ q :: post)).Nodup) :
    missingOf ((pre ++ q :: post).modify pre.length (setPkt pkt)) =
      (missingOf (pre ++ q :: post)).filter (· != q.seqNum) := by
  have hmod : (pre ++ q :: post).modify pre.length (setPkt pkt) = pre ++ setPkt pkt q :: post := by
    rw [List.modify_eq_take_drop, List.take_left, List.drop_left]
    rfl
  rw [seqNums, List.map_append, List.map_cons, List.nodup_append] at hnodup
  obtain ⟨-, hpost, hdisj⟩ := hnodup
  have hkeep : ∀ l : List ProtectedPacket, (∀ r ∈ l, r.seqNum ≠ q.seqNum) →
      (missingOf l).filter (· != q.seqNum) = missingOf l := by
    intro l hl
    refine List.filter_eq_self.2 fun x hx => ?_
    obtain ⟨r, hr, rfl⟩ := List.mem_map.1 hx
    simpa using hl r (List.mem_of_mem_filter hr)
  have hpre := hkeep pre fun r hr => hdisj _ (List.mem_map_of_mem hr) _ (List.mem_cons_self ..)
  have hpost := hkeep post fun r hr heq =>
    (List.nodup_cons.1 hpost).1 (heq ▸ List.mem_map_of_mem hr)
  have hq : (missingOf [q]).filter (· != q.seqNum) = [] := by
    refine List.filter_eq_nil_iff.2 fun x hx => ?_
    obtain ⟨r, hr, rfl⟩ := List.mem_map.1 hx
    obtain rfl := List.mem_singleton.1 (List.mem_of_mem_filter hr)
    simp
  rw [hmod, missingOf_append, missingOf_setPkt, missingOf_append,
    show q :: post = [q] ++ post from rfl, missingOf_append, List.filter_append,
    List.filter_append, hpre, hpost, hq, List.nil_append]

@[simp] theorem updateCovering_seqNum (p : RecoveredPacket) (f : FecPacket) :
    (updateCovering b p f).seqNum = f.seqNum := by
  rw [updateCovering]
  split <;> rfl

@[simp] theorem updateCovering_seqs (p : RecoveredPacket) (f : FecPacket) :
    (updateCovering b p f).seqs = f.seqs := by
  rw [updateCovering]
  split
  · exact seqNums_modify _ _ p.pkt
  · rfl

/-- The binary search finds a number that is there. -/
theorem updateCovering_missing (p : RecoveredPacket) (f : FecPacket) :
    (updateCovering b p f).missing = f.missing.filter (· != p.seqNum) := by
  rw [updateCovering]
  by_cases hmem : p.seqNum ∈ seqNums f.protectedPktList
  · obtain ⟨q, hq, hseq⟩ := List.mem_map.1 hmem
    obtain ⟨pre, post, heq⟩ := List.append_of_mem hq
    have hasc := f.ascending
    rw [heq, seqNums, List.map_append, List.map_cons] at hasc
    obtain ⟨-, hpost, hpre⟩ := List.pairwise_append.1 hasc
    have hbound : b.bound (fun seq => lessThan seq p.seqNum) (seqNums f.protectedPktList) =
        pre.length := by
      rw [heq, seqNums, List.map_append, List.map_cons]
      have hb := b.bound_append (p := fun seq => lessThan seq p.seqNum)
        (a := pre.map (·.seqNum)) (b := q.seqNum :: post.map (·.seqNum))
        (fun x hx => hseq ▸ hpre x hx _ (List.mem_cons_self ..)) ?_
      · rw [hb, List.length_map]
      · intro x hx
        obtain rfl | hx := List.mem_cons.1 hx
        · rw [hseq]
          exact lessThan_irrefl _
        · exact hseq ▸ lessThan_asymm ((List.pairwise_cons.1 hpost).1 x hx)
    have hfound : (seqNums f.protectedPktList)[pre.length]? = some p.seqNum := by
      rw [heq, seqNums, List.map_append, List.map_cons, ← List.length_map (f := (·.seqNum)),
        List.getElem?_append_right (Nat.le_refl _), Nat.sub_self, ← hseq]
      rfl
    have hnodup := f.seqs_nodup
    rw [FecPacket.seqs, heq] at hnodup
    rw [if_pos (hbound.symm ▸ hfound)]
    change missingOf (f.protectedPktList.modify (b.bound _ _) (setPkt p.pkt)) = _
    rw [hbound, FecPacket.missing, heq, ← hseq]
    exact missingOf_modify hnodup
  · rw [if_neg fun h => hmem (List.mem_of_getElem? h)]
    refine (List.filter_eq_self.2 fun x hx => ?_).symm
    have hne : x ≠ p.seqNum := fun h => hmem (h ▸ mem_missing hx)
    simpa using hne

theorem sublist_skip {α : Type} {a : α} {l skipped rest : List α}
    (h : (a :: l).Sublist (skipped ++ rest)) (ha : a ∉ skipped) : (a :: l).Sublist rest := by
  induction skipped with
  | nil => exact h
  | cons c skipped ih =>
    rw [List.mem_cons, not_or] at ha
    cases h with
    | cons _ h => exact ih h ha.2
    | cons_cons => exact absurd rfl ha.1

theorem assignLoop_missing {rs : List RecoveredPacket} {ps : List ProtectedPacket}
    (hnodup : (seqNums ps).Nodup) (hsub : (recoveredSeqs rs).Sublist (seqNums ps)) :
    ∃ ps', assignLoop rs ps = some ps' ∧
      missingOf ps' = (missingOf ps).filter (· ∉ recoveredSeqs rs) := by
  induction rs generalizing ps with
  | nil => exact ⟨ps, rfl, (List.filter_eq_self.2 fun x _ => by simp [recoveredSeqs]).symm⟩
  | cons r rs ih =>
    have hmem : r.seqNum ∈ seqNums ps := hsub.subset (List.mem_cons_self ..)
    have hsplit := List.takeWhile_append_dropWhile (p := (·.seqNum != r.seqNum)) (l := ps)
    have hskip : ∀ q ∈ ps.takeWhile (·.seqNum != r.seqNum), q.seqNum ≠ r.seqNum := fun q hq =>
      bne_iff_ne.1 (List.all_eq_true.1 List.all_takeWhile q hq)
    have hstop := List.head?_dropWhile_not (·.seqNum != r.seqNum) ps
    rw [assignLoop]
    generalize ps.takeWhile (·.seqNum != r.seqNum) = skipped at hsplit hskip ⊢
    generalize ps.dropWhile (·.seqNum != r.seqNum) = found at hsplit hstop ⊢
    subst hsplit
    rw [seqNums, List.map_append] at hmem hsub hnodup
    have hnot : r.seqNum ∉ skipped.map (·.seqNum) := fun h => by
      obtain ⟨q, hq, hseq⟩ := List.mem_map.1 h
      exact hskip q hq hseq
    cases found with
    | nil =>
      rw [List.map_nil, List.append_nil] at hmem
      exact absurd hmem hnot
    | cons q rest =>
      have hq : q.seqNum = r.seqNum := by simpa using hstop
      -- the numbers that are left are behind the place where the first one was found
      have hrest : (recoveredSeqs (r :: rs)).Sublist (seqNums (q :: rest)) := sublist_skip hsub hnot
      have hrest' : (recoveredSeqs rs).Sublist (seqNums (setPkt r.pkt q :: rest)) :=
        (List.sublist_cons_self _ _).trans hrest
      obtain ⟨-, hnodup', hdisj⟩ := List.nodup_append.1 hnodup
      obtain ⟨ps', hps', hmissing⟩ := @ih (setPkt r.pkt q :: rest) hnodup' hrest'
      refine ⟨skipped ++ ps', by dsimp only; rw [hps']; rfl, ?_⟩
      have hleft :
          (missingOf skipped).filter (· ∉ recoveredSeqs (r :: rs)) = missingOf skipped := by
        refine List.filter_eq_self.2 fun x hx => decide_eq_true fun hrec => ?_
        exact hdisj x ((missingOf_sublist _).subset hx) x (hrest.subset hrec) rfl
      have hright : (missingOf (q :: rest)).filter (· ∉ recoveredSeqs (r :: rs)) =
          (missingOf rest).filter (· ∉ recoveredSeqs rs) := by
        have hsingle : (missingOf [q]).filter (· ∉ recoveredSeqs (r :: rs)) = [] := by
          refine List.filter_eq_nil_iff.2 fun x hx => ?_
          have hx := List.mem_singleton.1 ((missingOf_sublist _).subset hx)
          simp [hx, hq, recoveredSeqs]
        rw [show q :: rest = [q] ++ rest from rfl, missingOf_append, List.filter_append, hsingle,
          List.nil_append]
        refine List.filter_congr fun x hx => ?_
        have hx' := (missingOf_sublist _).subset hx
        have hne : x ≠ r.seqNum := by
          rintro rfl
          rw [← hq] at hx'
          exact (List.nodup_cons.1 hnodup').1 hx'
        simp [recoveredSeqs, hne]
      rw [missingOf_append, hmissing, missingOf_setPkt, missingOf_append, List.filter_append, hleft,
        hright]

/-! ## Half the circle -/

def Half (base x : UInt16) : Prop := dist base x < 0x8000

/-- In half the circle, `LessThan` is an order. -/
def ranked (base : UInt16) : Ranked lessThan (Half base) where
  rank := dist base
  inj _ _ h := (dist_inj base).1 h
  less_eq ha hb := newer_dist base hb ha

/-- The packets that are known get their pointers. -/
theorem assignRecoveredPackets_spec {base : UInt16} {rx : ReceivedPacket}
    {recovered : List RecoveredPacket}
    (hsorted : recovered.Pairwise fun p q => lessThan p.seqNum q.seqNum = true)
    (hinside : ∀ p ∈ recovered, Half base p.seqNum)
    (hcovers : ∀ x ∈ protectedSeqs rx.pkt, Half base x) :
    ∃ f, assignRecoveredPackets (.ofReceived rx) recovered = some f ∧ f.seqNum = rx.seqNum ∧
      f.seqs = protectedSeqs rx.pkt ∧
      f.missing = (protectedSeqs rx.pkt).filter (· ∉ recoveredSeqs recovered) := by
  have hseqs : seqNums (FecPacket.ofReceived rx).protectedPktList = protectedSeqs rx.pkt := by
    simp [seqNums, FecPacket.ofReceived, Function.comp_def]
  have hnone : (FecPacket.ofReceived rx).missing = protectedSeqs rx.pkt := by
    rw [FecPacket.missing, missingOf, List.filter_eq_self.2, hseqs]
    intro q hq
    obtain ⟨x, -, rfl⟩ := List.mem_map.1 hq
    rfl
  have hin : ∀ q ∈ (FecPacket.ofReceived rx).protectedPktList, Half base q.seqNum := fun q hq =>
    hcovers _ (hseqs ▸ List.mem_map_of_mem hq)
  have hsub := setIntersection_sublist (ranked base) recovered
    (FecPacket.ofReceived rx).protectedPktList (f := (RecoveredPacket.seqNum ·))
    (g := (ProtectedPacket.seqNum ·)) hinside hin
  have hmem := mem_setIntersection (ranked base) recovered
    (FecPacket.ofReceived rx).protectedPktList (f := (RecoveredPacket.seqNum ·))
    (g := (ProtectedPacket.seqNum ·)) hinside hin hsorted
    (List.pairwise_map.1 (FecPacket.ofReceived rx).ascending)
  obtain ⟨ps, hps, hmissing⟩ := assignLoop_missing (FecPacket.ofReceived rx).seqs_nodup hsub
  have hassign : assignRecoveredPackets (.ofReceived rx) recovered =
      some ((FecPacket.ofReceived rx).withList ps (assignLoop_seqNums hps)) := by
    rw [assignRecoveredPackets]
    simp only [hps, Option.pmap_some]
  refine ⟨_, hassign, rfl, (assignLoop_seqNums hps).trans hseqs, ?_⟩
  change missingOf ps = _
  rw [hmissing]
  change (FecPacket.ofReceived rx).missing.filter _ = _
  rw [hnone]
  refine List.filter_congr fun x hx => ?_
  -- a protected number is in the intersection if it is known
  rw [decide_eq_decide, not_iff_not]
  constructor
  · intro h
    obtain ⟨p, hp, rfl⟩ := List.mem_map.1 h
    exact List.mem_map_of_mem ((hmem p).1 hp).1
  · intro h
    obtain ⟨p, hp, rfl⟩ := List.mem_map.1 h
    rw [← hseqs] at hx
    obtain ⟨q, hq, hpq⟩ := List.mem_map.1 hx
    exact List.mem_map_of_mem ((hmem p).2 ⟨hp, q, hq, hpq⟩)

theorem mem_insertRecovered {l : List RecoveredPacket} {p : RecoveredPacket} {x : UInt16} :
    x ∈ recoveredSeqs (insertRecovered l p) ↔ x ∈ recoveredSeqs l ∨ x = p.seqNum := by
  have hperm := (sortBy_perm lessThan (RecoveredPacket.seqNum ·) (l ++ [p])).map (·.seqNum)
  rw [insertRecovered, recoveredSeqs, hperm.mem_iff]
  simp [recoveredSeqs]

theorem insertRecovered_sorted {base : UInt16} {l : List RecoveredPacket} {p : RecoveredPacket}
    (hsorted : l.Pairwise fun p q => lessThan p.seqNum q.seqNum = true)
    (hinside : ∀ q ∈ l, Half base q.seqNum) (hp : Half base p.seqNum)
    (hnew : p.seqNum ∉ recoveredSeqs l) :
    (insertRecovered l p).Pairwise fun p q => lessThan p.seqNum q.seqNum = true := by
  refine sortBy_strict (ranked base) ?_ ?_
  · intro q hq
    obtain hq | hq := List.mem_append.1 hq
    · exact hinside q hq
    · exact List.mem_singleton.1 hq ▸ hp
  · rw [List.map_append, List.nodup_append]
    refine ⟨nodup_of_ascending (List.pairwise_map.2 hsorted), List.nodup_singleton _, ?_⟩
    rintro x hx y hy rfl
    obtain rfl : x = p.seqNum := List.mem_singleton.1 hy
    exact hnew hx

theorem discardOldPackets_sublist (l : List RecoveredPacket) : (discardOldPackets l).Sublist l :=
  List.drop_sublist _ _

theorem discardOldPackets_eq {l : List RecoveredPacket} (h : l.length ≤ 48) :
    discardOldPackets l = l := by
  rw [discardOldPackets, kMaxMediaPackets, Nat.sub_eq_zero_of_le h, List.drop_zero]

/-! ## A round of `AttemptRecover` -/

theorem numCoveredPacketsMissing_eq (f : FecPacket) :
    numCoveredPacketsMissing f = min 2 f.missing.length := by
  rw [numCoveredPacketsMissing, FecPacket.missing, missingOf, seqNums, List.length_map,
    List.countP_eq_length_filter]

theorem foldl_addProtected (ps : List ProtectedPacket) (p : RecoveredPacket) :
    (ps.foldl addProtected p).seqNum = (missingOf ps).getLastD p.seqNum := by
  induction ps generalizing p with
  | nil => rfl
  | cons q ps ih =>
    rw [List.foldl_cons, ih, show q :: ps = [q] ++ ps from rfl, missingOf_append]
    cases hpkt : q.pkt with
    | none =>
      have hm : missingOf [q] = [q.seqNum] := by simp [missingOf, seqNums, hpkt]
      have hp : (addProtected p q).seqNum = q.seqNum := by simp [addProtected, hpkt]
      rw [hm, hp, List.cons_append, List.nil_append, List.getLastD_cons]
    | some pkt =>
      have hm : missingOf [q] = [] := by simp [missingOf, seqNums, hpkt]
      have hp : (addProtected p q).seqNum = p.seqNum := by simp [addProtected, hpkt, xorPackets]
      rw [hm, hp, List.nil_append]

/-- The number that is missing is the one recovered. -/
theorem recoverPacket_seqNum {f : FecPacket} {x : UInt16} (h : f.missing = [x]) :
    (recoverPacket f).seqNum = x := by
  have := foldl_addProtected f.protectedPktList (initRecovery f)
  rw [← FecPacket.missing, h] at this
  exact this

namespace Recovery

/-- What a round can do. -/
theorem body_cases {s : Recovery} (h : s.cond = true) :
    ∃ fec rest, s.rest = fec :: rest ∧
      ((∃ x, fec.missing = [x] ∧ s.recovers = some x ∧ (recoverPacket fec).seqNum = x ∧
          s.body b =
            ⟨[], (s.passed ++ rest).map (updateCovering b (recoverPacket fec)),
              discardOldPackets (insertRecovered s.recovered (recoverPacket fec))⟩) ∨
        (fec.missing = [] ∧ s.recovers = none ∧
          s.body b = ⟨s.passed, rest, s.recovered⟩) ∨
        (2 ≤ fec.missing.length ∧ s.recovers = none ∧
          s.body b = ⟨s.passed ++ [fec], rest, s.recovered⟩)) := by
  obtain ⟨passed, rest, recovered⟩ := s
  cases rest with
  | nil => cases h
  | cons fec rest =>
    refine ⟨fec, rest, rfl, ?_⟩
    have hnum := numCoveredPacketsMissing_eq fec
    match hm : fec.missing with
    | [] =>
      rw [hm] at hnum
      have h0 : numCoveredPacketsMissing fec = 0 := hnum
      exact .inr (.inl ⟨rfl, by simp [recovers, h0], by simp [body, h0]⟩)
    | [x] =>
      rw [hm] at hnum
      have h1 : numCoveredPacketsMissing fec = 1 := hnum
      exact .inl ⟨x, rfl, by simp [recovers, h1, recoverPacket_seqNum hm],
        recoverPacket_seqNum hm, by simp [body, h1]⟩
    | x :: y :: l =>
      rw [hm, List.length_cons, List.length_cons] at hnum
      have h2 : numCoveredPacketsMissing fec = 2 := by omega
      refine .inr (.inr ⟨?_, by simp [recovers, h2], by simp [body, h2]⟩)
      rw [List.length_cons, List.length_cons]
      omega

/-- A FEC packet leaves the list, or the iterator goes on. -/
theorem body_measure (s : Recovery) (h : s.cond = true) :
    (s.body b).measure < s.measure := by
  obtain ⟨fec, rest, hrest, hcases⟩ := body_cases (b := b) h
  have hsq : ∀ n : Nat, (n + 1) * (n + 1) = n * n + n + n + 1 := fun n => by
    rw [Nat.add_mul, Nat.mul_add, Nat.one_mul, Nat.mul_one]
    omega
  have hm : s.measure = (s.passed.length + rest.length + 1) * (s.passed.length + rest.length + 1) +
      rest.length + 1 := by
    rw [measure, fecs, hrest, List.length_append, List.length_cons]
    rfl
  rw [hm, hsq]
  obtain ⟨x, -, -, -, heq⟩ | ⟨-, -, heq⟩ | ⟨-, -, heq⟩ := hcases <;> rw [heq, measure, fecs]
  · simp only [List.nil_append, List.length_map, List.length_append]
    omega
  · simp only [List.length_append]
    omega
  · simp only [List.length_append, List.length_singleton]
    have := hsq (s.passed.length + rest.length)
    rw [show s.passed.length + 1 + rest.length = s.passed.length + rest.length + 1 by omega, this]
    omega

end Recovery

/-- The loop of `AttemptRecover` comes to its end. -/
theorem attemptRecover_ends (d : Decoder) :
    Loop Recovery.cond (Recovery.body b) d.recovery (d.recovered b) :=
  Loop.of_runWhile Recovery.body_measure (Nat.le_refl _)

theorem recovered_fecs (d : Decoder) :
    (d.recovered b).fecs = (d.recovered b).passed := by
  have hdone := (attemptRecover_ends (b := b) d).done
  have hnil : (d.recovered b).rest = [] := by simpa [Recovery.cond] using hdone
  rw [Recovery.fecs, hnil, List.append_nil]

/-- Each FEC packet that stays has at least two packets missing. -/
theorem attemptRecover_stuck (d : Decoder) :
    ∀ f ∈ (attemptRecover b d).fecPacketList, 2 ≤ f.missing.length := by
  have hkeeps := (attemptRecover_ends (b := b) d).keeps
    (P := fun s => ∀ f ∈ s.passed, 2 ≤ f.missing.length) ?_ (fun f hf => by cases hf)
  · intro f hf
    refine hkeeps f ?_
    rw [← recovered_fecs]
    exact hf
  · intro s hc hs
    obtain ⟨fec, rest, -, hcases⟩ := Recovery.body_cases (b := b) hc
    obtain ⟨x, -, -, -, heq⟩ | ⟨-, -, heq⟩ | ⟨hmany, -, heq⟩ := hcases <;> rw [heq]
    · exact fun f hf => by cases hf
    · exact hs
    · intro f hf
      obtain hf | hf := List.mem_append.1 hf
      · exact hs f hf
      · exact List.mem_singleton.1 hf ▸ hmany

/-! ## No packet is recovered twice -/

/-- The rounds of the loop, with the numbers they recover. -/
def rounds (lowerBound : Search UInt16) : LTS Recovery (Option UInt16) where
  init _ := True
  step s l s' := s.cond = true ∧ l = s.recovers ∧ s' = s.body lowerBound

/-- Pointers are only added; the number recovered is missing nowhere. -/
theorem body_missing {s : Recovery} (h : s.cond = true) :
    ∀ f' ∈ (s.body b).fecs, ∃ f ∈ s.fecs, f'.missing ⊆ f.missing ∧
      ∀ x, s.recovers = some x → x ∉ f'.missing := by
  obtain ⟨fec, rest, hrest, hcases⟩ := Recovery.body_cases (b := b) h
  obtain ⟨x, -, hrec, hseq, heq⟩ | ⟨-, hrec, heq⟩ | ⟨-, hrec, heq⟩ := hcases <;>
    rw [heq, hrec] <;> intro f' hf'
  · rw [Recovery.fecs, List.nil_append] at hf'
    obtain ⟨f, hf, rfl⟩ := List.mem_map.1 hf'
    refine ⟨f, ?_, ?_, ?_⟩
    · rw [Recovery.fecs, hrest]
      obtain hf | hf := List.mem_append.1 hf
      · exact List.mem_append_left _ hf
      · exact List.mem_append_right _ (List.mem_cons_of_mem _ hf)
    · rw [updateCovering_missing]
      exact List.filter_sublist.subset
    · rintro y hy
      cases hy
      simp [updateCovering_missing, hseq]
  · refine ⟨f', ?_, fun _ h => h, fun x hx => by cases hx⟩
    rw [Recovery.fecs, hrest]
    obtain hf | hf := List.mem_append.1 hf'
    · exact List.mem_append_left _ hf
    · exact List.mem_append_right _ (List.mem_cons_of_mem _ hf)
  · refine ⟨f', ?_, fun _ h => h, fun x hx => by cases hx⟩
    rw [Recovery.fecs, hrest]
    rwa [Recovery.fecs, List.append_assoc] at hf'

theorem recovers_missing {s : Recovery} {x : UInt16} (h : s.recovers = some x) :
    ∃ f ∈ s.fecs, x ∈ f.missing := by
  cases hc : s.cond with
  | false =>
    have hnil : s.rest = [] := by simpa [Recovery.cond] using hc
    rw [Recovery.recovers, hnil] at h
    cases h
  | true =>
    obtain ⟨fec, rest, hrest, hcases⟩ := Recovery.body_cases (b := Search.linear) hc
    obtain ⟨y, hm, hrec, -⟩ | ⟨-, hrec, -⟩ | ⟨-, hrec, -⟩ := hcases <;> rw [hrec] at h <;> cases h
    refine ⟨fec, ?_, by rw [hm]; exact List.mem_cons_self ..⟩
    rw [Recovery.fecs, hrest]
    exact List.mem_append_right _ (List.mem_cons_self ..)

theorem run_missing {s s' : Recovery} {ls : List (Option UInt16)}
    (r : (rounds b).Run s ls s') {x : UInt16} (hx : some x ∈ ls) :
    ∃ f ∈ s.fecs, x ∈ f.missing := by
  induction r with
  | nil => cases hx
  | @cons s s₁ s' l ls h r ih =>
    obtain ⟨hc, rfl, rfl⟩ := h
    obtain hx | hx := List.mem_cons.1 hx
    · exact recovers_missing hx.symm
    · obtain ⟨f', hf', hm⟩ := ih hx
      obtain ⟨f, hf, hsub, -⟩ := body_missing hc f' hf'
      exact ⟨f, hf, hsub hm⟩

theorem recovered_once {s s' : Recovery} {ls : List (Option UInt16)}
    (r : (rounds b).Run s ls s') : (ls.filterMap id).Nodup := by
  induction r with
  | nil => exact List.nodup_nil
  | @cons s s₁ s' l ls h r ih =>
    obtain ⟨hc, rfl, rfl⟩ := h
    cases hrec : s.recovers with
    | none => exact ih
    | some x =>
      refine List.nodup_cons.2 ⟨fun hx => ?_, ih⟩
      obtain ⟨f', hf', hm⟩ := run_missing r (by simpa using hx)
      obtain ⟨-, -, -, hnot⟩ := body_missing hc f' hf'
      exact hnot x hrec hm

/-! ## The lists within half the circle -/

/-- All numbers lie in half the circle, the list is sorted, and a packet without a pointer is not
in the list. -/
structure Held (base : UInt16) (fecs : List FecPacket) (recovered : List RecoveredPacket) :
    Prop where
  sorted : recovered.Pairwise fun p q => lessThan p.seqNum q.seqNum = true
  inside : ∀ x ∈ recoveredSeqs recovered, Half base x
  covers : ∀ f ∈ fecs, ∀ x ∈ f.seqs, Half base x
  missing : ∀ f ∈ fecs, ∀ x ∈ f.missing, x ∉ recoveredSeqs recovered

def Decoder.Held (base : UInt16) (d : Decoder) : Prop :=
  FecDecoder.Held base d.fecPacketList d.recoveredPacketList

/-- The numbers that a packet brings with it. -/
def mentions (rx : ReceivedPacket) : List UInt16 :=
  if rx.isFec then protectedSeqs rx.pkt else [rx.seqNum]

section Held

variable {base : UInt16} {fecs fecs' : List FecPacket} {recovered recovered' : List RecoveredPacket}

theorem Held.nodup (h : Held base fecs recovered) : (recoveredSeqs recovered).Nodup :=
  nodup_of_ascending (List.pairwise_map.2 h.sorted)

theorem Held.mono (h : Held base fecs recovered) (hf : fecs' ⊆ fecs)
    (hr : recovered'.Sublist recovered) : Held base fecs' recovered' where
  sorted := h.sorted.sublist hr
  inside x hx := h.inside x ((hr.map _).subset hx)
  covers f hf' := h.covers f (hf hf')
  missing f hf' x hx hmem := h.missing f (hf hf') x hx ((hr.map _).subset hmem)

/-- A new packet is put into the list, and the pointers to it are set. -/
theorem Held.insert (h : Held base fecs recovered) {p : RecoveredPacket} (hp : Half base p.seqNum)
    (hnew : p.seqNum ∉ recoveredSeqs recovered) :
    Held base (fecs.map (updateCovering b p)) (insertRecovered recovered p) where
  sorted := insertRecovered_sorted h.sorted
    (fun q hq => h.inside _ (List.mem_map_of_mem hq)) hp hnew
  inside x hx := by
    obtain hx | rfl := mem_insertRecovered.1 hx
    · exact h.inside x hx
    · exact hp
  covers f hf x hx := by
    obtain ⟨g, hg, rfl⟩ := List.mem_map.1 hf
    rw [updateCovering_seqs] at hx
    exact h.covers g hg x hx
  missing f hf x hx hmem := by
    obtain ⟨g, hg, rfl⟩ := List.mem_map.1 hf
    rw [updateCovering_missing, List.mem_filter, bne_iff_ne] at hx
    obtain hmem | rfl := mem_insertRecovered.1 hmem
    · exact h.missing g hg x hx.1 hmem
    · exact hx.2 rfl

theorem not_any_seqNum {x : UInt16} (h : ¬ (recovered.any (·.seqNum == x)) = true) :
    x ∉ recoveredSeqs recovered := by
  intro hx
  obtain ⟨p, hp, rfl⟩ := List.mem_map.1 hx
  exact h (List.any_eq_true.2 ⟨p, hp, beq_self_eq_true _⟩)

variable {d d' : Decoder} {rx : ReceivedPacket}

theorem insertMediaPacket_held (h : d.Held base) (hx : Half base rx.seqNum) :
    (insertMediaPacket b d rx).Held base := by
  rw [insertMediaPacket]
  split
  · exact h
  · rename_i hany
    exact Held.insert h hx (not_any_seqNum hany)

theorem insertFecPacket_held (h : d.Held base) (hx : ∀ x ∈ protectedSeqs rx.pkt, Half base x) :
    ∃ d', insertFecPacket d rx = some d' ∧ d'.Held base := by
  rw [insertFecPacket]
  split
  · exact ⟨d, rfl, h⟩
  · split
    · exact ⟨d, rfl, h⟩
    · obtain ⟨f, hassign, -, hseqs, hmissing⟩ := assignRecoveredPackets_spec h.sorted
        (fun p hp => h.inside _ (List.mem_map_of_mem hp)) hx
      rw [hassign]
      have hall : Held base (sortBy lessThan (·.seqNum) (d.fecPacketList ++ [f]))
          d.recoveredPacketList := by
        refine ⟨h.sorted, h.inside, fun g hg y hy => ?_, fun g hg y hy => ?_⟩ <;>
          obtain hg | hg := List.mem_append.1 ((sortBy_perm _ _ _).mem_iff.1 hg)
        · exact h.covers g hg y hy
        · rw [List.mem_singleton.1 hg, hseqs] at hy
          exact hx y hy
        · exact h.missing g hg y hy
        · rw [List.mem_singleton.1 hg, hmissing] at hy
          exact of_decide_eq_true (List.mem_filter.1 hy).2
      refine ⟨_, rfl, ?_⟩
      dsimp only [Decoder.Held]
      split
      · exact hall.mono (List.tail_sublist _).subset (List.Sublist.refl _)
      · exact hall

theorem discardOldestFec_sublist (l : List FecPacket) (rx : ReceivedPacket) :
    (discardOldestFec l rx).Sublist l := by
  unfold discardOldestFec
  split
  · exact List.Sublist.refl _
  · split
    · exact List.sublist_cons_self _ _
    · exact List.Sublist.refl _

theorem insertPacket_held (h : d.Held base) (hx : ∀ x ∈ mentions rx, Half base x) :
    ∃ d', insertPacket b d rx = some d' ∧ d'.Held base := by
  have h' : Decoder.Held base { d with fecPacketList := discardOldestFec d.fecPacketList rx } :=
    Held.mono h (discardOldestFec_sublist _ rx).subset (List.Sublist.refl _)
  rw [mentions] at hx
  unfold insertPacket
  dsimp only
  by_cases hfec : rx.isFec = true
  · rw [if_pos hfec] at hx ⊢
    exact insertFecPacket_held h' hx
  · rw [if_neg hfec] at hx ⊢
    exact ⟨_, rfl, insertMediaPacket_held h' (hx _ (List.mem_singleton.2 rfl))⟩

theorem insertPackets_held {received : List ReceivedPacket} (h : d.Held base)
    (hx : ∀ rx ∈ received, ∀ x ∈ mentions rx, Half base x) :
    ∃ d', insertPackets b d received = some d' ∧ d'.Held base := by
  have hfold : ∃ d', received.foldlM (insertPacket b) d = some d' ∧ d'.Held base := by
    induction received generalizing d with
    | nil => exact ⟨d, rfl, h⟩
    | cons rx received ih =>
      obtain ⟨d₁, h1, hheld⟩ := insertPacket_held (b := b) h
        (hx rx (List.mem_cons_self ..))
      obtain ⟨d', h2, hheld'⟩ := ih hheld fun r hr => hx r (List.mem_cons_of_mem _ hr)
      exact ⟨d', by rw [List.foldlM_cons, h1]; exact h2, hheld'⟩
  obtain ⟨d', hfold, hheld⟩ := hfold
  refine ⟨_, by rw [insertPackets, hfold]; rfl, ?_⟩
  exact Held.mono hheld (fun _ h => h) (discardOldPackets_sublist _)

theorem body_held {s : Recovery} (hc : s.cond = true) (h : Held base s.fecs s.recovered) :
    Held base (s.body b).fecs (s.body b).recovered := by
  obtain ⟨fec, rest, hrest, hcases⟩ := Recovery.body_cases (b := b) hc
  have hfecs : s.fecs = s.passed ++ fec :: rest := by rw [Recovery.fecs, hrest]
  have hmem : fec ∈ s.fecs := hfecs ▸ List.mem_append_right _ (List.mem_cons_self ..)
  have hsub : s.passed ++ rest ⊆ s.fecs := by
    rw [hfecs]
    exact ((List.sublist_cons_self fec rest).append_left _).subset
  obtain ⟨x, hm, -, hseq, heq⟩ | ⟨-, -, heq⟩ | ⟨-, -, heq⟩ := hcases <;> rw [heq, Recovery.fecs]
  · have hx : x ∈ fec.missing := by rw [hm]; exact List.mem_cons_self ..
    have hinsert := (h.mono hsub (List.Sublist.refl _)).insert (b := b)
      (p := recoverPacket fec) (hseq ▸ h.covers fec hmem x (mem_missing hx))
      (hseq ▸ h.missing fec hmem x hx)
    exact hinsert.mono (fun _ h => h) (discardOldPackets_sublist _)
  · exact h.mono hsub (List.Sublist.refl _)
  · rw [hfecs] at h
    rw [List.append_assoc]
    exact h

theorem attemptRecover_held (h : d.Held base) : (attemptRecover b d).Held base := by
  have hkeeps := (attemptRecover_ends (b := b) d).keeps
    (P := fun s => FecDecoder.Held base s.fecs s.recovered) fun _ hc hs => body_held hc hs
  exact hkeeps h

end Held

/-- Numbers held, and those that the packets bring, lie within half the circle. -/
def HalfCircle (d : Decoder) (received : List ReceivedPacket) : Prop :=
  ∃ base, (∀ x ∈ recoveredSeqs d.recoveredPacketList, Half base x) ∧
    (∀ f ∈ d.fecPacketList, ∀ x ∈ f.seqs, Half base x) ∧
    ∀ rx ∈ received, ∀ x ∈ mentions rx, Half base x

/-- What holds of the lists wherever on the circle they are. -/
structure Sound (d : Decoder) : Prop where
  sorted : d.recoveredPacketList.Pairwise fun p q => lessThan p.seqNum q.seqNum = true
  missing : ∀ f ∈ d.fecPacketList, ∀ x ∈ f.missing, x ∉ recoveredSeqs d.recoveredPacketList

theorem Sound.ascending {d : Decoder} (h : Sound d) :
    (recoveredSeqs d.recoveredPacketList).Pairwise fun a b => lessThan a b = true :=
  List.pairwise_map.2 h.sorted

theorem Decoder.Held.sound {base : UInt16} {d : Decoder} (h : d.Held base) : Sound d :=
  ⟨FecDecoder.Held.sorted h, FecDecoder.Held.missing h⟩

theorem resetOnGap_held {base : UInt16} {d d₁ : Decoder} {received : List ReceivedPacket}
    (h : d.Held base) (hreset : resetOnGap d received = some d₁) : d₁.Held base := by
  have hempty : Decoder.Held base {} :=
    ⟨.nil, fun _ hx => absurd hx List.not_mem_nil, fun _ hf => absurd hf List.not_mem_nil,
      fun _ hf => absurd hf List.not_mem_nil⟩
  rw [resetOnGap] at hreset
  split at hreset
  · obtain ⟨front, -, hreset⟩ := Option.bind_eq_some_iff.1 hreset
    obtain ⟨back, -, hreset⟩ := Option.bind_eq_some_iff.1 hreset
    split at hreset <;> cases hreset
    · exact hempty
    · exact h
  · cases hreset
    exact h

/-- There is a packet to compare with when the list is full. -/
theorem resetOnGap_isSome {d : Decoder} {received : List ReceivedPacket} (h : received ≠ []) :
    ∃ d₁, resetOnGap d received = some d₁ := by
  obtain ⟨front, rest, rfl⟩ := List.exists_cons_of_ne_nil h
  rw [resetOnGap]
  split
  · rename_i hfull
    cases hback : d.recoveredPacketList.getLast? with
    | none =>
      rw [List.getLast?_eq_none_iff] at hback
      rw [hback] at hfull
      cases hfull
    | some back =>
      dsimp only [List.head?_cons, Option.bind_eq_bind, Option.bind_some]
      split <;> exact ⟨_, rfl⟩
  · exact ⟨d, rfl⟩

theorem decodeFec_of_reset {base : UInt16} {d d₁ : Decoder} {received : List ReceivedPacket}
    (hreset : resetOnGap d received = some d₁) (h : d₁.Held base)
    (hx : ∀ rx ∈ received, ∀ x ∈ mentions rx, Half base x) :
    ∃ d', decodeFec b d received = some d' ∧ d'.Held base := by
  obtain ⟨d₂, h2, hheld⟩ := insertPackets_held (b := b) h hx
  refine ⟨attemptRecover b d₂, ?_, attemptRecover_held hheld⟩
  rw [decodeFec, hreset]
  dsimp only [Option.bind_eq_bind, Option.bind_some]
  rw [h2]
  rfl

/-- The decoder under calls of `DecodeFEC`. -/
def decoding (lowerBound : Search UInt16) : LTS Decoder (List ReceivedPacket) :=
  .ofFn (· = {}) (decodeFec lowerBound)

theorem decoding_sound : ((decoding b).within HalfCircle).Inductive Sound where
  init := by
    rintro d rfl
    exact ⟨.nil, fun _ h => absurd h List.not_mem_nil⟩
  step := by
    rintro d received d' h ⟨⟨base, hinside, hcovers, hx⟩, hstep⟩
    have hheld : d.Held base := ⟨h.sorted, hinside, hcovers, h.missing⟩
    change decodeFec b d received = some d' at hstep
    obtain ⟨d₁, hreset, -⟩ := Option.bind_eq_some_iff.1 hstep
    obtain ⟨d₂, heq, hheld'⟩ := decodeFec_of_reset (b := b) hreset
      (resetOnGap_held hheld hreset) hx
    rw [hstep] at heq
    cases heq
    exact hheld'.sound

/-- No walk along the lists passes the end. -/
theorem decodeFec_isSome {d : Decoder} {received : List ReceivedPacket} (h : Sound d)
    (hhalf : HalfCircle d received) (hne : received ≠ []) :
    ∃ d', decodeFec b d received = some d' := by
  obtain ⟨base, hinside, hcovers, hx⟩ := hhalf
  have hheld : d.Held base := ⟨h.sorted, hinside, hcovers, h.missing⟩
  obtain ⟨d₁, hreset⟩ := resetOnGap_isSome (d := d) hne
  obtain ⟨d', hdecode, -⟩ := decodeFec_of_reset (b := b) hreset
    (resetOnGap_held hheld hreset) hx
  exact ⟨d', hdecode⟩

end RtcCore.L2.FecDecoder
