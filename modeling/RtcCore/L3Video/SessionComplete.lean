import RtcCore.L1Wire.Generic
import RtcCore.L1Wire.Vp8
import RtcCore.L3Video.SessionBytes

/-!
# When a frame is complete

A frame's packets carry consecutive numbers, the first-packet bit on the
first and the marker on the last. The invariant `Tracked` says that the list
holds such packets in strictly increasing order, that the session knows its
first (last) number exactly when that packet is in the list, and that
`complete` is what `UpdateCompleteSession` would compute.

Results:
* `complete_iff`: for every frame of the generic and the VP8 packetizer and
  every list of its packets in any order with any duplicates, no assert fails
  and the session is complete exactly when every packet has been inserted.
-/
namespace RtcCore.L3.Session

open Bytes Serial

/-! ## Runs of consecutive numbers -/

/-- A list in sequence has no hole. -/
theorem inSequence_dense {base : UInt16} : ∀ {q : Stored} {ps : List Stored},
    inSequence (q :: ps) = true → (∀ x ∈ q :: ps, key base x < 0x8000) →
    ∀ k, key base q ≤ k → (∃ x ∈ q :: ps, k ≤ key base x) → ∃ x ∈ q :: ps, key base x = k := by
  intro q ps
  induction ps generalizing q with
  | nil =>
    rintro - - k hk ⟨x, hx, hkx⟩
    rw [List.mem_singleton.1 hx] at hkx
    exact ⟨q, List.mem_singleton.2 rfl, Nat.le_antisymm hk hkx⟩
  | cons r ps ih =>
    rintro hs hb k hk ⟨x, hx, hkx⟩
    simp only [inSequence, Bool.and_eq_true, decide_eq_true_eq] at hs
    have hr : key base r = key base q + 1 := by
      rw [key, ← hs.1]
      exact dist_succ (hb q (List.mem_cons_self ..))
    by_cases hkq : k = key base q
    · exact ⟨q, List.mem_cons_self .., hkq.symm⟩
    · have hx' : x ∈ r :: ps := by
        rcases List.mem_cons.1 hx with rfl | hx
        · omega
        · exact hx
      obtain ⟨y, hy, hyk⟩ := ih hs.2 (fun y hy => hb y (List.mem_cons_of_mem _ hy)) k (by omega)
        ⟨x, hx', hkx⟩
      exact ⟨y, List.mem_cons_of_mem _ hy, hyk⟩

/-- An ordered list without a hole is in sequence. -/
theorem inSequence_of_dense {base : UInt16} {n : Nat} : ∀ {ps : List Stored},
    ps.Pairwise (fun a b => key base a < key base b) → (∀ x ∈ ps, key base x < n) → n ≤ 0x8000 →
    (∀ q ∈ ps, ∀ k, key base q ≤ k → k < n → ∃ x ∈ ps, key base x = k) → inSequence ps = true := by
  intro ps
  induction ps with
  | nil => intros; rfl
  | cons q ps ih =>
    intro ho hb hn hd
    obtain ⟨hq, ho'⟩ := List.pairwise_cons.1 ho
    cases ps with
    | nil => rfl
    | cons r ps =>
      have hqr := hq r (List.mem_cons_self ..)
      have hrn := hb r (List.mem_cons_of_mem _ (List.mem_cons_self ..))
      have hge : ∀ x ∈ r :: ps, key base r ≤ key base x := by
        intro x hx
        rcases List.mem_cons.1 hx with rfl | hx
        · exact Nat.le_refl _
        · exact Nat.le_of_lt ((List.pairwise_cons.1 ho').1 x hx)
      -- the number after `q` is in the list, and nothing lies between `q` and `r`
      obtain ⟨x, hx, hxk⟩ := hd q (List.mem_cons_self ..) (key base q + 1) (by omega) (by omega)
      have hxr : key base r ≤ key base x := by
        rcases List.mem_cons.1 hx with rfl | hx
        · omega
        · exact hge x hx
      have hr : key base r = key base q + 1 := by omega
      simp only [inSequence, Bool.and_eq_true, decide_eq_true_eq]
      constructor
      · refine (dist_inj base).1 ?_
        rw [dist_succ (show dist base q.pkt.seqNum < 0x8000 by
          have := hb q (List.mem_cons_self ..); simp only [key] at this; omega)]
        exact hr.symm
      · refine ih ho' (fun x hx => hb x (List.mem_cons_of_mem _ hx)) hn fun y hy k hk hkn => ?_
        obtain ⟨z, hz, hzk⟩ := hd y (List.mem_cons_of_mem _ hy) k hk hkn
        rcases List.mem_cons.1 hz with rfl | hz
        · have := hge y hy
          omega
        · exact ⟨z, hz, hzk⟩

/-- Increasing keys below `n` are at most `n`, and `n` of them are all. -/
theorem keys_full {f : Stored → Nat} {n : Nat} {ps : List Stored}
    (ho : ps.Pairwise fun a b => f a < f b) (hb : ∀ x ∈ ps, f x < n) (hl : n ≤ ps.length) :
    ∀ k < n, ∃ x ∈ ps, f x = k := by
  have hnd : (ps.map f).Nodup := List.pairwise_map.2 (ho.imp fun h => Nat.ne_of_lt h)
  intro k hk
  refine Classical.byContradiction fun hno => ?_
  have hno' : k ∉ ps.map f := fun hm => hno (List.mem_map.1 hm)
  have hsub : k :: ps.map f ⊆ List.range n := by
    intro j hj
    rcases List.mem_cons.1 hj with rfl | hj
    · exact List.mem_range.2 hk
    · obtain ⟨x, hx, rfl⟩ := List.mem_map.1 hj
      exact List.mem_range.2 (hb x hx)
  have := (List.nodup_cons.2 ⟨hno', hnd⟩).length_le_of_subset hsub
  simp only [List.length_cons, List.length_map, List.length_range] at this
  omega

/-! ## The packets of one frame -/

/-- `p` is packet `i` of a frame of `n` packets numbered from `base`. -/
structure IsPacket (n : Nat) (base : UInt16) (i : Nat) (p : VCMPacket) : Prop where
  lt : i < n
  seqNum : p.seqNum = base + .ofNat i
  isFirst : p.isFirstPacket = decide (i = 0)
  marker : p.markerBit = decide (i + 1 = n)
  media : p.frameType ≠ .empty
  data : p.data ≠ []
  codec : p.codec = .unknown ∨ p.codec = .vp8
  stapA : p.isStapA = false
  startCode : p.insertStartCode = false

structure Tracked (n : Nat) (base : UInt16) (s : Info) : Prop where
  packet : ∀ q ∈ s.packets, (∃ i, IsPacket n base i q.pkt) ∧ 0 < q.sizeBytes
  order : s.packets.Pairwise fun a b => key base a < key base b
  first : s.firstPacketSeqNum = if base ∈ seqNums s then some base else none
  last : s.lastPacketSeqNum =
    if base + .ofNat (n - 1) ∈ seqNums s then some (base + .ofNat (n - 1)) else none
  complete : s.complete = (s.haveFirstPacket && s.haveLastPacket && inSequence s.packets)

variable {n : Nat} {base : UInt16} {s : Info} {p : VCMPacket} {i : Nat}

theorem IsPacket.pos (h : IsPacket n base i p) (hn : n ≤ 0x8000) : dist base p.seqNum = i := by
  have := h.lt
  rw [h.seqNum, dist_add base (by omega)]

theorem Tracked.key_lt (h : Tracked n base s) (hn : n ≤ 0x8000) :
    ∀ q ∈ s.packets, key base q < n := by
  intro q hq
  obtain ⟨⟨i, hi⟩, -⟩ := h.packet q hq
  rw [key, hi.pos hn]
  exact hi.lt

theorem mem_seqNums (base : UInt16) {seq : UInt16} :
    seq ∈ seqNums s ↔ ∃ q ∈ s.packets, key base q = dist base seq := by
  simp only [seqNums, List.mem_map, key, dist_inj]

/-- The scan finds a duplicate exactly when the number is in the list. -/
theorem Tracked.isDuplicate_iff (h : Tracked n base s) (hn : n ≤ 0x8000) (seq : UInt16)
    (hseq : dist base seq < n) :
    isDuplicate (scanFront s.packets seq) seq = true ↔ seq ∈ seqNums s := by
  constructor
  · intro hd
    obtain ⟨q, hq, hqs, -⟩ := duplicate_mem hd
    exact List.mem_map.2 ⟨q, hq, hqs⟩
  · intro hm
    obtain ⟨q, hq, hqs⟩ := (mem_seqNums base).1 hm
    obtain ⟨hfront, hback⟩ := scan_order (show dist base seq < 0x8000 by omega)
      (fun q hq => by have := h.key_lt hn q hq; omega) (h.order.imp fun h => Nat.le_of_lt h)
    have hsplit := scan_split s.packets seq
    have ho := h.order
    rw [← hsplit] at hq ho
    have hqf : q ∈ scanFront s.packets seq := by
      rcases List.mem_append.1 hq with hq | hq
      · exact hq
      · have := hback q hq
        omega
    cases hl : (scanFront s.packets seq).getLast? with
    | none =>
      rw [List.getLast?_eq_none_iff] at hl
      rw [hl] at hqf
      exact absurd hqf List.not_mem_nil
    | some l =>
      have hlm := List.mem_of_getLast? hl
      obtain ⟨init, hi⟩ := List.getLast?_eq_some_iff.1 hl
      have hof := (List.pairwise_append.1 ho).1
      -- keys increase, so only the last can have the packet's number
      have hql : q = l := by
        rw [hi] at hqf hof
        rcases List.mem_append.1 hqf with hq | hq
        · have := (List.pairwise_append.1 hof).2.2 q hq l (List.mem_singleton.2 rfl)
          have := hfront l hlm
          omega
        · exact List.mem_singleton.1 hq
      subst hql
      have hlp : q ∈ s.packets := by rw [← hsplit]; exact List.mem_append_left _ hlm
      have hsz := (h.packet q hlp).2
      have : q.pkt.seqNum = seq := (dist_inj base).1 hqs
      simp [isDuplicate, hl, this, hsz]

/-- The bookkeeping of a frame's packet: nothing is out of bounds. -/
theorem track_packet (h : Tracked n base s) (hp : IsPacket n base i p) (hn : n ≤ 0x8000)
    (hnew : p.seqNum ∉ seqNums s) :
    ∃ t, s.track p = (true, t) ∧ t.packets = s.packets ∧ t.complete = s.complete ∧
      t.firstPacketSeqNum = (if p.isFirstPacket then some p.seqNum else s.firstPacketSeqNum) ∧
      t.lastPacketSeqNum = (if p.markerBit then some p.seqNum else s.lastPacketSeqNum) := by
  have hpos := hp.pos hn
  have hlt := hp.lt
  -- a boundary that is known belongs to another packet
  have hf : p.isFirstPacket = true → s.firstPacketSeqNum = none := by
    intro hf
    rw [hp.isFirst, decide_eq_true_eq] at hf
    have : base = p.seqNum := by rw [hp.seqNum, hf]; simp
    rw [h.first, if_neg (this ▸ hnew)]
  have hl : p.markerBit = true → s.lastPacketSeqNum = none := by
    intro hl
    rw [hp.marker, decide_eq_true_eq] at hl
    have : base + .ofNat (n - 1) = p.seqNum := by
      rw [hp.seqNum]; congr 2; omega
    rw [h.last, if_neg (this ▸ hnew)]
  have hfn : ∀ f, s.firstPacketSeqNum = some f → isNewerSequenceNumber f p.seqNum = false := by
    intro f he
    rw [h.first] at he
    split at he
    · cases he
      have h0 := dist_self base
      rw [newer_dist base (by omega) (by omega), h0]
      exact decide_eq_false (Nat.not_lt_zero _)
    · cases he
  have hln : ∀ l, s.lastPacketSeqNum = some l → isNewerSequenceNumber p.seqNum l = false := by
    intro l he
    rw [h.last] at he
    split at he
    · cases he
      have h1 : dist base (base + .ofNat (n - 1)) = n - 1 := dist_add base (by omega)
      rw [newer_dist base (by omega) (by omega), h1]
      exact decide_eq_false (by omega)
    · cases he
  unfold Info.track
  split
  · refine ⟨_, rfl, rfl, rfl, ?_, ?_⟩
    · simp only [Info.trackWidening]
      split
      · rename_i h0; rw [h0]
      · rename_i f h0
        rw [hfn f h0, Bool.and_false, if_neg Bool.false_ne_true, if_neg, h0]
        intro hc
        rw [hf hc] at h0
        cases h0
    · simp only [Info.trackWidening]
      split
      · rename_i h0; rw [h0]
      · rename_i l h0
        rw [hln l h0, Bool.and_false, if_neg Bool.false_ne_true, if_neg, h0]
        intro hc
        rw [hl hc] at h0
        cases h0
  · have h1 : ∃ t, s.trackFirst p = some t ∧ t.packets = s.packets ∧ t.complete = s.complete ∧
        t.firstPacketSeqNum = (if p.isFirstPacket then some p.seqNum else s.firstPacketSeqNum) ∧
        t.lastPacketSeqNum = s.lastPacketSeqNum := by
      unfold Info.trackFirst
      split
      · split
        · exact ⟨_, rfl, rfl, rfl, rfl, rfl⟩
        · split <;> exact ⟨_, rfl, rfl, rfl, rfl, rfl⟩
      · rename_i f h0
        have hnf : ¬ p.isFirstPacket = true := fun hc => by rw [hf hc] at h0; cases h0
        rw [hfn f h0, if_neg Bool.false_ne_true, if_neg hnf]
        split <;> exact ⟨_, rfl, rfl, rfl, rfl, rfl⟩
    obtain ⟨t, ht, hp1, hc1, hf1, hl1⟩ := h1
    have h2 : ∃ u, t.trackLast p = some u ∧ u.packets = t.packets ∧ u.complete = t.complete ∧
        u.firstPacketSeqNum = t.firstPacketSeqNum ∧
        u.lastPacketSeqNum = (if p.markerBit then some p.seqNum else t.lastPacketSeqNum) := by
      unfold Info.trackLast
      rw [hl1]
      split
      · split
        · exact ⟨_, rfl, rfl, rfl, rfl, rfl⟩
        · exact ⟨_, rfl, rfl, rfl, rfl, hl1⟩
      · rename_i l h0
        have hnl : ¬ p.markerBit = true := fun hc => by rw [hl hc] at h0; cases h0
        rw [hln l h0, if_neg Bool.false_ne_true, if_neg hnl]
        exact ⟨_, rfl, rfl, rfl, rfl, hl1⟩
    obtain ⟨u, hu, hp2, hc2, hf2, hl2⟩ := h2
    rw [ht]
    dsimp only
    rw [hu]
    exact ⟨u, rfl, hp2.trans hp1, hc2.trans hc1, hf2.trans hf1, by rw [hl2, hl1]⟩

theorem track_asserts (h : Tracked n base s) (hp : IsPacket n base i p) (hn : n ≤ 0x8000)
    (hnew : p.seqNum ∉ seqNums s) : s.assertsHold p = true := by
  have hpos := hp.pos hn
  have hlt := hp.lt
  have hne : ∀ q ∈ s.packets, key base q ≠ i := by
    intro q hq he
    exact hnew ((mem_seqNums base).2 ⟨q, hq, he.trans hpos.symm⟩)
  have hkey := h.key_lt hn
  unfold Info.assertsHold
  split
  · rename_i hf
    rw [hp.isFirst, decide_eq_true_eq] at hf
    have hb : p.seqNum = base := by rw [hp.seqNum, hf]; simp
    rw [h.first, if_neg (hb ▸ hnew)]
    refine List.all_eq_true.2 fun q hq => ?_
    have := hkey q hq
    have := hne q hq
    rw [newer_dist base (by simp only [key] at *; omega) (by omega), hpos]
    exact decide_eq_true (by simp only [key] at *; omega)
  · split
    · rename_i hm
      rw [hp.marker, decide_eq_true_eq] at hm
      have hb : p.seqNum = base + .ofNat (n - 1) := by rw [hp.seqNum]; congr 2; omega
      rw [h.last, if_neg (hb ▸ hnew)]
      refine List.all_eq_true.2 fun q hq => ?_
      have := hkey q hq
      have := hne q hq
      rw [newer_dist base (by omega) (by simp only [key] at *; omega), hpos]
      exact decide_eq_true (by simp only [key] at *; omega)
    · rename_i hf hm
      rw [hp.isFirst, decide_eq_true_eq] at hf
      rw [hp.marker, decide_eq_true_eq] at hm
      have h0 := dist_self base
      have h1 : dist base (base + .ofNat (n - 1)) = n - 1 := dist_add base (by omega)
      rw [h.first, h.last, Bool.and_eq_true]
      refine ⟨?_, ?_⟩
      · split
        · rfl
        · rename_i f he
          split at he
          · cases he
            rw [newer_dist base (by omega) (by omega), h0, hpos]
            exact decide_eq_true (by omega)
          · cases he
      · split
        · rfl
        · rename_i l he
          split at he
          · cases he
            rw [newer_dist base (by omega) (by omega), h1, hpos]
            exact decide_eq_true (by omega)
          · cases he

/-- The list with `p` in its place. -/
def placed (s : Info) (p : VCMPacket) (off size shift : Nat) : List Stored :=
  scanFront s.packets p.seqNum ++
    ⟨p, off, size⟩ :: (scanBack s.packets p.seqNum).map (Stored.shift shift)

/-- What inserting a packet of the frame does: nothing when its number is
already there, else it takes its place. -/
theorem insertPacket_cases (h : Tracked n base s) (hp : IsPacket n base i p)
    (hn : n ≤ kMaxPacketsInSession) (buf : Bytes) (mode : DecodeErrorMode) (d : FrameData) :
    (p.seqNum ∈ seqNums s ∧ (insertPacket s buf p mode d).2.1 = s) ∨
    (p.seqNum ∉ seqNums s ∧ ∃ t off m k b, s.track p = (true, t) ∧ p.data.length ≤ m ∧
      (insertPacket s buf p mode d).2.1 =
        { Info.updateCompleteSession { t with packets := placed s p off m k } with
          decodable := b }) := by
  have hn' : n ≤ 0x8000 := by simp only [kMaxPacketsInSession] at hn; omega
  have hpos := hp.pos hn'
  have hlt := hp.lt
  have hdup := h.isDuplicate_iff hn' p.seqNum (by omega)
  by_cases hm : p.seqNum ∈ seqNums s
  · refine Or.inl ⟨hm, ?_⟩
    unfold insertPacket
    rw [if_neg hp.media]
    split
    · rfl
    · rw [if_pos (hdup.2 hm)]
  · refine Or.inr ⟨hm, ?_⟩
    obtain ⟨t, ht, -⟩ := track_packet h hp hn' hm
    obtain ⟨off, m, k, hps, hsz⟩ := insertBuffer_packets buf (scanFront s.packets p.seqNum) p
      (scanBack s.packets p.seqNum)
    -- a full list would already hold every number of the frame
    have hfull : s.packets.length ≠ kMaxPacketsInSession := by
      intro hf
      obtain ⟨q, hq, hqi⟩ := keys_full h.order (h.key_lt hn') (by omega) i hlt
      exact hm ((mem_seqNums base).2 ⟨q, hq, hqi.trans hpos.symm⟩)
    obtain ⟨b, hb⟩ := updateDecodable_eq
      (Info.updateCompleteSession { t with packets := placed s p off m k }) mode d
    refine ⟨t, off, m, k, b, ht, hsz hp.stapA, ?_⟩
    unfold insertPacket
    rw [if_neg hp.media, if_neg hfull, if_neg (fun hd => hm (hdup.1 hd))]
    dsimp only
    rw [ht, if_pos rfl, hps]
    exact hb

theorem mem_placed {off size shift : Nat} {x : Stored} :
    x ∈ placed s p off size shift → x = ⟨p, off, size⟩ ∨
      ∃ q ∈ s.packets, x.pkt = q.pkt ∧ x.sizeBytes = q.sizeBytes := by
  intro hx
  have hsplit := scan_split s.packets p.seqNum
  rcases List.mem_append.1 hx with hx | hx
  · exact Or.inr ⟨x, by rw [← hsplit]; exact List.mem_append_left _ hx, rfl, rfl⟩
  · rcases List.mem_cons.1 hx with rfl | hx
    · exact Or.inl rfl
    · obtain ⟨q, hq, rfl⟩ := List.mem_map.1 hx
      exact Or.inr ⟨q, by rw [← hsplit]; exact List.mem_append_right _ hq, rfl, rfl⟩

theorem seqNums_placed {off size shift : Nat} (seq : UInt16) :
    seq ∈ (placed s p off size shift).map (fun q => q.pkt.seqNum) ↔
      seq ∈ seqNums s ∨ seq = p.seqNum := by
  have hsplit : seqNums s = (scanFront s.packets p.seqNum).map (fun q => q.pkt.seqNum) ++
      (scanBack s.packets p.seqNum).map (fun q => q.pkt.seqNum) := by
    rw [← List.map_append, scan_split, seqNums]
  have hshift : (fun q : Stored => q.pkt.seqNum) ∘ Stored.shift shift = fun q => q.pkt.seqNum := rfl
  rw [hsplit, placed, List.map_append, List.map_cons, List.map_map, hshift]
  simp only [List.mem_append, List.mem_cons]
  constructor
  · rintro (h | h | h)
    · exact Or.inl (Or.inl h)
    · exact Or.inr h
    · exact Or.inl (Or.inr h)
  · rintro ((h | h) | h)
    · exact Or.inl h
    · exact Or.inr (Or.inr h)
    · exact Or.inr (Or.inl h)

theorem order_placed (h : Tracked n base s) (hn : n ≤ 0x8000) (hp : IsPacket n base i p)
    (hnew : p.seqNum ∉ seqNums s) (off size shift : Nat) :
    (placed s p off size shift).Pairwise fun a b => key base a < key base b := by
  have hlt := hp.lt
  have hpos := hp.pos hn
  have hkey := h.key_lt hn
  obtain ⟨hfront, hback⟩ := scan_order (show dist base p.seqNum < 0x8000 by omega)
    (fun q hq => by have := hkey q hq; omega) (h.order.imp fun h => Nat.le_of_lt h)
  have hsplit := scan_split s.packets p.seqNum
  have ho := h.order
  rw [← hsplit] at ho
  obtain ⟨ho1, ho2, ho3⟩ := List.pairwise_append.1 ho
  have hlast : ∀ a ∈ scanFront s.packets p.seqNum, key base a < dist base p.seqNum := by
    intro a ha
    refine Nat.lt_of_le_of_ne (hfront a ha) fun he => ?_
    exact hnew ((mem_seqNums base).2 ⟨a, by rw [← hsplit]; exact List.mem_append_left _ ha, he⟩)
  refine List.pairwise_append.2 ⟨ho1, List.pairwise_cons.2 ⟨?_, List.pairwise_map.2 ho2⟩, ?_⟩
  · intro y hy
    obtain ⟨z, hz, rfl⟩ := List.mem_map.1 hy
    exact hback z hz
  · intro a ha y hy
    rcases List.mem_cons.1 hy with rfl | hy
    · exact hlast a ha
    · obtain ⟨z, hz, rfl⟩ := List.mem_map.1 hy
      exact ho3 a ha z hz

/-- A boundary is known exactly when its packet is in the list. -/
theorem boundary_placed {bit : Bool} {bound : UInt16} {known : Option UInt16} {seqs : List UInt16}
    (hb : bit = true ↔ p.seqNum = bound)
    (hk : known = if bound ∈ seqNums s then some bound else none)
    (hnew : ∀ seq, seq ∈ seqs ↔ seq ∈ seqNums s ∨ seq = p.seqNum) :
    (if bit then some p.seqNum else known) = if bound ∈ seqs then some bound else none := by
  by_cases h : bit = true
  · have he := hb.1 h
    rw [if_pos h, if_pos ((hnew bound).2 (Or.inr he.symm)), he]
  · rw [if_neg h, hk]
    congr 1
    rw [hnew bound, eq_iff_iff]
    exact ⟨Or.inl, fun hc => hc.elim id fun he => absurd (hb.2 he.symm) h⟩

theorem ite_eq_and {c a f : Bool} (h : c = false → f = false) :
    (if c then a else f) = (c && a) := by
  cases c with
  | true => rfl
  | false => exact h rfl

/-- One insertion: the invariant, and the number is in the list. -/
theorem tracked_step (h : Tracked n base s) (hp : IsPacket n base i p)
    (hn : n ≤ kMaxPacketsInSession) (buf : Bytes) (mode : DecodeErrorMode) (d : FrameData) :
    Tracked n base (insertPacket s buf p mode d).2.1 ∧
      ∀ seq, seq ∈ seqNums (insertPacket s buf p mode d).2.1 ↔
        seq ∈ seqNums s ∨ seq = p.seqNum := by
  have hn' : n ≤ 0x8000 := by simp only [kMaxPacketsInSession] at hn; omega
  have hlt := hp.lt
  rcases insertPacket_cases h hp hn buf mode d with ⟨hm, he⟩ | ⟨hm, t, off, m, k, b, ht, hsz, he⟩
  · rw [he]
    refine ⟨h, fun seq => ⟨Or.inl, ?_⟩⟩
    rintro (hs | rfl)
    · exact hs
    · exact hm
  · obtain ⟨t', ht', htp, htc, htf, htl⟩ := track_packet h hp hn' hm
    obtain rfl : t' = t := by rw [ht] at ht'; exact (Prod.mk.inj ht').2.symm
    have hmem : ∀ seq, seq ∈ seqNums (insertPacket s buf p mode d).2.1 ↔
        seq ∈ seqNums s ∨ seq = p.seqNum := by
      intro seq
      rw [he, updateCompleteSession_eq]
      exact seqNums_placed seq
    refine ⟨?_, hmem⟩
    rw [he, updateCompleteSession_eq]
    refine ⟨?_, order_placed h hn' hp hm off m k, ?_, ?_, ?_⟩
    · intro q hq
      rcases mem_placed hq with rfl | ⟨x, hx, hxp, hxs⟩
      · exact ⟨⟨i, hp⟩, Nat.lt_of_lt_of_le (List.length_pos_iff.2 hp.data) hsz⟩
      · rw [hxp, hxs]; exact h.packet x hx
    · refine htf.trans (boundary_placed ?_ h.first seqNums_placed)
      rw [hp.isFirst, decide_eq_true_eq, ← dist_inj base, hp.pos hn', dist_self]
    · refine htl.trans (boundary_placed ?_ h.last seqNums_placed)
      rw [hp.marker, decide_eq_true_eq, ← dist_inj base, hp.pos hn', dist_add base (by omega)]
      omega
    · refine ite_eq_and fun hc => ?_
      -- the boundaries known before are still known
      simp only [Info.haveFirstPacket, Info.haveLastPacket, htf, htl] at hc
      have hne : (!(placed s p off m k).isEmpty) = true := by simp [placed]
      rw [hne, Bool.true_and, Bool.true_and] at hc
      have hmono : ∀ (b : Bool) (x : UInt16) (o : Option UInt16), o.isSome = true →
          (if b then some x else o).isSome = true := by
        intro b x o ho
        split
        · rfl
        · exact ho
      rw [htc, h.complete, Bool.and_eq_false_iff]
      refine Or.inl (Bool.eq_false_iff.2 fun hboth => ?_)
      simp only [Info.haveFirstPacket, Info.haveLastPacket, Bool.and_eq_true] at hboth
      rw [hmono _ _ _ hboth.1.2, hmono _ _ _ hboth.2.2] at hc
      exact Bool.false_ne_true hc.symm

theorem asserts_step (h : Tracked n base s) (hp : IsPacket n base i p)
    (hn : n ≤ kMaxPacketsInSession) : assertsPass s p = true := by
  have hn' : n ≤ 0x8000 := by simp only [kMaxPacketsInSession] at hn; omega
  have hlt := hp.lt
  have hdup := h.isDuplicate_iff hn' p.seqNum (by rw [hp.pos hn']; exact hlt)
  unfold assertsPass
  by_cases hm : p.seqNum ∈ seqNums s
  · rw [hdup.2 hm, Bool.or_true, Bool.true_or]
  · rw [track_asserts h hp hn' hm, Bool.or_true]

/-- No assert fails in a run. -/
def assertsPassAll : Info → Bytes → List Arrival → Bool
  | _, _, [] => true
  | s, buf, a :: as =>
    let r := insertPacket s buf a.1 a.2.1 a.2.2
    assertsPass s a.1 && assertsPassAll r.2.1 r.2.2 as

theorem tracked_run (hn : n ≤ kMaxPacketsInSession) {as : List Arrival}
    (hm : ∀ a ∈ as, ∃ i, IsPacket n base i a.1) : ∀ {s : Info} (buf : Bytes), Tracked n base s →
    assertsPassAll s buf as = true ∧ Tracked n base (insertAll s buf as).2.1 ∧
      ∀ seq, seq ∈ seqNums (insertAll s buf as).2.1 ↔
        seq ∈ seqNums s ∨ ∃ a ∈ as, a.1.seqNum = seq := by
  induction as with
  | nil => intro s buf h; exact ⟨rfl, h, fun seq => by simp [insertAll]⟩
  | cons a as ih =>
    intro s buf h
    obtain ⟨i, hi⟩ := hm a (List.mem_cons_self ..)
    obtain ⟨h1, hs1⟩ := tracked_step h hi hn buf a.2.1 a.2.2
    obtain ⟨ha, h2, hs2⟩ := ih (fun b hb => hm b (List.mem_cons_of_mem _ hb))
      (insertPacket s buf a.1 a.2.1 a.2.2).2.2 h1
    refine ⟨?_, h2, fun seq => ?_⟩
    · rw [assertsPassAll, asserts_step h hi hn]
      exact ha
    · rw [insertAll, hs2 seq, hs1 seq, or_assoc, eq_comm]
      simp only [List.mem_cons, or_and_right, exists_or, exists_eq_left]

/-- The session is complete exactly when every number is in the list. -/
theorem Tracked.complete_iff_all (h : Tracked n base s) (hn : n ≤ 0x8000) (h0 : 0 < n) :
    s.complete = true ↔ ∀ i < n, base + .ofNat i ∈ seqNums s := by
  have hkey := h.key_lt hn
  have hmem : ∀ i < n, (base + .ofNat i ∈ seqNums s ↔ ∃ q ∈ s.packets, key base q = i) := by
    intro i hi
    rw [mem_seqNums base, dist_add base (by omega)]
  rw [h.complete]
  simp only [Bool.and_eq_true, Info.haveFirstPacket, Info.haveLastPacket]
  constructor
  · rintro ⟨⟨⟨-, hf⟩, -, hl⟩, hseq⟩ i hi
    rw [h.first] at hf
    rw [h.last] at hl
    have hf' : base ∈ seqNums s := by
      by_cases hc : base ∈ seqNums s
      · exact hc
      · rw [if_neg hc] at hf; cases hf
    have hl' : base + .ofNat (n - 1) ∈ seqNums s := by
      by_cases hc : base + .ofNat (n - 1) ∈ seqNums s
      · exact hc
      · rw [if_neg hc] at hl; cases hl
    obtain ⟨x, hx, hxk⟩ := (mem_seqNums base).1 hf'
    obtain ⟨y, hy, hyk⟩ := (hmem (n - 1) (by omega)).1 hl'
    rw [dist_self] at hxk
    rw [hmem i hi]
    cases hps : s.packets with
    | nil => rw [hps] at hx; exact absurd hx List.not_mem_nil
    | cons q ps =>
      have ho := h.order
      rw [hps] at hx hy hseq hkey ho
      -- the first packet is the one numbered `base`
      have hq : key base q = 0 := by
        rcases List.mem_cons.1 hx with rfl | hx
        · exact hxk
        · have := (List.pairwise_cons.1 ho).1 x hx
          omega
      exact inSequence_dense hseq (fun z hz => by have := hkey z hz; omega) i (by omega)
        ⟨y, hy, by omega⟩
  · intro hall
    have hne : (!s.packets.isEmpty) = true := by
      obtain ⟨q, hq, -⟩ := (hmem 0 h0).1 (hall 0 h0)
      cases hps : s.packets with
      | nil => rw [hps] at hq; exact absurd hq List.not_mem_nil
      | cons _ _ => rfl
    have hf : base ∈ seqNums s := by
      have := hall 0 h0
      simpa using this
    refine ⟨⟨⟨hne, ?_⟩, hne, ?_⟩, ?_⟩
    · rw [h.first, if_pos hf]; rfl
    · rw [h.last, if_pos (hall (n - 1) (by omega))]; rfl
    · refine inSequence_of_dense h.order hkey hn fun q _ k _ hk => ?_
      exact (hmem k hk).1 (hall k hk)

/-! ## Frames of the packetizers -/

/-- A video frame and the packetizer it goes through. -/
inductive VideoFrame where
  | generic (frameType : FrameType) (maxPayloadLen : Nat) (payload : Bytes)
  | vp8 (p : L1.Vp8.Packetizer)

namespace VideoFrame

/-- The packets with their last-packet flags. -/
def packetize : VideoFrame → List (Bytes × Bool)
  | .generic frameType maxLen payload => L1.Generic.packetize frameType maxLen payload
  | .vp8 p => L1.Vp8.packetize p

def parse : VideoFrame → Bytes → Option ParsedPayload
  | .generic _ _ _, b => some (L1.Generic.parse b)
  | .vp8 _, b => L1.Vp8.parse b

/-- What the packetizers take: a payload and room for one octet of it in a
packet. -/
def Valid : VideoFrame → Prop
  | .generic _ maxLen payload => 2 ≤ maxLen ∧ payload ≠ []
  | .vp8 p => p.Valid

/-- Packet `i` as received, if it can be depacketized; the marker is the
last-packet flag. -/
def received (f : VideoFrame) (timestamp : UInt32) (base : UInt16) (i : Nat) : Option VCMPacket :=
  match f.packetize[i]? with
  | none => none
  | some (b, last) => (f.parse b).map fun r => .ofParsed r timestamp (base + .ofNat i) last

end VideoFrame

theorem VideoFrame.packetize_ne_nil {f : VideoFrame} (hv : f.Valid) : f.packetize ≠ [] := by
  cases f with
  | generic t m b =>
    exact (L1.Generic.sendAll_spec _ _ (L1.Generic.payloadLength_pos hv.1 hv.2) hv.2
      (Nat.le_refl _)).1
  | vp8 p => exact (L1.Vp8.isFirst_packetize hv).1

theorem VideoFrame.isPacket {f : VideoFrame} (hv : f.Valid) {ts : UInt32} {base : UInt16} {i : Nat}
    {p : VCMPacket} (h : f.received ts base i = some p) :
    IsPacket f.packetize.length base i p := by
  unfold VideoFrame.received at h
  split at h
  · cases h
  rename_i b l hget
  have hi : i < f.packetize.length := (List.getElem?_eq_some_iff.1 hget).1
  obtain ⟨r, hr, rfl⟩ := Option.map_eq_some_iff.1 h
  cases f with
  | generic t m pl =>
    cases hr
    obtain ⟨h1, h2, h3⟩ := (L1.Generic.sendAll_spec _ _ (L1.Generic.payloadLength_pos hv.1 hv.2)
      hv.2 (Nat.le_refl _)).2 i b l hget
    refine ⟨hi, rfl, ?_, h2, ?_, h3, Or.inl rfl, rfl, rfl⟩
    · have hbit : ((L1.Generic.setPayloadData t m pl).genericHeader &&&
          L1.Generic.kFirstPacketBit != 0) = true := by
        simp only [L1.Generic.setPayloadData]; decide
      rw [hbit, Bool.and_true] at h1
      exact h1
    · show (if _ then FrameType.key else .delta) ≠ .empty
      split <;> simp
  | vp8 q =>
    obtain ⟨h2, h1⟩ := (L1.Vp8.isFirst_packetize hv).2 i b l hget
    obtain ⟨-, hd, ht, v, hc⟩ := L1.Vp8.parse_isFirst hr
    have hfirst := h1 r hr
    have : ∃ c, VCMPacket.ofParsed r ts (base + .ofNat i) l =
        { timestamp := ts, seqNum := base + .ofNat i, data := r.payload, markerBit := l
          frameType := r.frameType, codec := .vp8, isFirstPacket := r.video.isFirstPacket
          completeNALU := c, insertStartCode := false, codecSpecificHeader := r.video } := by
      simp only [VCMPacket.ofParsed, VCMPacket.ofRtp, hc]
      exact ⟨_, rfl⟩
    obtain ⟨c, hpk⟩ := this
    rw [hpk]
    refine ⟨hi, rfl, hfirst, h2, ht, hd, Or.inr rfl, ?_, rfl⟩
    simp only [VCMPacket.isStapA, hc]

/-- **Completeness is exact.** Packets of one frame, inserted in any order
and with any duplicates, trip no assert, and the session is complete exactly
when every packet of the frame is among them. -/
theorem complete_iff (f : VideoFrame) (hv : f.Valid)
    (hn : f.packetize.length ≤ kMaxPacketsInSession) (timestamp : UInt32) (base : UInt16)
    (buf : Bytes) (as : List Arrival)
    (has : ∀ a ∈ as, ∃ i, f.received timestamp base i = some a.1) :
    assertsPassAll {} buf as = true ∧
      ((insertAll {} buf as).2.1.complete = true ↔
        ∀ i < f.packetize.length, ∃ a ∈ as, f.received timestamp base i = some a.1) := by
  have hn' : f.packetize.length ≤ 0x8000 := by simp only [kMaxPacketsInSession] at hn; omega
  have h0 := List.length_pos_iff.2 (VideoFrame.packetize_ne_nil hv)
  have hempty : Tracked f.packetize.length base {} :=
    ⟨fun q hq => absurd hq List.not_mem_nil, List.Pairwise.nil, rfl, rfl, rfl⟩
  obtain ⟨ha, ht, hs⟩ := tracked_run hn (fun a ha => by
    obtain ⟨i, hi⟩ := has a ha
    exact ⟨i, VideoFrame.isPacket hv hi⟩) buf hempty
  refine ⟨ha, ?_⟩
  rw [ht.complete_iff_all hn' h0]
  have hiff : ∀ i < f.packetize.length, (base + .ofNat i ∈ seqNums (insertAll {} buf as).2.1 ↔
      ∃ a ∈ as, f.received timestamp base i = some a.1) := by
    intro i hi
    rw [hs]
    constructor
    · rintro (h | ⟨a, ha, he⟩)
      · exact absurd h List.not_mem_nil
      · obtain ⟨j, hj⟩ := has a ha
        have hp := VideoFrame.isPacket hv hj
        -- equal numbers inside the frame are equal positions
        have hij : i = j := by
          rw [← hp.pos hn', he, dist_add base (by omega)]
        exact ⟨a, ha, hij ▸ hj⟩
    · rintro ⟨a, ha, he⟩
      exact Or.inr ⟨a, ha, (VideoFrame.isPacket hv he).seqNum⟩
  exact forall_congr' fun i => forall_congr' fun hi => hiff i hi

/-- Three generic packets across the wrap, the middle one last. -/
theorem complete_iff_reordered :
    let f := VideoFrame.generic .key 3 [1, 2, 3, 4, 5]
    let arrivals (is : List Nat) : List Arrival := is.filterMap fun i =>
      (f.received 9 65535 i).map fun p => (p, .noErrors, ⟨0, 0⟩)
    f.packetize.length = 3 ∧ assertsPassAll {} [] (arrivals [2, 0, 2, 1]) = true ∧
      (insertAll {} [] (arrivals [2, 0, 2, 1])).2.1.complete = true ∧
      (insertAll {} [] (arrivals [2, 0, 2])).2.1.complete = false := by
  intro f arrivals
  have hmem : ∀ is, ∀ a ∈ arrivals is, ∃ i ∈ is, f.received 9 65535 i = some a.1 := by
    intro is a ha
    obtain ⟨i, hi, he⟩ := List.mem_filterMap.1 ha
    obtain ⟨p, hp, rfl⟩ := Option.map_eq_some_iff.1 he
    exact ⟨i, hi, hp⟩
  have h : ∀ is, _ := fun is => complete_iff f ⟨by decide, by decide⟩ (by decide) 9 65535 []
    (arrivals is) fun a ha => by
      obtain ⟨i, -, hi⟩ := hmem is a ha
      exact ⟨i, hi⟩
  refine ⟨by decide, (h _).1, (h _).2.2 fun i hi => ?_, Bool.eq_false_iff.2 fun hc => ?_⟩
  · have hall : ∀ i < 3, i ∈ [2, 0, 2, 1] ∧ (f.received 9 65535 i).isSome = true := by decide
    obtain ⟨hin, hsome⟩ := hall i hi
    obtain ⟨p, hp⟩ := Option.isSome_iff_exists.1 hsome
    exact ⟨(p, .noErrors, ⟨0, 0⟩), List.mem_filterMap.2 ⟨i, hin, by rw [hp]; rfl⟩, hp⟩
  · obtain ⟨a, ha, he⟩ := (h _).2.1 hc 1 (by decide)
    obtain ⟨j, hj, hje⟩ := hmem _ a ha
    have hne : ∀ j ∈ [2, 0, 2], f.received 9 65535 1 ≠ f.received 9 65535 j := by decide
    exact hne j hj (he.trans hje.symm)

end RtcCore.L3.Session
