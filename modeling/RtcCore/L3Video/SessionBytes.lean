import RtcCore.L3Video.Session

/-!
# The octets of an assembled frame

Whatever order a frame's packets arrive in, the frame buffer ends up holding
their expanded payloads in sequence-number order. The invariant `Laid` says
that the packet list is ordered, that each packet's octets stand where its
`dataPtr` points, one after the other from the start of the buffer, and that
each `sizeBytes` is the size of the expanded payload.

Results:
* `assembled_bytes`: after every accepted run that inserts the packets of a
  frame, the list is in order, `SessionLength` is the sum of the expanded
  sizes and the buffer starts with the expanded payloads in order.
-/
namespace RtcCore.L3.Session

open Bytes Serial L1.H264

/-! ## Writes -/

theorem writeAt_length {buf src : Bytes} {off : Nat} (h : off + src.length ≤ buf.length) :
    (writeAt buf off src).length = buf.length := by
  simp only [writeAt, List.length_append, List.length_take, List.length_drop]
  omega

theorem writeAt_append {buf a b : Bytes} {off : Nat} (h : off ≤ buf.length) :
    writeAt (writeAt buf off a) (off + a.length) b = writeAt buf off (a ++ b) := by
  have hl : (buf.take off ++ a).length = off + a.length := by
    rw [List.length_append, List.length_take, Nat.min_eq_left h]
  simp only [writeAt]
  rw [← hl, List.take_left, List.drop_append, hl]
  simp only [List.drop_eq_nil_of_le (show (buf.take off ++ a).length ≤ off + a.length + b.length by
    omega), List.nil_append, List.drop_drop, List.append_assoc, List.length_append]
  congr 4
  omega

theorem writeAt_nil {buf : Bytes} {off : Nat} : writeAt buf off [] = buf := by
  simp [writeAt]

/-- A unit as it stands in the frame buffer. -/
def unit (sc : Bool) (u : Bytes) : Bytes := (if sc then startCode else []) ++ u

/-- A packet's expanded payload. -/
def expanded (p : VCMPacket) : Bytes :=
  if p.isStapA then (splitStapA p.data).flatMap (unit p.insertStartCode)
  else unit p.insertStartCode p.data

theorem insert_eq {buf : Bytes} {off : Nat} (h : off ≤ buf.length) (u : Bytes) (sc : Bool) :
    insert u sc buf off = (writeAt buf off (unit sc u), (unit sc u).length) := by
  cases sc with
  | false => simp [insert, unit]
  | true =>
    have := writeAt_append (a := startCode) (b := u) h
    simp only [insert, unit, if_true, List.length_append]
    exact Prod.ext this (Nat.add_comm ..)

theorem writeAt_le {buf src : Bytes} {off : Nat} (h : off ≤ buf.length) :
    off + src.length ≤ (writeAt buf off src).length := by
  simp only [writeAt, List.length_append, List.length_take, List.length_drop]
  omega

theorem stapInsert_eq (data : Bytes) (sc : Bool) : ∀ (fuel ptr : Nat) (buf : Bytes) (off : Nat),
    off ≤ buf.length →
    stapInsert data sc fuel ptr buf off =
      writeAt buf off ((splitStapAFrom data fuel ptr).flatMap (unit sc)) := by
  intro fuel
  induction fuel with
  | zero => intro ptr buf off _; simp [stapInsert, splitStapAFrom, writeAt_nil]
  | succ fuel ih =>
    intro ptr buf off h
    simp only [stapInsert, splitStapAFrom, kLengthFieldSize]
    split
    · rw [insert_eq h, ih _ _ _ (writeAt_le h), writeAt_append h, List.flatMap_cons]
    · rw [List.flatMap_nil, writeAt_nil]

/-- A STAP-A payload: a header octet and length-prefixed units. -/
def StapAWellFormed (data : Bytes) : Prop :=
  ∃ (h : UInt8) (us : List Bytes),
    (∀ u ∈ us, u.length < 65536) ∧ data = h :: us.flatMap lengthPrefixed

theorem stapRequired_units (sc : Bool) : ∀ (us : List Bytes) (pre : Bytes) (fuel : Nat),
    (∀ u ∈ us, u.length < 65536) → us.length ≤ fuel →
    stapRequiredLength (pre ++ us.flatMap lengthPrefixed) sc fuel pre.length =
      (us.flatMap (unit sc)).length := by
  intro us
  induction us with
  | nil => intro pre fuel _ _; cases fuel <;> simp [stapRequiredLength]
  | cons u us ih =>
    intro pre fuel hb hf
    obtain ⟨n, rfl⟩ : ∃ n, fuel = n + 1 := ⟨fuel - 1, by simp at hf; omega⟩
    obtain ⟨hne, hrd, -⟩ :=
      lengthPrefixed_read pre u (us.flatMap lengthPrefixed) (hb u (List.mem_cons_self ..))
    have el : pre.length + 2 + u.length = (pre ++ lengthPrefixed u).length := by
      simp [lengthPrefixed, be16]; omega
    have hrest := ih (pre ++ lengthPrefixed u) n (fun g hg => hb g (List.mem_cons_of_mem _ hg))
      (by simp at hf; omega)
    have hunit : (unit sc u).length = u.length + if sc = true then 4 else 0 := by
      cases sc <;> simp [unit, startCode]
    rw [List.flatMap_cons, stapRequiredLength, if_pos hne, hrd, el, ← List.append_assoc, hrest,
      List.flatMap_cons, List.length_append, hunit]
    rfl

theorem stapRequired_eq {data : Bytes} (h : StapAWellFormed data) (sc : Bool) :
    stapRequiredLength data sc data.length 1 = ((splitStapA data).flatMap (unit sc)).length := by
  obtain ⟨hd, us, hb, rfl⟩ := h
  have hl := length_le_lengthPrefixed us
  rw [splitStapA_units hd us hb]
  exact stapRequired_units sc us [hd] _ hb (by simp only [List.length_cons]; omega)

/-! ## The layout -/

/-- Each packet's octets follow the previous one's, from `off` on. -/
def LaidOut : Nat → List Stored → Prop
  | _, [] => True
  | off, q :: qs =>
    q.dataPtr = off ∧ q.sizeBytes = (expanded q.pkt).length ∧ LaidOut (off + q.sizeBytes) qs

/-- What the buffer holds for the packets. -/
def content (ps : List Stored) : Bytes := ps.flatMap fun q => expanded q.pkt

theorem content_append (ps qs : List Stored) : content (ps ++ qs) = content ps ++ content qs :=
  List.flatMap_append ..

theorem content_cons (q : Stored) (ps : List Stored) :
    content (q :: ps) = expanded q.pkt ++ content ps := List.flatMap_cons ..

theorem LaidOut.sizes {ps : List Stored} {off : Nat} (h : LaidOut off ps) :
    sizes ps = (content ps).length := by
  induction ps generalizing off with
  | nil => rfl
  | cons q ps ih =>
    obtain ⟨-, hs, hr⟩ := h
    have := ih hr
    simp only [Session.sizes, List.map_cons, List.sum_cons] at this ⊢
    rw [content_cons, List.length_append, hs, this]

theorem laidOut_append {ps qs : List Stored} {off : Nat} :
    LaidOut off (ps ++ qs) ↔ LaidOut off ps ∧ LaidOut (off + sizes ps) qs := by
  induction ps generalizing off with
  | nil => simp [LaidOut, sizes]
  | cons q ps ih =>
    simp only [List.cons_append, LaidOut, ih, sizes, List.map_cons, List.sum_cons]
    rw [Nat.add_assoc]
    constructor
    · rintro ⟨h1, h2, h3, h4⟩; exact ⟨⟨h1, h2, h3⟩, h4⟩
    · rintro ⟨⟨h1, h2, h3⟩, h4⟩; exact ⟨h1, h2, h3, h4⟩

/-- `q` moved by `k` octets. -/
def Stored.shift (k : Nat) (q : Stored) : Stored := { q with dataPtr := q.dataPtr + k }

theorem LaidOut.shift {ps : List Stored} {off : Nat} (h : LaidOut off ps) (k : Nat) :
    LaidOut (off + k) (ps.map (Stored.shift k)) := by
  induction ps generalizing off with
  | nil => trivial
  | cons q ps ih =>
    obtain ⟨hp, hs, hr⟩ := h
    refine ⟨by simp only [Stored.shift, hp], hs, ?_⟩
    have := ih hr
    rwa [Nat.add_right_comm] at this

theorem content_shift (ps : List Stored) (k : Nat) :
    content (ps.map (Stored.shift k)) = content ps := by
  rw [content, List.flatMap_map]; rfl

/-- The octets after the gap `[off, off + k)` once the packets behind it
have moved. -/
theorem shift_spec {buf front rest : Bytes} {back : List Stored} {k : Nat}
    (hl : LaidOut front.length back) (hb : buf = front ++ content back ++ rest)
    (hroom : front.length + k + (content back).length ≤ buf.length) :
    (shiftSubsequentPackets buf back k).2 = back.map (Stored.shift k) ∧
      (shiftSubsequentPackets buf back k).1.length = buf.length ∧
      (shiftSubsequentPackets buf back k).1.take front.length = front ∧
      ∃ rest', (shiftSubsequentPackets buf back k).1.drop (front.length + k) =
        content back ++ rest' := by
  cases back with
  | nil =>
    refine ⟨rfl, rfl, ?_, _, rfl⟩
    show buf.take front.length = front
    rw [hb, List.append_assoc, List.take_left]
  | cons q back =>
    have hsz := hl.sizes
    have hq : q.dataPtr = front.length := hl.1
    have hsl : slice buf front.length (content (q :: back)).length = content (q :: back) := by
      rw [hb]; exact slice_mid front _ rest
    have htake : (buf.take (front.length + k)).length = front.length + k := by
      rw [List.length_take]; omega
    simp only [shiftSubsequentPackets, hq, hsz, memmove, hsl]
    refine ⟨rfl, writeAt_length (by omega), ?_,
      buf.drop (front.length + k + (content (q :: back)).length), ?_⟩
    · rw [writeAt, List.append_assoc, List.take_append_of_le_length (by omega), List.take_take,
        Nat.min_eq_left (by omega), hb, List.append_assoc, List.take_left]
    · rw [writeAt, List.append_assoc, List.drop_append_of_le_length (by omega),
        List.drop_of_length_le (by omega), List.nil_append]

/-- The expanded payload lands between the packets before and after it. -/
theorem insertBuffer_spec {buf rest : Bytes} {front back : List Stored} {p : VCMPacket}
    (hw : p.isStapA = true → StapAWellFormed p.data) (hl : LaidOut 0 (front ++ back))
    (hb : buf = content front ++ content back ++ rest)
    (hroom : (content front).length + (expanded p).length + (content back).length ≤ buf.length) :
    let r := insertBuffer buf front p back
    let k := (expanded p).length
    r.2.1 = front ++ ⟨p, sizes front, k⟩ :: back.map (Stored.shift k) ∧ r.2.2 = k ∧
      LaidOut 0 r.2.1 ∧ r.1.length = buf.length ∧
      ∃ rest', r.1 = content front ++ expanded p ++ content back ++ rest' := by
  obtain ⟨hlf, hlb⟩ := laidOut_append.1 hl
  rw [Nat.zero_add] at hlb
  have hsz := hlf.sizes
  have hsh := shift_spec (k := (expanded p).length) (hsz ▸ hlb) hb hroom
  obtain ⟨hlist, hlen, htake, rest', hdrop⟩ := hsh
  -- both branches write `expanded p` over the gap
  have hr : insertBuffer buf front p back =
      (writeAt (shiftSubsequentPackets buf back (expanded p).length).1 (sizes front) (expanded p),
        front ++ ⟨p, sizes front, (expanded p).length⟩ ::
          (shiftSubsequentPackets buf back (expanded p).length).2, (expanded p).length) := by
    unfold insertBuffer
    have hoff : sizes front ≤
        (shiftSubsequentPackets buf back (expanded p).length).1.length := by omega
    split
    · rename_i hst
      have he : expanded p = (splitStapA p.data).flatMap (unit p.insertStartCode) := if_pos hst
      have hreq : stapRequiredLength p.data p.insertStartCode p.data.length 1 =
          (expanded p).length := by rw [he]; exact stapRequired_eq (hw hst) _
      simp only [hreq]
      rw [stapInsert_eq _ _ _ _ _ _ hoff]
      congr 2
      exact he.symm
    · rename_i hst
      have he : expanded p = unit p.insertStartCode p.data := if_neg hst
      have hstep : p.data.length + (if p.insertStartCode then kH264StartCodeLengthBytes else 0) =
          (expanded p).length := by
        rw [he]
        cases p.insertStartCode <;> simp [unit, startCode, kH264StartCodeLengthBytes]
      simp only [hstep, insert_eq hoff, ← he]
  simp only [hr, hlist]
  refine ⟨trivial, trivial, ?_, ?_, rest', ?_⟩
  · rw [laidOut_append, Nat.zero_add]
    exact ⟨hlf, rfl, rfl, hlb.shift _⟩
  · rw [writeAt_length (by omega), hlen]
  · rw [writeAt, hsz, htake, hdrop]
    simp only [List.append_assoc]

/-! ## Runs of insertions -/

/-- A packet with the mode and frame data it is inserted under. -/
abbrev Arrival := VCMPacket × DecodeErrorMode × FrameData

/-- The return values, session and buffer after inserting in order. -/
def insertAll : Info → Bytes → List Arrival → List Int × Info × Bytes
  | s, buf, [] => ([], s, buf)
  | s, buf, a :: as =>
    let r := insertPacket s buf a.1 a.2.1 a.2.2
    let t := insertAll r.2.1 r.2.2 as
    (r.1 :: t.1, t.2)

/-- Inserted, or recognised as a duplicate. -/
def Accepted (code : Int) : Prop := 0 ≤ code ∨ code = -2

instance (code : Int) : Decidable (Accepted code) :=
  inferInstanceAs (Decidable (0 ≤ code ∨ code = -2))

/-- What an accepted insertion of a media packet does. -/
theorem accepted_cases {s : Info} {buf : Bytes} {p : VCMPacket} {mode : DecodeErrorMode}
    {d : FrameData} (hm : p.frameType ≠ .empty)
    (ha : Accepted (insertPacket s buf p mode d).1) :
    (isDuplicate (scanFront s.packets p.seqNum) p.seqNum = true ∧
      (insertPacket s buf p mode d).2 = (s, buf)) ∨
    (isDuplicate (scanFront s.packets p.seqNum) p.seqNum = false ∧
      s.packets.length ≠ kMaxPacketsInSession ∧
      (insertPacket s buf p mode d).2.1.packets =
        (insertBuffer buf (scanFront s.packets p.seqNum) p (scanBack s.packets p.seqNum)).2.1 ∧
      (insertPacket s buf p mode d).2.2 =
        (insertBuffer buf (scanFront s.packets p.seqNum) p (scanBack s.packets p.seqNum)).1) := by
  unfold insertPacket at ha ⊢
  rw [if_neg hm] at ha ⊢
  split at ha
  · rcases ha with h | h <;> simp at h
  rename_i hfull
  rw [if_neg hfull]
  split at ha
  · rename_i hd
    rw [if_pos hd]
    exact Or.inl ⟨hd, rfl⟩
  · rename_i hd
    rw [if_neg hd]
    dsimp only at ha ⊢
    split at ha
    · rename_i ht
      rw [if_pos ht]
      refine Or.inr ⟨by simpa using hd, hfull, ?_, rfl⟩
      obtain ⟨b, hb⟩ := updateDecodable_eq (Info.updateCompleteSession { (s.track p).2 with
        packets := (insertBuffer buf (scanFront s.packets p.seqNum) p
          (scanBack s.packets p.seqNum)).2.1 }) mode d
      rw [hb, updateCompleteSession_eq]
    · rcases ha with h | h <;> simp at h

theorem duplicate_mem {ps : List Stored} {seq : UInt16}
    (h : isDuplicate (scanFront ps seq) seq = true) :
    ∃ q ∈ ps, q.pkt.seqNum = seq ∧ 0 < q.sizeBytes := by
  unfold isDuplicate at h
  split at h
  · simp at h
  · rename_i q hq
    simp only [Bool.and_eq_true, beq_iff_eq, decide_eq_true_eq] at h
    refine ⟨q, ?_, h⟩
    rw [← scan_split ps seq]
    exact List.mem_append_left _ (List.mem_of_getLast? hq)

theorem insertBuffer_packets (buf : Bytes) (front : List Stored) (p : VCMPacket)
    (back : List Stored) :
    ∃ off n k, (insertBuffer buf front p back).2.1 =
        front ++ ⟨p, off, n⟩ :: back.map (Stored.shift k) ∧
      (p.isStapA = false → p.data.length ≤ n) := by
  have hsh : ∀ k, (shiftSubsequentPackets buf back k).2 = back.map (Stored.shift k) := by
    intro k; cases back <;> rfl
  unfold insertBuffer
  dsimp only
  simp only [hsh]
  split
  · rename_i hst
    exact ⟨_, _, _, rfl, fun h => absurd (h.symm.trans hst) Bool.false_ne_true⟩
  · exact ⟨_, _, _, rfl, fun _ => Nat.le_add_right ..⟩

/-! ## At most `kMaxPacketsInSession` packets -/

/-- The numbers in the list. -/
def seqNums (s : Info) : List UInt16 := s.packets.map fun q => q.pkt.seqNum

theorem seqNums_step {s : Info} {buf : Bytes} {p : VCMPacket} {mode : DecodeErrorMode}
    {d : FrameData} (hm : p.frameType ≠ .empty)
    (ha : Accepted (insertPacket s buf p mode d).1)
    (hl : (seqNums s).length ≤ kMaxPacketsInSession) :
    (seqNums (insertPacket s buf p mode d).2.1).length ≤ kMaxPacketsInSession ∧
      ∀ q, q ∈ seqNums s ∨ q = p.seqNum → q ∈ seqNums (insertPacket s buf p mode d).2.1 := by
  rcases accepted_cases hm ha with ⟨hd, he⟩ | ⟨-, hfull, hps, -⟩
  · rw [he]
    refine ⟨hl, ?_⟩
    rintro q (hq | rfl)
    · exact hq
    · obtain ⟨x, hx, hs, -⟩ := duplicate_mem hd
      exact List.mem_map.2 ⟨x, hx, hs⟩
  · obtain ⟨off, n, k, he, -⟩ := insertBuffer_packets buf (scanFront s.packets p.seqNum) p
      (scanBack s.packets p.seqNum)
    have hn : seqNums (insertPacket s buf p mode d).2.1 =
        (scanFront s.packets p.seqNum).map (fun q => q.pkt.seqNum) ++
          p.seqNum :: (scanBack s.packets p.seqNum).map (fun q => q.pkt.seqNum) := by
      rw [seqNums, hps, he, List.map_append, List.map_cons, List.map_map]; rfl
    have ho : seqNums s = (scanFront s.packets p.seqNum).map (fun q => q.pkt.seqNum) ++
        (scanBack s.packets p.seqNum).map (fun q => q.pkt.seqNum) := by
      rw [← List.map_append, scan_split, seqNums]
    rw [hn]
    constructor
    · have : (seqNums s).length ≠ kMaxPacketsInSession := by rwa [seqNums, List.length_map]
      rw [ho] at hl this
      simp only [List.length_append, List.length_cons] at hl this ⊢
      omega
    · rintro q (hq | rfl)
      · rw [ho] at hq
        rcases List.mem_append.1 hq with hq | hq
        · exact List.mem_append_left _ hq
        · exact List.mem_append_right _ (List.mem_cons_of_mem _ hq)
      · exact List.mem_append_right _ (List.mem_cons_self ..)

theorem seqNums_run {as : List Arrival} (hm : ∀ a ∈ as, a.1.frameType ≠ .empty) :
    ∀ {s : Info} {buf : Bytes}, (∀ c ∈ (insertAll s buf as).1, Accepted c) →
    (seqNums s).length ≤ kMaxPacketsInSession →
    (seqNums (insertAll s buf as).2.1).length ≤ kMaxPacketsInSession ∧
      ∀ q, q ∈ seqNums s ∨ (∃ a ∈ as, a.1.seqNum = q) → q ∈ seqNums (insertAll s buf as).2.1 := by
  induction as with
  | nil =>
    intro s buf _ hl
    refine ⟨hl, ?_⟩
    rintro q (hq | ⟨a, ha, -⟩)
    · exact hq
    · exact absurd ha List.not_mem_nil
  | cons a as ih =>
    intro s buf hacc hl
    have h1 := seqNums_step (hm a (List.mem_cons_self ..)) (hacc _ (List.mem_cons_self ..)) hl
    obtain ⟨h2, h3⟩ := ih (fun b hb => hm b (List.mem_cons_of_mem _ hb))
      (fun c hc => hacc c (List.mem_cons_of_mem _ hc)) h1.1
    refine ⟨h2, ?_⟩
    rintro q (hq | ⟨b, hb, rfl⟩)
    · exact h3 q (Or.inl (h1.2 q (Or.inl hq)))
    · rcases List.mem_cons.1 hb with rfl | hb
      · exact h3 _ (Or.inl (h1.2 _ (Or.inr rfl)))
      · exact h3 _ (Or.inr ⟨b, hb, rfl⟩)

/-! ## The frame's octets -/

/-- In order, and a packet that occurs twice has no octets. -/
def Before (base : UInt16) (a b : Stored) : Prop :=
  key base a < key base b ∨ a.pkt = b.pkt ∧ expanded a.pkt = []

/-- A list of a frame's packets, in order, holds the octets of those frame
packets that are in it. -/
theorem content_eq {base : UInt16} : ∀ (ps : List Stored) (frame : List VCMPacket),
    frame.Pairwise (fun a b => dist base a.seqNum < dist base b.seqNum) →
    ps.Pairwise (Before base) → (∀ q ∈ ps, q.pkt ∈ frame) →
    content ps = (frame.filter fun p => decide (p ∈ ps.map Stored.pkt)).flatMap expanded := by
  intro ps
  induction ps with
  | nil => intro frame _ _ _; simp [content]
  | cons q ps ih =>
    intro frame hf hps hm
    obtain ⟨hq, hps'⟩ := List.pairwise_cons.1 hps
    rw [content_cons]
    by_cases hdup : q.pkt ∈ ps.map Stored.pkt
    · -- a second copy of `q` follows: it has no octets
      obtain ⟨x, hx, hxq⟩ := List.mem_map.1 hdup
      have hnil : expanded q.pkt = [] := by
        rcases hq x hx with h | h
        · simp [key, hxq] at h
        · exact h.2
      rw [hnil, List.nil_append, ih frame hf hps' fun y hy => hm y (List.mem_cons_of_mem _ hy)]
      congr 1
      refine List.filter_congr fun p _ => ?_
      simp only [List.map_cons, List.mem_cons, decide_eq_decide]
      constructor
      · exact Or.inr
      · rintro (rfl | h)
        · exact hdup
        · exact h
    · obtain ⟨F, G, rfl⟩ := List.append_of_mem (hm q (List.mem_cons_self ..))
      obtain ⟨-, hG, hFG⟩ := List.pairwise_append.1 hf
      obtain ⟨hqG, hG'⟩ := List.pairwise_cons.1 hG
      have hlt : ∀ y ∈ ps, key base q < key base y := by
        intro y hy
        rcases hq y hy with h | h
        · exact h
        · exact absurd (List.mem_map.2 ⟨y, hy, h.1.symm⟩) hdup
      -- the packets before `q` are not in the list, those of `ps` come after it
      have hF : ∀ p ∈ F, p ∉ (q :: ps).map Stored.pkt := by
        intro p hp hmem
        have hpq := hFG p hp q.pkt (List.mem_cons_self ..)
        rcases List.mem_cons.1 hmem with rfl | hmem
        · exact Nat.lt_irrefl _ hpq
        · obtain ⟨y, hy, rfl⟩ := List.mem_map.1 hmem
          have := hlt y hy
          simp only [key] at this
          omega
      have hpsG : ∀ y ∈ ps, y.pkt ∈ G := by
        intro y hy
        have hy' := hm y (List.mem_cons_of_mem _ hy)
        rcases List.mem_append.1 hy' with h | h
        · exact absurd (List.mem_map.2 ⟨y, List.mem_cons_of_mem _ hy, rfl⟩) (hF _ h)
        · rcases List.mem_cons.1 h with h | h
          · have := hlt y hy
            simp [key, h] at this
          · exact h
      have hnF : F.filter (fun p => decide (p ∈ (q :: ps).map Stored.pkt)) = [] :=
        List.filter_eq_nil_iff.2 fun p hp => by simpa using hF p hp
      rw [ih G hG' hps' hpsG, List.filter_append, hnF, List.nil_append,
        List.filter_cons_of_pos (by simp), List.flatMap_cons]
      congr 2
      refine List.filter_congr fun p hp => ?_
      have hne : p ≠ q.pkt := by
        rintro rfl
        exact Nat.lt_irrefl _ (hqG _ hp)
      simp [hne]

/-- The invariant of a run. -/
structure Assembled (base : UInt16) (frame : List VCMPacket) (len : Nat) (s : Info) (buf : Bytes) :
    Prop where
  laid : LaidOut 0 s.packets
  bytes : ∃ rest, buf = content s.packets ++ rest
  length : buf.length = len
  order : s.packets.Pairwise (Before base)
  mem : ∀ q ∈ s.packets, q.pkt ∈ frame

/-- The packets of one frame: numbers in order inside half the circle, media
packets, STAP-A payloads well formed, and room for all of them. -/
structure FrameOk (base : UInt16) (frame : List VCMPacket) (len : Nat) : Prop where
  order : frame.Pairwise fun a b => dist base a.seqNum < dist base b.seqNum
  window : ∀ p ∈ frame, dist base p.seqNum < 0x8000
  media : ∀ p ∈ frame, p.frameType ≠ .empty
  stapA : ∀ p ∈ frame, p.isStapA = true → StapAWellFormed p.data
  room : (frame.flatMap expanded).length ≤ len

theorem FrameOk.eq_of_seqNum {base : UInt16} {frame : List VCMPacket} {len : Nat}
    (h : FrameOk base frame len) {a b : VCMPacket} (ha : a ∈ frame) (hb : b ∈ frame)
    (he : a.seqNum = b.seqNum) : a = b := by
  have := h.order
  clear h
  induction frame with
  | nil => exact absurd ha List.not_mem_nil
  | cons f fs ih =>
    obtain ⟨h1, h2⟩ := List.pairwise_cons.1 this
    rcases List.mem_cons.1 ha with ha' | ha' <;> rcases List.mem_cons.1 hb with hb' | hb'
    · rw [ha', hb']
    · have := h1 b hb'; rw [← ha', he] at this; exact absurd this (Nat.lt_irrefl _)
    · have := h1 a ha'; rw [← hb', he] at this; exact absurd this (Nat.lt_irrefl _)
    · exact ih ha' hb' h2

theorem filter_flatMap_length (frame : List VCMPacket) (f : VCMPacket → Bool) :
    ((frame.filter f).flatMap expanded).length ≤ (frame.flatMap expanded).length := by
  induction frame with
  | nil => simp
  | cons p ps ih =>
    rw [List.filter_cons]
    split <;> simp only [List.flatMap_cons, List.length_append] <;> omega

/-- A packet put in its place keeps the order. -/
theorem order_insert {base : UInt16} {frame : List VCMPacket} {len k : Nat} {s : Info}
    {p : VCMPacket} {x : Stored} (hf : FrameOk base frame len) (hp : p ∈ frame) (hx : x.pkt = p)
    (ho : s.packets.Pairwise (Before base)) (hm : ∀ q ∈ s.packets, q.pkt ∈ frame)
    (hl : LaidOut 0 s.packets) (hd : isDuplicate (scanFront s.packets p.seqNum) p.seqNum = false) :
    (scanFront s.packets p.seqNum ++
      x :: (scanBack s.packets p.seqNum).map (Stored.shift k)).Pairwise (Before base) := by
  have hkx : key base x = dist base p.seqNum := by rw [key, hx]
  have hkey : ∀ q ∈ s.packets, key base q < 0x8000 := fun q hq => hf.window _ (hm q hq)
  have hle : s.packets.Pairwise fun a b => key base a ≤ key base b := ho.imp fun {a b} h => by
    rcases h with h | h
    · exact Nat.le_of_lt h
    · exact Nat.le_of_eq (by rw [key, key, h.1])
  obtain ⟨hfront, hback⟩ := scan_order (hf.window p hp) hkey hle
  have hsplit := scan_split s.packets p.seqNum
  rw [← hsplit] at ho hm hl
  obtain ⟨ho1, ho2, ho3⟩ := List.pairwise_append.1 ho
  -- an equal number among the earlier packets is the last one's, and that one is empty
  have hsame : ∀ q ∈ scanFront s.packets p.seqNum, Before base q x := by
    intro q hq
    rcases Nat.lt_or_eq_of_le (hfront q hq) with h | h
    · exact Or.inl (by rw [hkx]; exact h)
    · have hpkt : q.pkt = p :=
        hf.eq_of_seqNum (hm q (List.mem_append_left _ hq)) hp ((dist_inj base).1 h)
      refine Or.inr ⟨hpkt.trans hx.symm, ?_⟩
      cases hlast : (scanFront s.packets p.seqNum).getLast? with
      | none =>
        rw [List.getLast?_eq_none_iff] at hlast
        rw [hlast] at hq; exact absurd hq List.not_mem_nil
      | some l =>
        obtain ⟨init, hi⟩ := List.getLast?_eq_some_iff.1 hlast
        have hql : q = l ∨ Before base q l := by
          rw [hi] at hq ho1
          rcases List.mem_append.1 hq with hq | hq
          · exact Or.inr ((List.pairwise_append.1 ho1).2.2 q hq l (List.mem_singleton.2 rfl))
          · exact Or.inl (List.mem_singleton.1 hq)
        rcases hql with rfl | hb | hb
        · -- `q` is the last: the duplicate check saw it with size 0
          have hs0 : q.sizeBytes = 0 := by
            simp only [isDuplicate, hlast, hpkt, beq_self_eq_true, Bool.true_and,
              decide_eq_false_iff_not] at hd
            omega
          obtain ⟨hlf, -⟩ := laidOut_append.1 hl
          rw [hi] at hlf
          obtain ⟨-, -, hsz, -⟩ := laidOut_append.1 hlf
          exact List.eq_nil_of_length_eq_zero (by rw [← hsz, hs0])
        · have := hfront l (List.mem_of_getLast? hlast)
          omega
        · exact hb.2
  refine List.pairwise_append.2 ⟨ho1, List.pairwise_cons.2 ⟨?_, ?_⟩, ?_⟩
  · intro y hy
    obtain ⟨z, hz, rfl⟩ := List.mem_map.1 hy
    exact Or.inl (by rw [hkx]; exact hback z hz)
  · exact List.pairwise_map.2 ho2
  · intro a ha y hy
    rcases List.mem_cons.1 hy with rfl | hy
    · exact hsame a ha
    · obtain ⟨z, hz, rfl⟩ := List.mem_map.1 hy
      exact ho3 a ha z hz

/-- One accepted insertion. -/
theorem assembled_step {base : UInt16} {frame : List VCMPacket} {len : Nat} {s : Info} {buf : Bytes}
    {p : VCMPacket} {mode : DecodeErrorMode} {d : FrameData} (hf : FrameOk base frame len)
    (hp : p ∈ frame) (h : Assembled base frame len s buf)
    (ha : Accepted (insertPacket s buf p mode d).1) :
    Assembled base frame len (insertPacket s buf p mode d).2.1 (insertPacket s buf p mode d).2.2 := by
  rcases accepted_cases (hf.media p hp) ha with ⟨-, he⟩ | ⟨hd, -, hps, hbuf⟩
  · rw [he]; exact h
  · have hsplit := scan_split s.packets p.seqNum
    obtain ⟨rest, hb⟩ := h.bytes
    have hnew := order_insert (k := (expanded p).length)
      (x := ⟨p, sizes (scanFront s.packets p.seqNum), (expanded p).length⟩)
      hf hp rfl h.order h.mem h.laid hd
    have hmem : ∀ q ∈ scanFront s.packets p.seqNum ++
        ⟨p, sizes (scanFront s.packets p.seqNum), (expanded p).length⟩ ::
          (scanBack s.packets p.seqNum).map (Stored.shift (expanded p).length), q.pkt ∈ frame := by
      intro q hq
      have hm := h.mem
      rw [← hsplit] at hm
      rcases List.mem_append.1 hq with hq | hq
      · exact hm q (List.mem_append_left _ hq)
      · rcases List.mem_cons.1 hq with rfl | hq
        · exact hp
        · obtain ⟨z, hz, rfl⟩ := List.mem_map.1 hq
          exact hm z (List.mem_append_right _ hz)
    -- the octets of the new list fit, being those of some of the frame's packets
    have hroom := filter_flatMap_length frame fun x => decide (x ∈
      (scanFront s.packets p.seqNum ++
        ⟨p, sizes (scanFront s.packets p.seqNum), (expanded p).length⟩ ::
          (scanBack s.packets p.seqNum).map (Stored.shift (expanded p).length)).map Stored.pkt)
    rw [← content_eq _ _ hf.order hnew hmem, content_append, content_cons, content_shift] at hroom
    simp only [List.length_append] at hroom
    have hfit := hf.room
    have hlen := h.length
    have hl := h.laid
    rw [← hsplit] at hl hb
    rw [content_append] at hb
    obtain ⟨h1, -, h2, h3, h4⟩ := insertBuffer_spec (hf.stapA p hp) hl hb (by omega)
    rw [← hps] at h1 h2
    rw [← hbuf] at h3 h4
    obtain ⟨rest', h4⟩ := h4
    refine ⟨h2, ⟨rest', ?_⟩, h3.trans hlen, h1 ▸ hnew, h1 ▸ hmem⟩
    rw [h4, h1, content_append, content_cons, content_shift]
    simp only [List.append_assoc]

theorem assembled_run {base : UInt16} {frame : List VCMPacket} {len : Nat}
    (hf : FrameOk base frame len) {as : List Arrival} (hm : ∀ a ∈ as, a.1 ∈ frame) :
    ∀ {s : Info} {buf : Bytes}, (∀ c ∈ (insertAll s buf as).1, Accepted c) →
    Assembled base frame len s buf →
    Assembled base frame len (insertAll s buf as).2.1 (insertAll s buf as).2.2 := by
  induction as with
  | nil => intro s buf _ h; exact h
  | cons a as ih =>
    intro s buf hacc h
    exact ih (fun b hb => hm b (List.mem_cons_of_mem _ hb))
      (fun c hc => hacc c (List.mem_cons_of_mem _ hc))
      (assembled_step hf (hm a (List.mem_cons_self ..)) h (hacc _ (List.mem_cons_self ..)))

theorem frameOk_of_consecutive {base : UInt16} {frame : List VCMPacket} {len : Nat}
    (hn : frame.length ≤ 0x8000)
    (hseq : ∀ i (h : i < frame.length), frame[i].seqNum = base + .ofNat i)
    (hmedia : ∀ p ∈ frame, p.frameType ≠ .empty)
    (hstap : ∀ p ∈ frame, p.isStapA = true → StapAWellFormed p.data)
    (hroom : (frame.flatMap expanded).length ≤ len) : FrameOk base frame len where
  order := by
    refine List.pairwise_iff_getElem.2 fun i j hi hj hij => ?_
    rw [hseq i hi, hseq j hj, dist_add base (by omega), dist_add base (by omega)]
    exact hij
  window p hp := by
    obtain ⟨i, hi, rfl⟩ := List.getElem_of_mem hp
    rw [hseq i hi, dist_add base (by omega)]
    omega
  media := hmedia
  stapA := hstap
  room := hroom

/-- Acceptance bounds the frame: every one of its numbers is in the list. -/
theorem frame_length_le {base : UInt16} {frame : List VCMPacket} {as : List Arrival} {buf : Bytes}
    (hn : frame.length ≤ 65536)
    (hseq : ∀ i (h : i < frame.length), frame[i].seqNum = base + .ofNat i)
    (hmedia : ∀ p ∈ frame, p.frameType ≠ .empty) (hmem : ∀ p, p ∈ frame ↔ ∃ a ∈ as, a.1 = p)
    (hacc : ∀ c ∈ (insertAll {} buf as).1, Accepted c) : frame.length ≤ kMaxPacketsInSession := by
  obtain ⟨hlen, hall⟩ := seqNums_run (fun a ha => hmedia _ ((hmem _).2 ⟨a, ha, rfl⟩)) hacc
    (Nat.zero_le _)
  have hnd : (frame.map VCMPacket.seqNum).Nodup := by
    refine List.pairwise_map.2 (List.pairwise_iff_getElem.2 fun i j hi hj hij he => ?_)
    rw [hseq i hi, hseq j hj, ← dist_inj base, dist_add base (by omega),
      dist_add base (by omega)] at he
    omega
  have hsub : frame.map VCMPacket.seqNum ⊆ seqNums (insertAll {} buf as).2.1 := by
    intro q hq
    obtain ⟨p, hp, rfl⟩ := List.mem_map.1 hq
    obtain ⟨a, ha, rfl⟩ := (hmem p).1 hp
    exact hall _ (Or.inr ⟨a, ha, rfl⟩)
  have := hnd.length_le_of_subset hsub
  rw [List.length_map] at this
  omega

/-- **Arrival order does not matter.** A frame's packets, inserted in any
order and with any duplicates, every insertion accepted, leave the list in
sequence-number order, a session length that is the sum of the expanded
sizes, and a buffer that starts with the expanded payloads in order. -/
theorem assembled_bytes (base : UInt16) (frame : List VCMPacket) (buf : Bytes) (as : List Arrival)
    (hn : frame.length ≤ 65536)
    (hseq : ∀ i (h : i < frame.length), frame[i].seqNum = base + .ofNat i)
    (hmedia : ∀ p ∈ frame, p.frameType ≠ .empty)
    (hstap : ∀ p ∈ frame, p.isStapA = true → StapAWellFormed p.data)
    (hroom : (frame.map fun p => (expanded p).length).sum ≤ buf.length)
    (hmem : ∀ p, p ∈ frame ↔ ∃ a ∈ as, a.1 = p)
    (hacc : ∀ c ∈ (insertAll {} buf as).1, Accepted c) :
    let s := (insertAll {} buf as).2.1
    let out := (insertAll {} buf as).2.2
    (∀ p, p ∈ s.packets.map Stored.pkt ↔ p ∈ frame) ∧
    (s.packets.Pairwise fun a b => isNewerSequenceNumber a.pkt.seqNum b.pkt.seqNum = false) ∧
    s.sessionLength = (frame.map fun p => (expanded p).length).sum ∧
    out.take s.sessionLength = frame.flatMap expanded ∧ out.length = buf.length := by
  have hsum : (frame.map fun p => (expanded p).length).sum = (frame.flatMap expanded).length := by
    rw [List.length_flatMap]
  rw [hsum] at hroom ⊢
  have hle := frame_length_le hn hseq hmedia hmem hacc
  have hf := frameOk_of_consecutive (by simp only [kMaxPacketsInSession] at hle; omega) hseq hmedia
    hstap hroom
  have hasm : Assembled base frame buf.length (insertAll {} buf as).2.1 (insertAll {} buf as).2.2 :=
    assembled_run hf (fun a ha => (hmem _).2 ⟨a, ha, rfl⟩) hacc
      ⟨trivial, ⟨buf, rfl⟩, rfl, List.Pairwise.nil, fun q hq => absurd hq List.not_mem_nil⟩
  have hmem' : ∀ p, p ∈ (insertAll {} buf as).2.1.packets.map Stored.pkt ↔ p ∈ frame := by
    intro p
    constructor
    · intro hp
      obtain ⟨q, hq, rfl⟩ := List.mem_map.1 hp
      exact hasm.mem q hq
    · intro hp
      obtain ⟨a, ha, hap⟩ := (hmem p).1 hp
      obtain ⟨-, hall⟩ := seqNums_run (fun a ha => hmedia _ ((hmem _).2 ⟨a, ha, rfl⟩)) hacc
        (Nat.zero_le _)
      obtain ⟨q, hq, hqs⟩ := List.mem_map.1 (hall p.seqNum (Or.inr ⟨a, ha, by rw [hap]⟩))
      exact List.mem_map.2 ⟨q, hq, hf.eq_of_seqNum (hasm.mem q hq) hp hqs⟩
  have hcontent : content (insertAll {} buf as).2.1.packets = frame.flatMap expanded := by
    rw [content_eq _ _ hf.order hasm.order hasm.mem]
    congr 1
    exact List.filter_eq_self.2 fun p hp => by simpa using (hmem' p).2 hp
  have hlen : (insertAll {} buf as).2.1.sessionLength = (frame.flatMap expanded).length := by
    rw [Info.sessionLength, hasm.laid.sizes, hcontent]
  obtain ⟨rest, hb⟩ := hasm.bytes
  refine ⟨hmem', ?_, hlen, ?_, hasm.length⟩
  · refine hasm.order.imp_of_mem fun {a b} ha hb h => ?_
    rw [newer_dist base (hf.window _ (hasm.mem a ha)) (hf.window _ (hasm.mem b hb))]
    refine decide_eq_false ?_
    rcases h with h | h
    · simp only [key] at h; omega
    · rw [h.1]; omega
  · rw [hlen, hb, hcontent, List.take_left]

/-- A STAP-A of two NAL units and a fragment, across the wrap of the sequence
numbers, the fragment first and again at the end. -/
theorem assembled_bytes_stapA :
    let d : FrameData := ⟨0, 0⟩
    let p : VCMPacket := .ofRtp [0x78, 0, 2, 0x41, 9, 0, 1, 0x01] 7 65535 false .delta
      { isFirstPacket := true, codec := .h264 ⟨true, true⟩ }
    let q : VCMPacket := .ofRtp [5, 6] 7 0 true .delta
      { isFirstPacket := false, codec := .h264 ⟨false, false⟩ }
    let as : List Arrival := [(q, .noErrors, d), (p, .noErrors, d), (q, .noErrors, d)]
    (insertAll {} (List.replicate 16 0) as).2.2.take 13 =
      [0, 0, 0, 1, 0x41, 9, 0, 0, 0, 1, 0x01, 5, 6] := by
  intro d p q as
  obtain ⟨-, -, hlen, hbytes, -⟩ := assembled_bytes 65535 [p, q] (List.replicate 16 0) as (by decide)
    (fun i hi => by match i, hi with
      | 0, _ => rfl
      | 1, _ => rfl)
    (fun x hx => by
      rcases List.mem_cons.1 hx with rfl | hx
      · decide
      · rw [List.mem_singleton.1 hx]; decide)
    (fun x hx => by
      rcases List.mem_cons.1 hx with rfl | hx
      · exact fun _ => ⟨0x78, [[0x41, 9], [0x01]], by decide, by decide⟩
      · rw [List.mem_singleton.1 hx]; intro h; exact absurd h (by decide))
    (by decide) (fun x => by simp [as, or_comm, eq_comm]) (by decide)
  have h13 : ([p, q].map fun x => (expanded x).length).sum = 13 := by decide
  rw [hlen, h13] at hbytes
  rw [hbytes]
  decide

end RtcCore.L3.Session
