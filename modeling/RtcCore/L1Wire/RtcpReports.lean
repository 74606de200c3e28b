import RtcCore.L1Wire.RtcpReads

/-!
# Reports, source descriptions, goodbyes and application packets, parsed

`Onward rest items`: a parser on the top level with `rest` before it delivers
`items`. For every kind of packet, `Onward (block ++ rest) (items ++ is)`
follows from `Onward rest is`.
-/
namespace RtcCore.L1.Rtcp

open Bytes

namespace Parser

/-- From the top level on, with `rest` left, the items are delivered. -/
def Onward (rest : Bytes) (is : List Item) : Prop :=
  ∀ (p : Parser) (k : Nat), At p [] rest .topLevel k → Yields 1 p is

/-! ## Entering and leaving a block -/

theorem parse_createHeader {data tail : Bytes} {off length : Nat} {ic pt : UInt8}
    (hd : data.drop off = createHeader ic pt length ++ tail) (hic : ic.toNat ≤ 31)
    (hl : (length + 1) * 4 < 65536) :
    parseCommonHeader data off = some ⟨ic.toNat, pt, (length + 1) * 4⟩ := by
  have hs : slice data off 4 =
      [0x80 + ic, pt, UInt8.ofNat (length / 256), UInt8.ofNat length] := by
    unfold slice
    rw [hd]
    rfl
  have h0 : (0x80 + ic).toNat = 128 + ic.toNat := by
    rw [UInt8.toNat_add]
    show (128 + ic.toNat) % 256 = _
    omega
  have hlen : ((UInt8.ofNat (length / 256)).toNat * 256 + (UInt8.ofNat length).toNat + 1) * 4 % 65536
      = (length + 1) * 4 := by
    simp only [UInt8.toNat_ofNat']
    omega
  unfold parseCommonHeader
  rw [hs]
  dsimp only
  rw [hlen, h0, if_neg (by omega), if_neg (by omega), show (128 + ic.toNat) % 32 = ic.toNat by omega]

/-- The block at the pointer is entered, and its parser delivers. -/
theorem onward_block {body rest : Bytes} {is : List Item} {i : Item} {ic pt : UInt8} {n : Nat}
    (hic : ic.toNat ≤ 31) (hn : n = 4 + body.length) (hw : n % 4 = 0) (hmax : n < 65536)
    (hr : ∀ (q : Parser) (k : Nat),
      At q (createHeader ic pt (blockToHeaderLength n) ++ body) rest .topLevel k →
      Delivers (q.parseBlock ⟨ic.toNat, pt, n⟩) i fun q => Yields 4 q is) :
    Onward (createHeader ic pt (blockToHeaderLength n) ++ body ++ rest) (i :: is) := by
  intro p k h
  have hd := h.data
  have hl : (blockToHeaderLength n + 1) * 4 = n := by
    unfold blockToHeaderLength
    omega
  rw [List.nil_append, List.append_assoc] at hd
  refine h.block (parse_createHeader hd hic (by omega)) ?_ (fun q hq => ?_) fun q hq => hq
  · show (blockToHeaderLength n + 1) * 4 = _
    rw [hl, List.length_append, hn]
    rfl
  · rw [hl]
    exact hr q k hq

/-- Behind the header. -/
theorem At.skipHeader {p : Parser} {body rest : Bytes} {s : ParseState} {k length : Nat}
    {ic pt : UInt8} (h : At p (createHeader ic pt length ++ body) rest s k) :
    At (p.skip 4) body rest s k := h.skip

section Leave

variable {p : Parser} {rest : Bytes} {s : ParseState} {k : Nat} {is : List Item}

/-- At its end a block is left, in most states at once. -/
theorem At.parseItem_end (h : At p [] rest s k)
    (hs : s ≠ .topLevel ∧ s ≠ .sdesChunk ∧ s ≠ .xrDlrrItem) :
    Passes p.parseItem fun q => At q [] rest .topLevel k := by
  have hl : p.length = 0 := h.length
  have hleave := h.leave
  unfold parseItem
  rw [h.state]
  obtain ⟨h1, h2, h3⟩ := hs
  cases s with
  | topLevel => exact absurd rfl h1
  | sdesChunk => exact absurd rfl h2
  | xrDlrrItem => exact absurd rfl h3
  | reportBlockItem => unfold parseReportBlockItem; rw [if_pos (by omega)]; exact hleave
  | byeItem => unfold parseBYEItem; dsimp only; rw [if_pos (by omega)]; exact hleave
  | extendedJitterItem => unfold parseIJItem; rw [if_pos (by omega)]; exact hleave
  | nackItem => unfold parseNACKItem; rw [if_pos (by omega)]; exact hleave
  | tmmbrItem => unfold parseTMMBRItem parseTMMBItem; rw [if_pos (by omega)]; exact hleave
  | tmmbnItem => unfold parseTMMBNItem parseTMMBItem; rw [if_pos (by omega)]; exact hleave
  | sliItem => unfold parseSLIItem; rw [if_pos (by omega)]; exact hleave
  | rpsiItem => unfold parseRPSIItem; dsimp only; rw [if_pos (by omega)]; exact hleave
  | firItem => unfold parseFIRItem; rw [if_pos (by omega)]; exact hleave
  | psfbAppItem => unfold parsePsfbAppItem; rw [if_pos (by omega)]; exact hleave
  | psfbRembItem => unfold parsePsfbREMBItem; rw [if_pos (by omega)]; exact hleave
  | xrItem => unfold parseXrItem; rw [if_pos (by omega)]; exact hleave
  | appItem => unfold parseAPPItem; rw [if_pos (by omega)]; exact hleave

theorem At.ends (h : At p [] rest s k) (hs : s ≠ .topLevel ∧ s ≠ .sdesChunk ∧ s ≠ .xrDlrrItem)
    (hk : Onward rest is) : Yields 2 p is :=
  h.again hs.1 (h.reset.parseItem_end hs) fun _ hq => hk _ _ hq

end Leave

/-! ## The switch on the packet type -/

section Switch

variable {p : Parser} {inner rest : Bytes} {s : ParseState} {k ic n : Nat} {i : Item}
  {Q : Parser → Prop}

theorem Delivers.report {m : Option (Bool × Parser)} (h : Delivers m i Q) :
    Delivers (m.map fun r => (true, r.2)) i Q := by
  obtain ⟨r, rfl, -, hp, hQ⟩ := h
  exact .some ⟨rfl, hp, hQ⟩

theorem At.blockSR (h : At p inner rest s k)
    (hr : ∀ q, At q inner rest s ic → Delivers q.parseSR i Q) :
    Delivers (p.parseBlock ⟨ic, PT_SR, n⟩) i Q := (hr _ (h.setBlocks ic)).report

theorem At.blockRR (h : At p inner rest s k)
    (hr : ∀ q, At q inner rest s ic → Delivers q.parseRR i Q) :
    Delivers (p.parseBlock ⟨ic, PT_RR, n⟩) i Q := (hr _ (h.setBlocks ic)).report

theorem At.blockIJ (h : At p inner rest s k)
    (hr : ∀ q, At q inner rest s ic → Delivers q.parseIJ i Q) :
    Delivers (p.parseBlock ⟨ic, PT_IJ, n⟩) i Q := (hr _ (h.setBlocks ic)).report

theorem At.blockSDES (h : At p inner rest s k)
    (hr : ∀ q, At q inner rest s ic → Delivers q.parseSDES i Q) :
    Delivers (p.parseBlock ⟨ic, PT_SDES, n⟩) i Q := hr _ (h.setBlocks ic)

theorem At.blockBYE (h : At p inner rest s k)
    (hr : ∀ q, At q inner rest s ic → Delivers q.parseBYE i Q) :
    Delivers (p.parseBlock ⟨ic, PT_BYE, n⟩) i Q := hr _ (h.setBlocks ic)

end Switch

/-! ## Reports -/

section Reports

variable {p : Parser} {inner rest : Bytes} {k : Nat} {is : List Item}

theorem createReportBlock_length (b : ReportBlockItem) : (createReportBlock b).length = 24 := rfl

theorem parse_createReportBlock {b : ReportBlockItem}
    (h : At p (createReportBlock b ++ inner) rest .reportBlockItem (k + 1)) :
    Delivers p.parseItem (.reportBlock b.onWire) fun q => At q inner rest .reportBlockItem k := by
  have hl := h.length
  rw [List.length_append, createReportBlock_length] at hl
  have hb := h.blocks
  unfold createReportBlock at h
  simp only [List.append_assoc] at h
  unfold parseItem
  rw [h.state]
  show Delivers p.parseReportBlockItem _ _
  unfold parseReportBlockItem
  rw [if_neg (by omega)]
  refine h.u32 fun q h => ?_
  refine h.u8 fun q h => ?_
  refine h.u24 fun q h => ?_
  refine h.u32 fun q h => ?_
  refine h.u32 fun q h => ?_
  refine h.u32 fun q h => ?_
  refine h.u32 fun q h => ?_
  exact h.deliverCounted _

/-- The report blocks of a report. -/
theorem reportBlocks_yields (bs : List ReportBlockItem) (hk : Onward rest is)
    (h : At p (bs.flatMap createReportBlock) rest .reportBlockItem bs.length) :
    Yields 4 p (bs.map (fun b => Item.reportBlock b.onWire) ++ is) := by
  have hitems : At p (bs.flatMap createReportBlock ++ []) rest .reportBlockItem (0 + bs.length * 1) := by
    rw [List.append_nil, Nat.mul_one, Nat.zero_add]
    exact h
  refine yields_items (by simp) bs (fun b _ _ _ _ hq => parse_createReportBlock hq)
    (fun q hq => ?_) hitems
  exact (hq.ends (by simp) hk).mono (by omega)

theorem flatMap_length {α : Type} {enc : α → Bytes} {n : Nat} (h : ∀ a, (enc a).length = n)
    (xs : List α) : (xs.flatMap enc).length = xs.length * n := by
  induction xs with
  | nil => simp
  | cons x xs ih =>
    rw [List.flatMap_cons, List.length_append, h, ih, List.length_cons, Nat.succ_mul]
    omega

/-- A count below 32 in the header. -/
theorem toNat_count {n : Nat} (h : n ≤ 31) : (UInt8.ofNat n).toNat = n := by
  rw [UInt8.toNat_ofNat']
  omega

theorem SenderReport.onward (r : SenderReport) (hk : Onward rest is) :
    Onward (r.block ++ rest) ((Packet.senderReport r).items ++ is) := by
  have hc : r.reportBlocks.list.length ≤ 31 := r.reportBlocks.bound
  have hflat := flatMap_length createReportBlock_length r.reportBlocks.list
  have hn : r.blockLength = 28 + r.reportBlocks.list.length * 24 := rfl
  refine onward_block ?_ ?_ (by omega) (by omega) fun q k h => ?_
  · rw [toNat_count hc]
    exact hc
  · simp only [List.length_append, hflat, assignUWord32_length]
    omega
  rw [toNat_count hc]
  refine h.blockSR fun q h => ?_
  have hl := h.length
  simp only [List.length_append, hflat, assignUWord32_length, createHeader_length] at hl
  unfold parseSR
  rw [if_neg (by omega)]
  replace h := h.skipHeader
  simp only [List.append_assoc] at h
  refine h.u32 fun q h => ?_
  refine h.u32 fun q h => ?_
  refine h.u32 fun q h => ?_
  refine h.u32 fun q h => ?_
  refine h.u32 fun q h => ?_
  refine h.u32 fun q h => ?_
  dsimp only
  rw [h.blocks]
  split
  · exact (h.deliver _ _).mono fun q hq => reportBlocks_yields _ hk hq
  · rename_i hz
    have hnil : r.reportBlocks.list = [] := List.length_eq_zero_iff.1 (Decidable.not_not.1 hz)
    show Delivers _ _ fun q => Yields 4 q _
    refine (h.endCurrentBlock.deliver _ _).mono fun q hq => ?_
    rw [hnil]
    exact (hk q _ hq).mono (by omega)

theorem ReceiverReport.onward (r : ReceiverReport) (hk : Onward rest is) :
    Onward (r.block ++ rest) ((Packet.receiverReport r).items ++ is) := by
  have hc : r.reportBlocks.list.length ≤ 31 := r.reportBlocks.bound
  have hflat := flatMap_length createReportBlock_length r.reportBlocks.list
  have hn : r.blockLength = 8 + r.reportBlocks.list.length * 24 := rfl
  refine onward_block ?_ ?_ (by omega) (by omega) fun q k h => ?_
  · rw [toNat_count hc]
    exact hc
  · simp only [List.length_append, hflat, assignUWord32_length]
    omega
  rw [toNat_count hc]
  refine h.blockRR fun q h => ?_
  have hl := h.length
  simp only [List.length_append, hflat, assignUWord32_length, createHeader_length] at hl
  unfold parseRR
  rw [if_neg (by omega)]
  refine h.skipHeader.u32 fun q h => ?_
  dsimp only
  rw [h.blocks]
  exact (h.deliver _ _).mono fun q hq => reportBlocks_yields _ hk hq

theorem parse_ijItem {v : UInt32}
    (h : At p (assignUWord32 v ++ inner) rest .extendedJitterItem (k + 1)) :
    Delivers p.parseItem (.extendedIjItem v) fun q => At q inner rest .extendedJitterItem k := by
  have hl := h.length
  rw [List.length_append, assignUWord32_length] at hl
  have hb := h.blocks
  unfold parseItem
  rw [h.state]
  show Delivers p.parseIJItem _ _
  unfold parseIJItem
  rw [if_neg (by omega)]
  refine h.u32 fun q h => ?_
  exact h.deliverCounted _

theorem Ij.onward (j : Ij) (hk : Onward rest is) :
    Onward (j.block ++ rest) ((Packet.ij j).items ++ is) := by
  have hc : j.ijItems.list.length ≤ 31 := j.ijItems.bound
  have hflat := flatMap_length assignUWord32_length j.ijItems.list
  have hw : j.block = createHeader (UInt8.ofNat j.ijItems.list.length) PT_IJ
      (blockToHeaderLength (4 + j.ijItems.list.length * 4)) ++
        j.ijItems.list.flatMap assignUWord32 := by
    rw [Ij.block, show blockToHeaderLength (4 + j.ijItems.list.length * 4) = j.ijItems.list.length by
      unfold blockToHeaderLength
      omega]
  rw [hw]
  refine onward_block ?_ ?_ (by omega) (by omega) fun q k h => ?_
  · rw [toNat_count hc]
    exact hc
  · rw [hflat]
  rw [toNat_count hc]
  refine h.blockIJ fun q h => ?_
  have hl := h.length
  rw [List.length_append, hflat, createHeader_length] at hl
  unfold parseIJ
  rw [if_neg (by omega)]
  refine (h.skipHeader.deliver _ _).mono fun q hq => ?_
  have hitems : At q (j.ijItems.list.flatMap assignUWord32 ++ []) rest .extendedJitterItem
      (0 + j.ijItems.list.length * 1) := by
    rw [List.append_nil, Nat.mul_one, Nat.zero_add]
    exact hq
  refine yields_items (by simp) _ (fun v _ _ _ _ hq => parse_ijItem hq) (fun q hq => ?_) hitems
  exact (hq.ends (by simp) hk).mono (by omega)

end Reports

/-! ## Source descriptions -/

section Sdes

variable {p : Parser} {inner rest : Bytes} {s : ParseState} {k : Nat} {is : List Item}

theorem createChunk_length (c : Chunk) :
    (createChunk c).length = 6 + c.name.length + c.nullOctets := by
  simp [createChunk]
  omega

theorem createChunk_append (c : Chunk) (inner : Bytes) :
    createChunk c ++ inner = assignUWord32 c.ssrc ++ (assignUWord8 1 ++
      (assignUWord8 (UInt8.ofNat c.name.length) ++ (c.name ++
        (List.replicate c.nullOctets 0 ++ inner)))) := by
  unfold createChunk
  simp only [List.append_assoc]

theorem nullOctets_bounds (c : Chunk) :
    1 ≤ c.nullOctets ∧ c.nullOctets ≤ 4 ∧ (2 + c.name.length + c.nullOctets) % 4 = 0 := by
  unfold Chunk.nullOctets
  omega

/-- The items of a chunk: the name is found, and the null octets are its end. -/
theorem parse_chunkItems {c : Chunk} {fuel : Nat} (hl : c.legal = true)
    (h : At p (assignUWord8 1 ++ (assignUWord8 (UInt8.ofNat c.name.length) ++ (c.name ++
      (List.replicate c.nullOctets 0 ++ inner)))) rest s k) :
    Returns (parseSDESItem (fuel + 2) 0 none p) fun r => r.1 = some c.name ∧ At r.2 inner rest s k := by
  have hnull := nullOctets_bounds c
  have hname : (UInt8.ofNat c.name.length).toNat = c.name.length := by
    have := c.short
    rw [UInt8.toNat_ofNat']
    omega
  have hlegal : c.name.any illegal = false := by simpa [Chunk.legal] using hl
  -- the first null octet is the end tag
  obtain ⟨m, hm⟩ : ∃ m, c.nullOctets = m + 1 := ⟨c.nullOctets - 1, by omega⟩
  have hpad : padding (0 + 2 + c.name.length + 1) = m := by
    unfold padding
    omega
  rw [hm, List.replicate_succ, List.cons_append] at h
  have h1 := h.blockEnd
  simp only [List.length_append, assignUWord8_length, List.length_cons] at h1
  unfold parseSDESItem
  rw [if_neg (by omega)]
  refine h.u8 fun q h => ?_
  have h2 := h.blockEnd
  simp only [List.length_append, assignUWord8_length, List.length_cons] at h2
  dsimp only
  rw [if_neg (by decide), if_neg (by omega)]
  refine h.u8 fun q h => ?_
  have h3 := h.blockEnd
  simp only [List.length_append, List.length_cons] at h3
  dsimp only
  rw [if_pos rfl, hname, if_neg (by omega)]
  refine h.read rfl fun q h => ?_
  have h4 := h.blockEnd
  simp only [List.length_append, List.length_cons] at h4
  dsimp only
  rw [if_neg (by simp [hlegal])]
  unfold parseSDESItem
  rw [if_neg (by omega)]
  refine (show At q (assignUWord8 0 ++ (List.replicate m 0 ++ inner)) rest s k from h).u8
    fun q h => ?_
  dsimp only
  rw [if_pos rfl, hpad]
  refine .some ⟨rfl, ?_⟩
  have := h.skip
  rwa [List.length_replicate] at this

/-- A name with a character the parser does not accept ends the block. -/
theorem parse_chunkIllegal {c : Chunk} {fuel : Nat} (hl : c.legal = false)
    (h : At p (assignUWord8 1 ++ (assignUWord8 (UInt8.ofNat c.name.length) ++ (c.name ++
      (List.replicate c.nullOctets 0 ++ inner)))) rest s k) :
    Returns (parseSDESItem (fuel + 1) 0 none p) fun r => r.1 = none ∧ At r.2 [] rest .topLevel k := by
  have hnull := nullOctets_bounds c
  have hname : (UInt8.ofNat c.name.length).toNat = c.name.length := by
    have := c.short
    rw [UInt8.toNat_ofNat']
    omega
  have hlegal : c.name.any illegal = true := by simpa [Chunk.legal] using hl
  have h1 := h.blockEnd
  simp only [List.length_append, assignUWord8_length, List.length_replicate] at h1
  unfold parseSDESItem
  rw [if_neg (by omega)]
  refine h.u8 fun q h => ?_
  have h2 := h.blockEnd
  simp only [List.length_append, assignUWord8_length, List.length_replicate] at h2
  dsimp only
  rw [if_neg (by decide), if_neg (by omega)]
  refine h.u8 fun q h => ?_
  have h3 := h.blockEnd
  simp only [List.length_append, List.length_replicate] at h3
  dsimp only
  rw [if_pos rfl, hname, if_neg (by omega)]
  refine h.read rfl fun q h => ?_
  dsimp only
  rw [if_pos hlegal]
  obtain ⟨r, hr, -, hat⟩ := h.leave
  cases hr
  exact .some ⟨rfl, hat⟩

theorem parseItem_sdes (h : p.state = .sdesChunk) : p.parseItem = p.parseSDESChunk := by
  unfold parseItem
  rw [h]

/-- The loop over the chunks stands at a chunk. -/
theorem parse_chunk {c : Chunk} (h : At p (createChunk c ++ inner) rest .sdesChunk (k + 1)) :
    ∃ fuel q, p.parseItem = parseSDESChunks (fuel + 2) q ∧
      At q (createChunk c ++ inner) rest .sdesChunk k := by
  have hl := h.length
  rw [List.length_append, createChunk_length] at hl
  have hb := h.blocks
  refine ⟨p.length - 1, { p with numberOfBlocks := p.numberOfBlocks - 1 }, ?_, ?_⟩
  · rw [parseItem_sdes h.state]
    unfold parseSDESChunk
    rw [if_neg (by omega), show p.length - 1 + 2 = p.length + 1 by omega]
  · exact ⟨h.valid, h.bound, h.data, h.blockEnd, h.state, by rw [hb]; rfl⟩

theorem chunks_yields (hk : Onward rest is) : ∀ (cs : List Chunk) {p : Parser},
    At p (cs.flatMap createChunk) rest .sdesChunk cs.length →
    Yields 4 p ((cs.takeWhile Chunk.legal).map (fun c => Item.sdesChunk c.ssrc c.name) ++ is) := by
  intro cs
  induction cs with
  | nil =>
    intro p h
    refine (h.again (by simp) ?_ fun q hq => hk q 0 hq).mono (by omega)
    rw [parseItem_sdes h.reset.state]
    unfold parseSDESChunk
    rw [if_pos (show p.numberOfBlocks = 0 from h.blocks)]
    exact h.reset.leave
  | cons c cs ih =>
    intro p h
    have hb : ∀ {q : Parser} {k : Nat},
        At q (createChunk c ++ cs.flatMap createChunk) rest .sdesChunk k →
        ¬ (q.blockEnd ≤ q.ptr ∨ q.length < 4) := by
      intro q k hq
      have h1 := hq.length
      have h2 := hq.blockEnd
      rw [List.length_append, createChunk_length] at h1 h2
      omega
    obtain ⟨fuel, q, hq, hat⟩ := parse_chunk h.reset
    have hnot := hb hat
    rw [createChunk_append] at hat
    cases hc : c.legal with
    | true =>
      rw [List.takeWhile_cons_of_pos hc]
      refine (h.item (by simp) ?_ fun r hr => ih hr).mono (by omega)
      rw [hq]
      unfold parseSDESChunks
      rw [if_neg hnot]
      refine hat.u32 fun q h => ?_
      have hl := h.length
      simp only [List.length_append, assignUWord8_length] at hl
      dsimp only
      rw [show q.length + 1 = q.length - 1 + 2 by omega]
      refine (parse_chunkItems hc h).bind fun (found, q) ⟨hf, h⟩ => ?_
      dsimp only at hf h ⊢
      rw [hf]
      exact h.deliverSame _
    | false =>
      rw [List.takeWhile_cons_of_neg (by simp [hc])]
      refine (h.again (by simp) ?_ fun r hr => hk r cs.length hr).mono (by omega)
      rw [hq]
      unfold parseSDESChunks
      rw [if_neg hnot]
      refine hat.u32 fun q h => ?_
      dsimp only
      refine (parse_chunkIllegal hc h).bind fun (found, q) ⟨hf, h⟩ => ?_
      dsimp only at hf h ⊢
      rw [hf]
      unfold parseSDESChunks
      have hend : q.blockEnd ≤ q.ptr ∨ q.length < 4 := Or.inl (Nat.le_of_eq h.blockEnd)
      rw [if_pos hend]
      exact h.leave

theorem Sdes.blockLength_eq (d : Sdes) :
    d.blockLength = 4 + (d.chunks.list.flatMap createChunk).length := by
  unfold Sdes.blockLength
  generalize d.chunks.list = cs
  have hfold : ∀ (cs : List Chunk) (n : Nat),
      cs.foldl (fun length c => length + (6 + c.name.length + c.nullOctets)) n =
        n + (cs.flatMap createChunk).length := by
    intro cs
    induction cs with
    | nil => intro n; rfl
    | cons c cs ih =>
      intro n
      rw [List.foldl_cons, ih, List.flatMap_cons, List.length_append, createChunk_length]
      omega
  exact hfold cs 4

theorem chunks_words (cs : List Chunk) : (cs.flatMap createChunk).length % 4 = 0 := by
  induction cs with
  | nil => rfl
  | cons c cs ih =>
    have := (nullOctets_bounds c).2.2
    rw [List.flatMap_cons, List.length_append, createChunk_length]
    omega

theorem Sdes.onward (d : Sdes) (hmax : d.blockLength < 65536) (hk : Onward rest is) :
    Onward (d.block ++ rest) ((Packet.sdes d).items ++ is) := by
  have hc : d.chunks.list.length ≤ 31 := d.chunks.bound
  have hn := Sdes.blockLength_eq d
  have hw := chunks_words d.chunks.list
  refine onward_block ?_ hn (by omega) hmax fun q k h => ?_
  · rw [toNat_count hc]
    exact hc
  rw [toNat_count hc]
  refine h.blockSDES fun q h => ?_
  have hl := h.length
  rw [List.length_append, createHeader_length] at hl
  have hpos : 4 ≤ (d.chunks.list.flatMap createChunk).length := by
    obtain ⟨c, cs, hcs⟩ := List.exists_cons_of_ne_nil d.nonempty
    rw [hcs, List.flatMap_cons, List.length_append, createChunk_length]
    omega
  unfold parseSDES
  rw [if_neg (by omega)]
  exact (h.skipHeader.deliver _ _).mono fun q hq => chunks_yields hk _ hq

end Sdes

/-! ## Goodbyes and application packets -/

section Bye

variable {rest : Bytes} {is : List Item}

theorem Bye.onward (b : Bye) (hk : Onward rest is) :
    Onward (b.block ++ rest) ((Packet.bye b).items ++ is) := by
  have hc : b.csrcs.list.length ≤ 30 := b.csrcs.bound
  have hflat := flatMap_length assignUWord32_length b.csrcs.list
  have hn : b.blockLength = 4 + 4 * (1 + b.csrcs.list.length) := rfl
  have hw : blockToHeaderLength b.blockLength = 1 + b.csrcs.list.length := by
    unfold blockToHeaderLength
    omega
  have hic : (UInt8.ofNat (blockToHeaderLength b.blockLength)).toNat = 1 + b.csrcs.list.length := by
    rw [hw, toNat_count (by omega)]
  refine onward_block (by omega) ?_ (by omega) (by omega) fun q k h => ?_
  · rw [List.length_append, hflat, assignUWord32_length]
    omega
  rw [hic]
  refine h.blockBYE fun q h => ?_
  replace h := h.skipHeader
  unfold parseBYE
  have hs : At { q.skip 4 with state := .byeItem } (assignUWord32 b.senderSSRC ++
      b.csrcs.list.flatMap assignUWord32) rest .byeItem (1 + b.csrcs.list.length) :=
    ⟨h.valid, h.bound, h.data, h.blockEnd, rfl, h.blocks⟩
  have hl := hs.length
  rw [List.length_append, hflat, assignUWord32_length] at hl
  have hb := hs.blocks
  unfold parseBYEItem
  dsimp only at hl hb ⊢
  rw [if_neg (by omega)]
  refine hs.u32 fun q h => ?_
  dsimp only
  have hblocks := h.blocks
  rw [hl, if_pos (by omega), show (q.numberOfBlocks - 1) * 4 =
    (b.csrcs.list.flatMap assignUWord32).length by omega]
  replace h := (show At q (b.csrcs.list.flatMap assignUWord32 ++ []) rest _ _ by
    rw [List.append_nil]; exact h).skip
  show Delivers _ _ fun q => Yields 4 q _
  refine ((h.setBlocks 0).deliverSame _).mono fun q hq => ?_
  exact (hq.ends (by simp) hk).mono (by omega)

theorem parse_appData {p : Parser} {data : Bytes} {k : Nat} (hpos : 4 ≤ data.length)
    (hle : data.length ≤ 128) (h : At p data rest .appItem k) :
    Delivers p.parseItem (.appItem data) fun q => At q [] rest .appItem k := by
  have hl := h.length
  unfold parseItem
  rw [h.state]
  show Delivers p.parseAPPItem _ _
  unfold parseAPPItem
  rw [if_neg (by omega)]
  have hmin : data.length = min p.length kRtcpAppCode_DATA_SIZE := by
    unfold kRtcpAppCode_DATA_SIZE
    omega
  refine At.read (show At p (data ++ []) rest .appItem k by rw [List.append_nil]; exact h) hmin
    fun q h => ?_
  exact h.deliverSame _

theorem App.onward (a : App) (hk : Onward rest is) :
    Onward (a.block ++ rest) ((Packet.app a).items ++ is) := by
  have hd := a.data_le
  have hw := a.data_words
  have hn : a.blockLength = 12 + a.data.length := rfl
  unfold kRtcpAppCode_DATA_SIZE at hd
  refine onward_block a.subType_le ?_ (by omega) (by omega) fun q k h => ?_
  · simp only [List.length_append, assignUWord32_length]
    omega
  have hl := h.length
  simp only [List.length_append, assignUWord32_length, createHeader_length] at hl
  show Delivers (q.parseAPP _) _ _
  unfold parseAPP
  rw [if_neg (by omega)]
  replace h := h.skipHeader
  simp only [List.append_assoc] at h
  refine h.u32 fun q h => ?_
  refine h.u32 fun q h => ?_
  rw [UInt8.ofNat_toNat]
  show Delivers _ _ fun q => Yields 4 q _
  refine (h.deliver _ _).mono fun q hq => ?_
  cases hempty : a.data with
  | nil =>
    rw [hempty] at hq
    exact (hq.ends (by simp) hk).mono (by omega)
  | cons x xs =>
    have hpos : 4 ≤ a.data.length := by
      have := congrArg List.length hempty
      rw [List.length_cons] at this
      omega
    have hy : Yields 1 q (.appItem a.data :: is) := by
      refine hq.item (by simp) (parse_appData hpos hd hq.reset) fun q hq => ?_
      exact (hq.ends (by simp) hk).mono (by omega)
    rw [hempty] at hy
    exact hy.mono (by omega)

end Bye

end Parser

end RtcCore.L1.Rtcp
