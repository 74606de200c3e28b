import RtcCore.Core.Returns
import RtcCore.Core.Walk
import RtcCore.L1Wire.RtcpParser

/-!
# The parser is total and stays in its blocks
-/
namespace RtcCore.L1.Rtcp

open Bytes

namespace Parser

/-! ## Staying in the block -/

/-- `q` is in `p`'s block, not before `p`, and has read inside the block. -/
structure Stays (p q : Parser) : Prop where
  data : q.data = p.data
  valid : q.validPacket = p.validPacket
  blockStart : q.blockStart = p.blockStart
  blockEnd : q.blockEnd = p.blockEnd
  visited : q.visited = p.visited
  ptr : p.ptr ≤ q.ptr
  reads : ∀ i ∈ q.reads, i ∈ p.reads ∨ p.ptr ≤ i ∧ i < p.blockEnd

theorem Stays.refl (p : Parser) : Stays p p :=
  ⟨rfl, rfl, rfl, rfl, rfl, Nat.le_refl _, fun _ hi => Or.inl hi⟩

theorem Stays.trans {p q r : Parser} (h : Stays p q) (h' : Stays q r) : Stays p r where
  data := h'.data.trans h.data
  valid := h'.valid.trans h.valid
  blockStart := h'.blockStart.trans h.blockStart
  blockEnd := h'.blockEnd.trans h.blockEnd
  visited := h'.visited.trans h.visited
  ptr := Nat.le_trans h.ptr h'.ptr
  reads i hi := by
    rcases h'.reads i hi with hi | ⟨h1, h2⟩
    · exact h.reads i hi
    · exact Or.inr ⟨Nat.le_trans h.ptr h1, h.blockEnd ▸ h2⟩

/-- The pointer is inside the block, whole words before its end, and the block
is inside the packet. -/
structure InBlock (p : Parser) : Prop where
  ptr : p.ptr ≤ p.blockEnd
  aligned : (p.blockEnd - p.ptr) % 4 = 0
  blockEnd : p.blockEnd ≤ p.data.length

/-- `q` is `n` octets behind `p` in a block inside the packet. -/
structure Ahead (p : Parser) (n : Nat) (q : Parser) : Prop where
  stays : Stays p q
  ptr : q.ptr = p.ptr + n
  inBlock : InBlock p
  state : q.state = p.state
  blocks : q.numberOfBlocks = p.numberOfBlocks
  packet : q.packet = p.packet

section Ahead

variable {p q : Parser} {m n : Nat}

theorem Ahead.refl (h : InBlock p) : Ahead p 0 p := ⟨.refl p, rfl, h, rfl, rfl, rfl⟩

theorem Ahead.skip (h : Ahead p n q) (m : Nat) : Ahead p (n + m) (q.skip m) where
  stays := h.stays.trans
    ⟨rfl, rfl, rfl, rfl, rfl, Nat.le_add_right .., fun _ hi => Or.inl hi⟩
  ptr := by rw [← Nat.add_assoc, ← h.ptr]; rfl
  inBlock := h.inBlock
  state := h.state
  blocks := h.blocks
  packet := h.packet

/-- Reading on inside the block. -/
theorem Ahead.read (h : Ahead p n q) (m : Nat) (hm : p.ptr + n + m ≤ p.blockEnd) :
    Returns (q.read m) fun r => Ahead p (n + m) r.2 := by
  have hptr := h.ptr
  have hin := h.inBlock.blockEnd
  have hend := h.stays.blockEnd
  have hdata := h.stays.data
  refine ⟨_, if_pos (by rw [hdata]; omega), h.stays.trans ?_, ?_, h.inBlock, h.state, h.blocks,
    h.packet⟩
  · refine ⟨rfl, rfl, rfl, rfl, rfl, Nat.le_add_right .., fun i hi => ?_⟩
    rcases List.mem_append.1 hi with hi | hi
    · rw [List.mem_range'_1] at hi
      exact Or.inr (by omega)
    · exact Or.inl hi
  · show q.ptr + m = _
    omega

theorem Ahead.u8 (h : Ahead p n q) (hm : p.ptr + n + 1 ≤ p.blockEnd) :
    Returns q.u8 fun r => Ahead p (n + 1) r.2 := by
  obtain ⟨⟨b, r⟩, hr, ha⟩ := h.read 1 hm
  exact ⟨(UInt8.ofNat (value b), r), by rw [Parser.u8, hr], ha⟩

theorem Ahead.u16 (h : Ahead p n q) (hm : p.ptr + n + 2 ≤ p.blockEnd) :
    Returns q.u16 fun r => Ahead p (n + 2) r.2 := by
  obtain ⟨⟨b, r⟩, hr, ha⟩ := h.read 2 hm
  exact ⟨(UInt16.ofNat (value b), r), by rw [Parser.u16, hr], ha⟩

theorem Ahead.u24 (h : Ahead p n q) (hm : p.ptr + n + 3 ≤ p.blockEnd) :
    Returns q.u24 fun r => Ahead p (n + 3) r.2 := by
  obtain ⟨⟨b, r⟩, hr, ha⟩ := h.read 3 hm
  exact ⟨(UInt32.ofNat (value b), r), by rw [Parser.u24, hr], ha⟩

theorem Ahead.u32 (h : Ahead p n q) (hm : p.ptr + n + 4 ≤ p.blockEnd) :
    Returns q.u32 fun r => Ahead p (n + 4) r.2 := by
  obtain ⟨⟨b, r⟩, hr, ha⟩ := h.read 4 hm
  exact ⟨(UInt32.ofNat (value b), r), by rw [Parser.u32, hr], ha⟩

end Ahead

/-! ## What an item parser may do -/

/-- Deliver an item further on in the block, end the block, or go on with the
next part of an extended report. -/
structure ItemResult (p : Parser) (r : Bool × Parser) : Prop where
  stays : Stays p r.2
  inBlock : InBlock r.2
  cases : (r.1 = true ∧ r.2.packet.isSome = true ∧ r.2.state ≠ .topLevel ∧ p.ptr < r.2.ptr) ∨
    (r.1 = false ∧ r.2.packet = p.packet ∧ r.2.state = .topLevel ∧ r.2.ptr = r.2.blockEnd) ∨
    (r.1 = false ∧ r.2.packet = p.packet ∧ r.2.state = .xrItem ∧
      (p.state = .xrItem ∧ p.ptr < r.2.ptr ∨ p.state = .xrDlrrItem))

section Items

variable {p q : Parser} {n : Nat}

/-- The block is left, wherever the pointer is. -/
theorem Ahead.leave (h : Ahead p n q) : Returns q.leave (ItemResult p) := by
  have hend : q.blockEnd ≤ q.data.length := by
    rw [h.stays.blockEnd, h.stays.data]
    exact h.inBlock.blockEnd
  refine .some ⟨⟨h.stays.data, h.stays.valid, h.stays.blockStart, h.stays.blockEnd, h.stays.visited,
    ?_, h.stays.reads⟩, ⟨Nat.le_refl _, ?_, hend⟩, Or.inr (Or.inl ⟨rfl, h.packet, rfl, rfl⟩)⟩
  · show p.ptr ≤ q.blockEnd
    rw [h.stays.blockEnd]
    exact h.inBlock.ptr
  · show (q.blockEnd - q.blockEnd) % 4 = 0
    rw [Nat.sub_self]

/-- The counter is free. -/
theorem Ahead.delivers (h : Ahead p n q) (hn : p.ptr + n ≤ p.blockEnd) (hpos : 0 < n ∧ n % 4 = 0)
    {item : Item} {state : ParseState} {blocks : Nat} (hs : state ≠ .topLevel) :
    Returns (({ q with numberOfBlocks := blocks } : Parser).deliver item state)
      fun r => r.1 = true ∧ ItemResult p r := by
  have hptr := h.ptr
  have hend := h.stays.blockEnd
  have hdata := h.stays.data
  obtain ⟨-, hal, hin⟩ := h.inBlock
  refine .some ⟨rfl, h.stays.trans ?_, ⟨?_, ?_, ?_⟩, Or.inl ⟨rfl, rfl, hs, ?_⟩⟩
  · exact ⟨rfl, rfl, rfl, rfl, rfl, Nat.le_refl _, fun _ hi => Or.inl hi⟩
  · show q.ptr ≤ q.blockEnd
    omega
  · show (q.blockEnd - q.ptr) % 4 = 0
    omega
  · show q.blockEnd ≤ q.data.length
    rw [hend, hdata]
    exact hin
  · show p.ptr < q.ptr
    omega

theorem Ahead.deliver (h : Ahead p n q) (hn : p.ptr + n ≤ p.blockEnd) (hpos : 0 < n ∧ n % 4 = 0)
    {item : Item} {state : ParseState} {blocks : Nat} (hs : state ≠ .topLevel) :
    Returns (({ q with numberOfBlocks := blocks } : Parser).deliver item state) (ItemResult p) :=
  (h.delivers hn hpos hs).mono fun _ hr => hr.2

theorem room (h : ¬ p.length < n) (hn : 0 < n) : p.ptr + n ≤ p.blockEnd := by
  unfold length at h
  omega

theorem parseReportBlockItem_result (h : InBlock p) (hs : p.state ≠ .topLevel) :
    Returns p.parseReportBlockItem (ItemResult p) := by
  unfold parseReportBlockItem
  split
  · exact (Ahead.refl h).leave
  · rename_i hc
    have hlen : p.ptr + 24 ≤ p.blockEnd := room (by omega) (by omega)
    refine ((Ahead.refl h).u32 (by omega)).bind fun (ssrc, q) hq => ?_
    refine (hq.u8 (by omega)).bind fun (fractionLost, q) hq => ?_
    refine (hq.u24 (by omega)).bind fun (cumulativeLost, q) hq => ?_
    refine (hq.u32 (by omega)).bind fun (highestSequenceNumber, q) hq => ?_
    refine (hq.u32 (by omega)).bind fun (jitter, q) hq => ?_
    refine (hq.u32 (by omega)).bind fun (lastSR, q) hq => ?_
    refine (hq.u32 (by omega)).bind fun (delayLastSR, q) hq => ?_
    exact hq.deliver (by omega) (by omega) (hq.state ▸ hs)

theorem parseIJItem_result (h : InBlock p) (hs : p.state ≠ .topLevel) :
    Returns p.parseIJItem (ItemResult p) := by
  unfold parseIJItem
  split
  · exact (Ahead.refl h).leave
  · rename_i hc
    have hlen : p.ptr + 4 ≤ p.blockEnd := room (by omega) (by omega)
    refine ((Ahead.refl h).u32 (by omega)).bind fun (jitter, q) hq => ?_
    exact hq.deliver (by omega) (by omega) (hq.state ▸ hs)

theorem parseBYEItem_result (h : InBlock p) (hs : p.state ≠ .topLevel) :
    Returns p.parseBYEItem (ItemResult p) := by
  unfold parseBYEItem
  dsimp only
  split
  · exact (Ahead.refl h).leave
  · rename_i hc
    have hlen : p.ptr + 4 ≤ p.blockEnd := room (by omega) (by omega)
    have hsum : p.ptr + p.length = p.blockEnd := Nat.add_sub_cancel' h.ptr
    refine ((Ahead.refl h).u32 (by omega)).bind fun (ssrc, q) hq => ?_
    have hblocks := hq.blocks
    by_cases hn : 4 * q.numberOfBlocks ≤ p.length
    · simp only [if_pos hn]
      exact (hq.skip _).deliver (by omega) (by omega) ((hq.skip _).state ▸ hs)
    · simp only [if_neg hn]
      exact hq.deliver (by omega) (by omega) (hq.state ▸ hs)

theorem parseNACKItem_result (h : InBlock p) (hs : p.state ≠ .topLevel) :
    Returns p.parseNACKItem (ItemResult p) := by
  unfold parseNACKItem
  split
  · exact (Ahead.refl h).leave
  · rename_i hc
    have hlen : p.ptr + 4 ≤ p.blockEnd := room hc (by omega)
    refine ((Ahead.refl h).u16 (by omega)).bind fun (packetID, q) hq => ?_
    refine (hq.u16 (by omega)).bind fun (bitMask, q) hq => ?_
    exact hq.deliver (by omega) (by omega) (hq.state ▸ hs)

theorem parseSLIItem_result (h : InBlock p) (hs : p.state ≠ .topLevel) :
    Returns p.parseSLIItem (ItemResult p) := by
  unfold parseSLIItem
  split
  · exact (Ahead.refl h).leave
  · rename_i hc
    have hlen : p.ptr + 4 ≤ p.blockEnd := room hc (by omega)
    refine ((Ahead.refl h).u32 (by omega)).bind fun (buffer, q) hq => ?_
    exact hq.deliver (by omega) (by omega) (hq.state ▸ hs)

theorem parseTMMBItem_result (h : InBlock p) (hs : p.state ≠ .topLevel)
    (item : UInt32 → UInt32 → UInt32 → Item) : Returns (p.parseTMMBItem item) (ItemResult p) := by
  unfold parseTMMBItem
  split
  · exact (Ahead.refl h).leave
  · rename_i hc
    have hlen : p.ptr + 8 ≤ p.blockEnd := room hc (by omega)
    refine ((Ahead.refl h).u32 (by omega)).bind fun (ssrc, q) hq => ?_
    refine (hq.u8 (by omega)).bind fun (b₀, q) hq => ?_
    refine (hq.u8 (by omega)).bind fun (b₁, q) hq => ?_
    refine (hq.u8 (by omega)).bind fun (b₂, q) hq => ?_
    refine (hq.u8 (by omega)).bind fun (b₃, q) hq => ?_
    exact hq.deliver (by omega) (by omega) (hq.state ▸ hs)

theorem parseFIRItem_result (h : InBlock p) (hs : p.state ≠ .topLevel) :
    Returns p.parseFIRItem (ItemResult p) := by
  unfold parseFIRItem
  split
  · exact (Ahead.refl h).leave
  · rename_i hc
    have hlen : p.ptr + 8 ≤ p.blockEnd := room hc (by omega)
    refine ((Ahead.refl h).u32 (by omega)).bind fun (ssrc, q) hq => ?_
    refine (hq.u8 (by omega)).bind fun (commandSequenceNumber, q) hq => ?_
    exact (hq.skip 3).deliver (by omega) (by omega) ((hq.skip 3).state ▸ hs)

theorem parseRPSIItem_result (h : InBlock p) (hs : p.state ≠ .topLevel) :
    Returns p.parseRPSIItem (ItemResult p) := by
  unfold parseRPSIItem
  dsimp only
  split
  · exact (Ahead.refl h).leave
  · rename_i hc
    have hlen : p.ptr + 4 ≤ p.blockEnd := room (by omega) (by omega)
    have hsum : p.ptr + p.length = p.blockEnd := Nat.add_sub_cancel' h.ptr
    have hal : p.length % 4 = 0 := h.aligned
    refine ((Ahead.refl h).u8 (by omega)).bind fun (paddingBits, q) hq => ?_
    refine (hq.u8 (by omega)).bind fun (payloadType, q) hq => ?_
    refine (hq.read _ (by omega)).bind fun (nativeBitString, q) hq => ?_
    exact hq.deliver (by omega) (by omega) (hq.state ▸ hs)

theorem parseAPPItem_result (h : InBlock p) (hs : p.state ≠ .topLevel) :
    Returns p.parseAPPItem (ItemResult p) := by
  unfold parseAPPItem
  split
  · exact (Ahead.refl h).leave
  · rename_i hc
    have hsum : p.ptr + p.length = p.blockEnd := Nat.add_sub_cancel' h.ptr
    have hal : p.length % 4 = 0 := h.aligned
    have hmin : min p.length kRtcpAppCode_DATA_SIZE ≤ p.length := Nat.min_le_left ..
    have hpos : 0 < min p.length kRtcpAppCode_DATA_SIZE ∧
        min p.length kRtcpAppCode_DATA_SIZE % 4 = 0 := by
      unfold kRtcpAppCode_DATA_SIZE
      omega
    refine ((Ahead.refl h).read _ (by omega)).bind fun (data, q) hq => ?_
    exact hq.deliver (by omega) (by omega) (hq.state ▸ hs)

theorem parsePsfbAppItem_result (h : InBlock p) : Returns p.parsePsfbAppItem (ItemResult p) := by
  unfold parsePsfbAppItem
  split
  · exact (Ahead.refl h).leave
  · rename_i hc
    have hlen : p.ptr + 4 ≤ p.blockEnd := room hc (by omega)
    refine ((Ahead.refl h).read 4 (by omega)).bind fun (name, q) hq => ?_
    dsimp only
    split
    · exact hq.leave
    · exact hq.deliver (by omega) (by omega) (by simp)

theorem readSSRCs_result : ∀ (k : Nat) {q : Parser} {n : Nat}, Ahead p n q →
    p.ptr + n + 4 * k ≤ p.blockEnd → Returns (readSSRCs k q) fun r => Ahead p (n + 4 * k) r.2 := by
  intro k
  induction k with
  | zero => intro q n h _; exact .some h
  | succ k ih =>
    intro q n h hk
    refine (h.u32 (by omega)).bind fun (ssrc, q) hq => ?_
    refine (ih hq (by omega)).bind fun (ssrcs, q) hq => ?_
    exact .some (by rw [show n + 4 * (k + 1) = n + 4 + 4 * k by omega]; exact hq)

theorem parsePsfbREMBItem_result (h : InBlock p) (hs : p.state ≠ .topLevel) :
    Returns p.parsePsfbREMBItem (ItemResult p) := by
  unfold parsePsfbREMBItem
  split
  · exact (Ahead.refl h).leave
  · rename_i hc
    have hlen : p.ptr + 4 ≤ p.blockEnd := room hc (by omega)
    refine ((Ahead.refl h).u8 (by omega)).bind fun (numberOfSSRCs, q) hq => ?_
    refine (hq.u8 (by omega)).bind fun (b₀, q) hq => ?_
    refine (hq.u8 (by omega)).bind fun (b₁, q) hq => ?_
    refine (hq.u8 (by omega)).bind fun (b₂, q) hq => ?_
    dsimp only at hq ⊢
    split
    · exact hq.leave
    · rename_i hn
      have hptr := hq.ptr
      have hend := hq.stays.blockEnd
      unfold length at hn
      refine (readSSRCs_result _ hq (by omega)).bind fun (ssrcs, q) hq => ?_
      exact hq.deliver (by omega) (by omega) (hq.state ▸ hs)

/-! ## Source descriptions -/

/-- The end of a chunk's items: the block is left, or the next chunk starts on
a word boundary of the block. -/
structure SdesResult (p : Parser) (r : Option Bytes × Parser) : Prop where
  stays : Stays p r.2
  inBlock : InBlock r.2
  packet : r.2.packet = p.packet
  cases : (r.1 = none ∧ r.2.ptr = r.2.blockEnd) ∨ (r.2.state = p.state ∧ p.ptr < r.2.ptr)

theorem Ahead.noItem (h : Ahead p n q) :
    SdesResult p (none, { q with state := .topLevel }.endCurrentBlock) := by
  obtain ⟨r, hr, hres⟩ := h.leave
  cases hr
  exact ⟨hres.stays, hres.inBlock, h.packet, Or.inl ⟨rfl, rfl⟩⟩

/-- The end tag: the pointer goes to the next word boundary. -/
theorem Ahead.endTag (h : Ahead p (n + 1) q) (hn : p.ptr + n < p.blockEnd) (found : Option Bytes) :
    SdesResult p (found, q.skip (padding (n + 1))) := by
  have hptr := (h.skip (padding (n + 1))).ptr
  have hst := (h.skip (padding (n + 1))).stays
  have hend := hst.blockEnd
  obtain ⟨-, hal, hin⟩ := h.inBlock
  have hpad : (n + 1 + padding (n + 1)) % 4 = 0 ∧ padding (n + 1) < 4 := by
    unfold padding
    omega
  refine ⟨hst, ⟨?_, ?_, ?_⟩, h.packet, Or.inr ⟨h.state, ?_⟩⟩
  · rw [hend, hptr]
    omega
  · rw [hend, hptr]
    omega
  · rw [hend, hst.data]
    exact hin
  · rw [hptr]
    omega

theorem parseSDESItem_result : ∀ (fuel : Nat) {n : Nat} {q : Parser} (found : Option Bytes),
    Ahead p n q → p.blockEnd - q.ptr < fuel →
    Returns (parseSDESItem fuel n found q) (SdesResult p) := by
  intro fuel
  induction fuel with
  | zero => intro n q found _ hf; omega
  | succ fuel ih =>
    intro n q found h hf
    have hptr := h.ptr
    have hend := h.stays.blockEnd
    unfold parseSDESItem
    split
    · exact .some h.noItem
    rename_i hlt
    refine (h.u8 (by omega)).bind fun (tag, q) hq => ?_
    have hptr := hq.ptr
    have hend := hq.stays.blockEnd
    dsimp only at hptr hend ⊢
    split
    · exact .some (hq.endTag (by omega) found)
    split
    · exact ih found hq (by omega)
    rename_i hlt'
    refine (hq.u8 (by omega)).bind fun (len, q) hq => ?_
    have hptr := hq.ptr
    have hend := hq.stays.blockEnd
    dsimp only at hptr hend ⊢
    split
    · -- a CNAME
      split
      · exact .some hq.noItem
      rename_i hroom
      refine (hq.read len.toNat (by omega)).bind fun (cname, q) hq => ?_
      have hptr := hq.ptr
      dsimp only at hptr ⊢
      split
      · exact .some hq.noItem
      · exact ih (some cname) hq (by omega)
    · refine ih found (hq.skip len.toNat) ?_
      show p.blockEnd - (q.ptr + len.toNat) < fuel
      omega

theorem parseSDESChunks_result : ∀ (fuel : Nat) {q : Parser}, Stays p q → InBlock q →
    q.packet = p.packet → (q.ptr = q.blockEnd ∨ q.state ≠ .topLevel) → q.blockEnd - q.ptr < fuel →
    Returns (parseSDESChunks fuel q) (ItemResult p) := by
  intro fuel
  induction fuel with
  | zero => intro q _ _ _ _ hf; omega
  | succ fuel ih =>
    intro q hst hb hpk hs hf
    unfold parseSDESChunks
    split
    · obtain ⟨r, hr, hres⟩ := (Ahead.refl hb).leave
      cases hr
      exact .some ⟨hst.trans hres.stays, hres.inBlock, Or.inr (Or.inl ⟨rfl, hpk, rfl, rfl⟩)⟩
    rename_i hc
    have hlen : q.ptr + 4 ≤ q.blockEnd := room (by omega) (by omega)
    refine ((Ahead.refl hb).u32 (by omega)).bind fun (ssrc, u) hu => ?_
    have hptr := hu.ptr
    have hend := hu.stays.blockEnd
    have hbu : InBlock u := by
      obtain ⟨-, hal, hin⟩ := hb
      dsimp only at hptr hend
      refine ⟨by omega, by omega, ?_⟩
      rw [hend, hu.stays.data]
      exact hin
    dsimp only at hptr hend ⊢
    refine (parseSDESItem_result (u.length + 1) none (Ahead.refl hbu) (Nat.lt_succ_self _)).bind
      fun (found, v) hv => ?_
    have hstv := hst.trans (hu.stays.trans hv.stays)
    have hvp := hv.stays.ptr
    dsimp only at hvp ⊢
    have hle := hst.ptr
    have hstate : v.ptr = v.blockEnd ∨ v.state ≠ .topLevel := by
      rcases hv.cases with ⟨-, he⟩ | ⟨he, -⟩
      · exact Or.inl he
      · refine Or.inr ?_
        rw [show v.state = u.state from he, hu.state]
        exact hs.resolve_left (by omega)
    cases found with
    | some cname =>
      rcases hv.cases with ⟨hc, -⟩ | ⟨he, -⟩
      · cases hc
      refine .some ⟨hstv.trans ?_, ⟨hv.inBlock.ptr, hv.inBlock.aligned, hv.inBlock.blockEnd⟩,
        Or.inl ⟨rfl, rfl, ?_, ?_⟩⟩
      · exact ⟨rfl, rfl, rfl, rfl, rfl, Nat.le_refl _, fun _ hi => Or.inl hi⟩
      · show v.state ≠ .topLevel
        rw [show v.state = u.state from he, hu.state]
        exact hs.resolve_left (by omega)
      · show p.ptr < v.ptr
        omega
    | none =>
      have hve := hv.stays.blockEnd
      dsimp only at hve
      exact ih hstv hv.inBlock (hv.packet.trans (hu.packet.trans hpk)) hstate (by omega)

theorem parseSDESChunk_result (h : InBlock p) (hs : p.state ≠ .topLevel) :
    Returns p.parseSDESChunk (ItemResult p) := by
  unfold parseSDESChunk
  split
  · exact (Ahead.refl h).leave
  · refine parseSDESChunks_result _ ?_ ⟨h.ptr, h.aligned, h.blockEnd⟩ rfl (Or.inr hs)
      (Nat.lt_succ_self _)
    exact ⟨rfl, rfl, rfl, rfl, rfl, Nat.le_refl _, fun _ hi => Or.inl hi⟩

/-! ## Extended reports -/

theorem parseXrReceiverReferenceTimeItem_result (h : Ahead p 4 q) (k : Nat) :
    Returns (q.parseXrReceiverReferenceTimeItem k) (ItemResult p) := by
  have hptr := h.ptr
  have hend := h.stays.blockEnd
  unfold parseXrReceiverReferenceTimeItem
  split
  · exact h.leave
  · rename_i hc
    have hlen : q.ptr + 8 ≤ q.blockEnd := room (by omega) (by omega)
    refine (h.u32 (by omega)).bind fun (ntpMostSignificant, q) hq => ?_
    refine (hq.u32 (by omega)).bind fun (ntpLeastSignificant, q) hq => ?_
    exact hq.deliver (by omega) (by omega) (by simp)

theorem parseXrDlrr_result (h : Ahead p 4 q) (hp : p.ptr + 4 ≤ p.blockEnd) (k : Nat) :
    Returns (q.parseXrDlrr k) (ItemResult p) := by
  unfold parseXrDlrr
  split
  · exact h.leave
  · exact h.deliver hp (by omega) (by simp)

theorem parseXrVoipMetricItem_result (h : Ahead p 4 q) (k : Nat) :
    Returns (q.parseXrVoipMetricItem k) (ItemResult p) := by
  have hptr := h.ptr
  have hend := h.stays.blockEnd
  unfold parseXrVoipMetricItem
  split
  · exact h.leave
  · rename_i hc
    have hlen : q.ptr + 32 ≤ q.blockEnd := room (by omega) (by omega)
    refine (h.u32 (by omega)).bind fun (ssrc, q) hq => ?_
    refine (hq.u8 (by omega)).bind fun (lossRate, q) hq => ?_
    refine (hq.u8 (by omega)).bind fun (discardRate, q) hq => ?_
    refine (hq.u8 (by omega)).bind fun (burstDensity, q) hq => ?_
    refine (hq.u8 (by omega)).bind fun (gapDensity, q) hq => ?_
    refine (hq.u16 (by omega)).bind fun (burstDuration, q) hq => ?_
    refine (hq.u16 (by omega)).bind fun (gapDuration, q) hq => ?_
    refine (hq.u16 (by omega)).bind fun (roundTripDelay, q) hq => ?_
    refine (hq.u16 (by omega)).bind fun (endSystemDelay, q) hq => ?_
    refine (hq.u8 (by omega)).bind fun (signalLevel, q) hq => ?_
    refine (hq.u8 (by omega)).bind fun (noiseLevel, q) hq => ?_
    refine (hq.u8 (by omega)).bind fun (rerl, q) hq => ?_
    refine (hq.u8 (by omega)).bind fun (gmin, q) hq => ?_
    refine (hq.u8 (by omega)).bind fun (rfactor, q) hq => ?_
    refine (hq.u8 (by omega)).bind fun (extRfactor, q) hq => ?_
    refine (hq.u8 (by omega)).bind fun (mosLQ, q) hq => ?_
    refine (hq.u8 (by omega)).bind fun (mosCQ, q) hq => ?_
    refine (hq.u8 (by omega)).bind fun (rxConfig, q) hq => ?_
    refine ((hq.skip 1).u16 (by omega)).bind fun (jbNominal, q) hq => ?_
    refine (hq.u16 (by omega)).bind fun (jbMax, q) hq => ?_
    refine (hq.u16 (by omega)).bind fun (jbAbsMax, q) hq => ?_
    exact hq.deliver (by omega) (by omega) (by simp)

theorem parseXrUnsupportedBlockType_result (h : Ahead p 4 q) (hp : p.ptr + 4 ≤ p.blockEnd)
    (hs : p.state = .xrItem) (k : Nat) : Returns (q.parseXrUnsupportedBlockType k) (ItemResult p) := by
  have hptr := h.ptr
  have hend := h.stays.blockEnd
  unfold parseXrUnsupportedBlockType
  split
  · exact h.leave
  · rename_i hc
    unfold length at hc
    have hal := h.inBlock.aligned
    have hin : q.blockEnd ≤ q.data.length := by
      rw [hend, h.stays.data]
      exact h.inBlock.blockEnd
    refine .some ⟨h.stays.trans ?_, ⟨?_, ?_, hin⟩,
      Or.inr (Or.inr ⟨rfl, h.packet, rfl, Or.inl ⟨hs, ?_⟩⟩)⟩
    · exact ⟨rfl, rfl, rfl, rfl, rfl, Nat.le_add_right .., fun _ hi => Or.inl hi⟩
    · show q.ptr + k * 4 ≤ q.blockEnd
      omega
    · show (q.blockEnd - (q.ptr + k * 4)) % 4 = 0
      omega
    · show p.ptr < q.ptr + k * 4
      omega

theorem parseXrItem_result (h : InBlock p) (hs : p.state = .xrItem) :
    Returns p.parseXrItem (ItemResult p) := by
  unfold parseXrItem
  split
  · exact (Ahead.refl h).leave
  · rename_i hc
    have hlen : p.ptr + 4 ≤ p.blockEnd := room hc (by omega)
    refine ((Ahead.refl h).u8 (by omega)).bind fun (blockType, q) hq => ?_
    refine ((hq.skip 1).u16 (by omega)).bind fun (blockLength, q) hq => ?_
    dsimp only
    split
    · exact parseXrReceiverReferenceTimeItem_result hq _
    split
    · exact parseXrDlrr_result hq hlen _
    split
    · exact parseXrVoipMetricItem_result hq _
    · exact parseXrUnsupportedBlockType_result hq hlen hs _

theorem parseXrDlrrItem_result (h : InBlock p) (hs : p.state = .xrDlrrItem) :
    Returns p.parseXrDlrrItem (ItemResult p) := by
  unfold parseXrDlrrItem
  split
  · refine .some ⟨(Stays.refl p).trans ?_, ⟨h.ptr, h.aligned, h.blockEnd⟩,
      Or.inr (Or.inr ⟨rfl, rfl, rfl, Or.inr hs⟩)⟩
    exact ⟨rfl, rfl, rfl, rfl, rfl, Nat.le_refl _, fun _ hi => Or.inl hi⟩
  split
  · exact (Ahead.refl h).leave
  · rename_i hc
    have hlen : p.ptr + 12 ≤ p.blockEnd := room hc (by omega)
    refine ((Ahead.refl h).u32 (by omega)).bind fun (ssrc, q) hq => ?_
    refine (hq.u32 (by omega)).bind fun (lastRR, q) hq => ?_
    refine (hq.u32 (by omega)).bind fun (delayLastRR, q) hq => ?_
    exact hq.deliver (by omega) (by omega) (by simp)

theorem parseItem_result (h : InBlock p) (hs : p.state ≠ .topLevel) :
    Returns p.parseItem (ItemResult p) := by
  unfold parseItem
  split
  · rename_i hc; exact absurd hc hs
  · exact parseReportBlockItem_result h hs
  · exact parseSDESChunk_result h hs
  · exact parseBYEItem_result h hs
  · exact parseIJItem_result h hs
  · exact parseNACKItem_result h hs
  · exact parseTMMBItem_result h hs _
  · exact parseTMMBItem_result h hs _
  · exact parseSLIItem_result h hs
  · exact parseRPSIItem_result h hs
  · exact parseFIRItem_result h hs
  · exact parsePsfbAppItem_result h
  · exact parsePsfbREMBItem_result h hs
  · rename_i hx; exact parseXrItem_result h hx
  · rename_i hx; exact parseXrDlrrItem_result h hx
  · exact parseAPPItem_result h hs

end Items

/-! ## Blocks -/

/-- Where the iteration goes on after a block at `off`: nowhere behind a report
that is too short, and behind the two SSRCs of a feedback block without items,
whatever its length is. -/
def continues (header : CommonHeader) (off : Nat) : Option Nat :=
  if header.pt = PT_SR ∧ header.lengthInOctets < 28 ∨ header.pt = PT_RR ∧ header.lengthInOctets < 8
  then none
  else if (header.pt = PT_RTPFB ∧ header.ic = 5 ∨ header.pt = PT_PSFB ∧ header.ic = 1) ∧
      12 ≤ header.lengthInOctets then some (off + 12)
  else some (off + header.lengthInOctets)

/-- What the parser of a block may do, `next` being where the iteration goes on:
deliver an item inside the block or at its end, end the iteration, or turn to
the next block. -/
structure BlockResult (p : Parser) (next : Option Nat) (r : Bool × Parser) : Prop where
  stays : Stays p r.2
  ptr : r.2.ptr ≤ r.2.blockEnd
  cases : (r.1 = true ∧ r.2.packet.isSome = true ∧ p.ptr < r.2.ptr ∧
      (r.2.state ≠ .topLevel ∧ InBlock r.2 ∧ next = some r.2.blockEnd ∨
        r.2.state = .topLevel ∧ next = some r.2.ptr)) ∨
    (r.1 = true ∧ r.2.packet = none ∧ next = none) ∨
    (r.1 = false ∧ r.2.packet = none ∧ r.2.state = .topLevel ∧ next = some r.2.ptr ∧ p.ptr < r.2.ptr)

section Blocks

variable {p q : Parser} {n : Nat}

theorem ItemResult.block {r : Bool × Parser} (h : ItemResult q r) (hpq : Stays p q)
    (hq : q.packet = none) (hs : q.state ≠ .xrItem ∧ q.state ≠ .xrDlrrItem)
    (hlt : p.ptr < p.blockEnd) : BlockResult p (some p.blockEnd) r := by
  have hst := hpq.trans h.stays
  have hend := hst.blockEnd
  have hle := hpq.ptr
  refine ⟨hst, h.inBlock.ptr, ?_⟩
  rcases h.cases with ⟨h1, h2, h3, h4⟩ | ⟨h1, h2, h3, h4⟩ | ⟨-, -, -, ⟨h4, -⟩ | h4⟩
  · exact Or.inl ⟨h1, h2, by omega, Or.inl ⟨h3, h.inBlock, by rw [hend]⟩⟩
  · exact Or.inr (Or.inr ⟨h1, h2.trans hq, h3, by rw [h4, hend], by omega⟩)
  · exact absurd h4 hs.1
  · exact absurd h4 hs.2

/-- A parser that has just entered a block. -/
structure Entered (p : Parser) (header : CommonHeader) : Prop where
  inBlock : InBlock p
  blockEnd : p.blockEnd = p.ptr + header.lengthInOctets
  word : 4 ≤ header.lengthInOctets
  packet : p.packet = none
  state : p.state = .topLevel

variable {header : CommonHeader}

theorem Entered.length (h : Entered p header) : p.length = header.lengthInOctets := by
  unfold Parser.length
  rw [h.blockEnd]
  omega

/-- Results of item parsers count for the block. -/
theorem Entered.block (h : Entered p header) {m : Option (Bool × Parser)}
    (hm : Returns m (ItemResult p)) :
    Returns m (BlockResult p (some (p.ptr + header.lengthInOctets))) := by
  have hend := h.blockEnd
  have hword := h.word
  refine hm.mono fun r hr => ?_
  rw [← hend]
  exact hr.block (.refl p) h.packet (by rw [h.state]; simp) (by omega)

/-- In the top-level state ending the block is leaving it. -/
theorem Entered.endCurrentBlock (h : Ahead p n q) (hs : p.state = .topLevel) :
    Returns (some (false, q.endCurrentBlock)) (ItemResult p) := by
  obtain ⟨r, hr, hres⟩ := h.leave
  have : (false, q.endCurrentBlock) = r := by
    rw [← Option.some.inj hr]
    show (false, q.endCurrentBlock) = (false, { q with state := .topLevel }.endCurrentBlock)
    have hq : q.state = .topLevel := h.state.trans hs
    unfold Parser.endCurrentBlock
    rw [hq]
  exact ⟨_, rfl, this ▸ hres⟩

/-- An item that is the whole block for the parser. -/
theorem Ahead.deliverTop (h : Ahead p n q) (hs : p.state = .topLevel)
    (hn : p.ptr + n ≤ p.blockEnd) (hpos : 0 < n) (item : Item) :
    Returns (q.deliver item q.state) (BlockResult p (some (p.ptr + n))) := by
  have hptr := h.ptr
  have hend := h.stays.blockEnd
  refine .some ⟨h.stays.trans ?_, ?_, Or.inl ⟨rfl, rfl, ?_, Or.inr ⟨h.state.trans hs, ?_⟩⟩⟩
  · exact ⟨rfl, rfl, rfl, rfl, rfl, Nat.le_refl _, fun _ hi => Or.inl hi⟩
  · show q.ptr ≤ q.blockEnd
    omega
  · show p.ptr < q.ptr
    omega
  · show _ = some q.ptr
    rw [hptr]

/-- A report that is too short ends the iteration. -/
theorem Entered.stop (h : Entered p header) (hq : q = p ∨ q = p.endCurrentBlock) :
    BlockResult p none (true, q) := by
  rcases hq with rfl | rfl
  · exact ⟨.refl q, h.inBlock.ptr, Or.inr (Or.inl ⟨rfl, h.packet, rfl⟩)⟩
  · refine ⟨⟨rfl, rfl, rfl, rfl, rfl, h.inBlock.ptr, fun _ hi => Or.inl hi⟩, Nat.le_refl _, ?_⟩
    exact Or.inr (Or.inl ⟨rfl, h.packet, rfl⟩)

/-- A report's result is not looked at. -/
theorem report_result {m : Option (Bool × Parser)} {next : Option Nat}
    (hm : Returns m fun r => r.1 = true ∧ BlockResult p next r) :
    Returns (m.map fun r => (true, r.2)) (BlockResult p next) := by
  refine hm.map fun r hr => ?_
  obtain ⟨hb, hr⟩ := hr
  rw [← hb]
  exact hr

/-- Items delivered inside the block count for the block. -/
theorem Entered.delivers (h : Entered p header) {m : Option (Bool × Parser)}
    (hm : Returns m fun r => r.1 = true ∧ ItemResult p r) :
    Returns m fun r => r.1 = true ∧ BlockResult p (some (p.ptr + header.lengthInOctets)) r := by
  refine hm.mono fun r hr => ⟨hr.1, ?_⟩
  obtain ⟨r', hr', hres⟩ := h.block (.some hr.2)
  cases hr'
  exact hres

/-- A sender report without report blocks: the block is ended at once. -/
theorem Ahead.deliverEnd (h : Ahead p n q) (hlt : p.ptr < p.blockEnd) (item : Item) :
    Returns (q.endCurrentBlock.deliver item .topLevel)
      fun r => r.1 = true ∧ BlockResult p (some p.blockEnd) r := by
  have hend := h.stays.blockEnd
  refine .some ⟨rfl, ⟨h.stays.data, h.stays.valid, h.stays.blockStart, h.stays.blockEnd,
    h.stays.visited, ?_, h.stays.reads⟩, Nat.le_refl _, Or.inl ⟨rfl, rfl, ?_, Or.inr ⟨rfl, ?_⟩⟩⟩
  · show p.ptr ≤ q.blockEnd
    omega
  · show p.ptr < q.blockEnd
    omega
  · show _ = some q.blockEnd
    rw [hend]

theorem parseRR_result (h : Entered p header) (hpt : header.pt = PT_RR) :
    Returns (p.parseRR.map fun r => (true, r.2)) (BlockResult p (continues header p.ptr)) := by
  have hlen := h.length
  have hend := h.blockEnd
  unfold parseRR
  split
  · have hn : continues header p.ptr = none := if_pos (Or.inr ⟨hpt, by omega⟩)
    rw [hn]
    exact .some (h.stop (Or.inl rfl))
  · rename_i hc
    have hn : continues header p.ptr = some (p.ptr + header.lengthInOctets) := by
      have : ¬ header.lengthInOctets < 8 := by omega
      simp [continues, hpt, PT_SR, PT_RR, PT_RTPFB, PT_PSFB, this]
    rw [hn]
    refine report_result (h.delivers ?_)
    refine (((Ahead.refl h.inBlock).skip 4).u32 (by omega)).bind fun (ssrc, q) hq => ?_
    exact hq.delivers (by omega) (by omega) (by simp)

theorem parseSR_result (h : Entered p header) (hpt : header.pt = PT_SR) :
    Returns (p.parseSR.map fun r => (true, r.2)) (BlockResult p (continues header p.ptr)) := by
  have hlen := h.length
  have hend := h.blockEnd
  unfold parseSR
  split
  · have hn : continues header p.ptr = none := if_pos (Or.inl ⟨hpt, by omega⟩)
    rw [hn]
    exact .some (h.stop (Or.inr rfl))
  · rename_i hc
    have hn : continues header p.ptr = some (p.ptr + header.lengthInOctets) := by
      have : ¬ header.lengthInOctets < 28 := by omega
      simp [continues, hpt, PT_SR, PT_RR, PT_RTPFB, PT_PSFB, this]
    rw [hn]
    refine report_result ?_
    refine (((Ahead.refl h.inBlock).skip 4).u32 (by omega)).bind fun (senderSSRC, q) hq => ?_
    refine (hq.u32 (by omega)).bind fun (ntpMostSignificant, q) hq => ?_
    refine (hq.u32 (by omega)).bind fun (ntpLeastSignificant, q) hq => ?_
    refine (hq.u32 (by omega)).bind fun (rtpTimestamp, q) hq => ?_
    refine (hq.u32 (by omega)).bind fun (senderPacketCount, q) hq => ?_
    refine (hq.u32 (by omega)).bind fun (senderOctetCount, q) hq => ?_
    dsimp only
    split
    · exact h.delivers (hq.delivers (by omega) (by omega) (by simp))
    · rw [← hend]
      exact hq.deliverEnd (by omega) _

theorem parseIJ_result (h : Entered p header) :
    Returns (p.parseIJ.map fun r => (true, r.2))
      (BlockResult p (some (p.ptr + header.lengthInOctets))) := by
  have hlen := h.length
  have hend := h.blockEnd
  have hword := h.word
  unfold parseIJ
  rw [if_neg (by omega)]
  refine report_result (h.delivers ?_)
  exact ((Ahead.refl h.inBlock).skip 4).delivers (by omega) (by omega) (by simp)

theorem parseSDES_result (h : Entered p header) :
    Returns p.parseSDES (BlockResult p (some (p.ptr + header.lengthInOctets))) := by
  have hlen := h.length
  have hend := h.blockEnd
  refine h.block ?_
  unfold parseSDES
  split
  · exact (Ahead.refl h.inBlock).leave
  · exact ((Ahead.refl h.inBlock).skip 4).deliver (by omega) (by omega) (by simp)

theorem parseBYE_result (h : Entered p header) :
    Returns p.parseBYE (BlockResult p (some (p.ptr + header.lengthInOctets))) := by
  have hend := h.blockEnd
  have hword := h.word
  obtain ⟨hptr, hal, hin⟩ := h.inBlock
  have hb : InBlock { p.skip 4 with state := .byeItem } := by
    refine ⟨?_, ?_, hin⟩
    · show p.ptr + 4 ≤ p.blockEnd
      omega
    · show (p.blockEnd - (p.ptr + 4)) % 4 = 0
      omega
  refine (parseBYEItem_result hb (by simp)).mono fun r hr => ?_
  rw [← hend]
  refine hr.block ?_ h.packet (by simp) (by omega)
  exact ⟨rfl, rfl, rfl, rfl, rfl, Nat.le_add_right .., fun _ hi => Or.inl hi⟩

theorem parseXr_result (h : Entered p header) :
    Returns p.parseXr (BlockResult p (some (p.ptr + header.lengthInOctets))) := by
  have hlen := h.length
  have hend := h.blockEnd
  refine h.block ?_
  unfold parseXr
  split
  · exact Entered.endCurrentBlock (Ahead.refl h.inBlock) h.state
  · refine (((Ahead.refl h.inBlock).skip 4).u32 (by omega)).bind fun (ssrc, q) hq => ?_
    exact hq.deliver (by omega) (by omega) (by simp)

theorem parseAPP_result (h : Entered p header) :
    Returns (p.parseAPP header) (BlockResult p (some (p.ptr + header.lengthInOctets))) := by
  have hlen := h.length
  have hend := h.blockEnd
  refine h.block ?_
  unfold parseAPP
  split
  · exact Entered.endCurrentBlock (Ahead.refl h.inBlock) h.state
  · refine (((Ahead.refl h.inBlock).skip 4).u32 (by omega)).bind fun (ssrc, q) hq => ?_
    refine (hq.u32 (by omega)).bind fun (name, q) hq => ?_
    exact hq.deliver (by omega) (by omega) (by simp)

theorem parseFBCommon_result (h : Entered p header)
    (hpt : header.pt = PT_RTPFB ∨ header.pt = PT_PSFB) :
    Returns (p.parseFBCommon header) (BlockResult p (continues header p.ptr)) := by
  have hlen := h.length
  have hend := h.blockEnd
  have hstop : ¬ (header.pt = PT_SR ∧ header.lengthInOctets < 28 ∨
      header.pt = PT_RR ∧ header.lengthInOctets < 8) := by
    rcases hpt with hpt | hpt <;> simp [hpt, PT_RTPFB, PT_PSFB, PT_SR, PT_RR]
  unfold parseFBCommon continues
  rw [if_neg hstop]
  split
  · rw [if_neg (by omega)]
    exact h.block (Entered.endCurrentBlock (Ahead.refl h.inBlock) h.state)
  rename_i hc
  refine (((Ahead.refl h.inBlock).skip 4).u32 (by omega)).bind fun (senderSSRC, q) hq => ?_
  refine (hq.u32 (by omega)).bind fun (mediaSSRC, q) hq => ?_
  dsimp only
  have hin : ∀ {item : Item} {state : ParseState}, state ≠ .topLevel →
      Returns (q.deliver item state) (BlockResult p (some (p.ptr + header.lengthInOctets))) :=
    fun hs => h.block (Ahead.deliver hq (by omega) (by omega) hs (q := q))
  have hout := h.block (Entered.endCurrentBlock hq h.state)
  have hempty : ∀ item, Returns (q.deliver item q.state) (BlockResult p (some (p.ptr + 12))) :=
    hq.deliverTop h.state (by omega) (by omega)
  split
  · rename_i hpt
    split
    · rename_i hic; rw [if_neg (by simp [hpt, hic, PT_RTPFB, PT_PSFB])]; exact hin (by simp)
    · rename_i hic; rw [if_neg (by simp [hpt, hic, PT_RTPFB, PT_PSFB])]; exact hin (by simp)
    · rename_i hic; rw [if_neg (by simp [hpt, hic, PT_RTPFB, PT_PSFB])]; exact hin (by simp)
    · rename_i hic; rw [if_pos ⟨Or.inl ⟨hpt, hic⟩, by omega⟩]; exact hempty _
    · rename_i hic
      have hne : header.ic ≠ 5 := hic
      rw [if_neg (by simp [hpt, hne, PT_RTPFB, PT_PSFB])]
      exact hout
  · rename_i hpt'
    have hpt := hpt.resolve_left hpt'
    split
    · rename_i hic; rw [if_pos ⟨Or.inr ⟨hpt, hic⟩, by omega⟩]; exact hempty _
    · rename_i hic; rw [if_neg (by simp [hpt, hic, PT_RTPFB, PT_PSFB])]; exact hin (by simp)
    · rename_i hic; rw [if_neg (by simp [hpt, hic, PT_RTPFB, PT_PSFB])]; exact hin (by simp)
    · rename_i hic; rw [if_neg (by simp [hpt, hic, PT_RTPFB, PT_PSFB])]; exact hin (by simp)
    · rename_i hic; rw [if_neg (by simp [hpt, hic, PT_RTPFB, PT_PSFB])]; exact hin (by simp)
    · rename_i hic _ _ _ _
      have hne : header.ic ≠ 1 := hic
      rw [if_neg (by simp [hpt, hne, PT_RTPFB, PT_PSFB])]
      exact hout

/-- The parser of a block, under the packet type. -/
theorem parseBlock_result (h : Entered p header) :
    Returns (p.parseBlock header) (BlockResult p (continues header p.ptr)) := by
  have hk : ∀ k, Entered { p with numberOfBlocks := k } header :=
    fun k => ⟨⟨h.inBlock.ptr, h.inBlock.aligned, h.inBlock.blockEnd⟩, h.blockEnd, h.word, h.packet,
      h.state⟩
  have hback : ∀ {k : Nat} {m : Option (Bool × Parser)} {next : Option Nat},
      Returns m (BlockResult { p with numberOfBlocks := k } next) → Returns m (BlockResult p next) := by
    intro k m next hm
    refine hm.mono fun r hr => ⟨⟨hr.stays.data, hr.stays.valid, hr.stays.blockStart,
      hr.stays.blockEnd, hr.stays.visited, hr.stays.ptr, hr.stays.reads⟩, hr.ptr, hr.cases⟩
  -- every other type goes on behind the block
  have hnext : header.pt ≠ PT_SR → header.pt ≠ PT_RR → header.pt ≠ PT_RTPFB →
      header.pt ≠ PT_PSFB → continues header p.ptr = some (p.ptr + header.lengthInOctets) := by
    intro h1 h2 h3 h4
    unfold continues
    rw [if_neg (by simp [h1, h2]), if_neg (by simp [h3, h4])]
  unfold parseBlock
  dsimp only
  generalize (if header.pt = PT_SR ∨ header.pt = PT_RR ∨ header.pt = PT_SDES ∨ header.pt = PT_BYE ∨
      header.pt = PT_IJ then header.ic else p.numberOfBlocks) = k
  refine hback (k := k) ?_
  split
  · rename_i hpt; exact parseSR_result (hk k) hpt
  rename_i h1
  split
  · rename_i hpt; exact parseRR_result (hk k) hpt
  rename_i h2
  split
  · rename_i hpt
    rw [hnext h1 h2 (by rw [hpt]; decide) (by rw [hpt]; decide)]
    exact parseSDES_result (hk k)
  split
  · rename_i hpt
    rw [hnext h1 h2 (by rw [hpt]; decide) (by rw [hpt]; decide)]
    exact parseBYE_result (hk k)
  split
  · rename_i hpt
    rw [hnext h1 h2 (by rw [hpt]; decide) (by rw [hpt]; decide)]
    exact parseIJ_result (hk k)
  split
  · rename_i hpt
    exact parseFBCommon_result (hk k) hpt
  rename_i hfb
  rw [hnext h1 h2 (fun hc => hfb (Or.inl hc)) (fun hc => hfb (Or.inr hc))]
  split
  · exact parseAPP_result (hk k)
  split
  · exact parseXr_result (hk k)
  · exact (hk k).block (Entered.endCurrentBlock (Ahead.refl (hk k).inBlock) h.state)

end Blocks

end Parser

end RtcCore.L1.Rtcp
