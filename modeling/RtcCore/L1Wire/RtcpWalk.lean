import RtcCore.L1Wire.RtcpParserSound

/-!
# The parser's walk over the packet

`RTCPParserV2` on any byte string: `Begin` and then `Iterate` reach
`kRtcpNotValidCode`, every call has a value (so every octet read is in the
packet), and every item comes from octets of its own block.

The blocks it enters are those the length fields of the headers delimit
(`wire`) under a condition on the packet only.

Results:
- `sound_iff_steady`: all of this holds exactly for the packets that are
  `Steady`, or that `Validate` rejects.
- `pli_desynchronises`: a PLI with four octets more than it needs. The parser
  takes them for the next block.
-/
namespace RtcCore.L1.Rtcp

open Bytes

/-! ## Two walks -/

/-- The length of the block at `off`, by the length field in its header. -/
def wireBlock (data : Bytes) (off : Nat) : Option Nat :=
  match slice data off 4 with
  | [b₀, _, b₂, b₃] =>
    let len := (b₂.toNat * 256 + b₃.toNat + 1) * 4
    if b₀.toNat / 64 = 2 ∧ off + len ≤ data.length then some len else none
  | _ => none

/-- Block after block. -/
def wire (data : Bytes) : Walk where
  block := wireBlock data
  next off len := some (off + len)

/-- The length of the block the parser enters at `off`. -/
def parserBlock (data : Bytes) (off : Nat) : Option Nat :=
  match parseCommonHeader data off with
  | none => none
  | some h => if off + h.lengthInOctets ≤ data.length then some h.lengthInOctets else none

def parserWalk (data : Bytes) : Walk where
  block := parserBlock data
  next off _ :=
    match parseCommonHeader data off with
    | none => none
    | some h => Parser.continues h off

theorem parseCommonHeader_some {data : Bytes} {off : Nat} {h : CommonHeader}
    (hh : parseCommonHeader data off = some h) :
    off + 4 ≤ data.length ∧ 4 ≤ h.lengthInOctets ∧ h.lengthInOctets % 4 = 0 := by
  unfold parseCommonHeader at hh
  split at hh
  · rename_i b₀ b₁ b₂ b₃ hs
    have hlen := congrArg List.length hs
    simp only [slice, List.length_take, List.length_drop, List.length_cons, List.length_nil] at hlen
    dsimp only at hh
    split at hh
    · cases hh
    rename_i hne
    split at hh
    · cases hh
    cases hh
    dsimp only
    omega
  · cases hh

theorem parserBlock_some {data : Bytes} {off len : Nat} (h : parserBlock data off = some len) :
    ∃ header, parseCommonHeader data off = some header ∧ len = header.lengthInOctets ∧
      off + len ≤ data.length := by
  unfold parserBlock at h
  split at h
  · cases h
  · rename_i header hh
    split at h
    · rename_i hle
      cases h
      exact ⟨header, hh, rfl, hle⟩
    · cases h

theorem wireBlock_some {data : Bytes} {off len : Nat} (h : wireBlock data off = some len) :
    4 ≤ len ∧ off + len ≤ data.length := by
  unfold wireBlock at h
  split at h
  · dsimp only at h
    split at h
    · rename_i hc
      cases h
      omega
    · cases h
  · cases h

theorem wire_bounded (data : Bytes) : (wire data).Bounded data.length where
  inside h := by
    have := wireBlock_some h
    omega
  forward h hn := by
    have := wireBlock_some h
    cases hn
    omega

theorem parserWalk_bounded (data : Bytes) : (parserWalk data).Bounded data.length where
  inside h := by
    obtain ⟨header, hh, rfl, hle⟩ := parserBlock_some h
    have := parseCommonHeader_some hh
    omega
  forward {off len next} h hn := by
    obtain ⟨header, hh, rfl, hle⟩ := parserBlock_some h
    have hb := parseCommonHeader_some hh
    change (match parseCommonHeader data off with
      | none => none
      | some h => Parser.continues h off) = some next at hn
    rw [hh] at hn
    change Parser.continues header off = some next at hn
    unfold Parser.continues at hn
    split at hn
    · cases hn
    split at hn
    · cases hn
      omega
    · cases hn
      omega

/-- Both walks from `off`: the block there, and what is behind it. -/
theorem parserWalk_blocks {data : Bytes} {off : Nat} {h : CommonHeader}
    (hh : parseCommonHeader data off = some h) (hle : off + h.lengthInOctets ≤ data.length) :
    (parserWalk data).blocks data.length off = (off, h.lengthInOctets) ::
      match Parser.continues h off with
      | none => []
      | some next => (parserWalk data).blocks data.length next := by
  have hb : (parserWalk data).block off = some h.lengthInOctets := by
    show parserBlock data off = _
    unfold parserBlock
    rw [hh]
    exact if_pos hle
  have hn : (parserWalk data).next off h.lengthInOctets = Parser.continues h off := by
    show (match parseCommonHeader data off with
      | none => none
      | some h => Parser.continues h off) = _
    rw [hh]
  have heq := (parserWalk_bounded data).blocks_eq off
  rw [hb] at heq
  simp only [hn] at heq
  exact heq

theorem wire_blocks {data : Bytes} {off len : Nat} (hb : wireBlock data off = some len) :
    (wire data).blocks data.length off = (off, len) :: (wire data).blocks data.length (off + len) := by
  have hb' : (wire data).block off = some len := hb
  rw [(wire_bounded data).blocks_eq, hb']
  rfl

namespace Parser

/-! ## The blocks entered and to come -/

/-- Where the next block is looked for. -/
def resume (p : Parser) : Nat := if p.state = .topLevel then p.ptr else p.blockEnd

/-- The blocks entered so far and those the walk still has before it. -/
def total (p : Parser) : List (Nat × Nat) :=
  p.visited.reverse ++ (parserWalk p.data).blocks p.data.length p.resume

/-- The current block is the last one entered, and the octets read since then
are its own. -/
structure OwnBlock (p : Parser) : Prop where
  entered : ∃ len rest, p.visited = (p.blockStart, len) :: rest ∧ p.blockEnd = p.blockStart + len
  ptr : p.blockStart ≤ p.ptr
  reads : ∀ i ∈ p.reads, p.blockStart ≤ i ∧ i < p.blockEnd

theorem OwnBlock.stays {p q : Parser} (h : OwnBlock p) (hpq : Stays p q) : OwnBlock q where
  entered := by
    rw [hpq.visited, hpq.blockStart, hpq.blockEnd]
    exact h.entered
  ptr := by
    rw [hpq.blockStart]
    exact Nat.le_trans h.ptr hpq.ptr
  reads i hi := by
    rw [hpq.blockStart, hpq.blockEnd]
    rcases hpq.reads i hi with hi | ⟨h1, h2⟩
    · exact h.reads i hi
    · exact ⟨Nat.le_trans h.ptr h1, h2⟩

theorem ownBlock_enter (p : Parser) {len : Nat} (hlen : 4 ≤ len) : OwnBlock (p.enter len) where
  entered := ⟨len, p.visited, rfl, rfl⟩
  ptr := Nat.le_refl _
  reads i hi := by
    have := List.mem_range'_1.1 hi
    show p.ptr ≤ i ∧ i < p.ptr + len
    omega

/-- Between two calls. -/
structure Ready (p : Parser) : Prop where
  bound : p.ptr ≤ p.data.length
  inBlock : p.state ≠ .topLevel → InBlock p ∧ OwnBlock p

/-- `q`, with an item, is behind `p` on the same walk. -/
structure Live (p q : Parser) : Prop where
  data : q.data = p.data
  valid : q.validPacket = p.validPacket
  total : q.total = p.total
  ptr : p.ptr < q.ptr
  packet : q.packet.isSome = true
  ready : Ready q
  own : OwnBlock q

/-- No item is left, and every block of the walk was entered. -/
def Ended (p q : Parser) : Prop := q.packet = none ∧ q.visited.reverse = p.total

/-- What a call does. -/
def CallResult (p q : Parser) : Prop := Ended p q ∨ Live p q

/-- The call goes on from `q`. -/
theorem CallResult.from {p q r : Parser} (h : CallResult q r) (hd : q.data = p.data)
    (hv : q.validPacket = p.validPacket) (ht : q.total = p.total) (hp : p.ptr ≤ q.ptr) :
    CallResult p r := by
  rcases h with ⟨hn, hr⟩ | h
  · exact Or.inl ⟨hn, hr.trans ht⟩
  · exact Or.inr ⟨h.data.trans hd, h.valid.trans hv, h.total.trans ht, Nat.lt_of_le_of_lt hp h.ptr,
      h.packet, h.ready, h.own⟩

/-! ## The top level -/

section TopLevel

variable {p : Parser} {header : CommonHeader}

theorem total_no_block (hs : p.state = .topLevel) (hb : parserBlock p.data p.ptr = none) :
    p.visited.reverse = p.total := by
  unfold total resume
  rw [if_pos hs, ((parserWalk_bounded p.data).blocks_nil p.ptr).2 hb, List.append_nil]

/-- The block at the pointer, and the walk behind it. -/
theorem total_enter (hs : p.state = .topLevel) (hh : parseCommonHeader p.data p.ptr = some header)
    (hle : p.ptr + header.lengthInOctets ≤ p.data.length) :
    p.total = (p.enter header.lengthInOctets).visited.reverse ++
      match continues header p.ptr with
      | none => []
      | some next => (parserWalk p.data).blocks p.data.length next := by
  have hv : (p.enter header.lengthInOctets).visited = (p.ptr, header.lengthInOctets) :: p.visited :=
    rfl
  unfold total resume
  rw [if_pos hs, parserWalk_blocks hh hle, hv, List.reverse_cons, List.append_assoc]
  rfl

theorem entered_enter (hs : p.state = .topLevel) (hp : p.packet = none)
    (hh : parseCommonHeader p.data p.ptr = some header)
    (hle : p.ptr + header.lengthInOctets ≤ p.data.length) :
    Entered (p.enter header.lengthInOctets) header := by
  obtain ⟨-, hword, hal⟩ := parseCommonHeader_some hh
  refine ⟨⟨Nat.le_add_right .., ?_, hle⟩, rfl, hword, hp, hs⟩
  show (p.ptr + header.lengthInOctets - p.ptr) % 4 = 0
  omega

theorem iterateTopLevel_result : ∀ (fuel : Nat) {p : Parser}, p.state = .topLevel →
    p.packet = none → p.ptr ≤ p.data.length → p.data.length - p.ptr < fuel →
    Returns (iterateTopLevel fuel p) (CallResult p) := by
  intro fuel
  induction fuel with
  | zero => intro p _ _ _ hf; omega
  | succ fuel ih =>
    intro p hs hp hb hf
    unfold iterateTopLevel
    cases hh : parseCommonHeader p.data p.ptr with
    | none =>
      refine .some (Or.inl ⟨hp, total_no_block hs ?_⟩)
      unfold parserBlock
      rw [hh]
    | some header =>
      dsimp only
      split
      · rename_i hlt
        refine .some (Or.inl ⟨hp, total_no_block hs ?_⟩)
        unfold parserBlock
        rw [hh]
        exact if_neg (by omega)
      rename_i hle
      replace hle := Nat.le_of_not_lt hle
      have hen := entered_enter hs hp hh hle
      have ht := total_enter hs hh hle
      have hown := ownBlock_enter p hen.word
      obtain ⟨⟨b, q⟩, hq, hres⟩ := parseBlock_result hen
      have hst := hres.stays
      have hqown := hown.stays hst
      rw [hq]
      have hdata : q.data = p.data := hst.data
      have hvalid : q.validPacket = p.validPacket := hst.valid
      have hvis : q.visited = (p.enter header.lengthInOctets).visited := hst.visited
      have hbound : q.ptr ≤ q.data.length := by
        have h1 : q.ptr ≤ q.blockEnd := hres.ptr
        have h2 : q.blockEnd = p.ptr + header.lengthInOctets := hst.blockEnd
        rw [hdata]
        omega
      -- the walk goes on where `q` looks for the next block
      have htotal : continues header p.ptr = some q.resume → q.total = p.total := by
        intro hn
        rw [ht, hn]
        unfold total
        rw [hdata, hvis]
      rcases hres.cases with ⟨rfl, h2, h3, h4⟩ | ⟨rfl, h2, h3⟩ | ⟨rfl, h2, h3, h4, h5⟩
      · refine .some (Or.inr ⟨hdata, hvalid, htotal ?_, h3, h2, ⟨hbound, ?_⟩, hqown⟩)
        · unfold resume
          rcases h4 with ⟨hne, -, hn⟩ | ⟨he, hn⟩
          · rw [if_neg hne]
            exact hn
          · rw [if_pos he]
            exact hn
        · intro hne
          rcases h4 with ⟨-, hin, -⟩ | ⟨he, -⟩
          · exact ⟨hin, hqown⟩
          · exact absurd he hne
      · have h3 : continues header p.ptr = none := h3
        refine .some (Or.inl ⟨h2, ?_⟩)
        show q.visited.reverse = _
        rw [ht, h3, hvis, List.append_nil]
      · have h5 : p.ptr < q.ptr := h5
        have hn : q.resume = q.ptr := if_pos h3
        have hlt : q.data.length - q.ptr < fuel := by
          rw [hdata] at hbound ⊢
          omega
        refine (ih h3 h2 hbound hlt).mono fun r hr => ?_
        exact hr.from hdata hvalid (htotal (by rw [hn]; exact h4)) (Nat.le_of_lt h5)

end TopLevel

/-! ## A call -/

/-- An item parser that delivers nothing ends the block or, in an extended
report, goes forward or comes back from a DLRR block. -/
def measure (p : Parser) : Nat :=
  if p.state = .topLevel then 0
  else 2 * (p.blockEnd - p.ptr) + if p.state = .xrDlrrItem then 2 else 1

theorem iterateFuel_result : ∀ (fuel : Nat) {p : Parser}, p.validPacket = true → Ready p →
    p.measure < fuel → Returns (iterateFuel fuel p) (CallResult p) := by
  intro fuel
  induction fuel with
  | zero => intro p _ _ hf; omega
  | succ fuel ih =>
    intro p hv hr hf
    unfold iterateFuel
    dsimp only
    rw [if_neg (by simp [hv])]
    by_cases hs : p.state = .topLevel
    · rw [if_pos hs]
      refine (iterateTopLevel_result _ (p := { p with packet := none }) hs rfl hr.bound ?_).mono
        fun q hq => hq.from rfl rfl rfl (Nat.le_refl _)
      show p.data.length - p.ptr < p.data.length + 1
      omega
    rw [if_neg hs]
    obtain ⟨hin, hown⟩ := hr.inBlock hs
    have hin' : InBlock { p with packet := none } := ⟨hin.ptr, hin.aligned, hin.blockEnd⟩
    obtain ⟨⟨b, q⟩, hq, hres⟩ := parseItem_result hin' hs
    rw [hq]
    have hst : Stays p q := ⟨hres.stays.data, hres.stays.valid, hres.stays.blockStart,
      hres.stays.blockEnd, hres.stays.visited, hres.stays.ptr, hres.stays.reads⟩
    have hbound : q.ptr ≤ q.data.length := Nat.le_trans hres.inBlock.ptr hres.inBlock.blockEnd
    have hresume : p.resume = p.blockEnd := if_neg hs
    have htotal : q.resume = p.blockEnd → q.total = p.total := by
      intro h
      unfold total
      rw [hst.data, hst.visited, h, hresume]
    have hmeasure : p.measure = 2 * (p.blockEnd - p.ptr) + if p.state = .xrDlrrItem then 2 else 1 :=
      if_neg hs
    have hend : q.blockEnd = p.blockEnd := hst.blockEnd
    have hle : p.ptr ≤ q.ptr := hst.ptr
    have hqle : q.ptr ≤ q.blockEnd := hres.inBlock.ptr
    have hqv : q.validPacket = true := hst.valid.trans hv
    rcases hres.cases with ⟨rfl, h2, h3, h4⟩ | ⟨rfl, -, h3, h4⟩ | ⟨rfl, -, h3, h4⟩
    · have hq' : q.resume = p.blockEnd := (if_neg h3).trans hend
      exact .some (Or.inr ⟨hst.data, hst.valid, htotal hq', h4, h2,
        ⟨hbound, fun _ => ⟨hres.inBlock, hown.stays hst⟩⟩, hown.stays hst⟩)
    · have h3 : q.state = .topLevel := h3
      have h4 : q.ptr = q.blockEnd := h4
      have hq' : q.resume = p.blockEnd := (if_pos h3).trans (h4.trans hend)
      have hm : q.measure = 0 := if_pos h3
      have hpos : 0 < p.measure := by
        rw [hmeasure]
        split <;> omega
      refine (ih hqv ⟨hbound, fun hne => absurd h3 hne⟩ (by omega)).mono fun r hr => ?_
      exact hr.from hst.data hst.valid (htotal hq') hle
    · have h3 : q.state = .xrItem := h3
      have hne : q.state ≠ .topLevel := by rw [h3]; simp
      have hq' : q.resume = p.blockEnd := (if_neg hne).trans hend
      have hm : q.measure = 2 * (q.blockEnd - q.ptr) + 1 := by
        unfold measure
        rw [if_neg hne, h3]
        rfl
      have hlt : q.measure < p.measure := by
        rw [hm, hmeasure]
        rcases h4 with ⟨h4, h5⟩ | h4
        · have h4 : p.state = .xrItem := h4
          have h5 : p.ptr < q.ptr := h5
          rw [h4]
          simp only [reduceCtorEq, if_false]
          omega
        · have h4 : p.state = .xrDlrrItem := h4
          rw [h4, if_pos rfl]
          omega
      refine (ih hqv ⟨hbound, fun _ => ⟨hres.inBlock, hown.stays hst⟩⟩ (by omega)).mono
        fun r hr => ?_
      exact hr.from hst.data hst.valid (htotal hq') hle

theorem iterate_result {p : Parser} (hv : p.validPacket = true) (hr : Ready p) :
    Returns p.iterate (CallResult p) := by
  refine iterateFuel_result _ hv hr ?_
  unfold measure
  split
  · omega
  · rename_i hs
    have := (hr.inBlock hs).1.blockEnd
    split <;> omega

/-! ## The run -/

theorem Live.trans {p q r : Parser} (h : Live p q) (h' : Live q r) : Live p r :=
  ⟨h'.data.trans h.data, h'.valid.trans h.valid, h'.total.trans h.total, Nat.lt_trans h.ptr h'.ptr,
    h'.packet, h'.ready, h'.own⟩

/-- Every call moves the pointer, so the items end. -/
theorem calls_end {p : Parser} (hv : p.validPacket = true) : ∀ (d k : Nat),
    Returns (p.calls k) (fun q => Live p q ∧ q.data.length - q.ptr < d) →
    (∀ i < k, Returns (p.calls i) (Live p)) →
    ∃ n, (∀ i < n, Returns (p.calls i) (Live p)) ∧ Returns (p.calls n) (Ended p) := by
  intro d
  induction d with
  | zero =>
    intro k hk _
    obtain ⟨q, -, -, hd⟩ := hk
    omega
  | succ d ih =>
    intro k hk hlive
    obtain ⟨q, hq, hl, hd⟩ := hk
    obtain ⟨r, hr, hres⟩ := iterate_result (hl.valid.trans hv) hl.ready
    have hcall : p.calls (k + 1) = some r := by
      unfold calls
      rw [hq]
      exact hr
    have hlive' : ∀ i < k + 1, Returns (p.calls i) (Live p) := by
      intro i hi
      by_cases hik : i = k
      · exact hik ▸ ⟨q, hq, hl⟩
      · exact hlive i (by omega)
    rcases hres with ⟨hn, ht⟩ | hl'
    · exact ⟨k + 1, hlive', r, hcall, hn, ht.trans hl.total⟩
    · refine ih (k + 1) ⟨r, hcall, hl.trans hl', ?_⟩ hlive'
      have h1 := hl'.ptr
      have h2 := hl'.ready.bound
      rw [hl'.data] at h2 ⊢
      omega

section New

variable (data : Bytes) (reduced : Bool)

theorem new_total : (new data reduced).total = (parserWalk data).blocks data.length 0 := rfl

/-- A valid packet: items from the blocks of the walk, then none. -/
theorem new_run (hv : (new data reduced).validPacket = true) :
    ∃ n, (∀ i < n, Returns ((new data reduced).calls i) (Live (new data reduced))) ∧
      Returns ((new data reduced).calls n) (Ended (new data reduced)) := by
  have hr : Ready (new data reduced) := ⟨Nat.zero_le _, fun hs => absurd rfl hs⟩
  obtain ⟨q, hq, hres⟩ := iterate_result hv hr
  have hcall : (new data reduced).calls 0 = some q := hq
  rcases hres with hn | hl
  · exact ⟨0, fun i hi => absurd hi (Nat.not_lt_zero i), q, hcall, hn⟩
  · exact calls_end hv _ 0 ⟨q, hcall, hl, Nat.lt_succ_self _⟩
      fun i hi => absurd hi (Nat.not_lt_zero i)

theorem new_invalid (hv : (new data reduced).validPacket = false) :
    Returns ((new data reduced).calls 0) fun q => q.packet = none ∧ q.visited = [] := by
  refine ⟨new data reduced, ?_, rfl, rfl⟩
  unfold calls begin iterate iterateFuel
  dsimp only
  rw [if_pos (by rw [hv]; rfl)]
  rfl

/-! ## What is asked of the parser -/

/-- The blocks the parser has to enter: none of a packet that `Validate` turns
down, else those the length fields delimit. -/
def wireBlocks : List (Nat × Nat) :=
  if (new data reduced).validPacket then (wire data).blocks data.length 0 else []

/-- An item, from octets of a block that the length fields delimit. -/
def Delivered (q : Parser) : Prop :=
  q.packet.isSome = true ∧ ∃ len, (q.blockStart, len) ∈ wireBlocks data reduced ∧
    ∀ i ∈ q.reads, q.blockStart ≤ i ∧ i < q.blockStart + len

/-- Every call has a value; the first calls deliver items, each from its block;
then comes `kRtcpNotValidCode`, with the blocks entered in order. -/
def Sound : Prop :=
  ∃ n, (∀ k < n, Returns ((new data reduced).calls k) (Delivered data reduced)) ∧
    Returns ((new data reduced).calls n) fun q =>
      q.packet = none ∧ q.visited.reverse = wireBlocks data reduced

variable {data reduced}

theorem Live.delivered {q : Parser} (hl : Live (new data reduced) q)
    (hw : (new data reduced).total = wireBlocks data reduced) : Delivered data reduced q := by
  obtain ⟨len, rest, hvis, hend⟩ := hl.own.entered
  refine ⟨hl.packet, len, ?_, ?_⟩
  · rw [← hw, ← hl.total]
    unfold Parser.total
    rw [hvis]
    simp
  · rw [← hend]
    exact hl.own.reads

/-- The two walks have to agree. -/
theorem sound_iff_walk : Sound data reduced ↔ ((new data reduced).validPacket = true →
    (parserWalk data).blocks data.length 0 = (wire data).blocks data.length 0) := by
  cases hv : (new data reduced).validPacket with
  | false =>
    refine ⟨fun _ h => absurd h (by simp), fun _ => ?_⟩
    refine ⟨0, fun k hk => absurd hk (Nat.not_lt_zero k), (new_invalid data reduced hv).mono ?_⟩
    rintro q ⟨hp, hvis⟩
    refine ⟨hp, ?_⟩
    rw [hvis, wireBlocks, hv]
    rfl
  | true =>
    obtain ⟨n, hlive, q, hq, hn, htot⟩ := new_run data reduced hv
    have hwb : wireBlocks data reduced = (wire data).blocks data.length 0 := by
      rw [wireBlocks, hv, if_pos rfl]
    rw [new_total] at htot
    constructor
    · rintro ⟨m, hdel, r, hr, hrn, hrv⟩ -
      -- the first call without an item is the same in both
      have hmn : m = n := by
        rcases Nat.lt_trichotomy m n with hlt | heq | hlt
        · obtain ⟨r', hr', hl⟩ := hlive m hlt
          rw [hr] at hr'
          cases hr'
          have := hl.packet
          rw [hrn] at this
          cases this
        · exact heq
        · obtain ⟨q', hq', hd⟩ := hdel n hlt
          rw [hq] at hq'
          cases hq'
          have := hd.1
          rw [hn] at this
          cases this
      rw [hmn, hq] at hr
      cases hr
      rw [← htot, hrv, hwb]
    · intro hw
      have hw := hw rfl
      have htw : (new data reduced).total = wireBlocks data reduced := by
        rw [new_total, hw, hwb]
      refine ⟨n, fun k hk => (hlive k hk).mono fun r hr => hr.delivered htw, q, hq, hn, ?_⟩
      rw [htot, hw, hwb]

end New

end Parser

/-! ## When the walks agree -/

/-- A report the parser finds too short; it ends the iteration. -/
def CommonHeader.shortReport (h : CommonHeader) : Prop :=
  h.pt = PT_SR ∧ h.lengthInOctets < 28 ∨ h.pt = PT_RR ∧ h.lengthInOctets < 8

/-- An SR-REQ or a PLI with octets behind its two SSRCs. -/
def CommonHeader.longFeedback (h : CommonHeader) : Prop :=
  (h.pt = PT_RTPFB ∧ h.ic = 5 ∨ h.pt = PT_PSFB ∧ h.ic = 1) ∧ 12 < h.lengthInOctets

instance (h : CommonHeader) : Decidable h.shortReport := inferInstanceAs (Decidable (_ ∨ _))

instance (h : CommonHeader) : Decidable h.longFeedback := inferInstanceAs (Decidable (_ ∧ _))

/-- From `off` on: every header is read with the length it states, no block
stands behind a report that is too short, and where an SR-REQ or a PLI is longer
than its two SSRCs no block stands behind it and none seems to start behind its
SSRCs. -/
def SteadyFrom (data : Bytes) : Nat → Nat → Prop
  | 0, _ => True
  | fuel + 1, off =>
    parserBlock data off = wireBlock data off ∧
    match parseCommonHeader data off, wireBlock data off with
    | some h, some len =>
      if h.shortReport then wireBlock data (off + len) = none
      else if h.longFeedback then
        wireBlock data (off + len) = none ∧ parserBlock data (off + 12) = none
      else SteadyFrom data fuel (off + len)
    | _, _ => True

def Steady (data : Bytes) : Prop := SteadyFrom data (data.length + 1) 0

theorem continues_steady {h : CommonHeader} {off : Nat} (hs : ¬ h.shortReport)
    (hl : ¬ h.longFeedback) : Parser.continues h off = some (off + h.lengthInOctets) := by
  unfold CommonHeader.shortReport at hs
  unfold CommonHeader.longFeedback at hl
  unfold Parser.continues
  rw [if_neg hs]
  split
  · rename_i hc
    have : h.lengthInOctets = 12 := by
      by_cases hlt : 12 < h.lengthInOctets
      · exact absurd ⟨hc.1, hlt⟩ hl
      · omega
    rw [this]
  · rfl

theorem continues_longFeedback {h : CommonHeader} {off : Nat} (hs : ¬ h.shortReport)
    (hl : h.longFeedback) : Parser.continues h off = some (off + 12) := by
  unfold CommonHeader.shortReport at hs
  unfold Parser.continues
  rw [if_neg hs, if_pos ⟨hl.1, Nat.le_of_lt hl.2⟩]

theorem steadyFrom_iff {data : Bytes} : ∀ (fuel : Nat) {off : Nat}, data.length - off < fuel →
    (SteadyFrom data fuel off ↔
      (parserWalk data).blocks data.length off = (wire data).blocks data.length off) := by
  intro fuel
  induction fuel with
  | zero => intro off hf; omega
  | succ fuel ih =>
    intro off hf
    have hpnil := (parserWalk_bounded data).blocks_nil
    have hwnil := (wire_bounded data).blocks_nil
    unfold SteadyFrom
    cases hw : wireBlock data off with
    | none =>
      have hwn : (wire data).blocks data.length off = [] := (hwnil off).2 hw
      rw [hwn, hpnil]
      constructor
      · exact fun h => h.1
      · intro h
        refine ⟨h, ?_⟩
        split
        · rename_i hc
          cases hc
        · trivial
    | some len =>
      cases hp : parserBlock data off with
      | none =>
        have hpn : (parserWalk data).blocks data.length off = [] := (hpnil off).2 hp
        rw [hpn, wire_blocks hw]
        constructor
        · rintro ⟨h, -⟩
          cases h
        · intro h
          cases h
      | some len' =>
        obtain ⟨h, hh, rfl, hle⟩ := parserBlock_some hp
        rw [parserWalk_blocks hh hle, wire_blocks hw, hh]
        dsimp only
        have hlen := wireBlock_some hw
        rw [List.cons.injEq, Prod.mk.injEq, Option.some.injEq]
        by_cases heq : h.lengthInOctets = len
        case neg => simp [heq]
        subst heq
        simp only [true_and]
        by_cases hs : h.shortReport
        · have hc : Parser.continues h off = none := if_pos hs
          rw [if_pos hs, hc, eq_comm (a := []), hwnil]
          rfl
        rw [if_neg hs]
        by_cases hl : h.longFeedback
        · rw [if_pos hl, continues_longFeedback hs hl]
          dsimp only
          -- the walks part here
          have hne : off + 12 ≠ off + h.lengthInOctets := by
            have := hl.2
            omega
          rw [(parserWalk_bounded data).blocks_eq_iff_of_ne (wire_bounded data) hne]
          exact And.comm
        · rw [if_neg hl, continues_steady hs hl]
          exact ih (by omega)

namespace Parser

/-- The parser does what is asked of it on exactly the steady packets. -/
theorem sound_iff_steady (data : Bytes) (reduced : Bool) :
    Sound data reduced ↔ ((new data reduced).validPacket = true → Steady data) := by
  rw [sound_iff_walk]
  have h := steadyFrom_iff (data.length + 1) (show data.length - 0 < data.length + 1 by omega)
  exact ⟨fun hw hv => h.2 (hw hv), fun hs hv => h.1 (hs hv)⟩

/-- A receiver report, and a PLI with one word more than it needs: a `BYE`
header inside the PLI is taken for the next block. -/
theorem pli_desynchronises :
    ¬ Sound [0x80, 201, 0, 1, 0, 0, 0, 5,
      0x81, 206, 0, 3, 0, 0, 0, 1, 0, 0, 0, 2, 0x80, 203, 0, 0] false := by
  rw [sound_iff_walk]
  decide

end Parser

end RtcCore.L1.Rtcp
