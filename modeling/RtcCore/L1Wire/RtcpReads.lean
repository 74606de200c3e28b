import RtcCore.Core.Returns
import RtcCore.L1Wire.RtcpPacket

/-!
# The parser on octets that are known

`At p inner rest s k`: the parser stands in a block with the octets `inner`
left and `rest` behind the block. Reading what a builder wrote gives the value
back and leaves the parser behind it.

`Yields n p items`: the calls of `Iterate` deliver the items in order and then
`kRtcpNotValidCode`; the first call needs `n` rounds.
-/
namespace RtcCore.L1.Rtcp

open Bytes

namespace Parser

/-- An item parser delivers `i`. -/
def Delivers (m : Option (Bool × Parser)) (i : Item) (Q : Parser → Prop) : Prop :=
  Returns m fun r => r.1 = true ∧ r.2.packet = some i ∧ Q r.2

/-- It delivers nothing. -/
def Passes (m : Option (Bool × Parser)) (Q : Parser → Prop) : Prop :=
  Returns m fun r => r.1 = false ∧ Q r.2

theorem Delivers.mono {m : Option (Bool × Parser)} {i : Item} {P Q : Parser → Prop}
    (h : Delivers m i P) (hPQ : ∀ q, P q → Q q) : Delivers m i Q := by
  obtain ⟨r, hr, hb, hp, hP⟩ := h
  exact ⟨r, hr, hb, hp, hPQ _ hP⟩

/-! ## Where the parser stands -/

structure At (p : Parser) (inner rest : Bytes) (s : ParseState) (k : Nat) : Prop where
  valid : p.validPacket = true
  bound : p.ptr ≤ p.data.length
  data : p.data.drop p.ptr = inner ++ rest
  blockEnd : p.blockEnd = p.ptr + inner.length
  state : p.state = s
  blocks : p.numberOfBlocks = k

section At

variable {p : Parser} {b inner rest : Bytes} {s : ParseState} {k : Nat}

theorem At.length (h : At p inner rest s k) : p.length = inner.length := by
  unfold Parser.length
  rw [h.blockEnd]
  omega

/-- Octets passed over. -/
theorem At.skip (h : At p (b ++ inner) rest s k) : At (p.skip b.length) inner rest s k := by
  have hb := congrArg List.length h.data
  simp only [List.length_drop, List.length_append] at hb
  have hbound := h.bound
  refine ⟨h.valid, ?_, ?_, ?_, h.state, h.blocks⟩
  · show p.ptr + b.length ≤ p.data.length
    omega
  · show p.data.drop (p.ptr + b.length) = inner ++ rest
    rw [← List.drop_drop, h.data, List.append_assoc, List.drop_left]
  · show p.blockEnd = p.ptr + b.length + inner.length
    rw [h.blockEnd, List.length_append]
    omega

theorem value_be16 {n : Nat} (hn : n < 65536) : value (be16 n) = n := by
  simp [value, be16]
  omega

theorem value_be24 (n : Nat) : value (be24 n) = n % 16777216 := by
  simp [value, be24]
  omega

theorem value_be32 {n : Nat} (hn : n < 4294967296) : value (be32 n) = n := by
  simp [value, be32]
  omega

section Reading

variable {β : Type} {f : Bytes × Parser → Option β} {Q : β → Prop}

/-- Octets read. -/
theorem At.read (h : At p (b ++ inner) rest s k) {n : Nat} (hn : b.length = n)
    (hk : ∀ q, At q inner rest s k → Returns (f (b, q)) Q) : Returns (p.read n >>= f) Q := by
  subst hn
  have hb := congrArg List.length h.data
  simp only [List.length_drop, List.length_append] at hb
  have hbound := h.bound
  have hr : p.read b.length = some (b, p.advance b.length) := by
    unfold Parser.read slice
    rw [if_pos (by omega), h.data, List.append_assoc, List.take_left]
  rw [hr]
  have hs := h.skip
  exact hk _ ⟨hs.valid, hs.bound, hs.data, hs.blockEnd, hs.state, hs.blocks⟩

end Reading

/-- The reading functions of one width: octets, and their value. -/
def readAs {γ : Type} (val : Bytes → γ) (n : Nat) (p : Parser) : Option (γ × Parser) :=
  match p.read n with
  | none => none
  | some (b, p) => some (val b, p)

theorem At.word {γ β : Type} {n : Nat} {val : Bytes → γ} {f : γ × Parser → Option β} {Q : β → Prop}
    (h : At p (b ++ inner) rest s k) (hn : b.length = n)
    (hk : ∀ q, At q inner rest s k → Returns (f (val b, q)) Q) :
    Returns (p.readAs val n >>= f) Q := by
  obtain ⟨r, hr, hQ⟩ := h.read (f := fun r => f (val r.1, r.2)) hn hk
  refine ⟨r, ?_, hQ⟩
  unfold readAs
  cases hm : p.read n with
  | none =>
    rw [hm] at hr
    cases hr
  | some x =>
    rw [hm] at hr
    exact hr

section Words

variable {β : Type} {Q : β → Prop}

theorem At.u8 {v : UInt8} {f : UInt8 × Parser → Option β} (h : At p (assignUWord8 v ++ inner) rest s k)
    (hk : ∀ q, At q inner rest s k → Returns (f (v, q)) Q) : Returns (p.u8 >>= f) Q := by
  refine h.word rfl fun q hq => ?_
  rw [show UInt8.ofNat (value (assignUWord8 v)) = v by simp [value, assignUWord8]]
  exact hk q hq

theorem At.u16 {v : UInt16} {f : UInt16 × Parser → Option β}
    (h : At p (assignUWord16 v ++ inner) rest s k)
    (hk : ∀ q, At q inner rest s k → Returns (f (v, q)) Q) : Returns (p.u16 >>= f) Q := by
  refine h.word rfl fun q hq => ?_
  rw [assignUWord16, value_be16 v.toNat_lt, UInt16.ofNat_toNat]
  exact hk q hq

theorem At.u24 {v : UInt32} {f : UInt32 × Parser → Option β}
    (h : At p (assignUWord24 v ++ inner) rest s k)
    (hk : ∀ q, At q inner rest s k → Returns (f (UInt32.ofNat (v.toNat % 16777216), q)) Q) :
    Returns (p.u24 >>= f) Q := by
  refine h.word rfl fun q hq => ?_
  rw [assignUWord24, value_be24]
  exact hk q hq

theorem At.u32 {v : UInt32} {f : UInt32 × Parser → Option β}
    (h : At p (assignUWord32 v ++ inner) rest s k)
    (hk : ∀ q, At q inner rest s k → Returns (f (v, q)) Q) : Returns (p.u32 >>= f) Q := by
  refine h.word rfl fun q hq => ?_
  rw [assignUWord32, value_be32 v.toNat_lt, UInt32.ofNat_toNat]
  exact hk q hq

end Words

/-- What a call sets and the item parsers do not look at. -/
theorem At.reset (h : At p inner rest s k) : At { p with packet := none } inner rest s k :=
  ⟨h.valid, h.bound, h.data, h.blockEnd, h.state, h.blocks⟩

theorem At.setBlocks (h : At p inner rest s k) (m : Nat) :
    At { p with numberOfBlocks := m } inner rest s m :=
  ⟨h.valid, h.bound, h.data, h.blockEnd, h.state, rfl⟩

/-- An item of the same kind may follow. -/
theorem At.deliverSame (h : At p inner rest s k) (item : Item) :
    Delivers (p.deliver item p.state) item fun q => At q inner rest s k :=
  .some ⟨rfl, rfl, h.valid, h.bound, h.data, h.blockEnd, h.state, h.blocks⟩

/-- One of the items announced by the counter. -/
theorem At.deliverCounted (h : At p inner rest s (k + 1)) (item : Item) :
    Delivers (({ p with numberOfBlocks := p.numberOfBlocks - 1 } : Parser).deliver item p.state) item
      fun q => At q inner rest s k := by
  refine .some ⟨rfl, rfl, h.valid, h.bound, h.data, h.blockEnd, h.state, ?_⟩
  show p.numberOfBlocks - 1 = k
  rw [h.blocks]
  omega

/-- An item and the next state. -/
theorem At.deliver (h : At p inner rest s k) (item : Item) (t : ParseState) :
    Delivers (p.deliver item t) item fun q => At q inner rest t k :=
  .some ⟨rfl, rfl, h.valid, h.bound, h.data, h.blockEnd, rfl, h.blocks⟩

/-- The rest of the block is passed over. -/
theorem At.endCurrentBlock (h : At p inner rest s k) : At p.endCurrentBlock [] rest s k := by
  have hs := (show At p (inner ++ []) rest s k by rw [List.append_nil]; exact h).skip
  refine ⟨h.valid, ?_, ?_, rfl, h.state, h.blocks⟩
  · show p.blockEnd ≤ p.data.length
    rw [h.blockEnd]
    exact hs.bound
  · show p.data.drop p.blockEnd = rest
    rw [h.blockEnd]
    exact hs.data

theorem At.leave (h : At p inner rest s k) :
    Passes p.leave fun q => At q [] rest .topLevel k := by
  have he := h.endCurrentBlock
  exact .some ⟨rfl, he.valid, he.bound, he.data, he.blockEnd, rfl, he.blocks⟩

end At

/-! ## Calls -/

/-- A call of `Iterate` on `p` leaves `q`, in up to `n` rounds. -/
def Next (n : Nat) (p q : Parser) : Prop := ∀ fuel, iterateFuel (fuel + n) p = some q

inductive Yields : Nat → Parser → List Item → Prop
  | done {n : Nat} {p q : Parser} : Next n p q → q.packet = none → Yields n p []
  | item {n : Nat} {p q : Parser} {i : Item} {is : List Item} : Next n p q → q.packet = some i →
      Yields 4 q is → Yields n p (i :: is)

theorem Next.mono {m n : Nat} {p q : Parser} (h : Next m p q) (hmn : m ≤ n) : Next n p q := by
  intro fuel
  have := h (fuel + (n - m))
  rwa [show fuel + (n - m) + m = fuel + n by omega] at this

theorem Yields.mono {m n : Nat} {p : Parser} {is : List Item} (h : Yields m p is) (hmn : m ≤ n) :
    Yields n p is := by
  cases h with
  | done hn hp => exact .done (hn.mono hmn) hp
  | item hn hp hy => exact .item (hn.mono hmn) hp hy

/-- The items the calls from the `m`th one on deliver. -/
theorem Yields.calls {n : Nat} {p q : Parser} {is : List Item} (h : Yields n q is) :
    n ≤ 4 → ∀ m, p.calls m = q.iterate → ∀ k ≤ is.length,
      Returns (p.calls (m + k)) fun r => r.packet = is[k]? := by
  induction h with
  | @done n q r hn hp =>
    intro h4 m hm k hk
    obtain rfl : k = 0 := by simpa using hk
    refine ⟨r, ?_, hp⟩
    rw [Nat.add_zero, hm]
    exact hn.mono h4 _
  | @item n q r i is hn hp _ ih =>
    intro h4 m hm k hk
    have hr : q.iterate = some r := hn.mono h4 _
    cases k with
    | zero =>
      refine ⟨r, ?_, hp⟩
      rw [Nat.add_zero, hm, hr]
    | succ k =>
      have hm' : p.calls (m + 1) = r.iterate := by
        rw [Parser.calls, hm, hr]
      have := ih (by omega) (m + 1) hm' k (by simpa using hk)
      rw [show m + (k + 1) = m + 1 + k by omega]
      exact this

section Rounds

variable {p : Parser} {inner rest : Bytes} {s : ParseState} {k n : Nat} {i : Item} {is : List Item}

/-- A round that delivers. -/
theorem At.item (h : At p inner rest s k) (hs : s ≠ .topLevel) {Q : Parser → Prop}
    (hr : Delivers ({ p with packet := none } : Parser).parseItem i Q)
    (hk : ∀ q, Q q → Yields 4 q is) : Yields 1 p (i :: is) := by
  obtain ⟨⟨b, q⟩, hq, rfl, hp, hQ⟩ := hr
  refine .item (q := q) (fun fuel => ?_) hp (hk q hQ)
  unfold iterateFuel
  dsimp only
  rw [if_neg (by simp [h.valid]), if_neg (by rw [h.state]; exact hs), hq]

/-- A round that delivers nothing: the call goes on. -/
theorem At.again (h : At p inner rest s k) (hs : s ≠ .topLevel) {Q : Parser → Prop}
    (hr : Passes ({ p with packet := none } : Parser).parseItem Q)
    (hk : ∀ q, Q q → Yields n q is) : Yields (n + 1) p is := by
  obtain ⟨⟨b, q⟩, hq, rfl, hQ⟩ := hr
  have hnext : ∀ r, Next n q r → Next (n + 1) p r := by
    intro r hr fuel
    rw [← Nat.add_assoc]
    unfold iterateFuel
    dsimp only
    rw [if_neg (by simp [h.valid]), if_neg (by rw [h.state]; exact hs), hq]
    exact hr fuel
  cases hk q hQ with
  | done hn hp => exact .done (hnext _ hn) hp
  | item hn hp hy => exact .item (hnext _ hn) hp hy

/-- The parser of a block delivers. -/
theorem At.block (h : At p [] (inner ++ rest) .topLevel k) {header : CommonHeader}
    (hh : parseCommonHeader p.data p.ptr = some header)
    (hlen : header.lengthInOctets = inner.length) {Q : Parser → Prop}
    (hr : ∀ q : Parser, At q inner rest .topLevel k → Delivers (q.parseBlock header) i Q)
    (hk : ∀ q, Q q → Yields 4 q is) : Yields 1 p (i :: is) := by
  have hb := congrArg List.length h.data
  simp only [List.length_drop, List.length_append, List.length_nil] at hb
  have hbound := h.bound
  have hat : At ({ p with packet := none }.enter header.lengthInOctets) inner rest .topLevel k := by
    refine ⟨h.valid, hbound, h.data, ?_, h.state, h.blocks⟩
    rw [← hlen]
    rfl
  obtain ⟨⟨b, q⟩, hq, rfl, hp, hQ⟩ := hr _ hat
  refine .item (q := q) (fun fuel => ?_) hp (hk q hQ)
  unfold iterateFuel
  dsimp only
  rw [if_neg (by simp [h.valid]), if_pos h.state]
  unfold iterateTopLevel
  dsimp only
  rw [hh]
  dsimp only
  rw [if_neg (by omega), hq]

/-- Nothing is left. -/
theorem At.done (h : At p [] [] .topLevel k) : Yields 1 p [] := by
  refine .done (q := { p with packet := none }) (fun fuel => ?_) rfl
  have hh : parseCommonHeader p.data p.ptr = none := by
    unfold parseCommonHeader slice
    rw [h.data]
    rfl
  unfold iterateFuel
  dsimp only
  rw [if_neg (by simp [h.valid]), if_pos h.state]
  unfold iterateTopLevel
  dsimp only
  rw [hh]

end Rounds

/-! ## Items in a row -/

/-- Elements one behind the other in a block, the counter going down with them. -/
theorem yields_items {α : Type} {enc : α → Bytes} {item : α → Item} {s : ParseState}
    {rest inner : Bytes} {k d : Nat} {is : List Item} (hs : s ≠ .topLevel) (xs : List α)
    (parse : ∀ x ∈ xs, ∀ {p : Parser} {inner : Bytes} {k : Nat},
      At p (enc x ++ inner) rest s (k + d) → Delivers p.parseItem (item x) fun q => At q inner rest s k)
    (hk : ∀ q, At q inner rest s k → Yields 4 q is) :
    ∀ {p : Parser}, At p (xs.flatMap enc ++ inner) rest s (k + xs.length * d) →
      Yields 4 p (xs.map item ++ is) := by
  induction xs with
  | nil =>
    intro p h
    exact hk p (by simpa using h)
  | cons x xs ih =>
    intro p h
    rw [List.flatMap_cons, List.append_assoc, List.length_cons, Nat.succ_mul, ← Nat.add_assoc] at h
    refine (h.item hs (parse x List.mem_cons_self h.reset) fun q hq => ?_).mono (by omega)
    exact ih (fun y hy => parse y (List.mem_cons_of_mem _ hy)) hq

end Parser

end RtcCore.L1.Rtcp
