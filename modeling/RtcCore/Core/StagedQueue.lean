import RtcCore.Core.LTS

/-!
# A bounded queue with staged writes

What a circular buffer is for. Every item has a place in one stream that does
not wrap: `read` places were taken, `written` were committed, and an item may
be put at a place behind `written` before that place is committed. A place
keeps its item until another one is put there; nothing is known of a place at
which none was put.

Results:
- `apply_item`: an operation changes the items it covers and no others.
- `Inv.apply`: no place beyond the capacity is used.
- `taken_prefix`: with plain writes and reads, what was taken is the front of
  what was given.
-/
namespace RtcCore

/-- An operation with what it returned; no value: nothing to read, or no room. -/
inductive QueueOp (α : Type)
  | write (data : List α) (n : Nat)
  | read (bytes : Nat) (out : Option (List α))
  | readOffset (bytes offset : Nat) (out : Option (List α))
  | writeOffset (data : List α) (offset : Nat) (n : Option Nat)
  | consumeReadData (size : Nat)
  | consumeWriteBuffer (size : Nat)

structure StagedQueue (α : Type) where
  read : Nat := 0
  written : Nat := 0
  item : Nat → Option α := fun _ => none

namespace StagedQueue

variable {α : Type} (q : StagedQueue α) {capacity : Nat}

def length : Nat := q.written - q.read

def put (p : Nat) (data : List α) : StagedQueue α :=
  { q with item := fun i => if p ≤ i then (data[i - p]?).or (q.item i) else q.item i }

/-- `out` agrees with the items from place `k` of the queue on. -/
def Shows (k : Nat) (out : List α) : Prop :=
  ∀ i a b, out[i]? = some a → q.item (q.read + k + i) = some b → a = b

/-- What a read of up to `bytes` items returns that skips the first `offset` ones. -/
def Answers (bytes offset : Nat) : Option (List α) → Prop
  | none => q.length ≤ offset
  | some out => offset < q.length ∧ out.length = min bytes (q.length - offset) ∧ q.Shows offset out

/-- What an operation may return, and the sizes it may be called with. -/
def Allows (capacity : Nat) (q : StagedQueue α) : QueueOp α → Prop
  | .write data n => n = min data.length (capacity - q.length)
  | .read bytes out => q.Answers bytes 0 out
  | .readOffset bytes offset out => q.Answers bytes offset out
  | .writeOffset data offset n =>
      n = if q.length + offset < capacity
        then some (min data.length (capacity - q.length - offset)) else none
  | .consumeReadData size => size ≤ q.length
  | .consumeWriteBuffer size => size ≤ capacity - q.length

def apply (q : StagedQueue α) : QueueOp α → StagedQueue α
  | .write data n => { q.put q.written (data.take n) with written := q.written + n }
  | .read _ out => { q with read := q.read + (out.getD []).length }
  | .readOffset .. => q
  | .writeOffset data offset n => q.put (q.written + offset) (data.take (n.getD 0))
  | .consumeReadData size => { q with read := q.read + size }
  | .consumeWriteBuffer size => { q with written := q.written + size }

def system (α : Type) (capacity : Nat) : LTS (StagedQueue α) (QueueOp α) where
  init q := q = {}
  step q op q' := q.Allows capacity op ∧ q' = q.apply op

/-- The queue after `ops`. -/
def history (ops : List (QueueOp α)) : StagedQueue α := ops.foldl apply {}

/-- The operation puts an item at place `p`. -/
def Covers (p : Nat) : QueueOp α → Prop
  | .write _ n => q.written ≤ p ∧ p < q.written + n
  | .writeOffset _ offset n => q.written + offset ≤ p ∧ p < q.written + offset + n.getD 0
  | _ => False

/-- None of `ops`, from `q` on, puts an item at place `p`. -/
def Untouched (p : Nat) : StagedQueue α → List (QueueOp α) → Prop
  | _, [] => True
  | q, op :: ops => ¬ q.Covers p op ∧ Untouched p (q.apply op) ops

variable {q}

/-! ## Items -/

theorem put_item_of_lt {p i : Nat} {data : List α} (h : i < p) : (q.put p data).item i = q.item i :=
  if_neg (by omega)

theorem put_item_of_le {p i : Nat} {data : List α} (h : p + data.length ≤ i) :
    (q.put p data).item i = q.item i := by
  simp only [put, List.getElem?_eq_none (show data.length ≤ i - p by omega), Option.none_or, ite_self]

theorem put_item {p k : Nat} {data : List α} (h : k < data.length) :
    (q.put p data).item (p + k) = data[k]? := by
  simp [put, h]

theorem put_item_take {p n i : Nat} {data : List α} (h : ¬(p ≤ i ∧ i < p + n)) :
    (q.put p (data.take n)).item i = q.item i := by
  by_cases hi : i < p
  · exact put_item_of_lt hi
  · apply put_item_of_le
    have := List.length_take_le n data
    omega

@[simp] theorem put_nil (q : StagedQueue α) (p : Nat) : q.put p [] = q := by
  simp [put]

/-- A place that an operation does not cover keeps its item. -/
theorem apply_item {op : QueueOp α} {p : Nat} (h : ¬ q.Covers p op) :
    (q.apply op).item p = q.item p := by
  cases op with
  | write data n => exact put_item_take h
  | writeOffset data offset n => exact put_item_take h
  | read | readOffset | consumeReadData | consumeWriteBuffer => rfl

theorem Untouched.item {ops : List (QueueOp α)} {p : Nat} (h : q.Untouched p ops) :
    (ops.foldl StagedQueue.apply q).item p = q.item p := by
  induction ops generalizing q with
  | nil => rfl
  | cons op ops ih => exact (ih h.2).trans (apply_item h.1)

theorem history_append (ops ops' : List (QueueOp α)) :
    history (ops ++ ops') = ops'.foldl StagedQueue.apply (history ops) := by
  simp [history]

theorem run_eq {q' : StagedQueue α} {ops : List (QueueOp α)}
    (r : (system α capacity).Run q ops q') : q' = ops.foldl apply q := by
  induction r with
  | nil q => rfl
  | cons h _ ih => rw [ih, h.2, List.foldl_cons]

/-- A staged item stays where it was put as long as no operation covers its place. -/
theorem item_staged {q' : StagedQueue α} {before after : List (QueueOp α)} {data : List α}
    {offset n k : Nat}
    (r : (system α capacity).Run {} (before ++ .writeOffset data offset (some n) :: after) q')
    (hk : k < n) (hu : Untouched ((history before).written + offset + k)
      (history (before ++ [.writeOffset data offset (some n)])) after) :
    k < data.length ∧ q'.item ((history before).written + offset + k) = data[k]? := by
  obtain ⟨q₁, r1, r2⟩ := r.split
  obtain rfl := run_eq r1
  cases r2 with
  | cons hs r3 =>
    have hn : some n = if (history before).length + offset < capacity
      then some (min data.length (capacity - (history before).length - offset)) else none := hs.1
    have hle : n ≤ data.length := by
      split at hn
      · have := Option.some.inj hn
        omega
      · exact absurd hn (Option.some_ne_none _)
    rw [history_append] at hu
    rw [run_eq r3, hs.2]
    refine ⟨by omega, hu.item.trans ?_⟩
    apply (put_item ?_).trans
    · exact List.getElem?_take_of_lt hk
    · rw [List.length_take, Option.getD_some]
      omega

/-! ## The capacity -/

structure Inv (capacity : Nat) (q : StagedQueue α) : Prop where
  read_le : q.read ≤ q.written
  written_le : q.written ≤ q.read + capacity
  fresh : ∀ p, q.read + capacity ≤ p → q.item p = none

theorem Inv.empty : Inv capacity ({} : StagedQueue α) :=
  ⟨Nat.le_refl _, Nat.zero_le _, fun _ _ => rfl⟩

theorem Inv.put {p : Nat} {data : List α} (h : q.Inv capacity)
    (hp : p + data.length ≤ q.read + capacity) : (q.put p data).Inv capacity :=
  ⟨h.read_le, h.written_le, fun i hi =>
    (put_item_of_le (Nat.le_trans hp hi)).trans (h.fresh i hi)⟩

theorem Inv.taken {n : Nat} (h : q.Inv capacity) (hn : n ≤ q.length) :
    Inv capacity { q with read := q.read + n } := by
  obtain ⟨h1, h2, h3⟩ := h
  rw [length] at hn
  refine ⟨?_, ?_, fun p hp => h3 p ?_⟩ <;> dsimp only at * <;> omega

theorem Inv.committed {n : Nat} (h : q.Inv capacity) (hn : n ≤ capacity - q.length) :
    Inv capacity { q with written := q.written + n } := by
  obtain ⟨h1, h2, h3⟩ := h
  rw [length] at hn
  refine ⟨?_, ?_, h3⟩ <;> dsimp only <;> omega

theorem Answers.length_le {bytes offset : Nat} {out : Option (List α)}
    (h : q.Answers bytes offset out) : (out.getD []).length ≤ q.length := by
  cases out with
  | none => exact Nat.zero_le _
  | some out =>
    rw [Option.getD_some, h.2.1]
    omega

theorem Inv.apply {op : QueueOp α} (h : q.Inv capacity) (hop : q.Allows capacity op) :
    (q.apply op).Inv capacity := by
  have hlen : q.length = q.written - q.read := rfl
  obtain ⟨h1, h2, h3⟩ := h
  cases op with
  | write data n =>
    have hn : n = min data.length (capacity - q.length) := hop
    have hput : (q.put q.written (data.take n)).Inv capacity := by
      apply Inv.put ⟨h1, h2, h3⟩
      rw [List.length_take]
      omega
    apply hput.committed
    rw [show (q.put q.written (data.take n)).length = q.length from rfl]
    omega
  | read bytes out => exact Inv.taken ⟨h1, h2, h3⟩ (Answers.length_le hop)
  | readOffset bytes offset out => exact ⟨h1, h2, h3⟩
  | writeOffset data offset n =>
    have hn : n = if q.length + offset < capacity
      then some (min data.length (capacity - q.length - offset)) else none := hop
    rw [StagedQueue.apply, hn]
    split
    · apply Inv.put ⟨h1, h2, h3⟩
      rw [List.length_take, Option.getD_some]
      omega
    · rw [Option.getD_none, List.take_zero, put_nil]
      exact ⟨h1, h2, h3⟩
  | consumeReadData size => exact Inv.taken ⟨h1, h2, h3⟩ hop
  | consumeWriteBuffer size => exact Inv.committed ⟨h1, h2, h3⟩ hop

/-! ## Plain writes and reads -/

/-- What an operation gives to the queue; no value: it is not a plain one. -/
def given : QueueOp α → Option (List α)
  | .write data n => some (data.take n)
  | .read .. => some []
  | .readOffset .. => some []
  | _ => none

/-- What an operation takes from the queue. -/
def taken : QueueOp α → List α
  | .read _ out => out.getD []
  | _ => []

/-- `front` was taken of what was given. -/
structure Carries (q : StagedQueue α) (all front : List α) : Prop where
  written : q.written = all.length
  read_le : q.read ≤ q.written
  item : ∀ i, i < all.length → q.item i = all[i]?
  front_eq : front = all.take q.read

theorem Carries.apply {op : QueueOp α} {all front more : List α} (h : q.Carries all front)
    (hop : q.Allows capacity op) (hg : given op = some more) :
    (q.apply op).Carries (all ++ more) (front ++ taken op) := by
  obtain ⟨hw, hr, hi, hf⟩ := h
  cases op with
  | write data n =>
    have hn : n = min data.length (capacity - q.length) := hop
    have hlen : (data.take n).length = n := by
      rw [List.length_take]
      omega
    cases hg
    refine ⟨?_, Nat.le_trans hr (Nat.le_add_right ..), fun i hi' => ?_, ?_⟩
    · rw [List.length_append, hlen, ← hw]
      rfl
    · rw [List.length_append, hlen] at hi'
      by_cases hlt : i < q.written
      · rw [List.getElem?_append_left (by omega), ← hi i (by omega)]
        exact put_item_of_lt hlt
      · obtain ⟨k, rfl⟩ : ∃ k, i = q.written + k := ⟨i - q.written, by omega⟩
        rw [List.getElem?_append_right (by omega), ← hw, Nat.add_sub_cancel_left]
        exact put_item (by omega)
    · rw [show taken (.write data n) = [] from rfl, List.append_nil, hf]
      exact (List.take_append_of_le_length (by rw [← hw]; exact hr)).symm
  | read bytes out =>
    cases hg
    rw [List.append_nil]
    have hle : (out.getD []).length ≤ q.written - q.read := Answers.length_le hop
    refine ⟨hw, ?_, hi, ?_⟩
    · simp only [StagedQueue.apply]
      omega
    · rw [hf, StagedQueue.apply, List.take_add, taken]
      congr 1
      cases out with
      | none => simp
      | some out =>
        obtain ⟨_, _, hshow⟩ := hop
        rw [Option.getD_some] at hle ⊢
        refine List.ext_getElem ?_ fun i h1 h2 => ?_
        · rw [List.length_take, List.length_drop]
          omega
        · rw [List.getElem_take, List.getElem_drop]
          apply hshow i _ _ (List.getElem?_eq_getElem h1)
          rw [Nat.add_zero, hi _ (by omega), List.getElem?_eq_getElem]
  | readOffset bytes offset out =>
    cases hg
    rw [List.append_nil, show taken (.readOffset bytes offset out) = [] from rfl, List.append_nil]
    exact ⟨hw, hr, hi, hf⟩
  | writeOffset | consumeReadData | consumeWriteBuffer => exact absurd hg (Option.some_ne_none _).symm

theorem Carries.run {q' : StagedQueue α} {ops : List (QueueOp α)} {all front : List α}
    (r : (system α capacity).Run q ops q') (h : q.Carries all front)
    (hops : ∀ op ∈ ops, (given op).isSome) :
    q'.Carries (all ++ ops.flatMap fun op => (given op).getD []) (front ++ ops.flatMap taken) := by
  induction r generalizing all front with
  | nil q =>
    rw [List.flatMap_nil, List.flatMap_nil, List.append_nil, List.append_nil]
    exact h
  | @cons q q₁ q' op ops hs r ih =>
    obtain ⟨more, hm⟩ := Option.isSome_iff_exists.1 (hops op (List.mem_cons_self ..))
    have h1 := h.apply hs.1 hm
    rw [← hs.2] at h1
    have h2 := ih h1 fun op' ho => hops op' (List.mem_cons_of_mem _ ho)
    rw [List.flatMap_cons, List.flatMap_cons, hm, Option.getD_some, ← List.append_assoc,
      ← List.append_assoc]
    exact h2

/-- With plain writes and reads, items leave the queue in the order in which they came. -/
theorem taken_prefix {q' : StagedQueue α} {ops : List (QueueOp α)}
    (r : (system α capacity).Run {} ops q') (hops : ∀ op ∈ ops, (given op).isSome) :
    ops.flatMap taken <+: ops.flatMap fun op => (given op).getD [] := by
  have hc : Carries ({} : StagedQueue α) [] [] := by
    refine ⟨rfl, Nat.le_refl _, fun i hi => ?_, rfl⟩
    exact absurd hi (Nat.not_lt_zero i)
  have h := (hc.run r hops).front_eq
  rw [List.nil_append, List.nil_append] at h
  rw [h]
  exact List.take_prefix ..

end StagedQueue

end RtcCore
