import RtcCore.Core.Block
import RtcCore.Core.Int32

/-!
# `AudioVector`

An array with room behind its samples. The operations make room, move the samples
behind the place they write to and write there; nothing checks an index, so a
position behind the samples reaches into the room. `InsertZerosAt` caps it at the
capacity, the others at the size.

A new array holds anything (`fresh`). `none` stands for an access outside of the
array and for an array that cannot be allocated. A vector or an array that is
taken over is not the vector itself.

Results:
* `step_fits`, `step_unfit`: for each operation what it does and when it does not.
* `refines_iff`: runs against the operations on lists.
-/
namespace RtcCore.L2.NetEq

/-- mirrors webrtc/modules/audio_coding/neteq/audio_vector.h:107-116 -/
structure AudioVector where
  array : List Int16
  firstFreeIx : Nat
  capacity : Nat
  deriving DecidableEq, Repr

namespace AudioVector

def kDefaultInitialSize : Nat := 10

def empty (fresh : Nat → Int16) : AudioVector :=
  ⟨Block.new fresh kDefaultInitialSize, 0, kDefaultInitialSize⟩

/-- mirrors webrtc/modules/audio_coding/neteq/audio_vector.h:31-36 -/
def ofSize (initialSize : Nat) : AudioVector :=
  ⟨List.replicate initialSize 0, initialSize, initialSize⟩

variable (fresh : Nat → Int16) (v : AudioVector)

def size : Nat := v.firstFreeIx

def contents : List Int16 := v.array.take v.size

/-- mirrors webrtc/modules/audio_coding/neteq/audio_vector.cc:156-163 -/
def reserve (n : Nat) : Option AudioVector :=
  if v.capacity < n then
    if 9223372036854775808 ≤ n then none
    else do
      let tempArray ← Block.write (Block.new fresh n) 0 (← Block.read v.array 0 v.size)
      return { v with array := tempArray, capacity := n }
  else some v

def clear : AudioVector := { v with firstFreeIx := 0 }

/-- mirrors webrtc/modules/audio_coding/neteq/audio_vector.cc:25-32 -/
def copyTo (copyTo : AudioVector) : Option AudioVector := do
  let c ← copyTo.reserve fresh v.size
  let array ← Block.write c.array 0 (← Block.read v.array 0 v.size)
  return { c with array, firstFreeIx := v.firstFreeIx }

/-- mirrors webrtc/modules/audio_coding/neteq/audio_vector.cc:34-40 -/
def pushFrontVector (prependThis : AudioVector) : Option AudioVector := do
  let insertLength := prependThis.size
  let v ← v.reserve fresh (sizeT (v.size + insertLength))
  let array ← Block.move v.array insertLength 0 v.size
  let array ← Block.write array 0 (← Block.read prependThis.array 0 insertLength)
  return { v with array, firstFreeIx := v.firstFreeIx + insertLength }

/-- mirrors webrtc/modules/audio_coding/neteq/audio_vector.cc:51-55 -/
def pushBack (appendThis : List Int16) : Option AudioVector := do
  let v ← v.reserve fresh (sizeT (v.size + appendThis.length))
  let array ← Block.write v.array v.firstFreeIx appendThis
  return { v with array, firstFreeIx := v.firstFreeIx + appendThis.length }

/-- mirrors webrtc/modules/audio_coding/neteq/audio_vector.cc:47-49 -/
def pushBackVector (appendThis : AudioVector) : Option AudioVector := do
  v.pushBack fresh (← Block.read appendThis.array 0 appendThis.size)

/-- mirrors webrtc/modules/audio_coding/neteq/audio_vector.cc:57-66 -/
def popFront (length : Nat) : Option AudioVector :=
  if v.size ≤ length then some v.clear
  else do
    let remainingSamples := v.size - length
    let array ← Block.move v.array 0 length remainingSamples
    return { v with array, firstFreeIx := v.firstFreeIx - length }

/-- mirrors webrtc/modules/audio_coding/neteq/audio_vector.cc:68-72 -/
def popBack (length : Nat) : AudioVector :=
  { v with firstFreeIx := v.firstFreeIx - min length v.size }

/-- mirrors webrtc/modules/audio_coding/neteq/audio_vector.cc:74-78 -/
def extend (extraLength : Nat) : Option AudioVector := do
  let v ← v.reserve fresh (sizeT (v.size + extraLength))
  let array ← Block.write v.array v.firstFreeIx (List.replicate extraLength 0)
  return { v with array, firstFreeIx := v.firstFreeIx + extraLength }

/-- The samples `memmove` moves: `Size() - position` is multiplied by the size of one. -/
def samplesToMove (position : Nat) : Nat := sizeT (2 * sizeT (v.size - position)) / 2

/-- What `InsertAt` and `InsertZerosAt` do at the capped position. -/
def insertThere (insertThis : List Int16) (position : Nat) : Option AudioVector := do
  let array ← Block.move v.array (position + insertThis.length) position (v.samplesToMove position)
  let array ← Block.write array position insertThis
  return { v with array, firstFreeIx := v.firstFreeIx + insertThis.length }

/-- mirrors webrtc/modules/audio_coding/neteq/audio_vector.cc:80-93 -/
def insertAt (insertThis : List Int16) (position : Nat) : Option AudioVector := do
  let v ← v.reserve fresh (sizeT (v.size + insertThis.length))
  v.insertThere insertThis (min v.size position)

/-- mirrors webrtc/modules/audio_coding/neteq/audio_vector.cc:42-45 -/
def pushFront (prependThis : List Int16) : Option AudioVector := v.insertAt fresh prependThis 0

/-- mirrors webrtc/modules/audio_coding/neteq/audio_vector.cc:95-107 -/
def insertZerosAt (length position : Nat) : Option AudioVector := do
  let v ← v.reserve fresh (sizeT (v.size + length))
  v.insertThere (List.replicate length 0) (min v.capacity position)

/-- mirrors webrtc/modules/audio_coding/neteq/audio_vector.cc:109-120 -/
def overwriteAt (insertThis : List Int16) (position : Nat) : Option AudioVector := do
  let position := min v.size position
  let v ← v.reserve fresh (sizeT (position + insertThis.length))
  let array ← Block.write v.array position insertThis
  return { v with
    array
    firstFreeIx := if v.size < position + insertThis.length then
        v.firstFreeIx + (position + insertThis.length - v.size)
      else v.firstFreeIx }

/-! ## Samples and room -/

/-- The array holds the samples `xs` and behind them `spare`. -/
structure Split (v : AudioVector) (xs spare : List Int16) : Prop where
  array : v.array = xs ++ spare
  free : v.firstFreeIx = xs.length
  cap : v.capacity = xs.length + spare.length
  small : v.capacity < 9223372036854775808

def Holds (v : AudioVector) (xs : List Int16) : Prop := ∃ spare, Split v xs spare

variable {fresh} {v} {v' : AudioVector} {xs ys spare : List Int16} {n position : Nat}

theorem Split.contents (h : Split v xs spare) : v.contents = xs := by
  rw [AudioVector.contents, size, h.array, h.free, List.take_left]

theorem Split.length (h : Split v xs spare) : v.array.length = v.capacity := by
  rw [h.array, h.cap, List.length_append]

theorem Split.read (h : Split v xs spare) : Block.read v.array 0 v.size = some xs := by
  rw [h.array, size, h.free]
  exact Block.read_front rfl

theorem reserve_fits (fresh : Nat → Int16) (h : Split v xs spare) (hn : n < 9223372036854775808) :
    ∃ v' spare', v.reserve fresh n = some v' ∧ Split v' xs spare' ∧
      v'.capacity = max v.capacity n := by
  unfold reserve
  split
  · rename_i hlt
    have hcap := h.cap
    rw [if_neg (by omega), h.read]
    have hlen := Block.new_length fresh n
    show ∃ v' spare', (Block.write (Block.new fresh n) 0 xs >>= _) = _ ∧ _
    rw [Block.write_front (by omega)]
    refine ⟨_, _, rfl, ⟨rfl, h.free, ?_, hn⟩, ?_⟩
    · rw [List.length_drop, hlen]
      dsimp only
      omega
    · dsimp only
      omega
  · exact ⟨v, spare, rfl, h, by omega⟩

/-- Where the new size is no size of an array: the allocation fails, or the sum wrapped and there is
no room for what is to come. -/
theorem reserve_unfit (fresh : Nat → Int16) {p : Nat} (h : Split v xs spare) (hp : p ≤ xs.length)
    (hn : 9223372036854775808 ≤ p + n) :
    v.reserve fresh (sizeT (p + n)) = none ∨
      ∃ v' spare', v.reserve fresh (sizeT (p + n)) = some v' ∧ Split v' xs spare' ∧
        v'.capacity < n := by
  have hsmall := h.small
  have hcap := h.cap
  rcases Nat.lt_or_ge (sizeT (p + n)) 9223372036854775808 with hlt | hge
  · obtain ⟨v', spare', heq, hs, -⟩ := reserve_fits fresh h hlt
    refine .inr ⟨v', spare', heq, hs, ?_⟩
    have := hs.small
    unfold sizeT at hlt
    omega
  · unfold reserve
    rw [if_pos (by omega), if_pos hge]
    exact .inl rfl

/-- Room for `n` more samples. -/
theorem reserve_more (fresh : Nat → Int16) (h : Split v xs spare)
    (hn : xs.length + n < 9223372036854775808) :
    ∃ v' spare', v.reserve fresh (sizeT (v.size + n)) = some v' ∧ Split v' xs spare' ∧
      n ≤ spare'.length ∧ v'.capacity = max v.capacity (xs.length + n) := by
  have hsize : sizeT (v.size + n) = xs.length + n :=
    sizeT_eq (by rw [size, h.free, Int.natCast_add]) (by omega)
  rw [hsize]
  obtain ⟨v', spare', heq, hs, hcap⟩ := reserve_fits fresh h hn
  have := hs.cap
  exact ⟨v', spare', heq, hs, by omega, hcap⟩

/-! ## The operations -/

theorem write_free (h : Split v xs spare) (hk : ys.length ≤ spare.length) :
    ∃ array, Block.write v.array v.firstFreeIx ys = some array ∧
      Holds { v with array, firstFreeIx := v.firstFreeIx + ys.length } (xs ++ ys) := by
  have harray : v.array = xs ++ spare.take ys.length ++ spare.drop ys.length := by
    rw [h.array, List.append_assoc, List.take_append_drop]
  have hcap := h.cap
  have hfree := h.free
  rw [harray, Block.write_part hfree.symm (by rw [List.length_take]; omega)]
  refine ⟨_, rfl, spare.drop ys.length, rfl, ?_, ?_, h.small⟩
  · rw [List.length_append]
    dsimp only
    omega
  · rw [List.length_append, List.length_drop]
    dsimp only
    omega

theorem pushBack_fits (fresh : Nat → Int16) (h : Split v xs spare)
    (hn : xs.length + ys.length < 9223372036854775808) :
    ∃ v', v.pushBack fresh ys = some v' ∧ Holds v' (xs ++ ys) := by
  obtain ⟨v₁, spare₁, heq, hs, hk, -⟩ := reserve_more fresh h hn
  obtain ⟨array, hwrite, hholds⟩ := write_free hs hk
  unfold pushBack
  rw [heq]
  exact ⟨_, congrArg (· >>= _) hwrite, hholds⟩

theorem extend_fits (fresh : Nat → Int16) (h : Split v xs spare)
    (hn : xs.length + n < 9223372036854775808) :
    ∃ v', v.extend fresh n = some v' ∧ Holds v' (xs ++ List.replicate n 0) := by
  obtain ⟨v₁, spare₁, heq, hs, hk, -⟩ := reserve_more fresh h hn
  rw [← List.length_replicate (n := n) (a := (0 : Int16))] at hk
  obtain ⟨array, hwrite, hholds⟩ := write_free hs hk
  rw [List.length_replicate] at hholds
  unfold extend
  rw [heq]
  exact ⟨_, congrArg (· >>= _) hwrite, hholds⟩

theorem samplesToMove_eq {front behind : List Int16} (h : Split v (front ++ behind) spare) :
    v.samplesToMove front.length = behind.length := by
  have hcap := h.cap
  have hsmall := h.small
  have hfree := h.free
  rw [List.length_append] at hcap hfree
  have hsub : sizeT (v.size - front.length) = behind.length :=
    sizeT_eq (by rw [size, hfree]; omega) (by omega)
  unfold samplesToMove
  rw [hsub, sizeT_eq (m := 2 * behind.length) (by omega) (by omega)]
  omega

/-- The part behind the place moves up, what is inserted takes the gap. -/
theorem insertThere_fits {front behind : List Int16} (h : Split v (front ++ behind) spare)
    (hk : ys.length ≤ spare.length) :
    ∃ v', v.insertThere ys front.length = some v' ∧ Holds v' (front ++ ys ++ behind) := by
  have hcap := h.cap
  have hfree := h.free
  rw [List.length_append] at hcap hfree
  obtain ⟨gap, hgap, hmove⟩ := Block.move_up front behind rfl hk
  unfold insertThere
  rw [samplesToMove_eq h, h.array, hmove]
  show ∃ v', (Block.write (front ++ gap ++ behind ++ spare.drop ys.length) front.length ys >>= _) =
    some v' ∧ _
  rw [List.append_assoc _ behind, Block.write_part rfl hgap]
  refine ⟨_, rfl, spare.drop ys.length, ?_, ?_, ?_, h.small⟩
  · rw [← List.append_assoc]
  · rw [List.length_append, List.length_append]
    dsimp only
    omega
  · rw [List.length_append, List.length_append, List.length_drop]
    dsimp only
    omega

/-- A vector looked at around a position, the end for one past it. -/
theorem Split.around (h : Split v xs spare) (position : Nat) :
    Split v (xs.take position ++ xs.drop position) spare ∧
      min v.size position = (xs.take position).length := by
  rw [List.take_append_drop]
  exact ⟨h, by rw [size, h.free, List.length_take, Nat.min_comm]⟩

theorem insertAt_fits (fresh : Nat → Int16) (h : Split v xs spare)
    (hn : xs.length + ys.length < 9223372036854775808) (position : Nat) :
    ∃ v', v.insertAt fresh ys position = some v' ∧
      Holds v' (xs.take position ++ ys ++ xs.drop position) := by
  obtain ⟨v₁, spare₁, heq, hs, hk, -⟩ := reserve_more fresh h hn
  obtain ⟨haround, hposition⟩ := hs.around position
  obtain ⟨v₂, hinsert, hholds⟩ := insertThere_fits haround hk
  unfold insertAt
  rw [heq]
  refine ⟨v₂, ?_, hholds⟩
  show v₁.insertThere ys (min v₁.size position) = some v₂
  rw [hposition, hinsert]

/-- `InsertZerosAt` caps at the capacity: behind the samples it needs a vector without room. -/
theorem insertZerosAt_fits (fresh : Nat → Int16) (h : Split v xs spare)
    (hn : xs.length + n < 9223372036854775808)
    (hposition : position ≤ xs.length ∨ max v.capacity (xs.length + n) = xs.length) :
    ∃ v', v.insertZerosAt fresh n position = some v' ∧
      Holds v' (xs.take position ++ List.replicate n 0 ++ xs.drop position) := by
  obtain ⟨v₁, spare₁, heq, hs, hk, hcap⟩ := reserve_more fresh h hn
  obtain ⟨haround, hmin⟩ := hs.around position
  rw [← List.length_replicate (n := n) (a := (0 : Int16))] at hk
  obtain ⟨v₂, hinsert, hholds⟩ := insertThere_fits haround hk
  have hcapped : min v₁.capacity position = (xs.take position).length := by
    rw [List.length_take]
    have := hs.cap
    omega
  unfold insertZerosAt
  rw [heq]
  refine ⟨v₂, ?_, hholds⟩
  show v₁.insertThere (List.replicate n 0) (min v₁.capacity position) = some v₂
  rw [hcapped, hinsert]

theorem pushFrontVector_fits (fresh : Nat → Int16) (h : Split v xs spare) {prepend : AudioVector}
    (hp : Holds prepend ys) (hn : xs.length + ys.length < 9223372036854775808) :
    ∃ v', v.pushFrontVector fresh prepend = some v' ∧ Holds v' (ys ++ xs) := by
  obtain ⟨pspare, hp⟩ := hp
  have hsize : prepend.size = ys.length := hp.free
  obtain ⟨v₁, spare₁, heq, hs, hk, -⟩ := reserve_more fresh h hn
  have hcap := hs.cap
  have hfree : v₁.size = xs.length := hs.free
  obtain ⟨gap, hgap, hmove⟩ := Block.move_up [] xs rfl hk
  rw [List.length_nil, Nat.zero_add, List.nil_append, List.nil_append] at hmove
  have hread := hp.read
  rw [hsize] at hread
  unfold pushFrontVector
  dsimp only
  rw [hsize, heq, hread]
  show ∃ v', (Block.move v₁.array ys.length 0 v₁.size >>= fun array =>
    Block.write array 0 ys >>= _) = some v' ∧ _
  rw [hs.array, hfree, hmove]
  show ∃ v', (Block.write (gap ++ xs ++ spare₁.drop ys.length) 0 ys >>= _) = some v' ∧ _
  rw [Block.write_front (by simp only [List.length_append]; omega), List.append_assoc,
    ← hgap, List.drop_left]
  refine ⟨_, rfl, spare₁.drop gap.length, ?_, ?_, ?_, hs.small⟩
  · rw [List.append_assoc]
  · rw [List.length_append]
    dsimp only
    rw [hs.free]
    omega
  · rw [List.length_append, List.length_drop]
    dsimp only
    omega

theorem overwriteAt_fits (fresh : Nat → Int16) (h : Split v xs spare)
    (hn : min xs.length position + ys.length < 9223372036854775808) :
    ∃ v', v.overwriteAt fresh ys position = some v' ∧
      Holds v' (xs.take position ++ ys ++ xs.drop (position + ys.length)) := by
  have hsize : v.size = xs.length := h.free
  have hsizeT : sizeT ((min v.size position : Nat) + ys.length) =
      min xs.length position + ys.length :=
    sizeT_eq (by rw [hsize, Int.natCast_add]) (by omega)
  obtain ⟨v₁, spare₁, heq, hs, hcap₁⟩ := reserve_fits fresh h hn
  have hcap := hs.cap
  have hfree := hs.free
  have hsize₁ : v₁.size = xs.length := hs.free
  have hdrop : (xs.drop position ++ spare₁).drop ys.length =
      xs.drop (position + ys.length) ++ spare₁.drop (ys.length - (xs.length - position)) := by
    rw [List.drop_append, List.drop_drop, List.length_drop]
  have harray : v₁.array = xs.take position ++ (xs.drop position ++ spare₁).take ys.length ++
      (xs.drop position ++ spare₁).drop ys.length := by
    rw [List.append_assoc, List.take_append_drop, ← List.append_assoc, List.take_append_drop,
      hs.array]
  unfold overwriteAt
  dsimp only
  rw [hsizeT, heq]
  show ∃ v', (Block.write v₁.array (min v.size position) ys >>= _) = some v' ∧ _
  rw [harray, Block.write_part (by rw [List.length_take, hsize, Nat.min_comm])
    (by simp only [List.length_take, List.length_append, List.length_drop]; omega), hdrop]
  refine ⟨_, rfl, spare₁.drop (ys.length - (xs.length - position)), ?_, ?_, ?_, hs.small⟩
  · simp only [List.append_assoc]
  · simp only [List.length_append, List.length_take, List.length_drop]
    rw [hsize, hsize₁, hfree]
    split <;> omega
  · simp only [List.length_append, List.length_take, List.length_drop]
    omega

theorem popFront_holds (h : Split v xs spare) (n : Nat) :
    ∃ v', v.popFront n = some v' ∧ Holds v' (xs.drop n) := by
  have hsize : v.size = xs.length := h.free
  have hcap := h.cap
  unfold popFront
  rw [hsize]
  split
  · rename_i hle
    rw [List.drop_of_length_le hle]
    exact ⟨v.clear, rfl, xs ++ spare, h.array, rfl, by
      rw [List.length_append]
      exact hcap.trans (Nat.zero_add _).symm, h.small⟩
  · rename_i hgt
    have hfront : (xs.take n).length = n := by
      rw [List.length_take]
      omega
    obtain ⟨rest, hrest, hmove⟩ := Block.move_down (xs.take n) (xs.drop n) spare hfront
    have hlen : (xs.drop n).length = xs.length - n := List.length_drop
    rw [List.take_append_drop, ← h.array, hlen] at hmove
    show ∃ v', (Block.move v.array 0 n (xs.length - n) >>= _) = some v' ∧ _
    rw [hmove]
    rw [List.length_take] at hrest
    refine ⟨_, rfl, rest, rfl, ?_, ?_, h.small⟩
    · dsimp only
      rw [hlen, h.free]
    · dsimp only
      omega

theorem popBack_holds (h : Split v xs spare) (n : Nat) :
    Holds (v.popBack n) (xs.take (xs.length - n)) := by
  have hcap := h.cap
  refine ⟨xs.drop (xs.length - n) ++ spare, ?_, ?_, ?_, h.small⟩
  · rw [← List.append_assoc, List.take_append_drop]
    exact h.array
  · rw [List.length_take]
    unfold popBack size
    rw [h.free]
    dsimp only
    omega
  · rw [List.length_take, List.length_append, List.length_drop]
    unfold popBack
    dsimp only
    omega

theorem copyTo_holds (fresh : Nat → Int16) (h : Split v xs spare) {dest : AudioVector}
    (hd : Holds dest ys) : ∃ v', v.copyTo fresh dest = some v' ∧ Holds v' xs := by
  obtain ⟨dspare, hd⟩ := hd
  have hsize : v.size = xs.length := h.free
  have hcap := h.cap
  have hsmall := h.small
  obtain ⟨c, cspare, heq, hs, hcap₁⟩ := reserve_fits fresh (n := xs.length) hd (by omega)
  have hcapc := hs.cap
  unfold copyTo
  rw [h.read, hsize, heq]
  show ∃ v', (Block.write c.array 0 xs >>= _) = some v' ∧ _
  rw [hs.array, Block.write_front (by rw [List.length_append]; omega)]
  refine ⟨_, rfl, _, rfl, h.free, ?_, hs.small⟩
  rw [List.length_drop, List.length_append]
  dsimp only
  omega

/-! ## Where an operation leaves the array -/

theorem write_outside (h : Split v xs spare) (hlt : v.capacity < ys.length) (start : Nat) :
    Block.write v.array start ys = none :=
  Block.write_eq_none.2 (by rw [h.length]; omega)

theorem pushBack_unfit (fresh : Nat → Int16) (h : Split v xs spare)
    (hn : 9223372036854775808 ≤ xs.length + ys.length) : v.pushBack fresh ys = none := by
  have hsize : v.size = xs.length := h.free
  unfold pushBack
  rw [hsize]
  rcases reserve_unfit fresh h (Nat.le_refl _) hn with heq | ⟨v₁, spare₁, heq, hs, hlt⟩
  · rw [heq]
    rfl
  · rw [heq]
    exact congrArg (· >>= _) (write_outside hs hlt _)

theorem extend_unfit (fresh : Nat → Int16) (h : Split v xs spare)
    (hn : 9223372036854775808 ≤ xs.length + n) : v.extend fresh n = none := by
  have hsize : v.size = xs.length := h.free
  unfold extend
  rw [hsize]
  rcases reserve_unfit fresh h (Nat.le_refl _) hn with heq | ⟨v₁, spare₁, heq, hs, hlt⟩
  · rw [heq]
    rfl
  · rw [heq]
    exact congrArg (· >>= _) (write_outside hs (by rw [List.length_replicate]; exact hlt) _)

theorem insertThere_unfit (h : Split v xs spare) (hlt : v.capacity < ys.length) (position : Nat) :
    v.insertThere ys position = none := by
  unfold insertThere
  cases hmove : Block.move v.array (position + ys.length) position (v.samplesToMove position) with
  | none => rfl
  | some array =>
    refine congrArg (· >>= _) (Block.write_eq_none.2 ?_)
    rw [Block.move_length hmove, h.length]
    omega

/-- Behind the samples the difference is negative, as a `size_t` far larger than the array. -/
theorem insertThere_behind (h : Split v xs spare) (hlt : xs.length < position)
    (hle : position ≤ v.capacity) : v.insertThere ys position = none := by
  have hsize : v.size = xs.length := h.free
  have hsmall := h.small
  have hmoved : v.samplesToMove position = 9223372036854775808 - (position - xs.length) := by
    unfold samplesToMove sizeT
    rw [hsize]
    omega
  unfold insertThere
  rw [Block.move_eq_none (.inl (by rw [h.length, hmoved]; omega))]
  rfl

theorem insertAt_unfit (fresh : Nat → Int16) (h : Split v xs spare)
    (hn : 9223372036854775808 ≤ xs.length + ys.length) (position : Nat) :
    v.insertAt fresh ys position = none := by
  have hsize : v.size = xs.length := h.free
  unfold insertAt
  rw [hsize]
  rcases reserve_unfit fresh h (Nat.le_refl _) hn with heq | ⟨v₁, spare₁, heq, hs, hlt⟩
  · rw [heq]
    rfl
  · rw [heq]
    exact insertThere_unfit hs hlt _

theorem insertZerosAt_unfit (fresh : Nat → Int16) (h : Split v xs spare)
    (hn : ¬ (xs.length + n < 9223372036854775808 ∧
      (position ≤ xs.length ∨ max v.capacity (xs.length + n) = xs.length))) :
    v.insertZerosAt fresh n position = none := by
  have hsize : v.size = xs.length := h.free
  have hcap := h.cap
  unfold insertZerosAt
  rcases Nat.lt_or_ge (xs.length + n) 9223372036854775808 with hlt | hge
  · obtain ⟨v₁, spare₁, heq, hs, hk, hcap₁⟩ := reserve_more fresh h hlt
    rw [heq]
    exact insertThere_behind hs (by omega) (by omega)
  · rw [hsize]
    rcases reserve_unfit fresh h (Nat.le_refl _) hge with heq | ⟨v₁, spare₁, heq, hs, hlt⟩
    · rw [heq]
      rfl
    · rw [heq]
      exact insertThere_unfit hs (by rw [List.length_replicate]; exact hlt) _

theorem pushFrontVector_unfit (fresh : Nat → Int16) (h : Split v xs spare) {prepend : AudioVector}
    (hp : Holds prepend ys) (hn : 9223372036854775808 ≤ xs.length + ys.length) :
    v.pushFrontVector fresh prepend = none := by
  obtain ⟨pspare, hp⟩ := hp
  have hsize : v.size = xs.length := h.free
  have hpsize : prepend.size = ys.length := hp.free
  have hread := hp.read
  rw [hpsize] at hread
  unfold pushFrontVector
  dsimp only
  rw [hsize, hpsize, hread]
  rcases reserve_unfit fresh h (Nat.le_refl _) hn with heq | ⟨v₁, spare₁, heq, hs, hlt⟩
  · rw [heq]
    rfl
  · rw [heq]
    show (Block.move v₁.array ys.length 0 v₁.size >>= fun array =>
      Block.write array 0 ys >>= _) = none
    rw [Block.move_eq_none (.inr (by rw [hs.length]; omega))]
    rfl

theorem overwriteAt_unfit (fresh : Nat → Int16) (h : Split v xs spare)
    (hn : 9223372036854775808 ≤ min xs.length position + ys.length) :
    v.overwriteAt fresh ys position = none := by
  have hsize : v.size = xs.length := h.free
  unfold overwriteAt
  dsimp only
  rw [hsize]
  rcases reserve_unfit fresh h (Nat.min_le_left ..) hn with heq | ⟨v₁, spare₁, heq, hs, hlt⟩
  · rw [heq]
    rfl
  · rw [heq]
    exact congrArg (· >>= _) (write_outside hs hlt _)

/-! ## Runs -/

/-- The vector holds a sequence. -/
def Valid (v : AudioVector) : Prop := ∃ xs, Holds v xs

/-- `copyTo src` is `src.CopyTo` into the vector. -/
inductive Op where
  | pushBack (xs : List Int16)
  | pushBackVector (other : {v : AudioVector // v.Valid})
  | pushFront (xs : List Int16)
  | pushFrontVector (other : {v : AudioVector // v.Valid})
  | popBack (n : Nat)
  | popFront (n : Nat)
  | extend (n : Nat)
  | insertAt (xs : List Int16) (position : Nat)
  | insertZerosAt (n position : Nat)
  | overwriteAt (xs : List Int16) (position : Nat)
  | copyTo (src : {v : AudioVector // v.Valid})

def step (fresh : Nat → Int16) (v : AudioVector) : Op → Option AudioVector
  | .pushBack xs => v.pushBack fresh xs
  | .pushBackVector other => v.pushBackVector fresh other.1
  | .pushFront xs => v.pushFront fresh xs
  | .pushFrontVector other => v.pushFrontVector fresh other.1
  | .popBack n => some (v.popBack n)
  | .popFront n => v.popFront n
  | .extend n => v.extend fresh n
  | .insertAt xs position => v.insertAt fresh xs position
  | .insertZerosAt n position => v.insertZerosAt fresh n position
  | .overwriteAt xs position => v.overwriteAt fresh xs position
  | .copyTo src => src.1.copyTo fresh v

/-- The operation on a sequence; `take` and `drop` take a position past the end for the end. -/
def Op.apply (xs : List Int16) : Op → List Int16
  | .pushBack ys => xs ++ ys
  | .pushBackVector other => xs ++ other.1.contents
  | .pushFront ys => ys ++ xs
  | .pushFrontVector other => other.1.contents ++ xs
  | .popBack n => xs.take (xs.length - n)
  | .popFront n => xs.drop n
  | .extend n => xs ++ List.replicate n 0
  | .insertAt ys position => xs.take position ++ ys ++ xs.drop position
  | .insertZerosAt n position => xs.take position ++ List.replicate n 0 ++ xs.drop position
  | .overwriteAt ys position => xs.take position ++ ys ++ xs.drop (position + ys.length)
  | .copyTo src => src.1.contents

/-- The vector stays an object, and zeros are not inserted behind the samples where there is room
behind them. -/
def Fits (v : AudioVector) : Op → Prop
  | .pushBack ys | .pushFront ys | .insertAt ys _ => v.size + ys.length < 9223372036854775808
  | .pushBackVector other | .pushFrontVector other => v.size + other.1.size < 9223372036854775808
  | .extend n => v.size + n < 9223372036854775808
  | .insertZerosAt n position => v.size + n < 9223372036854775808 ∧
      (position ≤ v.size ∨ max v.capacity (v.size + n) = v.size)
  | .overwriteAt ys position => min v.size position + ys.length < 9223372036854775808
  | .popBack _ | .popFront _ | .copyTo _ => True

theorem Valid.holds (h : v.Valid) : Holds v v.contents := by
  obtain ⟨xs, spare, h⟩ := h
  rw [h.contents]
  exact ⟨spare, h⟩

theorem Valid.size_eq (h : v.Valid) : v.size = v.contents.length := by
  obtain ⟨spare, h⟩ := h.holds
  exact h.free

theorem pushBackVector_eq (fresh : Nat → Int16) {other : AudioVector} (ho : other.Valid) :
    v.pushBackVector fresh other = v.pushBack fresh other.contents := by
  obtain ⟨spare, ho⟩ := ho.holds
  unfold pushBackVector
  rw [ho.read]
  rfl

theorem step_fits (fresh : Nat → Int16) (h : Holds v xs) {op : Op} (hf : Fits v op) :
    ∃ v', v.step fresh op = some v' ∧ Holds v' (op.apply xs) := by
  obtain ⟨spare, h⟩ := h
  have hsize : v.size = xs.length := h.free
  cases op with
  | pushBack ys => exact pushBack_fits fresh h (hsize ▸ hf)
  | pushBackVector other =>
    have hlen := other.2.size_eq
    obtain ⟨v', heq, hholds⟩ : ∃ v', v.pushBack fresh other.1.contents = some v' ∧
        Holds v' (xs ++ other.1.contents) := pushBack_fits fresh h (by
      rw [← hsize, ← hlen]
      exact hf)
    exact ⟨v', (pushBackVector_eq fresh other.2).trans heq, hholds⟩
  | pushFront ys => exact insertAt_fits fresh h (hsize ▸ hf) 0
  | pushFrontVector other =>
    refine pushFrontVector_fits fresh h other.2.holds ?_
    rw [← hsize, ← other.2.size_eq]
    exact hf
  | popBack n => exact ⟨_, rfl, popBack_holds h n⟩
  | popFront n => exact popFront_holds h n
  | extend n => exact extend_fits fresh h (hsize ▸ hf)
  | insertAt ys position => exact insertAt_fits fresh h (hsize ▸ hf) position
  | insertZerosAt n position =>
    unfold Fits at hf
    rw [hsize] at hf
    exact insertZerosAt_fits fresh h hf.1 hf.2
  | overwriteAt ys position => exact overwriteAt_fits fresh h (hsize ▸ hf)
  | copyTo src =>
    obtain ⟨sspare, hs⟩ := src.2.holds
    exact copyTo_holds fresh hs ⟨spare, h⟩

theorem step_unfit (fresh : Nat → Int16) (h : Holds v xs) {op : Op} (hf : ¬ Fits v op) :
    v.step fresh op = none := by
  obtain ⟨spare, h⟩ := h
  have hsize : v.size = xs.length := h.free
  unfold Fits at hf
  rw [hsize] at hf
  cases op with
  | pushBack ys => exact pushBack_unfit fresh h (Nat.le_of_not_lt hf)
  | pushBackVector other =>
    refine (pushBackVector_eq fresh other.2).trans (pushBack_unfit fresh h ?_)
    rw [← other.2.size_eq]
    exact Nat.le_of_not_lt hf
  | pushFront ys => exact insertAt_unfit fresh h (Nat.le_of_not_lt hf) 0
  | pushFrontVector other =>
    exact pushFrontVector_unfit fresh h other.2.holds
      (by rw [← other.2.size_eq]; exact Nat.le_of_not_lt hf)
  | popBack n => exact absurd trivial hf
  | popFront n => exact absurd trivial hf
  | extend n => exact extend_unfit fresh h (Nat.le_of_not_lt hf)
  | insertAt ys position => exact insertAt_unfit fresh h (Nat.le_of_not_lt hf) position
  | insertZerosAt n position => exact insertZerosAt_unfit fresh h hf
  | overwriteAt ys position => exact overwriteAt_unfit fresh h (Nat.le_of_not_lt hf)
  | copyTo src => exact absurd trivial hf

/-- Operations, each with what a new array holds at it. -/
def run (v : AudioVector) (ops : List ((Nat → Int16) × Op)) : Option AudioVector :=
  ops.foldlM (fun v item => v.step item.1 item.2) v

/-- The run stays inside the arrays and ends with the contents of the list operations. -/
def Refines (v : AudioVector) (ops : List ((Nat → Int16) × Op)) : Prop :=
  ∃ v', v.run ops = some v' ∧
    v'.contents = ops.foldl (fun xs item => item.2.apply xs) v.contents

/-- Each step fits the state before it. -/
def Meets : AudioVector → List ((Nat → Int16) × Op) → Prop
  | _, [] => True
  | v, (fresh, op) :: ops => Fits v op ∧ ∀ v', v.step fresh op = some v' → Meets v' ops

theorem refines_iff (h : v.Valid) (ops : List ((Nat → Int16) × Op)) :
    Refines v ops ↔ Meets v ops := by
  induction ops generalizing v with
  | nil => exact iff_of_true ⟨v, rfl, rfl⟩ trivial
  | cons item ops ih =>
    obtain ⟨fresh, op⟩ := item
    unfold Refines Meets run
    rw [List.foldlM_cons]
    by_cases hf : Fits v op
    · obtain ⟨v₁, hstep, hholds⟩ := step_fits fresh h.holds hf
      have hcontents : op.apply v.contents = v₁.contents := by
        obtain ⟨spare, hs⟩ := hholds
        exact hs.contents.symm
      rw [hstep, List.foldl_cons, hcontents]
      refine Iff.trans (ih ⟨_, hholds⟩) ⟨fun hm => ⟨hf, fun v' hv' => ?_⟩, fun hm => hm.2 v₁ rfl⟩
      cases hv'
      exact hm
    · rw [step_unfit fresh h.holds hf]
      exact iff_of_false (fun ⟨_, hrun, _⟩ => nomatch hrun) fun hm => hf hm.1

theorem valid_empty (fresh : Nat → Int16) : (empty fresh).Valid :=
  ⟨[], Block.new fresh kDefaultInitialSize, rfl, rfl, rfl, (by decide : 10 < 9223372036854775808)⟩

theorem refines_three : Refines (empty fun _ => 7)
    [(fun _ => 7, .pushBack [1, 2, 3]), (fun _ => 7, .insertZerosAt 2 1),
      (fun _ => 7, .popFront 1)] := by
  refine (refines_iff (valid_empty _) _).2
    ⟨(by decide : 0 + 3 < 9223372036854775808), fun v' hv' => ?_⟩
  cases hv'
  refine ⟨⟨(by decide : 3 + 2 < 9223372036854775808), .inl (by decide : 1 ≤ 3)⟩, fun v' hv' => ?_⟩
  cases hv'
  exact ⟨trivial, fun _ _ => trivial⟩

/-- Five samples in the first array of ten: a zero at position 7 moves what is between 7 and 5. -/
theorem not_refines_behind : ¬ ∀ (fresh : Nat → Int16) (ops : List ((Nat → Int16) × Op)),
    Refines (empty fresh) ops := by
  intro hall
  obtain ⟨v', hrun, -⟩ := hall (fun _ => 0)
    [(fun _ => 0, .pushBack [1, 2, 3, 4, 5]), (fun _ => 0, .insertZerosAt 1 7)]
  have hnone : (empty fun _ => 0).run
      [(fun _ => 0, .pushBack [1, 2, 3, 4, 5]), (fun _ => 0, .insertZerosAt 1 7)] = none := by
    decide
  rw [hnone] at hrun
  exact nomatch hrun

end AudioVector

end RtcCore.L2.NetEq
