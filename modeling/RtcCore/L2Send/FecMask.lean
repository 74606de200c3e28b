import RtcCore.Core.BitRow
import RtcCore.Core.Memory
import RtcCore.Core.Serial

/-!
# Gaps in the packet masks of FEC packets: `InsertZerosInBitMasks`

A FEC packet carries a mask with a bit for each sequence number from the first
media packet on. The mask tables know only how many media packets there are;
where numbers are missing between them zero columns are inserted, column by
column into all rows at once.

The masks of all FEC packets stand one behind the other in one array, `width`
octets each. An access outside of the row it belongs to is `none`.

Results:
* `zeros_inserted`: the new masks, for packets that span at most 48 numbers or
  among which the 48th is.
* `outside_iff`: for the others the last columns are written outside.
-/
namespace RtcCore.L2.FecMask

open BitRow

/-! ## Model -/

/-- mirrors webrtc/modules/rtp_rtcp/source/forward_error_correction_internal.h:19-22 -/
def kMaskSizeLBitSet : Nat := 6
def kMaskSizeLBitClear : Nat := 2

/-- The new and the old masks. -/
structure Masks where
  new : Memory
  old : Memory

/-- One row of `CopyColumn`. -/
def copyRow (newMaskBytes oldMaskBytes newBit oldBit : Nat) (m : Masks) (row : Nat) : Masks :=
  let newByte := row * newMaskBytes + newBit / 8
  let oldByte := row * oldMaskBytes + oldBit / 8
  let x := m.new newByte ||| ((m.old oldByte &&& 0x80) >>> 7)
  { new := Function.update m.new newByte (if newBit % 8 ≠ 7 then x <<< 1 else x)
    old := Function.update m.old oldByte (m.old oldByte <<< 1) }

/-- mirrors webrtc/modules/rtp_rtcp/source/forward_error_correction.cc:371-386 -/
def copyColumn (newMaskBytes oldMaskBytes numFec newBit oldBit : Nat) (m : Masks) : Option Masks :=
  if numFec = 0 ∨ newBit / 8 < newMaskBytes ∧ oldBit / 8 < oldMaskBytes then
    some ((List.range numFec).foldl (copyRow newMaskBytes oldMaskBytes newBit oldBit) m)
  else none

/-- The octet of column `bit` of every row, shifted to the left by `k`. -/
def shiftColumn (maskBytes numFec bit k : Nat) (mask : Memory) : Option Memory :=
  if numFec = 0 ∨ bit / 8 < maskBytes then
    some ((List.range numFec).foldl (fun mask row => Function.update mask
      (row * maskBytes + bit / 8) (mask (row * maskBytes + bit / 8) <<< UInt8.ofNat k)) mask)
  else none

/-- mirrors webrtc/modules/rtp_rtcp/source/forward_error_correction.cc:360-369 -/
def insertZeroColumns (numZeros newMaskBytes numFec newBit : Nat) (mask : Memory) : Option Memory :=
  shiftColumn newMaskBytes numFec newBit (min numZeros (7 - newBit % 8)) mask

/-- The loop over the packets behind the first: `new_bit_index` and the masks.
mirrors webrtc/modules/rtp_rtcp/source/forward_error_correction.cc:325-346 -/
def insertLoop (newMaskBytes oldMaskBytes numFec : Nat) :
    List UInt16 → UInt16 → Nat → Nat → Masks → Option (Nat × Masks)
  | [], _, newBit, _, m => some (newBit, m)
  | seq :: rest, prev, newBit, oldBit, m =>
    if newBit = 8 * kMaskSizeLBitSet then some (newBit, m)
    else
      let zeros := (seq - prev - 1).toNat
      (if 0 < zeros then insertZeroColumns zeros newMaskBytes numFec newBit m.new
        else some m.new).bind fun new =>
      (copyColumn newMaskBytes oldMaskBytes numFec (newBit + zeros) oldBit { m with new }).bind
        fun m =>
      insertLoop newMaskBytes oldMaskBytes numFec rest seq (newBit + zeros + 1) (oldBit + 1) m

/-- The last octet's bits move to their place.
mirrors webrtc/modules/rtp_rtcp/source/forward_error_correction.cc:347-353 -/
def alignLast (newMaskBytes numFec newBit : Nat) (mask : Memory) : Option Memory :=
  if newBit % 8 ≠ 0 then shiftColumn newMaskBytes numFec newBit (7 - newBit % 8) mask else some mask

/-- `InsertZerosInBitMasks` for media packets with the numbers `seqs`: the
returned number of bits and the masks.
mirrors webrtc/modules/rtp_rtcp/source/forward_error_correction.cc:293-358 -/
def insertZerosInBitMasks (seqs : List UInt16) (packetMask : Memory) (numMaskBytes numFec : Nat) :
    Option (Nat × Memory) :=
  match seqs with
  | [] => some (0, packetMask)
  | [_] => some (1, packetMask)
  | first :: second :: rest =>
    let size := (first :: second :: rest).length
    let totalMissing : Int := ((rest.getLastD second - first).toNat : Int) - size + 1
    if totalMissing = 0 then some (size, packetMask)
    else do
      let newMaskBytes :=
        if 8 * (kMaskSizeLBitClear : Int) < size + totalMissing then kMaskSizeLBitSet
        else kMaskSizeLBitClear
      let m ← copyColumn newMaskBytes numMaskBytes numFec 0 0 ⟨fun _ => 0, packetMask⟩
      let r ← insertLoop newMaskBytes numMaskBytes numFec (second :: rest) first 1 1 m
      let new ← alignLast newMaskBytes numFec r.1 r.2.new
      some (r.1, fun i => if i < kMaskSizeLBitSet * numFec then new i else r.2.old i)

/-! ## What the masks are for -/

/-- Octets of a row that covers `bits` sequence numbers. -/
def maskBytes (bits : Nat) : Nat :=
  if 8 * kMaskSizeLBitClear < bits then kMaskSizeLBitSet else kMaskSizeLBitClear

/-- Row `r` of masks of `width` octets. -/
def maskRow (mask : Memory) (width r : Nat) : Nat → UInt8 := fun j =>
  if j < width then mask (r * width + j) else 0

/-- How far the numbers are behind the first one. -/
def offsets (seqs : List UInt16) : List Nat :=
  seqs.map fun seq => (seq - seqs.headD 0).toNat

def StrictlyIncreasing (seqs : List UInt16) : Prop := (offsets seqs).Pairwise (· < ·)

instance (seqs : List UInt16) : Decidable (StrictlyIncreasing seqs) :=
  inferInstanceAs (Decidable (List.Pairwise _ _))

/-- How many numbers there are from the first to the last one. -/
def span (seqs : List UInt16) : Nat := (seqs.getLastD 0 - seqs.headD 0).toNat + 1

/-- The columns of `old` at their offsets, and zeros between them. -/
def placed (offs : List Nat) (old : Nat → Bool) (i : Nat) : Bool :=
  (List.range offs.length).any fun k => offs[k]? == some i && old k

theorem placed_get {offs : List Nat} (hn : offs.Nodup) {k i : Nat} (hk : offs[k]? = some i)
    (old : Nat → Bool) : placed offs old i = old k := by
  have hlt : k < offs.length := (List.getElem?_eq_some_iff.1 hk).1
  rw [Bool.eq_iff_iff, placed, List.any_eq_true]
  constructor
  · rintro ⟨l, hl, h⟩
    simp only [Bool.and_eq_true, beq_iff_eq] at h
    have : k = l := (List.getElem?_inj hlt hn).1 (hk.trans h.1.symm)
    exact this ▸ h.2
  · intro h
    exact ⟨k, List.mem_range.2 hlt, by simp [hk, h]⟩

theorem placed_none {offs : List Nat} {i : Nat} (hi : i ∉ offs) (old : Nat → Bool) :
    placed offs old i = false := by
  rw [placed, List.any_eq_false]
  intro k _
  have : offs[k]? ≠ some i := fun h => hi (List.mem_of_getElem? h)
  simp [this]

/-! ## Rows of the array -/

section Rows

variable {mask : Memory} {w j r : Nat}

theorem rowIndex_inj {r' j' : Nat} (hj : j < w) (hj' : j' < w) (h : r * w + j = r' * w + j') :
    r = r' ∧ j = j' := by
  have hdiv := congrArg (· / w) h
  have hmod := congrArg (· % w) h
  simp only [Nat.mul_add_mod', Nat.mod_eq_of_lt hj, Nat.mod_eq_of_lt hj'] at hmod
  rw [hmod, Nat.add_right_cancel_iff] at h
  exact ⟨Nat.eq_of_mul_eq_mul_right (by omega) h, hmod⟩

theorem maskRow_of_lt (hj : j < w) : maskRow mask w r j = mask (r * w + j) := if_pos hj

theorem maskRow_update (hj : j < w) (x : UInt8) (r' : Nat) :
    maskRow (Function.update mask (r * w + j) x) w r' =
      if r' = r then Function.update (maskRow mask w r') j x else maskRow mask w r' := by
  funext i
  by_cases hi : i < w
  · rw [maskRow_of_lt hi]
    by_cases hr : r' = r
    · subst hr
      rw [if_pos rfl]
      by_cases he : i = j
      · rw [he, Function.update_self, Function.update_self]
      · rw [Function.update_of_ne he, Function.update_of_ne, maskRow_of_lt hi]
        exact fun h => he (rowIndex_inj hi hj h).2
    · rw [if_neg hr, Function.update_of_ne, maskRow_of_lt hi]
      exact fun h => hr (rowIndex_inj hi hj h).1
  · have hout : ∀ m : Memory, maskRow m w r' i = 0 := fun m => if_neg hi
    split
    · rw [hout, Function.update_of_ne (by omega), hout]
    · rw [hout, hout]

/-- A loop over the rows does to each what its round does. -/
theorem foldl_rows {σ ρ : Type} {step : σ → Nat → σ} {view : σ → Nat → ρ} {f : ρ → ρ}
    (h : ∀ s r r', view (step s r) r' = if r' = r then f (view s r') else view s r') (s : σ)
    (n r : Nat) :
    view ((List.range n).foldl step s) r = if r < n then f (view s r) else view s r := by
  induction n with
  | zero => rfl
  | succ n ih =>
    rw [List.range_succ, List.foldl_append, List.foldl_cons, List.foldl_nil, h, ih]
    rcases Nat.lt_trichotomy r n with hr | rfl | hr
    · rw [if_neg (by omega), if_pos hr, if_pos (by omega)]
    · rw [if_pos rfl, if_neg (Nat.lt_irrefl r), if_pos (Nat.lt_succ_self r)]
    · rw [if_neg (by omega), if_neg (by omega), if_neg (by omega)]

theorem shiftColumn_row (hj : j < w) (k n r : Nat) :
    maskRow ((List.range n).foldl (fun mask row => Function.update mask
      (row * w + j) (mask (row * w + j) <<< UInt8.ofNat k)) mask) w r =
      if r < n then Function.update (maskRow mask w r) j (maskRow mask w r j <<< UInt8.ofNat k)
      else maskRow mask w r :=
  @foldl_rows _ _ _ (fun m r => maskRow m w r)
    (fun row => Function.update row j (row j <<< UInt8.ofNat k)) (fun m r r' => by
      rw [maskRow_update hj]
      split
      · rename_i hr
        subst hr
        rw [maskRow_of_lt hj]
      · rfl) mask n r

/-- The rows of both masks. -/
def rowsOf (wn wo : Nat) (m : Masks) (r : Nat) : (Nat → UInt8) × (Nat → UInt8) :=
  (maskRow m.new wn r, maskRow m.old wo r)

/-- What a round of `CopyColumn` does to a row. -/
def copied (newBit oldBit : Nat) (rows : (Nat → UInt8) × (Nat → UInt8)) :
    (Nat → UInt8) × (Nat → UInt8) :=
  let x := rows.1 (newBit / 8)
  let y := rows.2 (oldBit / 8)
  (Function.update rows.1 (newBit / 8)
      (if newBit % 8 ≠ 7 then (x ||| msb y) <<< 1 else x ||| msb y),
    Function.update rows.2 (oldBit / 8) (y <<< 1))

theorem copyColumn_row {wn wo newBit oldBit : Nat} (hn : newBit / 8 < wn) (ho : oldBit / 8 < wo)
    (m : Masks) (n r : Nat) :
    rowsOf wn wo ((List.range n).foldl (copyRow wn wo newBit oldBit) m) r =
      if r < n then copied newBit oldBit (rowsOf wn wo m r) else rowsOf wn wo m r :=
  foldl_rows (fun m r r' => by
    rw [rowsOf, copyRow]
    dsimp only
    rw [maskRow_update hn, maskRow_update ho]
    split
    · rename_i hr
      subst hr
      rw [copied, rowsOf]
      dsimp only
      rw [maskRow_of_lt hn, maskRow_of_lt ho]
      rfl
    · rfl) m n r

/-- Nothing behind the old rows is written. -/
theorem copyColumn_behind {wn wo newBit oldBit : Nat} (ho : oldBit / 8 < wo) (m : Masks) {n i : Nat}
    (hi : n * wo ≤ i) :
    ((List.range n).foldl (copyRow wn wo newBit oldBit) m).old i = m.old i := by
  induction n with
  | zero => rfl
  | succ n ih =>
    rw [Nat.add_mul, Nat.one_mul] at hi
    rw [List.range_succ, List.foldl_append, List.foldl_cons, List.foldl_nil, copyRow]
    dsimp only
    rw [Function.update_of_ne (by omega), ih (by omega)]

end Rows

/-! ## The masks while columns are copied -/

/-- The first `n` columns of the new rows are those of `b`, and `k` columns
have left the old rows of `mask`. -/
structure Copying (wn wo numFec : Nat) (mask : Memory) (b : Nat → Nat → Bool) (n k : Nat)
    (m : Masks) : Prop where
  new : ∀ r < numFec, Row (maskRow m.new wn r) n (b r)
  old : ∀ r < numFec, Shifted (maskRow mask wo r) (maskRow m.old wo r) k
  behind : ∀ i, numFec * wo ≤ i → m.old i = mask i

namespace Copying

variable {wn wo numFec n k : Nat} {mask : Memory} {b : Nat → Nat → Bool} {m : Masks}

theorem start (wn wo numFec : Nat) (mask : Memory) (b : Nat → Nat → Bool) :
    Copying wn wo numFec mask b 0 0 ⟨fun _ => 0, mask⟩ where
  new r _ := by
    have : maskRow (fun _ => 0) wn r = fun _ => 0 := by
      funext j
      exact ite_self 0
    rw [this]
    exact Row.nil (b r)
  old r _ := Shifted.refl _
  behind _ _ := rfl

theorem zeros (h : Copying wn wo numFec mask b n k m) (hn : n / 8 < wn) {z : Nat}
    (hz : ∀ r < numFec, ∀ i, n ≤ i → i < n + z → b r i = false) :
    ∃ new, insertZeroColumns z wn numFec n m.new = some new ∧
      Copying wn wo numFec mask b (n + z) k { m with new } := by
  refine ⟨_, if_pos (Or.inr hn), fun r hr => ?_, h.old, h.behind⟩
  dsimp only
  rw [shiftColumn_row hn, if_pos hr]
  exact (h.new r hr).zeros (hz r hr)

theorem copy (h : Copying wn wo numFec mask b n k m) (hn : n / 8 < wn) (hk : k / 8 < wo)
    (hb : ∀ r < numFec, b r n = column (maskRow mask wo r) k) :
    ∃ m', copyColumn wn wo numFec n k m = some m' ∧
      Copying wn wo numFec mask b (n + 1) (k + 1) m' := by
  have hrows := fun r (hr : r < numFec) => (copyColumn_row hn hk m numFec r).trans (if_pos hr)
  refine ⟨_, if_pos (Or.inr ⟨hn, hk⟩), fun r hr => ?_, fun r hr => ?_, fun i hi => ?_⟩
  · have hnew := congrArg Prod.fst (hrows r hr)
    have hcol := (h.old r hr).column_eq
    change maskRow _ wn r = _ at hnew
    rw [hnew]
    exact (h.new r hr).push (hcol.trans (hb r hr).symm)
  · have hold := congrArg Prod.snd (hrows r hr)
    change maskRow _ wo r = _ at hold
    rw [hold]
    exact (h.old r hr).next
  · rw [copyColumn_behind hk m hi]
    exact h.behind i hi

end Copying

/-! ## The loop -/

theorem zeros_eq {first prev seq : UInt16} (h : Serial.dist first prev < Serial.dist first seq) :
    (seq - prev - 1).toNat = Serial.dist first seq - (Serial.dist first prev + 1) := by
  have h1 := first.toNat_lt
  have h2 := prev.toNat_lt
  have h3 := seq.toNat_lt
  unfold Serial.dist at h ⊢
  simp only [UInt16.toNat_sub, UInt16.toNat_one] at h ⊢
  omega

/-- The numbers `rest` are still to be copied, behind `prev`. -/
structure Ahead (first : UInt16) (offs done : List Nat) (prev : UInt16) (rest : List UInt16) :
    Prop where
  offs_eq : offs = done ++ rest.map (Serial.dist first)
  increasing : offs.Pairwise (· < ·)
  prev_mem : Serial.dist first prev ∈ done
  done_le : ∀ o ∈ done, o ≤ Serial.dist first prev

namespace Ahead

variable {first prev seq : UInt16} {offs done : List Nat} {rest : List UInt16}

theorem lt (h : Ahead first offs done prev (seq :: rest)) :
    Serial.dist first prev < Serial.dist first seq := by
  have hp := h.increasing
  rw [h.offs_eq, List.pairwise_append] at hp
  exact hp.2.2 _ h.prev_mem _ (List.mem_cons_self ..)

theorem next (h : Ahead first offs done prev (seq :: rest)) :
    Ahead first offs (done ++ [Serial.dist first seq]) seq rest where
  offs_eq := by rw [h.offs_eq, List.append_assoc]; rfl
  increasing := h.increasing
  prev_mem := List.mem_append_right _ (List.mem_cons_self ..)
  done_le o ho := by
    rcases List.mem_append.1 ho with ho | ho
    · exact Nat.le_trans (h.done_le o ho) (Nat.le_of_lt h.lt)
    · exact Nat.le_of_eq (List.mem_singleton.1 ho)

theorem get (h : Ahead first offs done prev (seq :: rest)) :
    offs[done.length]? = some (Serial.dist first seq) := by
  rw [h.offs_eq]
  simp

/-- No packet stands between `prev` and the next one. -/
theorem gap (h : Ahead first offs done prev (seq :: rest)) {i : Nat}
    (h1 : Serial.dist first prev < i) (h2 : i < Serial.dist first seq) : i ∉ offs := by
  rw [h.offs_eq, List.mem_append, List.map_cons, List.mem_cons]
  have hp := h.increasing
  rw [h.offs_eq, List.pairwise_append, List.map_cons, List.pairwise_cons] at hp
  rintro (hi | rfl | hi)
  · have := h.done_le i hi
    omega
  · omega
  · have := hp.2.1.1 i hi
    omega

theorem lt_of_mem (h : Ahead first offs done prev rest) {o : Nat}
    (ho : o ∈ rest.map (Serial.dist first)) : Serial.dist first prev < o := by
  have hp := h.increasing
  rw [h.offs_eq, List.pairwise_append] at hp
  exact hp.2.2 _ h.prev_mem _ ho

theorem le_last (h : Ahead first offs done prev rest) :
    ∀ o ∈ offs, o ≤ Serial.dist first (rest.getLastD prev) := by
  induction rest generalizing done prev with
  | nil =>
    intro o ho
    rw [h.offs_eq, List.map_nil, List.append_nil] at ho
    exact h.done_le o ho
  | cons seq rest ih =>
    rw [List.getLastD_cons]
    exact ih h.next

end Ahead

/-- The loop ends at the last packet, or with all columns of the row. -/
def Reaches (wn : Nat) (first : UInt16) (offs : List Nat) (n : Nat) (rest : List UInt16) : Prop :=
  (∀ o ∈ offs, o < 8 * wn) ∨
    wn = kMaskSizeLBitSet ∧ (n = 48 ∨ 47 ∈ rest.map (Serial.dist first))

namespace Reaches

variable {wn : Nat} {first prev seq : UInt16} {offs done : List Nat} {rest : List UInt16}

theorem inside (h : Reaches wn first offs (Serial.dist first prev + 1) (seq :: rest))
    (ha : Ahead first offs done prev (seq :: rest))
    (hn : Serial.dist first prev + 1 ≠ 8 * kMaskSizeLBitSet) : Serial.dist first seq < 8 * wn := by
  rcases h with h | ⟨rfl, h | h⟩
  · exact h _ (List.mem_of_getElem? ha.get)
  · exact absurd h hn
  · rcases List.mem_cons.1 h with h | h
    · exact Nat.lt_of_le_of_lt (Nat.le_of_eq h.symm) (by decide)
    · exact Nat.lt_trans (ha.next.lt_of_mem h) (by decide)

theorem next {n : Nat} (h : Reaches wn first offs n (seq :: rest))
    (hn : n ≠ 8 * kMaskSizeLBitSet) :
    Reaches wn first offs (Serial.dist first seq + 1) rest := by
  refine h.imp_right fun ⟨hw, h⟩ => ⟨hw, ?_⟩
  rcases h with h | h
  · exact absurd h hn
  · rcases List.mem_cons.1 h with h | h
    · exact Or.inl (by rw [← h])
    · exact Or.inr h

end Reaches

theorem insertLoop_spec {wn wo numFec : Nat} {mask : Memory} {b : Nat → Nat → Bool}
    {first : UInt16} {offs : List Nat} (hwn : wn ≤ kMaskSizeLBitSet)
    (hrow : offs.length ≤ 8 * wo)
    (hb : ∀ r < numFec, b r = placed offs (column (maskRow mask wo r)))
    {rest : List UInt16} {prev : UInt16} {done : List Nat} {m : Masks}
    (ha : Ahead first offs done prev rest)
    (hreach : Reaches wn first offs (Serial.dist first prev + 1) rest)
    (hm : Copying wn wo numFec mask b (Serial.dist first prev + 1) done.length m) :
    ∃ m' k, insertLoop wn wo numFec rest prev (Serial.dist first prev + 1) done.length m =
        some (min (Serial.dist first (rest.getLastD prev) + 1) 48, m') ∧
      Copying wn wo numFec mask b (min (Serial.dist first (rest.getLastD prev) + 1) 48) k m' := by
  have hnodup : offs.Nodup := ha.increasing.imp Nat.ne_of_lt
  induction rest generalizing prev done m with
  | nil =>
    have hle : Serial.dist first prev + 1 ≤ 48 := by
      rcases hreach with h | ⟨-, h | h⟩
      · have := h _ (ha.offs_eq ▸ List.mem_append_left _ ha.prev_mem)
        simp only [kMaskSizeLBitSet] at hwn
        omega
      · omega
      · exact absurd h List.not_mem_nil
    rw [List.getLastD_nil, Nat.min_eq_left hle]
    exact ⟨m, _, rfl, hm⟩
  | cons seq rest ih =>
    rw [List.getLastD_cons, insertLoop]
    split
    · rename_i h48
      have hlast := ha.le_last _ (ha.offs_eq ▸ List.mem_append_left _ ha.prev_mem)
      rw [List.getLastD_cons] at hlast
      simp only [kMaskSizeLBitSet] at h48
      have hmin : min (Serial.dist first (rest.getLastD seq) + 1) 48 =
          Serial.dist first prev + 1 := by
        omega
      rw [hmin]
      exact ⟨m, _, rfl, hm⟩
    · rename_i h48
      have hlt := ha.lt
      have hinside : Serial.dist first seq < 8 * wn := hreach.inside ha h48
      have hk : done.length < offs.length := (List.getElem?_eq_some_iff.1 ha.get).1
      obtain ⟨new, hnew, hm⟩ : ∃ new,
          (if 0 < (seq - prev - 1).toNat then insertZeroColumns (seq - prev - 1).toNat wn numFec
            (Serial.dist first prev + 1) m.new else some m.new) = some new ∧
          Copying wn wo numFec mask b (Serial.dist first seq) done.length { m with new } := by
        rw [zeros_eq hlt]
        split
        · have hz := hm.zeros (z := Serial.dist first seq - (Serial.dist first prev + 1)) (by omega)
            fun r hr i h1 h2 => by
              rw [hb r hr]
              exact placed_none (ha.gap (by omega) (by omega)) _
          rwa [show Serial.dist first prev + 1 + (Serial.dist first seq -
            (Serial.dist first prev + 1)) = Serial.dist first seq by omega] at hz
        · rw [show Serial.dist first prev + 1 = Serial.dist first seq by omega] at hm
          exact ⟨m.new, rfl, hm⟩
      obtain ⟨m', hcopy, hm'⟩ := hm.copy (by omega) (by omega) fun r hr => by
        rw [hb r hr]
        exact placed_get hnodup ha.get _
      have hstep : Serial.dist first prev + 1 + (seq - prev - 1).toNat = Serial.dist first seq := by
        rw [zeros_eq hlt]
        omega
      have hlen : done.length + 1 = (done ++ [Serial.dist first seq]).length := by simp
      rw [hlen] at hm'
      dsimp only
      rw [hnew, Option.bind_some, hstep, hcopy, Option.bind_some, hlen]
      exact ih ha.next (hreach.next h48) hm'

/-- With no packet in the last column the loop runs past it, and writes outside. -/
theorem insertLoop_outside {wn wo numFec : Nat} {first : UInt16} {offs : List Nat}
    (hwn : wn ≤ kMaskSizeLBitSet) (hfec : numFec ≠ 0) {rest : List UInt16} {prev : UInt16}
    {done : List Nat} {oldBit : Nat} {m : Masks} (ha : Ahead first offs done prev rest)
    (hprev : Serial.dist first prev < 47) (hno : 47 ∉ offs)
    (hlast : 48 ≤ Serial.dist first (rest.getLastD prev)) :
    insertLoop wn wo numFec rest prev (Serial.dist first prev + 1) oldBit m = none := by
  induction rest generalizing prev done oldBit m with
  | nil =>
    rw [List.getLastD_nil] at hlast
    omega
  | cons seq rest ih =>
    have hlt := ha.lt
    have hne : Serial.dist first seq ≠ 47 := fun h => hno (h ▸ List.mem_of_getElem? ha.get)
    have hstep : Serial.dist first prev + 1 + (seq - prev - 1).toNat = Serial.dist first seq := by
      rw [zeros_eq hlt]
      omega
    rw [insertLoop, if_neg (by simp only [kMaskSizeLBitSet]; omega)]
    dsimp only
    rw [Option.bind_eq_none_iff, hstep]
    intro new _
    by_cases hout : Serial.dist first seq < 47
    · rw [Option.bind_eq_none_iff]
      intro m' _
      rw [List.getLastD_cons] at hlast
      exact ih ha.next hout hlast
    · have hnone :
          copyColumn wn wo numFec (Serial.dist first seq) oldBit { m with new } = none := by
        rw [copyColumn, if_neg]
        simp only [kMaskSizeLBitSet] at hwn
        omega
      rw [hnone, Option.bind_none]

theorem alignLast_spec {wn wo numFec n k : Nat} {mask : Memory} {b : Nat → Nat → Bool} {m : Masks}
    (h : Copying wn wo numFec mask b n k m) (hn : n ≤ 8 * wn)
    (hz : ∀ r < numFec, ∀ i, n ≤ i → i < 8 * wn → b r i = false) :
    ∃ new, alignLast wn numFec n m.new = some new ∧
      ∀ r < numFec, ∀ i < 8 * wn, column (maskRow new wn r) i = b r i := by
  by_cases hlast : n % 8 ≠ 0
  · have hin : n / 8 < wn := by omega
    rw [alignLast, if_pos hlast]
    refine ⟨_, if_pos (Or.inr hin), fun r hr i hi => ?_⟩
    have hfin := (h.new r hr).finish (hz r hr) hi
    rw [if_pos hlast] at hfin
    rw [shiftColumn_row hin, if_pos hr]
    exact hfin
  · rw [alignLast, if_neg hlast]
    refine ⟨_, rfl, fun r hr i hi => ?_⟩
    have hfin := (h.new r hr).finish (hz r hr) hi
    rwa [if_neg hlast] at hfin

/-! ## The whole function -/

section Whole

variable {first second : UInt16} {rest : List UInt16} {mask : Memory} {numMaskBytes numFec : Nat}

theorem Ahead.start (hinc : StrictlyIncreasing (first :: rest)) :
    Ahead first (offsets (first :: rest)) [0] first rest where
  offs_eq := congrArg (· :: rest.map (Serial.dist first)) (Serial.dist_self first)
  increasing := hinc
  prev_mem := List.mem_singleton.2 (Serial.dist_self first)
  done_le o ho := by
    rw [List.mem_singleton.1 ho]
    exact Nat.zero_le _

theorem span_eq (first : UInt16) (rest : List UInt16) :
    span (first :: rest) = Serial.dist first (rest.getLastD first) + 1 := by
  rw [span, List.getLastD_cons]
  rfl

theorem insertZerosInBitMasks_eq (first second : UInt16) (rest : List UInt16) (mask : Memory)
    (numMaskBytes numFec : Nat) :
    insertZerosInBitMasks (first :: second :: rest) mask numMaskBytes numFec =
      if span (first :: second :: rest) = (first :: second :: rest).length then
        some ((first :: second :: rest).length, mask)
      else
        (copyColumn (maskBytes (span (first :: second :: rest))) numMaskBytes numFec 0 0
          ⟨fun _ => 0, mask⟩).bind fun m =>
        (insertLoop (maskBytes (span (first :: second :: rest))) numMaskBytes numFec
          (second :: rest) first 1 1 m).bind fun r =>
        (alignLast (maskBytes (span (first :: second :: rest))) numFec r.1 r.2.new).bind fun new =>
        some (r.1, fun i => if i < kMaskSizeLBitSet * numFec then new i else r.2.old i) := by
  rw [insertZerosInBitMasks]
  dsimp only
  have hlast : rest.getLastD second - first =
      (first :: second :: rest).getLastD 0 - (first :: second :: rest).headD 0 := by
    rw [List.getLastD_cons, List.getLastD_cons]
    rfl
  rw [hlast]
  have hspan : span (first :: second :: rest) = ((first :: second :: rest).getLastD 0 -
      (first :: second :: rest).headD 0).toNat + 1 := rfl
  have hwidth : maskBytes (span (first :: second :: rest)) =
      if 8 * (kMaskSizeLBitClear : Int) < ((first :: second :: rest).length : Int) +
        ((((first :: second :: rest).getLastD 0 - (first :: second :: rest).headD 0).toNat : Int) -
          (first :: second :: rest).length + 1) then kMaskSizeLBitSet else kMaskSizeLBitClear := by
    rw [maskBytes, hspan]
    exact if_congr (by omega) rfl rfl
  rw [← hwidth]
  exact if_congr (by omega) rfl rfl

theorem maskBytes_le (bits : Nat) : maskBytes bits ≤ kMaskSizeLBitSet := by
  rw [maskBytes]
  split
  · exact Nat.le_refl _
  · decide

theorem maskBytes_pos (bits : Nat) : 0 < maskBytes bits := by
  rw [maskBytes]
  split <;> decide

/-- A row is as wide as the numbers it covers, or as wide as it can be. -/
theorem lt_maskBytes {bits i : Nat} (hi : i < bits) (h48 : i < 48) : i < 8 * maskBytes bits := by
  rw [maskBytes, kMaskSizeLBitSet, kMaskSizeLBitClear]
  split <;> omega

theorem length_le_row {bits : Nat} (h : bits ≤ 48) : bits ≤ 8 * maskBytes bits := by
  rw [maskBytes, kMaskSizeLBitSet, kMaskSizeLBitClear]
  split <;> omega

theorem maskRow_congr {new old : Memory} {width r : Nat} (hw : width ≤ kMaskSizeLBitSet)
    (hr : r < numFec) :
    maskRow (fun i => if i < kMaskSizeLBitSet * numFec then new i else old i) width r =
      maskRow new width r := by
  funext j
  rw [maskRow, maskRow]
  split
  · rename_i hj
    have hle : (r + 1) * width ≤ numFec * kMaskSizeLBitSet := Nat.mul_le_mul hr hw
    rw [Nat.add_mul, Nat.one_mul, Nat.mul_comm numFec] at hle
    exact if_pos (by omega)
  · rfl

/-- The columns stand at their offsets, in rows as wide as the numbers need. -/
theorem columns_inserted (hinc : StrictlyIncreasing (first :: second :: rest))
    (hrow : (first :: second :: rest).length ≤ 8 * numMaskBytes)
    (hsize : numMaskBytes ≤ kMaskSizeLBitSet)
    (hreach : span (first :: second :: rest) ≤ 48 ∨ 47 ∈ offsets (first :: second :: rest))
    (hgap : span (first :: second :: rest) ≠ (first :: second :: rest).length) (mask : Memory)
    (numFec : Nat) :
    ∃ mask', insertZerosInBitMasks (first :: second :: rest) mask numMaskBytes numFec =
        some (min (span (first :: second :: rest)) 48, mask') ∧
      (∀ i, kMaskSizeLBitSet * numFec ≤ i → mask' i = mask i) ∧
      ∀ r < numFec, ∀ i < 8 * maskBytes (span (first :: second :: rest)),
        column (maskRow mask' (maskBytes (span (first :: second :: rest))) r) i =
          placed (offsets (first :: second :: rest)) (column (maskRow mask numMaskBytes r)) i := by
  have ha := Ahead.start hinc
  have hle := ha.le_last
  have hspan : span (first :: second :: rest) =
      Serial.dist first ((second :: rest).getLastD first) + 1 := span_eq first (second :: rest)
  rw [insertZerosInBitMasks_eq, if_neg hgap]
  generalize hoffs : offsets (first :: second :: rest) = offs at *
  generalize hw : maskBytes (span (first :: second :: rest)) = wn
  have hwn : wn ≤ kMaskSizeLBitSet := hw ▸ maskBytes_le _
  have hlen : offs.length = (first :: second :: rest).length := by
    rw [← hoffs, offsets, List.length_map]
  obtain ⟨m, hcopy, hm⟩ := (Copying.start wn numMaskBytes numFec mask fun r =>
      placed offs (column (maskRow mask numMaskBytes r))).copy (hw ▸ maskBytes_pos _)
    (by rw [List.length_cons] at hrow; omega) fun r _ =>
      placed_get (ha.increasing.imp Nat.ne_of_lt) (by rw [ha.offs_eq]; rfl) _
  have hall : Reaches wn first offs (Serial.dist first first + 1) (second :: rest) := by
    by_cases h48 : span (first :: second :: rest) ≤ 48
    · refine Or.inl fun o ho => ?_
      have := hle o ho
      rw [← hw]
      exact lt_maskBytes (by omega) (by omega)
    · refine Or.inr ⟨?_, Or.inr ?_⟩
      · rw [← hw, maskBytes, kMaskSizeLBitClear]
        exact if_pos (by omega)
      · have h47 := hreach.resolve_left h48
        rw [ha.offs_eq] at h47
        exact (List.mem_cons.1 h47).resolve_left (by decide)
  obtain ⟨m', k, hloop, hm'⟩ := insertLoop_spec hwn (hlen ▸ hrow) (fun _ _ => rfl) ha hall
    (by rw [Serial.dist_self]; exact hm)
  rw [Serial.dist_self, ← hspan] at hloop
  rw [← hspan] at hm'
  have hbits : min (span (first :: second :: rest)) 48 ≤ 8 * wn := by
    rw [← hw, maskBytes, kMaskSizeLBitSet, kMaskSizeLBitClear]
    split <;> omega
  obtain ⟨new, halign, hnew⟩ := alignLast_spec hm' hbits fun r hr i h1 h2 =>
    placed_none (fun h => by
      have := hle i h
      rw [kMaskSizeLBitSet] at hwn
      omega) _
  rw [hcopy, Option.bind_some]
  have hone : insertLoop wn numMaskBytes numFec (second :: rest) first 1 1 m = _ := hloop
  rw [hone, Option.bind_some, halign, Option.bind_some]
  refine ⟨_, rfl, fun i hi => ?_, fun r hr i hi => ?_⟩
  · rw [if_neg (by omega)]
    refine hm'.behind i (Nat.le_trans ?_ hi)
    rw [Nat.mul_comm]
    exact Nat.mul_le_mul_right numFec hsize
  · rw [maskRow_congr hwn hr]
    exact hnew r hr i hi

/-- The masks are left as they are, or have a zero column for each number that
is missing. -/
theorem zeros_inserted {seqs : List UInt16} (hmax : seqs.length ≤ 48)
    (hinc : StrictlyIncreasing seqs) (hreach : span seqs ≤ 48 ∨ 47 ∈ offsets seqs)
    (mask : Memory) (numFec : Nat) :
    ∃ bits mask',
      insertZerosInBitMasks seqs mask (maskBytes seqs.length) numFec = some (bits, mask') ∧
      (mask' = mask ∧ bits = seqs.length ∧ (seqs.length ≤ 1 ∨ span seqs = seqs.length) ∨
        bits = min (span seqs) 48 ∧
          (∀ i, kMaskSizeLBitSet * numFec ≤ i → mask' i = mask i) ∧
          ∀ r < numFec, ∀ i < 8 * maskBytes bits,
            column (maskRow mask' (maskBytes bits) r) i =
              placed (offsets seqs) (column (maskRow mask (maskBytes seqs.length) r)) i) := by
  rcases seqs with _ | ⟨first, _ | ⟨second, rest⟩⟩
  · exact ⟨0, mask, rfl, Or.inl ⟨rfl, rfl, Or.inl (by decide)⟩⟩
  · exact ⟨1, mask, rfl, Or.inl ⟨rfl, rfl, Or.inl (Nat.le_refl 1)⟩⟩
  · by_cases hgap : span (first :: second :: rest) = (first :: second :: rest).length
    · refine ⟨_, mask, ?_, Or.inl ⟨rfl, rfl, Or.inr hgap⟩⟩
      rw [insertZerosInBitMasks_eq, if_pos hgap]
    · obtain ⟨mask', hrun, hbehind, hcolumns⟩ :=
        columns_inserted hinc (length_le_row hmax) (maskBytes_le _) hreach hgap mask numFec
      have hwidth : maskBytes (min (span (first :: second :: rest)) 48) =
          maskBytes (span (first :: second :: rest)) :=
        if_congr (by rw [kMaskSizeLBitClear]; omega) rfl rfl
      exact ⟨_, mask', hrun, Or.inr ⟨rfl, hbehind, by rwa [hwidth]⟩⟩

theorem zeros_inserted_wrap :
    ∃ mask', insertZerosInBitMasks [65534, 65535, 3] (fun _ => 0xA0) 2 1 = some (6, mask') ∧
      ∀ i < 16, column (maskRow mask' 2 0) i =
        placed [0, 1, 5] (column (maskRow (fun _ => 0xA0) 2 0)) i := by
  obtain ⟨bits, mask', hrun, ⟨-, -, h⟩ | ⟨hbits, -, hcolumns⟩⟩ :=
    @zeros_inserted [65534, 65535, 3] (by decide) (by decide) (by decide) (fun _ => 0xA0) 1
  · exact absurd h (by decide)
  · have h6 : bits = 6 := hbits
    subst h6
    exact ⟨mask', hrun, hcolumns 0 Nat.one_pos⟩

/-- A packet that stands behind the last column has none. -/
theorem behind_last_column :
    ¬ ∀ seqs : List UInt16, seqs.length ≤ 48 → StrictlyIncreasing seqs →
      ∀ (mask : Memory) (numFec : Nat), ∃ bits mask',
        insertZerosInBitMasks seqs mask (maskBytes seqs.length) numFec = some (bits, mask') ∧
        (mask' = mask ∨ ∀ r < numFec, ∀ k i, (offsets seqs)[k]? = some i →
          i < bits ∧ column (maskRow mask' (maskBytes bits) r) i =
            column (maskRow mask (maskBytes seqs.length) r) k) := by
  intro h
  obtain ⟨bits, mask', hrun, hmask⟩ := h [0, 47, 48] (by decide) (by decide) (fun _ => 0xE0) 1
  have hfirst : (insertZerosInBitMasks [0, 47, 48] (fun _ => 0xE0) 2 1).map
      (fun r => (r.1, r.2 0)) = some (48, 0x80) := by decide
  have hrun' : insertZerosInBitMasks [0, 47, 48] (fun _ => 0xE0) 2 1 = some (bits, mask') := hrun
  rw [hrun', Option.map_some, Option.some.injEq, Prod.mk.injEq] at hfirst
  rcases hmask with rfl | hmask
  · have hsame : (0xE0 : UInt8) = 0x80 := hfirst.2
    exact absurd hsame (by decide)
  · have := (hmask 0 Nat.one_pos 2 48 (by decide)).1
    omega

/-- Exactly the packets that jump over the last column leave the masks. -/
theorem outside_iff {seqs : List UInt16} (hmax : seqs.length ≤ 48)
    (hinc : StrictlyIncreasing seqs) (mask : Memory) {numFec : Nat} (hfec : numFec ≠ 0) :
    insertZerosInBitMasks seqs mask (maskBytes seqs.length) numFec = none ↔
      48 < span seqs ∧ 47 ∉ offsets seqs := by
  rcases seqs with _ | ⟨first, _ | ⟨second, rest⟩⟩
  · simp [insertZerosInBitMasks, span]
  · simp [insertZerosInBitMasks, span]
  · by_cases hgap : span (first :: second :: rest) = (first :: second :: rest).length
    · rw [insertZerosInBitMasks_eq, if_pos hgap]
      simp only [reduceCtorEq, false_iff]
      omega
    · by_cases hreach : span (first :: second :: rest) ≤ 48 ∨ 47 ∈ offsets (first :: second :: rest)
      · obtain ⟨mask', hrun, -⟩ :=
          columns_inserted hinc (length_le_row hmax) (maskBytes_le _) hreach hgap mask numFec
        rw [hrun]
        simp only [reduceCtorEq, false_iff, not_and_or, not_not, Nat.not_lt]
        exact hreach
      · rw [not_or, Nat.not_le] at hreach
        refine iff_of_true ?_ hreach
        have hlast := hreach.1
        rw [span_eq, Nat.lt_succ_iff] at hlast
        rw [insertZerosInBitMasks_eq, if_neg hgap, Option.bind_eq_none_iff]
        intro m _
        have hloop : insertLoop (maskBytes (span (first :: second :: rest)))
            (maskBytes (first :: second :: rest).length) numFec (second :: rest) first
            (Serial.dist first first + 1) 1 m = none :=
          insertLoop_outside (maskBytes_le _) hfec (Ahead.start hinc)
            (by rw [Serial.dist_self]; decide) hreach.2 hlast
        rw [Serial.dist_self] at hloop
        rw [hloop, Option.bind_none]

end Whole

end RtcCore.L2.FecMask
