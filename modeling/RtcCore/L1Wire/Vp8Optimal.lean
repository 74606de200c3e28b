import RtcCore.Core.BranchAndBound
import RtcCore.L1Wire.Vp8Aggregator

/-!
# The aggregation of VP8 partitions is optimal

A grouping puts consecutive partitions into packets. `getOptimalNode` is branch
and bound in the tree of groupings: the cost of a node is that of the packets
so far, which no grouping below it falls short of. The tree leaves out
groupings in which a packet of empty partitions is followed by another one;
joining the two does not cost more.

Results:
- `getOptimalNodeFrom_eq`: the search is an instance of branch and bound.
- `leaf_grouping`, `grouping_leaf`: leaves are groupings, and no grouping is
  cheaper than every leaf.
- `optimal_configuration`: the configuration numbers a cheapest grouping, as long
  as sizes and costs are values of `int`.
-/
namespace RtcCore.L1.Vp8

open BranchAndBound

/-! ## Groupings -/

/-- Partitions in their order, in packets that fit. -/
structure Grouping (sizes : List Nat) (maxSize : Nat) (g : List (List Nat)) : Prop where
  order : g.flatten = sizes
  nonempty : [] ∉ g
  fits : ∀ p ∈ g, p.sum ≤ maxSize

/-- The sizes that count: those given before, and those of the packets. -/
def countedSizes (prior : Option (Int × Int)) (g : List (List Nat)) : List Int :=
  (match prior with
    | none => []
    | some (min, max) => [min, max]) ++ g.map fun p => (p.sum : Int)

@[simp] theorem countedSizes_none (g : List (List Nat)) :
    countedSizes none g = g.map fun p => (p.sum : Int) := rfl

@[simp] theorem countedSizes_some (m : Int × Int) (g : List (List Nat)) :
    countedSizes (some m) g = m.1 :: m.2 :: g.map fun p => (p.sum : Int) := rfl

/-- The largest size less the smallest one, and the penalties. -/
def groupingCost (prior : Option (Int × Int)) (penalty : Nat) (g : List (List Nat)) : Int :=
  (countedSizes prior g).max?.getD 0 - (countedSizes prior g).min?.getD 0 + g.length * penalty

/-- The number of its packet for each partition. -/
def numbering (idx : Nat) : List (List Nat) → List Nat
  | [] => []
  | p :: g => List.replicate p.length idx ++ numbering (idx + 1) g

/-- Where a flag is set, a packet starts. -/
def groupsFrom (packet : List Nat) : List Nat → List Bool → List (List Nat)
  | s :: sizes, true :: starts => packet :: groupsFrom [s] sizes starts
  | s :: sizes, false :: starts => groupsFrom (packet ++ [s]) sizes starts
  | _, _ => [packet]

@[simp] theorem groupsFrom_nil (packet : List Nat) (starts : List Bool) :
    groupsFrom packet [] starts = [packet] := rfl

@[simp] theorem groupsFrom_none (packet sizes : List Nat) :
    groupsFrom packet sizes [] = [packet] := by
  cases sizes <;> rfl

@[simp] theorem groupsFrom_true (packet : List Nat) (s : Nat) (sizes : List Nat)
    (starts : List Bool) : groupsFrom packet (s :: sizes) (true :: starts) =
      packet :: groupsFrom [s] sizes starts := rfl

@[simp] theorem groupsFrom_false (packet : List Nat) (s : Nat) (sizes : List Nat)
    (starts : List Bool) : groupsFrom packet (s :: sizes) (false :: starts) =
      groupsFrom (packet ++ [s]) sizes starts := rfl

theorem groupsFrom_flatten (sizes : List Nat) (starts : List Bool) (packet : List Nat)
    (h : starts.length = sizes.length) :
    (groupsFrom packet sizes starts).flatten = packet ++ sizes := by
  induction sizes generalizing packet starts with
  | nil => simp
  | cons s sizes ih =>
    cases starts with
    | nil => cases h
    | cons b starts =>
      have hlen : starts.length = sizes.length := Nat.succ.inj h
      cases b <;> simp [ih _ _ hlen]

theorem groupsFrom_nonempty (sizes : List Nat) (starts : List Bool) {packet : List Nat}
    (h : packet ≠ []) : [] ∉ groupsFrom packet sizes starts := by
  induction sizes generalizing packet starts with
  | nil => simpa using h.symm
  | cons s sizes ih =>
    match starts with
    | [] => simpa using h.symm
    | true :: starts =>
      have := ih starts (List.cons_ne_nil s [])
      simp [this, h.symm]
    | false :: starts => exact ih starts (by simp)

/-- The sizes of the packets depend on the first one only through its size. -/
theorem groupsFrom_sums (sizes : List Nat) (starts : List Bool) {packet packet' : List Nat}
    (h : packet.sum = packet'.sum) : (groupsFrom packet sizes starts).map List.sum =
      (groupsFrom packet' sizes starts).map List.sum := by
  induction sizes generalizing packet packet' starts with
  | nil => simp [h]
  | cons s sizes ih =>
    match starts with
    | [] => simp [h]
    | true :: starts => simp [h]
    | false :: starts => exact ih starts (by rw [List.sum_append, List.sum_append, h])

/-- A packet for each partition. -/
theorem groupsFrom_singletons (sizes packet : List Nat) :
    groupsFrom packet sizes (List.replicate sizes.length true) =
      packet :: sizes.map fun s => [s] := by
  induction sizes generalizing packet with
  | nil => rfl
  | cons s sizes ih => rw [List.length_cons, List.replicate_succ, groupsFrom_true, ih]; rfl

/-- The first packet goes on. -/
theorem groupsFrom_cons (sizes : List Nat) (starts : List Bool) (packet : List Nat) :
    ∃ more g, groupsFrom packet sizes starts = (packet ++ more) :: g := by
  induction sizes generalizing packet starts with
  | nil => exact ⟨[], [], by simp⟩
  | cons s sizes ih =>
    match starts with
    | [] => exact ⟨[], [], by simp⟩
    | true :: starts => exact ⟨[], groupsFrom [s] sizes starts, by simp⟩
    | false :: starts =>
      obtain ⟨more, g, heq⟩ := ih starts (packet ++ [s])
      exact ⟨s :: more, g, by rw [groupsFrom_false, heq, List.append_assoc]; rfl⟩

/-- Every grouping is given by flags. -/
theorem exists_groupsFrom (sizes packet more : List Nat) (g : List (List Nat)) (hg : [] ∉ g)
    (h : more ++ g.flatten = sizes) : ∃ starts, starts.length = sizes.length ∧
      groupsFrom packet sizes starts = (packet ++ more) :: g := by
  induction sizes generalizing packet more g with
  | nil =>
    obtain ⟨rfl, hnil⟩ := List.append_eq_nil_iff.1 h
    cases g with
    | nil => exact ⟨[], rfl, by simp⟩
    | cons p g =>
      rw [List.flatten_cons] at hnil
      obtain ⟨rfl, -⟩ := List.append_eq_nil_iff.1 hnil
      exact absurd (List.mem_cons_self ..) hg
  | cons s sizes ih =>
    cases more with
    | cons m more =>
      rw [List.cons_append] at h
      obtain ⟨rfl, htail⟩ := List.cons.inj h
      obtain ⟨starts, hlen, heq⟩ := ih (packet ++ [m]) more g hg htail
      exact ⟨false :: starts, congrArg Nat.succ hlen, by
        rw [groupsFrom_false, heq, List.append_assoc]; rfl⟩
    | nil =>
      cases g with
      | nil => cases h
      | cons p g =>
        rw [List.nil_append, List.flatten_cons] at h
        cases p with
        | nil => exact absurd (List.mem_cons_self ..) hg
        | cons m more =>
          obtain ⟨rfl, htail⟩ := List.cons.inj h
          obtain ⟨starts, hlen, heq⟩ :=
            ih [m] more g (fun hm => hg (List.mem_cons_of_mem _ hm)) htail
          exact ⟨true :: starts, congrArg Nat.succ hlen, by
            rw [groupsFrom_true, heq, List.append_nil]; rfl⟩

/-! ## The configuration -/

/-- The numbers of the packets behind number `idx`. -/
def packetNumbers (idx : Nat) : List Bool → List Nat
  | [] => []
  | b :: starts =>
    (if b then idx + 1 else idx) :: packetNumbers (if b then idx + 1 else idx) starts

theorem numbering_groupsFrom (sizes : List Nat) (starts : List Bool) (packet : List Nat) (idx : Nat)
    (h : starts.length = sizes.length) : numbering idx (groupsFrom packet sizes starts) =
      List.replicate packet.length idx ++ packetNumbers idx starts := by
  induction sizes generalizing packet starts idx with
  | nil =>
    rw [List.eq_nil_of_length_eq_zero h]
    simp [numbering, packetNumbers]
  | cons s sizes ih =>
    cases starts with
    | nil => cases h
    | cons b starts =>
      have hlen : starts.length = sizes.length := Nat.succ.inj h
      cases b with
      | true => simp [numbering, packetNumbers, ih _ _ _ hlen]
      | false =>
        simp [packetNumbers, ih _ _ _ hlen, List.replicate_succ']

theorem configFrom_flags (starts : List Bool) (k idx : Nat) (earlier : List Bool) :
    configFrom (starts.length + k) (idx + 1 + starts.count true) (starts.reverse ++ earlier) =
      configFrom k (idx + 1) earlier ++ packetNumbers idx starts := by
  induction starts generalizing k idx earlier with
  | nil => simp [packetNumbers]
  | cons b starts ih =>
    have hlen : (b :: starts).length + k = starts.length + (k + 1) := by
      rw [List.length_cons]
      omega
    have hrev : (b :: starts).reverse ++ earlier = starts.reverse ++ b :: earlier := by simp
    rw [hlen, hrev]
    cases b with
    | true =>
      have hcount : idx + 1 + (true :: starts).count true = idx + 1 + 1 + starts.count true := by
        rw [List.count_cons_self]
        omega
      rw [hcount, ih (k + 1) (idx + 1) (true :: earlier)]
      simp [configFrom, packetNumbers]
    | false =>
      have hcount : idx + 1 + (false :: starts).count true = idx + 1 + starts.count true := by
        rw [List.count_cons_of_ne (by decide)]
      rw [hcount, ih (k + 1) idx (false :: earlier)]
      simp [configFrom, packetNumbers]

/-! ## The tree -/

namespace Node

def leftChild (maxSize s : Nat) (n : Node) : Option Node :=
  if n.thisSize + s ≤ maxSize then some (n.left s n.sizes.tail) else none

def rightChild (s : Nat) (n : Node) : Option Node :=
  if 0 < n.thisSize then some (n.right s n.sizes.tail) else none

theorem getOptimalNodeFrom_eq (maxSize penalty : Nat) (sizes : List Nat) (n : Node)
    (h : n.sizes = sizes) : getOptimalNodeFrom maxSize penalty sizes n =
      search (leftChild maxSize) rightChild (cost · penalty) sizes n := by
  induction sizes generalizing n with
  | nil => rfl
  | cons s rest ih =>
    have htail : n.sizes.tail = rest := by rw [h]; rfl
    have hl := ih (n.left s rest) rfl
    have hr := ih (n.right s rest) rfl
    rw [getOptimalNodeFrom, search, leftChild, rightChild, htail]
    dsimp only
    by_cases h1 : n.thisSize + s ≤ maxSize <;> by_cases h2 : 0 < n.thisSize <;>
      simp only [h1, h2, decide_true, decide_false, if_true, if_false]
    · by_cases hc : (n.left s rest).cost penalty ≤ (n.right s rest).cost penalty
      · simp only [if_pos hc, pick, hl, hr]
      · simp only [if_neg hc, pick, hl, hr]
    · exact hl
    · exact hr

/-- The cost without the bound of `int`. -/
def bound (penalty : Nat) (n : Node) : Int :=
  (if n.sizes.isEmpty then max n.maxParentSize n.thisSize - min n.minParentSize n.thisSize
    else max n.maxParentSize n.thisSize - n.minParentSize) + n.numPackets * penalty

/-- Packets that fit have sizes that are values of `int`. -/
def IntSizes (maxSize : Nat) (g : List (List Nat)) : Prop :=
  (∀ p ∈ g, p.sum ≤ maxSize) → ∀ p ∈ g, (p.sum : Int) ≤ intMax

theorem IntSizes.congr {maxSize : Nat} {g g' : List (List Nat)} (h : IntSizes maxSize g)
    (heq : g.map List.sum = g'.map List.sum) : IntSizes maxSize g' := by
  unfold IntSizes at h ⊢
  have hfit := List.forall_mem_map (f := List.sum) (l := g) (P := (· ≤ maxSize))
  have hint := List.forall_mem_map (f := List.sum) (l := g) (P := fun t : Nat => (t : Int) ≤ intMax)
  rw [heq] at hfit hint
  rw [← hfit, ← hint] at h
  rwa [List.forall_mem_map, List.forall_mem_map] at h

/-- The partitions in front of the node fit, and sizes are values of `int`. -/
structure Sized (maxSize : Nat) (sizes : List Nat) (n : Node) : Prop where
  behind : n.sizes = sizes
  rest : ∀ s ∈ sizes, s ≤ maxSize
  fits : n.thisSize ≤ maxSize
  small : ∀ starts, starts.length = sizes.length →
    IntSizes maxSize (groupsFrom [n.thisSize] sizes starts)
  largest : 0 ≤ n.maxParentSize
  smallest : 0 ≤ n.minParentSize ∧ n.minParentSize ≤ intMax

variable {maxSize penalty s : Nat} {sizes rest : List Nat} {n l r x : Node}

theorem toInt_of_range {i : Int} (h : -intMax ≤ i) (h' : i ≤ intMax) : toInt i = i := by
  rw [intMax] at h h'
  rw [toInt]
  omega

theorem Sized.thisSize_le (h : Sized maxSize sizes n) : (n.thisSize : Int) ≤ intMax := by
  have hg := h.small (List.replicate sizes.length true) (List.length_replicate ..)
  rw [groupsFrom_singletons] at hg
  have hle := hg (fun p hp => ?_) [n.thisSize] (List.mem_cons_self ..)
  · rwa [List.sum_singleton] at hle
  · obtain rfl | hp := List.mem_cons.1 hp
    · rw [List.sum_singleton]
      exact h.fits
    · obtain ⟨s, hs, rfl⟩ := List.mem_map.1 hp
      rw [List.sum_singleton]
      exact h.rest s hs

theorem Sized.thisSizeInt (h : Sized maxSize sizes n) : n.thisSizeInt = n.thisSize := by
  refine toInt_of_range ?_ h.thisSize_le
  rw [intMax]
  omega

theorem Sized.leftChild (h : Sized maxSize (s :: rest) n) (hl : leftChild maxSize s n = some l) :
    l = n.left s rest ∧ n.thisSize + s ≤ maxSize ∧ Sized maxSize rest l := by
  rw [Node.leftChild] at hl
  split at hl
  · cases hl
    rw [h.behind, List.tail_cons]
    refine ⟨rfl, ‹_›, rfl, fun t ht => h.rest t (List.mem_cons_of_mem _ ht), ‹_›, ?_, h.largest,
      h.smallest⟩
    intro starts hlen
    have hg := h.small (false :: starts) (congrArg Nat.succ hlen)
    exact hg.congr (groupsFrom_sums rest starts (by simp [left]))
  · cases hl

theorem Sized.rightChild (h : Sized maxSize (s :: rest) n) (hr : rightChild s n = some r) :
    r = { n.right s rest with
        maxParentSize := max n.maxParentSize n.thisSize
        minParentSize := min n.minParentSize n.thisSize } ∧
      Sized maxSize rest r := by
  rw [Node.rightChild] at hr
  split at hr
  · cases hr
    have hlargest := h.largest
    have hsmallest := h.smallest
    rw [h.behind, List.tail_cons, right, h.thisSizeInt]
    refine ⟨rfl, rfl, fun t ht => h.rest t (List.mem_cons_of_mem _ ht),
      h.rest s (List.mem_cons_self ..), ?_, ?_, ?_⟩
    · intro starts hlen hfit p hp
      have hg := h.small (true :: starts) (congrArg Nat.succ hlen)
      refine hg (fun q hq => ?_) p (List.mem_cons_of_mem _ hp)
      obtain rfl | hq := List.mem_cons.1 hq
      · rw [List.sum_singleton]
        exact h.fits
      · exact hfit q hq
    · dsimp only
      omega
    · dsimp only
      omega
  · cases hr

theorem Sized.leaf (h : Sized maxSize sizes n)
    (hx : Leaf (Node.leftChild maxSize) Node.rightChild sizes n x) : Sized maxSize [] x := by
  induction hx with
  | here n => exact h
  | left hl _ ih => exact ih (h.leftChild hl).2.2
  | right hr _ ih => exact ih (h.rightChild hr).2

theorem bound_inner (h : n.sizes = s :: rest) : n.bound penalty =
    max n.maxParentSize n.thisSize - n.minParentSize + n.numPackets * penalty := by
  rw [bound, h, List.isEmpty_cons, if_neg Bool.false_ne_true]

theorem le_bound (penalty : Nat) (n : Node) :
    max n.maxParentSize n.thisSize - n.minParentSize + n.numPackets * penalty ≤ n.bound penalty := by
  rw [bound]
  by_cases he : n.sizes.isEmpty = true
  · rw [if_pos he]
    omega
  · rw [if_neg he]

/-- Going down, sizes spread and packets are added. -/
theorem bounded_bound (maxSize penalty : Nat) :
    Bounded (leftChild maxSize) rightChild (bound penalty) (Sized maxSize) where
  below_left := by
    intro s rest n l h hl
    obtain ⟨rfl, -, hsized⟩ := h.leftChild hl
    have hle : max n.maxParentSize ((n.thisSize + s : Nat) : Int) - n.minParentSize +
        n.numPackets * penalty ≤ (n.left s rest).bound penalty := le_bound penalty (n.left s rest)
    refine ⟨hsized, ?_⟩
    rw [bound_inner h.behind]
    omega
  below_right := by
    intro s rest n r h hr
    obtain ⟨heq, hsized⟩ := h.rightChild hr
    have hle : max (max n.maxParentSize n.thisSize) (s : Int) -
        min n.minParentSize n.thisSize + ((n.numPackets + 1 : Nat) : Int) * penalty ≤
          r.bound penalty := by
      have hr := le_bound penalty r
      rw [heq] at hr ⊢
      exact hr
    refine ⟨hsized, ?_⟩
    rw [bound_inner h.behind]
    rw [Int.natCast_add, Int.add_mul] at hle
    omega
  child := by
    intro s rest n h hl
    have hs := h.rest s (List.mem_cons_self ..)
    rw [leftChild] at hl
    split at hl
    · cases hl
    · rw [rightChild, if_pos (by omega)]
      exact Option.some_ne_none _

/-! ## Leaves are groupings -/

def largest (m : Int) (g : List (List Nat)) : Int := (g.map fun p => (p.sum : Int)).foldl max m

def smallest (m : Int) (g : List (List Nat)) : Int := (g.map fun p => (p.sum : Int)).foldl min m

theorem largest_cons (m : Int) (p : List Nat) (g : List (List Nat)) :
    largest m (p :: g) = largest (max m p.sum) g := rfl

theorem smallest_cons (m : Int) (p : List Nat) (g : List (List Nat)) :
    smallest m (p :: g) = smallest (min m p.sum) g := rfl

/-- The cost with the packets `g` from this node on. -/
def costWith (n : Node) (penalty : Nat) (g : List (List Nat)) : Int :=
  largest n.maxParentSize g - smallest n.minParentSize g + (n.numPackets + g.length - 1) * penalty

theorem costWith_nil {packet : List Nat} (h : n.sizes = []) (hp : packet.sum = n.thisSize) :
    n.costWith penalty [packet] = n.bound penalty := by
  have hnum : (n.numPackets : Int) + ([packet].length : Int) - 1 = n.numPackets := by
    rw [List.length_singleton]
    omega
  rw [costWith, largest_cons, smallest_cons, hp, hnum, bound, h]
  rfl

theorem Sized.costWith_right (h : Sized maxSize (s :: rest) n) (hr : Node.rightChild s n = some r)
    {packet : List Nat} (hp : packet.sum = n.thisSize) (g : List (List Nat)) :
    r.costWith penalty g = n.costWith penalty (packet :: g) := by
  obtain ⟨rfl, -⟩ := h.rightChild hr
  have hnum : ((n.numPackets + 1 : Nat) : Int) + g.length - 1 =
      n.numPackets + ((g.length + 1 : Nat) : Int) - 1 := by omega
  rw [costWith, costWith, largest_cons, smallest_cons, hp, List.length_cons, ← hnum]
  rfl

/-- What a leaf has accumulated is a grouping that fits. -/
theorem leaf_grouping (h : Sized maxSize sizes n)
    (hx : Leaf (Node.leftChild maxSize) Node.rightChild sizes n x) {c : List Nat}
    (hp : c.sum = n.thisSize) : ∃ starts, starts.length = sizes.length ∧
      x.starts = starts.reverse ++ n.starts ∧ x.numPackets = n.numPackets + starts.count true ∧
      (∀ p ∈ groupsFrom c sizes starts, p.sum ≤ maxSize) ∧
      x.bound penalty = n.costWith penalty (groupsFrom c sizes starts) := by
  induction hx generalizing c with
  | here n =>
    refine ⟨[], rfl, rfl, rfl, ?_, (costWith_nil h.behind hp).symm⟩
    rw [groupsFrom_nil, List.forall_mem_singleton, hp]
    exact h.fits
  | @left s rest n l x hl _ ih =>
    obtain ⟨rfl, hfit, hsized⟩ := h.leftChild hl
    obtain ⟨starts, hlen, hstarts, hnum, hfits, hcost⟩ := ih hsized (c := c ++ [s])
      (by rw [List.sum_append, hp]; rfl)
    refine ⟨false :: starts, congrArg Nat.succ hlen, ?_, ?_, hfits, hcost⟩
    · rw [hstarts, List.reverse_cons, List.append_assoc]
      rfl
    · rw [hnum, List.count_cons_of_ne (by decide)]
      rfl
  | @right s rest n r x hr _ ih =>
    obtain ⟨heq, hsized⟩ := h.rightChild hr
    have hthis : r.thisSize = s := by rw [heq]; rfl
    obtain ⟨starts, hlen, hstarts, hnum, hfits, hcost⟩ := ih hsized (c := [s])
      (by rw [hthis]; rfl)
    refine ⟨true :: starts, congrArg Nat.succ hlen, ?_, ?_, ?_, ?_⟩
    · rw [hstarts, heq, List.reverse_cons, List.append_assoc]
      rfl
    · rw [hnum, heq, List.count_cons_self]
      simp only [Node.right]
      omega
    · rw [groupsFrom_true, List.forall_mem_cons, hp]
      exact ⟨h.fits, hfits⟩
    · rw [hcost, groupsFrom_true, h.costWith_right hr hp]

/-! ## No grouping is cheaper than every leaf -/

theorem largest_mono {m m' : Int} (h : m ≤ m') (g : List (List Nat)) :
    largest m g ≤ largest m' g := by
  induction g generalizing m m' with
  | nil => exact h
  | cons p g ih => exact ih (max_le_max_right _ h)

theorem smallest_mono {m m' : Int} (h : m ≤ m') (g : List (List Nat)) :
    smallest m g ≤ smallest m' g := by
  induction g generalizing m m' with
  | nil => exact h
  | cons p g ih => exact ih (min_le_min_right _ h)

/-- Two packets cost at least as much as one when the first is empty. -/
theorem costWith_drop (n : Node) (penalty : Nat) (p : List Nat) (g : List (List Nat)) :
    n.costWith penalty g ≤ n.costWith penalty (p :: g) := by
  have hmax := largest_mono (le_max_left n.maxParentSize p.sum) g
  have hmin := smallest_mono (min_le_left n.minParentSize p.sum) g
  have hnum : (n.numPackets : Int) + ((p :: g).length : Int) - 1 =
      n.numPackets + (g.length : Int) - 1 + 1 := by
    rw [List.length_cons]
    omega
  rw [costWith, costWith, largest_cons, smallest_cons, hnum, Int.add_mul _ 1, Int.one_mul]
  omega

theorem grouping_leaf (starts : List Bool) (h : Sized maxSize sizes n)
    (hlen : starts.length = sizes.length) {c : List Nat} (hp : c.sum = n.thisSize)
    (hfit : ∀ p ∈ groupsFrom c sizes starts, p.sum ≤ maxSize) :
    ∃ x, Leaf (Node.leftChild maxSize) Node.rightChild sizes n x ∧
      x.bound penalty ≤ n.costWith penalty (groupsFrom c sizes starts) := by
  induction sizes generalizing n c starts with
  | nil =>
    rw [groupsFrom_nil]
    exact ⟨n, .here n, le_of_eq (costWith_nil h.behind hp).symm⟩
  | cons s rest ih =>
    cases starts with
    | nil => cases hlen
    | cons b starts =>
      have hlen' : starts.length = rest.length := Nat.succ.inj hlen
      cases b with
      | false =>
        -- the packet goes on, which is the left child
        have hsum : (c ++ [s]).sum = (n.left s rest).thisSize := by
          rw [List.sum_append, hp]
          rfl
        have hle : n.thisSize + s ≤ maxSize := by
          obtain ⟨more, g, heq⟩ := groupsFrom_cons rest starts (c ++ [s])
          have hfirst := hfit (c ++ [s] ++ more) (by
            rw [groupsFrom_false, heq]
            exact List.mem_cons_self ..)
          rw [List.sum_append, hsum] at hfirst
          exact Nat.le_trans (Nat.le_add_right ..) hfirst
        have hl : Node.leftChild maxSize s n = some (n.left s rest) := by
          rw [Node.leftChild, if_pos hle, h.behind]
          rfl
        obtain ⟨x, hx, hcost⟩ := ih starts (h.leftChild hl).2.2 hlen' hsum hfit
        exact ⟨x, .left hl hx, hcost⟩
      | true =>
        rw [groupsFrom_true, List.forall_mem_cons] at hfit
        rw [groupsFrom_true]
        by_cases hpos : 0 < n.thisSize
        · have hr : Node.rightChild s n = some (n.right s rest) := by
            rw [Node.rightChild, if_pos hpos, h.behind]
            rfl
          obtain ⟨x, hx, hcost⟩ := ih starts (h.rightChild hr).2 hlen' (c := [s])
            List.sum_singleton hfit.2
          rw [h.costWith_right hr hp] at hcost
          exact ⟨x, .right hr hx, hcost⟩
        · -- an empty packet: the tree joins it with the next one
          have hs := h.rest s (List.mem_cons_self ..)
          have hl : Node.leftChild maxSize s n = some (n.left s rest) := by
            rw [Node.leftChild, if_pos (by omega), h.behind]
            rfl
          have hsum : [s].sum = (n.left s rest).thisSize := by
            simp only [List.sum_singleton, left]
            omega
          obtain ⟨x, hx, hcost⟩ := ih starts (h.leftChild hl).2.2 hlen' hsum hfit.2
          exact ⟨x, .left hl hx, le_trans hcost (costWith_drop n penalty c _)⟩

/-! ## Costs as values of `int` -/

/-- A node whose leaves have costs that are values of `int`. -/
structure Costed (maxSize penalty : Nat) (sizes : List Nat) (n : Node) : Prop where
  sized : Sized maxSize sizes n
  leaves : ∀ x, Leaf (Node.leftChild maxSize) Node.rightChild sizes n x → x.bound penalty ≤ intMax

theorem Costed.cost_eq (h : Costed maxSize penalty sizes n) :
    n.cost penalty = n.bound penalty := by
  obtain ⟨hleaf, -⟩ := search_spec (bounded_bound maxSize penalty) sizes n h.sized
  have hle := hleaf.le (bounded_bound maxSize penalty) h.sized
  have hmax := h.leaves _ hleaf
  have hlow := le_bound penalty n
  have hlargest := h.sized.largest
  have hsmallest := h.sized.smallest.2
  have hpen : (0 : Int) ≤ n.numPackets * penalty :=
    Int.mul_nonneg (Int.natCast_nonneg _) (Int.natCast_nonneg _)
  rw [cost, h.sized.thisSizeInt]
  exact toInt_of_range (i := n.bound penalty) (by omega) (by omega)

/-- The code's cost bounds like the one in unbounded integers. -/
theorem bounded_cost (maxSize penalty : Nat) :
    Bounded (leftChild maxSize) rightChild (cost · penalty) (Costed maxSize penalty) where
  below_left := by
    intro s rest n l h hl
    obtain ⟨hsized, hle⟩ := (bounded_bound maxSize penalty).below_left h.sized hl
    have hc : Costed maxSize penalty rest l := ⟨hsized, fun x hx => h.leaves x (.left hl hx)⟩
    rw [h.cost_eq, hc.cost_eq]
    exact ⟨hc, hle⟩
  below_right := by
    intro s rest n r h hr
    obtain ⟨hsized, hle⟩ := (bounded_bound maxSize penalty).below_right h.sized hr
    have hc : Costed maxSize penalty rest r := ⟨hsized, fun x hx => h.leaves x (.right hr hx)⟩
    rw [h.cost_eq, hc.cost_eq]
    exact ⟨hc, hle⟩
  child := fun h hl => (bounded_bound maxSize penalty).child h.sized hl

end Node

/-! ## The optimal configuration -/

/-- Flags for the partitions after the first one give a grouping when the packets fit. -/
theorem grouping_groupsFrom {s maxSize : Nat} {rest : List Nat} {starts : List Bool}
    (h : starts.length = rest.length) (hfit : ∀ p ∈ groupsFrom [s] rest starts, p.sum ≤ maxSize) :
    Grouping (s :: rest) maxSize (groupsFrom [s] rest starts) where
  order := groupsFrom_flatten rest starts [s] h
  nonempty := groupsFrom_nonempty rest starts (List.cons_ne_nil s [])
  fits := hfit

theorem Grouping.flags {s maxSize : Nat} {rest : List Nat} {g : List (List Nat)}
    (h : Grouping (s :: rest) maxSize g) :
    ∃ starts, starts.length = rest.length ∧ groupsFrom [s] rest starts = g := by
  have horder := h.order
  have hne := h.nonempty
  match g with
  | [] => cases horder
  | [] :: g => exact absurd (List.mem_cons_self ..) hne
  | (t :: more) :: g =>
    rw [List.flatten_cons] at horder
    obtain ⟨heq, htail⟩ := List.cons.inj horder
    obtain ⟨starts, hlen, hg⟩ :=
      exists_groupsFrom rest [s] more g (fun hm => hne (List.mem_cons_of_mem _ hm)) htail
    exact ⟨starts, hlen, by rw [hg, heq]; rfl⟩

/-- `SetPriorMinMax` asserts that the sizes are in order. -/
def PriorOk (prior : Option (Int × Int)) : Prop :=
  ∀ mn mx, prior = some (mn, mx) → 0 ≤ mn ∧ mn ≤ mx ∧ mx ≤ intMax

theorem costWith_root {s : Nat} {rest : List Nat} {prior : Option (Int × Int)} {penalty : Nat}
    (hprior : PriorOk prior) {p : List Nat} (g : List (List Nat)) (hp : (p.sum : Int) ≤ intMax) :
    (rootNode s rest prior).costWith penalty (p :: g) = groupingCost prior penalty (p :: g) := by
  have hnum : ((1 : Nat) : Int) + ((p :: g).length : Int) - 1 = (p :: g).length := by omega
  have hmax : Node.largest (rootNode s rest prior).maxParentSize (p :: g) =
      (countedSizes prior (p :: g)).max?.getD 0 := by
    cases prior with
    | none =>
      have h0 : max (0 : Int) p.sum = p.sum := by omega
      rw [Node.largest_cons, rootNode]
      simp only [countedSizes_none, h0, List.map_cons, List.max?_cons', Option.getD_some]
      rfl
    | some m =>
      obtain ⟨-, hle, -⟩ := hprior m.1 m.2 rfl
      simp only [countedSizes_some, List.max?_cons', List.foldl_cons, Option.getD_some,
        max_eq_right hle]
      rfl
  have hmin : Node.smallest (rootNode s rest prior).minParentSize (p :: g) =
      (countedSizes prior (p :: g)).min?.getD 0 := by
    cases prior with
    | none =>
      rw [Node.smallest_cons, rootNode]
      simp only [countedSizes_none, min_eq_right hp, List.map_cons, List.min?_cons',
        Option.getD_some]
      rfl
    | some m =>
      obtain ⟨-, hle, -⟩ := hprior m.1 m.2 rfl
      simp only [countedSizes_some, List.min?_cons', List.foldl_cons, Option.getD_some,
        min_eq_left hle]
      rfl
  rw [Node.costWith, groupingCost, hmax, hmin]
  exact congrArg (_ + · * (penalty : Int)) hnum

/-- As long as packet sizes and the costs of groupings are values of `int`, the configuration
numbers the packets of a cheapest grouping. -/
theorem optimal_configuration {sizes : List Nat} {prior : Option (Int × Int)}
    {maxSize penalty : Nat} (hs : ∀ s ∈ sizes, s ≤ maxSize) (hprior : PriorOk prior)
    (hint : ∀ g, Grouping sizes maxSize g →
      (∀ p ∈ g, (p.sum : Int) ≤ intMax) ∧ groupingCost prior penalty g ≤ intMax) :
    ∃ g, Grouping sizes maxSize g ∧
      findOptimalConfiguration sizes prior maxSize penalty = numbering 0 g ∧
      ∀ g', Grouping sizes maxSize g' →
        groupingCost prior penalty g ≤ groupingCost prior penalty g' := by
  cases sizes with
  | nil =>
    refine ⟨[], ⟨rfl, List.not_mem_nil, fun p hp => absurd hp List.not_mem_nil⟩, rfl, ?_⟩
    intro g' hg'
    match g', hg' with
    | [], _ => exact le_refl _
    | [] :: g', hg' => exact absurd (List.mem_cons_self ..) hg'.nonempty
    | (t :: p) :: g', hg' => cases hg'.order
  | cons s rest =>
    let root := rootNode s rest prior
    have hsized : root.Sized maxSize rest := by
      refine ⟨rfl, fun t ht => hs t (List.mem_cons_of_mem _ ht), hs s (List.mem_cons_self ..),
        fun starts hlen hfit => (hint _ (grouping_groupsFrom hlen hfit)).1, ?_, ?_⟩
      · cases prior with
        | none => exact le_refl _
        | some m =>
          obtain ⟨h0, hle, -⟩ := hprior m.1 m.2 rfl
          exact le_trans h0 hle
      · cases prior with
        | none => exact ⟨(by decide : (0 : Int) ≤ intMax), le_refl intMax⟩
        | some m =>
          obtain ⟨h0, hle, hmax⟩ := hprior m.1 m.2 rfl
          exact ⟨h0, le_trans hle hmax⟩
    -- the costs of leaves are those of groupings
    have hroot : ∀ starts : List Bool, starts.length = rest.length →
        (∀ p ∈ groupsFrom [s] rest starts, p.sum ≤ maxSize) →
        root.costWith penalty (groupsFrom [s] rest starts) =
          groupingCost prior penalty (groupsFrom [s] rest starts) := by
      intro starts hlen hfit
      have hsmall := (hint _ (grouping_groupsFrom hlen hfit)).1
      obtain ⟨more, g, heq⟩ := groupsFrom_cons rest starts [s]
      rw [heq] at hsmall ⊢
      exact costWith_root hprior g (hsmall _ (List.mem_cons_self ..))
    have hcosted : root.Costed maxSize penalty rest := by
      refine ⟨hsized, fun x hx => ?_⟩
      obtain ⟨starts, hlen, -, -, hfit, hcost⟩ :=
        Node.leaf_grouping hsized hx (c := [s]) List.sum_singleton
      rw [hcost, hroot starts hlen hfit]
      exact (hint _ (grouping_groupsFrom hlen hfit)).2
    have hbounded := Node.bounded_cost maxSize penalty
    obtain ⟨hleaf, hbest⟩ := search_spec hbounded rest root hcosted
    generalize hopt : search (Node.leftChild maxSize) Node.rightChild (Node.cost · penalty) rest
      root = opt at hleaf hbest
    obtain ⟨starts, hlen, hstarts, hnum, hfit, hcost⟩ :=
      Node.leaf_grouping hsized hleaf (c := [s]) List.sum_singleton
    have hleafCost : ∀ x, Leaf (Node.leftChild maxSize) Node.rightChild rest root x →
        x.cost penalty = x.bound penalty := by
      intro x hx
      have hend : x.Costed maxSize penalty [] := by
        refine ⟨hsized.leaf hx, fun y hy => ?_⟩
        cases hy
        exact hcosted.leaves x hx
      exact hend.cost_eq
    refine ⟨groupsFrom [s] rest starts, grouping_groupsFrom hlen hfit, ?_, fun g' hg' => ?_⟩
    · have hsearch : (rootNode s rest prior).getOptimalNode maxSize penalty = opt := by
        rw [Node.getOptimalNode, ← hopt]
        exact Node.getOptimalNodeFrom_eq maxSize penalty rest root rfl
      have hflags := configFrom_flags starts 1 0 [true]
      rw [numbering_groupsFrom rest starts [s] 0 hlen, findOptimalConfiguration, hsearch, hstarts,
        hnum, List.length_cons, ← hlen]
      exact hflags
    · obtain ⟨starts', hlen', rfl⟩ := hg'.flags
      obtain ⟨x, hx, hle⟩ :=
        Node.grouping_leaf starts' hsized hlen' (c := [s]) List.sum_singleton hg'.fits
      have hfound := hbest x hx
      rw [hleafCost x hx, hleafCost opt hleaf, hcost, hroot starts hlen hfit] at hfound
      rw [hroot starts' hlen' hg'.fits] at hle
      exact le_trans hfound hle

/-- Two partitions that fit one packet, and costs that are small. -/
theorem optimal_configuration_two : ∃ g, Grouping [3, 4] 7 g ∧
    findOptimalConfiguration [3, 4] (some (3, 5)) 7 10 = numbering 0 g ∧
    ∀ g', Grouping [3, 4] 7 g' →
      groupingCost (some (3, 5)) 10 g ≤ groupingCost (some (3, 5)) 10 g' := by
  refine optimal_configuration (by decide) ?_ fun g hg => ?_
  · rintro mn mx h
    cases h
    decide
  · obtain ⟨starts, hlen, rfl⟩ := hg.flags
    match starts, hlen with
    | [true], _ => decide
    | [false], _ => decide

/-- With a penalty of 2^30, two packets have a negative cost. -/
theorem configuration_not_optimal : ¬ ∃ g, Grouping [1, 1] 2 g ∧
    findOptimalConfiguration [1, 1] none 2 (2 ^ 30) = numbering 0 g ∧
    ∀ g', Grouping [1, 1] 2 g' → groupingCost none (2 ^ 30) g ≤ groupingCost none (2 ^ 30) g' := by
  rintro ⟨g, hg, hconf, hbest⟩
  obtain ⟨starts, hlen, rfl⟩ := hg.flags
  match starts, hlen with
  | [true], _ => exact absurd (hbest [[1, 1]] ⟨rfl, by decide, by decide⟩) (by decide)
  | [false], _ => exact absurd hconf (by decide)

end RtcCore.L1.Vp8
