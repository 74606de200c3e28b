import RtcCore.Core.Bytes

/-!
# VP8 partition aggregation

`Vp8PartitionAggregator` searches a binary tree for the cheapest way to put
consecutive small partitions into packets. A node stands for the partitions
placed so far; its left child continues the current packet, its right child
starts a new one. Children are created when a node is visited, so the tree is
the recursion of `getOptimalNode`, and a node is a record of what its path
has accumulated.

Costs and the sizes that costs are made of are values of `int`.
-/
namespace RtcCore.L1.Vp8

/-- `std::numeric_limits<int>::max()`. -/
def intMax : Int := 2147483647

/-- The conversion to `int`. -/
def toInt (n : Int) : Int := (n + 2147483648) % 4294967296 - 2147483648

/-- `PartitionTreeNode`; `sizes` are the partitions after this node's,
`numPackets` is `NumPackets()` and `starts` the `packet_start_` flags from the
node up to the root.
mirrors webrtc/modules/rtp_rtcp/source/vp8_partition_aggregator.h:22-85 -/
structure Node where
  thisSize : Nat
  sizes : List Nat
  maxParentSize : Int
  minParentSize : Int
  numPackets : Nat
  starts : List Bool
  deriving DecidableEq, Repr

namespace Node

def thisSizeInt (n : Node) : Int := toInt n.thisSize

/-- The penalties are added as `size_t`.
mirrors webrtc/modules/rtp_rtcp/source/vp8_partition_aggregator.cc:54-65 -/
def cost (n : Node) (penalty : Nat) : Int :=
  toInt ((if n.sizes.isEmpty then
      max n.maxParentSize n.thisSizeInt - min n.minParentSize n.thisSizeInt
    else max n.maxParentSize n.thisSizeInt - n.minParentSize) + n.numPackets * penalty)

/-- The node that puts the next partition, of size `s`, into this packet. -/
def left (n : Node) (s : Nat) (rest : List Nat) : Node :=
  { n with thisSize := n.thisSize + s, sizes := rest, starts := false :: n.starts }

/-- The node that starts a new packet with it. -/
def right (n : Node) (s : Nat) (rest : List Nat) : Node :=
  { thisSize := s
    sizes := rest
    maxParentSize := max n.maxParentSize n.thisSizeInt
    minParentSize := min n.minParentSize n.thisSizeInt
    numPackets := n.numPackets + 1
    starts := true :: n.starts }

/-- `CreateChildren` and `GetOptimalNode`; `sizes` is `n.sizes`.
mirrors webrtc/modules/rtp_rtcp/source/vp8_partition_aggregator.cc:67-148 -/
def getOptimalNodeFrom (maxSize penalty : Nat) : List Nat → Node → Node
  | [], n => n
  | s :: rest, n =>
    let hasLeft := decide (n.thisSize + s ≤ maxSize)
    let hasRight := decide (0 < n.thisSize)
    match hasLeft, hasRight with
    | false, false => n
    | false, true => getOptimalNodeFrom maxSize penalty rest (n.right s rest)
    | true, false => getOptimalNodeFrom maxSize penalty rest (n.left s rest)
    | true, true =>
      let l := n.left s rest
      let r := n.right s rest
      let first₀ := if l.cost penalty ≤ r.cost penalty then l else r
      let second₀ := if l.cost penalty ≤ r.cost penalty then r else l
      let first := getOptimalNodeFrom maxSize penalty rest first₀
      if second₀.cost penalty ≤ first.cost penalty then
        let second := getOptimalNodeFrom maxSize penalty rest second₀
        if second.cost penalty < first.cost penalty then second else first
      else first

def getOptimalNode (n : Node) (maxSize penalty : Nat) : Node :=
  getOptimalNodeFrom maxSize penalty n.sizes n

end Node

/-- `CreateRootNode` with `SetPriorMinMax` when both sizes are known.
mirrors webrtc/modules/rtp_rtcp/source/vp8_partition_aggregator.cc:38-47, 176-182 -/
def rootNode (s : Nat) (rest : List Nat) (prior : Option (Int × Int)) : Node :=
  { thisSize := s
    sizes := rest
    maxParentSize := match prior with
      | none => 0
      | some (_, max) => max
    minParentSize := match prior with
      | none => intMax
      | some (min, _) => min
    numPackets := 1
    starts := [true] }

/-- The loop that numbers the partitions, from the last one up; `idx` is
`packet_index`.
mirrors webrtc/modules/rtp_rtcp/source/vp8_partition_aggregator.cc:190-199 -/
def configFrom : Nat → Nat → List Bool → List Nat
  | 0, _, _ => []
  | n + 1, idx, starts =>
    configFrom n (if starts.head?.getD false then idx - 1 else idx) starts.tail ++ [idx - 1]

/-- mirrors webrtc/modules/rtp_rtcp/source/vp8_partition_aggregator.cc:184-201 -/
def findOptimalConfiguration (sizes : List Nat) (prior : Option (Int × Int))
    (maxSize penalty : Nat) : List Nat :=
  match sizes with
  | [] => []
  | s :: rest =>
    let opt := (rootNode s rest prior).getOptimalNode maxSize penalty
    configFrom sizes.length opt.numPackets opt.starts

/-- The sizes of the packets of a configuration: runs of equal numbers. -/
def packetSizes : List (Nat × Nat) → List Nat
  | [] => []
  | [(_, s)] => [s]
  | (c, s) :: (c', s') :: rest =>
    if c = c' then
      match packetSizes ((c', s') :: rest) with
      | [] => [s]
      | t :: ts => (s + t) :: ts
    else s :: packetSizes ((c', s') :: rest)

/-- mirrors webrtc/modules/rtp_rtcp/source/vp8_partition_aggregator.cc:203-228 -/
def calcMinMax (config sizes : List Nat) (minSize maxSize : Int) : Int × Int :=
  let start := (if minSize < 0 then intMax else minSize, if maxSize < 0 then 0 else maxSize)
  (packetSizes (config.zip sizes)).foldl
    (fun (m : Int × Int) (size : Nat) => (min m.1 (size : Int), max m.2 (size : Int))) start

/-- The fragment size when `size` octets are cut in `n`. -/
def fragmentSize (size n : Nat) : Nat := (size + n - 1) / n

/-- The cost of `n` fragments. -/
def fragmentsCost (size penalty : Nat) (minSize maxSize : Nat) (n : Nat) : Nat :=
  if fragmentSize size n < minSize then minSize - fragmentSize size n + n * penalty
  else if maxSize < fragmentSize size n then fragmentSize size n - maxSize + n * penalty
  else n * penalty

/-- The `for` loop: the candidates in order, the best one so far with its
cost. -/
def bestFragments (size maxPayload penalty minSize maxSize : Nat) (ns : List Nat) :
    Option (Nat × Nat) :=
  ns.foldl (fun best n =>
    let cost := fragmentsCost size penalty minSize maxSize n
    if fragmentSize size n ≤ maxPayload then
      match best with
      | none => some (n, cost)
      | some (_, c) => if cost < c then some (n, cost) else best
    else best) none

/-- mirrors webrtc/modules/rtp_rtcp/source/vp8_partition_aggregator.cc:230-270;
0 stands for the failed assert `num_fragments > 0`. -/
def calcNumberOfFragments (size maxPayload penalty : Nat) (minSize maxSize : Int) : Nat :=
  let minNumber := (size + maxPayload - 1) / maxPayload
  if minSize < 0 ∨ maxSize < 0 then minNumber
  else
    let maxNumber := (size + minSize.toNat - 1) / minSize.toNat
    match bestFragments size maxPayload penalty minSize.toNat maxSize.toNat
        ((List.range (maxNumber + 1 - minNumber)).map (minNumber + ·)) with
    | none => 0
    | some (n, _) => n

/-! ## The path of the optimal node -/

/-- The sizes of the packets on a path, the last packet first; `placed` and
`starts` list the partitions from the last one up. -/
def pathPackets : List Nat → List Bool → List Nat
  | s :: placed, true :: starts => s :: pathPackets placed starts
  | s :: placed, false :: starts =>
    match pathPackets placed starts with
    | [] => [s]
    | t :: ts => (t + s) :: ts
  | _, _ => []

/-- A node reached by placing `placed` (the last one first): the partitions
since the last packet start make up `thisSize`, and every packet fits. -/
structure PathOk (maxSize : Nat) (placed : List Nat) (n : Node) : Prop where
  length : n.starts.length = placed.length
  root : n.starts.getLast? = some true
  count : n.numPackets = n.starts.count true
  packets : ∃ earlier, pathPackets placed n.starts = n.thisSize :: earlier ∧
    ∀ t ∈ earlier, t ≤ maxSize
  fits : n.thisSize ≤ maxSize
  pos : 0 < n.thisSize

theorem PathOk.left {maxSize : Nat} {placed : List Nat} {n : Node} (h : PathOk maxSize placed n)
    {s : Nat} (rest : List Nat) (hs : n.thisSize + s ≤ maxSize) :
    PathOk maxSize (s :: placed) (n.left s rest) where
  length := by simp only [Node.left, List.length_cons, h.length]
  root := by
    obtain ⟨init, hi⟩ := List.getLast?_eq_some_iff.1 h.root
    simp only [Node.left, hi]
    exact List.getLast?_eq_some_iff.2 ⟨false :: init, rfl⟩
  count := by simp only [Node.left, h.count]; rfl
  packets := by
    obtain ⟨earlier, he, hle⟩ := h.packets
    refine ⟨earlier, ?_, hle⟩
    simp only [Node.left, pathPackets, he]
  fits := hs
  pos := by have := h.pos; simp only [Node.left]; omega

theorem PathOk.right {maxSize : Nat} {placed : List Nat} {n : Node} (h : PathOk maxSize placed n)
    {s : Nat} (rest : List Nat) (hpos : 0 < s) (hs : s ≤ maxSize) :
    PathOk maxSize (s :: placed) (n.right s rest) where
  length := by simp only [Node.right, List.length_cons, h.length]
  root := by
    obtain ⟨init, hi⟩ := List.getLast?_eq_some_iff.1 h.root
    simp only [Node.right, hi]
    exact List.getLast?_eq_some_iff.2 ⟨true :: init, rfl⟩
  count := by simp only [Node.right, h.count, List.count_cons_self]
  packets := by
    obtain ⟨earlier, he, hle⟩ := h.packets
    refine ⟨n.thisSize :: earlier, by simp only [Node.right, pathPackets, he], fun t ht => ?_⟩
    rcases List.mem_cons.1 ht with rfl | ht
    · exact h.fits
    · exact hle t ht
  fits := hs
  pos := hpos

/-- The search places every partition. -/
theorem getOptimalNodeFrom_path (maxSize penalty : Nat) : ∀ (sizes : List Nat) (placed : List Nat)
    (n : Node), (∀ s ∈ sizes, 0 < s ∧ s ≤ maxSize) → PathOk maxSize placed n →
    PathOk maxSize (sizes.reverse ++ placed) (Node.getOptimalNodeFrom maxSize penalty sizes n) := by
  intro sizes
  induction sizes with
  | nil => intro placed n _ h; exact h
  | cons s rest ih =>
    intro placed n hs h
    have hs0 := hs s (List.mem_cons_self ..)
    have hrest := fun t ht => hs t (List.mem_cons_of_mem s ht)
    have hr := ih (s :: placed) _ hrest (h.right rest hs0.1 hs0.2)
    have hl := fun hle => ih (s :: placed) _ hrest (h.left (s := s) rest hle)
    have hassoc : (s :: rest).reverse ++ placed = rest.reverse ++ s :: placed := by
      rw [List.reverse_cons, List.append_assoc]; rfl
    rw [hassoc]
    unfold Node.getOptimalNodeFrom
    have hpos : decide (0 < n.thisSize) = true := decide_eq_true h.pos
    dsimp only
    rw [hpos]
    by_cases hle : n.thisSize + s ≤ maxSize
    · rw [decide_eq_true hle]
      dsimp only
      have hl' := hl hle
      by_cases hc : (n.left s rest).cost penalty ≤ (n.right s rest).cost penalty
      · simp only [if_pos hc]
        split
        · split
          · exact hr
          · exact hl'
        · exact hl'
      · simp only [if_neg hc]
        split
        · split
          · exact hl'
          · exact hr
        · exact hr
    · rw [decide_eq_false hle]
      exact hr

theorem rootNode_path {maxSize s : Nat} (rest : List Nat) (prior : Option (Int × Int))
    (hpos : 0 < s) (hs : s ≤ maxSize) : PathOk maxSize [s] (rootNode s rest prior) where
  length := rfl
  root := rfl
  count := rfl
  packets := ⟨[], rfl, fun _ h => absurd h List.not_mem_nil⟩
  fits := hs
  pos := hpos

/-! ## The packets of a configuration -/

theorem configFrom_le : ∀ (n idx : Nat) (starts : List Bool), ∀ c ∈ configFrom n idx starts,
    c ≤ idx - 1 := by
  intro n
  induction n with
  | zero => intro idx starts c hc; exact absurd hc List.not_mem_nil
  | succ n ih =>
    intro idx starts c hc
    rcases List.mem_append.1 hc with hc | hc
    · have := ih _ _ c hc
      split at this <;> omega
    · exact Nat.le_of_eq (by rw [List.mem_singleton.1 hc])

theorem configFrom_length (n idx : Nat) (starts : List Bool) :
    (configFrom n idx starts).length = n := by
  induction n generalizing idx starts with
  | zero => rfl
  | succ n ih => simp only [configFrom, List.length_append, ih, List.length_singleton]

theorem findOptimalConfiguration_length (sizes : List Nat) (prior : Option (Int × Int))
    (maxSize penalty : Nat) :
    (findOptimalConfiguration sizes prior maxSize penalty).length = sizes.length := by
  cases sizes with
  | nil => rfl
  | cons s rest => exact configFrom_length _ _ _

theorem packetSizes_ne_nil : ∀ (xs : List (Nat × Nat)), xs ≠ [] → packetSizes xs ≠ []
  | [], h => absurd rfl h
  | [(_, _)], _ => by simp [packetSizes]
  | (c, s) :: (c', s') :: rest, _ => by
    unfold packetSizes
    split
    · split <;> simp
    · simp

/-- A partition with a number of its own at the end is a packet of its own. -/
theorem packetSizes_concat_new {c s : Nat} : ∀ xs : List (Nat × Nat), (∀ x ∈ xs, x.1 ≠ c) →
    packetSizes (xs ++ [(c, s)]) = packetSizes xs ++ [s]
  | [], _ => rfl
  | [(d, t)], h => by
    have hd : d ≠ c := h (d, t) (List.mem_cons_self ..)
    simp only [List.cons_append, List.nil_append, packetSizes, if_neg hd]
  | (d, t) :: (d', t') :: xs, h => by
    have ih := packetSizes_concat_new (s := s) ((d', t') :: xs) fun x hx =>
      h x (List.mem_cons_of_mem _ hx)
    have hne := packetSizes_ne_nil ((d', t') :: xs) (by simp)
    simp only [List.cons_append] at ih ⊢
    rw [packetSizes, packetSizes, ih]
    split
    · match hp : packetSizes ((d', t') :: xs) with
      | [] => exact absurd hp hne
      | u :: us => rfl
    · rfl

/-- One with the number of the last packet joins it. -/
theorem packetSizes_concat_same {c s : Nat} : ∀ (xs : List (Nat × Nat)) (init : List Nat) (u : Nat),
    (xs.getLast?.map Prod.fst) = some c → packetSizes xs = init ++ [u] →
    packetSizes (xs ++ [(c, s)]) = init ++ [u + s]
  | [], _, _, h, _ => by simp at h
  | [(d, t)], init, u, h, hp => by
    have hd : d = c := by simpa using h
    cases init with
    | nil =>
      have ht : t = u := by simpa [packetSizes] using hp
      simp only [List.cons_append, List.nil_append, packetSizes, if_pos hd, ht]
    | cons v init => simp [packetSizes] at hp
  | (d, t) :: (d', t') :: xs, init, u, h, hp => by
    have hne := packetSizes_ne_nil ((d', t') :: xs) (by simp)
    obtain ⟨init', u', hp'⟩ : ∃ init' u', packetSizes ((d', t') :: xs) = init' ++ [u'] :=
      ⟨_, _, (List.dropLast_concat_getLast hne).symm⟩
    have ih := packetSizes_concat_same (s := s) ((d', t') :: xs) init' u' (by simpa using h) hp'
    simp only [List.cons_append] at ih ⊢
    rw [packetSizes, hp'] at hp
    rw [packetSizes, ih]
    split
    · rename_i hd
      rw [if_pos hd] at hp
      cases init' with
      | nil =>
        simp only [List.nil_append] at hp ⊢
        cases init with
        | nil =>
          have hu : t + u' = u := by simpa using hp
          rw [List.nil_append, ← hu, Nat.add_assoc]
        | cons v init => simp at hp
      | cons v init' =>
        simp only [List.cons_append] at hp ⊢
        cases init with
        | nil => simp at hp
        | cons w init =>
          simp only [List.cons_append, List.cons.injEq] at hp
          obtain ⟨h1, h2⟩ := hp
          obtain ⟨rfl, h3⟩ := List.append_inj' h2 rfl
          rw [h1, List.singleton_inj.1 h3]
          rfl
    · rename_i hd
      rw [if_neg hd] at hp
      cases init with
      | nil => simp at hp
      | cons w init =>
        simp only [List.cons_append, List.cons.injEq] at hp
        obtain ⟨h1, h2⟩ := hp
        obtain ⟨rfl, h3⟩ := List.append_inj' h2 rfl
        rw [h1, List.singleton_inj.1 h3]
        rfl

theorem packetSizes_pos : ∀ xs : List (Nat × Nat), (∀ x ∈ xs, 0 < x.2) → ∀ t ∈ packetSizes xs, 0 < t
  | [], _, t, ht => absurd ht List.not_mem_nil
  | [(c, s)], h, t, ht => by
    rw [List.mem_singleton.1 ht]; exact h (c, s) (List.mem_cons_self ..)
  | (c, s) :: (c', s') :: rest, h, t, ht => by
    have ih := packetSizes_pos ((c', s') :: rest) fun x hx => h x (List.mem_cons_of_mem _ hx)
    have hs : 0 < s := h (c, s) (List.mem_cons_self ..)
    rw [packetSizes] at ht
    split at ht
    · split at ht
      · rw [List.mem_singleton.1 ht]; exact hs
      · rename_i u us hu
        rw [hu] at ih
        rcases List.mem_cons.1 ht with rfl | ht
        · omega
        · exact ih t (List.mem_cons_of_mem _ ht)
    · rcases List.mem_cons.1 ht with rfl | ht
      · exact hs
      · exact ih t ht

/-- The configuration names the packets of the path. -/
theorem packetSizes_configFrom : ∀ (starts : List Bool) (placed : List Nat) (idx : Nat),
    starts.length = placed.length → (starts ≠ [] → starts.getLast? = some true) →
    idx = starts.count true →
    packetSizes ((configFrom starts.length idx starts).zip placed.reverse) =
      (pathPackets placed starts).reverse := by
  intro starts
  induction starts with
  | nil =>
    intro placed idx hlen _ _
    rw [List.eq_nil_of_length_eq_zero hlen.symm]
    rfl
  | cons b starts ih =>
    intro placed idx hlen hroot hidx
    match placed, hlen with
    | s :: placed, hlen =>
      have hlen' : starts.length = placed.length := by simpa using hlen
      have hroot' : starts ≠ [] → starts.getLast? = some true := by
        intro hne
        have := hroot (by simp)
        rwa [List.getLast?_cons_of_ne_nil hne] at this
      have hzip : ∀ idx', (configFrom starts.length idx' starts ++ [idx - 1]).zip
            (placed.reverse ++ [s]) =
          (configFrom starts.length idx' starts).zip placed.reverse ++ [(idx - 1, s)] := by
        intro idx'
        rw [List.zip_append (by rw [configFrom_length, List.length_reverse, hlen'])]
        rfl
      rw [List.reverse_cons, List.length_cons]
      cases b with
      | true =>
        have hstep : configFrom (starts.length + 1) idx (true :: starts) =
          configFrom starts.length (idx - 1) starts ++ [idx - 1] := rfl
        rw [List.count_cons_self] at hidx
        rw [hstep, hzip, packetSizes_concat_new, ih placed (idx - 1) hlen' hroot' (by omega)]
        · simp only [pathPackets, List.reverse_cons]
        · -- earlier partitions carry smaller numbers
          rintro ⟨c, t⟩ hx hc
          have hcm := (List.of_mem_zip hx).1
          have hle := configFrom_le _ _ _ c hcm
          have hne : starts ≠ [] := by
            intro h0
            rw [h0] at hcm
            exact absurd hcm List.not_mem_nil
          have htrue := List.count_pos_iff.2 (List.mem_of_getLast? (hroot' hne))
          simp only at hc
          omega
      | false =>
        have hstep : configFrom (starts.length + 1) idx (false :: starts) =
          configFrom starts.length idx starts ++ [idx - 1] := rfl
        rw [List.count_cons_of_ne (by simp)] at hidx
        rw [hstep, hzip]
        match starts, placed, hlen', hroot', hroot, ih, hidx with
        | [], _, _, _, hroot, _, _ => simp at hroot
        | b' :: starts, s' :: placed, hlen', hroot', _, ih, hidx =>
          have hih := ih (s' :: placed) idx hlen' hroot' hidx
          have hlast : (((configFrom (b' :: starts).length idx (b' :: starts)).zip
              (s' :: placed).reverse).getLast?.map Prod.fst) = some (idx - 1) := by
            rw [List.length_cons, configFrom, List.reverse_cons, List.zip_append
              (by rw [configFrom_length, List.length_reverse]; simpa using hlen')]
            simp
          have hne : pathPackets (s' :: placed) (b' :: starts) ≠ [] := by
            intro h0
            rw [h0] at hih
            exact packetSizes_ne_nil _ (by intro h1; rw [h1] at hlast; simp at hlast) hih
          match hpp : pathPackets (s' :: placed) (b' :: starts) with
          | [] => exact absurd hpp hne
          | t :: ts =>
            rw [hpp, List.reverse_cons (a := t)] at hih
            rw [packetSizes_concat_same _ _ _ hlast hih, pathPackets, hpp]
            simp only [List.reverse_cons]

/-- Every packet of the chosen configuration fits. -/
theorem optimal_packets {sizes : List Nat} {maxSize : Nat} (prior : Option (Int × Int))
    (penalty : Nat) (hs : ∀ s ∈ sizes, 0 < s ∧ s ≤ maxSize) :
    ∀ t ∈ packetSizes ((findOptimalConfiguration sizes prior maxSize penalty).zip sizes),
      t ≤ maxSize := by
  match sizes with
  | [] => intro t ht; exact absurd ht List.not_mem_nil
  | s :: rest =>
    have hs0 := hs s (List.mem_cons_self ..)
    have hpath := getOptimalNodeFrom_path maxSize penalty rest [s] _
      (fun t ht => hs t (List.mem_cons_of_mem _ ht)) (rootNode_path rest prior hs0.1 hs0.2)
    rw [show rest.reverse ++ [s] = (s :: rest).reverse by rw [List.reverse_cons]] at hpath
    unfold findOptimalConfiguration
    dsimp only
    have hopt : (rootNode s rest prior).getOptimalNode maxSize penalty =
      Node.getOptimalNodeFrom maxSize penalty rest (rootNode s rest prior) := rfl
    rw [hopt]
    generalize Node.getOptimalNodeFrom maxSize penalty rest (rootNode s rest prior) = n at hpath
    generalize s :: rest = sizes at hpath
    have hconf := packetSizes_configFrom n.starts sizes.reverse n.numPackets hpath.length
      (fun _ => hpath.root) hpath.count
    have hlen : n.starts.length = sizes.length := by rw [hpath.length, List.length_reverse]
    rw [List.reverse_reverse, hlen] at hconf
    obtain ⟨earlier, he, hle⟩ := hpath.packets
    intro t ht
    rw [hconf, List.mem_reverse, he] at ht
    rcases List.mem_cons.1 ht with rfl | ht
    · exact hpath.fits
    · exact hle t ht

/-- The first packet: the partitions that share the first one's number. -/
theorem packetSizes_head (c s : Nat) : ∀ rest : List (Nat × Nat),
    (packetSizes ((c, s) :: rest)).head? =
      some (s + ((rest.takeWhile (·.1 == c)).map Prod.snd).sum)
  | [] => by simp [packetSizes]
  | (c', s') :: rest => by
    have ih := packetSizes_head c' s' rest
    rw [packetSizes]
    by_cases hc : c = c'
    · subst hc
      rw [if_pos rfl, List.takeWhile_cons_of_pos (by simp)]
      match hp : packetSizes ((c, s') :: rest) with
      | [] => exact absurd hp (packetSizes_ne_nil _ (by simp))
      | t :: ts =>
        rw [hp] at ih
        simp only [List.head?_cons, Option.some.injEq] at ih
        simp only [List.head?_cons, List.map_cons, List.sum_cons, ih]
    · rw [if_neg hc, List.takeWhile_cons_of_neg (by simpa using Ne.symm hc)]
      simp

/-- Without its first partition no packet is larger. -/
theorem packetSizes_tail {m : Nat} (x : Nat × Nat) : ∀ rest : List (Nat × Nat),
    (∀ t ∈ packetSizes (x :: rest), t ≤ m) → ∀ t ∈ packetSizes rest, t ≤ m
  | [], _, t, ht => absurd ht List.not_mem_nil
  | (c', s') :: rest, h, t, ht => by
    rw [packetSizes] at h
    split at h
    · match hp : packetSizes ((c', s') :: rest) with
      | [] => rw [hp] at ht; exact absurd ht List.not_mem_nil
      | u :: us =>
        rw [hp] at h ht
        rcases List.mem_cons.1 ht with rfl | ht
        · have := h _ (List.mem_cons_self ..)
          omega
        · exact h t (List.mem_cons_of_mem _ ht)
    · exact h t (List.mem_cons_of_mem _ ht)

/-! ## Aggregate sizes and the number of fragments -/

/-- A smallest aggregate size: unknown, or positive and within the room. -/
def MinOk (maxLen : Nat) (m : Int) : Prop := m < 0 ∨ 0 < m ∧ m ≤ maxLen

theorem foldl_min : ∀ (ts : List Nat) (m : Int × Int), 0 < m.1 → (∀ t ∈ ts, 0 < t) →
    0 < (ts.foldl (fun (m : Int × Int) (size : Nat) =>
        (min m.1 (size : Int), max m.2 (size : Int))) m).1 ∧
      (∀ t : Nat, t ∈ ts ∨ m.1 ≤ t → (ts.foldl (fun (m : Int × Int) (size : Nat) =>
        (min m.1 (size : Int), max m.2 (size : Int))) m).1 ≤ t) := by
  intro ts
  induction ts with
  | nil =>
    intro m hm _
    refine ⟨hm, ?_⟩
    rintro t (ht | ht)
    · exact absurd ht List.not_mem_nil
    · exact ht
  | cons x ts ih =>
    intro m hm hpos
    have hx := hpos x (List.mem_cons_self ..)
    obtain ⟨h1, h2⟩ := ih (min m.1 (x : Int), max m.2 (x : Int)) (by dsimp only; omega)
      fun t ht => hpos t (List.mem_cons_of_mem _ ht)
    refine ⟨h1, ?_⟩
    rintro t (ht | ht)
    · rcases List.mem_cons.1 ht with rfl | ht
      · exact h2 t (Or.inr (by dsimp only; omega))
      · exact h2 t (Or.inl ht)
    · exact h2 t (Or.inr (by dsimp only; omega))

theorem calcMinMax_ok {sizes : List Nat} {prior : Option (Int × Int)} {maxLen penalty : Nat}
    {mn mx : Int} (hne : sizes ≠ []) (hs : ∀ s ∈ sizes, 0 < s ∧ s ≤ maxLen) (hm : MinOk maxLen mn) :
    MinOk maxLen
      (calcMinMax (findOptimalConfiguration sizes prior maxLen penalty) sizes mn mx).1 := by
  have hle := optimal_packets prior penalty hs
  have hconf : (findOptimalConfiguration sizes prior maxLen penalty).zip sizes ≠ [] := by
    intro h0
    have hlen := congrArg List.length h0
    rw [List.length_zip, findOptimalConfiguration_length, Nat.min_self, List.length_nil] at hlen
    exact hne (List.eq_nil_of_length_eq_zero hlen)
  obtain ⟨t, ht⟩ := List.exists_mem_of_ne_nil _ (packetSizes_ne_nil _ hconf)
  have hpos := packetSizes_pos ((findOptimalConfiguration sizes prior maxLen penalty).zip sizes)
    fun x hx => (hs x.2 (List.of_mem_zip hx).2).1
  have hstart : 0 < (if mn < 0 then intMax else mn) := by
    rcases hm with h | h
    · rw [if_pos h]; decide
    · rw [if_neg (by omega)]; exact h.1
  obtain ⟨h1, h2⟩ := foldl_min _ (if mn < 0 then intMax else mn, if mx < 0 then 0 else mx) hstart hpos
  have hmin := h2 t (Or.inl ht)
  have hfit := hle t ht
  refine Or.inr ⟨h1, ?_⟩
  unfold calcMinMax
  dsimp only
  omega

/-- One round of the `for` loop. -/
def pickFragments (size maxPayload penalty minSize maxSize : Nat) (best : Option (Nat × Nat))
    (n : Nat) : Option (Nat × Nat) :=
  let cost := fragmentsCost size penalty minSize maxSize n
  if fragmentSize size n ≤ maxPayload then
    match best with
    | none => some (n, cost)
    | some (_, c) => if cost < c then some (n, cost) else best
  else best

/-- The best candidate among `seen`: one that fits, at the lowest cost. -/
structure BestOf (size maxPayload penalty mn mx : Nat) (seen : List Nat)
    (best : Option (Nat × Nat)) : Prop where
  none : best = none → ∀ n ∈ seen, ¬ fragmentSize size n ≤ maxPayload
  some : ∀ n c, best = some (n, c) → n ∈ seen ∧ fragmentSize size n ≤ maxPayload ∧
    c = fragmentsCost size penalty mn mx n ∧
    ∀ k ∈ seen, fragmentSize size k ≤ maxPayload → c ≤ fragmentsCost size penalty mn mx k

theorem BestOf.pick {size maxPayload penalty mn mx : Nat} {seen : List Nat}
    {best : Option (Nat × Nat)} (h : BestOf size maxPayload penalty mn mx seen best) (n : Nat) :
    BestOf size maxPayload penalty mn mx (seen ++ [n])
      (pickFragments size maxPayload penalty mn mx best n) := by
  unfold pickFragments
  dsimp only
  split
  · rename_i hfit
    split
    · rename_i hnone
      refine ⟨fun h0 => by simp at h0, fun k c hk => ?_⟩
      obtain ⟨rfl, rfl⟩ := Prod.mk.inj (Option.some.inj hk)
      refine ⟨by simp, hfit, rfl, fun j hj hjf => ?_⟩
      rcases List.mem_append.1 hj with hj | hj
      · exact absurd hjf (h.none rfl j hj)
      · exact Nat.le_of_eq (by rw [List.mem_singleton.1 hj])
    · rename_i n₀ c₀
      obtain ⟨hmem, hf₀, hc₀, hmin⟩ := h.some n₀ c₀ rfl
      split
      · rename_i hlt
        refine ⟨fun h0 => by simp at h0, fun k c hk => ?_⟩
        obtain ⟨rfl, rfl⟩ := Prod.mk.inj (Option.some.inj hk)
        refine ⟨by simp, hfit, rfl, fun j hj hjf => ?_⟩
        rcases List.mem_append.1 hj with hj | hj
        · have := hmin j hj hjf; omega
        · exact Nat.le_of_eq (by rw [List.mem_singleton.1 hj])
      · rename_i hge
        refine ⟨fun h0 => by simp at h0, fun k c hk => ?_⟩
        obtain ⟨rfl, rfl⟩ := Prod.mk.inj (Option.some.inj hk)
        refine ⟨List.mem_append_left _ hmem, hf₀, hc₀, fun j hj hjf => ?_⟩
        rcases List.mem_append.1 hj with hj | hj
        · exact hmin j hj hjf
        · rw [List.mem_singleton.1 hj]; omega
  · rename_i hno
    refine ⟨fun h0 j hj => ?_, fun k c hk => ?_⟩
    · rcases List.mem_append.1 hj with hj | hj
      · exact h.none h0 j hj
      · rw [List.mem_singleton.1 hj]; exact hno
    · obtain ⟨hmem, hf, hc, hmin⟩ := h.some k c hk
      refine ⟨List.mem_append_left _ hmem, hf, hc, fun j hj hjf => ?_⟩
      rcases List.mem_append.1 hj with hj | hj
      · exact hmin j hj hjf
      · rw [List.mem_singleton.1 hj] at hjf; exact absurd hjf hno

theorem BestOf.run {size maxPayload penalty mn mx : Nat} : ∀ (ns seen : List Nat)
    (best : Option (Nat × Nat)), BestOf size maxPayload penalty mn mx seen best →
    BestOf size maxPayload penalty mn mx (seen ++ ns)
      (ns.foldl (pickFragments size maxPayload penalty mn mx) best) := by
  intro ns
  induction ns with
  | nil => intro seen best h; rwa [List.append_nil]
  | cons n ns ih =>
    intro seen best h
    have := ih (seen ++ [n]) _ (h.pick n)
    rwa [List.append_assoc] at this

theorem bestFragments_best (size maxPayload penalty mn mx : Nat) (ns : List Nat) :
    BestOf size maxPayload penalty mn mx ns (bestFragments size maxPayload penalty mn mx ns) := by
  have h0 : BestOf size maxPayload penalty mn mx [] none :=
    ⟨fun _ n hn => absurd hn List.not_mem_nil, fun n c h => by simp at h⟩
  exact BestOf.run ns [] none h0

/-- Cutting into `⌈size / ⌈size/n⌉⌉` fragments gives fragments of the same
size. -/
theorem fragmentSize_fewer {size n k : Nat} (hs : 0 < size) (hn : 0 < n)
    (hk : size ≤ k * fragmentSize size n) (hkn : k ≤ n) (hkpos : 0 < k) :
    fragmentSize size k = fragmentSize size n := by
  have hpos : 0 < fragmentSize size n := Nat.div_pos (by omega) hn
  apply Nat.le_antisymm
  · unfold fragmentSize at hk ⊢
    generalize (size + n - 1) / n = f at hk hpos ⊢
    rw [Nat.div_le_iff_le_mul hkpos]
    have : f * k = k * f := Nat.mul_comm ..
    omega
  · unfold fragmentSize
    rw [Nat.le_div_iff_mul_le hkpos]
    have hle : (size + n - 1) / n * k ≤ size + k - 1 := by
      generalize hf : (size + n - 1) / n = f
      have h1 : f * n ≤ size + n - 1 := by rw [← hf]; exact Nat.div_mul_le_self ..
      obtain ⟨f', rfl⟩ : ∃ f', f = f' + 1 := ⟨f - 1, by
        have : 0 < f := by rw [← hf]; exact hpos
        omega⟩
      have h2 : f' * k ≤ f' * n := Nat.mul_le_mul_left _ hkn
      rw [Nat.add_mul, Nat.one_mul] at h1 ⊢
      omega
    exact hle

/-- The fewest fragments: they fit, and one fewer would not do. -/
theorem fewest_fragments {size maxPayload : Nat} (hs : 0 < size) (hp : 0 < maxPayload) :
    let n := (size + maxPayload - 1) / maxPayload
    0 < n ∧ fragmentSize size n ≤ maxPayload ∧ (n - 1) * maxPayload < size ∧
      ∀ k, size ≤ k * maxPayload → n ≤ k := by
  dsimp only
  have hmin : 0 < (size + maxPayload - 1) / maxPayload := Nat.div_pos (by omega) hp
  obtain ⟨N, hN⟩ : ∃ N, (size + maxPayload - 1) / maxPayload = N + 1 :=
    ⟨_, (Nat.sub_add_cancel hmin).symm⟩
  have hlow : (N + 1) * maxPayload ≤ size + maxPayload - 1 := by
    rw [← hN]; exact Nat.div_mul_le_self ..
  have hhigh : size + maxPayload - 1 < maxPayload * (N + 1 + 1) := by
    rw [← hN]; exact Nat.lt_mul_div_succ _ hp
  rw [hN]
  rw [Nat.add_mul, Nat.one_mul] at hlow
  rw [Nat.mul_add, Nat.mul_one] at hhigh
  refine ⟨by omega, ?_, by rw [Nat.add_sub_cancel]; omega, fun k hk => ?_⟩
  · rw [fragmentSize, Nat.div_le_iff_le_mul (by omega)]
    omega
  · rw [← hN, Nat.div_le_iff_le_mul hp]
    omega

theorem fragmentsCost_lt {size penalty mn mx n k : Nat} (hpen : 0 < penalty) (hkn : k < n)
    (hsame : fragmentSize size k = fragmentSize size n) :
    fragmentsCost size penalty mn mx k < fragmentsCost size penalty mn mx n := by
  have hmul : k * penalty < n * penalty := Nat.mul_lt_mul_of_pos_right hkn hpen
  unfold fragmentsCost
  rw [hsame]
  split
  · omega
  · split <;> omega

/-- A partition with octets is cut into fragments that fit, none of them
empty. -/
theorem calcNumberOfFragments_spec {size maxPayload penalty : Nat} {mn mx : Int} (hs : 0 < size)
    (hp : 0 < maxPayload) (hpen : 0 < penalty) (hm : MinOk maxPayload mn) :
    let n := calcNumberOfFragments size maxPayload penalty mn mx
    0 < n ∧ fragmentSize size n ≤ maxPayload ∧ (n - 1) * fragmentSize size n < size := by
  obtain ⟨hmin, hfit, hlow, hleast⟩ := fewest_fragments hs hp
  unfold calcNumberOfFragments
  dsimp only
  split
  · refine ⟨hmin, hfit, Nat.lt_of_le_of_lt (Nat.mul_le_mul_left _ hfit) hlow⟩
  · rename_i hneg
    have hmn : 0 < mn ∧ mn ≤ maxPayload := by
      rcases hm with h | h
      · exact absurd (Or.inl h) hneg
      · exact h
    generalize (size + maxPayload - 1) / maxPayload = N at hmin hfit hlow hleast
    obtain ⟨j, rfl⟩ : ∃ j : Nat, mn = j := ⟨mn.toNat, by omega⟩
    rw [Int.toNat_natCast]
    have hNM : N ≤ (size + j - 1) / j := by
      rw [Nat.le_div_iff_mul_le (by omega)]
      have hNj : (N - 1) * j ≤ (N - 1) * maxPayload := Nat.mul_le_mul_left _ (by omega)
      obtain ⟨N', rfl⟩ : ∃ N', N = N' + 1 := ⟨N - 1, by omega⟩
      rw [Nat.add_sub_cancel] at hlow hNj
      rw [Nat.add_mul, Nat.one_mul]
      omega
    generalize (size + j - 1) / j = M at hNM
    have hbest := bestFragments_best size maxPayload penalty j mx.toNat
      ((List.range (M + 1 - N)).map (N + ·))
    have hmem : ∀ k, k ∈ (List.range (M + 1 - N)).map (N + ·) ↔ N ≤ k ∧ k ≤ M := by
      intro k
      simp only [List.mem_map, List.mem_range]
      exact ⟨fun ⟨i, hi, he⟩ => by omega, fun h => ⟨k - N, by omega, by omega⟩⟩
    generalize bestFragments size maxPayload penalty j mx.toNat
      ((List.range (M + 1 - N)).map (N + ·)) = best at hbest
    split
    · exact absurd hfit (hbest.none rfl N ((hmem N).2 ⟨Nat.le_refl _, hNM⟩))
    · rename_i n c
      obtain ⟨hn, hnfit, hc, hleast_cost⟩ := hbest.some n c rfl
      have hnb := (hmem n).1 hn
      refine ⟨by omega, hnfit, Nat.lt_of_not_le fun hover => ?_⟩
      -- one fragment fewer has the same size and costs less
      have hn1 : 0 < n - 1 := by
        rcases Nat.eq_zero_or_pos (n - 1) with h0 | h0
        · rw [h0, Nat.zero_mul] at hover; omega
        · exact h0
      have hsame := fragmentSize_fewer hs (by omega) hover (by omega) hn1
      have hN1 : N ≤ n - 1 := hleast _ (Nat.le_trans hover (Nat.mul_le_mul_left _ hnfit))
      have h1 := hleast_cost (n - 1) ((hmem _).2 ⟨hN1, by omega⟩) (by rw [hsame]; exact hnfit)
      have h2 : fragmentsCost size penalty j mx.toNat (n - 1) <
          fragmentsCost size penalty j mx.toNat n :=
        fragmentsCost_lt hpen (Nat.sub_lt (by omega) Nat.one_pos) hsame
      omega

end RtcCore.L1.Vp8
