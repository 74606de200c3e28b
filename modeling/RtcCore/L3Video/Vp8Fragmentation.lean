import Mathlib.Data.List.TakeWhile
import RtcCore.Core.Slots
import RtcCore.L1Wire.Vp8Descriptor
import RtcCore.L3Video.MakeDecodable

/-!
# The partitions of a VP8 frame: `BuildVP8FragmentationHeader`

The header gives the decoder one range of the frame buffer for each partition:
from a packet flagged as the beginning of a partition up to the first loss.
The loop cuts the packet list into such runs (`Cuts`) and writes each run to
the slot of its partition id; a last pass places the empty slots.

A run goes on through another beginning packet of the same partition, without
a look at its number, and slots are written in the order of the packets. The
header is right when the sender numbers its partitions in increasing order and
flags the beginning of each one once, whatever packets are lost.

Results:
* `received_of_parse`: what the depacketizer accepts.
* `fragmentation_sound_iff`: the header is right exactly when the packets are
  `Orderly`.
* `gap_before_beginning`: a range over a lost packet.
-/
namespace RtcCore.L3.Session

open Bytes Slots

/-! ## Model -/

/-- mirrors webrtc/modules/video_coding/main/source/session_info.h:98 -/
def kMaxVP8Partitions : Nat := 9

/-- `codecSpecificHeader.codecHeader.VP8` -/
def vp8Header (q : Stored) : VP8Header :=
  match q.pkt.codecSpecificHeader.codec with
  | .vp8 h => h
  | _ => {}

def beginning (q : Stored) : Bool := (vp8Header q).beginningOfPartition

def partitionId (q : Stored) : Nat := (vp8Header q).partitionId

/-- The arrays are functions of the index.
mirrors webrtc/modules/interface/module_common_types.h:106-240 -/
structure FragmentationHeader where
  vectorSize : Nat
  offset : Nat → Nat
  length : Nat → Nat

/-- New arrays keep the old values, the rest is zero.
mirrors webrtc/modules/interface/module_common_types.h:180-229 -/
def FragmentationHeader.verifyAndAllocate (f : FragmentationHeader) (size : Nat) :
    FragmentationHeader :=
  if f.vectorSize < size then
    { vectorSize := size
      offset := fun i => if i < f.vectorSize then f.offset i else 0
      length := fun i => if i < f.vectorSize then f.length i else 0 }
  else f

/-- mirrors webrtc/modules/video_coding/main/source/session_info.cc:346-355 -/
def findNextPartitionBeginning (ps : List Stored) : List Stored := ps.dropWhile fun q => !beginning q

def inSequenceWith (prev q : Stored) : Bool := prev.pkt.seqNum + 1 == q.pkt.seqNum

/-- `prev_it` and the packets behind it; the first packet, in sequence with
itself and of its own partition, is `prev`.
mirrors webrtc/modules/video_coding/main/source/session_info.cc:357-378 -/
def findPartitionEnd (id : Nat) (prev : Stored) : List Stored → Stored × List Stored
  | [] => (prev, [])
  | q :: qs =>
    let packetLossFound := !beginning q && !inSequenceWith prev q
    if packetLossFound || (beginning q && partitionId q != id) then (prev, q :: qs)
    else findPartitionEnd id q qs

/-- The header and `new_length`.
mirrors webrtc/modules/video_coding/main/source/session_info.cc:310-328 -/
def partitionLoop : Nat → List Stored → FragmentationHeader → Nat → FragmentationHeader × Nat
  | 0, _, f, newLength => (f, newLength)
  | fuel + 1, ps, f, newLength =>
    match findNextPartitionBeginning ps with
    | [] => (f, newLength)
    | q :: qs =>
      let id := partitionId q
      let e := findPartitionEnd id q qs
      let length := e.1.dataPtr + e.1.sizeBytes - q.dataPtr
      partitionLoop fuel e.2
        { vectorSize := max f.vectorSize (id + 1)
          offset := Function.update f.offset id q.dataPtr
          length := Function.update f.length id length }
        (newLength + length)

/-- The pass over the empty fragments up to index `k`.
mirrors webrtc/modules/video_coding/main/source/session_info.cc:329-341 -/
def placeEmpty (length : Nat → Nat) : Nat → (Nat → Nat) → Nat → Nat
  | 0, offset => if length 0 = 0 then Function.update offset 0 0 else offset
  | k + 1, offset =>
    let offset := placeEmpty length k offset
    if length (k + 1) = 0 then Function.update offset (k + 1) (offset k + length k) else offset

/-- The header the loop starts with.
mirrors webrtc/modules/video_coding/main/source/session_info.cc:302-307 -/
def FragmentationHeader.clear (f : FragmentationHeader) : FragmentationHeader :=
  { f.verifyAndAllocate kMaxVP8Partitions with
    vectorSize := 0
    length := fun i =>
      if i < kMaxVP8Partitions then 0 else (f.verifyAndAllocate kMaxVP8Partitions).length i }

/-- mirrors webrtc/modules/video_coding/main/source/session_info.cc:298-344 -/
def buildVP8FragmentationHeader (ps : List Stored) (f : FragmentationHeader) :
    FragmentationHeader × Nat :=
  match ps with
  | [] => (f.clear, 0)
  | _ :: _ =>
    let r := partitionLoop ps.length ps f.clear 0
    ({ r.1 with offset := placeEmpty r.1.length (r.1.vectorSize - 1) r.1.offset }, r.2)

/-! ## What the header promises -/

/-- The packets from the beginning of partition `i` to the beginning of another one. -/
def partitionPackets (ps : List Stored) (i : Nat) : List Stored :=
  (ps.dropWhile fun q => !(beginning q && partitionId q == i)).takeWhile fun q =>
    !(beginning q && partitionId q != i)

def consecutiveFrom (prev : Stored) : List Stored → List Stored
  | [] => []
  | q :: qs => if inSequenceWith prev q then q :: consecutiveFrom q qs else []

/-- The packets before the first loss. -/
def consecutivePrefix : List Stored → List Stored
  | [] => []
  | q :: qs => q :: consecutiveFrom q qs

/-- The packets a decoder may be given for partition `i`. -/
def decodablePackets (ps : List Stored) (i : Nat) : List Stored :=
  consecutivePrefix (partitionPackets ps i)

/-- The header `r.1` and the length `r.2` for the packets `ps` in a frame
buffer of the given length. -/
structure Sound (ps : List Stored) (frameBufferLength : Nat) (r : FragmentationHeader × Nat) :
    Prop where
  increasing : ∀ i j, i < j → j < r.1.vectorSize → r.1.offset i + r.1.length i ≤ r.1.offset j
  inside : ∀ i < r.1.vectorSize, r.1.offset i + r.1.length i ≤ frameBufferLength
  total : r.2 = ∑ i ∈ Finset.range r.1.vectorSize, r.1.length i
  exact : ∀ i < r.1.vectorSize, r.1.length i = sizes (decodablePackets ps i) ∧
    ∀ q, (decodablePackets ps i).head? = some q → r.1.offset i = q.dataPtr
  covered : ∀ i, r.1.vectorSize ≤ i → decodablePackets ps i = []
  terminates : ∀ fuel f n, ps.length ≤ fuel →
    partitionLoop fuel ps f n = partitionLoop ps.length ps f n

/-- Whether the packets behind a beginning packet of partition `c` and the
further ones up to `prev` are in order, with nothing missing since that
beginning packet if `whole`. -/
def orderlyFrom (c : Nat) (whole : Bool) (prev : Stored) : List Stored → Bool
  | [] => true
  | q :: qs =>
    let whole := whole && inSequenceWith prev q
    if beginning q then
      (decide (c < partitionId q) || (c == partitionId q && whole)) &&
        orderlyFrom (partitionId q) true q qs
    else orderlyFrom c whole q qs

/-- Each beginning packet is of a later partition than the beginning packet
before it, or of the same one and no packet between the two is missing. -/
def orderly (ps : List Stored) : Bool :=
  match findNextPartitionBeginning ps with
  | [] => true
  | b :: rest => orderlyFrom (partitionId b) true b rest

/-- A VP8 packet as the depacketizer accepts it. -/
def Received (p : VCMPacket) : Prop :=
  ∃ h, p.codecSpecificHeader.codec = .vp8 h ∧ h.partitionId < kMaxVP8Partitions ∧ p.data ≠ []

/-! ## Runs -/

/-- `y` goes on with the run of partition `id` behind `x`. -/
def joins (id : Nat) (x y : Stored) : Bool :=
  if beginning y then partitionId y == id else inSequenceWith x y

/-- `segs` are the runs of `ps`, each with its first packet: `FindPartitionEnd`
from each beginning packet that `FindNextPartitionBeginning` finds. -/
inductive Cuts : List Stored → List (Stored × List Stored) → Prop
  | done {ps : List Stored} (h : ∀ q ∈ ps, beginning q = false) : Cuts ps []
  | cut {junk run rest : List Stored} {b : Stored} {segs : List (Stored × List Stored)}
    (hjunk : ∀ q ∈ junk, beginning q = false) (hb : beginning b = true)
    (hrun : (b :: run).IsChain fun x y => joins (partitionId b) x y = true)
    (hstop : ∀ y, rest.head? = some y → joins (partitionId b) (run.getLastD b) y = false)
    (hrest : Cuts rest segs) : Cuts (junk ++ b :: (run ++ rest)) ((b, run) :: segs)

theorem findPartitionEnd_cons (id : Nat) (prev q : Stored) (qs : List Stored) :
    findPartitionEnd id prev (q :: qs) =
      if joins id prev q then findPartitionEnd id q qs else (prev, q :: qs) := by
  rw [findPartitionEnd, joins]
  cases beginning q <;> cases inSequenceWith prev q <;> cases h : partitionId q == id <;>
    simp [bne, h]

theorem findPartitionEnd_spec (id : Nat) (prev : Stored) (qs : List Stored) :
    ∃ run, qs = run ++ (findPartitionEnd id prev qs).2 ∧
      (findPartitionEnd id prev qs).1 = run.getLastD prev ∧
      ((prev :: run).IsChain fun x y => joins id x y = true) ∧
      ∀ y, (findPartitionEnd id prev qs).2.head? = some y →
        joins id (run.getLastD prev) y = false := by
  induction qs generalizing prev with
  | nil => exact ⟨[], rfl, rfl, List.isChain_singleton prev, fun y hy => by cases hy⟩
  | cons q qs ih =>
    rw [findPartitionEnd_cons]
    split
    · rename_i hj
      obtain ⟨run, h1, h2, h3, h4⟩ := ih q
      refine ⟨q :: run, ?_, ?_, List.isChain_cons_cons.2 ⟨hj, h3⟩, ?_⟩
      · rw [List.cons_append, ← h1]
      · rw [h2, List.getLastD_cons]
      · rwa [List.getLastD_cons]
    · rename_i hj
      refine ⟨[], rfl, rfl, List.isChain_singleton prev, fun y hy => ?_⟩
      obtain rfl : q = y := Option.some.inj hy
      exact Bool.eq_false_iff.2 hj

/-- What the runs write to the slots. -/
def starts (segs : List (Stored × List Stored)) : List (Nat × Nat) :=
  segs.map fun s => (partitionId s.1, s.1.dataPtr)

def lengths (segs : List (Stored × List Stored)) : List (Nat × Nat) :=
  segs.map fun s => (partitionId s.1, sizes (s.1 :: s.2))

def writeRuns (f : FragmentationHeader) (segs : List (Stored × List Stored)) :
    FragmentationHeader :=
  { vectorSize := segs.foldl (fun v s => max v (partitionId s.1 + 1)) f.vectorSize
    offset := assign f.offset (starts segs)
    length := assign f.length (lengths segs) }

def totalLength (segs : List (Stored × List Stored)) : Nat := ((lengths segs).map Prod.snd).sum

theorem consecutive_last {q : Stored} {qs : List Stored} {off : Nat}
    (h : Consecutive off (q :: qs)) :
    (qs.getLastD q).dataPtr + (qs.getLastD q).sizeBytes = off + sizes (q :: qs) := by
  induction qs generalizing q off with
  | nil => simp [h.1, sizes]
  | cons r qs ih =>
    rw [List.getLastD_cons, ih h.2, sizes_cons q, Nat.add_assoc]

theorem split_beginning (ps : List Stored) : ∃ junk,
    ps = junk ++ findNextPartitionBeginning ps ∧ ∀ q ∈ junk, beginning q = false := by
  refine ⟨ps.takeWhile fun q => !beginning q, List.takeWhile_append_dropWhile.symm, fun q hq => ?_⟩
  simpa using List.all_eq_true.1 List.all_takeWhile q hq

theorem findNextPartitionBeginning_head {ps rest : List Stored} {b : Stored}
    (h : findNextPartitionBeginning ps = b :: rest) : beginning b = true := by
  have := List.head?_dropWhile_not (fun q => !beginning q) ps
  rw [findNextPartitionBeginning] at h
  rw [h] at this
  simpa using this

/-- The loop ends, and writes the runs. -/
theorem partitionLoop_spec (n : Nat) : ∀ {ps : List Stored} {off : Nat}, ps.length ≤ n →
    Consecutive off ps → ∃ segs, Cuts ps segs ∧ ∀ fuel f newLength, ps.length ≤ fuel →
      partitionLoop fuel ps f newLength = (writeRuns f segs, newLength + totalLength segs) := by
  induction n with
  | zero =>
    intro ps off hn hc
    obtain rfl := List.eq_nil_of_length_eq_zero (Nat.le_zero.1 hn)
    refine ⟨[], .done fun q hq => absurd hq List.not_mem_nil, fun fuel f m _ => ?_⟩
    cases fuel <;> rfl
  | succ n ih =>
    intro ps off hn hc
    obtain ⟨junk, he, hjunk⟩ := split_beginning ps
    cases hnext : findNextPartitionBeginning ps with
    | nil =>
      rw [hnext, List.append_nil] at he
      refine ⟨[], .done (he ▸ hjunk), fun fuel f m _ => ?_⟩
      cases fuel with
      | zero => rfl
      | succ fuel => rw [partitionLoop, hnext]; rfl
    | cons b rest =>
      rw [hnext] at he
      have hb := findNextPartitionBeginning_head hnext
      obtain ⟨run, hrest, hlast, hrun, hstop⟩ := findPartitionEnd_spec (partitionId b) b rest
      have hcb : Consecutive (off + sizes junk) (b :: rest) := (consecutive_append.1 (he ▸ hc)).2
      have hlayout : Consecutive (off + sizes junk) ((b :: run) ++
          (findPartitionEnd (partitionId b) b rest).2) := by
        rw [List.cons_append, ← hrest]
        exact hcb
      obtain ⟨hcrun, hctail⟩ := consecutive_append.1 hlayout
      have hlen := congrArg List.length he
      have hlen' := congrArg List.length hrest
      rw [List.length_append, List.length_cons] at hlen
      rw [List.length_append] at hlen'
      obtain ⟨segs, hcuts, hloop⟩ := ih (by omega) hctail
      refine ⟨(b, run) :: segs, ?_, fun fuel f m hf => ?_⟩
      · have := Cuts.cut hjunk hb hrun hstop hcuts
        rwa [← hrest, ← he] at this
      · obtain ⟨fuel, rfl⟩ := Nat.exists_eq_succ_of_ne_zero (n := fuel) (by omega)
        have hl : (findPartitionEnd (partitionId b) b rest).1.dataPtr +
            (findPartitionEnd (partitionId b) b rest).1.sizeBytes - b.dataPtr = sizes (b :: run) := by
          rw [hlast, consecutive_last hcrun, hcrun.1, Nat.add_sub_cancel_left]
        rw [partitionLoop, hnext]
        dsimp only
        rw [hl, hloop _ _ _ (by omega)]
        refine Prod.ext rfl ?_
        exact Nat.add_assoc ..

/-! ## The packets of a partition -/

/-- A run and the packets that may be decoded. -/
def Unbroken (s : Stored × List Stored) : Prop :=
  (s.1 :: s.2).IsChain fun x y => inSequenceWith x y = true

theorem beginning_of_run {id : Nat} {prev : Stored} {run : List Stored}
    (h : (prev :: run).IsChain fun x y => joins id x y = true) {q : Stored} (hq : q ∈ run)
    (hb : beginning q = true) : partitionId q = id := by
  induction run generalizing prev with
  | nil => exact absurd hq List.not_mem_nil
  | cons r run ih =>
    obtain ⟨hr, hrest⟩ := List.isChain_cons_cons.1 h
    rcases List.mem_cons.1 hq with rfl | hq
    · rw [joins, if_pos hb] at hr
      exact beq_iff_eq.1 hr
    · exact ih hrest hq

theorem consecutiveFrom_append {prev : Stored} {run tail : List Stored}
    (h : ∀ y, tail.head? = some y → inSequenceWith (run.getLastD prev) y = false) :
    consecutiveFrom prev (run ++ tail) = consecutiveFrom prev run := by
  induction run generalizing prev with
  | nil =>
    cases tail with
    | nil => rfl
    | cons y tail => exact if_neg (Bool.eq_false_iff.1 (h y rfl))
  | cons r run ih =>
    rw [List.getLastD_cons] at h
    rw [List.cons_append, consecutiveFrom, consecutiveFrom, ih h]

theorem partitionPackets_cut {junk run rest : List Stored} {b : Stored}
    (hjunk : ∀ q ∈ junk, beginning q = false)
    (hrun : (b :: run).IsChain fun x y => joins (partitionId b) x y = true)
    {i : Nat} (hi : i ≠ partitionId b) :
    partitionPackets (junk ++ b :: (run ++ rest)) i = partitionPackets rest i := by
  have hpass : ∀ q ∈ junk ++ b :: run, (!(beginning q && partitionId q == i)) = true := by
    intro q hq
    rcases List.mem_append.1 hq with hq | hq
    · simp [hjunk q hq]
    · rcases List.mem_cons.1 hq with rfl | hq
      · simp [hi.symm]
      · by_cases hb : beginning q = true
        · simp [beginning_of_run hrun hq hb, hi.symm]
        · simp [hb]
  have he : junk ++ b :: (run ++ rest) = (junk ++ b :: run) ++ rest := by simp
  rw [partitionPackets, he, List.dropWhile_append_of_pos hpass, partitionPackets]

theorem decodablePackets_cut {junk run rest : List Stored} {b : Stored}
    (hjunk : ∀ q ∈ junk, beginning q = false) (hb : beginning b = true)
    (hrun : (b :: run).IsChain fun x y => joins (partitionId b) x y = true)
    (hstop : ∀ y, rest.head? = some y → joins (partitionId b) (run.getLastD b) y = false) :
    decodablePackets (junk ++ b :: (run ++ rest)) (partitionId b) =
      consecutivePrefix (b :: run) := by
  have hown : ∀ q ∈ b :: run, (!(beginning q && partitionId q != partitionId b)) = true := by
    intro q hq
    rcases List.mem_cons.1 hq with rfl | hq
    · simp
    · by_cases hq' : beginning q = true
      · simp [beginning_of_run hrun hq hq']
      · simp [hq']
  have hdrop : (junk ++ b :: (run ++ rest)).dropWhile
      (fun q => !(beginning q && partitionId q == partitionId b)) = (b :: run) ++ rest := by
    rw [List.dropWhile_append_of_pos fun q hq => by simp [hjunk q hq]]
    simp [hb]
  rw [decodablePackets, partitionPackets, hdrop, List.takeWhile_append_of_pos hown,
    List.cons_append, consecutivePrefix, consecutivePrefix, consecutiveFrom_append]
  intro y hy
  -- the packet behind the run belongs to another partition or to a loss
  cases rest with
  | nil => cases hy
  | cons r rest =>
    rw [List.takeWhile_cons] at hy
    split at hy
    · rename_i hkeep
      obtain rfl : r = y := Option.some.inj hy
      have hj := hstop r rfl
      rw [joins] at hj
      split at hj
      · rename_i hbr
        simp [hbr, bne, hj] at hkeep
      · exact hj
    · cases hy

def ids (segs : List (Stored × List Stored)) : List Nat := segs.map fun s => partitionId s.1

theorem decodablePackets_run {ps : List Stored} {segs : List (Stored × List Stored)}
    (h : Cuts ps segs) (hn : (ids segs).Nodup) {s : Stored × List Stored} (hs : s ∈ segs) :
    decodablePackets ps (partitionId s.1) = consecutivePrefix (s.1 :: s.2) := by
  induction h with
  | done _ => exact absurd hs List.not_mem_nil
  | @cut junk run rest b segs hjunk hb hrun hstop _ ih =>
    rw [ids, List.map_cons, List.nodup_cons] at hn
    rcases List.mem_cons.1 hs with rfl | hs
    · exact decodablePackets_cut hjunk hb hrun hstop
    · have hne : partitionId s.1 ≠ partitionId b := fun he =>
        hn.1 (List.mem_map.2 ⟨s, hs, he⟩)
      rw [decodablePackets, partitionPackets_cut hjunk hrun hne]
      exact ih hn.2 hs

theorem decodablePackets_none {ps : List Stored} {segs : List (Stored × List Stored)}
    (h : Cuts ps segs) {i : Nat} (hi : i ∉ ids segs) : decodablePackets ps i = [] := by
  induction h with
  | done h =>
    rw [decodablePackets, partitionPackets, List.dropWhile_eq_nil_iff.2 fun q hq => by simp [h q hq]]
    rfl
  | cut hjunk _ hrun _ _ ih =>
    rw [ids, List.map_cons, List.mem_cons, not_or] at hi
    rw [decodablePackets, partitionPackets_cut hjunk hrun hi.1]
    exact ih hi.2

/-! ## Orderly packets -/

theorem orderlyFrom_run {c : Nat} {prev : Stored} {run rest : List Stored}
    (h : (prev :: run).IsChain fun x y => joins c x y = true) :
    orderlyFrom c true prev (run ++ rest) = true ↔
      (prev :: run).IsChain (fun x y => inSequenceWith x y = true) ∧
        orderlyFrom c true (run.getLastD prev) rest = true := by
  induction run generalizing prev with
  | nil => simp
  | cons q run ih =>
    obtain ⟨hq, hrun⟩ := List.isChain_cons_cons.1 h
    rw [List.cons_append, orderlyFrom, List.isChain_cons_cons, List.getLastD_cons, and_assoc, ← ih hrun]
    rw [joins] at hq
    split
    · rename_i hb
      rw [if_pos hb] at hq
      rw [beq_iff_eq.1 hq]
      simp
    · rename_i hb
      rw [if_neg hb] at hq
      simp [hq]

theorem orderlyFrom_junk {c : Nat} {whole : Bool} {prev : Stored} {junk : List Stored}
    (hj : ∀ q ∈ junk, beginning q = false) : orderlyFrom c whole prev junk = true := by
  induction junk generalizing whole prev with
  | nil => rfl
  | cons q junk ih =>
    rw [orderlyFrom, if_neg (Bool.eq_false_iff.1 (hj q (List.mem_cons_self ..)))]
    exact ih fun r hr => hj r (List.mem_cons_of_mem _ hr)

theorem orderlyFrom_broken {c : Nat} {prev b : Stored} {junk rest : List Stored}
    (hj : ∀ q ∈ junk, beginning q = false) (hb : beginning b = true) :
    orderlyFrom c false prev (junk ++ b :: rest) = true ↔
      c < partitionId b ∧ orderlyFrom (partitionId b) true b rest = true := by
  induction junk generalizing prev with
  | nil => simp [orderlyFrom, hb]
  | cons q junk ih =>
    rw [List.cons_append, orderlyFrom, if_neg (Bool.eq_false_iff.1 (hj q (List.mem_cons_self ..))),
      Bool.false_and]
    exact ih fun r hr => hj r (List.mem_cons_of_mem _ hr)

theorem orderly_cut {junk rest : List Stored} {b : Stored} (hj : ∀ q ∈ junk, beginning q = false)
    (hb : beginning b = true) :
    orderly (junk ++ b :: rest) = orderlyFrom (partitionId b) true b rest := by
  have hfind : findNextPartitionBeginning (junk ++ b :: rest) = b :: rest := by
    rw [findNextPartitionBeginning, List.dropWhile_append_of_pos fun q hq => by simp [hj q hq]]
    simp [hb]
  rw [orderly, hfind]

/-- Behind a run the next one is of a later partition. -/
theorem orderlyFrom_next {c : Nat} {last : Stored} {rest : List Stored}
    {segs : List (Stored × List Stored)} (h : Cuts rest segs)
    (hstop : ∀ y, rest.head? = some y → joins c last y = false) :
    orderlyFrom c true last rest = true ↔
      (∀ s, segs.head? = some s → c < partitionId s.1) ∧ orderly rest = true := by
  cases h with
  | done hj =>
    refine iff_of_true (orderlyFrom_junk hj) ⟨fun s hs => (by cases hs), ?_⟩
    have hfind : findNextPartitionBeginning rest = [] :=
      List.dropWhile_eq_nil_iff.2 fun q hq => by simp [hj q hq]
    rw [orderly, hfind]
  | @cut junk run rest b segs hj hb =>
    rw [orderly_cut hj hb]
    have hhead : (∀ s, ((b, run) :: segs).head? = some s → c < partitionId s.1) ↔
        c < partitionId b := by simp
    rw [hhead]
    cases junk with
    | nil =>
      have hne := hstop b rfl
      rw [joins, if_pos hb, beq_eq_false_iff_ne] at hne
      rw [List.nil_append, orderlyFrom, if_pos hb]
      simp [hne.symm]
    | cons q junk =>
      have hq := hj q (List.mem_cons_self ..)
      have hloss := hstop q rfl
      rw [joins, if_neg (Bool.eq_false_iff.1 hq)] at hloss
      rw [List.cons_append, orderlyFrom, if_neg (Bool.eq_false_iff.1 hq), hloss, Bool.and_false]
      exact orderlyFrom_broken (fun r hr => hj r (List.mem_cons_of_mem _ hr)) hb

/-- Orderly packets are those whose runs are unbroken and of increasing partitions. -/
theorem orderly_iff {ps : List Stored} {segs : List (Stored × List Stored)} (h : Cuts ps segs) :
    orderly ps = true ↔ (ids segs).Pairwise (· < ·) ∧ ∀ s ∈ segs, Unbroken s := by
  induction h with
  | @done ps hj =>
    have hfind : findNextPartitionBeginning ps = [] :=
      List.dropWhile_eq_nil_iff.2 fun q hq => by simp [hj q hq]
    simp [orderly, hfind, ids]
  | @cut junk run rest b segs hj hb hrun hstop hrest ih =>
    rw [orderly_cut hj hb, orderlyFrom_run hrun, orderlyFrom_next hrest hstop, ih]
    have hids : ids ((b, run) :: segs) = partitionId b :: ids segs := rfl
    rw [hids, List.pairwise_cons, List.forall_mem_cons]
    have hhead : (ids segs).Pairwise (· < ·) →
        ((∀ s, segs.head? = some s → partitionId b < partitionId s.1) ↔
          ∀ i ∈ ids segs, partitionId b < i) := by
      intro hp
      cases segs with
      | nil => simp [ids]
      | cons s segs =>
        have hlater := (List.pairwise_cons.1 (show (partitionId s.1 :: ids segs).Pairwise _ from hp)).1
        constructor
        · intro h i hi
          rcases List.mem_cons.1 hi with rfl | hi
          · exact h s rfl
          · exact Nat.lt_trans (h s rfl) (hlater i hi)
        · rintro h t ht
          obtain rfl : s = t := Option.some.inj ht
          exact h _ (List.mem_cons_self ..)
    constructor
    · rintro ⟨hun, hh, hp, hall⟩
      exact ⟨⟨(hhead hp).1 hh, hp⟩, hun, hall⟩
    · rintro ⟨⟨hh, hp⟩, hun, hall⟩
      exact ⟨hun, (hhead hp).2 hh, hp, hall⟩

/-! ## The header -/

/-- Where a run ends. -/
def runEnd (s : Stored × List Stored) : Nat := s.1.dataPtr + sizes (s.1 :: s.2)

theorem cuts_mem {ps : List Stored} {segs : List (Stored × List Stored)} (h : Cuts ps segs)
    {s : Stored × List Stored} (hs : s ∈ segs) : ∀ q ∈ s.1 :: s.2, q ∈ ps := by
  induction h with
  | done _ => exact absurd hs List.not_mem_nil
  | cut _ _ _ _ _ ih =>
    intro q hq
    rcases List.mem_cons.1 hs with rfl | hs
    · rcases List.mem_cons.1 hq with rfl | hq
      · simp
      · simp [hq]
    · simp [ih hs q hq]

/-- The runs stand in the buffer in their order. -/
theorem cuts_stand {ps : List Stored} {segs : List (Stored × List Stored)} (h : Cuts ps segs)
    {off : Nat} (hc : Consecutive off ps) :
    (∀ s ∈ segs, off ≤ s.1.dataPtr ∧ runEnd s ≤ off + sizes ps) ∧
      segs.Pairwise fun s t => runEnd s ≤ t.1.dataPtr := by
  induction h generalizing off with
  | done _ => exact ⟨fun s hs => absurd hs List.not_mem_nil, List.Pairwise.nil⟩
  | @cut junk run rest b segs _ _ _ _ _ ih =>
    rw [consecutive_append, ← List.cons_append, consecutive_append] at hc
    obtain ⟨-, hrun, hrest⟩ := hc
    obtain ⟨hin, hp⟩ := ih hrest
    have hb : b.dataPtr = off + sizes junk := hrun.1
    have hend : runEnd (b, run) = off + sizes junk + sizes (b :: run) := by rw [runEnd, hb]
    rw [sizes_append, ← List.cons_append, sizes_append]
    refine ⟨fun s hs => ?_, List.pairwise_cons.2 ⟨fun s hs => ?_, hp⟩⟩
    · rcases List.mem_cons.1 hs with rfl | hs
      · exact ⟨by dsimp only; omega, by omega⟩
      · have := hin s hs
        exact ⟨by omega, by omega⟩
    · have := hin s hs
      omega

theorem keys_lengths (segs : List (Stored × List Stored)) :
    (lengths segs).map Prod.fst = ids segs := by
  rw [lengths, ids, List.map_map]
  rfl

theorem keys_starts (segs : List (Stored × List Stored)) :
    (starts segs).map Prod.fst = ids segs := by
  rw [starts, ids, List.map_map]
  rfl

theorem length_of_run {segs : List (Stored × List Stored)} (hn : (ids segs).Nodup)
    {s : Stored × List Stored} (hs : s ∈ segs) (t : Nat → Nat) :
    assign t (lengths segs) (partitionId s.1) = sizes (s.1 :: s.2) := by
  have hm : (partitionId s.1, sizes (s.1 :: s.2)) ∈ lengths segs := List.mem_map.2 ⟨s, hs, rfl⟩
  exact assign_of_mem ((keys_lengths segs).symm ▸ hn) hm t

theorem offset_of_run {segs : List (Stored × List Stored)} (hn : (ids segs).Nodup)
    {s : Stored × List Stored} (hs : s ∈ segs) (t : Nat → Nat) :
    assign t (starts segs) (partitionId s.1) = s.1.dataPtr := by
  have hm : (partitionId s.1, s.1.dataPtr) ∈ starts segs := List.mem_map.2 ⟨s, hs, rfl⟩
  exact assign_of_mem ((keys_starts segs).symm ▸ hn) hm t

theorem length_of_none {segs : List (Stored × List Stored)} {i : Nat} (hi : i ∉ ids segs)
    (t : Nat → Nat) : assign t (lengths segs) i = t i :=
  assign_of_not_mem ((keys_lengths segs).symm ▸ hi) t

theorem placeEmpty_eq (length offset : Nat → Nat) (k : Nat) :
    (∀ i ≤ k, placeEmpty length k offset i = filled offset length i) ∧
      ∀ i, k < i → placeEmpty length k offset i = offset i := by
  induction k with
  | zero =>
    refine ⟨fun i hi => ?_, fun i hi => ?_⟩
    · obtain rfl := Nat.le_zero.1 hi
      rw [placeEmpty, filled]
      split
      · exact Function.update_self ..
      · rfl
    · rw [placeEmpty]
      split
      · exact Function.update_of_ne (by omega) ..
      · rfl
  | succ k ih =>
    refine ⟨fun i hi => ?_, fun i hi => ?_⟩
    · rw [placeEmpty]
      rcases Nat.lt_or_eq_of_le hi with hlt | rfl
      · rw [← ih.1 i (by omega)]
        split
        · exact Function.update_of_ne (by omega) ..
        · rfl
      · rw [filled]
        split
        · rw [Function.update_self, ih.1 k (Nat.le_refl k)]
        · exact ih.2 _ (Nat.lt_succ_self k)
    · rw [placeEmpty]
      split
      · rw [Function.update_of_ne (by omega)]
        exact ih.2 i (by omega)
      · exact ih.2 i (by omega)

theorem vectorSize_spec (segs : List (Stored × List Stored)) (v : Nat) :
    let n := segs.foldl (fun v s => max v (partitionId s.1 + 1)) v
    v ≤ n ∧ (∀ i ∈ ids segs, i < n) ∧ ∀ m, v ≤ m → (∀ i ∈ ids segs, i < m) → n ≤ m := by
  induction segs generalizing v with
  | nil => exact ⟨Nat.le_refl v, fun i hi => absurd hi List.not_mem_nil, fun m hm _ => hm⟩
  | cons s segs ih =>
    obtain ⟨h1, h2, h3⟩ := ih (max v (partitionId s.1 + 1))
    have hids : ids (s :: segs) = partitionId s.1 :: ids segs := rfl
    rw [hids]
    refine ⟨Nat.le_trans (Nat.le_max_left ..) h1, fun i hi => ?_, fun m hm hlt => ?_⟩
    · rcases List.mem_cons.1 hi with rfl | hi
      · exact Nat.lt_of_lt_of_le (Nat.lt_succ_self _) (Nat.le_trans (Nat.le_max_right ..) h1)
      · exact h2 i hi
    · rw [List.forall_mem_cons] at hlt
      exact h3 m (by omega) hlt.2

/-- `r` is what the loop and the last pass make of the runs. -/
structure Written (ps : List Stored) (segs : List (Stored × List Stored))
    (r : FragmentationHeader × Nat) : Prop where
  cuts : Cuts ps segs
  ids_lt : ∀ i ∈ ids segs, i < r.1.vectorSize
  vectorSize_le : (∀ i ∈ ids segs, i < kMaxVP8Partitions) → r.1.vectorSize ≤ kMaxVP8Partitions
  length : ∃ t, (∀ i < kMaxVP8Partitions, t i = 0) ∧ r.1.length = assign t (lengths segs)
  offset : ∃ t, ∀ i < r.1.vectorSize, r.1.offset i = filled (assign t (starts segs)) r.1.length i
  total : r.2 = totalLength segs
  terminates : ∀ fuel f n, ps.length ≤ fuel →
    partitionLoop fuel ps f n = partitionLoop ps.length ps f n

theorem build_written {ps : List Stored} (hc : Consecutive 0 ps) (f : FragmentationHeader) :
    ∃ segs, Written ps segs (buildVP8FragmentationHeader ps f) := by
  obtain ⟨segs, hcuts, hloop⟩ := partitionLoop_spec ps.length (Nat.le_refl _) hc
  have hown := hloop ps.length f.clear 0 (Nat.le_refl _)
  have hterm : ∀ fuel f n, ps.length ≤ fuel →
      partitionLoop fuel ps f n = partitionLoop ps.length ps f n := fun fuel g n hf => by
    rw [hloop fuel g n hf, hloop ps.length g n (Nat.le_refl _)]
  have hclear : ∀ i < kMaxVP8Partitions, f.clear.length i = 0 := fun i hi => if_pos hi
  obtain ⟨-, hlt, hle⟩ := vectorSize_spec segs 0
  suffices hr : (buildVP8FragmentationHeader ps f).1.vectorSize =
        (writeRuns f.clear segs).vectorSize ∧
      (buildVP8FragmentationHeader ps f).1.length = (writeRuns f.clear segs).length ∧
      (∀ i < (writeRuns f.clear segs).vectorSize, (buildVP8FragmentationHeader ps f).1.offset i =
        filled (writeRuns f.clear segs).offset (writeRuns f.clear segs).length i) ∧
      (buildVP8FragmentationHeader ps f).2 = totalLength segs by
    obtain ⟨h1, h2, h3, h4⟩ := hr
    refine ⟨segs, hcuts, ?_, ?_, ⟨_, hclear, h2⟩, ⟨f.clear.offset, ?_⟩, h4, hterm⟩
    · rw [h1]; exact hlt
    · rw [h1]; exact hle _ (Nat.zero_le _)
    · rw [h1, h2]; exact h3
  cases ps with
  | nil =>
    obtain ⟨h1, h2⟩ := Prod.ext_iff.1 hown
    have h0 : f.clear = writeRuns f.clear segs := h1
    have hv : (writeRuns f.clear segs).vectorSize = 0 := by rw [← h0]; rfl
    refine ⟨?_, congrArg _ h0, fun i hi => ?_, ?_⟩
    · exact congrArg FragmentationHeader.vectorSize h0
    · omega
    · exact (Nat.zero_add (totalLength segs)) ▸ h2
  | cons q qs =>
    rw [buildVP8FragmentationHeader, hown]
    refine ⟨rfl, rfl, fun i hi => ?_, Nat.zero_add _⟩
    exact (placeEmpty_eq _ _ _).1 i (Nat.le_sub_one_of_lt hi)

/-! ## When the header is right -/

section Sound

variable {ps : List Stored} {segs : List (Stored × List Stored)} {r : FragmentationHeader × Nat}
  {frameBufferLength : Nat}

theorem Written.length_run (h : Written ps segs r) (hn : (ids segs).Nodup)
    {s : Stored × List Stored} (hs : s ∈ segs) :
    r.1.length (partitionId s.1) = sizes (s.1 :: s.2) := by
  obtain ⟨t, -, ht⟩ := h.length
  rw [ht]
  exact length_of_run hn hs t

theorem Written.length_none (h : Written ps segs r) {i : Nat} (hi : i ∉ ids segs)
    (hlt : i < kMaxVP8Partitions) : r.1.length i = 0 := by
  obtain ⟨t, h0, ht⟩ := h.length
  rw [ht, length_of_none hi, h0 i hlt]

theorem Written.offset_run (h : Written ps segs r) (hn : (ids segs).Nodup)
    {s : Stored × List Stored} (hs : s ∈ segs) (hpos : 0 < sizes (s.1 :: s.2)) :
    r.1.offset (partitionId s.1) = s.1.dataPtr := by
  obtain ⟨t, ht⟩ := h.offset
  have hlen := h.length_run hn hs
  rw [ht _ (h.ids_lt _ (List.mem_map_of_mem hs)), filled_of_ne (by omega)]
  exact offset_of_run hn hs t

theorem sizes_pos {q : Stored} (qs : List Stored) (h : 0 < q.sizeBytes) : 0 < sizes (q :: qs) := by
  rw [sizes_cons]
  omega

/-- The sum of the slots is the returned length exactly when no slot is
written twice. -/
theorem Written.total_iff (h : Written ps segs r) (hid : ∀ i ∈ ids segs, i < kMaxVP8Partitions)
    (hpos : ∀ s ∈ segs, 0 < sizes (s.1 :: s.2)) :
    r.2 = ∑ i ∈ Finset.range r.1.vectorSize, r.1.length i ↔ (ids segs).Nodup := by
  have hsub : ∑ i ∈ Finset.range r.1.vectorSize, r.1.length i =
      ∑ i ∈ Finset.range kMaxVP8Partitions, r.1.length i := by
    refine Finset.sum_subset (Finset.range_mono (h.vectorSize_le hid)) fun i hi hni => ?_
    rw [Finset.mem_range] at hi hni
    exact h.length_none (fun hm => hni (h.ids_lt i hm)) hi
  obtain ⟨t, h0, ht⟩ := h.length
  have hsum := @sum_assign_iff _ _ (Finset.range kMaxVP8Partitions) (lengths segs)
    (fun w hw => Finset.mem_range.2 (hid w.1 (keys_lengths segs ▸ List.mem_map_of_mem hw)))
    (fun w hw => by
      obtain ⟨s, hs, rfl⟩ := List.mem_map.1 hw
      exact hpos s hs) t
  have hz : ∑ i ∈ Finset.range kMaxVP8Partitions, t i = 0 :=
    Finset.sum_eq_zero fun i hi => h0 i (Finset.mem_range.1 hi)
  have hfree : ∀ w ∈ lengths segs, t w.1 = 0 := fun w hw =>
    h0 _ (hid w.1 (keys_lengths segs ▸ List.mem_map_of_mem hw))
  rw [hz, Nat.zero_add, keys_lengths] at hsum
  rw [hsub, ht, h.total, eq_comm]
  exact hsum.trans (and_iff_left hfree)

/-- A run that is the packets before its first loss has none. -/
theorem unbroken_of_sizes {prev : Stored} {run : List Stored} (hpos : ∀ q ∈ run, 0 < q.sizeBytes) :
    sizes run = sizes (consecutiveFrom prev run) ↔ Unbroken (prev, run) := by
  induction run generalizing prev with
  | nil => exact iff_of_true rfl (List.isChain_singleton prev)
  | cons q run ih =>
    rw [List.forall_mem_cons] at hpos
    rw [Unbroken, List.isChain_cons_cons, consecutiveFrom]
    split
    · rename_i hq
      rw [sizes_cons, sizes_cons, Nat.add_left_cancel_iff, ih hpos.2]
      exact (and_iff_right hq).symm
    · rename_i hq
      refine iff_of_false ?_ fun h => hq h.1
      have := hpos.1
      rw [sizes_cons, show sizes ([] : List Stored) = 0 from rfl]
      omega

theorem consecutiveFrom_unbroken {prev : Stored} {run : List Stored} (h : Unbroken (prev, run)) :
    consecutiveFrom prev run = run := by
  induction run generalizing prev with
  | nil => rfl
  | cons q run ih =>
    obtain ⟨hq, hrest⟩ := List.isChain_cons_cons.1 h
    rw [consecutiveFrom, if_pos hq, ih hrest]

/-- Of two runs the one of the smaller partition comes first. -/
theorem run_before {s t : Stored × List Stored} (hs : s ∈ segs) (ht : t ∈ segs)
    (hids : (ids segs).Pairwise (· < ·)) (hp : segs.Pairwise fun s t => runEnd s ≤ t.1.dataPtr)
    (hlt : partitionId s.1 < partitionId t.1) : runEnd s ≤ t.1.dataPtr := by
  rw [ids, List.pairwise_map] at hids
  have hboth := hids.and hp
  rw [List.pairwise_iff_getElem] at hboth
  obtain ⟨i, hi, rfl⟩ := List.getElem_of_mem hs
  obtain ⟨j, hj, rfl⟩ := List.getElem_of_mem ht
  rcases Nat.lt_trichotomy i j with hij | rfl | hij
  · exact (hboth i j hi hj hij).2
  · exact absurd hlt (Nat.lt_irrefl _)
  · exact absurd (hboth j i hj hi hij).1 (Nat.lt_asymm hlt)

theorem Written.slots (h : Written ps segs r) (hid : ∀ q ∈ ps, partitionId q < kMaxVP8Partitions)
    (hpos : ∀ q ∈ ps, 0 < q.sizeBytes) :
    (∀ i ∈ ids segs, i < kMaxVP8Partitions) ∧ ∀ s ∈ segs, 0 < sizes (s.1 :: s.2) := by
  refine ⟨fun i hi => ?_, fun s hs => ?_⟩
  · obtain ⟨s, hs, rfl⟩ := List.mem_map.1 hi
    exact hid _ (cuts_mem h.cuts hs _ (List.mem_cons_self ..))
  · exact sizes_pos s.2 (hpos _ (cuts_mem h.cuts hs _ (List.mem_cons_self ..)))

/-- A right header has the runs of increasing partitions, none over a loss. -/
theorem Written.runs_of_sound (h : Written ps segs r) (hc : Consecutive 0 ps)
    (hid : ∀ q ∈ ps, partitionId q < kMaxVP8Partitions) (hpos : ∀ q ∈ ps, 0 < q.sizeBytes)
    (hs : Sound ps frameBufferLength r) :
    (ids segs).Pairwise (· < ·) ∧ ∀ s ∈ segs, Unbroken s := by
  obtain ⟨hidr, hposr⟩ := h.slots hid hpos
  have hn : (ids segs).Nodup := (h.total_iff hidr hposr).1 hs.total
  refine ⟨?_, fun s hm => ?_⟩
  · have hstand := (cuts_stand h.cuts hc).2
    rw [ids, List.Nodup, List.pairwise_map] at hn
    rw [ids, List.pairwise_map]
    refine (hn.and hstand).imp_of_mem fun {s t} hms hmt hst => ?_
    rcases Nat.lt_trichotomy (partitionId s.1) (partitionId t.1) with hlt | heq | hgt
    · exact hlt
    · exact absurd heq hst.1
    · -- the later run would have to end before the earlier one starts
      have hn' : (ids segs).Nodup := by rwa [ids, List.Nodup, List.pairwise_map]
      have hinc := hs.increasing _ _ hgt (h.ids_lt _ (List.mem_map_of_mem hms))
      rw [h.offset_run hn' hmt (hposr t hmt), h.length_run hn' hmt,
        h.offset_run hn' hms (hposr s hms)] at hinc
      have h1 := hst.2
      have h2 := hposr t hmt
      have h3 := hposr s hms
      rw [runEnd] at h1
      omega
  · have hlt := h.ids_lt _ (List.mem_map_of_mem hm)
    have hlen := (hs.exact _ hlt).1
    rw [h.length_run hn hm, decodablePackets_run h.cuts hn hm, consecutivePrefix, sizes_cons,
      sizes_cons, Nat.add_left_cancel_iff] at hlen
    exact (unbroken_of_sizes fun q hq =>
      hpos q (cuts_mem h.cuts hm q (List.mem_cons_of_mem _ hq))).1 hlen

theorem Written.run_of_length (h : Written ps segs r)
    (hid : ∀ i ∈ ids segs, i < kMaxVP8Partitions) {i : Nat} (hlt : i < r.1.vectorSize)
    (hi : r.1.length i ≠ 0) : ∃ s ∈ segs, partitionId s.1 = i := by
  by_contra hno
  refine hi (h.length_none (fun hm => hno ?_) (Nat.lt_of_lt_of_le hlt (h.vectorSize_le hid)))
  exact List.mem_map.1 hm

/-- Unbroken runs of increasing partitions give a right header. -/
theorem Written.sound_of_runs (h : Written ps segs r) (hc : Consecutive 0 ps)
    (hid : ∀ q ∈ ps, partitionId q < kMaxVP8Partitions) (hpos : ∀ q ∈ ps, 0 < q.sizeBytes)
    (hl : sizes ps ≤ frameBufferLength) (hids : (ids segs).Pairwise (· < ·))
    (hun : ∀ s ∈ segs, Unbroken s) : Sound ps frameBufferLength r := by
  obtain ⟨hidr, hposr⟩ := h.slots hid hpos
  have hn : (ids segs).Nodup := hids.imp Nat.ne_of_lt
  obtain ⟨hin, hp⟩ := cuts_stand h.cuts hc
  obtain ⟨t, ht⟩ := h.offset
  have hstart : ∀ s ∈ segs, assign t (starts segs) (partitionId s.1) = s.1.dataPtr :=
    fun s hs => offset_of_run hn hs t
  constructor
  case increasing =>
    intro i j hij hj
    rw [ht i (by omega), ht j hj]
    refine filled_increasing (fun a b hab hb ha0 hb0 => ?_) hij hj
    obtain ⟨s, hs, rfl⟩ := h.run_of_length hidr (Nat.lt_trans hab hb) ha0
    obtain ⟨u, hu, rfl⟩ := h.run_of_length hidr hb hb0
    rw [hstart s hs, hstart u hu, h.length_run hn hs]
    exact run_before hs hu hids hp hab
  case inside =>
    intro i hi
    rw [ht i hi]
    refine filled_end_le (n := r.1.vectorSize) (fun a ha ha0 => ?_) hi
    obtain ⟨s, hs, rfl⟩ := h.run_of_length hidr ha ha0
    rw [hstart s hs, h.length_run hn hs]
    have := (hin s hs).2
    rw [runEnd] at this
    omega
  case total => exact (h.total_iff hidr hposr).2 hn
  case exact =>
    intro i hi
    by_cases hm : i ∈ ids segs
    · obtain ⟨s, hs, rfl⟩ := List.mem_map.1 hm
      rw [decodablePackets_run h.cuts hn hs, consecutivePrefix, consecutiveFrom_unbroken (hun s hs)]
      refine ⟨h.length_run hn hs, fun q hq => ?_⟩
      obtain rfl : s.1 = q := Option.some.inj hq
      exact h.offset_run hn hs (hposr s hs)
    · rw [decodablePackets_none h.cuts hm]
      exact ⟨h.length_none hm (Nat.lt_of_lt_of_le hi (h.vectorSize_le hidr)), fun q hq => (by cases hq)⟩
  case covered =>
    intro i hi
    exact decodablePackets_none h.cuts fun hm => absurd (h.ids_lt i hm) (by omega)
  case terminates => exact h.terminates

end Sound

/-! ## The octets of a partition -/

theorem consecutive_octets {buf : Bytes} {ps : List Stored} {off : Nat} (h : Consecutive off ps) :
    ps.flatMap (fun q => slice buf q.dataPtr q.sizeBytes) = slice buf off (sizes ps) := by
  induction ps generalizing off with
  | nil => simp [sizes, slice]
  | cons q ps ih =>
    obtain ⟨hq, hr⟩ := h
    rw [List.flatMap_cons, ih hr, hq, sizes_cons, slice_add]

theorem decodablePackets_infix (ps : List Stored) (i : Nat) : decodablePackets ps i <:+: ps := by
  have hfrom : ∀ (qs : List Stored) (prev : Stored), consecutiveFrom prev qs <+: qs := by
    intro qs
    induction qs with
    | nil => exact fun prev => List.prefix_rfl
    | cons q qs ih =>
      intro prev
      rw [consecutiveFrom]
      split
      · exact (List.prefix_cons_inj q).2 (ih q)
      · exact List.nil_prefix
  have hpre : ∀ qs : List Stored, consecutivePrefix qs <+: qs := by
    intro qs
    cases qs with
    | nil => exact List.prefix_rfl
    | cons q qs => exact (List.prefix_cons_inj q).2 (hfrom qs q)
  exact ((hpre _).trans (List.takeWhile_prefix _)).isInfix.trans
    (List.dropWhile_suffix _).isInfix

/-- Each range of a right header holds the octets of the packets of its
partition before the first loss. -/
theorem Sound.octets {ps : List Stored} {frameBufferLength : Nat} {r : FragmentationHeader × Nat}
    (h : Sound ps frameBufferLength r) (hc : Consecutive 0 ps) (buf : Bytes) {i : Nat}
    (hi : i < r.1.vectorSize) :
    slice buf (r.1.offset i) (r.1.length i) =
      (decodablePackets ps i).flatMap fun q => slice buf q.dataPtr q.sizeBytes := by
  obtain ⟨hlen, hoff⟩ := h.exact i hi
  obtain ⟨pre, post, he⟩ := decodablePackets_infix ps i
  rw [← he, consecutive_append, consecutive_append] at hc
  obtain ⟨⟨-, hc⟩, -⟩ := hc
  rw [hlen, consecutive_octets hc]
  cases hd : decodablePackets ps i with
  | nil => simp [sizes, slice]
  | cons q qs =>
    rw [hd] at hc hoff
    rw [hoff q rfl, hc.1]

/-! ## Received packets -/

/-- The depacketizer accepts no empty payload and no larger partition id. -/
theorem received_of_parse {b : Bytes} {p : ParsedPayload} (h : L1.Vp8.parse b = some p)
    (timestamp : UInt32) (seqNum : UInt16) (markerBit : Bool) :
    Received (.ofParsed p timestamp seqNum markerBit) := by
  have hdesc : ∀ {r : VP8Header × Bytes}, L1.Vp8.parseDescriptor b = some r →
      r.1.partitionId ≤ 8 ∧ r.2 ≠ [] := by
    intro r hr
    unfold L1.Vp8.parseDescriptor at hr
    dsimp only at hr
    split at hr
    · cases hr
    rename_i hid
    split at hr
    · cases hr
    rename_i hlen
    split at hr
    · split at hr
      · cases hr
      · rename_i x hx
        split at hr
        · cases hr
        · rename_i hne
          cases hr
          rw [(L1.Vp8.parseExtension_partition hx).1]
          exact ⟨Nat.le_of_not_lt hid, fun he => hne (he ▸ rfl)⟩
    · cases hr
      refine ⟨Nat.le_of_not_lt hid, fun he => hlen ?_⟩
      exact List.drop_eq_nil_iff.1 he
  unfold L1.Vp8.parse at h
  dsimp only at h
  split at h
  · cases h
  rename_i v data hd
  split at h
  · cases h
  obtain ⟨hid, hne⟩ := hdesc hd
  cases h
  exact ⟨v, rfl, Nat.lt_succ_of_le hid, hne⟩

theorem built_sizes {s : Info} (h : Built s) : ∀ q ∈ s.packets, q.sizeBytes = bufferSize q.pkt := by
  induction h with
  | reset => exact fun q hq => absurd hq List.not_mem_nil
  | @insertPacket s buf p mode d _ ih =>
    by_cases ht : takes s p = true
    · rw [(insertPacket_buffer ht buf mode d).2]
      have hsplit := scan_split s.packets p.seqNum
      intro q hq
      rcases List.mem_append.1 hq with hq | hq
      · exact ih q (hsplit ▸ List.mem_append_left _ hq)
      · rcases List.mem_cons.1 hq with rfl | hq
        · rfl
        · obtain ⟨z, hz, rfl⟩ := List.mem_map.1 hq
          exact ih z (hsplit ▸ List.mem_append_right _ hz)
    · rcases insertPacket_not_taken (fun hn => ht (takes_iff.2 hn)) buf mode d with
        ⟨-, he⟩ | ⟨-, he | ⟨-, -, he⟩⟩
      · rw [he]; exact ih
      · rw [he]; exact ih
      · rw [he, (track_fields s p).1]; exact ih

theorem received_slot {s : Info} (hb : Built s) (hv : ∀ q ∈ s.packets, Received q.pkt) :
    ∀ q ∈ s.packets, partitionId q < kMaxVP8Partitions ∧ 0 < q.sizeBytes := by
  intro q hq
  obtain ⟨h, hcodec, hid, hne⟩ := hv q hq
  have hstap : q.pkt.isStapA = false := by rw [VCMPacket.isStapA, hcodec]
  refine ⟨by rw [partitionId, vp8Header, hcodec]; exact hid, ?_⟩
  rw [built_sizes hb q hq, bufferSize, hstap]
  exact Nat.lt_of_lt_of_le (List.length_pos_iff.2 hne) (Nat.le_add_right ..)

/-- **When the fragmentation header is right.** For every session that
insertions build from VP8 packets that the depacketizer accepts, and every
header to write to: the ranges are disjoint, in increasing order and inside
the frame buffer, the returned length is their sum, each range is the packets
of its partition before the first loss, and the loops end, exactly when the
packets are orderly. -/
theorem fragmentation_sound_iff {s : Info} (hb : Built s) (hv : ∀ q ∈ s.packets, Received q.pkt)
    (f : FragmentationHeader) {frameBufferLength : Nat} (hl : s.sessionLength ≤ frameBufferLength) :
    Sound s.packets frameBufferLength (buildVP8FragmentationHeader s.packets f) ↔
      orderly s.packets = true := by
  obtain ⟨segs, h⟩ := build_written hb.contiguous f
  have hslot := received_slot hb hv
  rw [orderly_iff h.cuts]
  constructor
  · exact h.runs_of_sound hb.contiguous (fun q hq => (hslot q hq).1) fun q hq => (hslot q hq).2
  · rintro ⟨hids, hun⟩
    exact h.sound_of_runs hb.contiguous (fun q hq => (hslot q hq).1) (fun q hq => (hslot q hq).2)
      hl hids hun

/-- Two partitions in four packets; packet 12, in the middle of the first, is lost. -/
theorem fragmentation_sound_iff_loss :
    let d : FrameData := ⟨0, 0⟩
    let video (id : Nat) (s : Bool) : VideoHeader :=
      { isFirstPacket := false
        codec := .vp8 { partitionId := id, beginningOfPartition := s } }
    let as : List Arrival := [(.ofRtp [1, 2] 7 10 false .delta (video 0 true), .noErrors, d),
      (.ofRtp [3] 7 11 false .delta (video 0 false), .noErrors, d),
      (.ofRtp [4] 7 13 false .delta (video 0 false), .noErrors, d),
      (.ofRtp [5, 6] 7 14 true .delta (video 1 true), .noErrors, d)]
    let s := (insertAll {} (List.replicate 16 0) as).2.1
    Sound s.packets s.sessionLength
      (buildVP8FragmentationHeader s.packets ⟨0, fun _ => 0, fun _ => 0⟩) := by
  intro d video as s
  have hv : ∀ p ∈ s.packets.map Stored.pkt, Received p := by
    have he : s.packets.map Stored.pkt = as.map (·.1) := by decide
    rw [he]
    intro p hp
    obtain ⟨a, ha, rfl⟩ := List.mem_map.1 hp
    simp only [as, List.mem_cons, List.not_mem_nil, or_false] at ha
    rcases ha with rfl | rfl | rfl | rfl
    all_goals exact ⟨_, rfl, by decide, by decide⟩
  exact (fragmentation_sound_iff (Built.reset.insertAll _ as)
    (fun q hq => hv _ (List.mem_map_of_mem hq)) _ (Nat.le_refl _)).2 (by decide)

/-- Packets 11 and 13 are flagged as the beginning of partition 1 and packet 12
is lost: the range of the partition covers both. -/
theorem gap_before_beginning :
    let d : FrameData := ⟨0, 0⟩
    let video (id : Nat) : VideoHeader :=
      { isFirstPacket := id == 0
        codec := .vp8 { partitionId := id, beginningOfPartition := true } }
    let as : List Arrival := [(.ofRtp [1] 7 10 false .delta (video 0), .noErrors, d),
      (.ofRtp [2, 3] 7 11 false .delta (video 1), .noErrors, d),
      (.ofRtp [4, 5] 7 13 true .delta (video 1), .noErrors, d)]
    let s := (insertAll {} (List.replicate 16 0) as).2.1
    let r := buildVP8FragmentationHeader s.packets ⟨0, fun _ => 0, fun _ => 0⟩
    (decodablePackets s.packets 1).map (·.pkt.seqNum) = [11] ∧ r.1.length 1 = 4 ∧
      ¬ Sound s.packets s.sessionLength r := by
  intro d video as s r
  have hd : (decodablePackets s.packets 1).map (·.pkt.seqNum) = [11] := by decide
  have hr : r.1.length 1 = 4 := by decide
  refine ⟨hd, hr, fun h => ?_⟩
  have hlen := (h.exact 1 (by decide)).1
  rw [hr] at hlen
  exact absurd hlen (by decide)

end RtcCore.L3.Session
