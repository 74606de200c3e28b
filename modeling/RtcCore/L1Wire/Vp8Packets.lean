import RtcCore.Core.Tiling
import RtcCore.L1Wire.Vp8

/-!
# Losslessness of the VP8 packetizer

The packets of a frame, in every mode, balanced or not, cut its payload into
non-empty ranges that fit behind the descriptor.

Results:
* `generatePackets_lossless`, `balanced_lossless`: the two generators.
* `queue_lossless`: the packets tile the frame, and each names the partition
  of its first octet. `first_fragment` marks the partition starts, except in
  mode `kEqualSize`, which marks the frame's first packet only.
-/
namespace RtcCore.L1.Vp8

open Bytes

def PacketInfo.range (i : PacketInfo) : Nat × Nat := (i.payloadStartPos, i.size)

/-- The packet starts in partition `firstPartitionIx`, and at its start when
`firstFragment` is set. -/
structure Packetizer.Starts (p : Packetizer) (i : PacketInfo) : Prop where
  ix : i.firstPartitionIx < p.parts.length
  lower : p.partOffset i.firstPartitionIx ≤ i.payloadStartPos
  upper : i.payloadStartPos < p.partOffset i.firstPartitionIx + p.partLength i.firstPartitionIx
  flag : i.firstFragment = true → i.payloadStartPos = p.partOffset i.firstPartitionIx

/-! ## Where the partitions stand -/

def Packetizer.lens (p : Packetizer) : List Nat := p.parts.map Prod.snd

theorem Packetizer.lens_get {p : Packetizer} {i : Nat} (hi : i < p.parts.length) :
    p.lens[i]? = some (p.partLength i) := by
  simp [Packetizer.lens, Packetizer.partLength, List.getElem?_eq_getElem hi]

theorem Packetizer.Valid.offset {p : Packetizer} (hv : p.Valid) :
    ∀ i < p.parts.length, p.partOffset i = (p.lens.take i).sum := by
  intro i
  induction i with
  | zero => intro _; rw [hv.first]; simp
  | succ i ih =>
    intro hi
    rw [hv.next i (by omega), ih (by omega), List.take_add_one, Packetizer.lens_get (by omega)]
    simp

theorem Packetizer.Valid.offset_succ {p : Packetizer} (hv : p.Valid) {i : Nat}
    (hi : i < p.parts.length) : p.partOffset i + p.partLength i = (p.lens.take (i + 1)).sum := by
  rw [hv.offset i hi, List.take_add_one, Packetizer.lens_get hi]
  simp

theorem Packetizer.Valid.sum {p : Packetizer} (hv : p.Valid) : p.payload.length = p.lens.sum := by
  have hn := hv.nonempty
  rw [← hv.last, hv.offset_succ (by omega), Nat.sub_add_cancel hn]
  rw [List.take_of_length_le (by simp [Packetizer.lens])]

/-- Every partition lies inside the frame. -/
theorem Packetizer.Valid.inside {p : Packetizer} (hv : p.Valid) {i : Nat}
    (hi : i < p.parts.length) : p.partOffset i + p.partLength i ≤ p.payload.length := by
  have := congrArg List.sum (List.take_append_drop (i + 1) p.lens)
  rw [List.sum_append] at this
  rw [hv.offset_succ hi, hv.sum]
  omega

/-! ## One packet of `GeneratePackets` -/

def Fill.took (f : Fill) (n : Nat) : Fill :=
  { f with packetBytes := f.packetBytes + n
           rem := f.rem - n
           remainingInPartition := f.remainingInPartition - n }

def Fill.onto (p : Packetizer) (f : Fill) : Fill :=
  { f with partIx := f.partIx + 1
           remainingInPartition := p.partLength (f.partIx + 1)
           split := decide (p.mode.aggr = .fragments) }

/-- The packet goes on with the next partition. -/
def Fill.Advances (p : Packetizer) (beginning startOnNew : Bool) (f : Fill) : Prop :=
  (f.remainingInPartition = 0 ∧ ¬ (beginning && p.mode.separateFirst) = true) ∧
    f.partIx + 1 < p.parts.length ∧
      (p.mode.aggr = .fragments ∨ p.mode.aggr = .partitions ∧ startOnNew = true)

def Fill.nextSize (p : Packetizer) (f : Fill) : Nat :=
  calcNextSize p.balance f.rem f.remainingInPartition f.split

/-- What one round of the loop keeps, the whole loop keeps. -/
theorem fillPacket_rule {p : Packetizer} {b s : Bool} {P : Fill → Prop}
    (hstay : ∀ f, P f → 0 < f.nextSize p → ¬ (f.took (f.nextSize p)).Advances p b s →
      P (f.took (f.nextSize p)))
    (honto : ∀ f, P f → 0 < f.nextSize p → (f.took (f.nextSize p)).Advances p b s →
      P ((f.took (f.nextSize p)).onto p)) :
    ∀ (fuel : Nat) (f : Fill), P f → P (fillPacket p b s fuel f) := by
  intro fuel
  induction fuel with
  | zero => intro f h; exact h
  | succ fuel ih =>
    intro f h
    unfold fillPacket
    dsimp only
    split
    · exact h
    rename_i hn
    have hpos : 0 < f.nextSize p := Nat.pos_of_ne_zero hn
    split
    · rename_i hz
      split
      · rename_i hadv
        exact ih _ (honto f h hpos ⟨hz, hadv⟩)
      · rename_i hadv
        exact ih _ (hstay f h hpos fun hc => hadv hc.2)
    · rename_i hz
      have hstay' := hstay f h hpos fun hc => hz hc.1
      split
      · exact hstay'
      · exact ih _ hstay'

theorem calcNextSize_le_max (bal : Bool) (m r : Nat) (split : Bool) :
    calcNextSize bal m r split ≤ m := by
  unfold calcNextSize
  split
  · omega
  rename_i h0
  split
  · split <;> omega
  split
  · dsimp only
    have hlt : r < m * (r / m + 1) := Nat.lt_mul_div_succ _ (by omega)
    generalize r / m + 1 = n at hlt
    rw [Nat.div_le_iff_le_mul (by have := Nat.pos_of_lt_mul_left hlt; omega)]
    have : m * (2 * n) = 2 * (m * n) := Nat.mul_left_comm ..
    omega
  · split <;> omega

theorem calcNextSize_pos (bal : Bool) {m r : Nat} (hm : 0 < m) (hr : 0 < r) :
    0 < calcNextSize bal m r true := by
  unfold calcNextSize
  rw [if_neg (by omega), if_neg (by simp)]
  split
  · dsimp only
    have hle : r / m ≤ r := Nat.div_le_self ..
    generalize r / m = k at hle
    exact Nat.div_pos (by omega) (by omega)
  · split <;> omega

/-- The octets taken and the room left make up the room of a packet. -/
theorem fillPacket_room (p : Packetizer) (b s : Bool) (fuel : Nat) (f : Fill)
    (h : f.packetBytes + f.rem = p.room) :
    (fillPacket p b s fuel f).packetBytes + (fillPacket p b s fuel f).rem = p.room := by
  refine fillPacket_rule (P := fun f => f.packetBytes + f.rem = p.room) ?_ ?_ fuel f h
  · intro f hf _ _
    have : f.nextSize p ≤ f.rem := calcNextSize_le_max ..
    dsimp only [Fill.took]
    omega
  · intro f hf _ _
    have : f.nextSize p ≤ f.rem := calcNextSize_le_max ..
    dsimp only [Fill.took, Fill.onto]
    omega

/-- The octets taken are never given back. -/
theorem fillPacket_mono (p : Packetizer) (b s : Bool) (n fuel : Nat) (f : Fill)
    (h : n ≤ f.packetBytes) : n ≤ (fillPacket p b s fuel f).packetBytes := by
  refine fillPacket_rule (P := fun f => n ≤ f.packetBytes) ?_ ?_ fuel f h
  · intro f hf _ _
    dsimp only [Fill.took]
    omega
  · intro f hf _ _
    dsimp only [Fill.took, Fill.onto]
    omega

/-- A packet takes at least one octet. -/
theorem fillPacket_pos (p : Packetizer) (b s : Bool) {fuel : Nat} {f : Fill} (hf : f.split = true)
    (hrem : 0 < f.rem) (hr : 0 < f.remainingInPartition) :
    0 < (fillPacket p b s (fuel + 1) f).packetBytes := by
  have hn : 0 < calcNextSize p.balance f.rem f.remainingInPartition f.split := by
    rw [hf]; exact calcNextSize_pos _ hrem hr
  unfold fillPacket
  dsimp only
  rw [if_neg (by omega)]
  split
  · split
    · exact fillPacket_mono _ _ _ 1 _ _ (by dsimp only; omega)
    · exact fillPacket_mono _ _ _ 1 _ _ (by dsimp only; omega)
  · split
    · dsimp only; omega
    · exact fillPacket_mono _ _ _ 1 _ _ (by dsimp only; omega)

/-- Without aggregation a packet stays in its partition. -/
theorem fillPacket_none {p : Packetizer} (haggr : p.mode.aggr = .none) (b s : Bool) (fuel : Nat)
    (f : Fill) : (fillPacket p b s fuel f).partIx = f.partIx := by
  refine fillPacket_rule (P := fun g => g.partIx = f.partIx) ?_ ?_ fuel f rfl
  · intro g hg _ _
    exact hg
  · intro g _ _ hadv
    rcases hadv.2.2 with h | h
    · simp [haggr] at h
    · simp [haggr] at h

/-- Mode `kEqualSize` always goes on with the next partition: only the last
one is left with nothing remaining. -/
theorem fillPacket_fragments {p : Packetizer} (hv : p.Valid) (haggr : p.mode.aggr = .fragments)
    (hsep : p.mode.separateFirst = false) (b s : Bool) (fuel : Nat) (f : Fill)
    (hf : 0 < f.remainingInPartition) :
    (fillPacket p b s fuel f).remainingInPartition = 0 →
      p.parts.length ≤ (fillPacket p b s fuel f).partIx + 1 := by
  refine fillPacket_rule (P := fun g => g.remainingInPartition = 0 →
    p.parts.length ≤ g.partIx + 1) ?_ ?_ fuel f (fun h0 => by omega)
  · intro g _ _ hadv h0
    refine Nat.le_of_not_lt fun hlt => hadv ⟨⟨h0, by simp [hsep]⟩, hlt, Or.inl haggr⟩
  · intro g _ _ hadv h0
    have hpos := hv.pos _ hadv.2.1
    dsimp only [Fill.onto] at h0
    omega

/-! ## `GeneratePackets` -/

/-- What holds at the head of the outer loop. -/
structure LoopAt (p : Packetizer) (total : Nat) (s : Bool) (partIx : Nat) : Prop where
  inside : At p total partIx
  le : total ≤ p.payload.length
  flag : s = true → total < p.payload.length → total = p.partOffset partIx
  none : p.mode.aggr = .none → s = false → p.partOffset partIx < total
  fragments : p.mode.aggr = .fragments → total < p.payload.length → (s = true ↔ total = 0)

theorem Mode.separateFirst_fragments {m : Mode} (h : m.aggr = .fragments) :
    m.separateFirst = false := by
  cases m with
  | strict => simp [Mode.aggr] at h
  | aggregate => rfl
  | equalSize => rfl

/-- What a filled packet leaves behind. -/
theorem LoopAt.next {p : Packetizer} (hv : p.Valid) {total partIx : Nat} {s b : Bool}
    (h : LoopAt p total s partIx) (hlt : total < p.payload.length) :
    let f := fillPacket p b s p.room
      ⟨0, p.room, p.partOffset partIx + p.partLength partIx - total, partIx, true⟩
    (0 < f.packetBytes ∧ f.packetBytes ≤ p.room) ∧
      LoopAt p (total + f.packetBytes) (f.remainingInPartition == 0)
        (if f.remainingInPartition = 0 then f.partIx + 1 else f.partIx) := by
  obtain ⟨hix, hoff, hend⟩ := h.inside hlt
  have hroom := hv.room
  have hf := fillPacket_ok hv total b s p.room
    ⟨0, p.room, p.partOffset partIx + p.partLength partIx - total, partIx, true⟩
    ⟨hix, by dsimp only; omega, by dsimp only; omega⟩
  have hr := fillPacket_room p b s p.room
    ⟨0, p.room, p.partOffset partIx + p.partLength partIx - total, partIx, true⟩ (Nat.zero_add _)
  have hrpos : 0 < p.room := by unfold Packetizer.room; omega
  have hpos : 0 < (fillPacket p b s p.room
      ⟨0, p.room, p.partOffset partIx + p.partLength partIx - total, partIx, true⟩).packetBytes := by
    obtain ⟨k, hk⟩ : ∃ k, p.room = k + 1 := ⟨p.room - 1, by omega⟩
    rw [hk]
    exact fillPacket_pos p b s rfl (Nat.succ_pos k) (by dsimp only; omega)
  have hnone := fun haggr => fillPacket_none (p := p) haggr b s p.room
    ⟨0, p.room, p.partOffset partIx + p.partLength partIx - total, partIx, true⟩
  have hfrag := fun haggr => fillPacket_fragments hv haggr (Mode.separateFirst_fragments haggr) b s
    p.room ⟨0, p.room, p.partOffset partIx + p.partLength partIx - total, partIx, true⟩
    (by dsimp only; omega)
  dsimp only at hnone ⊢
  generalize fillPacket p b s p.room
    ⟨0, p.room, p.partOffset partIx + p.partLength partIx - total, partIx, true⟩ = f
    at hf hr hpos hnone hfrag
  refine ⟨⟨hpos, by omega⟩, at_after hv hf, ?_, ?_, ?_, ?_⟩
  · have := hv.inside hf.ix
    have := hf.sum
    omega
  · intro hs hlt'
    have h0 : f.remainingInPartition = 0 := by simpa using hs
    rw [if_pos h0]
    obtain ⟨hix', -, hend'⟩ := by
      have := at_after hv hf hlt'
      rwa [if_pos h0] at this
    have hnext := hv.next f.partIx (by omega)
    have := hf.sum
    omega
  · intro haggr hs
    have h0 : ¬ f.remainingInPartition = 0 := by simpa using hs
    rw [if_neg h0, hnone haggr]
    omega
  · intro haggr hlt'
    refine ⟨fun hs => ?_, fun h0 => by omega⟩
    have h0 : f.remainingInPartition = 0 := by simpa using hs
    have hle := hfrag haggr h0
    have hl := hv.last
    rw [show p.parts.length - 1 = f.partIx by have := hf.ix; omega] at hl
    have := hf.sum
    omega

/-- The packets of the outer loop tile what is left of the frame. -/
theorem generateLoop_spec {p : Packetizer} (hv : p.Valid) : ∀ (fuel total : Nat) (s b : Bool)
    (partIx : Nat), LoopAt p total s partIx → p.payload.length - total ≤ fuel →
    Tiles total p.payload.length ((generateLoop p fuel total s b partIx).map PacketInfo.range) ∧
      ∀ i ∈ generateLoop p fuel total s b partIx, i.size ≤ p.room ∧ p.Starts i ∧
        LoopAt p i.payloadStartPos i.firstFragment i.firstPartitionIx := by
  intro fuel
  induction fuel with
  | zero =>
    intro total s b partIx h hfuel
    have := h.le
    exact ⟨show total = p.payload.length by omega, fun i hi => absurd hi List.not_mem_nil⟩
  | succ fuel ih =>
    intro total s b partIx h hfuel
    unfold generateLoop
    by_cases hlt : total < p.payload.length
    · rw [if_pos hlt]
      obtain ⟨⟨hpos, hroom⟩, hnext⟩ := h.next hv (b := b) hlt
      obtain ⟨htiles, hmem⟩ := ih _ _ false _ hnext (by omega)
      dsimp only
      refine ⟨⟨rfl, hpos, htiles⟩, fun i hi => ?_⟩
      rcases List.mem_cons.1 hi with rfl | hi
      · obtain ⟨hix, hoff, hend⟩ := h.inside hlt
        exact ⟨hroom, ⟨hix, hoff, hend, fun hs => h.flag hs hlt⟩, h⟩
      · exact hmem i hi
    · rw [if_neg hlt]
      have := h.le
      exact ⟨show total = p.payload.length by omega, fun i hi => absurd hi List.not_mem_nil⟩

/-- With nothing remaining the packet is filled. -/
theorem fillPacket_done {p : Packetizer} {b s : Bool} {f : Fill} (h : f.remainingInPartition = 0) :
    ∀ fuel, fillPacket p b s fuel f = f
  | 0 => rfl
  | fuel + 1 => by
    have h0 : calcNextSize p.balance f.rem f.remainingInPartition f.split = 0 := by
      rw [calcNextSize, if_pos (Or.inr h)]
    unfold fillPacket
    dsimp only
    rw [if_pos h0]

/-- With one partition and balancing a packet takes one fragment. -/
theorem fillPacket_single {p : Packetizer} (hone : p.parts.length = 1) (hbal : p.balance = true)
    (b s : Bool) (fuel room len : Nat) :
    (fillPacket p b s (fuel + 1) ⟨0, room, len, 0, true⟩).packetBytes =
      calcNextSize true room len true := by
  unfold fillPacket
  dsimp only
  rw [hbal, hone]
  generalize calcNextSize true room len true = next
  split
  · rename_i h0
    exact h0.symm
  split
  · rename_i hz
    rw [if_neg (by omega), fillPacket_done hz.1]
    exact Nat.zero_add next
  · split
    · exact Nat.zero_add next
    · rename_i hz
      have h0 : len - next = 0 := Nat.eq_zero_of_not_pos fun hpos => hz ⟨rfl, hpos⟩
      rw [fillPacket_done h0]
      exact Nat.zero_add next

/-- The first packet of a frame of one partition, balanced. -/
theorem generatePackets_single {p : Packetizer} (hv : p.Valid) (hone : p.parts.length = 1)
    (hbal : p.balance = true) :
    ∃ rest, generatePackets p =
      some (⟨0, calcNextSize true p.room p.payload.length true, true, 0⟩ :: rest) := by
  have hroom := hv.room
  have hpos := hv.pos 0 hv.nonempty
  have hlast := hv.last
  rw [hone, Nat.sub_self] at hlast
  have hfirst := hv.first
  obtain ⟨m, hm⟩ : ∃ m, p.payload.length = m + 1 := ⟨p.payload.length - 1, by omega⟩
  obtain ⟨k, hk⟩ : ∃ k, p.room = k + 1 := ⟨p.room - 1, by unfold Packetizer.room; omega⟩
  have hfill := fillPacket_single hone hbal true true k p.room p.payload.length
  rw [← hk] at hfill
  unfold generatePackets
  rw [if_neg (by omega), hm, generateLoop, if_pos (by omega)]
  dsimp only
  rw [show p.partOffset 0 + p.partLength 0 - 0 = p.payload.length by omega, hfill, hm]
  exact ⟨_, rfl⟩

/-- The packets of a frame. -/
structure Packetizer.Lossless (p : Packetizer) (q : List PacketInfo) : Prop where
  tiles : Tiles 0 p.payload.length (q.map PacketInfo.range)
  fits : ∀ i ∈ q, i.size ≤ p.room
  starts : ∀ i ∈ q, p.Starts i

theorem generatePackets_lossless {p : Packetizer} (hv : p.Valid) :
    ∃ q, generatePackets p = some q ∧ p.Lossless q ∧
      (p.mode = .strict → ∀ i ∈ q, i.payloadStartPos = p.partOffset i.firstPartitionIx →
        i.firstFragment = true) ∧
      (p.mode = .equalSize → ∀ i ∈ q, (i.firstFragment = true ↔ i.payloadStartPos = 0)) := by
  have hroom := hv.room
  have hp0 := hv.pos 0 hv.nonempty
  have hfirst := hv.first
  have hin := hv.inside hv.nonempty
  have hat : LoopAt p 0 true 0 :=
    { inside := fun _ => ⟨hv.nonempty, by omega, by omega⟩
      le := Nat.zero_le _
      flag := fun _ _ => hfirst.symm
      none := fun _ h => by simp at h
      fragments := fun _ _ => by simp }
  obtain ⟨htiles, hmem⟩ := generateLoop_spec hv p.payload.length 0 true true 0 hat (by omega)
  refine ⟨_, if_neg (by omega), ⟨htiles, fun i hi => (hmem i hi).1, fun i hi => (hmem i hi).2.1⟩,
    ?_, ?_⟩
  · intro hm i hi he
    have hl := (hmem i hi).2.2
    cases hf : i.firstFragment with
    | true => rfl
    | false =>
      have := hl.none (by rw [hm]; rfl) hf
      omega
  · intro hm i hi
    obtain ⟨-, hs, hl⟩ := hmem i hi
    have := hv.inside hs.ix
    have := hs.upper
    exact hl.fragments (by rw [hm]; rfl) (by omega)

/-! ## The aggregates of small partitions -/

/-- From each small partition on, those that share its packet fit. -/
def GroupsFit (m : Nat) : List (Nat × Option Nat) → Prop
  | [] => True
  | (_, none) :: ds => GroupsFit m ds
  | (len, some d) :: ds =>
    len + ((ds.takeWhile (·.2 == some d)).map Prod.fst).sum ≤ m ∧ GroupsFit m ds

theorem GroupsFit.tail {m : Nat} : ∀ {ds : List (Nat × Option Nat)}, GroupsFit m ds →
    GroupsFit m ds.tail
  | [], h => h
  | (_, none) :: _, h => h
  | (_, some _) :: _, h => h.2

theorem GroupsFit.drop {m : Nat} : ∀ (n : Nat) {ds : List (Nat × Option Nat)}, GroupsFit m ds →
    GroupsFit m (ds.drop n)
  | 0, _, h => h
  | n + 1, ds, h => by
    rw [← List.drop_tail]
    exact GroupsFit.drop n h.tail

/-- The decisions start with a partition that is split, or there are none. -/
def SplitFirst (ds : List (Nat × Option Nat)) : Prop := ∀ x ∈ ds.head?, x.2 = none

theorem SplitFirst.takeWhile {ds : List (Nat × Option Nat)} (h : SplitFirst ds) (d : Nat) :
    ds.takeWhile (·.2 == some d) = [] := by
  cases ds with
  | nil => rfl
  | cons x ds =>
    have hx : x.2 = none := h x rfl
    exact List.takeWhile_cons_of_neg (by simp [hx])

theorem GroupsFit.append {m : Nat} {es : List (Nat × Option Nat)} (he : SplitFirst es)
    (hes : GroupsFit m es) : ∀ {ds : List (Nat × Option Nat)}, GroupsFit m ds →
    GroupsFit m (ds ++ es)
  | [], _ => hes
  | (_, none) :: ds, h => @GroupsFit.append m es he hes ds h
  | (len, some d) :: ds, h => by
    have htake : (ds ++ es).takeWhile (·.2 == some d) = ds.takeWhile (·.2 == some d) := by
      rw [List.takeWhile_append, he.takeWhile, List.append_nil]
      split
      · rename_i hlen
        exact ((List.takeWhile_sublist _).eq_of_length hlen).symm
      · rfl
    refine ⟨?_, GroupsFit.append he hes h.2⟩
    show len + (((ds ++ es).takeWhile (·.2 == some d)).map Prod.fst).sum ≤ m
    rw [htake]
    exact h.1

/-- The packets of one set of small partitions. -/
theorem groupsFit_config {m : Nat} (num : Nat) : ∀ (config run : List Nat),
    (∀ t ∈ packetSizes (config.zip run), t ≤ m) →
    GroupsFit m (run.zip (config.map fun c => some (num + c)))
  | _, [], _ => trivial
  | [], _ :: _, _ => trivial
  | c :: config, s :: run, h => by
    have hhead := packetSizes_head c s (config.zip run)
    rw [List.zip_cons_cons] at h
    refine ⟨?_, groupsFit_config num config run (packetSizes_tail _ _ h)⟩
    have hsum : (((run.zip (config.map fun c => some (num + c))).takeWhile
          (·.2 == some (num + c))).map Prod.fst).sum =
        (((config.zip run).takeWhile (·.1 == c)).map Prod.snd).sum := by
      clear h hhead
      induction config generalizing run with
      | nil => cases run <;> rfl
      | cons c' config ih =>
        cases run with
        | nil => rfl
        | cons s' run =>
          simp only [List.map_cons, List.zip_cons_cons]
          by_cases hc : c' = c
          · rw [List.takeWhile_cons_of_pos (by simp [hc]),
              List.takeWhile_cons_of_pos (by simp [hc])]
            simp only [List.map_cons, List.sum_cons, ih]
          · rw [List.takeWhile_cons_of_neg (by simpa using hc),
              List.takeWhile_cons_of_neg (by simpa using hc)]
            rfl
    have hle := h _ (List.mem_of_mem_head? hhead)
    rw [← hsum] at hle
    exact hle

theorem aggregateSmallPartitions_large {m o fuel l : Nat} {lens : List Nat} {mn mx : Int} {num : Nat}
    (hl : ¬ l < m) :
    SplitFirst ((l :: lens).zip (aggregateSmallPartitions m o fuel (l :: lens) mn mx num).1) := by
  cases fuel with
  | zero => intro x hx; simp [aggregateSmallPartitions] at hx
  | succ fuel =>
    intro x hx
    unfold aggregateSmallPartitions at hx
    dsimp only at hx
    rw [if_neg hl] at hx
    simp only [List.zip_cons_cons, List.head?_cons, Option.mem_def, Option.some.injEq] at hx
    rw [← hx]

/-- The set of small partitions and what stands behind it. -/
theorem smallRun_append (m : Nat) (lens : List Nat) :
    smallRun m lens ++ lens.drop (smallRun m lens).length = lens ∧
      ∀ l ∈ (lens.drop (smallRun m lens).length).head?, ¬ l < m := by
  have happ : smallRun m lens ++ lens.dropWhile (· < m) = lens := List.takeWhile_append_dropWhile
  have hdrop : lens.drop (smallRun m lens).length = lens.dropWhile (· < m) := by
    calc lens.drop (smallRun m lens).length
        = (smallRun m lens ++ lens.dropWhile (· < m)).drop (smallRun m lens).length := by rw [happ]
      _ = lens.dropWhile (· < m) := List.drop_left
  rw [hdrop]
  refine ⟨happ, fun l hl => ?_⟩
  have := List.head?_dropWhile_not (fun x => decide (x < m)) lens
  rw [Option.mem_def.1 hl] at this
  simpa using this

theorem aggregateSmallPartitions_fit (m o : Nat) : ∀ (fuel : Nat) (lens : List Nat) (mn mx : Int)
    (num : Nat), (∀ l ∈ lens, 0 < l) →
    GroupsFit m (lens.zip (aggregateSmallPartitions m o fuel lens mn mx num).1) := by
  intro fuel
  induction fuel with
  | zero =>
    intro lens mn mx num _
    rw [show (aggregateSmallPartitions m o 0 lens mn mx num).1 = [] from rfl, List.zip_nil_right]
    trivial
  | succ fuel ih =>
    intro lens mn mx num hpos
    match lens with
    | [] => trivial
    | l :: lens =>
      unfold aggregateSmallPartitions
      dsimp only
      split
      · -- the run of small partitions, then the rest, which starts with a large one
        obtain ⟨hsplit, hlarge⟩ := smallRun_append m (l :: lens)
        have hrun : ∀ x ∈ smallRun m (l :: lens), 0 < x ∧ x ≤ m := by
          intro x hx
          have hsmall : x < m := by simpa using List.all_eq_true.1 List.all_takeWhile x hx
          exact ⟨hpos x ((List.takeWhile_sublist _).mem hx), Nat.le_of_lt hsmall⟩
        have hrest : ∀ x ∈ (l :: lens).drop (smallRun m (l :: lens)).length, 0 < x :=
          fun x hx => hpos x (List.mem_of_mem_drop hx)
        generalize smallRun m (l :: lens) = run at *
        generalize (l :: lens).drop run.length = rest at *
        rw [← hsplit, List.zip_append
          (by rw [List.length_map, findOptimalConfiguration_length])]
        refine GroupsFit.append ?_ (ih _ _ _ _ hrest)
          (groupsFit_config _ _ _ (optimal_packets _ _ hrun))
        cases rest with
        | nil => intro x hx; simp at hx
        | cons r rest => exact aggregateSmallPartitions_large (hlarge r rfl)
      · exact ih _ _ _ _ (fun x hx => hpos x (List.mem_cons_of_mem _ hx))

/-! ## `GeneratePacketsBalancedAggregates` -/

/-- The fragments of a large partition: `n` of at most `k` octets, where
`n - 1` would not do. -/
theorem splitLarge_spec {m k partIx : Nat} (hk : 0 < k) (hkm : k ≤ m) : ∀ (n : Nat) (first : Bool)
    (total remaining : Nat) (mn mx : Int), remaining ≤ n * k → (0 < n → (n - 1) * k < remaining) →
    MinOk m mn →
    let r := splitLarge partIx k n first total remaining mn mx
    Tiles total (total + remaining) (r.1.map PacketInfo.range) ∧ r.2.1 = total + remaining ∧
      MinOk m r.2.2.1 ∧ ∀ i ∈ r.1, i.size ≤ m ∧ i.firstPartitionIx = partIx ∧
        (i.firstFragment = true → first = true ∧ i.payloadStartPos = total) ∧
        (i.payloadStartPos = total → i.firstFragment = first) := by
  intro n
  induction n with
  | zero =>
    intro first total remaining mn mx hle _ hmin
    have h0 : remaining = 0 := by simpa using hle
    subst h0
    exact ⟨rfl, rfl, hmin, fun i hi => absurd hi List.not_mem_nil⟩
  | succ n ih =>
    intro first total remaining mn mx hle hgt hmin
    have hgt := hgt (Nat.succ_pos n)
    rw [Nat.add_sub_cancel] at hgt
    rw [Nat.add_mul, Nat.one_mul] at hle
    unfold splitLarge
    dsimp only
    generalize hthis : (if k < remaining then k else remaining) = this
    have hthis' : 0 < this ∧ this ≤ k ∧ this ≤ remaining ∧ remaining - this ≤ n * k ∧
        (0 < n → (n - 1) * k < remaining - this) := by
      rcases Nat.eq_zero_or_pos n with rfl | hn
      · have he : this = remaining := by
          rw [← hthis]
          split
          · omega
          · rfl
        rw [he]
        exact ⟨by omega, by omega, by omega, by omega, fun h => absurd h (Nat.lt_irrefl 0)⟩
      · obtain ⟨n', rfl⟩ : ∃ n', n = n' + 1 := ⟨n - 1, by omega⟩
        rw [Nat.add_mul, Nat.one_mul] at hgt hle ⊢
        have he : this = k := by rw [← hthis, if_pos (by omega)]
        rw [he, Nat.add_sub_cancel]
        exact ⟨hk, Nat.le_refl _, by omega, by omega, fun _ => by omega⟩
    obtain ⟨hpos, hthk, hthr, hle', hgt'⟩ := hthis'
    have hmin' : MinOk m (if (this : Int) < mn then this else mn) := by
      split
      · exact Or.inr ⟨by omega, by omega⟩
      · exact hmin
    obtain ⟨htiles, htotal, hmn, hmem⟩ := ih false (total + this) (remaining - this) _
      (if mx < (this : Int) then this else mx) hle' hgt' hmin'
    have hsum : total + this + (remaining - this) = total + remaining := by omega
    rw [hsum] at htiles htotal
    refine ⟨⟨rfl, hpos, htiles⟩, htotal, hmn, fun i hi => ?_⟩
    rcases List.mem_cons.1 hi with rfl | hi
    · exact ⟨Nat.le_trans hthk hkm, rfl, fun h => ⟨h, rfl⟩, fun _ => rfl⟩
    · obtain ⟨h1, h2, h3, -⟩ := hmem i hi
      have hlow := (htiles.mem _ (List.mem_map_of_mem (f := PacketInfo.range) hi)).1
      have hlow' : total + this ≤ i.payloadStartPos := hlow
      exact ⟨h1, h2, fun h => absurd (h3 h).1 (by simp), fun h => by omega⟩

/-- A packet of the balanced generator. -/
structure Packetizer.Marked (p : Packetizer) (m : Nat) (i : PacketInfo) : Prop where
  fits : i.size ≤ m
  starts : p.Starts i
  flag : i.payloadStartPos = p.partOffset i.firstPartitionIx → i.firstFragment = true

/-- The partition the loop stands at. -/
theorem Packetizer.Valid.here {p : Packetizer} (hv : p.Valid) {partIx len : Nat} {lens : List Nat}
    (h : len :: lens = p.lens.drop partIx) :
    partIx < p.parts.length ∧ p.partLength partIx = len ∧
      p.partOffset partIx = (p.lens.take partIx).sum := by
  have hlt : partIx < p.parts.length := by
    have := congrArg List.length h
    simp only [List.length_cons, List.length_drop, Packetizer.lens, List.length_map] at this
    omega
  have hget := Packetizer.lens_get hlt
  have hhead := congrArg List.head? h
  rw [List.head?_cons, List.head?_drop, hget, Option.some.injEq] at hhead
  exact ⟨hlt, hhead.symm, hv.offset partIx hlt⟩

/-- Behind the last partition the whole frame is sent. -/
theorem Packetizer.Valid.done {p : Packetizer} (hv : p.Valid) {partIx : Nat}
    (h : [] = p.lens.drop partIx) : (p.lens.take partIx).sum = p.payload.length := by
  have := congrArg List.sum (List.take_append_drop partIx p.lens)
  rw [List.sum_append, ← h] at this
  rw [hv.sum, ← this]
  simp

theorem balancedLoop_spec {p : Packetizer} (hv : p.Valid) {m o : Nat} (hm : 0 < m) (ho : 0 < o) :
    ∀ (fuel : Nat) (ds : List (Nat × Option Nat)) (partIx total : Nat) (mn mx : Int),
    ds.map Prod.fst = p.lens.drop partIx → ds.length ≤ fuel →
    total = (p.lens.take partIx).sum → GroupsFit m ds → MinOk m mn →
    Tiles total p.payload.length ((balancedLoop m o fuel ds partIx total mn mx).map
        PacketInfo.range) ∧
      ∀ i ∈ balancedLoop m o fuel ds partIx total mn mx, p.Marked m i := by
  intro fuel
  induction fuel with
  | zero =>
    intro ds partIx total mn mx hds hfuel htotal _ _
    rw [List.eq_nil_of_length_eq_zero (Nat.le_zero.1 hfuel)] at hds
    exact ⟨htotal.trans (hv.done hds), fun i hi => absurd hi List.not_mem_nil⟩
  | succ fuel ih =>
    intro ds partIx total mn mx hds hfuel htotal hfit hmin
    match ds with
    | [] => exact ⟨htotal.trans (hv.done hds), fun i hi => absurd hi List.not_mem_nil⟩
    | (len, none) :: rest =>
      obtain ⟨hix, hlen, hoff⟩ := hv.here hds
      have hpos := hv.pos partIx hix
      rw [hlen] at hpos
      have hspec := @calcNumberOfFragments_spec len m o mn mx hpos hm ho hmin
      unfold balancedLoop
      dsimp only at hspec ⊢
      generalize calcNumberOfFragments len m o mn mx = n at hspec
      obtain ⟨hn, hfrag, hlast⟩ := hspec
      have hk : 0 < (len + n - 1) / n := Nat.div_pos (by omega) hn
      have hcover : len ≤ n * ((len + n - 1) / n) := by
        have := Nat.lt_mul_div_succ (len + n - 1) hn
        rw [Nat.mul_add, Nat.mul_one] at this
        omega
      have hsplit := @splitLarge_spec m _ partIx hk hfrag n true total len mn mx hcover
        (fun _ => hlast) hmin
      dsimp only at hsplit
      generalize splitLarge partIx ((len + n - 1) / n) n true total len mn mx = r at hsplit
      obtain ⟨htiles, hend, hmin', hmem⟩ := hsplit
      have htail : rest.map Prod.fst = p.lens.drop (partIx + 1) := by
        rw [← List.tail_drop, ← hds]; rfl
      have hnext : total + len = (p.lens.take (partIx + 1)).sum := by
        rw [← hv.offset_succ hix, hoff, hlen, htotal]
      obtain ⟨htiles', hmem'⟩ := ih rest (partIx + 1) r.2.1 r.2.2.1 r.2.2.2 htail
        (by simpa using hfuel) (hend.trans hnext) hfit hmin'
      rw [hend] at htiles' hmem' ⊢
      rw [List.map_append]
      refine ⟨htiles.append htiles', fun i hi => ?_⟩
      rcases List.mem_append.1 hi with hi | hi
      · obtain ⟨hsize, hpix, hflag, hstart⟩ := hmem i hi
        have hr := htiles.mem _ (List.mem_map_of_mem (f := PacketInfo.range) hi)
        dsimp only [PacketInfo.range] at hr
        refine ⟨hsize, ⟨by rw [hpix]; exact hix, ?_, ?_, fun hf => ?_⟩, fun hs => ?_⟩
        · rw [hpix]; omega
        · rw [hpix]; omega
        · rw [hpix, (hflag hf).2]; omega
        · rw [hpix] at hs
          exact hstart (by omega)
      · exact hmem' i hi
    | (len, some d) :: rest =>
      obtain ⟨hix, hlen, hoff⟩ := hv.here hds
      have hpos := hv.pos partIx hix
      unfold balancedLoop
      dsimp only
      have hgroup := hfit.1
      generalize hg : rest.takeWhile (·.2 == some d) = group at hgroup
      have hpre : (group.map Prod.fst) = (rest.map Prod.fst).take group.length := by
        rw [← List.map_take, ← hg]
        congr 1
        exact (List.prefix_iff_eq_take.1 (List.takeWhile_prefix _))
      have hbytes : (((len, some d) :: group).map Prod.fst).sum =
          ((p.lens.drop partIx).take (group.length + 1)).sum := by
        rw [← hds]
        simp only [List.map_cons, List.take_succ_cons, List.sum_cons, hpre]
      have hnext : total + (((len, some d) :: group).map Prod.fst).sum =
          (p.lens.take (partIx + ((len, some d) :: group).length)).sum := by
        rw [hbytes, htotal, List.length_cons, List.take_add (i := partIx), List.sum_append]
      have htail : (rest.drop (((len, some d) :: group).length - 1)).map Prod.fst =
          p.lens.drop (partIx + ((len, some d) :: group).length) := by
        rw [← List.drop_drop, ← hds, List.map_drop]
        simp
      have hfit' : GroupsFit m (rest.drop (((len, some d) :: group).length - 1)) := hfit.2.drop _
      obtain ⟨htiles', hmem'⟩ := ih _ _ _ mn mx htail (by
        simp only [List.length_cons] at hfuel
        rw [List.length_drop]
        omega) hnext hfit' hmin
      have hsize : 0 < (((len, some d) :: group).map Prod.fst).sum := by
        simp only [List.map_cons, List.sum_cons]
        omega
      refine ⟨⟨rfl, hsize, htiles'⟩, fun i hi => ?_⟩
      rcases List.mem_cons.1 hi with rfl | hi
      · refine ⟨by simpa using hgroup, ⟨hix, ?_, ?_, fun _ => ?_⟩, fun _ => rfl⟩
        · dsimp only; omega
        · dsimp only; omega
        · dsimp only; omega
      · exact hmem' i hi

theorem balanced_lossless {p : Packetizer} (hv : p.Valid) :
    ∃ q, generatePacketsBalancedAggregates p = some q ∧ p.Lossless q ∧
      ∀ i ∈ q, i.payloadStartPos = p.partOffset i.firstPartitionIx → i.firstFragment = true := by
  have hroom := hv.room
  have hm : 0 < p.room := by unfold Packetizer.room; omega
  have hlens : ∀ l ∈ p.lens, 0 < l := by
    intro l hl
    obtain ⟨i, hi, rfl⟩ := List.getElem_of_mem hl
    have hi' : i < p.parts.length := by simpa [Packetizer.lens] using hi
    have hget := Packetizer.lens_get hi'
    rw [List.getElem?_eq_getElem hi, Option.some.injEq] at hget
    rw [hget]
    exact hv.pos i hi'
  have hlen := aggregateSmallPartitions_length p.room (1 + payloadDescriptorExtraLength p.hdr)
    p.lens.length p.lens (-1) (-1) 0 (Nat.le_refl _)
  have hmin := aggregateSmallPartitions_minOk p.room (1 + payloadDescriptorExtraLength p.hdr)
    p.lens.length p.lens (-1) (-1) 0 hlens (Or.inl (by decide))
  have hfit := aggregateSmallPartitions_fit p.room (1 + payloadDescriptorExtraLength p.hdr)
    p.lens.length p.lens (-1) (-1) 0 hlens
  unfold generatePacketsBalancedAggregates
  rw [if_neg (by omega)]
  dsimp only
  rw [show p.parts.map Prod.snd = p.lens from rfl]
  generalize aggregateSmallPartitions p.room (1 + payloadDescriptorExtraLength p.hdr)
    p.lens.length p.lens (-1) (-1) 0 = a at hlen hmin hfit
  obtain ⟨htiles, hmem⟩ := balancedLoop_spec hv hm (o := 1 + payloadDescriptorExtraLength p.hdr)
    (by omega) p.lens.length (p.lens.zip a.1) 0 0 a.2.1 a.2.2
    (by rw [List.drop_zero, List.map_fst_zip (by omega)])
    (by rw [List.length_zip]; omega) (by simp) hfit hmin
  exact ⟨_, rfl, ⟨htiles, fun i hi => (hmem i hi).fits, fun i hi => (hmem i hi).starts⟩,
    fun i hi => (hmem i hi).flag⟩

/-! ## The queue -/

/-- Every frame of one to nine non-empty partitions is cut, in each mode and
with or without balancing, into non-empty packets that fit behind the
descriptor, are disjoint and together make up the frame; each names the
partition of its first octet. `first_fragment` is set on packets that begin
a partition only: on all of them in mode `kStrict` and in balanced mode
`kAggregate`, on the frame's first packet in mode `kEqualSize`. -/
theorem queue_lossless {p : Packetizer} (hv : p.Valid) : ∃ q, queue p = some q ∧
    (∀ i ∈ q, 0 < i.size ∧ i.size ≤ p.maxPayloadLen - (1 + payloadDescriptorExtraLength p.hdr)) ∧
    (q.Pairwise fun i j => i.payloadStartPos + i.size ≤ j.payloadStartPos) ∧
    q.flatMap (fun i => slice p.payload i.payloadStartPos i.size) = p.payload ∧
    (∀ i ∈ q, i.firstPartitionIx < p.parts.length ∧
      p.partOffset i.firstPartitionIx ≤ i.payloadStartPos ∧
      i.payloadStartPos < p.partOffset i.firstPartitionIx + p.partLength i.firstPartitionIx ∧
      (i.firstFragment = true → i.payloadStartPos = p.partOffset i.firstPartitionIx)) ∧
    (p.mode = .strict ∨ p.mode = .aggregate ∧ p.balance = true → ∀ i ∈ q,
      i.payloadStartPos = p.partOffset i.firstPartitionIx → i.firstFragment = true) ∧
    (p.mode = .equalSize → ∀ i ∈ q, (i.firstFragment = true ↔ i.payloadStartPos = 0)) := by
  have hloss : ∃ q, queue p = some q ∧ p.Lossless q ∧
      (p.mode = .strict ∨ p.mode = .aggregate ∧ p.balance = true → ∀ i ∈ q,
        i.payloadStartPos = p.partOffset i.firstPartitionIx → i.firstFragment = true) ∧
      (p.mode = .equalSize → ∀ i ∈ q, (i.firstFragment = true ↔ i.payloadStartPos = 0)) := by
    unfold queue
    split
    · rename_i hmode
      obtain ⟨q, hq, hl, hflag⟩ := balanced_lossless hv
      refine ⟨q, hq, hl, fun _ => hflag, fun he => ?_⟩
      rw [he] at hmode
      simp [Mode.aggr] at hmode
    · rename_i hmode
      obtain ⟨q, hq, hl, hstrict, hequal⟩ := generatePackets_lossless hv
      refine ⟨q, hq, hl, ?_, hequal⟩
      rintro (h | h)
      · exact hstrict h
      · rw [h.1] at hmode
        exact absurd ⟨rfl, h.2⟩ hmode
  obtain ⟨q, hq, hl, hmarked, hequal⟩ := hloss
  refine ⟨q, hq, fun i hi => ⟨?_, hl.fits i hi⟩, ?_, ?_, fun i hi => ?_, hmarked, hequal⟩
  · exact (hl.tiles.mem _ (List.mem_map_of_mem (f := PacketInfo.range) hi)).2.1
  · exact List.pairwise_map.1 hl.tiles.pairwise
  · have := hl.tiles.flatMap_slice p.payload
    rw [List.flatMap_map] at this
    rw [show (fun i : PacketInfo => slice p.payload i.payloadStartPos i.size) =
      fun i => slice p.payload i.range.1 i.range.2 from rfl, this]
    simp [slice]
  · obtain ⟨h1, h2, h3, h4⟩ := hl.starts i hi
    exact ⟨h1, h2, h3, h4⟩

/-- Partitions of 2, 1 and 5 octets, three octets to a packet. -/
def threePartitions (mode : Mode) : Packetizer :=
  { hdr := {}, mode, maxPayloadLen := 4, payload := [0, 1, 2, 3, 4, 5, 6, 7]
    parts := [(0, 2), (2, 1), (3, 5)] }

theorem threePartitions_valid (mode : Mode) : (threePartitions mode).Valid where
  nonempty := Nat.succ_pos 2
  le_nine := Nat.le_of_ble_eq_true rfl
  first := rfl
  next := by
    intro i hi
    have hi : i < 2 := hi
    match i, hi with
    | 0, _ => rfl
    | 1, _ => rfl
  last := rfl
  pos := by
    intro i hi
    have hi : i < 3 := hi
    match i, hi with
    | 0, _ => exact Nat.succ_pos 1
    | 1, _ => exact Nat.succ_pos 0
    | 2, _ => exact Nat.succ_pos 4
  room := Nat.le_of_ble_eq_true rfl

theorem queue_lossless_aggregate : (threePartitions .aggregate).Valid ∧
    ∃ q, queue (threePartitions .aggregate) = some q ∧
      q.flatMap (fun i => slice [0, 1, 2, 3, 4, 5, 6, 7] i.payloadStartPos i.size) =
        [0, 1, 2, 3, 4, 5, 6, 7] := by
  obtain ⟨q, hq, -, -, hbytes, -⟩ := queue_lossless (threePartitions_valid .aggregate)
  exact ⟨threePartitions_valid .aggregate, q, hq, hbytes⟩

/-- In mode `kEqualSize` the second packet begins the third partition without
`first_fragment`: the first packet has gone on to that partition with no room
left. -/
theorem equalSize_unmarked : (threePartitions .equalSize).Valid ∧
    ∃ q, queue (threePartitions .equalSize) = some q ∧
      ∃ i ∈ q, i.payloadStartPos = (threePartitions .equalSize).partOffset 2 ∧
        i.firstPartitionIx = 2 ∧ i.firstFragment = false := by
  refine ⟨threePartitions_valid .equalSize, _, rfl, ⟨3, 3, false, 2⟩, ?_, rfl, rfl, rfl⟩
  decide

end RtcCore.L1.Vp8
