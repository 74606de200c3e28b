import RtcCore.Core.LTS
import RtcCore.L2Receive.PacketBuffer

/-!
# The order of NetEq's `PacketBuffer`

`Tracked` is the buffer with the packets that were inserted with each timestamp
since it was last absent. `Packet::operator<` goes by wrapping differences, so
timestamps have a place on a line only inside a window (`Windowed`), and so have
sequence numbers (`SeqWindow`). Inside them `operator<` compares ranks, but that
of two sync packets with one sequence number each is before the other
(`lt_iff_rank`).

Results:
- `step_increasing`, `step_retains`: inside windows the timestamps increase, and the
  packet held for each is the best of those inserted.
- `buffer_order`: with what is kept outside of windows, over runs.
-/
namespace RtcCore.L2.NetEq

open L1

/-! ## The order of packets -/

namespace Packet

/-- How far the timestamp of a packet is past `base`. -/
def timestampFrom (base : UInt32) (p : Packet) : Nat := (p.header.timestamp - base).toNat

/-- The sequence number past `base`, then primary, redundant, sync. -/
def rank (base : UInt16) (p : Packet) : Nat :=
  (p.header.sequenceNumber - base).toNat * 3 +
    if p.syncPacket then 2 else if p.primary then 0 else 1

/-- Sync packets with one sequence number. -/
def SyncPair (a b : Packet) : Prop :=
  a.syncPacket = true ∧ b.syncPacket = true ∧ a.header.sequenceNumber = b.header.sequenceNumber

theorem lt_of_timestamps {a b : Packet} {base : UInt32} (ha : a.timestampFrom base < 2 ^ 31 - 1)
    (hb : b.timestampFrom base < 2 ^ 31 - 1) (h : b.timestampFrom base ≠ a.timestampFrom base) :
    a.lt b = decide (a.timestampFrom base < b.timestampFrom base) := by
  have h1 := a.header.timestamp.toNat_lt
  have h2 := b.header.timestamp.toNat_lt
  have h3 := base.toNat_lt
  have hne : a.header.timestamp ≠ b.header.timestamp := by
    intro hc
    exact h (by rw [timestampFrom, timestampFrom, hc])
  simp only [timestampFrom, UInt32.toNat_sub] at ha hb h ⊢
  rw [lt, if_neg hne, UInt32.toNat_sub]
  congr 1
  rw [eq_iff_iff]
  omega

theorem lt_iff_rank {a b : Packet} {base : UInt16}
    (ha : (a.header.sequenceNumber - base).toNat < 32767)
    (hb : (b.header.sequenceNumber - base).toNat < 32767)
    (h : a.header.timestamp = b.header.timestamp) :
    a.lt b = true ↔ a.rank base < b.rank base ∨ a.SyncPair b := by
  have h1 := a.header.sequenceNumber.toNat_lt
  have h2 := b.header.sequenceNumber.toNat_lt
  have h3 := base.toNat_lt
  rw [lt, if_pos h]
  by_cases hseq : a.header.sequenceNumber = b.header.sequenceNumber
  · rw [if_pos hseq, SyncPair, rank, rank, hseq]
    cases a.syncPacket <;> cases b.syncPacket <;> cases a.primary <;> cases b.primary <;> simp
  · rw [if_neg hseq, decide_eq_true_eq, UInt16.toNat_sub]
    have hne : a.header.sequenceNumber.toNat ≠ b.header.sequenceNumber.toNat :=
      fun hc => hseq (UInt16.toNat_inj.1 hc)
    simp only [SyncPair, hseq, and_false, or_false, rank, UInt16.toNat_sub] at ha hb ⊢
    have hsmall : ∀ p : Packet, (if p.syncPacket then 2 else if p.primary then 0 else 1) ≤ 2 := by
      intro p
      split
      · omega
      · split <;> omega
    have hsa := hsmall a
    have hsb := hsmall b
    omega

end Packet

/-- The sequence numbers of the packets are less than half the circle apart. -/
def SeqWindow (packets : List Packet) : Prop :=
  ∃ base : UInt16, ∀ p ∈ packets, (p.header.sequenceNumber - base).toNat < 32767

namespace PacketBuffer

/-! ## Inside a window -/

/-- The packets that a call inserts. -/
def Op.inserted : Op → List Packet
  | .insertPacket packet => packet.toList
  | .insertPacketList _ packetList _ _ => packetList.map Incoming.packet
  | .getNextPacket => []
  | .discardNextPacket => []
  | .discardOldPackets _ _ => []
  | .flush => []

def InWindow (base : UInt32) (packets : List Packet) : Prop :=
  ∀ p ∈ packets, p.timestampFrom base < 2 ^ 31 - 1

instance (base : UInt32) (packets : List Packet) : Decidable (InWindow base packets) :=
  inferInstanceAs (Decidable (∀ p ∈ packets, p.timestampFrom base < 2 ^ 31 - 1))

/-- All timestamps buffered and inserted lie in a window smaller than `2 ^ 31 - 1`. -/
def Windowed (b : PacketBuffer) (op : Op) : Prop :=
  ∃ base, InWindow base (b.buffer ++ op.inserted)

/-- The timestamps increase on their circle. -/
def Increasing (b : PacketBuffer) : Prop :=
  b.buffer.Pairwise fun p q => Serial.isNewerTimestamp q.header.timestamp p.header.timestamp = true

theorem newer_iff {base : UInt32} {p q : Packet} (hp : p.timestampFrom base < 2 ^ 31 - 1)
    (hq : q.timestampFrom base < 2 ^ 31 - 1) :
    Serial.isNewerTimestamp q.header.timestamp p.header.timestamp = true ↔
      p.timestampFrom base < q.timestampFrom base := by
  have h1 := p.header.timestamp.toNat_lt
  have h2 := q.header.timestamp.toNat_lt
  have h3 := base.toNat_lt
  simp only [Packet.timestampFrom, UInt32.toNat_sub] at hp hq ⊢
  simp only [Serial.isNewerTimestamp, bne_iff_ne, ne_eq, Bool.and_eq_true, decide_eq_true_eq,
    UInt32.toNat_sub, ← UInt32.toNat_inj]
  omega

theorem increasing_iff {base : UInt32} {b : PacketBuffer} (h : InWindow base b.buffer) :
    b.Increasing ↔ b.buffer.Pairwise fun p q => p.timestampFrom base < q.timestampFrom base :=
  List.Pairwise.iff_of_mem fun hp hq => newer_iff (h _ hp) (h _ hq)

theorem timestampFrom_inj {base : UInt32} {p q : Packet} :
    p.timestampFrom base = q.timestampFrom base ↔ p.header.timestamp = q.header.timestamp := by
  rw [Packet.timestampFrom, Packet.timestampFrom, UInt32.toNat_inj, UInt32.sub_left_inj]

/-- In a window the comparisons of the insertion are those of the distances from its base. -/
theorem follows {base : UInt32} {x : Packet} {l : List Packet}
    (hx : x.timestampFrom base < 2 ^ 31 - 1) (h : InWindow base l) :
    Follows Packet.lt sameTimestamp (Packet.timestampFrom base) x l where
  same_eq a _ := by rw [sameTimestamp, decide_eq_decide, eq_comm, timestampFrom_inj]
  lt_eq a ha hne := Packet.lt_of_timestamps hx (h a ha) hne

def holds (b : PacketBuffer) (timestamp : UInt32) : Bool :=
  b.buffer.any (·.header.timestamp = timestamp)

/-! ## What was inserted -/

/-- The buffer, and the packets inserted with each timestamp since it was last absent. -/
structure Tracked where
  state : PacketBuffer
  rivals : UInt32 → List Packet := fun _ => []

namespace Tracked

/-- After packets were taken away. -/
def keep (t : Tracked) (b : PacketBuffer) : Tracked where
  state := b
  rivals timestamp := if b.holds timestamp then t.rivals timestamp else []

def flush (t : Tracked) : Tracked := t.keep t.state.flush

def insertPacket (t : Tracked) (packet : Option Packet) : BufferReturnCode × Tracked :=
  let (returnVal, b) := t.state.insertPacket packet
  (returnVal,
    { state := b
      rivals := fun timestamp =>
        (if returnVal = .flushed then [] else t.rivals timestamp) ++
          packet.toList.filter (·.header.timestamp = timestamp) })

def step (t : Tracked) : Op → Option Tracked
  | .insertPacket packet => some (t.insertPacket packet).2
  | .insertPacketList db packetList rtp cng =>
    some (insertList flush insertPacket db false packetList rtp cng t).2.2.2
  | .getNextPacket => t.state.getNextPacket.map fun r => t.keep r.2
  | .discardNextPacket => some (t.keep t.state.discardNextPacket.2)
  | .discardOldPackets timestampLimit horizonSamples =>
    some (t.keep (t.state.discardOldPackets timestampLimit horizonSamples))
  | .flush => some t.flush

/-- The buffer takes the steps of the code. -/
theorem step_state (t : Tracked) (op : Op) : (t.step op).map state = t.state.step op := by
  cases op with
  | insertPacket packet => rfl
  | insertPacketList db packetList rtp cng =>
    have hmap : t.state.insertPacketList db packetList rtp cng =
        (insertList flush insertPacket db false packetList rtp cng t).map id
          (Prod.map id (Prod.map id state)) :=
      insertList_map state (fun _ => rfl) (fun _ _ => rfl) db false packetList rtp cng t
    simp only [step, PacketBuffer.step, Option.map_some, hmap, Prod.map]
  | getNextPacket =>
    simp only [step, PacketBuffer.step, Option.map_map]
    rfl
  | discardNextPacket => rfl
  | discardOldPackets timestampLimit horizonSamples => rfl
  | flush => rfl

/-- `packet` in the buffer, which has room for it. -/
def put (t : Tracked) (packet : Packet) : Tracked where
  state := { t.state with buffer := backInsert Packet.lt sameTimestamp packet t.state.buffer }
  rivals timestamp :=
    t.rivals timestamp ++ [packet].filter (·.header.timestamp = timestamp)

theorem insertPacket_some (t : Tracked) (packet : Packet) :
    (t.insertPacket (some packet)).2 = t.put packet ∨
      (t.insertPacket (some packet)).2 = t.flush.put packet := by
  by_cases hfull : t.state.maxNumberOfPackets ≤ t.state.buffer.length
  · refine .inr ?_
    simp only [insertPacket, PacketBuffer.insertPacket, hfull, if_true]
    rfl
  · refine .inl ?_
    simp only [insertPacket, PacketBuffer.insertPacket, hfull, if_false]
    rfl

/-! ## Inside windows -/

/-- Every packet held is one of those inserted, and none of them is before it but a sync packet
before a sync packet. -/
structure Retains (t : Tracked) : Prop where
  held : ∀ p ∈ t.state.buffer, p ∈ t.rivals p.header.timestamp
  best : ∀ p ∈ t.state.buffer, SeqWindow (t.rivals p.header.timestamp) →
    ∀ q ∈ t.rivals p.header.timestamp, q.lt p = true → q.SyncPair p

/-- What inserting inside a window keeps. -/
structure Ordered (t : Tracked) : Prop where
  increasing : t.state.Increasing
  retains : t.Retains
  own : ∀ timestamp, ∀ q ∈ t.rivals timestamp, q.header.timestamp = timestamp
  absent : ∀ timestamp, (∀ p ∈ t.state.buffer, p.header.timestamp ≠ timestamp) →
    t.rivals timestamp = []

theorem Ordered.init (maxNumberOfPackets : Nat) : Ordered { state := { maxNumberOfPackets } } where
  increasing := .nil
  retains := ⟨fun _ hp => absurd hp List.not_mem_nil, fun _ hp => absurd hp List.not_mem_nil⟩
  own _ _ hq := absurd hq List.not_mem_nil
  absent _ _ := rfl

theorem rivals_keep {t : Tracked} {b : PacketBuffer} {p : Packet} (hp : p ∈ b.buffer) :
    (t.keep b).rivals p.header.timestamp = t.rivals p.header.timestamp := by
  refine if_pos ?_
  simp only [holds, List.any_eq_true, decide_eq_true_eq]
  exact ⟨p, hp, rfl⟩

theorem Ordered.keep {t : Tracked} (h : t.Ordered) {b : PacketBuffer}
    (hb : b.buffer <:+ t.state.buffer) : (t.keep b).Ordered where
  increasing := h.increasing.sublist hb.sublist
  retains := by
    refine ⟨?_, ?_⟩
    · intro p hp
      rw [rivals_keep (b := b) hp]
      exact h.retains.held p (hb.subset hp)
    · intro p hp
      rw [rivals_keep (b := b) hp]
      exact h.retains.best p (hb.subset hp)
  own timestamp q hq := by
    simp only [Tracked.keep] at hq
    split at hq
    · exact h.own timestamp q hq
    · cases hq
  absent timestamp hne := by
    refine if_neg ?_
    simp only [holds, List.any_eq_true, decide_eq_true_eq]
    rintro ⟨p, hp, heq⟩
    exact hne p hp heq

theorem Ordered.flush {t : Tracked} (h : t.Ordered) : t.flush.Ordered := h.keep (List.nil_suffix)

theorem rivals_put_self (t : Tracked) (packet : Packet) :
    (t.put packet).rivals packet.header.timestamp =
      t.rivals packet.header.timestamp ++ [packet] := by
  simp [put]

theorem rivals_put_of_ne {t : Tracked} {packet : Packet} {timestamp : UInt32}
    (h : packet.header.timestamp ≠ timestamp) :
    (t.put packet).rivals timestamp = t.rivals timestamp := by
  simp [put, h]

/-- The better one of the packet held and a new one is the best of all. -/
theorem best_of_two {rivals : List Packet} {x y : Packet}
    (hts : ∀ q ∈ rivals, q.header.timestamp = x.header.timestamp) (hy : y ∈ rivals)
    (hw : SeqWindow (rivals ++ [x]))
    (hbest : SeqWindow rivals → ∀ q ∈ rivals, q.lt y = true → q.SyncPair y) :
    ∀ q ∈ rivals ++ [x], q.lt (if x.lt y then x else y) = true →
      q.SyncPair (if x.lt y then x else y) := by
  obtain ⟨base, hbase⟩ := hw
  have hall : ∀ q ∈ rivals ++ [x], q.header.timestamp = x.header.timestamp := by
    intro q hq
    rcases List.mem_append.1 hq with hq | hq
    · exact hts q hq
    · rw [List.mem_singleton.1 hq]
  have hxm : x ∈ rivals ++ [x] := by simp
  have hym : y ∈ rivals ++ [x] := List.mem_append_left _ hy
  have hlt : ∀ p ∈ rivals ++ [x], ∀ q ∈ rivals ++ [x],
      (p.lt q = true ↔ p.rank base < q.rank base ∨ p.SyncPair q) := fun p hp q hq =>
    Packet.lt_iff_rank (hbase p hp) (hbase q hq) ((hall p hp).trans (hall q hq).symm)
  have hpair : ∀ p q : Packet, p.SyncPair q → p.rank base = q.rank base := by
    rintro p q ⟨hp, hq, heq⟩
    simp [Packet.rank, hp, hq, heq]
  have hmin : ∀ q ∈ rivals, y.rank base ≤ q.rank base := by
    intro q hq
    by_contra hc
    have hq' : q ∈ rivals ++ [x] := List.mem_append_left _ hq
    have := hbest ⟨base, fun p hp => hbase p (List.mem_append_left _ hp)⟩ q hq
      ((hlt q hq' y hym).2 (.inl (Nat.lt_of_not_le hc)))
    exact hc (Nat.le_of_eq (hpair q y this).symm)
  intro q hq hqz
  split at hqz
  · rename_i hxy
    rw [if_pos hxy]
    refine ((hlt q hq x hxm).1 hqz).resolve_left ?_
    have hle : x.rank base ≤ y.rank base := by
      rcases (hlt x hxm y hym).1 hxy with hlt | hp
      · exact Nat.le_of_lt hlt
      · exact Nat.le_of_eq (hpair x y hp)
    rcases List.mem_append.1 hq with hq | hq
    · exact Nat.not_lt_of_le (Nat.le_trans hle (hmin q hq))
    · rw [List.mem_singleton.1 hq]
      exact Nat.lt_irrefl _
  · rename_i hxy
    rw [if_neg hxy]
    refine ((hlt q hq y hym).1 hqz).resolve_left ?_
    rcases List.mem_append.1 hq with hq | hq
    · exact Nat.not_lt_of_le (hmin q hq)
    · rw [List.mem_singleton.1 hq]
      exact fun hc => hxy ((hlt x hxm y hym).2 (.inl hc))

theorem lt_self {x : Packet} (h : x.lt x = true) : x.SyncPair x := by
  have hs : x.syncPacket = true := by
    by_contra hc
    rw [Bool.not_eq_true] at hc
    simp [Packet.lt, hc] at h
  exact ⟨hs, hs, rfl⟩

/-- After an insertion one packet has the timestamp, the best one so far, and the others are
as before. -/
theorem Ordered.put_spec {t : Tracked} (h : t.Ordered) {base : UInt32} {x : Packet}
    (hx : x.timestampFrom base < 2 ^ 31 - 1) (hb : InWindow base t.state.buffer) :
    (t.put x).state.Increasing ∧
      ∃ z, z.header.timestamp = x.header.timestamp ∧
        (∀ p, p ∈ (t.put x).state.buffer ↔
          (p ∈ t.state.buffer ∧ p.header.timestamp ≠ x.header.timestamp) ∨ p = z) ∧
        z ∈ t.rivals x.header.timestamp ++ [x] ∧
        (SeqWindow (t.rivals x.header.timestamp ++ [x]) →
          ∀ q ∈ t.rivals x.header.timestamp ++ [x], q.lt z = true → q.SyncPair z) := by
  obtain ⟨hsorted, hmem⟩ := (follows hx hb).backInsert_sorted ((increasing_iff hb).1 h.increasing)
  have hb' : InWindow base (t.put x).state.buffer := by
    intro p hp
    rcases mem_backInsert hp with rfl | hp
    · exact hx
    · exact hb p hp
  refine ⟨(increasing_iff hb').2 hsorted, ?_⟩
  rcases hmem with ⟨hnew, hmem⟩ | ⟨y, hy, hyx, hmem⟩
  · have hnone : t.rivals x.header.timestamp = [] :=
      h.absent _ fun p hp hc => hnew p hp (timestampFrom_inj.2 hc)
    refine ⟨x, rfl, ?_, by simp, ?_⟩
    · intro p
      rw [put, hmem p, or_comm]
      refine or_congr_left ⟨fun hp => ⟨hp, fun hc => hnew p hp (timestampFrom_inj.2 hc)⟩, And.left⟩
    · rintro - q hq hlt
      rw [hnone, List.nil_append, List.mem_singleton] at hq
      subst hq
      exact lt_self hlt
  · have hts := timestampFrom_inj.1 hyx
    have hown := h.own x.header.timestamp
    have hheld := hts ▸ h.retains.held y hy
    refine ⟨if x.lt y then x else y, by split <;> [rfl; exact hts], ?_, ?_, ?_⟩
    · intro p
      rw [put, hmem p, ne_eq, timestampFrom_inj]
    · split
      · simp
      · exact List.mem_append_left _ hheld
    · intro hw
      exact best_of_two hown hheld hw (hts ▸ h.retains.best y hy)

theorem Ordered.put {t : Tracked} (h : t.Ordered) {base : UInt32} {x : Packet}
    (hx : x.timestampFrom base < 2 ^ 31 - 1) (hb : InWindow base t.state.buffer) :
    (t.put x).Ordered := by
  obtain ⟨hinc, z, hz, hmem, hheld, hbest⟩ := h.put_spec hx hb
  have hrivals := rivals_put_self t x
  refine ⟨hinc, ⟨?_, ?_⟩, ?_, ?_⟩
  · intro p hp
    rcases (hmem p).1 hp with ⟨hp, hne⟩ | rfl
    · rw [rivals_put_of_ne hne.symm]
      exact h.retains.held p hp
    · rw [hz, hrivals]
      exact hheld
  · intro p hp
    rcases (hmem p).1 hp with ⟨hp, hne⟩ | rfl
    · rw [rivals_put_of_ne hne.symm]
      exact h.retains.best p hp
    · rw [hz, hrivals]
      exact hbest
  · intro timestamp q hq
    rcases List.mem_append.1 hq with hq | hq
    · exact h.own timestamp q hq
    · exact of_decide_eq_true (List.mem_filter.1 hq).2
  · intro timestamp hne
    have hxne : x.header.timestamp ≠ timestamp := hz ▸ hne z ((hmem z).2 (.inr rfl))
    rw [rivals_put_of_ne hxne]
    refine h.absent timestamp fun p hp hc => hne p ((hmem p).2 (.inl ⟨hp, ?_⟩)) hc
    rw [hc]
    exact hxne.symm

theorem Ordered.insertPacket {t : Tracked} (h : t.Ordered) {base : UInt32} {packet : Option Packet}
    (hp : ∀ x ∈ packet, x.timestampFrom base < 2 ^ 31 - 1) (hb : InWindow base t.state.buffer) :
    (t.insertPacket packet).2.Ordered ∧ InWindow base (t.insertPacket packet).2.state.buffer := by
  cases packet with
  | none =>
    have heq : (t.insertPacket none).2 = t := by
      simp [Tracked.insertPacket, PacketBuffer.insertPacket]
    rw [heq]
    exact ⟨h, hb⟩
  | some x =>
    have hput : ∀ t : Tracked, t.Ordered → InWindow base t.state.buffer →
        (t.put x).Ordered ∧ InWindow base (t.put x).state.buffer := by
      intro t h hb
      refine ⟨h.put (hp x rfl) hb, fun p hp' => ?_⟩
      rcases mem_backInsert hp' with rfl | hp'
      · exact hp p rfl
      · exact hb p hp'
    rcases t.insertPacket_some x with heq | heq
    · rw [heq]
      exact hput t h hb
    · rw [heq]
      exact hput t.flush h.flush fun p hp => absurd hp List.not_mem_nil

theorem step_ordered {t t' : Tracked} {op : Op} (h : t.Ordered) (hkept : t.state.Kept)
    (hw : t.state.Windowed op) (hs : t.step op = some t') : t'.Ordered := by
  obtain ⟨base, hbase⟩ := hw
  have hb : InWindow base t.state.buffer := fun p hp => hbase p (List.mem_append_left _ hp)
  have hins : InWindow base op.inserted := fun p hp => hbase p (List.mem_append_right _ hp)
  cases op with
  | insertPacket packet =>
    cases hs
    exact (h.insertPacket (fun x hx => hins x (Option.mem_toList.2 hx)) hb).1
  | insertPacketList db packetList rtp cng =>
    cases hs
    refine (insertList_keeps
      (P := fun t : Tracked => t.Ordered ∧ InWindow base t.state.buffer) ?_ ?_ ⟨h, hb⟩).1
    · exact fun t h => ⟨h.1.flush, fun p hp => absurd hp List.not_mem_nil⟩
    · intro t i hi h
      refine h.1.insertPacket (fun x hx => ?_) h.2
      rw [Incoming.usable] at hx
      split at hx
      · cases hx
        exact hins _ (List.mem_map_of_mem hi)
      · cases hx
  | getNextPacket =>
    rw [step, hkept.getNextPacket] at hs
    cases hs
    exact h.keep (List.tail_suffix _)
  | discardNextPacket =>
    cases hs
    rw [discardNextPacket_snd]
    exact h.keep (List.tail_suffix _)
  | discardOldPackets timestampLimit horizonSamples =>
    cases hs
    exact h.keep (List.dropWhile_suffix _)
  | flush =>
    cases hs
    exact h.flush

/-! ## Runs -/

def tracked (maxNumberOfPackets : Nat) : LTS Tracked Op :=
  LTS.ofFn (· = { state := { maxNumberOfPackets } }) step

/-- In every state reached no assertion fails, neighbours have different timestamps and the limit
holds, of at least one packet. In every state reached inside windows, moreover, the timestamps
increase, and the packet held for each is one of those inserted since it was last absent; if
their sequence numbers lie in a window none of them is before it but a sync packet before a sync
packet with its sequence number. -/
theorem buffer_order (maxNumberOfPackets : Nat) :
    (∀ t, (tracked maxNumberOfPackets).Reachable t →
      t.state.Kept ∧ ∀ op, ∃ t', t.step op = some t') ∧
    ∀ t, ((tracked maxNumberOfPackets).within fun t op => t.state.Windowed op).Reachable t →
      t.state.Increasing ∧ t.Retains := by
  have hstep : ∀ (t : Tracked) (op : Op) (t' : Tracked), t.state.Kept → t.step op = some t' →
      t'.state.Kept := by
    intro t op t' h hs
    obtain ⟨b, hb, hkept⟩ := step_kept h op
    rw [← step_state, hs] at hb
    cases hb
    exact hkept
  have hinit : ∀ t : Tracked, t = { state := { maxNumberOfPackets } } → t.state.Kept := by
    rintro t rfl
    exact .init maxNumberOfPackets
  constructor
  · intro t ht
    have hkept := LTS.Inductive.reachable (M := tracked maxNumberOfPackets) ⟨hinit, hstep⟩ t ht
    refine ⟨hkept, fun op => ?_⟩
    obtain ⟨b, hb, -⟩ := step_kept hkept op
    rw [← step_state] at hb
    obtain ⟨t', ht', -⟩ := Option.map_eq_some_iff.1 hb
    exact ⟨t', ht'⟩
  · intro t ht
    have hboth := LTS.Inductive.reachable
      (M := (tracked maxNumberOfPackets).within fun t op => t.state.Windowed op)
      (P := fun t => t.state.Kept ∧ t.Ordered) ⟨?_, ?_⟩ t ht
    · exact ⟨hboth.2.increasing, hboth.2.retains⟩
    · rintro t rfl
      exact ⟨.init maxNumberOfPackets, .init maxNumberOfPackets⟩
    · rintro t op t' ⟨hkept, h⟩ ⟨hw, hs⟩
      exact ⟨hstep t op t' hkept hs, step_ordered h hkept hw hs⟩

/-- A packet of timestamp zero. -/
def numbered (sequenceNumber : UInt16) (syncPacket : Bool) : Packet where
  header := { sequenceNumber := sequenceNumber }
  payload := [0]
  syncPacket := syncPacket

/-- A buffer for no packets holds one. Two sync packets with one sequence number are each before
the other, and packets far apart on the circle may go around it: none of them is minimal. -/
theorem nothing_minimal :
    (∃ t, (tracked 0).Reachable t ∧ t.state.maxNumberOfPackets < t.state.buffer.length) ∧
    ∀ syncPacket, ∃ t, ((tracked 50).within fun t op => t.state.Windowed op).Reachable t ∧
      ∃ p ∈ t.state.buffer, p.syncPacket = syncPacket ∧
        ∀ r ∈ t.rivals p.header.timestamp, ∃ q ∈ t.rivals p.header.timestamp, q.lt r = true := by
  refine ⟨⟨_, ⟨_, [.insertPacket (some (numbered 0 false))], rfl, .cons rfl (.nil _)⟩, by decide⟩,
    ?_⟩
  intro syncPacket
  cases syncPacket with
  | true =>
    refine ⟨_, ⟨_, [.insertPacket (some (numbered 0 true)), .insertPacket (some (numbered 0 true))],
      rfl, .cons ⟨⟨0, by decide⟩, rfl⟩ (.cons ⟨⟨0, by decide⟩, rfl⟩ (.nil _))⟩, ?_⟩
    exact ⟨numbered 0 true, by decide, rfl, by decide⟩
  | false =>
    refine ⟨_, ⟨_, [.insertPacket (some (numbered 0 false)),
      .insertPacket (some (numbered 30000 false)), .insertPacket (some (numbered 60000 false))],
      rfl, .cons ⟨⟨0, by decide⟩, rfl⟩ (.cons ⟨⟨0, by decide⟩, rfl⟩
        (.cons ⟨⟨0, by decide⟩, rfl⟩ (.nil _)))⟩, ?_⟩
    exact ⟨numbered 60000 false, by decide, rfl, by decide⟩

end Tracked

end PacketBuffer

end RtcCore.L2.NetEq
