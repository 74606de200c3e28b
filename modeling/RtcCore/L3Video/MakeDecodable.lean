import Mathlib.Data.List.Chain
import RtcCore.L3Video.FrameCapacity

/-!
# Keeping only decodable NAL units: `MakeDecodable`

`MakeDecodable` walks over the packets of a frame. Where a packet continues a
NAL unit whose earlier part was lost, it deletes the packets up to the end of
the unit and moves the octets behind them to the front. A deleted packet stays
in the list with a NULL `dataPtr` and no octets.

The decisions need one fact about where a deletion ends: the packet behind it,
if it is next in sequence, starts a NAL unit. The octets need that the packets
of a session always tile a prefix of its buffer, which `InsertBuffer` keeps.

Results:
* `Built.contiguous`: in every session that insertions build the packets'
  octets stand one after the other from the start of the buffer.
* `makeDecodable_keeps_decodable`: what `MakeDecodable` leaves.
-/
namespace RtcCore.L3.Session

open Bytes

/-! ## Model -/

/-- `start_of_nalu`. -/
def startsNalu (p : VCMPacket) : Bool :=
  p.completeNALU == .start || p.completeNALU == .complete

/-- A packet of the list afterwards; `none` is a NULL `dataPtr`. -/
structure Held where
  pkt : VCMPacket
  dataPtr : Option Nat
  sizeBytes : Nat
  deriving DecidableEq, Repr

namespace Held

def retained (h : Held) : Bool := h.dataPtr.isSome

end Held

def Stored.kept (q : Stored) : Held := ⟨q.pkt, some q.dataPtr, q.sizeBytes⟩

def Stored.deleted (q : Stored) : Held := ⟨q.pkt, none, 0⟩

/-- The number of packets from the first one of the list to the returned one.
mirrors webrtc/modules/video_coding/main/source/session_info.cc:266-277 -/
def scanNaluEnd : List Stored → Nat
  | [] => 0
  | q :: qs =>
    if (q.pkt.completeNALU == .complete && decide (0 < q.sizeBytes)) ||
        q.pkt.completeNALU == .start then 0
    else if q.pkt.completeNALU == .nend then 1
    else 1 + scanNaluEnd qs

/-- mirrors webrtc/modules/video_coding/main/source/session_info.cc:260-278 -/
def findNaluEnd : List Stored → Nat
  | [] => 0
  | q :: qs =>
    if q.pkt.completeNALU == .nend || q.pkt.completeNALU == .complete then 1
    else scanNaluEnd (q :: qs)

/-- `ShiftSubsequentPackets` with a negative step: the octets of `rest` move
`k` to the front.
mirrors webrtc/modules/video_coding/main/source/session_info.cc:190-205 -/
def shiftBack (buf : Bytes) (rest : List Stored) (k : Nat) : Bytes × List Stored :=
  match rest with
  | [] => (buf, [])
  | p :: ps =>
    (memmove buf (p.dataPtr - k) p.dataPtr (sizes (p :: ps)),
      (p :: ps).map fun q => { q with dataPtr := q.dataPtr - k })

/-- The number of octets deleted with the packets of `del`, the buffer and the
packets behind them.
mirrors webrtc/modules/video_coding/main/source/session_info.cc:280-296 -/
def deletePacketData (buf : Bytes) (del rest : List Stored) : Nat × Bytes × List Stored :=
  if 0 < sizes del then (sizes del, shiftBack buf rest (sizes del)) else (0, buf, rest)

/-- The loop of `MakeDecodable` with `prev` the number at `prev_it`: the
octets deleted, the packets and the buffer.
mirrors webrtc/modules/video_coding/main/source/session_info.cc:404-414 -/
def decodableFrom : Nat → UInt16 → List Stored → Bytes → Nat × List Held × Bytes
  | 0, _, _, buf => (0, [], buf)
  | _ + 1, _, [], buf => (0, [], buf)
  | fuel + 1, prev, q :: qs, buf =>
    if !startsNalu q.pkt && decide (prev + 1 ≠ q.pkt.seqNum) then
      let del := (q :: qs).take (findNaluEnd (q :: qs))
      let d := deletePacketData buf del ((q :: qs).drop (findNaluEnd (q :: qs)))
      let r := decodableFrom fuel (del.getLastD q).pkt.seqNum d.2.2 d.2.1
      (d.1 + r.1, del.map Stored.deleted ++ r.2.1, r.2.2)
    else
      let r := decodableFrom fuel q.pkt.seqNum qs buf
      (r.1, q.kept :: r.2.1, r.2.2)

/-- The first packet is in sequence with itself: unless its unit is deleted
the loop keeps it.
mirrors webrtc/modules/video_coding/main/source/session_info.cc:389-416 -/
def makeDecodable (ps : List Stored) (buf : Bytes) : Nat × List Held × Bytes :=
  match ps with
  | [] => (0, [], buf)
  | q :: qs =>
    if q.pkt.completeNALU == .incomplete || q.pkt.completeNALU == .nend then
      let del := (q :: qs).take (findNaluEnd (q :: qs))
      let d := deletePacketData buf del ((q :: qs).drop (findNaluEnd (q :: qs)))
      let r := decodableFrom qs.length (del.getLastD q).pkt.seqNum d.2.2 d.2.1
      (d.1 + r.1, del.map Stored.deleted ++ r.2.1, r.2.2)
    else
      let r := decodableFrom qs.length q.pkt.seqNum qs buf
      (r.1, q.kept :: r.2.1, r.2.2)

/-! ## Where a deletion ends -/

/-- The marks two packets next to each other in sequence may carry. -/
def Follows : NaluCompleteness → NaluCompleteness → Prop
  | .start, m => m = .incomplete ∨ m = .nend
  | .incomplete, m => m = .incomplete ∨ m = .nend
  | .nend, m => m = .start ∨ m = .complete
  | .complete, m => m = .start ∨ m = .complete
  | .unset, _ => False

instance (m n : NaluCompleteness) : Decidable (Follows m n) := by
  cases m <;> unfold Follows <;> infer_instance

/-- Packets `a` and `b`, with nothing between them, carry consistent marks:
they say that a NAL unit starts at `b` if and only if one ends at `a`. -/
def Consistent (a b : VCMPacket) : Prop :=
  a.seqNum + 1 = b.seqNum → Follows a.completeNALU b.completeNALU

instance (a b : VCMPacket) : Decidable (Consistent a b) :=
  inferInstanceAs (Decidable (_ → _))

theorem Consistent.starts {a b : VCMPacket} (h : Consistent a b) (hs : a.seqNum + 1 = b.seqNum)
    (he : a.completeNALU = .nend ∨ a.completeNALU = .complete) : startsNalu b = true := by
  have hf := h hs
  rcases he with he | he <;> rw [he] at hf <;> rcases hf with hb | hb <;> simp [startsNalu, hb]

/-- The scan stops behind a packet that ends a unit or before one that starts
one; `prev` stands for the packet before an empty range. -/
theorem scanNaluEnd_stops (qs : List Stored) (prev : Stored) {b : Stored}
    (hb : (qs.drop (scanNaluEnd qs)).head? = some b) :
    ((qs.take (scanNaluEnd qs)).getLastD prev).pkt.completeNALU = .nend ∨
      startsNalu b.pkt = true := by
  induction qs generalizing prev with
  | nil => simp at hb
  | cons r qs ih =>
    rw [scanNaluEnd] at hb ⊢
    split at hb
    · rename_i hstop
      simp only [List.drop_zero, List.head?_cons, Option.some.injEq] at hb
      subst hb
      right
      simp only [startsNalu, Bool.or_eq_true, Bool.and_eq_true] at hstop ⊢
      rcases hstop with h | h
      · exact Or.inr h.1
      · exact Or.inl h
    · rename_i hgo
      rw [if_neg hgo]
      split at hb
      · rename_i hend
        left
        rw [if_pos hend, List.take_succ_cons, List.take_zero, List.getLastD_cons]
        exact beq_iff_eq.1 hend
      · rename_i hend
        rw [if_neg hend, Nat.add_comm, List.take_succ_cons, List.getLastD_cons]
        rw [Nat.add_comm, List.drop_succ_cons] at hb
        exact ih r hb

/-- A chain relates the packets on both sides of a cut. -/
theorem consistent_cut {q : Stored} {qs : List Stored} {b : Stored} {k : Nat} (h0 : k ≠ 0)
    (hc : (q :: qs).IsChain fun x y => Consistent x.pkt y.pkt)
    (hb : ((q :: qs).drop k).head? = some b) :
    Consistent (((q :: qs).take k).getLastD q).pkt b.pkt := by
  rw [← List.take_append_drop k (q :: qs), List.isChain_append] at hc
  refine hc.2.2 _ ?_ b hb
  obtain ⟨k, rfl⟩ := Nat.exists_eq_succ_of_ne_zero h0
  rw [List.take_succ_cons, List.getLast?_cons, List.getLastD_eq_getLast?, List.getLast?_cons]
  rfl

/-- Behind the deleted packets of a unit a packet that is next in sequence
starts a unit. -/
theorem findNaluEnd_next {q : Stored} {qs : List Stored} {b : Stored}
    (hc : (q :: qs).IsChain fun x y => Consistent x.pkt y.pkt)
    (hb : ((q :: qs).drop (findNaluEnd (q :: qs))).head? = some b)
    (hs : (((q :: qs).take (findNaluEnd (q :: qs))).getLastD q).pkt.seqNum + 1 = b.pkt.seqNum) :
    startsNalu b.pkt = true := by
  have hcut := fun h0 => (consistent_cut h0 hc hb).starts hs
  by_cases hq : (q.pkt.completeNALU == .nend || q.pkt.completeNALU == .complete) = true
  · have h1 : findNaluEnd (q :: qs) = 1 := if_pos hq
    rw [h1] at hcut
    exact hcut Nat.one_ne_zero (by simpa using hq)
  · have hscan : findNaluEnd (q :: qs) = scanNaluEnd (q :: qs) := if_neg hq
    rw [hscan] at hb hcut
    rcases scanNaluEnd_stops (q :: qs) q hb with h | h
    · refine hcut (fun h0 => hq ?_) (Or.inl h)
      rw [h0, List.take_zero] at h
      rw [Bool.or_eq_true]
      exact Or.inl (beq_iff_eq.2 h)
    · exact h

/-- The unit that a packet which starts none belongs to has the packet. -/
theorem findNaluEnd_pos {q : Stored} {qs : List Stored} (h : startsNalu q.pkt = false) :
    0 < findNaluEnd (q :: qs) := by
  simp only [startsNalu, Bool.or_eq_false_iff] at h
  rw [findNaluEnd]
  split
  · exact Nat.one_pos
  · rw [scanNaluEnd]
    simp only [h, Bool.false_and, Bool.or_self, Bool.false_eq_true, if_false]
    split <;> omega

/-! ## What a deletion does to the buffer -/

theorem writeAt_take {buf src : Bytes} {off : Nat} (h : off ≤ buf.length) :
    (writeAt buf off src).take off = buf.take off := by
  rw [writeAt, List.append_assoc, List.take_append_of_le_length (by rw [List.length_take]; omega),
    List.take_take, Nat.min_self]

theorem memmove_length {buf : Bytes} {dst src len : Nat} (hd : dst ≤ src)
    (hs : src + len ≤ buf.length) : (memmove buf dst src len).length = buf.length :=
  writeAt_length (by rw [slice_length hs]; omega)

theorem memmove_slice {buf : Bytes} {dst src len i n : Nat} (hd : dst ≤ src)
    (hs : src + len ≤ buf.length) (hn : i + n ≤ len) :
    slice (memmove buf dst src len) (dst + i) n = slice buf (src + i) n := by
  have hpre : (buf.take dst).length = dst := by rw [List.length_take]; omega
  have hmid : (slice buf src len).length = len := slice_length hs
  rw [slice, memmove, writeAt, List.append_assoc, ← List.drop_drop, List.drop_left' hpre,
    List.drop_append_of_le_length (by omega), List.take_append_of_le_length (by
      rw [List.length_drop]; omega)]
  rw [slice, slice, List.drop_take, List.drop_drop, List.take_take, Nat.min_eq_left (by omega)]

/-- `b` is `a` wherever it stands now, with the octets it had. -/
def Moved (buf out : Bytes) (a b : Stored) : Prop :=
  b.pkt = a.pkt ∧ b.sizeBytes = a.sizeBytes ∧
    slice out b.dataPtr b.sizeBytes = slice buf a.dataPtr a.sizeBytes

/-- `rest` has moved to `lo`. -/
structure ShiftedTo (buf : Bytes) (rest : List Stored) (lo : Nat) (r : Bytes × List Stored) :
    Prop where
  length : r.1.length = buf.length
  front : r.1.take lo = buf.take lo
  consecutive : Consecutive lo r.2
  moved : List.Forall₂ (Moved buf r.1) rest r.2

theorem sizes_moved {buf out : Bytes} {ps qs : List Stored}
    (h : List.Forall₂ (Moved buf out) ps qs) : sizes qs = sizes ps := by
  induction h with
  | nil => rfl
  | cons hq _ ih => rw [sizes_cons, sizes_cons, ih, hq.2.1]

theorem consecutive_back {ps : List Stored} {lo k : Nat} (h : Consecutive (lo + k) ps) :
    Consecutive lo (ps.map fun q => { q with dataPtr := q.dataPtr - k }) := by
  induction ps generalizing lo with
  | nil => trivial
  | cons q qs ih =>
    obtain ⟨hq, hr⟩ := h
    refine ⟨?_, ih ?_⟩
    · dsimp only
      omega
    · rwa [Nat.add_right_comm] at hr

theorem moved_back {buf : Bytes} {src dst len : Nat} (hd : dst ≤ src) (hs : src + len ≤ buf.length)
    {ps : List Stored} {i : Nat} (h : Consecutive (src + i) ps) (hi : i + sizes ps ≤ len) :
    List.Forall₂ (Moved buf (memmove buf dst src len)) ps
      (ps.map fun q => { q with dataPtr := q.dataPtr - (src - dst) }) := by
  induction ps generalizing i with
  | nil => exact List.Forall₂.nil
  | cons q qs ih =>
    rw [sizes_cons] at hi
    obtain ⟨hq, hr⟩ := h
    rw [Nat.add_assoc] at hr
    refine List.Forall₂.cons ⟨rfl, rfl, ?_⟩ (ih hr (by omega))
    dsimp only
    rw [hq, show src + i - (src - dst) = dst + i by omega]
    exact memmove_slice hd hs (by omega)

theorem shiftBack_spec {buf : Bytes} {rest : List Stored} {lo k : Nat}
    (h : Consecutive (lo + k) rest) (hroom : lo + k + sizes rest ≤ buf.length) :
    ShiftedTo buf rest lo (shiftBack buf rest k) := by
  cases rest with
  | nil => exact ⟨rfl, rfl, trivial, List.Forall₂.nil⟩
  | cons p ps =>
    have hp : p.dataPtr = lo + k := h.1
    have hlo : p.dataPtr - k = lo := by omega
    have hs : p.dataPtr + sizes (p :: ps) ≤ buf.length := by omega
    refine ⟨memmove_length (Nat.sub_le _ _) hs, ?_, consecutive_back h, ?_⟩
    · exact hlo ▸ writeAt_take (by omega)
    · have hm := moved_back (i := 0) (Nat.sub_le p.dataPtr k) hs (hp.symm ▸ h) (Nat.zero_add _).le
      rwa [show p.dataPtr - (p.dataPtr - k) = k by omega] at hm

theorem Moved.refl (buf : Bytes) (q : Stored) : Moved buf buf q q := ⟨rfl, rfl, rfl⟩

theorem deletePacketData_count (buf : Bytes) (del rest : List Stored) :
    (deletePacketData buf del rest).1 = sizes del := by
  unfold deletePacketData
  split
  · rfl
  · dsimp only
    omega

theorem deletePacketData_pkts (buf : Bytes) (del rest : List Stored) :
    (deletePacketData buf del rest).2.2.map Stored.pkt = rest.map Stored.pkt := by
  unfold deletePacketData
  split
  · cases rest with
    | nil => rfl
    | cons p ps => simp [shiftBack]
  · rfl

theorem deletePacketData_spec {buf : Bytes} {del rest : List Stored} {lo : Nat}
    (h : Consecutive lo (del ++ rest)) (hroom : lo + sizes (del ++ rest) ≤ buf.length) :
    ShiftedTo buf rest lo (deletePacketData buf del rest).2 := by
  rw [consecutive_append] at h
  rw [sizes_append] at hroom
  unfold deletePacketData
  split
  · exact shiftBack_spec h.2 (by omega)
  · have h0 : sizes del = 0 := by omega
    rw [h0] at h
    exact ⟨rfl, rfl, h.2, List.forall₂_same.2 fun q _ => Moved.refl buf q⟩

/-! ## What the loop leaves -/

def heldSizes (hs : List Held) : Nat := (hs.map Held.sizeBytes).sum

@[simp] theorem heldSizes_kept (q : Stored) (hs : List Held) :
    heldSizes (q.kept :: hs) = q.sizeBytes + heldSizes hs := rfl

@[simp] theorem heldSizes_deleted (del : List Stored) (hs : List Held) :
    heldSizes (del.map Stored.deleted ++ hs) = heldSizes hs := by
  induction del with
  | nil => rfl
  | cons q del ih => simpa [heldSizes, Stored.deleted] using ih

/-- The octets `buf` holds for those packets of `ps` that `hs` retains. -/
def retainedOctets (buf : Bytes) : List Stored → List Held → Bytes
  | q :: qs, h :: hs =>
    (if h.retained then slice buf q.dataPtr q.sizeBytes else []) ++ retainedOctets buf qs hs
  | _, _ => []

@[simp] theorem retainedOctets_kept (buf : Bytes) (q : Stored) (qs : List Stored) (hs : List Held) :
    retainedOctets buf (q :: qs) (q.kept :: hs) =
      slice buf q.dataPtr q.sizeBytes ++ retainedOctets buf qs hs := rfl

@[simp] theorem retainedOctets_deleted (buf : Bytes) (del qs : List Stored) (hs : List Held) :
    retainedOctets buf (del ++ qs) (del.map Stored.deleted ++ hs) = retainedOctets buf qs hs := by
  induction del with
  | nil => rfl
  | cons q del ih => simpa [retainedOctets, Stored.deleted, Held.retained] using ih

theorem retainedOctets_moved {buf out : Bytes} {ps qs : List Stored}
    (h : List.Forall₂ (Moved buf out) ps qs) (hs : List Held) :
    retainedOctets out qs hs = retainedOctets buf ps hs := by
  induction h generalizing hs with
  | nil => rfl
  | cons hm _ ih =>
    cases hs with
    | nil => rfl
    | cons _ hs => rw [retainedOctets, retainedOctets, hm.2.2, ih]

/-- A packet and what became of it: deleted, or retained with its octets. -/
def Outcome (buf out : Bytes) (q : Stored) (h : Held) : Prop :=
  h.pkt = q.pkt ∧ (h.dataPtr = none ∧ h.sizeBytes = 0 ∨
    ∃ off, h.dataPtr = some off ∧ h.sizeBytes = q.sizeBytes ∧
      slice out off h.sizeBytes = slice buf q.dataPtr q.sizeBytes)

theorem Outcome.of_moved {buf mid out : Bytes} {q r : Stored} {h : Held} (hm : Moved buf mid q r)
    (ho : Outcome mid out r h) : Outcome buf out q h := by
  obtain ⟨hp, hs, hb⟩ := hm
  refine ⟨ho.1.trans hp, ho.2.imp_right ?_⟩
  rintro ⟨off, h1, h2, h3⟩
  exact ⟨off, h1, h2.trans hs, h3.trans hb⟩

theorem outcome_moved {buf mid out : Bytes} {ps qs : List Stored} {hs : List Held}
    (hm : List.Forall₂ (Moved buf mid) ps qs) (ho : List.Forall₂ (Outcome mid out) qs hs) :
    List.Forall₂ (Outcome buf out) ps hs := by
  induction hm generalizing hs with
  | nil => cases ho with | nil => exact List.Forall₂.nil
  | cons h _ ih => cases ho with | cons h' hr => exact List.Forall₂.cons (h'.of_moved h) (ih hr)

theorem outcome_deleted {buf out : Bytes} {qs : List Stored} {hs : List Held} (del : List Stored)
    (h : List.Forall₂ (Outcome buf out) qs hs) :
    List.Forall₂ (Outcome buf out) (del ++ qs) (del.map Stored.deleted ++ hs) := by
  induction del with
  | nil => exact h
  | cons q del ih => exact List.Forall₂.cons ⟨rfl, Or.inl ⟨rfl, rfl⟩⟩ ih

theorem retained_of_size {buf out : Bytes} {ps : List Stored} {hs : List Held} {h : Held}
    (ho : List.Forall₂ (Outcome buf out) ps hs) (hm : h ∈ hs) (hs : 0 < h.sizeBytes) :
    h.retained = true := by
  induction ho with
  | nil => exact absurd hm List.not_mem_nil
  | cons hq _ ih =>
    rcases List.mem_cons.1 hm with rfl | hm
    · rcases hq.2 with ⟨-, h0⟩ | ⟨off, hoff, -⟩
      · omega
      · rw [Held.retained, hoff]; rfl
    · exact ih hm

/-- `r` is what is left of the packets `ps`, whose octets begin at `lo`. -/
structure Leaves (buf : Bytes) (ps : List Stored) (lo : Nat) (r : Nat × List Held × Bytes) :
    Prop where
  length : r.2.2.length = buf.length
  front : r.2.2.take lo = buf.take lo
  count : r.1 + heldSizes r.2.1 = sizes ps
  octets : slice r.2.2 lo (heldSizes r.2.1) = retainedOctets buf ps r.2.1
  each : List.Forall₂ (Outcome buf r.2.2) ps r.2.1

namespace Leaves

theorem stop (buf : Bytes) (lo : Nat) : Leaves buf [] lo (0, [], buf) :=
  ⟨rfl, rfl, rfl, by simp [heldSizes, slice, retainedOctets], List.Forall₂.nil⟩

theorem keep {buf : Bytes} {q : Stored} {qs : List Stored} {lo : Nat} {r : Nat × List Held × Bytes}
    (hq : q.dataPtr = lo) (h : Leaves buf qs (lo + q.sizeBytes) r) :
    Leaves buf (q :: qs) lo (r.1, q.kept :: r.2.1, r.2.2) := by
  have hfront : r.2.2.take lo = buf.take lo := by
    have := congrArg (List.take lo) h.front
    rwa [List.take_take, List.take_take, Nat.min_eq_left (Nat.le_add_right ..)] at this
  have hown : slice r.2.2 lo q.sizeBytes = slice buf lo q.sizeBytes := by
    have := congrArg (List.drop lo) h.front
    rwa [List.drop_take, List.drop_take, Nat.add_sub_cancel_left] at this
  refine ⟨h.length, hfront, ?_, ?_, List.Forall₂.cons ⟨rfl, Or.inr ?_⟩ h.each⟩
  · have := h.count
    simp only [heldSizes_kept, sizes, List.map_cons, List.sum_cons] at this ⊢
    omega
  · rw [heldSizes_kept, slice_add, h.octets, hown, retainedOctets_kept, hq]
  · exact ⟨lo, congrArg some hq, rfl, by rw [hq]; exact hown⟩

theorem drop {buf : Bytes} {ps : List Stored} {lo : Nat} {r : Nat × List Held × Bytes} (k : Nat)
    (hc : Consecutive lo ps) (hroom : lo + sizes ps ≤ buf.length)
    (h : Leaves (deletePacketData buf (ps.take k) (ps.drop k)).2.1
      (deletePacketData buf (ps.take k) (ps.drop k)).2.2 lo r) :
    Leaves buf ps lo ((deletePacketData buf (ps.take k) (ps.drop k)).1 + r.1,
      (ps.take k).map Stored.deleted ++ r.2.1, r.2.2) := by
  have hcut := List.take_append_drop k ps
  have hs : ShiftedTo buf (ps.drop k) lo (deletePacketData buf (ps.take k) (ps.drop k)).2 :=
    deletePacketData_spec (hcut.symm ▸ hc) (hcut.symm ▸ hroom)
  have hall : sizes ps = sizes (ps.take k) + sizes (ps.drop k) := by rw [← sizes_append, hcut]
  refine ⟨h.length.trans hs.length, h.front.trans hs.front, ?_, ?_, ?_⟩
  · have := h.count
    rw [sizes_moved hs.moved] at this
    rw [deletePacketData_count, heldSizes_deleted]
    dsimp only
    omega
  · have hmoved := retainedOctets_moved hs.moved r.2.1
    rw [← retainedOctets_deleted buf (ps.take k), hcut] at hmoved
    rw [heldSizes_deleted, h.octets, hmoved]
  · have := outcome_deleted (ps.take k) (outcome_moved hs.moved h.each)
    rwa [hcut] at this

end Leaves

/-- The packets behind a deleted unit still follow each other, in a buffer of
the same size. -/
theorem deleteUnit_rest {q : Stored} {qs : List Stored} {buf : Bytes} {lo k : Nat} (hpos : 0 < k)
    (hc : Consecutive lo (q :: qs)) (hroom : lo + sizes (q :: qs) ≤ buf.length) :
    let d := deletePacketData buf ((q :: qs).take k) ((q :: qs).drop k)
    d.2.2.length ≤ qs.length ∧ Consecutive lo d.2.2 ∧ lo + sizes d.2.2 ≤ d.2.1.length := by
  have hcut := List.take_append_drop k (q :: qs)
  have hs := deletePacketData_spec (hcut.symm ▸ hc) (hcut.symm ▸ hroom)
  refine ⟨?_, hs.consecutive, ?_⟩
  · rw [← hs.moved.length_eq, List.length_drop, List.length_cons]
    omega
  · rw [← hcut, sizes_append] at hroom
    rw [hs.length, sizes_moved hs.moved]
    omega

theorem decodableFrom_leaves (fuel : Nat) (prev : UInt16) {ps : List Stored} {buf : Bytes}
    {lo : Nat} (hf : ps.length ≤ fuel) (hc : Consecutive lo ps)
    (hroom : lo + sizes ps ≤ buf.length) : Leaves buf ps lo (decodableFrom fuel prev ps buf) := by
  induction fuel generalizing prev ps buf lo with
  | zero =>
    obtain rfl := List.eq_nil_of_length_eq_zero (Nat.le_zero.1 hf)
    exact Leaves.stop buf lo
  | succ fuel ih =>
    cases ps with
    | nil => exact Leaves.stop buf lo
    | cons q qs =>
      have hf : qs.length ≤ fuel := Nat.le_of_succ_le_succ hf
      rw [decodableFrom]
      split
      · rename_i hcond
        simp only [Bool.and_eq_true, Bool.not_eq_true'] at hcond
        obtain ⟨hlen, hc', hroom'⟩ := deleteUnit_rest (findNaluEnd_pos hcond.1) hc hroom
        exact Leaves.drop _ hc hroom (ih _ (Nat.le_trans hlen hf) hc' hroom')
      · rw [sizes_cons, ← Nat.add_assoc] at hroom
        exact Leaves.keep hc.1 (ih _ hf hc.2 hroom)

theorem makeDecodable_leaves {ps : List Stored} {buf : Bytes} (hc : Consecutive 0 ps)
    (hroom : sizes ps ≤ buf.length) : Leaves buf ps 0 (makeDecodable ps buf) := by
  rw [← Nat.zero_add (sizes ps)] at hroom
  cases ps with
  | nil => exact Leaves.stop buf 0
  | cons q qs =>
    rw [makeDecodable]
    split
    · rename_i hcond
      have hstart : startsNalu q.pkt = false := by
        rcases Bool.or_eq_true_iff.1 hcond with h | h <;> simp [startsNalu, beq_iff_eq.1 h]
      obtain ⟨hlen, hc', hroom'⟩ := deleteUnit_rest (findNaluEnd_pos hstart) hc hroom
      exact Leaves.drop _ hc hroom (decodableFrom_leaves _ _ hlen hc' hroom')
    · rw [sizes_cons, ← Nat.add_assoc] at hroom
      exact Leaves.keep hc.1 (decodableFrom_leaves _ _ (Nat.le_refl _) hc.2 hroom)

/-! ## What the loop keeps -/

/-- A retained packet that continues a unit stands behind a retained packet
with the number before. -/
def Link (a b : Held) : Prop :=
  b.retained = true → startsNalu b.pkt = false → a.retained = true ∧ a.pkt.seqNum + 1 = b.pkt.seqNum

/-- A packet whose unit was deleted may only be followed in sequence by the
start of a unit. -/
def Clean (a : Held) (ps : List VCMPacket) : Prop :=
  a.retained = true ∨ ∀ b, ps.head? = some b → a.pkt.seqNum + 1 = b.seqNum → startsNalu b = true

theorem link_deleted (a : Held) (q : Stored) : Link a q.deleted := fun h => Bool.noConfusion h

theorem links_deleted (a : Held) {del : List Stored} {d : Stored} {hs : List Held}
    (h : ((del.getLastD d).deleted :: hs).IsChain Link) (hne : del ≠ []) :
    (a :: (del.map Stored.deleted ++ hs)).IsChain Link := by
  induction del generalizing a d with
  | nil => exact absurd rfl hne
  | cons q del ih =>
    rw [List.map_cons, List.cons_append, List.isChain_cons_cons]
    refine ⟨link_deleted a q, ?_⟩
    rw [List.getLastD_cons] at h
    cases del with
    | nil => exact h
    | cons r del => exact ih q.deleted h (List.cons_ne_nil r del)

/-- What deleting the first unit of `q :: qs` leaves for the rest of the loop. -/
theorem deleteUnit_clean {q : Stored} {qs : List Stored} (buf : Bytes)
    (hc : ((q :: qs).map Stored.pkt).IsChain Consistent) :
    let k := findNaluEnd (q :: qs)
    let d := deletePacketData buf ((q :: qs).take k) ((q :: qs).drop k)
    (d.2.2.map Stored.pkt).IsChain Consistent ∧
      Clean (((q :: qs).take k).getLastD q).deleted (d.2.2.map Stored.pkt) := by
  intro k d
  rw [deletePacketData_pkts]
  refine ⟨List.map_drop ▸ hc.drop k, Or.inr fun b hb hs => ?_⟩
  rw [List.head?_map, Option.map_eq_some_iff] at hb
  obtain ⟨b, hb, rfl⟩ := hb
  exact findNaluEnd_next (List.isChain_map _ |>.1 hc) hb hs

theorem decodableFrom_links (fuel : Nat) {a : Held} {ps : List Stored} {buf : Bytes}
    (hc : (ps.map Stored.pkt).IsChain Consistent) (ha : Clean a (ps.map Stored.pkt)) :
    (a :: (decodableFrom fuel a.pkt.seqNum ps buf).2.1).IsChain Link := by
  induction fuel generalizing a ps buf with
  | zero => exact List.isChain_singleton a
  | succ fuel ih =>
    cases ps with
    | nil => exact List.isChain_singleton a
    | cons q qs =>
      rw [decodableFrom]
      split
      · rename_i hcond
        simp only [Bool.and_eq_true, Bool.not_eq_true'] at hcond
        obtain ⟨hc', hclean⟩ := deleteUnit_clean buf hc
        have hne : (q :: qs).take (findNaluEnd (q :: qs)) ≠ [] := by
          have : 0 < findNaluEnd (q :: qs) := findNaluEnd_pos hcond.1
          simp only [ne_eq, List.take_eq_nil_iff, reduceCtorEq, or_false]
          omega
        exact links_deleted a (ih hc' hclean) hne
      · rename_i hcond
        rw [List.isChain_cons_cons]
        refine ⟨fun _ hstart => ?_, ih (a := q.kept) hc.tail (Or.inl rfl)⟩
        have hseq : a.pkt.seqNum + 1 = q.pkt.seqNum := by
          have hstart : startsNalu q.pkt = false := hstart
          simpa [hstart] using hcond
        refine ⟨ha.resolve_right fun h => ?_, hseq⟩
        exact Bool.false_ne_true (hstart.symm.trans (h q.pkt rfl hseq))

/-- The packets of a frame carry the marks of its NAL units: each packet is the
start, the inside or the end of a unit or a complete one, and neighbours in
sequence agree. -/
structure Marked (ps : List VCMPacket) : Prop where
  set : ∀ p ∈ ps, p.completeNALU ≠ .unset
  chain : ps.IsChain Consistent

theorem starts_of_mark {p : VCMPacket} (h : p.completeNALU ≠ .unset)
    (hi : (p.completeNALU == .incomplete || p.completeNALU == .nend) = false) :
    startsNalu p = true := by
  unfold startsNalu
  cases hm : p.completeNALU with
  | unset => exact absurd hm h
  | complete => rfl
  | start => rfl
  | incomplete => simp [hm] at hi
  | nend => simp [hm] at hi

theorem makeDecodable_links {ps : List Stored} {buf : Bytes} (hm : Marked (ps.map Stored.pkt)) :
    (makeDecodable ps buf).2.1.IsChain Link ∧
      ∀ h, (makeDecodable ps buf).2.1.head? = some h → h.retained = true →
        startsNalu h.pkt = true := by
  cases ps with
  | nil => exact ⟨List.isChain_nil, fun h hh => by cases hh⟩
  | cons q qs =>
    have hc := hm.chain
    rw [makeDecodable]
    split
    · rename_i hcond
      have hstart : startsNalu q.pkt = false := by
        rcases Bool.or_eq_true_iff.1 hcond with h | h <;> simp [startsNalu, beq_iff_eq.1 h]
      obtain ⟨k, hk⟩ := Nat.exists_eq_succ_of_ne_zero (@findNaluEnd_pos q qs hstart).ne'
      obtain ⟨hc', hclean⟩ := deleteUnit_clean buf hc
      have hne : (q :: qs).take (findNaluEnd (q :: qs)) ≠ [] := by simp [hk]
      refine ⟨(links_deleted q.deleted (decodableFrom_links qs.length hc' hclean) hne).tail,
        fun h hh hr => ?_⟩
      dsimp only at hh
      rw [hk, List.take_succ_cons, List.map_cons, List.cons_append, List.head?_cons,
        Option.some.injEq] at hh
      subst hh
      cases hr
    · rename_i hcond
      refine ⟨decodableFrom_links qs.length (a := q.kept) hc.tail (Or.inl rfl), fun h hh _ => ?_⟩
      obtain rfl : q.kept = h := Option.some.inj hh
      exact starts_of_mark (hm.set q.pkt (List.mem_cons_self ..)) (Bool.eq_false_iff.2 hcond)

/-- Retained packets with consecutive numbers lead from the start of a unit to `h`. -/
def Decodable (pre : List Held) (h : Held) : Prop :=
  ∃ pre' s run, pre = pre' ++ s :: run ∧ startsNalu s.pkt = true ∧
    (∀ x ∈ s :: run, x.retained = true) ∧
    (s :: run ++ [h]).IsChain fun a b => a.pkt.seqNum + 1 = b.pkt.seqNum

theorem decodable_of_links {pre : List Held} {h : Held} {post : List Held}
    (hl : (pre ++ h :: post).IsChain Link)
    (hfirst : ∀ x, (pre ++ h :: post).head? = some x → x.retained = true →
      startsNalu x.pkt = true)
    (hr : h.retained = true) (hs : startsNalu h.pkt = false) : Decodable pre h := by
  induction pre using List.reverseRecOn generalizing h post with
  | nil => exact absurd (hfirst h rfl hr) (by rw [hs]; exact Bool.false_ne_true)
  | append_singleton pre a ih =>
    rw [List.append_assoc, List.singleton_append] at hl hfirst
    obtain ⟨har, hseq⟩ := (List.isChain_cons_cons.1 (List.isChain_append.1 hl).2.1).1 hr hs
    by_cases ha : startsNalu a.pkt = true
    · refine ⟨pre, a, [], rfl, ha, fun x hx => ?_, ?_⟩
      · rw [List.mem_singleton.1 hx]; exact har
      · exact List.isChain_pair.2 hseq
    · obtain ⟨pre', s, run, rfl, hst, hret, hchain⟩ := ih hl hfirst har (Bool.eq_false_iff.2 ha)
      refine ⟨pre', s, run ++ [a], by simp, hst, fun x hx => ?_, ?_⟩
      · rw [← List.cons_append, List.mem_append, List.mem_singleton] at hx
        rcases hx with hx | rfl
        · exact hret x hx
        · exact har
      · rw [← List.cons_append, List.append_assoc, List.singleton_append, List.isChain_append]
        rw [List.isChain_append] at hchain
        exact ⟨hchain.1, List.isChain_pair.2 hseq, fun x hx y hy => by
          obtain rfl : a = y := Option.some.inj hy
          exact hchain.2.2 x hx a rfl⟩

/-! ## Reachable sessions -/

/-- The sessions that insertions build, each into whatever frame buffer there
is at that time. -/
inductive Built : Info → Prop
  | reset : Built {}
  | insertPacket {s : Info} (buf : Bytes) (p : VCMPacket) (mode : DecodeErrorMode) (d : FrameData) :
    Built s → Built (insertPacket s buf p mode d).2.1

theorem Built.insertAll {s : Info} (h : Built s) (buf : Bytes) (as : List Arrival) :
    Built (insertAll s buf as).2.1 := by
  induction as generalizing s buf with
  | nil => exact h
  | cons a as ih => exact ih (h.insertPacket buf a.1 a.2.1 a.2.2) _

theorem consecutive_insertPacket {s : Info} (h : Consecutive 0 s.packets) (buf : Bytes)
    (p : VCMPacket) (mode : DecodeErrorMode) (d : FrameData) :
    Consecutive 0 (insertPacket s buf p mode d).2.1.packets := by
  by_cases ht : takes s p = true
  · rw [(insertPacket_buffer ht buf mode d).2]
    rw [← scan_split s.packets p.seqNum, consecutive_append] at h
    rw [consecutive_append]
    refine ⟨h.1, (Nat.zero_add _).symm, ?_⟩
    exact h.2.shift (bufferSize p)
  · rcases insertPacket_not_taken (fun hn => ht (takes_iff.2 hn)) buf mode d with
      ⟨-, he⟩ | ⟨-, he | ⟨-, -, he⟩⟩
    · rw [he]; exact h
    · rw [he]; exact h
    · rw [he, (track_fields s p).1]; exact h

/-- The octets of the packets stand one after the other. -/
theorem Built.contiguous {s : Info} (h : Built s) : Consecutive 0 s.packets := by
  induction h with
  | reset => trivial
  | insertPacket buf p mode d _ ih => exact consecutive_insertPacket ih buf p mode d

/-- **`MakeDecodable` keeps only decodable data.** For every session that
insertions build, with consistent marks and its octets inside the frame
buffer: a packet with octets that starts no unit stands behind retained
packets with consecutive numbers back to the start of one; the count returned
is the difference of the session lengths; the buffer starts with the octets of
the retained packets in order, and each packet is deleted or has its octets. -/
theorem makeDecodable_keeps_decodable {s : Info} (hb : Built s) (buf : Bytes)
    (hm : Marked (s.packets.map Stored.pkt)) (hroom : s.sessionLength ≤ buf.length) :
    let r := makeDecodable s.packets buf
    (∀ pre h post, r.2.1 = pre ++ h :: post → 0 < h.sizeBytes → startsNalu h.pkt = false →
      Decodable pre h) ∧
    r.1 + heldSizes r.2.1 = s.sessionLength ∧
    r.2.2.take (heldSizes r.2.1) = retainedOctets buf s.packets r.2.1 ∧
    List.Forall₂ (Outcome buf r.2.2) s.packets r.2.1 := by
  intro r
  have hl := makeDecodable_leaves hb.contiguous hroom
  obtain ⟨hlinks, hfirst⟩ := @makeDecodable_links _ buf hm
  refine ⟨fun pre h post he hsize hs => ?_, hl.count, hl.octets, hl.each⟩
  have hret : h.retained = true :=
    retained_of_size hl.each (he ▸ List.mem_append_right _ (List.mem_cons_self ..)) hsize
  change r.2.1.IsChain Link at hlinks
  change ∀ h, r.2.1.head? = some h → _ at hfirst
  rw [he] at hlinks hfirst
  exact decodable_of_links hlinks hfirst hret hs

/-- Units 10; 11 to 13; 14 with packet 11 lost: packets 12 and 13 go, and the
octets of 14 move to the front. -/
theorem makeDecodable_keeps_decodable_gap :
    let d : FrameData := ⟨0, 0⟩
    let whole : VideoHeader := { isFirstPacket := false, codec := .h264 ⟨false, true⟩ }
    let part : VideoHeader := { isFirstPacket := false, codec := .h264 ⟨false, false⟩ }
    let as : List Arrival := [(.ofRtp [1, 2] 7 10 false .delta whole, .noErrors, d),
      (.ofRtp [3] 7 12 false .delta part, .noErrors, d),
      (.ofRtp [4, 5] 7 13 true .delta part, .noErrors, d),
      (.ofRtp [6] 7 14 false .delta whole, .noErrors, d)]
    let s := (insertAll {} (List.replicate 16 0) as).2.1
    let out := (insertAll {} (List.replicate 16 0) as).2.2
    (makeDecodable s.packets out).1 + 3 = 6 ∧
      (makeDecodable s.packets out).2.2.take 3 = [1, 2, 6] := by
  intro d whole part as s out
  have hb : Built s := Built.reset.insertAll _ as
  obtain ⟨-, hcount, hbytes, -⟩ := makeDecodable_keeps_decodable hb out
    ⟨by decide, by decide⟩ (by decide)
  have hsize : heldSizes (makeDecodable s.packets out).2.1 = 3 := by decide
  have hlen : s.sessionLength = 6 := by decide
  have hoctets : retainedOctets out s.packets (makeDecodable s.packets out).2.1 = [1, 2, 6] := by
    decide
  rw [hsize] at hcount hbytes
  exact ⟨hcount.trans hlen, hbytes.trans hoctets⟩

end RtcCore.L3.Session
