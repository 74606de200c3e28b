import RtcCore.L2Send.PacedSender

/-!
# The order in which the pacer sends

`comparator` says "retransmissions go first", but only asks whether the second
packet is the retransmission. When the first one is, it goes on to the capture
times, so two packets can each come after the other. `SortsAfter` is the order
that was meant.

Results:
- `pop_order_iff`: the comparator is a strict weak order on the packets of a
  queue, and popping returns them sorted, exactly if no retransmission of a
  priority is younger than a first transmission of the same priority.
- `first_transmission_overtakes`: a queue for which this fails.
-/
namespace RtcCore.L2.Pacing

/-- Priority, then retransmissions, then capture time, then the order of the calls. -/
def SortsAfter (a b : Packet) : Prop :=
  b.priority.value < a.priority.value ∨ b.priority.value = a.priority.value ∧
    ((!b.retransmission).toNat < (!a.retransmission).toNat ∨
      (!b.retransmission).toNat = (!a.retransmission).toNat ∧
        (b.captureTimeMs < a.captureTimeMs ∨ b.captureTimeMs = a.captureTimeMs ∧
          b.enqueueOrder < a.enqueueOrder))

/-- Every retransmission is older than the first transmissions of its priority. -/
def RetransmissionsOlder (l : List Packet) : Prop :=
  ∀ r ∈ l, ∀ f ∈ l, r.priority = f.priority → r.retransmission = true → f.retransmission = false →
    r.captureTimeMs < f.captureTimeMs ∨
      r.captureTimeMs = f.captureTimeMs ∧ r.enqueueOrder ≤ f.enqueueOrder

namespace PacketQueue

def pushAll (q : PacketQueue) (ps : List Packet) : PacketQueue := ps.foldl push q

/-- Popping until the queue is empty. -/
def popAll : Nat → PacketQueue → List Packet
  | 0, _ => []
  | fuel + 1, q =>
    match q.beginPop with
    | none => []
    | some (packet, q) => packet :: popAll fuel (q.finalizePop packet)

end PacketQueue

variable {l : List Packet}

theorem value_eq_iff {p p' : Priority} : p.value = p'.value ↔ p = p' := by
  cases p <;> cases p' <;> decide

/-- Where retransmissions are older the comparator is what was meant. -/
theorem comparator_iff (h : RetransmissionsOlder l) {a b : Packet} (ha : a ∈ l) (hb : b ∈ l) :
    comparator a b = true ↔ SortsAfter a b := by
  unfold comparator SortsAfter
  by_cases hp : a.priority = b.priority
  · rw [if_neg fun hc => hc hp, hp]
    cases hra : a.retransmission <;> cases hrb : b.retransmission <;>
      simp only [Bool.not_true, Bool.not_false, Bool.and_true, Bool.and_false, Bool.and_self,
        Bool.toNat_false, Bool.toNat_true, Nat.lt_irrefl, if_true, false_or, true_and,
        Bool.false_eq_true, if_false, ite_not, Nat.lt_add_one, true_or]
    · split <;> simp only [decide_eq_true_eq] <;> omega
    · -- the first packet is the retransmission
      have := h a ha b hb hp hra hrb
      split <;> simp only [decide_eq_true_eq] <;> omega
    · split <;> simp only [decide_eq_true_eq] <;> omega
  · have hv : a.priority.value ≠ b.priority.value := fun hc => hp (value_eq_iff.1 hc)
    rw [if_pos hp, decide_eq_true_eq]
    omega

theorem comparator_false_iff (h : RetransmissionsOlder l) {a b : Packet} (ha : a ∈ l) (hb : b ∈ l) :
    comparator a b = false ↔ ¬ SortsAfter a b := by
  rw [← comparator_iff h ha hb, Bool.not_eq_true]

theorem strictWeak_of_older (h : RetransmissionsOlder l) : Heap.StrictWeak comparator l where
  irrefl x hx := by
    rw [comparator_false_iff h hx hx, SortsAfter]
    omega
  trans x hx y hy z hz hxy hyz := by
    rw [comparator_iff h hx hy, SortsAfter] at hxy
    rw [comparator_iff h hy hz, SortsAfter] at hyz
    rw [comparator_iff h hx hz, SortsAfter]
    omega
  incomp x hx y hy z hz hxy hyx hyz hzy := by
    rw [comparator_false_iff h hx hy, SortsAfter] at hxy
    rw [comparator_false_iff h hy hx, SortsAfter] at hyx
    rw [comparator_false_iff h hy hz, SortsAfter] at hyz
    rw [comparator_false_iff h hz hy, SortsAfter] at hzy
    rw [comparator_false_iff h hx hz, SortsAfter]
    omega

/-- A younger retransmission and a first transmission come each after the other. -/
theorem older_of_strictWeak (h : Heap.StrictWeak comparator l) : RetransmissionsOlder l := by
  intro r hr f hf hp hrr hff
  have hfr : comparator f r = true := by
    rw [comparator, if_neg fun hc => hc hp.symm, hrr, hff]
    rfl
  have hrf := h.asymm hf hr hfr
  rw [comparator, if_neg fun hc => hc hp, hrr, hff] at hrf
  simp only [Bool.not_true, Bool.and_false, Bool.false_eq_true, if_false, ite_not] at hrf
  split at hrf
  · exact .inr ⟨‹_›, Nat.le_of_not_lt (of_decide_eq_false hrf)⟩
  · have := of_decide_eq_false hrf
    omega

namespace PacketQueue

variable {q : PacketQueue}

theorem pushAll_subset (ps : List Packet) (q : PacketQueue) :
    ∀ p ∈ q.packetList, p ∈ (q.pushAll ps).packetList := by
  induction ps generalizing q with
  | nil => exact fun p hp => hp
  | cons x ps ih =>
    intro p hp
    refine ih (q.push x) p ?_
    unfold push
    split
    · exact hp
    · exact List.mem_cons_of_mem x hp

theorem pushAll_inStep (ps : List Packet) (h : q.InStep []) : (q.pushAll ps).InStep [] := by
  induction ps generalizing q with
  | nil => exact h
  | cons x ps ih => exact ih (h.push x)

theorem pushAll_heap (ps : List Packet) (h : q.InStep []) (hh : Heap.IsHeap comparator q.prioQueue)
    (hw : Heap.StrictWeak comparator (q.pushAll ps).packetList) :
    Heap.IsHeap comparator (q.pushAll ps).prioQueue := by
  induction ps generalizing q with
  | nil => exact hh
  | cons x ps ih =>
    refine ih (h.push x) ?_ hw
    have hw : Heap.StrictWeak comparator (q.push x).packetList :=
      hw.subset (pushAll_subset ps (q.push x))
    have hperm := (h.push x).heap
    rw [List.append_nil] at hperm
    have hw := hw.of_perm hperm.symm
    unfold push at hw ⊢
    split
    · exact hh
    · rename_i m hm
      rw [hm] at hw
      exact hh.push (hw.of_perm (Heap.push_perm _ _))

theorem popAll_eq (fuel : Nat) (q : PacketQueue) :
    q.popAll fuel = Heap.drain comparator fuel q.prioQueue := by
  induction fuel generalizing q with
  | zero => rfl
  | succ fuel ih =>
    unfold popAll Heap.drain beginPop
    cases Heap.pop comparator q.prioQueue with
    | none => rfl
    | some x => exact congrArg (x.1 :: ·) (ih _)

end PacketQueue

theorem empty_inStep : (PacketQueue.mk [] [] 0 []).InStep [] := by
  refine ⟨.refl _, .nil, .nil, fun k => ?_, rfl⟩
  constructor
  · rintro ⟨e, he, -⟩
    exact absurd he List.not_mem_nil
  · nofun

open PacketQueue in
/-- What the pacer's queue promises, and when it keeps it. -/
theorem pop_order_iff (ps : List Packet) :
    (Heap.StrictWeak comparator (pushAll {} ps).packetList ∧
      ((pushAll {} ps).popAll (pushAll {} ps).packetList.length).Perm (pushAll {} ps).packetList ∧
      ((pushAll {} ps).popAll (pushAll {} ps).packetList.length).Pairwise
        fun first second => ¬ SortsAfter first second) ↔
    RetransmissionsOlder (pushAll {} ps).packetList := by
  constructor
  · rintro ⟨hw, -, -⟩
    exact older_of_strictWeak hw
  · intro h
    have hw := strictWeak_of_older h
    have hstep := pushAll_inStep ps empty_inStep
    have hheap := pushAll_heap ps empty_inStep (fun j _ x y hx _ => by simp at hx) hw
    have hperm := hstep.heap
    rw [List.append_nil] at hperm
    have hlen := Nat.le_of_eq hperm.length_eq
    have hdrain := @Heap.drain_perm _ comparator _ _ hlen
    rw [popAll_eq]
    refine ⟨hw, hdrain.trans hperm, ?_⟩
    have hsorted := Heap.drain_sorted _ _ hheap (hw.of_perm hperm.symm) hlen
    refine List.Pairwise.imp_of_mem (fun ha hb hc => ?_) hsorted
    have hall := hdrain.trans hperm
    exact (comparator_false_iff h (hall.mem_iff.1 ha) (hall.mem_iff.1 hb)).1 hc

/-- A retransmission captured at 20, then a first transmission captured at 10. -/
def younger : List Packet :=
  [⟨.normal, 1, 1, 20, 30, 100, true, 0⟩, ⟨.normal, 1, 2, 10, 30, 100, false, 1⟩]

theorem first_transmission_overtakes :
    comparator younger[0] younger[1] = true ∧ comparator younger[1] younger[0] = true ∧
      ¬ Heap.StrictWeak comparator (PacketQueue.pushAll {} younger).packetList ∧
      ((PacketQueue.pushAll {} younger).popAll 2).map (·.retransmission) = [false, true] := by
  refine ⟨by decide, by decide, fun h => ?_, by decide⟩
  have := h.asymm (x := younger[0]) (y := younger[1]) (by decide) (by decide) (by decide)
  exact absurd this (by decide)

end RtcCore.L2.Pacing
