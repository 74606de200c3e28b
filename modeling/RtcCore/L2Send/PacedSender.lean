import Mathlib.Algebra.Order.Ring.Nat
import RtcCore.Core.Heap
import RtcCore.Core.LTS

/-!
# `PacedSender`

The pacer of webrtc/modules/pacing: `PacketQueue` (the packets in a list, the
priority queue of pointers into it, the map of sequence numbers against
duplicates, the byte count), the budgets and the prober, and `Process` cut
where it leaves the critical section for a callback. While a callback is under
way (`sending`) every call may be made, another `Process` included; `returned`
is the return of a callback, with its result.

A pointer into the list is the packet itself: packets differ in their enqueue
order. Two fields only observe: the packets the queue has taken and those whose
callback has succeeded. Whether it is too late for the next probe is left open
(`giveUp`), which leaves out the bitrates of the probes.

Results:
- `pacer_conserves`: in every reachable state each accepted packet is in the
  list or was sent, once; queue, list, map and byte count agree.
-/
namespace RtcCore.L2

/-- mirrors webrtc/modules/pacing/include/paced_sender.h:35-39 -/
inductive Priority where
  | high
  | normal
  | low
  deriving DecidableEq, Repr

def Priority.value : Priority → Nat
  | .high => 0
  | .normal => 2
  | .low => 3

namespace Pacing

/-- mirrors webrtc/modules/pacing/paced_sender.cc:38-65 -/
structure Packet where
  priority : Priority
  ssrc : Nat
  sequenceNumber : Nat
  captureTimeMs : Int
  enqueueTimeMs : Int
  bytes : Nat
  retransmission : Bool
  enqueueOrder : Nat
  deriving DecidableEq, Repr

/-- Whether the first packet comes after the second.
mirrors webrtc/modules/pacing/paced_sender.cc:68-84 -/
def comparator (first second : Packet) : Bool :=
  if first.priority ≠ second.priority then second.priority.value < first.priority.value
  else if second.retransmission && !first.retransmission then true
  else if first.captureTimeMs ≠ second.captureTimeMs then
    second.captureTimeMs < first.captureTimeMs
  else second.enqueueOrder < first.enqueueOrder

/-- mirrors webrtc/modules/pacing/paced_sender.cc:155-167 -/
structure PacketQueue where
  packetList : List Packet := []
  prioQueue : List Packet := []
  bytes : Nat := 0
  dupeMap : List (Nat × List Nat) := []

namespace PacketQueue

variable (q : PacketQueue)

/-- No value: a duplicate.
mirrors webrtc/modules/pacing/paced_sender.cc:133-143 -/
def addToDupeSet (packet : Packet) : Option (List (Nat × List Nat)) :=
  match q.dupeMap.find? (·.1 = packet.ssrc) with
  | none => some ((packet.ssrc, [packet.sequenceNumber]) :: q.dupeMap)
  | some (_, set) =>
    if packet.sequenceNumber ∈ set then none
    else some (q.dupeMap.map fun e =>
      if e.1 = packet.ssrc then (e.1, packet.sequenceNumber :: e.2) else e)

/-- mirrors webrtc/modules/pacing/paced_sender.cc:145-152 -/
def removeFromDupeSet (packet : Packet) : List (Nat × List Nat) :=
  (q.dupeMap.map fun e =>
    if e.1 = packet.ssrc then (e.1, e.2.filter (· ≠ packet.sequenceNumber)) else e).filter
      fun e => !(e.1 = packet.ssrc ∧ e.2 = [])

/-- mirrors webrtc/modules/pacing/paced_sender.cc:92-104 -/
def push (packet : Packet) : PacketQueue :=
  match q.addToDupeSet packet with
  | none => q
  | some dupeMap =>
    { packetList := packet :: q.packetList
      prioQueue := Heap.push comparator q.prioQueue packet
      bytes := (q.bytes + packet.bytes) % 2 ^ 64
      dupeMap := dupeMap }

/-- mirrors webrtc/modules/pacing/paced_sender.cc:106-110 -/
def beginPop : Option (Packet × PacketQueue) :=
  (Heap.pop comparator q.prioQueue).map fun (packet, heap) => (packet, { q with prioQueue := heap })

/-- mirrors webrtc/modules/pacing/paced_sender.cc:112 -/
def cancelPop (packet : Packet) : PacketQueue :=
  { q with prioQueue := Heap.push comparator q.prioQueue packet }

/-- mirrors webrtc/modules/pacing/paced_sender.cc:114-118 -/
def finalizePop (packet : Packet) : PacketQueue :=
  { q with
    dupeMap := q.removeFromDupeSet packet
    bytes := (q.bytes + (2 ^ 64 - packet.bytes % 2 ^ 64)) % 2 ^ 64
    packetList := q.packetList.erase packet }

end PacketQueue

/-- A value in a signed 32-bit integer. -/
def toInt32 (n : Int) : Int := (n + 2147483648) % 4294967296 - 2147483648

/-- mirrors webrtc/modules/pacing/paced_sender.cc:170-205 -/
structure IntervalBudget where
  targetRateKbps : Int
  bytesRemaining : Int := 0

namespace IntervalBudget

variable (b : IntervalBudget)

def increaseBudget (deltaTimeMs : Int) : IntervalBudget :=
  let bytes := (b.targetRateKbps * deltaTimeMs).tdiv 8
  if b.bytesRemaining < 0 then { b with bytesRemaining := toInt32 (b.bytesRemaining + bytes) }
  else { b with bytesRemaining := toInt32 bytes }

def useBudget (bytes : Nat) : IntervalBudget :=
  let lowest := (-500 * b.targetRateKbps).tdiv 8
  { b with bytesRemaining := max (b.bytesRemaining - toInt32 bytes) lowest }

end IntervalBudget

inductive ProbingState where
  | disabled
  | allowedToProbe
  | probing
  | wait
  deriving DecidableEq, Repr

/-- mirrors webrtc/modules/pacing/bitrate_prober.h:50-61 -/
structure BitrateProber where
  probingState : ProbingState := .disabled
  probes : Nat := 0
  packetSizeLastSend : Nat := 0

namespace BitrateProber

variable (p : BitrateProber)

def isProbing : Bool := p.probingState = .probing

def enable : BitrateProber :=
  if p.probingState = .disabled then { p with probingState := .allowedToProbe } else p

/-- mirrors webrtc/modules/pacing/bitrate_prober.cc:55-80 -/
def maybeInitializeProbe : BitrateProber :=
  if p.probingState ≠ .allowedToProbe then p else { p with probes := 11, probingState := .probing }

/-- mirrors webrtc/modules/pacing/bitrate_prober.cc:82-114 -/
def timeUntilNextProbe (giveUp : Bool) : BitrateProber :=
  let p := if p.probingState ≠ .disabled ∧ p.probes = 0 then { p with probingState := .wait } else p
  if p.probes ≠ 0 ∧ p.packetSizeLastSend > 0 ∧ p.probingState = .probing ∧ giveUp then
    { p with probingState := .wait }
  else p

/-- mirrors webrtc/modules/pacing/bitrate_prober.cc:116-124 -/
def packetSent (packetSize : Nat) : BitrateProber :=
  { p with
    packetSizeLastSend := packetSize
    probes := if p.probingState = .probing then p.probes - 1 else p.probes }

end BitrateProber

end Pacing

open Pacing

structure PacedSender where
  enabled : Bool := false
  paused : Bool := false
  probingEnabled : Bool := true
  mediaBudget : IntervalBudget
  paddingBudget : IntervalBudget
  prober : BitrateProber := {}
  timeLastUpdateUs : Int
  packets : PacketQueue := {}
  packetCounter : Nat := 0
  /-- the packets whose callbacks are under way -/
  sending : List Packet := []
  /-- how many padding callbacks are under way -/
  padding : Nat := 0
  accepted : List Packet := []
  sent : List Packet := []

namespace PacedSender

inductive Call where
  | sendPacket (priority : Priority) (ssrc sequenceNumber : Nat) (captureTimeMs : Int)
      (bytes : Nat) (retransmission : Bool) (nowMs : Int)
  | process (nowUs : Int)
  | returned (packet : Packet) (success : Bool)
  | paddingReturned (bytes : Nat)
  | pause
  | resume
  | setStatus (enable : Bool)
  | updateBitrate (maxBitrateKbps minBitrateKbps : Int)
  | timeUntilNextProcess (giveUp : Bool)

variable (s : PacedSender)

/-- mirrors webrtc/modules/pacing/paced_sender.cc:210-229 -/
def create (maxBitrateKbps minBitrateKbps nowUs : Int) (probingEnabled : Bool) : PacedSender where
  probingEnabled := probingEnabled
  mediaBudget := IntervalBudget.increaseBudget ⟨maxBitrateKbps, 0⟩ 5
  paddingBudget := IntervalBudget.increaseBudget ⟨minBitrateKbps, 0⟩ 5
  timeLastUpdateUs := nowUs

/-- mirrors webrtc/modules/pacing/paced_sender.cc:265-286 -/
def sendPacket (priority : Priority) (ssrc sequenceNumber : Nat) (captureTimeMs : Int)
    (bytes : Nat) (retransmission : Bool) (nowMs : Int) : PacedSender :=
  if !s.enabled then s
  else
    let prober := if s.probingEnabled && !s.prober.isProbing then s.prober.enable else s.prober
    let packet : Packet := {
      priority, ssrc, sequenceNumber, bytes, retransmission
      captureTimeMs := if captureTimeMs < 0 then nowMs else captureTimeMs
      enqueueTimeMs := nowMs
      enqueueOrder := s.packetCounter }
    { s with
      prober := prober.maybeInitializeProbe
      packets := s.packets.push packet
      packetCounter := s.packetCounter + 1
      accepted :=
        if (s.packets.addToDupeSet packet).isSome then s.accepted ++ [packet] else s.accepted }

/-- The loop of `Process`, up to the next callback.
mirrors webrtc/modules/pacing/paced_sender.cc:335-361 -/
def sendNext : PacedSender :=
  match s.packets.beginPop with
  | some (packet, packets) =>
    if s.mediaBudget.bytesRemaining ≤ 0 ∧ !s.prober.isProbing then s
    else { s with packets := packets, sending := s.sending ++ [packet] }
  | none =>
    if s.paddingBudget.bytesRemaining > 0 then { s with padding := s.padding + 1 } else s

/-- mirrors webrtc/modules/pacing/paced_sender.cc:323-365 -/
def process (nowUs : Int) : PacedSender :=
  let elapsedTimeMs := (nowUs - s.timeLastUpdateUs + 500).tdiv 1000
  let s := { s with timeLastUpdateUs := nowUs }
  if !s.enabled ∨ s.paused then s
  else if elapsedTimeMs > 0 then
    sendNext { s with
      mediaBudget := s.mediaBudget.increaseBudget (min 30 elapsedTimeMs)
      paddingBudget := s.paddingBudget.increaseBudget (min 30 elapsedTimeMs) }
  else s.sendNext

/-- The callback of a packet returns; `Process` goes on.
mirrors webrtc/modules/pacing/paced_sender.cc:344-353, 367-383 -/
def returned (packet : Packet) (success : Bool) : PacedSender :=
  let s := { s with sending := s.sending.erase packet }
  if success then
    let s := { s with
      prober := s.prober.packetSent packet.bytes
      mediaBudget := s.mediaBudget.useBudget packet.bytes
      paddingBudget := s.paddingBudget.useBudget packet.bytes
      packets := s.packets.finalizePop packet
      sent := s.sent ++ [packet] }
    if s.prober.isProbing then s else s.sendNext
  else { s with packets := s.packets.cancelPop packet }

/-- mirrors webrtc/modules/pacing/paced_sender.cc:385-393 -/
def paddingReturned (bytes : Nat) : PacedSender :=
  { s with
    padding := s.padding - 1
    mediaBudget := s.mediaBudget.useBudget bytes
    paddingBudget := s.paddingBudget.useBudget bytes }

/-- A callback returns only while it is under way. -/
def step : Call → Option PacedSender
  | .sendPacket priority ssrc seq capture bytes retransmission nowMs =>
    some (s.sendPacket priority ssrc seq capture bytes retransmission nowMs)
  | .process nowUs => some (s.process nowUs)
  | .returned packet success =>
    if packet ∈ s.sending then some (s.returned packet success) else none
  | .paddingReturned bytes => if s.padding > 0 then some (s.paddingReturned bytes) else none
  | .pause => some { s with paused := true }
  | .resume => some { s with paused := false }
  | .setStatus enable => some { s with enabled := enable }
  | .updateBitrate maxBitrateKbps minBitrateKbps =>
    some { s with
      mediaBudget := { s.mediaBudget with targetRateKbps := maxBitrateKbps }
      paddingBudget := { s.paddingBudget with targetRateKbps := minBitrateKbps } }
  | .timeUntilNextProcess giveUp =>
    some { s with
      prober := if s.prober.isProbing then s.prober.timeUntilNextProbe giveUp else s.prober }

def lts : LTS PacedSender Call :=
  LTS.ofFn (fun s => ∃ maxRate minRate nowUs probing, s = create maxRate minRate nowUs probing) step

end PacedSender

/-! ## The map against duplicates -/

namespace Pacing

def Packet.key (p : Packet) : Nat × Nat := (p.ssrc, p.sequenceNumber)

def InMap (m : List (Nat × List Nat)) (k : Nat × Nat) : Prop := ∃ e ∈ m, e.1 = k.1 ∧ k.2 ∈ e.2

namespace PacketQueue

variable {q : PacketQueue} {packet : Packet} {m : List (Nat × List Nat)}

theorem find_entry (hn : (m.map Prod.fst).Nodup) {e : Nat × List Nat} (he : e ∈ m) :
    m.find? (·.1 = e.1) = some e := by
  induction m with
  | nil => exact absurd he List.not_mem_nil
  | cons x m ih =>
    obtain ⟨hx, hm⟩ := List.nodup_cons.1 hn
    rcases List.mem_cons.1 he with rfl | he
    · rw [List.find?_cons_of_pos (by simp)]
    · have hne : x.1 ≠ e.1 := fun h => hx (h ▸ List.mem_map_of_mem he)
      rw [List.find?_cons_of_neg (by simpa using hne)]
      exact ih hm he

/-- A packet is refused when one of its number is there. -/
theorem addToDupeSet_none (hn : (q.dupeMap.map Prod.fst).Nodup) :
    q.addToDupeSet packet = none ↔ InMap q.dupeMap packet.key := by
  unfold addToDupeSet
  constructor
  · intro h
    split at h
    · cases h
    · rename_i ssrc set hf
      have hmem := List.mem_of_find?_eq_some hf
      have hkey : ssrc = packet.ssrc := by simpa using List.find?_some hf
      split at h
      · exact ⟨(ssrc, set), hmem, hkey, by assumption⟩
      · cases h
  · rintro ⟨e, he, h1, h2⟩
    have hf := find_entry hn he
    have h1 : e.1 = packet.ssrc := h1
    rw [h1] at hf
    rw [hf]
    exact if_pos h2

theorem addToDupeSet_some {m : List (Nat × List Nat)} (h : q.addToDupeSet packet = some m) :
    (∀ k, InMap m k ↔ k = packet.key ∨ InMap q.dupeMap k) ∧
      ((q.dupeMap.map Prod.fst).Nodup → (m.map Prod.fst).Nodup) := by
  unfold addToDupeSet at h
  split at h
  · rename_i hf
    cases h
    have hnone : ∀ e ∈ q.dupeMap, e.1 ≠ packet.ssrc := by
      intro e he hc
      have := List.find?_eq_none.1 hf e he
      simp [hc] at this
    refine ⟨fun k => ?_, fun hn => ?_⟩
    · constructor
      · rintro ⟨e, he, h1, h2⟩
        rcases List.mem_cons.1 he with rfl | he
        · exact .inl (Prod.ext h1.symm (List.mem_singleton.1 h2))
        · exact .inr ⟨e, he, h1, h2⟩
      · rintro (rfl | ⟨e, he, h1, h2⟩)
        · exact ⟨_, List.mem_cons_self, rfl, List.mem_cons_self⟩
        · exact ⟨e, List.mem_cons_of_mem _ he, h1, h2⟩
    · refine List.nodup_cons.2 ⟨fun hc => ?_, hn⟩
      obtain ⟨e, he, h1⟩ := List.mem_map.1 hc
      exact hnone e he h1
  · rename_i ssrc set hf
    have hmem := List.mem_of_find?_eq_some hf
    have hkey : ssrc = packet.ssrc := by simpa using List.find?_some hf
    split at h
    · cases h
    · cases h
      refine ⟨fun k => ?_, fun hn => ?_⟩
      · constructor
        · rintro ⟨e, he, h1, h2⟩
          obtain ⟨e', he', rfl⟩ := List.mem_map.1 he
          split at h1
          · rename_i hs
            rw [if_pos hs] at h2
            rcases List.mem_cons.1 h2 with h2 | h2
            · exact .inl (Prod.ext (h1.symm.trans hs) h2)
            · exact .inr ⟨e', he', h1, h2⟩
          · rename_i hs
            rw [if_neg hs] at h2
            exact .inr ⟨e', he', h1, h2⟩
        · rintro (rfl | ⟨e, he, h1, h2⟩)
          · refine ⟨(ssrc, packet.sequenceNumber :: set), ?_, hkey, List.mem_cons_self⟩
            exact List.mem_map.2 ⟨(ssrc, set), hmem, if_pos hkey⟩
          · refine ⟨_, List.mem_map_of_mem he, ?_⟩
            split
            · exact ⟨h1, List.mem_cons_of_mem _ h2⟩
            · exact ⟨h1, h2⟩
      · rw [List.map_map]
        have : (Prod.fst ∘ fun e : Nat × List Nat =>
            if e.1 = packet.ssrc then (e.1, packet.sequenceNumber :: e.2) else e) = Prod.fst := by
          funext e
          simp only [Function.comp]
          split <;> rfl
        rw [this]
        exact hn

theorem removeFromDupeSet_inMap (k : Nat × Nat) :
    InMap (q.removeFromDupeSet packet) k ↔ k ≠ packet.key ∧ InMap q.dupeMap k := by
  unfold removeFromDupeSet
  constructor
  · rintro ⟨e, he, h1, h2⟩
    obtain ⟨e', he', rfl⟩ := List.mem_map.1 (List.mem_filter.1 he).1
    split at h1
    · rename_i hs
      rw [if_pos hs] at h2
      obtain ⟨h3, h4⟩ := List.mem_filter.1 h2
      refine ⟨fun hc => ?_, e', he', h1, h3⟩
      rw [hc] at h4
      simp [Packet.key] at h4
    · rename_i hs
      rw [if_neg hs] at h2
      refine ⟨fun hc => hs ?_, e', he', h1, h2⟩
      rw [h1, hc]
      rfl
  · rintro ⟨hne, e, he, h1, h2⟩
    by_cases hs : e.1 = packet.ssrc
    · have hin : k.2 ∈ e.2.filter (· ≠ packet.sequenceNumber) := by
        refine List.mem_filter.2 ⟨h2, decide_eq_true fun hc => hne (Prod.ext ?_ hc)⟩
        rw [← h1, hs]
        rfl
      refine ⟨(e.1, e.2.filter (· ≠ packet.sequenceNumber)), List.mem_filter.2 ⟨?_, ?_⟩, h1, hin⟩
      · exact List.mem_map.2 ⟨e, he, if_pos hs⟩
      · simp only [Bool.not_eq_true', decide_eq_false_iff_not, not_and]
        intro _ hc
        rw [hc] at hin
        exact List.not_mem_nil hin
    · refine ⟨e, List.mem_filter.2 ⟨List.mem_map.2 ⟨e, he, if_neg hs⟩, ?_⟩, h1, h2⟩
      simp [hs]

theorem removeFromDupeSet_nodup (h : (q.dupeMap.map Prod.fst).Nodup) :
    ((q.removeFromDupeSet packet).map Prod.fst).Nodup := by
  unfold removeFromDupeSet
  refine List.Nodup.sublist (List.filter_sublist.map Prod.fst) ?_
  rw [List.map_map]
  have : (Prod.fst ∘ fun e : Nat × List Nat =>
      if e.1 = packet.ssrc then (e.1, e.2.filter (· ≠ packet.sequenceNumber)) else e) =
        Prod.fst := by
    funext e
    simp only [Function.comp]
    split <;> rfl
  rw [this]
  exact h

/-! ## The three structures -/

/-- Queue, list, map and byte count, with the packets `out` on their way. -/
structure InStep (q : PacketQueue) (out : List Packet) : Prop where
  heap : (q.prioQueue ++ out).Perm q.packetList
  keys : (q.packetList.map Packet.key).Nodup
  entries : (q.dupeMap.map Prod.fst).Nodup
  dupes : ∀ k, InMap q.dupeMap k ↔ k ∈ q.packetList.map Packet.key
  bytes : q.bytes = (q.packetList.map (·.bytes)).sum % 2 ^ 64

variable {out : List Packet}

theorem InStep.push (h : q.InStep out) (packet : Packet) : (q.push packet).InStep out := by
  unfold PacketQueue.push
  split
  · exact h
  · rename_i m hm
    obtain ⟨hin, hnodup⟩ := addToDupeSet_some hm
    have hnew : packet.key ∉ q.packetList.map Packet.key := by
      intro hc
      have := (addToDupeSet_none h.entries).2 ((h.dupes packet.key).2 hc)
      rw [hm] at this
      cases this
    refine ⟨?_, List.nodup_cons.2 ⟨hnew, h.keys⟩, hnodup h.entries, fun k => ?_, ?_⟩
    · exact ((Heap.push_perm _ _).append_right out).trans (h.heap.cons packet)
    · rw [hin, h.dupes, List.map_cons, List.mem_cons]
    · dsimp only
      rw [h.bytes, List.map_cons, List.sum_cons]
      omega

theorem InStep.beginPop {q' : PacketQueue} (h : q.InStep out) (hp : q.beginPop = some (packet, q')) :
    q'.InStep (out ++ [packet]) ∧ q'.packetList = q.packetList := by
  obtain ⟨⟨p, heap⟩, hpop, heq⟩ := Option.map_eq_some_iff.1 hp
  cases heq
  refine ⟨⟨?_, h.keys, h.entries, h.dupes, h.bytes⟩, rfl⟩
  refine List.Perm.trans ?_ h.heap
  have h1 := (Heap.pop_perm hpop).symm.append_right out
  refine List.Perm.trans ?_ h1
  rw [← List.append_assoc]
  exact List.perm_append_singleton _ _

theorem InStep.cancelPop (h : q.InStep out) (hin : packet ∈ out) :
    (q.cancelPop packet).InStep (out.erase packet) := by
  refine ⟨?_, h.keys, h.entries, h.dupes, h.bytes⟩
  refine List.Perm.trans ?_ h.heap
  refine ((Heap.push_perm _ _).append_right _).trans ?_
  refine List.Perm.trans ?_ ((List.perm_cons_erase hin).append_left _).symm
  exact List.perm_middle.symm

theorem InStep.mem (h : q.InStep out) (hin : packet ∈ out) : packet ∈ q.packetList :=
  h.heap.mem_iff.1 (List.mem_append_right _ hin)

theorem InStep.finalizePop (h : q.InStep out) (hin : packet ∈ out) :
    (q.finalizePop packet).InStep (out.erase packet) := by
  have hmem := h.mem hin
  have hperm := List.perm_cons_erase hmem
  have hkeys := (hperm.map Packet.key).nodup_iff.1 h.keys
  obtain ⟨hnot, hrest⟩ := List.nodup_cons.1 hkeys
  refine ⟨?_, hrest, removeFromDupeSet_nodup h.entries, fun k => ?_, ?_⟩
  · have h1 : (packet :: (q.prioQueue ++ out.erase packet)).Perm
        (packet :: q.packetList.erase packet) := by
      refine List.Perm.trans ?_ (h.heap.trans hperm)
      exact List.perm_middle.symm.trans ((List.perm_cons_erase hin).append_left _).symm
    exact h1.cons_inv
  · change InMap (q.removeFromDupeSet packet) k ↔ k ∈ (q.packetList.erase packet).map Packet.key
    rw [removeFromDupeSet_inMap, h.dupes, (hperm.map Packet.key).mem_iff, List.map_cons,
      List.mem_cons]
    constructor
    · rintro ⟨hne, hk | hk⟩
      · exact absurd hk hne
      · exact hk
    · intro hk
      exact ⟨fun hc => hnot (hc ▸ hk), .inr hk⟩
  · have hsum := (hperm.map (·.bytes)).sum_nat
    rw [List.map_cons, List.sum_cons] at hsum
    change (q.bytes + (2 ^ 64 - packet.bytes % 2 ^ 64)) % 2 ^ 64 =
      ((q.packetList.erase packet).map (·.bytes)).sum % 2 ^ 64
    rw [h.bytes, hsum]
    omega

end PacketQueue

end Pacing

/-! ## Runs -/

namespace PacedSender

variable {s s' : PacedSender}

structure Inv (s : PacedSender) : Prop where
  inStep : s.packets.InStep s.sending
  split : s.accepted.Perm (s.packets.packetList ++ s.sent)
  orders : (s.accepted.map (·.enqueueOrder)).Nodup
  before : ∀ p ∈ s.accepted, p.enqueueOrder < s.packetCounter

theorem Inv.sendPacket (h : s.Inv) (priority : Priority) (ssrc seq : Nat) (capture : Int)
    (bytes : Nat) (retransmission : Bool) (nowMs : Int) :
    (s.sendPacket priority ssrc seq capture bytes retransmission nowMs).Inv := by
  unfold PacedSender.sendPacket
  split
  · exact h
  · obtain ⟨packet, hpacket⟩ : ∃ p : Packet, p = {
        priority, ssrc, sequenceNumber := seq, bytes, retransmission
        captureTimeMs := if capture < 0 then nowMs else capture
        enqueueTimeMs := nowMs
        enqueueOrder := s.packetCounter } := ⟨_, rfl⟩
    have horder : packet.enqueueOrder = s.packetCounter := by rw [hpacket]
    dsimp only
    rw [← hpacket]
    have hpush := h.inStep.push packet
    cases hadd : s.packets.addToDupeSet packet with
    | none =>
      refine ⟨hpush, ?_, h.orders, fun p hp => Nat.lt_succ_of_lt (h.before p hp)⟩
      rw [PacketQueue.push, hadd]
      exact h.split
    | some m =>
      refine ⟨hpush, ?_, ?_, fun p hp => ?_⟩
      · rw [PacketQueue.push, hadd]
        exact (List.perm_append_singleton packet s.accepted).trans (h.split.cons packet)
      · simp only [Option.isSome_some, if_true, List.map_append, List.map_cons, List.map_nil]
        refine (List.perm_append_singleton _ _).nodup_iff.2 (List.nodup_cons.2 ⟨fun hc => ?_, h.orders⟩)
        obtain ⟨p, hp, he⟩ := List.mem_map.1 hc
        have := h.before p hp
        omega
      · rcases List.mem_append.1 hp with hp | hp
        · exact Nat.lt_succ_of_lt (h.before p hp)
        · rw [List.mem_singleton.1 hp, horder]
          exact Nat.lt_succ_self _

theorem Inv.sendNext (h : s.Inv) : s.sendNext.Inv := by
  unfold PacedSender.sendNext
  split
  · rename_i packet packets hp
    split
    · exact h
    · obtain ⟨hstep, hlist⟩ := h.inStep.beginPop hp
      refine ⟨hstep, ?_, h.orders, h.before⟩
      dsimp only
      rw [hlist]
      exact h.split
  · split
    · exact ⟨h.inStep, h.split, h.orders, h.before⟩
    · exact h

theorem Inv.process (h : s.Inv) (nowUs : Int) : (s.process nowUs).Inv := by
  unfold PacedSender.process
  dsimp only
  split
  · exact ⟨h.inStep, h.split, h.orders, h.before⟩
  · split
    · exact sendNext ⟨h.inStep, h.split, h.orders, h.before⟩
    · exact sendNext ⟨h.inStep, h.split, h.orders, h.before⟩

/-- A packet that has been sent goes over from the list to what was sent. -/
theorem Inv.succeeded (h : s.Inv) {packet : Packet} (hin : packet ∈ s.sending)
    (prober : BitrateProber) (mediaBudget paddingBudget : IntervalBudget) :
    Inv { s with
      sending := s.sending.erase packet
      prober := prober
      mediaBudget := mediaBudget
      paddingBudget := paddingBudget
      packets := s.packets.finalizePop packet
      sent := s.sent ++ [packet] } := by
  have hmem := h.inStep.mem hin
  have hsplit : s.accepted.Perm (s.packets.packetList.erase packet ++ (s.sent ++ [packet])) := by
    refine h.split.trans (((List.perm_cons_erase hmem).append_right s.sent).trans ?_)
    rw [← List.append_assoc]
    exact (List.perm_append_singleton _ _).symm
  exact ⟨h.inStep.finalizePop hin, hsplit, h.orders, h.before⟩

theorem Inv.returned (h : s.Inv) {packet : Packet} (hin : packet ∈ s.sending) (success : Bool) :
    (s.returned packet success).Inv := by
  unfold PacedSender.returned
  cases success with
  | false => exact ⟨h.inStep.cancelPop hin, h.split, h.orders, h.before⟩
  | true =>
    dsimp only
    rw [if_pos rfl]
    split
    · exact h.succeeded hin _ _ _
    · exact sendNext (h.succeeded hin _ _ _)

theorem Inv.step {call : Call} (h : s.Inv) (hs : s.step call = some s') : s'.Inv := by
  unfold PacedSender.step at hs
  cases call with
  | sendPacket priority ssrc seq capture bytes retransmission nowMs =>
    cases hs
    exact h.sendPacket priority ssrc seq capture bytes retransmission nowMs
  | process nowUs =>
    cases hs
    exact h.process nowUs
  | returned packet success =>
    dsimp only at hs
    split at hs
    · cases hs
      exact h.returned ‹_› success
    · cases hs
  | paddingReturned bytes =>
    dsimp only at hs
    split at hs
    · cases hs
      exact ⟨h.inStep, h.split, h.orders, h.before⟩
    · cases hs
  | pause | resume | setStatus | updateBitrate | timeUntilNextProcess =>
    cases hs
    exact ⟨h.inStep, h.split, h.orders, h.before⟩

theorem inv_inductive : lts.Inductive Inv where
  init s hs := by
    obtain ⟨maxRate, minRate, nowUs, probing, rfl⟩ := hs
    refine ⟨⟨.refl _, .nil, .nil, fun k => ?_, rfl⟩, .refl _, .nil, nofun⟩
    constructor
    · rintro ⟨e, he, -⟩
      exact absurd he List.not_mem_nil
    · nofun
  step s call s' h hs := h.step hs

/-- An accepted packet stays in the list until its callback succeeds, and that happens once. The
three structures agree; while callbacks are under way their packets are out of the heap only. -/
structure Conserved (s : PacedSender) : Prop where
  once : (s.accepted.map (·.enqueueOrder)).Nodup ∧ s.sent.Nodup
  known : ∀ p, p ∈ s.accepted ↔ p ∈ s.packets.packetList ∨ p ∈ s.sent
  leaves : ∀ p ∈ s.accepted, p ∈ s.packets.packetList ↔ p ∉ s.sent
  heap : (s.packets.prioQueue ++ s.sending).Perm s.packets.packetList
  quiescent : s.sending = [] → s.packets.prioQueue.Perm s.packets.packetList
  numbers : (s.packets.packetList.map Packet.key).Nodup
  dupes : ∀ k, InMap s.packets.dupeMap k ↔ k ∈ s.packets.packetList.map Packet.key
  bytes : s.packets.bytes = (s.packets.packetList.map (·.bytes)).sum % 2 ^ 64

theorem Inv.nodup (h : s.Inv) : (s.packets.packetList ++ s.sent).Nodup := by
  refine h.split.nodup_iff.1 ((List.pairwise_map.1 h.orders).imp ?_)
  intro p p' hne heq
  exact hne (congrArg _ heq)

theorem Inv.conserved (h : s.Inv) : s.Conserved where
  once := ⟨h.orders, (List.nodup_append.1 h.nodup).2.1⟩
  known p := by rw [h.split.mem_iff, List.mem_append]
  leaves p hp := by
    have hdisj := (List.nodup_append.1 h.nodup).2.2
    rcases List.mem_append.1 (h.split.mem_iff.1 hp) with hl | hl
    · exact ⟨fun _ hsent => hdisj p hl p hsent rfl, fun _ => hl⟩
    · exact ⟨fun hlist _ => hdisj p hlist p hl rfl, fun hns => absurd hl hns⟩
  heap := h.inStep.heap
  quiescent hq := by
    have := h.inStep.heap
    rw [hq, List.append_nil] at this
    exact this
  numbers := h.inStep.keys
  dupes := h.inStep.dupes
  bytes := h.inStep.bytes

theorem pacer_conserves (s : PacedSender) (hr : lts.Reachable s) : s.Conserved :=
  (inv_inductive.reachable s hr).conserved

/-- One packet fails and stays, another is enqueued by the callback, then the first is sent. -/
def retried : List Call :=
  [.setStatus true, .sendPacket .normal 7 1 10 100 false 10, .process 5000,
    .sendPacket .high 7 2 11 50 true 11,
    .returned ⟨.normal, 7, 1, 10, 10, 100, false, 0⟩ false, .process 10000,
    .returned ⟨.high, 7, 2, 11, 11, 50, true, 1⟩ true]

theorem retried_runs : (retried.foldlM step (create 1000 0 0 true)).isSome = true := by
  decide

theorem retried_conserved : ∃ s, lts.Reachable s ∧
    s.packets.packetList.map (·.sequenceNumber) = [1] ∧ s.sent.map (·.sequenceNumber) = [2] ∧
      s.Conserved := by
  have hreach : lts.Reachable ((retried.foldlM step (create 1000 0 0 true)).get retried_runs) :=
    ⟨_, retried, ⟨1000, 0, 0, true, rfl⟩, LTS.Run.of_foldlM (Option.some_get retried_runs).symm⟩
  exact ⟨_, hreach, by decide, by decide, pacer_conserves _ hreach⟩

end PacedSender

end RtcCore.L2
