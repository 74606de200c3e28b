import Mathlib.Algebra.Order.Ring.Int
import Mathlib.Algebra.Order.Ring.Nat
import Mathlib.Data.UInt
import RtcCore.Core.Neighbours
import RtcCore.Core.Int32
import RtcCore.Core.Machine
import RtcCore.Core.Serial

/-!
# `InterArrival`

Packets are collected in groups by their timestamps, and each group that is
complete is compared with the one before. A packet is in order when it is not
before the first one of the group, and in a burst when it arrives soon after
the last one although its timestamp is much later. So a burst may leave the
group's latest timestamp far ahead of its first, and a packet in between opens
a group that lies behind.

Results:
* `arrive_opens`, `arrive_joins`: what a packet in order does to the groups.
* `run_forward`: as long as no packet opens a group behind the last one or
  takes it half a circle ahead, every packet in order is in exactly one group
  and the deltas of neighbouring groups are forward and add up.
* `burst_overtakes`: a packet behind a burst makes the delta wrap.
-/
namespace RtcCore.L2

open Serial

/-- What `ComputeDeltas` is told of a packet. -/
structure ArrivedPacket where
  timestamp : UInt32
  arrivalTimeMs : Int
  size : Nat
  deriving DecidableEq, Repr

/-- mirrors webrtc/modules/remote_bitrate_estimator/inter_arrival.h:47-62 -/
structure TimestampGroup where
  size : Nat := 0
  firstTimestamp : UInt32 := 0
  timestamp : UInt32 := 0
  completeTimeMs : Int := -1
  deriving DecidableEq, Repr

def TimestampGroup.isFirstPacket (g : TimestampGroup) : Bool := g.completeTimeMs = -1

/-- mirrors webrtc/modules/remote_bitrate_estimator/inter_arrival.h:75-79 -/
structure InterArrival where
  timestampGroupLengthTicks : UInt32
  currentTimestampGroup : TimestampGroup := {}
  prevTimestampGroup : TimestampGroup := {}
  timestampToMsCoeff : Rat
  burstGrouping : Bool
  deriving DecidableEq

/-- What `ComputeDeltas` reports. -/
structure Deltas where
  timestampDelta : UInt32
  arrivalTimeDeltaMs : Int
  packetSizeDelta : Int
  deriving DecidableEq, Repr

namespace InterArrival

section Source

variable (s : InterArrival)

/-- mirrors webrtc/modules/remote_bitrate_estimator/inter_arrival.cc:95-106 -/
def packetInOrder (timestamp : UInt32) : Bool :=
  s.currentTimestampGroup.isFirstPacket ||
    decide (timestamp - s.currentTimestampGroup.firstTimestamp < 0x80000000)

/-- mirrors webrtc/modules/remote_bitrate_estimator/inter_arrival.cc:123-138 -/
def belongsToBurst (arrivalTimeMs : Int) (timestamp : UInt32) : Bool :=
  if s.burstGrouping then
    let arrivalTimeDeltaMs := arrivalTimeMs - s.currentTimestampGroup.completeTimeMs
    let timestampDiff := timestamp - s.currentTimestampGroup.timestamp
    let tsDeltaMs := (s.timestampToMsCoeff * timestampDiff.toNat + 1 / 2).floor
    if tsDeltaMs = 0 then true
    else int32 (arrivalTimeDeltaMs - tsDeltaMs) < 0 ∧ arrivalTimeDeltaMs ≤ 5
  else false

/-- mirrors webrtc/modules/remote_bitrate_estimator/inter_arrival.cc:108-121 -/
def newTimestampGroup (arrivalTimeMs : Int) (timestamp : UInt32) : Bool :=
  if s.currentTimestampGroup.isFirstPacket then false
  else if s.belongsToBurst arrivalTimeMs timestamp then false
  else decide (timestamp - s.currentTimestampGroup.firstTimestamp > s.timestampGroupLengthTicks)

/-- The deltas of the current group and the one before it.
mirrors webrtc/modules/remote_bitrate_estimator/inter_arrival.cc:68-77 -/
def deltas : Deltas :=
  { timestampDelta := s.currentTimestampGroup.timestamp - s.prevTimestampGroup.timestamp
    arrivalTimeDeltaMs :=
      s.currentTimestampGroup.completeTimeMs - s.prevTimestampGroup.completeTimeMs
    packetSizeDelta :=
      int32 (int32 s.currentTimestampGroup.size - int32 s.prevTimestampGroup.size) }

/-- The group with one packet more.
mirrors webrtc/modules/remote_bitrate_estimator/inter_arrival.cc:88-90 -/
def accumulate (g : TimestampGroup) (p : ArrivedPacket) : TimestampGroup :=
  { g with
    size := (g.size + p.size) % 18446744073709551616
    completeTimeMs := p.arrivalTimeMs }

/-- mirrors webrtc/modules/remote_bitrate_estimator/inter_arrival.cc:49-93 -/
def computeDeltas (p : ArrivedPacket) : Option Deltas × InterArrival :=
  let current := s.currentTimestampGroup
  if current.isFirstPacket then
    (none,
      { s with
        currentTimestampGroup :=
          accumulate { current with timestamp := p.timestamp, firstTimestamp := p.timestamp } p })
  else if !s.packetInOrder p.timestamp then (none, s)
  else if s.newTimestampGroup p.arrivalTimeMs p.timestamp then
    (if s.prevTimestampGroup.completeTimeMs ≥ 0 then some s.deltas else none,
      { s with
        prevTimestampGroup := current
        currentTimestampGroup :=
          accumulate
            { current with firstTimestamp := p.timestamp, timestamp := p.timestamp, size := 0 } p })
  else
    (none,
      { s with
        currentTimestampGroup :=
          accumulate { current with timestamp := latestTimestamp current.timestamp p.timestamp } p })

end Source

/-! ## Groups of packets -/

def groupSize (g : List ArrivedPacket) : Nat := (g.map (·.size)).sum

/-- The latest of the timestamps, each compared with the latest before it. -/
def groupTimestamp : List ArrivedPacket → UInt32
  | [] => 0
  | p :: ps => ps.foldl (fun t q => latestTimestamp t q.timestamp) p.timestamp

def groupComplete (g : List ArrivedPacket) : Int := (g.getLast?.map (·.arrivalTimeMs)).getD (-1)

/-- What the class keeps of a group. -/
def describe (g : List ArrivedPacket) : TimestampGroup :=
  { size := groupSize g % 18446744073709551616
    firstTimestamp := (g.head?.map (·.timestamp)).getD 0
    timestamp := groupTimestamp g
    completeTimeMs := groupComplete g }

/-- The deltas between two groups, the later one second. -/
def difference (g h : List ArrivedPacket) : Deltas :=
  { timestampDelta := groupTimestamp h - groupTimestamp g
    arrivalTimeDeltaMs := groupComplete h - groupComplete g
    packetSizeDelta := groupSize h - groupSize g }

/-- A run: what was reported, the groups that are complete and the one that is
not, and all packets in order. -/
structure Trace where
  state : InterArrival
  reports : List Deltas := []
  closed : List (List ArrivedPacket) := []
  current : List ArrivedPacket := []
  inOrder : List ArrivedPacket := []
  deriving DecidableEq

def Trace.arrive (t : Trace) (p : ArrivedPacket) : Trace :=
  let r := t.state.computeDeltas p
  let t' := { t with state := r.2, reports := t.reports ++ r.1.toList }
  if !t.state.packetInOrder p.timestamp then t'
  else if t.state.newTimestampGroup p.arrivalTimeMs p.timestamp then
    { t' with closed := t.closed ++ [t.current], current := [p], inOrder := t.inOrder ++ [p] }
  else { t' with current := t.current ++ [p], inOrder := t.inOrder ++ [p] }

def fresh (timestampGroupLengthTicks : UInt32) (timestampToMsCoeff : Rat) (burstGrouping : Bool) :
    InterArrival :=
  { timestampGroupLengthTicks := timestampGroupLengthTicks
    timestampToMsCoeff := timestampToMsCoeff
    burstGrouping := burstGrouping }

def trace (s : InterArrival) (packets : List ArrivedPacket) : Trace :=
  packets.foldl Trace.arrive { state := s }

/-- The reports are the differences of neighbouring groups, forward in time
and on the circle of timestamps, and add up. -/
structure Telescopes (t : Trace) : Prop where
  partition : t.closed.flatten ++ t.current = t.inOrder
  differences : t.reports = neighbours difference t.closed
  forward : ∀ d ∈ t.reports, 1 ≤ d.timestampDelta.toNat ∧ d.timestampDelta.toNat < 2147483648
  arrival : ∀ d ∈ t.reports, 0 ≤ d.arrivalTimeDeltaMs
  sums : ∀ first rest, t.closed = first :: rest → ∀ last, (first :: rest).getLast? = some last →
    (t.reports.map (·.timestampDelta)).sum = groupTimestamp last - groupTimestamp first ∧
      (t.reports.map (·.arrivalTimeDeltaMs)).sum = groupComplete last - groupComplete first ∧
      (t.reports.map (·.packetSizeDelta)).sum = (groupSize last : Int) - groupSize first

/-- A packet whose group stays small, that opens a group only ahead of the
latest timestamp, and joins one less than half the circle ahead of the last
complete group. -/
structure Regular (s : InterArrival) (p : ArrivedPacket) : Prop where
  arrived : 0 ≤ p.arrivalTimeMs
  small : s.packetInOrder p.timestamp = true →
    (if s.newTimestampGroup p.arrivalTimeMs p.timestamp then 0 else s.currentTimestampGroup.size) +
      p.size < 2147483648
  newer : s.packetInOrder p.timestamp = true →
    s.newTimestampGroup p.arrivalTimeMs p.timestamp = true →
    isNewerTimestamp p.timestamp s.currentTimestampGroup.timestamp = true
  near : s.packetInOrder p.timestamp = true →
    s.newTimestampGroup p.arrivalTimeMs p.timestamp = false →
    0 ≤ s.prevTimestampGroup.completeTimeMs →
    latestTimestamp s.currentTimestampGroup.timestamp p.timestamp -
      s.prevTimestampGroup.timestamp < 0x80000000

instance (s : InterArrival) (p : ArrivedPacket) : Decidable (Regular s p) :=
  decidable_of_iff
    (0 ≤ p.arrivalTimeMs ∧
      (s.packetInOrder p.timestamp = true →
        (if s.newTimestampGroup p.arrivalTimeMs p.timestamp then 0
          else s.currentTimestampGroup.size) + p.size < 2147483648) ∧
      (s.packetInOrder p.timestamp = true →
        s.newTimestampGroup p.arrivalTimeMs p.timestamp = true →
        isNewerTimestamp p.timestamp s.currentTimestampGroup.timestamp = true) ∧
      (s.packetInOrder p.timestamp = true →
        s.newTimestampGroup p.arrivalTimeMs p.timestamp = false →
        0 ≤ s.prevTimestampGroup.completeTimeMs →
        latestTimestamp s.currentTimestampGroup.timestamp p.timestamp -
          s.prevTimestampGroup.timestamp < 0x80000000))
    ⟨fun h => ⟨h.1, h.2.1, h.2.2.1, h.2.2.2⟩, fun h => ⟨h.arrived, h.small, h.newer, h.near⟩⟩

/-- Every packet of the run is regular when it arrives. -/
def AllRegular (t : Trace) : List ArrivedPacket → Prop
  | [] => True
  | p :: ps => Regular t.state p ∧ AllRegular (t.arrive p) ps

instance decidableAllRegular (t : Trace) : ∀ ps : List ArrivedPacket, Decidable (AllRegular t ps)
  | [] => .isTrue trivial
  | p :: ps =>
    have := decidableAllRegular (t.arrive p) ps
    inferInstanceAs (Decidable (Regular t.state p ∧ AllRegular (t.arrive p) ps))

/-! ## One packet -/

theorem computeDeltas_reordered {s : InterArrival} {p : ArrivedPacket}
    (h : s.packetInOrder p.timestamp = false) : s.computeDeltas p = (none, s) := by
  have hfirst : s.currentTimestampGroup.isFirstPacket = false := by
    rw [packetInOrder, Bool.or_eq_false_iff] at h
    exact h.1
  simp [computeDeltas, hfirst, h]

theorem computeDeltas_opens {s : InterArrival} {p : ArrivedPacket}
    (h : s.packetInOrder p.timestamp = true)
    (hnew : s.newTimestampGroup p.arrivalTimeMs p.timestamp = true) :
    s.computeDeltas p =
      (if s.prevTimestampGroup.completeTimeMs ≥ 0 then some s.deltas else none,
        { s with
          prevTimestampGroup := s.currentTimestampGroup
          currentTimestampGroup := describe [p] }) := by
  have hfirst : s.currentTimestampGroup.isFirstPacket = false := by
    by_contra hf
    simp [newTimestampGroup, hf] at hnew
  simp [computeDeltas, hfirst, h, hnew, accumulate, describe, groupSize, groupTimestamp,
    groupComplete]

theorem groupSize_append (g : List ArrivedPacket) (p : ArrivedPacket) :
    groupSize (g ++ [p]) = groupSize g + p.size := by
  simp [groupSize]

theorem groupTimestamp_append {g : List ArrivedPacket} (hg : g ≠ []) (p : ArrivedPacket) :
    groupTimestamp (g ++ [p]) = latestTimestamp (groupTimestamp g) p.timestamp := by
  cases g with
  | nil => exact absurd rfl hg
  | cons q g => simp [groupTimestamp]

theorem groupComplete_append (g : List ArrivedPacket) (p : ArrivedPacket) :
    groupComplete (g ++ [p]) = p.arrivalTimeMs := by
  simp [groupComplete]

theorem groupComplete_mem {g : List ArrivedPacket} (hg : g ≠ []) :
    ∃ p ∈ g, groupComplete g = p.arrivalTimeMs :=
  ⟨g.getLast hg, List.getLast_mem hg,
    by simp [groupComplete, List.getLast?_eq_getLast_of_ne_nil hg]⟩

/-- A packet that joins a group, or is the first one. -/
theorem computeDeltas_joins {s : InterArrival} {p : ArrivedPacket} {g : List ArrivedPacket}
    (h : s.packetInOrder p.timestamp = true)
    (hnew : s.newTimestampGroup p.arrivalTimeMs p.timestamp = false)
    (hg : s.currentTimestampGroup = describe g) (harrived : ∀ q ∈ g, 0 ≤ q.arrivalTimeMs) :
    s.computeDeltas p = (none, { s with currentTimestampGroup := describe (g ++ [p]) }) := by
  by_cases hnil : g = []
  · subst hnil
    have hfirst : s.currentTimestampGroup.isFirstPacket = true := by rw [hg]; rfl
    simp only [computeDeltas, hfirst, ↓reduceIte]
    rw [hg]
    simp [accumulate, describe, groupSize, groupTimestamp, groupComplete]
  · obtain ⟨q, hq, hcomplete⟩ := groupComplete_mem hnil
    have hfirst : s.currentTimestampGroup.isFirstPacket = false := by
      have := harrived q hq
      rw [hg]
      simp only [TimestampGroup.isFirstPacket, describe, hcomplete, decide_eq_false_iff_not]
      omega
    have hhead : (g ++ [p]).head? = g.head? := List.head?_append_of_ne_nil g hnil
    simp only [computeDeltas, hfirst, h, hnew, Bool.false_eq_true, ↓reduceIte, Bool.not_true]
    rw [hg]
    simp only [accumulate, describe, groupSize_append, groupTimestamp_append hnil,
      groupComplete_append, hhead, Nat.mod_add_mod]

/-- What holds of a run at any point. -/
structure Traced (t : Trace) : Prop where
  current : t.state.currentTimestampGroup = describe t.current
  prev : t.state.prevTimestampGroup = describe (t.closed.getLast?.getD [])
  started : t.current = [] → t.closed = []
  filled : ∀ g ∈ t.closed, g ≠ []
  arrived : ∀ p ∈ t.inOrder, 0 ≤ p.arrivalTimeMs
  partition : t.closed.flatten ++ t.current = t.inOrder
  small : ∀ g ∈ t.closed ++ [t.current], groupSize g < 2147483648
  differences : t.reports = neighbours difference t.closed
  forward : ∀ d ∈ t.reports, 1 ≤ d.timestampDelta.toNat ∧ d.timestampDelta.toNat < 2147483648
  arrival : ∀ d ∈ t.reports, 0 ≤ d.arrivalTimeDeltaMs
  ahead : ∀ g ∈ t.closed.getLast?,
    1 ≤ (groupTimestamp t.current - groupTimestamp g).toNat ∧
      (groupTimestamp t.current - groupTimestamp g).toNat < 2147483648
  later : ∀ g ∈ t.closed.getLast?, groupComplete g ≤ groupComplete t.current

theorem deltas_eq {s : InterArrival} {g h : List ArrivedPacket}
    (hcurrent : s.currentTimestampGroup = describe h) (hprev : s.prevTimestampGroup = describe g)
    (hg : groupSize g < 2147483648) (hh : groupSize h < 2147483648) :
    s.deltas = difference g h := by
  have hsize : int32 (int32 (groupSize h % 18446744073709551616 : Nat) -
      int32 (groupSize g % 18446744073709551616 : Nat)) = (groupSize h : Int) - groupSize g := by
    rw [Nat.mod_eq_of_lt (by omega), Nat.mod_eq_of_lt (by omega),
      int32_of_fits (n := groupSize h) (by omega) (by omega),
      int32_of_fits (n := groupSize g) (by omega) (by omega), int32_of_fits (by omega) (by omega)]
  simp only [deltas, difference, hcurrent, hprev, describe, hsize]

variable {t : Trace} {p : ArrivedPacket}

theorem Traced.mem_inOrder (h : Traced t) {g : List ArrivedPacket} {q : ArrivedPacket}
    (hg : g ∈ t.closed ++ [t.current]) (hq : q ∈ g) : q ∈ t.inOrder := by
  rw [← h.partition, List.mem_append]
  rcases List.mem_append.mp hg with hg | hg
  · exact .inl (List.mem_flatten.mpr ⟨g, hg, hq⟩)
  · rw [List.mem_singleton.mp hg] at hq
    exact .inr hq

theorem Traced.groupComplete_le (h : Traced t) {g : List ArrivedPacket} (hnil : g ≠ [])
    (hg : g ∈ t.closed ++ [t.current]) {now : Int}
    (hpast : ∀ q ∈ t.inOrder, q.arrivalTimeMs ≤ now) :
    groupComplete g ≤ now := by
  obtain ⟨q, hq, hcomplete⟩ := groupComplete_mem hnil
  rw [hcomplete]
  exact hpast q (h.mem_inOrder hg hq)

/-- The last complete group was completed at a time that is not negative. -/
theorem Traced.prev_complete (h : Traced t) {g : List ArrivedPacket} (hg : g ∈ t.closed.getLast?) :
    0 ≤ t.state.prevTimestampGroup.completeTimeMs := by
  have hmem := List.mem_of_getLast? hg
  obtain ⟨q, hq, hcomplete⟩ := groupComplete_mem (h.filled g hmem)
  rw [h.prev, Option.mem_def.mp hg]
  show 0 ≤ groupComplete g
  rw [hcomplete]
  exact h.arrived q (h.mem_inOrder (List.mem_append_left _ hmem) hq)

theorem arrive_reordered (h : t.state.packetInOrder p.timestamp = false) :
    t.arrive p = t := by
  simp [Trace.arrive, h, computeDeltas_reordered h]

/-- A new group makes the call report the difference of the two before it. -/
theorem Traced.reported (h : Traced t) :
    (if t.state.prevTimestampGroup.completeTimeMs ≥ 0 then some t.state.deltas else none) =
      t.closed.getLast?.map (difference · t.current) := by
  cases hlast : t.closed.getLast? with
  | none =>
    have hprev := h.prev
    rw [hlast] at hprev
    rw [hprev, if_neg (by decide)]
    rfl
  | some g =>
    have hmem := List.mem_of_getLast? hlast
    have hprev := h.prev
    rw [hlast] at hprev
    rw [if_pos (h.prev_complete hlast), deltas_eq h.current hprev
      (h.small g (List.mem_append_left _ hmem))
      (h.small _ (List.mem_append_right _ List.mem_cons_self))]
    rfl

theorem arrive_opens (h : Traced t) (hr : Regular t.state p)
    (hpast : ∀ q ∈ t.inOrder, q.arrivalTimeMs ≤ p.arrivalTimeMs)
    (hin : t.state.packetInOrder p.timestamp = true)
    (hnew : t.state.newTimestampGroup p.arrivalTimeMs p.timestamp = true) : Traced (t.arrive p) := by
  have hnil : t.current ≠ [] := by
    intro hc
    have hcurrent := h.current
    rw [hc] at hcurrent
    have hfirst : t.state.currentTimestampGroup.isFirstPacket = true := by rw [hcurrent]; rfl
    simp [newTimestampGroup, hfirst] at hnew
  have hstep : t.arrive p =
      { state := { t.state with
          prevTimestampGroup := t.state.currentTimestampGroup
          currentTimestampGroup := describe [p] }
        reports := t.reports ++
          (if t.state.prevTimestampGroup.completeTimeMs ≥ 0 then some t.state.deltas else none).toList
        closed := t.closed ++ [t.current]
        current := [p]
        inOrder := t.inOrder ++ [p] } := by
    simp only [Trace.arrive, computeDeltas_opens hin hnew, hin, hnew, Bool.not_true,
      Bool.false_eq_true, ↓reduceIte]
  have hreports := h.reported
  rw [hstep, hreports]
  refine
    { current := rfl
      prev := by simp only [List.getLast?_concat, Option.getD_some, h.current]
      started := fun hc => absurd hc (List.cons_ne_nil _ _)
      filled := ?filled
      arrived := ?arrived
      partition := by simp [← h.partition]
      small := ?small
      differences := ?differences
      forward := ?forward
      arrival := ?arrival
      ahead := ?ahead
      later := ?later }
  case filled =>
    intro g hg
    rcases List.mem_append.mp hg with hg | hg
    · exact h.filled g hg
    · rwa [List.mem_singleton.mp hg]
  case arrived =>
    intro q hq
    rcases List.mem_append.mp hq with hq | hq
    · exact h.arrived q hq
    · rw [List.mem_singleton.mp hq]
      exact hr.arrived
  case small =>
    intro g hg
    rcases List.mem_append.mp hg with hg | hg
    · exact h.small g hg
    · have hsize := hr.small hin
      rw [List.mem_singleton.mp hg]
      simpa [hnew, groupSize] using hsize
  case differences =>
    cases hlast : t.closed.getLast? with
    | none =>
      rw [List.getLast?_eq_none_iff.mp hlast, h.differences, List.getLast?_eq_none_iff.mp hlast]
      rfl
    | some g =>
      obtain ⟨l, hl⟩ := List.getLast?_eq_some_iff.mp hlast
      rw [h.differences, hl, List.append_assoc]
      exact (neighbours_append difference l g t.current).symm
  case forward =>
    intro d hd
    rcases List.mem_append.mp hd with hd | hd
    · exact h.forward d hd
    · obtain ⟨g, hg, rfl⟩ := Option.map_eq_some_iff.mp (Option.mem_toList.mp hd)
      exact h.ahead g hg
  case arrival =>
    intro d hd
    rcases List.mem_append.mp hd with hd | hd
    · exact h.arrival d hd
    · obtain ⟨g, hg, rfl⟩ := Option.map_eq_some_iff.mp (Option.mem_toList.mp hd)
      exact Int.sub_nonneg.mpr (h.later g hg)
  case ahead =>
    intro g hg
    rw [List.getLast?_concat, Option.mem_some_iff] at hg
    have hnewer := newer_toNat (hr.newer hin hnew)
    rw [h.current] at hnewer
    rw [← hg]
    exact hnewer
  case later =>
    intro g hg
    rw [List.getLast?_concat, Option.mem_some_iff] at hg
    rw [← hg]
    exact h.groupComplete_le hnil (List.mem_append_right _ List.mem_cons_self) hpast

theorem arrive_joins (h : Traced t) (hr : Regular t.state p)
    (hpast : ∀ q ∈ t.inOrder, q.arrivalTimeMs ≤ p.arrivalTimeMs)
    (hin : t.state.packetInOrder p.timestamp = true)
    (hnew : t.state.newTimestampGroup p.arrivalTimeMs p.timestamp = false) :
    Traced (t.arrive p) := by
  have hmember (q : ArrivedPacket) (hq : q ∈ t.current) : 0 ≤ q.arrivalTimeMs :=
    h.arrived q (h.mem_inOrder (List.mem_append_right _ List.mem_cons_self) hq)
  have hstep : t.arrive p =
      { t with
        state := { t.state with currentTimestampGroup := describe (t.current ++ [p]) }
        current := t.current ++ [p]
        inOrder := t.inOrder ++ [p] } := by
    simp only [Trace.arrive, computeDeltas_joins hin hnew h.current hmember, hin, hnew,
      Bool.not_true, Bool.false_eq_true, ↓reduceIte, Option.toList_none, List.append_nil]
  rw [hstep]
  refine
    { current := rfl
      prev := h.prev
      started := fun hc => absurd hc (List.append_ne_nil_of_right_ne_nil _ (List.cons_ne_nil _ _))
      filled := h.filled
      arrived := ?arrived
      partition := by simp [← h.partition]
      small := ?small
      differences := h.differences
      forward := h.forward
      arrival := h.arrival
      ahead := ?ahead
      later := ?later }
  case arrived =>
    intro q hq
    rcases List.mem_append.mp hq with hq | hq
    · exact h.arrived q hq
    · rw [List.mem_singleton.mp hq]
      exact hr.arrived
  case small =>
    intro g hg
    rcases List.mem_append.mp hg with hg | hg
    · exact h.small g (List.mem_append_left _ hg)
    · have hsize := hr.small hin
      have hcurrent := h.small _ (List.mem_append_right _ List.mem_cons_self)
      rw [h.current] at hsize
      simp only [hnew, Bool.false_eq_true, ↓reduceIte, describe] at hsize
      rw [List.mem_singleton.mp hg, groupSize_append]
      omega
  case ahead =>
    intro g hg
    have hnil : t.current ≠ [] := fun hc => by
      rw [h.started hc] at hg
      cases hg
    have hnear := hr.near hin hnew (h.prev_complete hg)
    have hahead := h.ahead g hg
    rw [h.current, h.prev, Option.mem_def.mp hg] at hnear
    simp only [Option.getD_some, describe] at hnear
    dsimp only
    rw [groupTimestamp_append hnil]
    refine ⟨?_, hnear⟩
    unfold latestTimestamp
    split
    · exact hahead.1
    · rename_i hnewer
      exact ahead_of_not_newer hnewer hahead
  case later =>
    intro g hg
    rw [groupComplete_append]
    have hmem := List.mem_of_getLast? hg
    exact h.groupComplete_le (h.filled g hmem) (List.mem_append_left _ hmem) hpast

/-! ## Every run -/

theorem traced_fresh (length : UInt32) (coeff : Rat) (burst : Bool) :
    Traced { state := fresh length coeff burst } :=
  { current := rfl
    prev := rfl
    started := fun _ => rfl
    filled := fun _ h => absurd h List.not_mem_nil
    arrived := fun _ h => absurd h List.not_mem_nil
    partition := rfl
    small := fun g hg => by rw [List.mem_singleton.mp hg]; exact Nat.zero_lt_succ _
    differences := rfl
    forward := fun _ h => absurd h List.not_mem_nil
    arrival := fun _ h => absurd h List.not_mem_nil
    ahead := fun _ h => nomatch h
    later := fun _ h => nomatch h }

theorem arrive_traced (h : Traced t) (hr : Regular t.state p)
    (hpast : ∀ q ∈ t.inOrder, q.arrivalTimeMs ≤ p.arrivalTimeMs) : Traced (t.arrive p) := by
  cases hin : t.state.packetInOrder p.timestamp with
  | false => rwa [arrive_reordered hin]
  | true =>
    cases hnew : t.state.newTimestampGroup p.arrivalTimeMs p.timestamp with
    | false => exact arrive_joins h hr hpast hin hnew
    | true => exact arrive_opens h hr hpast hin hnew

theorem arrive_inOrder (t : Trace) (p : ArrivedPacket) :
    (t.arrive p).inOrder = t.inOrder ∨ (t.arrive p).inOrder = t.inOrder ++ [p] := by
  unfold Trace.arrive
  dsimp only
  split
  · exact .inl rfl
  · split
    · exact .inr rfl
    · exact .inr rfl

theorem trace_traced {packets : List ArrivedPacket} (h : Traced t) (hr : AllRegular t packets)
    (hsorted : packets.Pairwise fun q p => q.arrivalTimeMs ≤ p.arrivalTimeMs)
    (hpast : ∀ q ∈ t.inOrder, ∀ p ∈ packets, q.arrivalTimeMs ≤ p.arrivalTimeMs) :
    Traced (packets.foldl Trace.arrive t) := by
  induction packets generalizing t with
  | nil => exact h
  | cons p packets ih =>
    rw [List.pairwise_cons] at hsorted
    refine ih (arrive_traced h hr.1 fun q hq => hpast q hq p List.mem_cons_self) hr.2 hsorted.2
      fun q hq r hrest => ?_
    rcases arrive_inOrder t p with hsame | hmore
    · rw [hsame] at hq
      exact hpast q hq r (List.mem_cons_of_mem _ hrest)
    · rw [hmore] at hq
      rcases List.mem_append.mp hq with hq | hq
      · exact hpast q hq r (List.mem_cons_of_mem _ hrest)
      · rw [List.mem_singleton.mp hq]
        exact hsorted.1 r hrest

theorem Traced.telescopes (h : Traced t) : Telescopes t := by
  refine ⟨h.partition, h.differences, h.forward, h.arrival, fun first rest hclosed last hlast => ?_⟩
  have hlast' : (first :: rest).getLast (List.cons_ne_nil first rest) = last := by
    rw [List.getLast?_eq_getLast_of_ne_nil (List.cons_ne_nil first rest)] at hlast
    exact Option.some.inj hlast
  rw [h.differences, hclosed, map_neighbours, map_neighbours, map_neighbours, ← hlast']
  refine ⟨?_, ?_, ?_⟩
  · exact sum_neighbours (f := fun g h => (difference g h).timestampDelta)
      (fun g => UInt32.sub_self (groupTimestamp g)) (fun g h i => timestamp_telescope ..) first rest
  · exact sum_neighbours (f := fun g h => (difference g h).arrivalTimeDeltaMs)
      (fun g => Int.sub_self _) (fun g h i => by simp only [difference]; omega) first rest
  · exact sum_neighbours (f := fun g h => (difference g h).packetSizeDelta)
      (fun g => Int.sub_self _) (fun g h i => by simp only [difference]; omega) first rest

/-- In every run of packets that arrive one after another, with or without
bursts: as long as each packet is regular when it arrives, the packets in order
are split into groups, and the deltas of neighbouring groups are reported, go
forward and add up to the difference between the first and the last. -/
theorem run_forward (length : UInt32) (coeff : Rat) (burst : Bool) (packets : List ArrivedPacket)
    (hsorted : packets.Pairwise fun q p => q.arrivalTimeMs ≤ p.arrivalTimeMs)
    (hr : AllRegular { state := fresh length coeff burst } packets) :
    Telescopes (trace (fresh length coeff burst) packets) :=
  (trace_traced (traced_fresh length coeff burst) hr hsorted
    fun _ h => absurd h List.not_mem_nil).telescopes

/-- A burst in front of two groups more, at 90 ticks a millisecond. -/
theorem run_forward_burst :
    Telescopes (trace (fresh 450 (1 / 90) true)
      [⟨0, 0, 1200⟩, ⟨9000, 1, 1200⟩, ⟨8500, 3, 1200⟩, ⟨18000, 40, 1200⟩, ⟨27000, 81, 900⟩]) :=
  run_forward 450 (1 / 90) true _ (by decide) (by decide +kernel)

/-- A packet within the timestamps of a burst, but after it: the group it opens
is 8000 ticks behind the burst's. -/
theorem burst_overtakes :
    (trace (fresh 450 (1 / 90) true)
        [⟨0, 0, 1⟩, ⟨9000, 1, 1⟩, ⟨1000, 10, 1⟩, ⟨10000, 20, 1⟩]).reports =
      [⟨4294959296, 9, -1⟩] ∧
    ¬Telescopes (trace (fresh 450 (1 / 90) true)
      [⟨0, 0, 1⟩, ⟨9000, 1, 1⟩, ⟨1000, 10, 1⟩, ⟨10000, 20, 1⟩]) := by
  have hreports : (trace (fresh 450 (1 / 90) true)
      [⟨0, 0, 1⟩, ⟨9000, 1, 1⟩, ⟨1000, 10, 1⟩, ⟨10000, 20, 1⟩]).reports =
      [⟨4294959296, 9, -1⟩] := by decide +kernel
  refine ⟨hreports, fun h => ?_⟩
  have hforward := (h.forward ⟨4294959296, 9, -1⟩ (by rw [hreports]; exact List.mem_cons_self)).2
  exact absurd hforward (by decide)

end InterArrival

end RtcCore.L2
