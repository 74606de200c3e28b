import RtcCore.Core.Loop

/-!
# The bounding set of bitrate requests

`TMMBRHelp::FindTMMBRBoundingSet`: of the requests that were received, each a
bitrate in kbit/s with the overhead of a packet in octets, those that bound the
media rate at some packet rate. A request is a line that falls with the packet
rate; the bounding set is the lower envelope of the lines as far as they are
above zero.

Rates are exact fractions where the code has `float`: it rounds, and can take
two rates for equal of which one is less. The arithmetic before a conversion to
`float` is that of `uint32_t`, also in the difference of an `int` and a
`uint32_t`. A fraction without a denominator is an infinite rate, or none (0/0)
that compares with nothing.

Sets are lists as long as `_sizeOfSet`; a cleared entry is all zero. The bounding
set is a stack, the last member first. What stands behind it in `_boundingSet` is
cleared and not modelled, though `_lengthOfSet` still counts it.
-/
namespace RtcCore.L2.TmmbrHelp

/-! ## Sets -/

/-- mirrors webrtc/modules/rtp_rtcp/source/tmmbr_help.h:63-69 -/
structure SetElement where
  tmmbr : UInt32
  packetOH : UInt32
  ssrc : UInt32
  deriving DecidableEq, Repr

abbrev TmmbrSet := List SetElement

/-- What `ClearEntry` leaves. -/
def cleared : SetElement := ⟨0, 0, 0⟩

/-- `_data.at(i)`; every index is inside. -/
def entry (set : TmmbrSet) (i : Nat) : SetElement := set[i]?.getD cleared

def isSet (e : SetElement) : Bool := decide (0 < e.tmmbr)

/-! ## Rates -/

/-- The quotient that the code rounds to `float`. -/
structure Rate where
  num : Nat
  den : Nat
  deriving DecidableEq, Repr

namespace Rate

def isNan (a : Rate) : Bool := decide (a.num = 0 ∧ a.den = 0)

def lt (a b : Rate) : Bool := decide (a.num * b.den < b.num * a.den)

def le (a b : Rate) : Bool :=
  !a.isNan && !b.isNan && decide (a.num * b.den ≤ b.num * a.den)

end Rate

/-- Where the lines of the current and of the last tuple cross.
mirrors webrtc/modules/rtp_rtcp/source/tmmbr_help.cc:399-403 -/
def packetRate (cur last : SetElement) : Rate where
  num := (cur.tmmbr - last.tmmbr).toNat * 1000
  den := (8 * (cur.packetOH - last.packetOH)).toNat

/-- Where the line of a tuple falls to zero.
mirrors webrtc/modules/rtp_rtcp/source/tmmbr_help.cc:428-430 -/
def maxPacketRate (e : SetElement) : Rate where
  num := (e.tmmbr * 1000).toNat
  den := (8 * e.packetOH).toNat

/-! ## Steps 1 to 4 -/

/-- The inner loop of the sort, which makes `n` comparisons. -/
def bubble : Nat → TmmbrSet → TmmbrSet
  | n + 1, a :: b :: rest =>
    if a.packetOH > b.packetOH then b :: bubble n (a :: rest) else a :: bubble n (b :: rest)
  | _, set => set

/-- Sort by increasing packet overhead.
mirrors webrtc/modules/rtp_rtcp/source/tmmbr_help.cc:273-282 -/
def sortByOH : Nat → TmmbrSet → TmmbrSet
  | 0, set => set
  | i + 1, set => sortByOH i (bubble i set)

/-- The index of the lowest bitrate among those behind `i` with the same overhead.
mirrors webrtc/modules/rtp_rtcp/source/tmmbr_help.cc:289-302 -/
def lowestFrom (set : TmmbrSet) (i : Nat) : Nat :=
  ((List.range set.length).drop (i + 1)).foldl (fun m j =>
    if (entry set j).packetOH = (entry set i).packetOH ∧ (entry set j).tmmbr < (entry set m).tmmbr
    then j else m) i

/-- For tuples with the overhead of `i`, keep the one with the lowest bitrate.
mirrors webrtc/modules/rtp_rtcp/source/tmmbr_help.cc:286-312 -/
def keepLowest (set : TmmbrSet) (i : Nat) : TmmbrSet :=
  if isSet (entry set i) then
    set.mapIdx fun j e =>
      if e.packetOH = (entry set i).packetOH ∧ j ≠ lowestFrom set i then cleared else e
  else set

def keepLowestAll (set : TmmbrSet) : TmmbrSet := (List.range set.length).foldl keepLowest set

/-- The index of the lowest bitrate, of the last one if there are several.
mirrors webrtc/modules/rtp_rtcp/source/tmmbr_help.cc:316-336 -/
def minIndex (set : TmmbrSet) : Nat :=
  (List.range set.length).foldl (fun m i =>
    if isSet (entry set i) ∧ (entry set i).tmmbr ≤ (entry set m).tmmbr then i else m)
    ((set.findIdx? isSet).getD 0)

/-- Tuples with a lower overhead than the first member are discarded.
mirrors webrtc/modules/rtp_rtcp/source/tmmbr_help.cc:358-361 -/
def isDiscarded (first e : SetElement) : Bool := isSet e && decide (e.packetOH < first.packetOH)

/-! ## Steps 5 to 9 -/

/-- A member of `_boundingSet` with its entries in the two arrays of rates. -/
structure Selected where
  tuple : SetElement
  intersection : Rate
  maxPR : Rate
  deriving DecidableEq, Repr

structure Selection where
  numCandidates : Nat
  candidateSet : TmmbrSet
  getNewCandidate : Bool
  cur : SetElement
  selected : List Selected
  deriving DecidableEq, Repr

namespace Selection

/-- The first tuple that remains; without one, the current tuple stays what it was.
mirrors webrtc/modules/rtp_rtcp/source/tmmbr_help.cc:380-395 -/
def fetch (s : Selection) : Selection :=
  if s.getNewCandidate then
    match s.candidateSet.findIdx? isSet with
    | none => s
    | some i => { s with cur := entry s.candidateSet i, candidateSet := s.candidateSet.set i cleared }
  else s

/-- Steps 6 to 8; there is no value to read below an empty bounding set.
mirrors webrtc/modules/rtp_rtcp/source/tmmbr_help.cc:397-435 -/
def compare (s : Selection) : Selection :=
  match s.selected with
  | [] => s
  | last :: below =>
    let rate := packetRate s.cur last.tuple
    if rate.le last.intersection then
      -- remove last tuple and goto step 6
      { s with selected := below, getNewCandidate := false }
    else
      { s with
        selected :=
          if rate.lt last.maxPR then ⟨s.cur, rate, maxPacketRate s.cur⟩ :: last :: below
          else last :: below
        numCandidates := s.numCandidates - 1
        getNewCandidate := true }

def body (s : Selection) : Selection := s.fetch.compare

/-- An index of -1 ends the loop with an exception. -/
def cond (s : Selection) : Bool := decide (0 < s.numCandidates) && !s.selected.isEmpty

def measure (s : Selection) : Nat := 2 * s.numCandidates + s.selected.length

end Selection

/-- The members of a bounding set in their order; none after an exception. -/
def members (selected : List Selected) : Option TmmbrSet :=
  if selected.isEmpty then none else some (selected.reverse.map (·.tuple))

/-- mirrors webrtc/modules/rtp_rtcp/source/tmmbr_help.cc:248-441 -/
def findBoundingSetOf (numCandidates : Nat) (candidateSet : TmmbrSet) : Option TmmbrSet :=
  if numCandidates = 1 then
    let boundingSet := candidateSet.filter isSet
    if boundingSet.length = 1 then some boundingSet else none
  else
    let set := keepLowestAll (sortByOH candidateSet.length candidateSet)
    let first := entry set (minIndex set)
    let set := set.set (minIndex set) cleared
    let s : Selection := {
      numCandidates := numCandidates - 1 - set.countP (isDiscarded first)
      candidateSet := set.map fun e => if isDiscarded first e then cleared else e
      getNewCandidate := true
      cur := cleared
      selected := [⟨first, ⟨0, 1⟩, maxPacketRate first⟩] }
    members (runWhile Selection.cond Selection.body s.measure s).selected

/-- `FindTMMBRBoundingSet`: the members that the returned number counts; none for -1.
mirrors webrtc/modules/rtp_rtcp/source/tmmbr_help.cc:204-245 -/
def findTmmbrBoundingSet (candidates : TmmbrSet) : Option TmmbrSet :=
  let set := candidates.filter isSet
  if set.length > 0 then do
    let boundingSet ← findBoundingSetOf set.length
      (set ++ List.replicate (candidates.length - set.length) cleared)
    if boundingSet.length < 1 ∨ boundingSet.length > candidates.length then none
    else some boundingSet
  else some []

end RtcCore.L2.TmmbrHelp
