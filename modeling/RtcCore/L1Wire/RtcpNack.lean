import Mathlib.Data.List.Chain
import RtcCore.Core.GreedyRuns
import RtcCore.Core.Serial
import RtcCore.L1Wire.RtcpSender

/-!
# NACK packets: a list, its items, and the list again

`Nack::WithList` and `RTCPSender::BuildNACK` cut a list of sequence numbers into
greedy runs, one item each: the first number, and a bit for each of the 16
numbers behind it. `RTCPReceiver::HandleNACKItem` expands an item again.
`BuildNACK` stops when the packet is full, and asserts before each item that
the buffer is not full behind it, which it is after the last item when the
position is a multiple of four.

Results:
- `numbers_fields`: the items of an increasing list are expanded to the list.
- `nack_coding`: when `BuildNACK` writes a packet that names the front of the
  list, and when its assertion fails.
-/
namespace RtcCore.L1.Rtcp

open Bytes RtcpPacket GreedyRuns

/-! ## The receiver -/

/-- The loop over `i`, with the number of rounds that are left.
mirrors webrtc/modules/rtp_rtcp/source/rtcp_receiver.cc:822-829 -/
def expandMask (packetID : UInt16) : Nat → UInt16 → List UInt16
  | 0, _ => []
  | n + 1, bitMask =>
    (if bitMask &&& 0x01 ≠ 0 then [packetID + UInt16.ofNat (16 - n)] else []) ++
      expandMask packetID n (bitMask >>> 1)

/-- The packets that are added to the list of packets to send again.
mirrors webrtc/modules/rtp_rtcp/source/rtcp_receiver.cc:814-831 -/
def handleNACKItem (f : NackField) : List UInt16 :=
  f.packetID :: if f.bitMask ≠ 0 then expandMask f.packetID 16 f.bitMask else []

theorem expandMask_zero (pid : UInt16) : ∀ n, expandMask pid n 0 = [] := by
  intro n
  induction n with
  | zero => rfl
  | succ n ih =>
    rw [expandMask, if_neg (by decide), List.nil_append]
    exact ih

theorem expandMask_eq (pid : UInt16) : ∀ (n : Nat) (mask : UInt16), n ≤ 16 →
    expandMask pid n mask = ((List.range n).filter fun i => mask.toNat.testBit i).map
      fun i => pid + UInt16.ofNat (17 - n + i) := by
  intro n
  induction n with
  | zero => exact fun _ _ => rfl
  | succ n ih =>
    intro mask hn
    have hbit : mask &&& 0x01 ≠ 0 ↔ mask.toNat.testBit 0 = true := by
      rw [ne_eq, ← UInt16.toNat_inj, UInt16.toNat_and, Nat.testBit_zero, decide_eq_true_eq]
      show ¬ mask.toNat &&& 1 = 0 ↔ _
      rw [Nat.and_one_is_mod]
      omega
    have hshift : (mask >>> 1).toNat = mask.toNat / 2 := by
      rw [UInt16.toNat_shiftRight]
      exact Nat.shiftRight_eq_div_pow _ 1
    rw [expandMask, ih _ (by omega), List.range_succ_eq_map, List.filter_cons, List.filter_map]
    have hrest : (List.map Nat.succ (List.filter ((fun i => mask.toNat.testBit i) ∘ Nat.succ)
        (List.range n))).map (fun i => pid + UInt16.ofNat (17 - (n + 1) + i)) =
          ((List.range n).filter fun i => (mask >>> 1).toNat.testBit i).map
            fun i => pid + UInt16.ofNat (17 - n + i) := by
      rw [List.map_map, hshift]
      have hfun : ((fun i => pid + UInt16.ofNat (17 - (n + 1) + i)) ∘ Nat.succ) =
          fun i => pid + UInt16.ofNat (17 - n + i) := by
        funext i
        rw [Function.comp_apply]
        congr 2
        omega
      have hfilter : ((fun i => mask.toNat.testBit i) ∘ Nat.succ) =
          fun i => (mask.toNat / 2).testBit i := by
        funext i
        rw [Function.comp_apply, Nat.testBit_div_two]
      rw [hfun, hfilter]
    by_cases hb : mask.toNat.testBit 0 = true
    · rw [if_pos (hbit.2 hb), if_pos hb, List.map_cons, hrest, List.singleton_append]
      congr 3
      omega
    · rw [if_neg (mt hbit.1 hb), if_neg hb, List.nil_append, hrest]

/-- An item is expanded to the numbers it names. -/
theorem handleNACKItem_eq (f : NackField) : handleNACKItem f = f.numbers := by
  have hmask : (if f.bitMask ≠ 0 then expandMask f.packetID 16 f.bitMask else []) =
      expandMask f.packetID 16 f.bitMask := by
    by_cases h0 : f.bitMask = 0
    · rw [if_neg (not_not_intro h0), h0, expandMask_zero]
    · exact if_pos h0
  rw [handleNACKItem, hmask, NackField.numbers, expandMask_eq _ _ _ (Nat.le_refl _)]
  congr 2
  funext i
  rw [UInt16.add_assoc]
  congr 1
  apply UInt16.toNat_inj.1
  rw [UInt16.toNat_add, UInt16.toNat_ofNat', UInt16.toNat_ofNat']
  show (17 - 16 + i) % 2 ^ 16 = (1 + i % 2 ^ 16) % 2 ^ 16
  omega

/-! ## The runs of a list -/

/-- At most 16 behind. -/
def follows (pid n : UInt16) : Bool := decide (1 ≤ (n - pid).toNat ∧ (n - pid).toNat ≤ 16)

/-- Each number is newer than the one before. -/
def Increasing (nackList : List UInt16) : Prop :=
  nackList.IsChain fun a b => Serial.isNewerSequenceNumber b a = true

def field (r : UInt16 × List UInt16) : NackField := ⟨r.1, (nackMask r.1 0 r.2).1⟩

theorem nackMask_cons (pid mask n : UInt16) (ns : List UInt16) : nackMask pid mask (n :: ns) =
    if follows pid n then
      nackMask pid (mask ||| (1 <<< UInt16.ofNat ((n - pid).toNat - 1))) ns
    else (mask, n :: ns) := by
  have hcond : (0 ≤ ((n - pid).toNat : Int) - 1 ∧ ((n - pid).toNat : Int) - 1 ≤ 15) ↔
      follows pid n = true := by
    rw [follows, decide_eq_true_eq]
    omega
  have hshift : (((n - pid).toNat : Int) - 1).toNat = (n - pid).toNat - 1 := by omega
  rw [nackMask]
  rw [hshift]
  by_cases h : follows pid n = true
  · rw [if_pos (hcond.2 h), if_pos h]
  · rw [if_neg (mt hcond.1 h), if_neg h]

/-- What the mask takes is the run. -/
theorem nackMask_eq (pid : UInt16) : ∀ (ns : List UInt16) (mask : UInt16), nackMask pid mask ns =
    ((nackMask pid mask (ns.takeWhile (follows pid))).1, ns.dropWhile (follows pid)) := by
  intro ns
  induction ns with
  | nil => exact fun _ => rfl
  | cons n ns ih =>
    intro mask
    rw [nackMask_cons, List.takeWhile_cons, List.dropWhile_cons]
    split
    · rename_i h
      rw [nackMask_cons, if_pos h]
      exact ih _
    · rfl

theorem nackFieldsFuel_eq : ∀ (fuel : Nat) (l : List UInt16),
    nackFieldsFuel fuel l = (runsFuel follows fuel l).map field := by
  intro fuel
  induction fuel with
  | zero => exact fun _ => rfl
  | succ fuel ih =>
    intro l
    cases l with
    | nil => rfl
    | cons pid ns =>
      rw [nackFieldsFuel, nackMask_eq, runsFuel, List.map_cons, ← ih]
      rfl

/-- The items that `WithList` makes.
mirrors webrtc/modules/rtp_rtcp/source/rtcp_packet.cc:905-927 -/
def withList (nackList : List UInt16) : List NackField := nackFieldsFuel nackList.length nackList

theorem withList_eq (l : List UInt16) : withList l = (runs follows l).map field :=
  nackFieldsFuel_eq _ _

/-! ## Distances in an increasing list -/

theorem follows_iff {pid n : UInt16} :
    follows pid n = true ↔ 1 ≤ Serial.dist pid n ∧ Serial.dist pid n ≤ 16 := decide_eq_true_iff

/-- Along numbers that follow `pid`, the distance from `pid` grows. -/
theorem dist_chain {pid : UInt16} : ∀ {l : List UInt16} {a : UInt16}, Serial.dist pid a ≤ 16 →
    Increasing (a :: l) → (∀ n ∈ l, follows pid n = true) →
    ((a :: l).map (Serial.dist pid)).IsChain (· < ·) := by
  intro l
  induction l with
  | nil => exact fun _ _ _ => .singleton _
  | cons n l ih =>
    intro a ha hinc hf
    have hn := follows_iff.1 (hf n (List.mem_cons_self ..))
    obtain ⟨hrel, hrest⟩ := List.isChain_cons_cons.1 hinc
    rw [Serial.newer_dist pid (by omega) (by omega), decide_eq_true_eq] at hrel
    rw [List.map_cons, List.map_cons]
    refine List.isChain_cons_cons.2 ⟨hrel, ?_⟩
    rw [← List.map_cons]
    exact ih hn.2 hrest fun x hx => hf x (List.mem_cons_of_mem _ hx)

theorem dist_between {pid x c : UInt16} (hx : Serial.dist pid x < Serial.dist pid c)
    (hc : Serial.dist pid c ≤ 16) : follows x c = true := by
  have h1 := pid.toNat_lt
  have h2 := x.toNat_lt
  have h3 := c.toNat_lt
  rw [follows_iff]
  simp only [Serial.dist, UInt16.toNat_sub] at hx hc ⊢
  omega

theorem convex_of_increasing {l : List UInt16} (h : Increasing l) : Convex follows l := by
  intro front a mid c back hl hmid hc x hx
  have hchain : Increasing (a :: (mid ++ [c])) := by
    apply List.IsChain.infix h
    exact ⟨front, back, by rw [hl]; simp⟩
  have hall : ∀ n ∈ mid ++ [c], follows a n = true := by
    intro n hn
    rcases List.mem_append.1 hn with hn | hn
    · exact hmid n hn
    · rwa [List.mem_singleton.1 hn]
  have hself : Serial.dist a a ≤ 16 := by
    rw [Serial.dist_self]
    exact Nat.zero_le _
  have hdist := dist_chain hself hchain hall
  obtain ⟨m₁, m₂, rfl⟩ := List.append_of_mem hx
  refine dist_between ?_ (follows_iff.1 hc).2
  have hpair := List.isChain_iff_pairwise.1 hdist
  simp only [List.map_cons, List.map_append, List.append_assoc, List.cons_append] at hpair
  have htail := (List.pairwise_append.1 (List.pairwise_cons.1 hpair).2).2.1
  exact (List.pairwise_cons.1 htail).1 _ (by simp)

/-! ## What the items of a run name -/

theorem numbers_or {pid mask : UInt16} {s : Nat} (hs : s < 16) (hm : mask.toNat < 2 ^ s) :
    (NackField.mk pid (mask ||| (1 <<< UInt16.ofNat s))).numbers =
      (NackField.mk pid mask).numbers ++ [pid + 1 + UInt16.ofNat s] := by
  obtain ⟨r, hr⟩ : ∃ r, 16 = s + (r + 1) := ⟨15 - s, by omega⟩
  have hhigh : ∀ j, mask.toNat.testBit (s + j) = false := fun j =>
    Nat.testBit_lt_two_pow (Nat.lt_of_lt_of_le hm (Nat.pow_le_pow_right (by decide) (by omega)))
  have hold : (List.range 16).filter (fun i => mask.toNat.testBit i) =
      (List.range s).filter fun i => mask.toNat.testBit i := by
    rw [hr, List.range_add, List.filter_append, List.filter_map]
    simp [Function.comp_def, hhigh]
  have hnew : (List.range 16).filter (fun i => (mask.toNat ||| 2 ^ s).testBit i) =
      ((List.range s).filter fun i => mask.toNat.testBit i) ++ [s] := by
    rw [hr, List.range_add, List.filter_append, List.filter_map]
    congr 1
    · apply List.filter_congr
      intro i hi
      have := List.mem_range.1 hi
      rw [Nat.testBit_or, Nat.testBit_two_pow, decide_eq_false (by omega), Bool.or_false]
    · rw [List.range_succ_eq_map]
      simp [Function.comp_def, hhigh, Nat.testBit_two_pow, List.filter_map]
  rw [NackField.numbers, NackField.numbers]
  dsimp only
  rw [or_shift_toNat hs, hnew, hold, List.map_append, List.cons_append]
  rfl

theorem add_dist (pid n : UInt16) (h : 1 ≤ Serial.dist pid n) :
    pid + 1 + UInt16.ofNat (Serial.dist pid n - 1) = n := by
  have h1 := pid.toNat_lt
  have h2 := n.toNat_lt
  simp only [Serial.dist] at h ⊢
  apply UInt16.toNat_inj.1
  simp only [UInt16.toNat_add, UInt16.toNat_sub, UInt16.toNat_ofNat', UInt16.reduceToNat] at h ⊢
  omega

/-- A mask whose bits stand for numbers up to distance `d` gets bits for the numbers behind. -/
theorem nackMask_list (pid : UInt16) : ∀ (ns : List UInt16) (mask : UInt16) (d : Nat),
    mask.toNat < 2 ^ d → (d :: ns.map (Serial.dist pid)).IsChain (· < ·) →
    (∀ n ∈ ns, follows pid n = true) →
    (NackField.mk pid (nackMask pid mask ns).1).numbers = (NackField.mk pid mask).numbers ++ ns := by
  intro ns
  induction ns with
  | nil =>
    intro mask d _ _ _
    exact (List.append_nil _).symm
  | cons n ns ih =>
    intro mask d hm hchain hf
    have hn := hf n (List.mem_cons_self ..)
    obtain ⟨h1, h16⟩ := follows_iff.1 hn
    obtain ⟨hd, hrest⟩ := List.isChain_cons_cons.1 hchain
    obtain ⟨s, hs⟩ : ∃ s, Serial.dist pid n = s + 1 := ⟨Serial.dist pid n - 1, by omega⟩
    have hlow : mask.toNat < 2 ^ s :=
      Nat.lt_of_lt_of_le hm (Nat.pow_le_pow_right (by decide) (by omega))
    have hnum := @numbers_or pid mask s (by omega) hlow
    have hadd := add_dist pid n h1
    rw [hs, Nat.add_sub_cancel] at hadd
    rw [nackMask_cons, if_pos hn, show (n - pid).toNat = s + 1 from hs, Nat.add_sub_cancel,
      ih _ (s + 1) _ (by rw [← hs]; exact hrest) fun x hx => hf x (List.mem_cons_of_mem _ hx),
      hnum, hadd, List.append_assoc]
    · rfl
    · rw [or_shift_toNat (by omega)]
      apply Nat.or_lt_two_pow
      · exact Nat.lt_trans hlow (Nat.pow_lt_pow_right (by decide) (Nat.lt_succ_self s))
      · exact Nat.pow_lt_pow_right (by decide) (Nat.lt_succ_self s)

theorem field_numbers {r : UInt16 × List UInt16} (hinc : Increasing (r.1 :: r.2))
    (hf : ∀ n ∈ r.2, follows r.1 n = true) : handleNACKItem (field r) = r.1 :: r.2 := by
  have hself : Serial.dist r.1 r.1 = 0 := Serial.dist_self _
  have hchain := dist_chain (by omega) hinc hf
  rw [List.map_cons, hself] at hchain
  rw [handleNACKItem_eq, field, nackMask_list r.1 r.2 0 0 (by decide) hchain hf]
  have hzero : (NackField.mk r.1 0).numbers = [r.1] := by
    simp [NackField.numbers]
  rw [hzero]
  rfl

/-- The items of an increasing list are expanded to the list. -/
theorem numbers_fields {l : List UInt16} (h : Increasing l) :
    (withList l).flatMap handleNACKItem = l := by
  rw [withList_eq]
  have hrun : ∀ r ∈ runs follows l, handleNACKItem (field r) = r.1 :: r.2 := by
    intro r hr
    apply field_numbers
    · apply List.IsChain.infix h
      have hinfix := infix_flat hr
      rwa [flat_runs] at hinfix
    · exact near_runs l r hr
  calc ((runs follows l).map field).flatMap handleNACKItem
      = (runs follows l).flatMap fun r => handleNACKItem (field r) := by rw [List.flatMap_map]
    _ = flat (runs follows l) := by
        rw [flat]
        exact List.flatMap_congr hrun
    _ = l := flat_runs l

/-! ## The packet -/

theorem drop_takeWhile {p : UInt16 → Bool} (l : List UInt16) :
    l.drop (l.takeWhile p).length = l.dropWhile p := by
  conv => lhs; arg 2; rw [← List.takeWhile_append_dropWhile (p := p) (l := l)]
  exact List.drop_left

/-- The loop writes up to `k` items; it fails when the buffer is full behind the last one. -/
theorem buildNackLoop_eq : ∀ (k pos : Nat) (l : List UInt16), buildNackLoop pos k l =
    if min k (runs follows l).length = 0 ∨
        pos + 4 * min k (runs follows l).length < IP_PACKET_SIZE then
      some ((((runs follows l).take k).map field).flatMap createNackField,
        l.drop (flat ((runs follows l).take k)).length)
    else none := by
  intro k
  induction k with
  | zero =>
    intro pos l
    rw [Nat.zero_min, if_pos (Or.inl rfl)]
    cases l <;> rfl
  | succ k ih =>
    intro pos l
    cases l with
    | nil => rfl
    | cons nack ns =>
      have hdrop : (nack :: ns).drop (flat ((runs follows (nack :: ns)).take (k + 1))).length =
          (ns.dropWhile (follows nack)).drop
            (flat ((runs follows (ns.dropWhile (follows nack))).take k)).length := by
        rw [runs_cons, List.take_succ_cons, flat_cons, List.length_cons, List.length_append,
          List.drop_succ_cons, ← List.drop_drop, drop_takeWhile]
      rw [hdrop, runs_cons, List.take_succ_cons, List.length_cons, buildNackLoop, nackMask_eq]
      dsimp only
      rw [ih]
      obtain ⟨m, hm⟩ : ∃ m, m = min k (runs follows (ns.dropWhile (follows nack))).length := ⟨_, rfl⟩
      rw [← hm, show min (k + 1) ((runs follows (ns.dropWhile (follows nack))).length + 1) = m + 1
        by omega]
      by_cases hfit : pos + 4 * (m + 1) < IP_PACKET_SIZE
      · rw [if_pos (by omega), if_pos (by omega), if_pos (Or.inr hfit)]
        rfl
      · rw [if_neg (show ¬(m + 1 = 0 ∨ _) by omega)]
        by_cases hroom : pos + 4 < IP_PACKET_SIZE
        · rw [if_pos hroom, if_neg (by omega)]
          rfl
        · rw [if_neg hroom]

/-- mirrors webrtc/modules/rtp_rtcp/source/rtcp_packet.cc:393-407 -/
def nackPacket (ssrc remoteSSRC : UInt32) (fields : List NackField) : Bytes :=
  createFeedback 1 PT_RTPFB (4 * fields.length) ssrc remoteSSRC (fields.flatMap createNackField)

/-- The packet that the builder creates. -/
theorem Nack.block_eq (p : Nack) :
    p.block = nackPacket p.senderSSRC p.mediaSSRC (withList p.nackList) := rfl

theorem createNackFields_length (fs : List NackField) :
    (fs.flatMap createNackField).length = 4 * fs.length := by
  induction fs with
  | nil => rfl
  | cons f fs ih =>
    rw [List.flatMap_cons, List.length_append, ih, List.length_cons]
    show 4 + _ = _
    omega

theorem nackPacket_length (ssrc remoteSSRC : UInt32) (fs : List NackField) :
    (nackPacket ssrc remoteSSRC fs).length = 12 + 4 * fs.length := by
  rw [nackPacket, createFeedback]
  simp only [List.length_append, createHeader_length, assignUWord32_length,
    createNackFields_length]
  omega

/-- The header of `BuildNACK` is that of the builder. -/
theorem nackPacket_eq (ssrc remoteSSRC : UInt32) {fs : List NackField} (h : fs.length ≤ 253) :
    [0x80 + 1, 205, 0, UInt8.ofNat (2 + (fs.flatMap createNackField).length / 4)] ++
      be32 ssrc.toNat ++ be32 remoteSSRC.toNat ++ fs.flatMap createNackField =
        nackPacket ssrc remoteSSRC fs := by
  have hlen : [0, UInt8.ofNat (2 + (fs.flatMap createNackField).length / 4)] =
      be16 (blockToHeaderLength (kCommonFbFmtLength + 4 * fs.length)) := by
    rw [createNackFields_length, blockToHeaderLength, kCommonFbFmtLength,
      show (12 + 4 * fs.length) / 4 - 1 = 2 + fs.length by omega,
      show 2 + 4 * fs.length / 4 = 2 + fs.length by omega, be16,
      Nat.div_eq_of_lt (show 2 + fs.length < 256 by omega)]
    rfl
  rw [nackPacket, createFeedback, createHeader, ← hlen]
  simp only [List.append_assoc, List.cons_append, List.nil_append]
  rfl

/-- The most items that are written behind `pos`. -/
def maxNackFields (pos : Nat) : Nat := min kRtcpMaxNackFields ((IP_PACKET_SIZE - (pos + 12)) / 4)

/-- The numbers in the items that are written. -/
def written (pos : Nat) (nackList : List UInt16) : List UInt16 :=
  flat ((runs follows nackList).take (maxNackFields pos))

theorem withList_written (pos : Nat) (nackList : List UInt16) : withList (written pos nackList) =
    ((runs follows nackList).take (maxNackFields pos)).map field := by
  rw [withList_eq, written, runs_flat_take]

/-- The number of items that are written. -/
def numOfNackFields (pos : Nat) (nackList : List UInt16) : Nat :=
  min (maxNackFields pos) (runs follows nackList).length

theorem withList_written_length (pos : Nat) (nackList : List UInt16) :
    (withList (written pos nackList)).length = numOfNackFields pos nackList := by
  rw [withList_written, List.length_map, List.length_take, numOfNackFields]

theorem buildNACK_eq {pos : Nat} (ssrc remoteSSRC : UInt32) (nackList : List UInt16)
    (hroom : pos + 16 < IP_PACKET_SIZE) : buildNACK pos ssrc remoteSSRC nackList =
    if numOfNackFields pos nackList = 0 ∨
        pos + 12 + 4 * numOfNackFields pos nackList < IP_PACKET_SIZE then
      .built (nackPacket ssrc remoteSSRC (withList (written pos nackList)), written pos nackList)
    else .fails := by
  have hpre : written pos nackList <+: nackList := flat_take_initial _ nackList
  have hlen := hpre.length_le
  have hmax : (withList (written pos nackList)).length ≤ 253 := by
    rw [withList_written_length]
    exact Nat.le_trans (Nat.min_le_left ..) (Nat.min_le_left ..)
  have hloop := buildNackLoop_eq (maxNackFields pos) (pos + 12) nackList
  rw [← withList_written] at hloop
  change buildNackLoop (pos + 12) (min kRtcpMaxNackFields ((IP_PACKET_SIZE - (pos + 12)) / 4))
    nackList = if numOfNackFields pos nackList = 0 ∨
        pos + 12 + 4 * numOfNackFields pos nackList < IP_PACKET_SIZE then
      some ((withList (written pos nackList)).flatMap createNackField,
        nackList.drop (written pos nackList).length)
    else none at hloop
  rw [buildNACK, if_neg (by omega), hloop]
  by_cases hfit : numOfNackFields pos nackList = 0 ∨
      pos + 12 + 4 * numOfNackFields pos nackList < IP_PACKET_SIZE
  · rw [if_pos hfit, if_pos hfit]
    dsimp only
    rw [nackPacket_eq _ _ hmax, List.length_drop,
      show nackList.length - (nackList.length - (written pos nackList).length) =
        (written pos nackList).length by omega, ← List.prefix_iff_eq_take.1 hpre]
  · rw [if_neg hfit, if_neg hfit]

/-- The packet names the front of the list, all of it if there is room, and ends in the buffer. -/
def NamesFront (pos : Nat) (ssrc remoteSSRC : UInt32) (nackList : List UInt16) : Prop :=
  (IP_PACKET_SIZE ≤ pos + 16 ∧ buildNACK pos ssrc remoteSSRC nackList = .refused) ∨
  ∃ front, buildNACK pos ssrc remoteSSRC nackList =
      .built (nackPacket ssrc remoteSSRC (withList front), front) ∧
    front <+: nackList ∧ (withList front).flatMap handleNACKItem = front ∧
    pos + (nackPacket ssrc remoteSSRC (withList front)).length ≤ IP_PACKET_SIZE ∧
    ((withList nackList).length ≤ maxNackFields pos → front = nackList)

/-- There is no room for an item, or some room is left: the room is not a multiple of
four octets, or there is room for more items than are ever written, or the list
can be cut into fewer runs. -/
def RoomLeft (pos : Nat) (nackList : List UInt16) : Prop :=
  IP_PACKET_SIZE ≤ pos + 16 ∨ (IP_PACKET_SIZE - (pos + 12)) % 4 ≠ 0 ∨
    kRtcpMaxNackFields < (IP_PACKET_SIZE - (pos + 12)) / 4 ∨
    ∃ rs, rs.length < (IP_PACKET_SIZE - (pos + 12)) / 4 ∧ flat rs = nackList ∧ Near follows rs

theorem roomLeft_iff {pos : Nat} {nackList : List UInt16} (h : Increasing nackList)
    (hroom : pos + 16 < IP_PACKET_SIZE) : RoomLeft pos nackList ↔
      (numOfNackFields pos nackList = 0 ∨
        pos + 12 + 4 * numOfNackFields pos nackList < IP_PACKET_SIZE) := by
  have hsize : IP_PACKET_SIZE = 1500 := rfl
  obtain ⟨q, hq⟩ : ∃ q, q = (IP_PACKET_SIZE - (pos + 12)) / 4 := ⟨_, rfl⟩
  have hcut : (∃ rs, rs.length < q ∧ flat rs = nackList ∧ Near follows rs) ↔
      (runs follows nackList).length < q := by
    obtain ⟨k, rfl⟩ : ∃ k, q = k + 1 := ⟨q - 1, by omega⟩
    rw [Nat.lt_succ_iff, runs_length_le_iff (convex_of_increasing h)]
    simp only [Nat.lt_succ_iff]
  rw [RoomLeft, ← hq, hcut, numOfNackFields, maxNackFields, ← hq, kRtcpMaxNackFields]
  clear hcut
  simp only [hsize] at hq hroom ⊢
  omega

/-- The items of an increasing list name its numbers, in order. `BuildNACK`
writes the packet for the front of the list if and only if some room is left;
otherwise its assertion fails. -/
theorem nack_coding (pos : Nat) (ssrc remoteSSRC : UInt32) {nackList : List UInt16}
    (h : Increasing nackList) : (withList nackList).flatMap handleNACKItem = nackList ∧
      (NamesFront pos ssrc remoteSSRC nackList ↔ RoomLeft pos nackList) := by
  refine ⟨numbers_fields h, ?_⟩
  by_cases hroom : IP_PACKET_SIZE ≤ pos + 16
  · exact iff_of_true (Or.inl ⟨hroom, if_pos hroom⟩) (Or.inl hroom)
  · have hpre : written pos nackList <+: nackList := flat_take_initial _ nackList
    rw [roomLeft_iff h (by omega)]
    constructor
    · rintro (⟨hfull, -⟩ | ⟨front, hbuilt, -⟩)
      · exact absurd hfull hroom
      · by_contra hfit
        rw [buildNACK_eq _ _ _ (by omega), if_neg hfit] at hbuilt
        cases hbuilt
    · intro hfit
      refine Or.inr ⟨written pos nackList, ?_, hpre, ?_, ?_, fun hall => ?_⟩
      · rw [buildNACK_eq _ _ _ (by omega), if_pos hfit]
      · exact numbers_fields ( List.IsChain.prefix h hpre)
      · rw [nackPacket_length, withList_written_length]
        omega
      · rw [withList_eq, List.length_map] at hall
        rw [written, List.take_of_length_le hall, flat_runs]

/-- A list over the wrap, with a distance of 16 and one of 17. -/
theorem nack_coding_wrap : (withList [65534, 65535, 14, 15, 32]).flatMap handleNACKItem =
    [65534, 65535, 14, 15, 32] :=
  (nack_coding 0 1 2 (by
    unfold Increasing
    decide)).1

set_option maxRecDepth 4000 in
/-- 179 numbers, each 17 behind the one before it: behind a sender report with 31
report blocks, their items fill the buffer. -/
theorem nack_buffer_full :
    Increasing ((List.range 179).map fun i => UInt16.ofNat (17 * i)) ∧
      buildNACK 772 1 2 ((List.range 179).map fun i => UInt16.ofNat (17 * i)) = .fails := by
  constructor
  · unfold Increasing
    decide
  · rw [buildNACK_eq _ _ _ (by decide), if_neg]
    decide

end RtcCore.L1.Rtcp
