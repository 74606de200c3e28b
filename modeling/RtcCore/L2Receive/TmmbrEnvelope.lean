import Mathlib.Algebra.Order.Ring.Rat
import Mathlib.Data.List.Perm.Subperm
import Mathlib.Data.List.Nodup
import RtcCore.Core.LowerEnvelope
import RtcCore.L2Receive.TmmbrHelp

/-!
# The bounding set is the lower envelope

A request is a line: what is left of its bitrate at a packet rate. The members
of the bounding set are those lines that are the lowest one somewhere above zero
(`LowerEnvelope`). This is so of the exact rates of the model; the code, which
rounds them to `float`, can remove a line that is the lowest one by less.

Results:
- `sortByOH_sorted`, `keepLowestAll_thins`, `minIndex_lowest`: steps 1 to 3.
- `walk_envelope`: steps 5 to 9 put one line after the other onto the stack.
- `findTmmbrBoundingSet_envelope`: the whole search, for requests without a
  difference of bitrates that wraps (`Regular`).
-/
namespace RtcCore.L2.TmmbrHelp

open RtcCore.LowerEnvelope

/-- The bits a second that the overhead leaves of a bitrate at a packet rate. -/
def line (e : SetElement) : Line ℚ where
  start := 1000 * e.tmmbr.toNat
  slope := 8 * e.packetOH.toNat

/-- Neither product of a tuple wraps. -/
def Fits (e : SetElement) : Prop :=
  0 < e.packetOH ∧ 8 * e.packetOH.toNat < 2 ^ 32 ∧ 1000 * e.tmmbr.toNat < 2 ^ 32

/-! ## Rates -/

namespace Rate

def val (a : Rate) : ℚ := a.num / a.den

theorem lt_iff {a b : Rate} (ha : 0 < a.den) (hb : 0 < b.den) : a.lt b = true ↔ a.val < b.val := by
  have ha' : (0 : ℚ) < a.den := Nat.cast_pos.2 ha
  have hb' : (0 : ℚ) < b.den := Nat.cast_pos.2 hb
  rw [lt, decide_eq_true_iff, val, val, div_lt_div_iff₀ ha' hb']
  norm_cast

theorem le_iff {a b : Rate} (ha : 0 < a.den) (hb : 0 < b.den) : a.le b = true ↔ a.val ≤ b.val := by
  have ha' : (0 : ℚ) < a.den := Nat.cast_pos.2 ha
  have hb' : (0 : ℚ) < b.den := Nat.cast_pos.2 hb
  have hna : a.isNan = false := by
    rw [isNan, decide_eq_false_iff_not]
    omega
  have hnb : b.isNan = false := by
    rw [isNan, decide_eq_false_iff_not]
    omega
  rw [le, hna, hnb, val, val, div_le_div_iff₀ ha' hb']
  simp only [Bool.not_false, Bool.true_and, decide_eq_true_iff]
  norm_cast

end Rate

section Compare

variable {c t : SetElement}

theorem packetRate_den (hc : Fits c) (h : t.packetOH < c.packetOH) :
    (packetRate c t).den = 8 * (c.packetOH.toNat - t.packetOH.toNat) := by
  obtain ⟨-, h8, -⟩ := hc
  have hle := UInt32.lt_iff_toNat_lt.1 h
  rw [packetRate]
  simp only [UInt32.toNat_mul, UInt32.toNat_sub_of_le _ _ (UInt32.le_of_lt h)]
  have h8' : (8 : UInt32).toNat = 8 := rfl
  rw [h8', Nat.mod_eq_of_lt (by omega)]

/-- The packet rate of step 6 is where the lines cross. -/
theorem packetRate_val (hc : Fits c) (h : t.packetOH < c.packetOH) (hr : t.tmmbr ≤ c.tmmbr) :
    0 < (packetRate c t).den ∧ (packetRate c t).val = cross (line c) (line t) := by
  have hle := UInt32.lt_iff_toNat_lt.1 h
  have hr' := UInt32.le_iff_toNat_le.1 hr
  rw [Rate.val, packetRate_den hc h]
  refine ⟨by omega, ?_⟩
  rw [cross, line, line, packetRate]
  simp only [UInt32.toNat_sub_of_le _ _ hr]
  push_cast [Nat.cast_sub hle.le, Nat.cast_sub hr']
  congr 1 <;> ring

theorem maxPacketRate_val (ht : Fits t) : 0 < (maxPacketRate t).den ∧
    (maxPacketRate t).val = (line t).start / (line t).slope := by
  obtain ⟨hpos, h8, h1000⟩ := ht
  have hpos' := UInt32.lt_iff_toNat_lt.1 hpos
  have hnum : (maxPacketRate t).num = 1000 * t.tmmbr.toNat := by
    rw [maxPacketRate]
    have h : (1000 : UInt32).toNat = 1000 := rfl
    simp only [UInt32.toNat_mul]
    rw [h, Nat.mod_eq_of_lt (by omega), Nat.mul_comm]
  have hden : (maxPacketRate t).den = 8 * t.packetOH.toNat := by
    rw [maxPacketRate]
    have h : (8 : UInt32).toNat = 8 := rfl
    simp only [UInt32.toNat_mul]
    rw [h, Nat.mod_eq_of_lt (by omega)]
  rw [Rate.val, hnum, hden, line]
  refine ⟨by simpa using hpos', by push_cast; rfl⟩

/-- Step 8 asks which line falls to zero first. -/
theorem lt_maxPacketRate (hc : Fits c) (ht : Fits t) (h : t.packetOH < c.packetOH)
    (hr : t.tmmbr ≤ c.tmmbr) :
    (packetRate c t).lt (maxPacketRate t) = true ↔ Before (line c) (line t) := by
  obtain ⟨hd, hv⟩ := packetRate_val hc h hr
  obtain ⟨hd', hv'⟩ := maxPacketRate_val ht
  have hslope : (line t).slope < (line c).slope := by
    have := UInt32.lt_iff_toNat_lt.1 h
    rw [line, line]
    exact mul_lt_mul_of_pos_left (Nat.cast_lt.2 this) (by norm_num)
  have hpos : 0 < (line t).slope := by
    have := UInt32.lt_iff_toNat_lt.1 ht.1
    rw [line]
    exact mul_pos (by norm_num) (Nat.cast_pos.2 (by simpa using this))
  rw [Rate.lt_iff hd hd', hv, hv', cross, div_lt_div_iff₀ (sub_pos.2 hslope) hpos, Before]
  constructor <;> intro hlt <;> linarith

end Compare

/-! ## Step 1 -/

section Bubble

/-- One pass carries the highest overhead to its end. -/
theorem bubble_split : ∀ (n : Nat) (l rest : TmmbrSet), l.length = n + 1 →
    ∃ l' m, bubble n (l ++ rest) = l' ++ m :: rest ∧ (l' ++ [m]).Perm l ∧
      ∀ a ∈ l', a.packetOH ≤ m.packetOH
  | 0, l, rest, h => by
    obtain ⟨a, rfl⟩ := List.length_eq_one_iff.1 h
    refine ⟨[], a, ?_, List.Perm.refl _, fun _ ha => absurd ha List.not_mem_nil⟩
    rw [bubble]
    · rfl
    · intro n' a' b' rest' hn
      cases hn
  | n + 1, [], _, h => by cases h
  | n + 1, [a], _, h => by cases h
  | n + 1, a :: b :: l, rest, h => by
    rw [List.cons_append, List.cons_append, bubble]
    split
    · rename_i hgt
      obtain ⟨l', m, heq, hperm, hmax⟩ := bubble_split n (a :: l) rest (by simpa using h)
      refine ⟨b :: l', m, by rw [← List.cons_append, heq]; rfl, ?_, fun c hc => ?_⟩
      · exact (hperm.cons b).trans (List.Perm.swap a b l)
      · have ha : a.packetOH ≤ m.packetOH := by
          obtain hal | hal := List.mem_append.1 (hperm.mem_iff.2 (List.mem_cons_self ..))
          · exact hmax a hal
          · rw [List.mem_singleton.1 hal]
            exact UInt32.le_refl _
        obtain rfl | hc := List.mem_cons.1 hc
        · exact UInt32.le_trans (UInt32.le_of_lt hgt) ha
        · exact hmax c hc
    · rename_i hle
      obtain ⟨l', m, heq, hperm, hmax⟩ := bubble_split n (b :: l) rest (by simpa using h)
      refine ⟨a :: l', m, by rw [← List.cons_append, heq]; rfl, hperm.cons a, fun c hc => ?_⟩
      have hb : b.packetOH ≤ m.packetOH := by
        obtain hbl | hbl := List.mem_append.1 (hperm.mem_iff.2 (List.mem_cons_self ..))
        · exact hmax b hbl
        · rw [List.mem_singleton.1 hbl]
          exact UInt32.le_refl _
      obtain rfl | hc := List.mem_cons.1 hc
      · exact UInt32.le_trans (UInt32.not_lt.1 hle) hb
      · exact hmax c hc

theorem sortByOH_append : ∀ (l rest : TmmbrSet), rest.Pairwise (·.packetOH ≤ ·.packetOH) →
    (∀ a ∈ l, ∀ b ∈ rest, a.packetOH ≤ b.packetOH) →
    (sortByOH l.length (l ++ rest)).Perm (l ++ rest) ∧
      (sortByOH l.length (l ++ rest)).Pairwise (·.packetOH ≤ ·.packetOH) := by
  intro l
  induction hn : l.length generalizing l with
  | zero =>
    intro rest hrest _
    rw [List.length_eq_zero_iff.1 hn]
    exact ⟨List.Perm.refl _, hrest⟩
  | succ n ih =>
    intro rest hrest hle
    obtain ⟨l', m, heq, hperm, hmax⟩ := bubble_split n l rest hn
    have hlen : l'.length = n := by
      have := hperm.length_eq
      rw [List.length_append, List.length_singleton] at this
      omega
    have hmem : ∀ a, a ∈ l' ∨ a = m → a ∈ l := by
      intro a ha
      refine hperm.mem_iff.1 (List.mem_append.2 ?_)
      exact ha.imp_right List.mem_singleton.2
    obtain ⟨hp, hs⟩ := ih l' hlen (m :: rest)
      (List.pairwise_cons.2 ⟨fun b hb => hle m (hmem m (.inr rfl)) b hb, hrest⟩)
      (fun a ha b hb => by
        obtain rfl | hb := List.mem_cons.1 hb
        · exact hmax a ha
        · exact hle a (hmem a (.inl ha)) b hb)
    rw [sortByOH, heq]
    refine ⟨hp.trans ?_, hs⟩
    rw [List.append_cons]
    exact hperm.append_right rest

theorem sortByOH_sorted (set : TmmbrSet) : (sortByOH set.length set).Perm set ∧
    (sortByOH set.length set).Pairwise (·.packetOH ≤ ·.packetOH) := by
  have := sortByOH_append set [] List.Pairwise.nil (fun _ _ _ hb => absurd hb List.not_mem_nil)
  rwa [List.append_nil] at this

end Bubble

/-! ## Step 2 -/

section Thin

/-- What is left of a set when entries were cleared. -/
structure Thins (set set' : TmmbrSet) : Prop where
  length : set'.length = set.length
  entry : ∀ j, entry set' j = entry set j ∨ entry set' j = cleared

variable {set set' : TmmbrSet} {i j : Nat} {e : SetElement}

theorem Thins.refl (set : TmmbrSet) : Thins set set := ⟨rfl, fun _ => .inl rfl⟩

theorem Thins.trans {set'' : TmmbrSet} (h : Thins set set') (h' : Thins set' set'') :
    Thins set set'' where
  length := h'.length.trans h.length
  entry j := by
    obtain heq | heq := h'.entry j
    · rw [heq]
      exact h.entry j
    · exact .inr heq

theorem isSet_cleared : isSet cleared = false := rfl

/-- An entry that is set still has what it had. -/
theorem Thins.eq (h : Thins set set') (hj : isSet (TmmbrHelp.entry set' j) = true) :
    TmmbrHelp.entry set' j = TmmbrHelp.entry set j := by
  obtain heq | heq := h.entry j
  · exact heq
  · rw [heq, isSet_cleared] at hj
    cases hj

theorem Thins.sublist (h : Thins set set') : (set'.filter isSet).Sublist (set.filter isSet) := by
  induction set generalizing set' with
  | nil =>
    rw [List.length_eq_zero_iff.1 h.length]
  | cons a l ih =>
    cases set' with
    | nil => exact List.nil_sublist _
    | cons a' l' =>
      have htail : Thins l l' := ⟨Nat.succ.inj h.length, fun j => h.entry (j + 1)⟩
      obtain rfl | rfl : a' = a ∨ a' = cleared := h.entry 0
      · rw [List.filter_cons, List.filter_cons]
        split
        · exact (ih htail).cons_cons _
        · exact ih htail
      · rw [List.filter_cons_of_neg (by decide)]
        exact (ih htail).trans ((List.sublist_cons_self _ _).filter _)

theorem entry_of_lt (h : i < set.length) : entry set i = set[i] := by
  rw [entry, List.getElem?_eq_getElem h, Option.getD_some]

theorem entry_lt (h : isSet (entry set i) = true) : i < set.length := by
  by_contra hge
  rw [entry, List.getElem?_eq_none (Nat.le_of_not_lt hge)] at h
  cases h

theorem mem_filter_isSet : e ∈ set.filter isSet ↔ ∃ i, entry set i = e ∧ isSet e = true := by
  rw [List.mem_filter]
  constructor
  · intro ⟨hm, hs⟩
    obtain ⟨i, hi, rfl⟩ := List.mem_iff_getElem.1 hm
    exact ⟨i, entry_of_lt hi, hs⟩
  · intro ⟨i, hi, hs⟩
    have hlt := entry_lt (hi ▸ hs)
    rw [entry_of_lt hlt] at hi
    exact ⟨hi ▸ List.getElem_mem hlt, hs⟩

/-- The better one of two indices. -/
def lower (set : TmmbrSet) (i m j : Nat) : Nat :=
  if (entry set j).packetOH = (entry set i).packetOH ∧ (entry set j).tmmbr < (entry set m).tmmbr
  then j else m

theorem foldl_lower (set : TmmbrSet) (i : Nat) : ∀ (js : List Nat) (m : Nat),
    (entry set m).packetOH = (entry set i).packetOH →
      (entry set (js.foldl (lower set i) m)).packetOH = (entry set i).packetOH ∧
        ∀ j, j = m ∨ j ∈ js → (entry set j).packetOH = (entry set i).packetOH →
          (entry set (js.foldl (lower set i) m)).tmmbr ≤ (entry set j).tmmbr := by
  intro js
  induction js with
  | nil =>
    intro m hm
    refine ⟨hm, fun j hj _ => ?_⟩
    rw [hj.resolve_right List.not_mem_nil]
    exact UInt32.le_refl _
  | cons k js ih =>
    intro m hm
    rw [List.foldl_cons, lower]
    split
    · rename_i hk
      obtain ⟨hoh, hlow⟩ := ih k hk.1
      refine ⟨hoh, fun j hj hjo => ?_⟩
      obtain rfl | hj := hj
      · exact UInt32.le_trans (hlow k (.inl rfl) hk.1) (UInt32.le_of_lt hk.2)
      · exact hlow j (List.mem_cons.1 hj) hjo
    · rename_i hk
      obtain ⟨hoh, hlow⟩ := ih m hm
      refine ⟨hoh, fun j hj hjo => ?_⟩
      obtain rfl | hj := hj
      · exact hlow j (.inl rfl) hjo
      · obtain rfl | hj := List.mem_cons.1 hj
        · refine UInt32.le_trans (hlow m (.inl rfl) hm) (UInt32.not_lt.1 fun hlt => ?_)
          exact hk ⟨hjo, hlt⟩
        · exact hlow j (.inr hj) hjo

theorem lowestFrom_spec (set : TmmbrSet) (i : Nat) :
    (entry set (lowestFrom set i)).packetOH = (entry set i).packetOH ∧
      ∀ j, i ≤ j → j < set.length → (entry set j).packetOH = (entry set i).packetOH →
        (entry set (lowestFrom set i)).tmmbr ≤ (entry set j).tmmbr := by
  obtain ⟨hoh, hlow⟩ := foldl_lower set i ((List.range set.length).drop (i + 1)) i rfl
  refine ⟨hoh, fun j hij hj hjo => hlow j ?_ hjo⟩
  obtain rfl | hlt := hij.eq_or_lt
  · exact .inl rfl
  · refine .inr (List.mem_iff_getElem.2 ⟨j - (i + 1), ?_, ?_⟩)
    · rw [List.length_drop, List.length_range]
      omega
    · rw [List.getElem_drop, List.getElem_range]
      omega

/-- All entries of a set are requests that fit or are cleared. -/
def Clean (set : TmmbrSet) : Prop := ∀ j, entry set j = cleared ∨
  (isSet (entry set j) = true ∧ Fits (entry set j))

theorem Clean.thin (h : Clean set) (ht : Thins set set') : Clean set' := by
  intro j
  obtain heq | heq := ht.entry j
  · rw [heq]
    exact h j
  · exact .inl heq

/-- The overhead of a request tells it from a cleared entry. -/
theorem Clean.isSet_of_packetOH (h : Clean set) (hi : isSet (entry set i) = true)
    (hj : (entry set j).packetOH = (entry set i).packetOH) : isSet (entry set j) = true := by
  obtain hc | ⟨hs, -⟩ := h j
  · obtain hc' | ⟨-, hf, -⟩ := h i
    · rw [hc', isSet_cleared] at hi
      cases hi
    · rw [← hj, hc] at hf
      exact absurd hf (by decide)
  · exact hs

theorem entry_keepLowest (hi : isSet (entry set i) = true) :
    entry (keepLowest set i) j = if (entry set j).packetOH = (entry set i).packetOH ∧
      j ≠ lowestFrom set i then cleared else entry set j := by
  rw [keepLowest, if_pos hi, entry, List.getElem?_mapIdx]
  cases hj : set[j]? with
  | none =>
    have he : entry set j = cleared := by rw [entry, hj, Option.getD_none]
    rw [he, ite_self]
    rfl
  | some e =>
    have he : entry set j = e := by rw [entry, hj, Option.getD_some]
    rw [he]
    rfl

theorem keepLowest_of_not_set (hi : ¬ isSet (entry set i) = true) : keepLowest set i = set :=
  if_neg hi

theorem keepLowest_thins (set : TmmbrSet) (i : Nat) : Thins set (keepLowest set i) := by
  by_cases hi : isSet (entry set i) = true
  · refine ⟨?_, fun j => ?_⟩
    · rw [keepLowest, if_pos hi, List.length_mapIdx]
    · rw [entry_keepLowest hi]
      split
      · exact .inr rfl
      · exact .inl rfl
  · rw [keepLowest_of_not_set hi]
    exact .refl set

/-- What step 2 has done when it comes to `k`. -/
structure Kept (set : TmmbrSet) (k : Nat) (set' : TmmbrSet) : Prop where
  thins : Thins set set'
  covers : ∀ j, isSet (entry set j) = true → ∃ j', isSet (entry set' j') = true ∧
    (entry set' j').packetOH = (entry set j).packetOH ∧
    (entry set' j').tmmbr ≤ (entry set j).tmmbr
  single : ∀ i < k, ∀ j, isSet (entry set' i) = true →
    (entry set' j).packetOH = (entry set' i).packetOH → j = i

theorem Kept.next {k : Nat} (hc : Clean set) (h : Kept set k set') :
    Kept set (k + 1) (keepLowest set' k) := by
  have hc' := hc.thin h.thins
  by_cases hk : isSet (entry set' k) = true
  · obtain ⟨hoh, hlow⟩ := lowestFrom_spec set' k
    have hm : isSet (entry set' (lowestFrom set' k)) = true := hc'.isSet_of_packetOH hk hoh
    have hmk : entry (keepLowest set' k) (lowestFrom set' k) = entry set' (lowestFrom set' k) := by
      rw [entry_keepLowest hk, if_neg fun hn => hn.2 rfl]
    refine ⟨h.thins.trans (keepLowest_thins set' k), fun j hj => ?_, fun i hi j his hjo => ?_⟩
    · obtain ⟨j', hs, ho, hle⟩ := h.covers j hj
      by_cases hjk : (entry set' j').packetOH = (entry set' k).packetOH
      · -- those before `k` have an overhead of their own
        have hge : k ≤ j' := by
          by_contra hlt
          have := h.single j' (Nat.lt_of_not_le hlt) k hs hjk.symm
          omega
        refine ⟨lowestFrom set' k, hmk ▸ hm, ?_, ?_⟩
        · rw [hmk, hoh, ← hjk, ho]
        · rw [hmk]
          exact UInt32.le_trans (hlow j' hge (entry_lt hs) hjk) hle
      · have heq : entry (keepLowest set' k) j' = entry set' j' := by
          rw [entry_keepLowest hk, if_neg fun hn => hjk hn.1]
        exact ⟨j', heq ▸ hs, heq ▸ ho, heq ▸ hle⟩
    · have hi' := (keepLowest_thins set' k).eq his
      have hjs : isSet (entry (keepLowest set' k) j) = true :=
        (hc'.thin (keepLowest_thins set' k)).isSet_of_packetOH his hjo
      have hj' := (keepLowest_thins set' k).eq hjs
      rw [hi', hj'] at hjo
      obtain hlt | rfl := Nat.lt_succ_iff_lt_or_eq.1 hi
      · exact h.single i hlt j (hi' ▸ his) hjo
      · have hlast : ∀ n, (entry set' n).packetOH = (entry set' i).packetOH →
            isSet (entry (keepLowest set' i) n) = true → n = lowestFrom set' i := by
          intro n hn hs
          by_contra hne
          rw [entry_keepLowest hk, if_pos ⟨hn, hne⟩, isSet_cleared] at hs
          cases hs
        rw [hlast j hjo hjs, ← hlast i rfl his]
  · rw [keepLowest_of_not_set hk]
    refine ⟨h.thins, h.covers, fun i hi j his hjo => ?_⟩
    obtain hlt | rfl := Nat.lt_succ_iff_lt_or_eq.1 hi
    · exact h.single i hlt j his hjo
    · exact absurd his hk

theorem keepLowestAll_kept (hc : Clean set) : Kept set set.length (keepLowestAll set) := by
  have hrun : ∀ n, Kept set n ((List.range n).foldl keepLowest set) := by
    intro n
    induction n with
    | zero =>
      refine ⟨.refl set, fun j hj => ⟨j, hj, rfl, UInt32.le_refl _⟩, fun i hi => ?_⟩
      exact absurd hi (Nat.not_lt_zero i)
    | succ n ih =>
      rw [List.range_succ, List.foldl_append]
      exact ih.next hc
  exact hrun set.length

end Thin

/-! ## Steps 3 and 4 -/

section First

variable {set : TmmbrSet}

/-- The lowest one so far is set, none before is lower and none behind is as low. -/
theorem minIndex_spec (hex : ∃ i, isSet (entry set i) = true) :
    isSet (entry set (minIndex set)) = true ∧ ∀ j, isSet (entry set j) = true →
      (entry set (minIndex set)).tmmbr ≤ (entry set j).tmmbr ∧
      (minIndex set < j → (entry set (minIndex set)).tmmbr < (entry set j).tmmbr) := by
  have hfirst : isSet (entry set ((set.findIdx? isSet).getD 0)) = true := by
    obtain ⟨i, hi⟩ := hex
    have hlt := entry_lt hi
    rw [entry_of_lt hlt] at hi
    cases hf : set.findIdx? isSet with
    | none =>
      have := List.findIdx?_eq_none_iff.1 hf _ (List.getElem_mem hlt)
      rw [hi] at this
      cases this
    | some k =>
      obtain ⟨hk, hs, -⟩ := List.findIdx?_eq_some_iff_getElem.1 hf
      rw [Option.getD_some, entry_of_lt hk]
      exact hs
  have hrun : ∀ n, ∃ m, (List.range n).foldl (fun m i =>
        if isSet (entry set i) ∧ (entry set i).tmmbr ≤ (entry set m).tmmbr then i else m)
        ((set.findIdx? isSet).getD 0) = m ∧ isSet (entry set m) = true ∧
      ∀ j < n, isSet (entry set j) = true → (entry set m).tmmbr ≤ (entry set j).tmmbr ∧
        (m < j → (entry set m).tmmbr < (entry set j).tmmbr) := by
    intro n
    induction n with
    | zero => exact ⟨_, rfl, hfirst, fun j hj => absurd hj (Nat.not_lt_zero j)⟩
    | succ n ih =>
      obtain ⟨m, heq, hm, hlow⟩ := ih
      rw [List.range_succ, List.foldl_append, heq, List.foldl_cons, List.foldl_nil]
      refine ⟨_, rfl, ?_⟩
      split
      · rename_i hn
        refine ⟨hn.1, fun j hj hjs => ?_⟩
        obtain hlt | rfl := Nat.lt_succ_iff_lt_or_eq.1 hj
        · exact ⟨UInt32.le_trans hn.2 (hlow j hlt hjs).1, fun hnj => by omega⟩
        · exact ⟨UInt32.le_refl _, fun hnj => absurd hnj (Nat.lt_irrefl _)⟩
      · rename_i hn
        refine ⟨hm, fun j hj hjs => ?_⟩
        obtain hlt | rfl := Nat.lt_succ_iff_lt_or_eq.1 hj
        · exact hlow j hlt hjs
        · have hlt : (entry set m).tmmbr < (entry set j).tmmbr :=
            UInt32.not_le.1 fun hle => hn ⟨hjs, hle⟩
          exact ⟨UInt32.le_of_lt hlt, fun _ => hlt⟩
  obtain ⟨m, heq, hm, hlow⟩ := hrun set.length
  rw [minIndex, heq]
  exact ⟨hm, fun j hj => hlow j (entry_lt hj) hj⟩

/-- What steps 3 and 4 leave as candidates, given the index of the first member. -/
def remaining (set : TmmbrSet) (k : Nat) : TmmbrSet :=
  (set.set k cleared).map fun e => if isDiscarded (entry set k) e then cleared else e

theorem filter_clear (p : SetElement → Bool) (l : TmmbrSet) :
    (l.map fun e => if p e then cleared else e).filter isSet =
      (l.filter isSet).filter fun e => !p e := by
  induction l with
  | nil => rfl
  | cons e l ih =>
    cases hp : p e <;> cases hs : isSet e <;>
      simp [hp, hs, ih, isSet_cleared]

theorem isDiscarded_cleared (f : SetElement) : isDiscarded f cleared = false := rfl

/-- In a set by increasing overhead the tuples before the first member are discarded and those
behind it stay. -/
theorem discarded_split {f : SetElement} {pre post : TmmbrSet}
    (hinc : (pre.filter isSet ++ f :: post.filter isSet).Pairwise (·.packetOH < ·.packetOH)) :
    ((pre ++ cleared :: post).filter isSet).filter (fun e => !isDiscarded f e) =
        post.filter isSet ∧
      (pre ++ cleared :: post).countP (isDiscarded f) = (pre.filter isSet).length := by
  obtain ⟨-, hpost, hpre⟩ := List.pairwise_append.1 hinc
  have hpre' : ∀ e ∈ pre, isDiscarded f e = isSet e := by
    intro e he
    rw [isDiscarded]
    cases hs : isSet e
    · rfl
    · rw [Bool.true_and, decide_eq_true_iff]
      exact hpre e (List.mem_filter.2 ⟨he, hs⟩) f (List.mem_cons_self ..)
  have hpost' : ∀ e ∈ post, isDiscarded f e = false := by
    intro e he
    rw [isDiscarded]
    cases hs : isSet e
    · rfl
    · rw [Bool.true_and, decide_eq_false_iff_not]
      have := (List.pairwise_cons.1 hpost).1 e (List.mem_filter.2 ⟨he, hs⟩)
      exact fun hlt => UInt32.lt_asymm this hlt
  constructor
  · rw [List.filter_append, List.filter_cons_of_neg (by simp [isSet_cleared]),
      List.filter_append, List.filter_eq_nil_iff.2, List.nil_append, List.filter_eq_self.2]
    · intro e he
      rw [hpost' e (List.mem_filter.1 he).1]
      rfl
    · intro e he
      obtain ⟨hm, hs⟩ := List.mem_filter.1 he
      rw [hpre' e hm, hs]
      exact Bool.false_ne_true
  · have hzero : post.countP (isDiscarded f) = 0 := List.countP_eq_zero.2 fun e he => by
      simp [hpost' e he]
    rw [List.countP_append, List.countP_cons_of_neg (by simp [isDiscarded_cleared]), hzero,
      Nat.add_zero, List.countP_eq_length_filter, List.filter_congr hpre']

theorem remaining_split {k : Nat} (hk : isSet (entry set k) = true)
    (hinc : (set.filter isSet).Pairwise (·.packetOH < ·.packetOH)) :
    ∃ before, set.filter isSet = before ++ entry set k :: (remaining set k).filter isSet ∧
      (set.set k cleared).countP (isDiscarded (entry set k)) = before.length ∧
      ∀ e ∈ (remaining set k).filter isSet, ∃ j, k < j ∧ entry set j = e := by
  have hlt := entry_lt hk
  have hset : set = set.take k ++ entry set k :: set.drop (k + 1) := by
    rw [entry_of_lt hlt, ← List.drop_eq_getElem_cons hlt, List.take_append_drop]
  have hcl : set.set k cleared = set.take k ++ cleared :: set.drop (k + 1) :=
    List.set_eq_take_append_cons_drop.trans (if_pos hlt)
  have hsplit : set.filter isSet =
      (set.take k).filter isSet ++ entry set k :: (set.drop (k + 1)).filter isSet := by
    conv_lhs => rw [hset]
    rw [List.filter_append, List.filter_cons_of_pos hk]
  rw [hsplit] at hinc
  obtain ⟨hrest, hcount⟩ := discarded_split hinc
  have hrem : (remaining set k).filter isSet = (set.drop (k + 1)).filter isSet := by
    rw [remaining, filter_clear, hcl, hrest]
  refine ⟨(set.take k).filter isSet, hrem ▸ hsplit, by rw [hcl, hcount], fun e he => ?_⟩
  rw [hrem] at he
  obtain ⟨i, hi, rfl⟩ := List.mem_iff_getElem.1 (List.mem_filter.1 he).1
  rw [List.getElem_drop]
  exact ⟨k + 1 + i, by omega, entry_of_lt _⟩

end First

/-! ## Steps 5 to 9 -/

section Walk

/-- The bounding set as a stack of lines. -/
def stackOf (selected : List Selected) : List (SetElement × ℚ) :=
  selected.map fun m => (m.tuple, m.intersection.val)

/-- The two arrays of rates have what they should. -/
def Rated (selected : List Selected) : Prop :=
  ∀ m ∈ selected, 0 < m.intersection.den ∧ m.maxPR = maxPacketRate m.tuple ∧ Fits m.tuple

/-- `c` is steeper than all members and has at least their bitrate. -/
def Above (c : SetElement) (tuples : TmmbrSet) : Prop :=
  Fits c ∧ ∀ t ∈ tuples, t.packetOH < c.packetOH ∧ t.tmmbr ≤ c.tmmbr

/-- To compare the current tuple once more changes nothing. -/
def Settled (cur : SetElement) (selected : List Selected) : Prop :=
  ∀ last below, selected = last :: below →
    (packetRate cur last.tuple).le last.intersection = false ∧
      (packetRate cur last.tuple).lt last.maxPR = false

variable {f c : SetElement} {given rest : TmmbrSet} {s : Selection}

theorem slope_lt {t : SetElement} (h : t.packetOH < c.packetOH) :
    (line t).slope < (line c).slope :=
  mul_lt_mul_of_pos_left (Nat.cast_lt.2 (UInt32.lt_iff_toNat_lt.1 h)) (by norm_num)

theorem start_lt_start {t : SetElement} (h : t.tmmbr < c.tmmbr) :
    (line t).start < (line c).start :=
  mul_lt_mul_of_pos_left (Nat.cast_lt.2 (UInt32.lt_iff_toNat_lt.1 h)) (by norm_num)

theorem settled_self (below : List Selected) (i m : Rate) : Settled c (⟨c, i, m⟩ :: below) := by
  intro last below' heq
  cases heq
  have hzero : packetRate c c = ⟨0, 0⟩ := by
    rw [packetRate, UInt32.sub_self, UInt32.sub_self]
    rfl
  rw [hzero, Rate.le, Rate.lt, Nat.zero_mul, Nat.mul_zero]
  exact ⟨rfl, rfl⟩

/-- The state between two rounds: with nothing at hand, or with `c` that took some members off. -/
inductive Walking (f : SetElement) (all : TmmbrSet) (s : Selection) : Prop
  | fetching {given rest : TmmbrSet} (hall : all = given ++ rest) (hnew : s.getNewCandidate = true)
      (hrest : s.candidateSet.filter isSet = rest) (hn : rest.length ≤ s.numCandidates)
      (hset : rest = [] → s.numCandidates = 0 ∨ Settled s.cur s.selected)
      (henv : Envelope line f (f :: given) (stackOf s.selected))
  | comparing {given rest : TmmbrSet} {c : SetElement} (hall : all = given ++ c :: rest)
      (hold : s.getNewCandidate = false) (hcur : s.cur = c)
      (hrest : s.candidateSet.filter isSet = rest) (hn : rest.length < s.numCandidates)
      (hstack : Stack line f (stackOf s.selected)) (hmem : ∀ m ∈ s.selected, m.tuple ∈ f :: given)
      (henv : Envelope line f (f :: given ++ [c]) (place line c (stackOf s.selected)))

/-- A member is compared as its line is. -/
theorem compare_cases {last : Selected} {below : List Selected} (hsel : s.selected = last :: below)
    (hrated : Rated s.selected) (hc : Fits s.cur) (ho : last.tuple.packetOH < s.cur.packetOH)
    (hr : last.tuple.tmmbr ≤ s.cur.tmmbr) :
    s.compare = if cross (line s.cur) (line last.tuple) ≤ last.intersection.val then
        { s with selected := below, getNewCandidate := false }
      else { s with
        selected := if Before (line s.cur) (line last.tuple) then
            ⟨s.cur, packetRate s.cur last.tuple, maxPacketRate s.cur⟩ :: last :: below
          else last :: below
        numCandidates := s.numCandidates - 1
        getNewCandidate := true } := by
  obtain ⟨hden, hmax, ht⟩ := hrated last (hsel ▸ List.mem_cons_self ..)
  obtain ⟨hd, hv⟩ := packetRate_val hc ho hr
  rw [Selection.compare, hsel]
  dsimp only
  congr 1
  · rw [Rate.le_iff hd hden, hv]
  · rw [hmax]
    congr 1
    exact if_congr (lt_maxPacketRate hc ht ho hr) rfl rfl

/-- What step 6 makes of the tuple at hand. -/
theorem compare_walking {all : TmmbrSet} (hall : all = given ++ c :: rest) (hcur : s.cur = c)
    (hrest : s.candidateSet.filter isSet = rest) (hn : rest.length < s.numCandidates)
    (hrated : Rated s.selected) (habove : Above c (f :: given))
    (hstack : Stack line f (stackOf s.selected)) (hmem : ∀ m ∈ s.selected, m.tuple ∈ f :: given)
    (henv : Envelope line f (f :: given ++ [c]) (place line c (stackOf s.selected)))
    (hf : f.tmmbr < c.tmmbr) : Walking f all s.compare ∧ Rated s.compare.selected := by
  subst hcur
  obtain ⟨hc, habove⟩ := habove
  cases hsel : s.selected with
  | nil =>
    rw [hsel] at hstack
    nomatch hstack
  | cons last below =>
    have hlast := habove _ (hmem last (hsel ▸ List.mem_cons_self ..))
    rw [compare_cases hsel hrated hc hlast.1 hlast.2]
    rw [hsel] at henv hmem hrated hstack
    rw [stackOf, List.map_cons, place] at henv
    split
    · rename_i hcross
      rw [if_pos hcross] at henv
      refine ⟨.comparing hall rfl rfl hrest hn ?_ (fun m hm => hmem m (.tail _ hm)) henv,
        fun m hm => hrated m (.tail _ hm)⟩
      rw [stackOf, List.map_cons] at hstack
      exact hstack.rest (slope_lt hlast.1) (start_lt_start hf) hcross
    · rename_i hcross
      rw [if_neg hcross] at henv
      obtain ⟨hd, hv⟩ := packetRate_val hc hlast.1 hlast.2
      have hgiven : all = given ++ [s.cur] ++ rest := by
        rw [hall, List.append_assoc]
        rfl
      by_cases hb : Before (line s.cur) (line last.tuple)
      · rw [if_pos hb] at henv ⊢
        refine ⟨.fetching hgiven rfl
          hrest (by dsimp only; omega) (fun _ => .inr (settled_self _ _ _)) ?_, fun m hm => ?_⟩
        · rw [stackOf, List.map_cons, List.map_cons, hv]
          exact henv
        · obtain rfl | hm := List.mem_cons.1 hm
          · exact ⟨hd, rfl, hc⟩
          · exact hrated m hm
      · rw [if_neg hb] at henv ⊢
        refine ⟨.fetching hgiven rfl
          hrest (by dsimp only; omega) (fun _ => .inr ?_) henv, hrated⟩
        intro last' below' heq
        cases heq
        obtain ⟨hden, hmax, ht⟩ := hrated last (List.mem_cons_self ..)
        refine ⟨Bool.eq_false_iff.2 fun h => hcross ?_, Bool.eq_false_iff.2 fun h => hb ?_⟩
        · rwa [← hv, ← Rate.le_iff hd hden]
        · rwa [hmax, lt_maxPacketRate hc ht hlast.1 hlast.2] at h

/-- The tuple that is fetched is the first one that is set. -/
theorem fetch_cons (hnew : s.getNewCandidate = true)
    (hrest : s.candidateSet.filter isSet = c :: rest) : s.fetch.cur = c ∧
      s.fetch.candidateSet.filter isSet = rest ∧ s.fetch.selected = s.selected ∧
      s.fetch.numCandidates = s.numCandidates := by
  have hfind : ∀ l : TmmbrSet, l.filter isSet = c :: rest → ∃ i, l.findIdx? isSet = some i ∧
      entry l i = c ∧ (l.set i cleared).filter isSet = rest := by
    intro l
    induction l with
    | nil => intro h; cases h
    | cons e l ih =>
      intro h
      cases he : isSet e
      · rw [List.filter_cons_of_neg (by simp [he])] at h
        obtain ⟨i, hi, hc, hr⟩ := ih h
        refine ⟨i + 1, ?_, hc, ?_⟩
        · rw [List.findIdx?_cons, he, hi]
          rfl
        · rw [List.set_cons_succ, List.filter_cons_of_neg (by simp [he]), hr]
      · rw [List.filter_cons_of_pos he] at h
        cases h
        refine ⟨0, ?_, rfl, ?_⟩
        · rw [List.findIdx?_cons, he]
          rfl
        · rw [List.set_cons_zero, List.filter_cons_of_neg (by decide)]
  obtain ⟨i, hi, hc, hr⟩ := hfind _ hrest
  rw [Selection.fetch, if_pos hnew, hi]
  exact ⟨hc, hr, rfl, rfl⟩

theorem fetch_nil (hrest : s.candidateSet.filter isSet = []) : s.fetch = s := by
  have hnone : s.candidateSet.findIdx? isSet = none := by
    rw [List.findIdx?_eq_none_iff]
    intro e he
    exact Bool.eq_false_iff.2 (List.filter_eq_nil_iff.1 hrest e he)
  rw [Selection.fetch, hnone, ite_self]

theorem compare_settled (h : Settled s.cur s.selected) (hn : s.selected ≠ []) :
    s.compare = { s with numCandidates := s.numCandidates - 1, getNewCandidate := true } := by
  cases hsel : s.selected with
  | nil => exact absurd hsel hn
  | cons last below =>
    obtain ⟨hle, hlt⟩ := h last below hsel
    rw [Selection.compare, hsel]
    dsimp only
    rw [if_neg (by simp [hle]),
      if_neg (by simp [hlt])]

/-- The tuples that step 4 leaves: each one steeper than those before it, with at least their
bitrate and more than that of the first member. -/
def Rising (f : SetElement) (all : TmmbrSet) : Prop :=
  ∀ given c rest, all = given ++ c :: rest → Above c (f :: given) ∧ f.tmmbr < c.tmmbr

theorem body_walking {all : TmmbrSet} (hall : Rising f all) (hs : s.cond = true)
    (h : Walking f all s ∧ Rated s.selected) : Walking f all s.body ∧ Rated s.body.selected := by
  rw [Selection.cond, Bool.and_eq_true, decide_eq_true_iff, Bool.not_eq_true',
    List.isEmpty_eq_false_iff] at hs
  obtain ⟨hw, hrated⟩ := h
  rw [Selection.body]
  cases hw with
  | @fetching given rest heq hnew hrest hn hset henv =>
    cases rest with
    | nil =>
      have hsettled := (hset rfl).resolve_left (by omega)
      rw [fetch_nil hrest, compare_settled hsettled hs.2]
      exact ⟨.fetching heq rfl hrest (Nat.zero_le _) (fun _ => .inr hsettled) henv, hrated⟩
    | cons c rest =>
      obtain ⟨hcur, hrest', hsel, hnum⟩ := fetch_cons hnew hrest
      obtain ⟨habove, hf⟩ := hall given c rest heq
      have hslope : ∀ a ∈ f :: given, (line a).slope < (line c).slope :=
        fun a ha => slope_lt (habove.2 a ha).1
      refine compare_walking heq hcur hrest' ?_ (hsel ▸ hrated) habove (hsel ▸ henv.stack) ?_ ?_ hf
      · rw [hnum]
        exact hn
      · intro m hm
        rw [hsel] at hm
        exact henv.mem (m.tuple, m.intersection.val) (List.mem_map_of_mem hm)
      · rw [hsel]
        exact henv.place hslope (start_lt_start hf)
  | @comparing given rest c heq hold hcur hrest hn hstack hmem henv =>
    have hfetch : s.fetch = s := by rw [Selection.fetch, if_neg (by simp [hold])]
    obtain ⟨habove, hf⟩ := hall given c rest heq
    rw [hfetch]
    exact compare_walking heq hcur hrest hn hrated habove hstack hmem henv hf

theorem measure_body (hs : s.cond = true) : s.body.measure < s.measure := by
  rw [Selection.cond, Bool.and_eq_true, decide_eq_true_iff, Bool.not_eq_true',
    List.isEmpty_eq_false_iff] at hs
  have hfetch : s.fetch.numCandidates = s.numCandidates ∧ s.fetch.selected = s.selected := by
    rw [Selection.fetch]
    split
    · split
      · exact ⟨rfl, rfl⟩
      · exact ⟨rfl, rfl⟩
    · exact ⟨rfl, rfl⟩
  obtain ⟨hn, hsel⟩ := hfetch
  rw [Selection.body, Selection.measure, Selection.measure, Selection.compare]
  cases hlast : s.fetch.selected with
  | nil => exact absurd (hsel ▸ hlast) hs.2
  | cons last below =>
    rw [← hsel, hlast, ← hn]
    dsimp only
    split
    · dsimp only
      rw [List.length_cons]
      omega
    · dsimp only
      split
      · rw [List.length_cons, List.length_cons]
        omega
      · rw [List.length_cons]
        omega

/-- The walk ends with the envelope of all lines. -/
theorem walk_envelope {all : TmmbrSet} (hall : Rising f all) (h : Walking f all s)
    (hrated : Rated s.selected) :
    Envelope line f (f :: all)
      (stackOf (runWhile Selection.cond Selection.body s.measure s).selected) := by
  have hloop : Loop Selection.cond Selection.body s
      (runWhile Selection.cond Selection.body s.measure s) :=
    Loop.of_runWhile (fun _ => measure_body) (Nat.le_refl _)
  obtain ⟨hw, -⟩ := hloop.keeps (P := fun s => Walking f all s ∧ Rated s.selected)
    (fun _ => body_walking hall) ⟨h, hrated⟩
  have hdone := hloop.done
  generalize runWhile Selection.cond Selection.body s.measure s = t at hw hdone
  have hstop : t.selected ≠ [] → t.numCandidates = 0 := by
    intro hne
    rw [Selection.cond, Bool.and_eq_false_iff, decide_eq_false_iff_not, Bool.not_eq_false',
      List.isEmpty_iff] at hdone
    have := hdone.resolve_right hne
    omega
  cases hw with
  | @fetching given rest heq _ _ hn _ henv =>
    have hzero := hstop fun hnil => by
      have := henv.stack
      rw [hnil] at this
      nomatch this
    have hrest : rest = [] := List.length_eq_zero_iff.1 (by omega)
    rw [heq, hrest, List.append_nil]
    exact henv
  | comparing _ _ _ _ hn hstack _ _ =>
    have hzero := hstop fun hnil => by
      rw [hnil] at hstack
      nomatch hstack
    omega

end Walk

/-! ## The search -/

/-- The lowest bitrate, with the highest overhead of these. -/
def IsLowest (set : TmmbrSet) (f : SetElement) : Prop :=
  f ∈ set ∧ ∀ e ∈ set, f.tmmbr ≤ e.tmmbr ∧ (e.tmmbr = f.tmmbr → e.packetOH ≤ f.packetOH)

/-- No difference of bitrates wraps, and a tuple is left when one of step 2 is still counted. -/
structure Regular (set : TmmbrSet) : Prop where
  fits : ∀ e ∈ set, Fits e
  rising : ∀ f, IsLowest set f → ∀ a ∈ set, ∀ b ∈ set, f.packetOH < a.packetOH →
    a.packetOH < b.packetOH → ∃ a' ∈ set, a'.packetOH = a.packetOH ∧ a'.tmmbr ≤ b.tmmbr
  counted : (set.map (·.packetOH)).Nodup ∨
    ∀ f, IsLowest set f → ∃ a ∈ set, f.packetOH < a.packetOH

/-- `bounding` is the lower envelope of the lines of `set` as far as they are above zero. -/
structure IsLowerEnvelope (set bounding : TmmbrSet) : Prop where
  mem : ∀ m ∈ bounding, m ∈ set
  increasing : bounding.Pairwise fun m n => m.packetOH < n.packetOH ∧ m.tmmbr < n.tmmbr
  covers : ∀ x, 0 ≤ x → (∀ m ∈ bounding, 0 ≤ (line m).at x) →
    ∀ a ∈ set, ∃ m ∈ bounding, (line m).at x ≤ (line a).at x
  lowest : ∀ m ∈ bounding, ∃ x, 0 ≤ x ∧ 0 < (line m).at x ∧
    ∀ n ∈ bounding, n ≠ m → (line m).at x < (line n).at x
  ends : ∀ last, bounding.getLast? = some last → ∀ a ∈ set, ¬ Before (line a) (line last)

section Search

variable {set : TmmbrSet} {f : SetElement}

theorem at_le_of_le {a b : SetElement} (ho : b.packetOH ≤ a.packetOH) (hr : a.tmmbr ≤ b.tmmbr)
    {x : ℚ} (hx : 0 ≤ x) : (line a).at x ≤ (line b).at x := by
  have ho' : (b.packetOH.toNat : ℚ) ≤ a.packetOH.toNat :=
    Nat.cast_le.2 (UInt32.le_iff_toNat_le.1 ho)
  have hr' : (a.tmmbr.toNat : ℚ) ≤ b.tmmbr.toNat := Nat.cast_le.2 (UInt32.le_iff_toNat_le.1 hr)
  have hmul := mul_le_mul_of_nonneg_right ho' hx
  rw [Line.at, Line.at, line, line]
  dsimp only
  linarith

theorem line_nonneg (e : SetElement) : 0 ≤ (line e).start ∧ 0 ≤ (line e).slope :=
  ⟨mul_nonneg (by norm_num) (Nat.cast_nonneg _), mul_nonneg (by norm_num) (Nat.cast_nonneg _)⟩

/-- A tuple with the overhead and at most the bitrate falls to zero first. -/
theorem before_of_le {a b t : SetElement} (ho : b.packetOH ≤ a.packetOH) (hr : a.tmmbr ≤ b.tmmbr)
    (h : Before (line b) (line t)) : Before (line a) (line t) := by
  have ho' : (line b).slope ≤ (line a).slope :=
    mul_le_mul_of_nonneg_left (Nat.cast_le.2 (UInt32.le_iff_toNat_le.1 ho)) (by norm_num)
  have hr' : (line a).start ≤ (line b).start :=
    mul_le_mul_of_nonneg_left (Nat.cast_le.2 (UInt32.le_iff_toNat_le.1 hr)) (by norm_num)
  rw [Before] at h ⊢
  calc (line a).start * (line t).slope ≤ (line b).start * (line t).slope :=
        mul_le_mul_of_nonneg_right hr' (line_nonneg t).2
    _ < (line t).start * (line b).slope := h
    _ ≤ (line t).start * (line a).slope := mul_le_mul_of_nonneg_left ho' (line_nonneg t).1

/-- What step 2 leaves of the sorted set, without what is cleared. -/
structure Sifted (set sifted : TmmbrSet) : Prop where
  mem : ∀ e ∈ sifted, e ∈ set
  covers : ∀ e ∈ set, ∃ e' ∈ sifted, e'.packetOH = e.packetOH ∧ e'.tmmbr ≤ e.tmmbr
  increasing : sifted.Pairwise (·.packetOH < ·.packetOH)
  length : sifted.length ≤ set.length

theorem Sifted.length_eq {sifted : TmmbrSet} (h : Sifted set sifted)
    (hnd : (set.map (·.packetOH)).Nodup) : sifted.length = set.length := by
  have hsub : (set.map (·.packetOH)) ⊆ sifted.map (·.packetOH) := by
    intro o ho
    obtain ⟨e, he, rfl⟩ := List.mem_map.1 ho
    obtain ⟨e', he', heq, -⟩ := h.covers e he
    exact heq ▸ List.mem_map_of_mem he'
  have hle := (hnd.subperm hsub).length_le
  rw [List.length_map, List.length_map] at hle
  exact le_antisymm h.length hle

theorem Sifted.unique {sifted : TmmbrSet} (h : Sifted set sifted) {a b : SetElement}
    (ha : a ∈ sifted) (hb : b ∈ sifted) (heq : a.packetOH = b.packetOH) : a = b := by
  have hnd : (sifted.map (·.packetOH)).Nodup := by
    rw [List.Nodup, List.pairwise_map]
    exact h.increasing.imp fun hlt => UInt32.ne_of_lt hlt
  exact List.inj_on_of_nodup_map hnd ha hb heq

/-- Steps 1 and 2. -/
theorem sifted_keepLowestAll (all : TmmbrSet) (hfits : ∀ e ∈ all.filter isSet, Fits e)
    (hall : ∀ e ∈ all, isSet e = false → e = cleared) :
    Sifted (all.filter isSet) ((keepLowestAll (sortByOH all.length all)).filter isSet) := by
  obtain ⟨hperm, hsorted⟩ := sortByOH_sorted all
  generalize sortByOH all.length all = sorted at hperm hsorted
  have hclean : Clean sorted := by
    intro j
    by_cases hj : j < sorted.length
    · have hmem : entry sorted j ∈ all := by
        rw [entry_of_lt hj]
        exact hperm.mem_iff.1 (List.getElem_mem hj)
      cases hs : isSet (entry sorted j)
      · exact .inl (hall _ hmem hs)
      · exact .inr ⟨rfl, hfits _ (List.mem_filter.2 ⟨hmem, hs⟩)⟩
    · rw [entry, List.getElem?_eq_none (Nat.le_of_not_lt hj)]
      exact .inl rfl
  have hkept := keepLowestAll_kept hclean
  generalize keepLowestAll sorted = kept at hkept
  have hsub := hkept.thins.sublist
  have hperm' := hperm.filter isSet
  refine ⟨fun e he => hperm'.mem_iff.1 (hsub.subset he), fun e he => ?_, ?_, ?_⟩
  · obtain ⟨j, rfl, hs⟩ := mem_filter_isSet.1 (hperm'.mem_iff.2 he)
    obtain ⟨j', hs', ho, hr⟩ := hkept.covers j hs
    exact ⟨_, mem_filter_isSet.2 ⟨j', rfl, hs'⟩, ho, hr⟩
  · rw [List.pairwise_filter, List.pairwise_iff_getElem]
    intro i j hi hj hij his hjs
    rw [← entry_of_lt hi] at his ⊢
    rw [← entry_of_lt hj] at hjs ⊢
    have hle : (entry kept i).packetOH ≤ (entry kept j).packetOH := by
      rw [hkept.thins.eq his, hkept.thins.eq hjs, entry_of_lt (hkept.thins.length ▸ hi),
        entry_of_lt (hkept.thins.length ▸ hj)]
      exact List.pairwise_iff_getElem.1 hsorted i j _ _ hij
    refine UInt32.lt_of_le_of_ne hle fun heq => ?_
    have := hkept.single i (hkept.thins.length ▸ hi) j his heq.symm
    omega
  · rw [← hperm'.length_eq]
    exact hsub.length_le

/-- Steps 3 and 4. -/
theorem first_spec {kept : TmmbrSet} (h : Sifted set (kept.filter isSet)) (hne : set ≠ []) :
    isSet (entry kept (minIndex kept)) = true ∧ IsLowest set (entry kept (minIndex kept)) ∧
      ∃ before, kept.filter isSet =
          before ++ entry kept (minIndex kept) :: (remaining kept (minIndex kept)).filter isSet ∧
        (kept.set (minIndex kept) cleared).countP (isDiscarded (entry kept (minIndex kept))) =
          before.length ∧
        ∀ e ∈ (remaining kept (minIndex kept)).filter isSet,
          (entry kept (minIndex kept)).tmmbr < e.tmmbr := by
  have hex : ∃ i, isSet (entry kept i) = true := by
    obtain ⟨e, he⟩ := List.exists_mem_of_ne_nil set hne
    obtain ⟨e', he', -⟩ := h.covers e he
    obtain ⟨i, rfl, hs⟩ := mem_filter_isSet.1 he'
    exact ⟨i, hs⟩
  obtain ⟨hk, hlow⟩ := minIndex_spec hex
  obtain ⟨before, hsplit, hcount, hbehind⟩ := remaining_split hk h.increasing
  have hrest : ∀ e ∈ (remaining kept (minIndex kept)).filter isSet,
      (entry kept (minIndex kept)).tmmbr < e.tmmbr := by
    intro e he
    obtain ⟨j, hj, rfl⟩ := hbehind e he
    exact (hlow j (List.mem_filter.1 he).2).2 hj
  refine ⟨hk, ⟨h.mem _ (mem_filter_isSet.2 ⟨_, rfl, hk⟩), fun e he => ?_⟩, before, hsplit, hcount,
    hrest⟩
  obtain ⟨e', he', ho, hr⟩ := h.covers e he
  obtain ⟨j, rfl, hs⟩ := mem_filter_isSet.1 he'
  have hle := (hlow j hs).1
  refine ⟨UInt32.le_trans hle hr, fun heq => ?_⟩
  have hinc := h.increasing
  rw [hsplit] at he' hinc
  rw [← ho]
  obtain he' | he' := List.mem_append.1 he'
  · exact UInt32.le_of_lt ((List.pairwise_append.1 hinc).2.2 _ he' _ (List.mem_cons_self ..))
  · obtain heq' | he' := List.mem_cons.1 he'
    · rw [heq']
      exact UInt32.le_refl _
    · exact absurd (UInt32.lt_of_lt_of_le (hrest _ he') (heq ▸ hr)) (UInt32.lt_irrefl _)

theorem rising_of_regular {before rest : TmmbrSet} (hreg : Regular set)
    (h : Sifted set (before ++ f :: rest)) (hf : IsLowest set f)
    (hrest : ∀ e ∈ rest, f.tmmbr < e.tmmbr) : Rising f rest := by
  intro given c rest' heq
  have hmem : ∀ e ∈ rest, e ∈ set := fun e he =>
    h.mem e (List.mem_append_right _ (.tail _ he))
  have hinc := (List.pairwise_append.1 h.increasing).2.1
  have hc : c ∈ rest := by
    rw [heq]
    exact List.mem_append_right _ (.head _)
  refine ⟨⟨hreg.fits c (hmem c hc), fun t ht => ?_⟩, hrest c hc⟩
  obtain rfl | ht := List.mem_cons.1 ht
  · exact ⟨(List.pairwise_cons.1 hinc).1 c hc, UInt32.le_of_lt (hrest c hc)⟩
  · have htr : t ∈ rest := by
      rw [heq]
      exact List.mem_append_left _ ht
    have htc : t.packetOH < c.packetOH := by
      have := (List.pairwise_cons.1 hinc).2
      rw [heq] at this
      exact (List.pairwise_append.1 this).2.2 t ht c (.head _)
    refine ⟨htc, ?_⟩
    obtain ⟨a, ha, ho, hr⟩ := hreg.rising f hf t (hmem t htr) c (hmem c hc)
      ((List.pairwise_cons.1 hinc).1 t htr) htc
    obtain ⟨a', ha', ho', hr'⟩ := h.covers a ha
    rw [← h.unique ha' (List.mem_append_right _ (.tail _ htr)) (ho'.trans ho)]
    exact UInt32.le_trans hr' hr

/-- The stack over the first member is the envelope of the whole set. -/
theorem isLowerEnvelope_of {before rest : TmmbrSet} {stack : List (SetElement × ℚ)}
    (h : Sifted set (before ++ f :: rest)) (hf : IsLowest set f)
    (henv : Envelope line f (f :: rest) stack) :
    IsLowerEnvelope set (stack.map Prod.fst).reverse := by
  have hmem : ∀ {m}, m ∈ (stack.map Prod.fst).reverse ↔ ∃ p ∈ stack, p.1 = m := by
    intro m
    rw [List.mem_reverse, List.mem_map]
  have hrep : ∀ a ∈ set, ∃ a' ∈ f :: rest, a'.tmmbr ≤ a.tmmbr ∧ a.packetOH ≤ a'.packetOH := by
    intro a ha
    obtain ⟨a', ha', ho, hr⟩ := h.covers a ha
    obtain hbefore | hrest := List.mem_append.1 ha'
    · have hlt := (List.pairwise_append.1 h.increasing).2.2 a' hbefore f (.head _)
      exact ⟨f, .head _, (hf.2 a ha).1, ho ▸ UInt32.le_of_lt hlt⟩
    · exact ⟨a', hrest, hr, ho ▸ UInt32.le_refl _⟩
  refine ⟨fun m hm => ?_, ?_, fun x hx hpos a ha => ?_, fun m hm => ?_, fun last hlast a ha => ?_⟩
  · obtain ⟨p, hp, rfl⟩ := hmem.1 hm
    exact h.mem _ (List.mem_append_right _ (henv.mem p hp))
  · rw [List.pairwise_reverse, List.pairwise_map]
    refine henv.stack.grows.imp fun ⟨hslope, hstart⟩ => ⟨?_, ?_⟩
    · exact UInt32.lt_iff_toNat_lt.2 (Nat.cast_lt.1 (lt_of_mul_lt_mul_left hslope (by norm_num)))
    · exact UInt32.lt_iff_toNat_lt.2 (Nat.cast_lt.1 (lt_of_mul_lt_mul_left hstart (by norm_num)))
  · obtain ⟨a', ha', hr, ho⟩ := hrep a ha
    obtain ⟨p, hp, hle⟩ := henv.covers x (fun p hp => hpos _ (hmem.2 ⟨p, hp, rfl⟩)) a' ha'
    exact ⟨p.1, hmem.2 ⟨p, hp, rfl⟩, hle.trans (at_le_of_le ho hr hx)⟩
  · obtain ⟨p, hp, rfl⟩ := hmem.1 hm
    obtain ⟨x, hx, hpos, hlow⟩ := henv.stack.lowest p hp
    refine ⟨x, hx, hpos, fun n hn hne => ?_⟩
    obtain ⟨q, hq, rfl⟩ := hmem.1 hn
    exact hlow q hq fun heq => hne (congrArg Prod.fst heq)
  · rw [List.getLast?_reverse, List.head?_map, Option.map_eq_some_iff] at hlast
    obtain ⟨p, hp, rfl⟩ := hlast
    obtain ⟨a', ha', hr, ho⟩ := hrep a ha
    exact fun hb => (henv.limits p hp a' ha').1 (before_of_le ho hr hb)

theorem members_length {rest : TmmbrSet} {stack : List (SetElement × ℚ)}
    (henv : Envelope line f (f :: rest) stack) : stack.length ≤ rest.length + 1 := by
  have hnd : (stack.map Prod.fst).Nodup := by
    rw [List.Nodup, List.pairwise_map]
    refine henv.stack.grows.imp fun {p q} h (heq : p.1 = q.1) => ?_
    rw [heq] at h
    exact absurd h.1 (lt_irrefl _)
  have hsub : stack.map Prod.fst ⊆ f :: rest := by
    intro m hm
    obtain ⟨p, hp, rfl⟩ := List.mem_map.1 hm
    exact henv.mem p hp
  have hle := (hnd.subperm hsub).length_le
  rwa [List.length_map, List.length_cons] at hle

/-- The search among several requests. -/
theorem findBoundingSetOf_spec {k : Nat} (hreg : Regular set) (hset : ∀ e ∈ set, isSet e = true)
    (hn : 2 ≤ set.length) : ∃ bounding,
    findBoundingSetOf set.length (set ++ List.replicate k cleared) = some bounding ∧
      0 < bounding.length ∧ bounding.length ≤ set.length ∧ IsLowerEnvelope set bounding := by
  have hfilter : (set ++ List.replicate k cleared).filter isSet = set := by
    rw [List.filter_append, List.filter_eq_self.2 hset, List.filter_replicate, isSet_cleared,
      if_neg Bool.false_ne_true, List.append_nil]
  have hsifted : Sifted set ((keepLowestAll (sortByOH (set ++ List.replicate k cleared).length
      (set ++ List.replicate k cleared))).filter isSet) := by
    have := sifted_keepLowestAll (set ++ List.replicate k cleared)
      (by rw [hfilter]; exact hreg.fits) (fun e he hs => by
        obtain he | he := List.mem_append.1 he
        · rw [hset e he] at hs
          cases hs
        · exact List.eq_of_mem_replicate he)
    rwa [hfilter] at this
  rw [findBoundingSetOf, if_neg (by omega)]
  generalize keepLowestAll _ = kept at hsifted
  have hne : set ≠ [] := List.ne_nil_of_length_pos (by omega)
  obtain ⟨hfirst, hlowest, before, hsplit, hcount, hrest⟩ := first_spec hsifted hne
  dsimp only
  rw [hcount]
  change ∃ bounding, members (runWhile Selection.cond Selection.body (Selection.measure
    ⟨_, remaining kept (minIndex kept), _, _, _⟩)
    ⟨_, remaining kept (minIndex kept), _, _, _⟩).selected = some bounding ∧ _
  generalize entry kept (minIndex kept) = f at *
  generalize remaining kept (minIndex kept) = candidateSet at *
  have hlen := hsifted.length
  have hcounted := hsifted.length_eq
  rw [hsplit] at hsifted hlen hcounted
  rw [List.length_append, List.length_cons] at hlen hcounted
  have hrising := rising_of_regular hreg hsifted hlowest hrest
  have hfits := hreg.fits f hlowest.1
  have hbottom : Envelope line f [f] [(f, 0)] := by
    have hpos := UInt32.lt_iff_toNat_lt.1 (of_decide_eq_true hfirst)
    exact .bottom (mul_pos (by norm_num) (Nat.cast_pos.2 hpos)) (line_nonneg f).2
  have hstart : Walking f (candidateSet.filter isSet) ⟨set.length - 1 - before.length, candidateSet,
      true, cleared, [⟨f, ⟨0, 1⟩, maxPacketRate f⟩]⟩ := by
    refine .fetching (List.nil_append _).symm rfl rfl (by dsimp only; omega)
      (fun hnil => .inl ?_) ?_
    · -- nothing is left: then each overhead was there once, and nothing is counted either
      dsimp only
      rw [hnil] at hcounted hsifted
      obtain hnd | hex := hreg.counted
      · have := hcounted hnd
        rw [List.length_nil] at this
        omega
      · obtain ⟨a, ha, hlt⟩ := hex f hlowest
        obtain ⟨a', ha', ho, -⟩ := hsifted.covers a ha
        refine absurd hlt (UInt32.not_lt.2 ?_)
        rw [← ho]
        obtain ha' | ha' := List.mem_append.1 ha'
        · have := (List.pairwise_append.1 hsifted.increasing).2.2 a' ha' f (.head _)
          exact UInt32.le_of_lt this
        · rw [List.mem_singleton.1 ha']
          exact UInt32.le_refl _
    · rw [stackOf, List.map_singleton, Rate.val, Nat.cast_zero, zero_div]
      exact hbottom
  have henv := walk_envelope hrising hstart fun m hm => by
    rw [List.mem_singleton.1 hm]
    exact ⟨Nat.one_pos, rfl, hfits⟩
  generalize Selection.selected (runWhile _ _ _ _) = selected at henv ⊢
  have hlength := members_length henv
  rw [stackOf, List.length_map] at hlength
  have hpos : 0 < selected.length := by
    refine List.length_pos_iff.2 fun hnil => ?_
    rw [hnil] at henv
    nomatch henv.stack
  have hmembers : members selected = some ((stackOf selected).map Prod.fst).reverse := by
    rw [members, if_neg (by rw [List.isEmpty_iff]; exact List.length_pos_iff.1 hpos), stackOf,
      List.map_map, ← List.map_reverse]
    rfl
  refine ⟨_, hmembers, ?_, ?_, isLowerEnvelope_of hsifted hlowest henv⟩
  · rw [List.length_reverse, List.length_map, stackOf, List.length_map]
    exact hpos
  · rw [List.length_reverse, List.length_map, stackOf, List.length_map]
    omega

/-- The search among one. -/
theorem isLowerEnvelope_singleton {a : SetElement} (ha : isSet a = true) :
    IsLowerEnvelope [a] [a] where
  mem _ hm := hm
  increasing := List.pairwise_singleton _ _
  covers x _ _ b hb := ⟨a, .head _, by rw [List.mem_singleton.1 hb]⟩
  lowest m hm := by
    rw [List.mem_singleton.1 hm]
    refine ⟨0, le_refl _, ?_, fun n hn hne => absurd (List.mem_singleton.1 hn) hne⟩
    rw [Line.at, mul_zero, sub_zero]
    exact mul_pos (by norm_num) (Nat.cast_pos.2 (UInt32.lt_iff_toNat_lt.1 (of_decide_eq_true ha)))
  ends last hlast b hb := by
    cases hlast
    rw [List.mem_singleton.1 hb]
    exact lt_irrefl _

/-- The bounding set is the lower envelope of the requests, above zero. -/
theorem findTmmbrBoundingSet_envelope (candidates : TmmbrSet)
    (h : Regular (candidates.filter isSet)) : ∃ bounding,
    findTmmbrBoundingSet candidates = some bounding ∧
      IsLowerEnvelope (candidates.filter isSet) bounding := by
  have hset : ∀ e ∈ candidates.filter isSet, isSet e = true := fun e he => (List.mem_filter.1 he).2
  have hle : (candidates.filter isSet).length ≤ candidates.length := List.length_filter_le _ _
  rw [findTmmbrBoundingSet]
  generalize candidates.filter isSet = set at h hset hle ⊢
  obtain hn | hn | hn : set.length = 0 ∨ set.length = 1 ∨ 2 ≤ set.length := by omega
  · rw [if_neg (by omega), List.length_eq_zero_iff.1 hn]
    exact ⟨[], rfl, ⟨nofun, .nil, nofun, nofun, nofun⟩⟩
  · obtain ⟨a, rfl⟩ := List.length_eq_one_iff.1 hn
    have ha := hset a (.head _)
    have hfilter : ([a] ++ List.replicate (candidates.length - 1) cleared).filter isSet = [a] := by
      rw [List.filter_append, List.filter_eq_self.2 hset, List.filter_replicate, isSet_cleared,
        if_neg Bool.false_ne_true, List.append_nil]
    refine ⟨[a], ?_, isLowerEnvelope_singleton ha⟩
    rw [List.length_singleton, if_pos Nat.one_pos, findBoundingSetOf, if_pos rfl, hfilter]
    rw [List.length_singleton] at hle
    exact if_neg (by rw [List.length_singleton]; omega)
  · obtain ⟨bounding, heq, hpos, hlen, henv⟩ :=
      findBoundingSetOf_spec (k := candidates.length - set.length) h hset hn
    refine ⟨bounding, ?_, henv⟩
    rw [if_pos (by omega), heq]
    exact if_neg (by omega)

/-- Two requests of one overhead, and a third one that is steeper. -/
def fourRequests : TmmbrSet := [⟨110, 20, 1⟩, ⟨100, 10, 2⟩, ⟨130, 20, 3⟩, ⟨125, 24, 4⟩]

theorem regular_four : Regular fourRequests := by
  have hlowest : ∀ f, IsLowest fourRequests f → f = ⟨100, 10, 2⟩ := by
    have hall : ∀ f ∈ fourRequests, (∀ e ∈ fourRequests, f.tmmbr ≤ e.tmmbr) → f = ⟨100, 10, 2⟩ := by
      decide
    exact fun f hf => hall f hf.1 fun e he => (hf.2 e he).1
  refine ⟨?_, fun f hf => ?_, .inr fun f hf => ?_⟩
  · unfold Fits
    decide
  · rw [hlowest f hf]
    decide
  · rw [hlowest f hf]
    decide

theorem findTmmbrBoundingSet_envelope_four : ∃ bounding,
    findTmmbrBoundingSet fourRequests = some bounding ∧
      IsLowerEnvelope fourRequests bounding :=
  findTmmbrBoundingSet_envelope fourRequests regular_four

end Search

end RtcCore.L2.TmmbrHelp
