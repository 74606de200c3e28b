import RtcCore.Core.ComparedMap
import RtcCore.L3Video.Extraction

/-!
# The frame lists as maps

`FrameList` is a `std::map` under `TimestampLessThan`. The model goes through
its frames from the first one; the map descends through a search tree, and what
it meets on the way depends on the shape of the tree (`ComparedMap`). In order,
and within one half of the timestamps' circle, the two come to the same: the
frame under a timestamp (`popFrame_eq`) and the place of a new one
(`insertFrame_eq`). `popFrame_reachable` says so of the two lists of every run
whose look-ups are ordered.
-/
namespace RtcCore.L3

open Serial

namespace FrameList

theorem timestamp_strictWeak (base : UInt32) :
    StrictWeakOn timestampLessThan (inHalf base) where
  irrefl {a} ha := by
    rw [← Bool.not_eq_true, (timestamp_ranked base).lt_iff ha ha]
    exact Nat.lt_irrefl _
  trans {a b c} ha hb hc := by
    rw [(timestamp_ranked base).lt_iff ha hb, (timestamp_ranked base).lt_iff hb hc,
      (timestamp_ranked base).lt_iff ha hc]
    exact Nat.lt_trans
  equiv_trans {a b c} ha hb hc := by
    simp only [← Bool.not_eq_true, (timestamp_ranked base).lt_iff ha hb,
      (timestamp_ranked base).lt_iff hb ha, (timestamp_ranked base).lt_iff hb hc,
      (timestamp_ranked base).lt_iff hc hb, (timestamp_ranked base).lt_iff ha hc,
      (timestamp_ranked base).lt_iff hc ha]
    omega

variable {base t : UInt32} {l : FrameList} {f : FrameBuffer}

theorem InOrder.sorted (ho : l.InOrder) (hl : ∀ g ∈ l, inHalf base g.timestamp) :
    ComparedMap.Sorted timestampLessThan FrameBuffer.timestamp (inHalf base) l := ⟨hl, ho⟩

/-- A search meets the frame that stands between smaller and greater ones. -/
theorem bound_between (search : Search UInt32) (p : UInt32 → Bool) {a b : FrameList}
    (ha : ∀ g ∈ a, p g.timestamp = true) (hb : ∀ g ∈ b, p g.timestamp = false) :
    search.bound p ((a ++ b).map FrameBuffer.timestamp) = a.length := by
  rw [List.map_append, search.bound_append, List.length_map]
  · intro x hx
    obtain ⟨g, hg, rfl⟩ := List.mem_map.1 hx
    exact ha g hg
  · intro x hx
    obtain ⟨g, hg, rfl⟩ := List.mem_map.1 hx
    exact hb g hg

/-- The frame under a timestamp, and the others, whichever way the tree is searched. -/
theorem popFrame_eq (search : Search UInt32) (ho : l.InOrder)
    (hl : ∀ g ∈ l, inHalf base g.timestamp) (ht : inHalf base t) :
    l.popFrame t =
      (ComparedMap.find? search timestampLessThan FrameBuffer.timestamp t l).map fun f =>
        (f, ComparedMap.erase search timestampLessThan FrameBuffer.timestamp t l) := by
  have hstrict := timestamp_strictWeak base
  cases h : l.popFrame t with
  | none =>
    have hnone : ComparedMap.find? search timestampLessThan FrameBuffer.timestamp t l = none :=
      (ComparedMap.find?_eq_none_iff hstrict (ho.sorted hl) ht).2 fun g hg hge => by
        have := Keyed.pop_none h g hg
        rw [Keyed.equiv, hge] at this
        simpa using this
    rw [hnone]
    rfl
  | some r =>
    obtain ⟨f, l'⟩ := r
    obtain ⟨heq, a, b, rfl, rfl⟩ := Keyed.pop_some h
    have hmem : f ∈ a ++ f :: b := List.mem_append_right _ List.mem_cons_self
    obtain rfl : f.timestamp = t :=
      ((timestamp_ranked base).equiv_iff (hl f hmem) ht).1 heq
    obtain ⟨-, hfb, hab⟩ := List.pairwise_append.1 ho
    have hself := hstrict.irrefl ht
    have hfound : ComparedMap.find? search timestampLessThan FrameBuffer.timestamp f.timestamp
        (a ++ f :: b) = some f :=
      (ComparedMap.find?_eq_some_iff hstrict (ho.sorted hl) ht).2 ⟨hmem, hself, hself⟩
    have hplace := bound_between search (fun y => timestampLessThan y f.timestamp)
      (a := a) (b := f :: b) (fun g hg => hab g hg f List.mem_cons_self) fun g hg => by
        rcases List.mem_cons.1 hg with rfl | hg
        · exact hself
        · exact newerTimestamp_asymm ((List.pairwise_cons.1 hfb).1 g hg)
    rw [ComparedMap.erase, hfound, hplace]
    simp

/-- The place of a new frame, whichever way the tree is searched. -/
theorem insertFrame_eq (search : Search UInt32) (ho : l.InOrder)
    (hl : ∀ g ∈ l, inHalf base g.timestamp) (hf : inHalf base f.timestamp)
    (hnew : l.popFrame f.timestamp = none) :
    l.insertFrame f =
      ComparedMap.insert search timestampLessThan FrameBuffer.timestamp f l := by
  have hins := ho.insertFrame hl hf
  have hplaced : ∃ a b, l = a ++ b ∧
      Keyed.insertEnd timestampLessThan FrameBuffer.timestamp f l = a ++ f :: b :=
    Keyed.insertEnd_new fun g hg => by
      have := Keyed.pop_none hnew g hg
      rwa [Keyed.equiv, Bool.and_comm] at this
  obtain ⟨a, b, rfl, he⟩ := hplaced
  rw [insertFrame, he] at hins ⊢
  obtain ⟨-, hfb, hab⟩ := List.pairwise_append.1 hins
  have hplace := bound_between search (fun y => !timestampLessThan f.timestamp y)
    (a := a) (b := b)
    (fun g hg => by
      rw [Bool.not_eq_true']
      exact newerTimestamp_asymm (hab g hg f List.mem_cons_self))
    fun g hg => by
      rw [Bool.not_eq_false']
      exact (List.pairwise_cons.1 hfb).1 g hg
  rw [ComparedMap.insert, hplace, List.take_left, List.drop_left]

end FrameList

namespace System

/-- In a run whose look-ups are ordered each look-up finds what the map finds. -/
theorem popFrame_reachable {s : System} (hr : (lts.within Ordered).Reachable s) {t : UInt32}
    (ht : s.jb.OneHalf t) (search : Search UInt32) (l : FrameList)
    (hl : l = s.jb.decodableFrames ∨ l = s.jb.incompleteFrames) :
    l.popFrame t =
      (ComparedMap.find? search timestampLessThan FrameBuffer.timestamp t l).map fun f =>
        (f, ComparedMap.erase search timestampLessThan FrameBuffer.timestamp t l) := by
  have horder := inOrder_reachable s (hr.weaken fun s op h => by
    cases op with
    | insertPacket p => exact h
    | _ => trivial)
  obtain ⟨base, ht, hf⟩ := ht
  rcases hl with rfl | rfl
  · exact FrameList.popFrame_eq search horder.1 (fun g hg => hf g (List.mem_append_left _ hg)) ht
  · exact FrameList.popFrame_eq search horder.2 (fun g hg => hf g (List.mem_append_right _ hg)) ht

end System

end RtcCore.L3
