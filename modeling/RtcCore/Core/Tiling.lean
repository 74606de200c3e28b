import RtcCore.Core.Bytes

/-!
# Ranges that tile an interval

`Tiles lo hi rs`: the ranges `(start, size)` of `rs` are non-empty and stand
one behind the other from `lo` to `hi`. Such ranges are disjoint, and cutting
a byte string along them loses nothing (`Tiles.flatMap_slice`). `Abuts` allows
empty ranges; `Abuts.append_iff` takes a queue of ranges apart.
-/
namespace RtcCore

open Bytes

def Tiles : Nat → Nat → List (Nat × Nat) → Prop
  | lo, hi, [] => lo = hi
  | lo, hi, (start, size) :: rs => start = lo ∧ 0 < size ∧ Tiles (lo + size) hi rs

namespace Tiles

theorem le : ∀ {rs : List (Nat × Nat)} {lo hi : Nat}, Tiles lo hi rs → lo ≤ hi
  | [], _, _, h => Nat.le_of_eq h
  | _ :: _, _, _, h => by
    have := le h.2.2
    omega

theorem append : ∀ {rs ss : List (Nat × Nat)} {lo mid hi : Nat}, Tiles lo mid rs →
    Tiles mid hi ss → Tiles lo hi (rs ++ ss)
  | [], _, _, _, _, h, h' => by
    obtain rfl := h
    exact h'
  | _ :: _, _, _, _, _, h, h' => ⟨h.1, h.2.1, append h.2.2 h'⟩

theorem mem : ∀ {rs : List (Nat × Nat)} {lo hi : Nat}, Tiles lo hi rs → ∀ r ∈ rs,
    lo ≤ r.1 ∧ 0 < r.2 ∧ r.1 + r.2 ≤ hi
  | [], _, _, _, r, hr => absurd hr List.not_mem_nil
  | (start, size) :: rs, lo, hi, ⟨h1, h2, h3⟩, r, hr => by
    rcases List.mem_cons.1 hr with rfl | hr
    · have := le h3
      exact ⟨Nat.le_of_eq h1.symm, h2, by rw [h1]; exact this⟩
    · obtain ⟨h4, h5, h6⟩ := mem h3 r hr
      exact ⟨by omega, h5, h6⟩

/-- Each range ends before the later ones start. -/
theorem pairwise : ∀ {rs : List (Nat × Nat)} {lo hi : Nat}, Tiles lo hi rs →
    rs.Pairwise fun r s => r.1 + r.2 ≤ s.1
  | [], _, _, _ => List.Pairwise.nil
  | (start, size) :: rs, lo, hi, ⟨h1, _, h3⟩ => by
    refine List.Pairwise.cons (fun s hs => ?_) (pairwise h3)
    have := (mem h3 s hs).1
    dsimp only
    omega

theorem flatMap_slice (b : Bytes) : ∀ {rs : List (Nat × Nat)} {lo hi : Nat}, Tiles lo hi rs →
    rs.flatMap (fun r => slice b r.1 r.2) = slice b lo (hi - lo)
  | [], lo, hi, h => by
    obtain rfl := h
    simp [slice]
  | (start, size) :: rs, lo, hi, ⟨h1, h2, h3⟩ => by
    have hle := le h3
    rw [List.flatMap_cons, flatMap_slice b h3, h1, ← slice_add]
    congr 1
    omega

end Tiles

def Abuts : Nat → Nat → List (Nat × Nat) → Prop
  | lo, hi, [] => lo = hi
  | lo, hi, (start, size) :: rs => start = lo ∧ Abuts (lo + size) hi rs

namespace Abuts

theorem append_iff : ∀ {rs ss : List (Nat × Nat)} {lo hi : Nat},
    Abuts lo hi (rs ++ ss) ↔ ∃ mid, Abuts lo mid rs ∧ Abuts mid hi ss
  | [], _, lo, _ => by
    constructor
    · intro h
      exact ⟨lo, rfl, h⟩
    · rintro ⟨_, rfl, h⟩
      exact h
  | (start, size) :: rs, ss, lo, hi => by
    rw [List.cons_append, Abuts, append_iff]
    constructor
    · rintro ⟨h1, mid, h2, h3⟩
      exact ⟨mid, ⟨h1, h2⟩, h3⟩
    · rintro ⟨mid, ⟨h1, h2⟩, h3⟩
      exact ⟨h1, mid, h2, h3⟩

theorem total : ∀ {rs : List (Nat × Nat)} {lo hi : Nat}, Abuts lo hi rs →
    hi = lo + (rs.map (·.2)).sum
  | [], _, _, h => h.symm
  | _ :: _, lo, hi, h => by
    have := total h.2
    rw [List.map_cons, List.sum_cons]
    omega

end Abuts

end RtcCore
