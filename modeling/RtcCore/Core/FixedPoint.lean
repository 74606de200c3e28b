import Mathlib.Algebra.Order.BigOperators.Group.List
import Mathlib.Algebra.Order.Ring.Int
import Mathlib.Tactic.Ring

/-!
# Fixed-point entries with a constant sum

Entries scaled by `f / D` and rounded down lose less than one each
(`sum_scale_le`, `le_sum_scale`). `repair` is the pass that gives the loss
back: going over the entries it adds to each at most its `share` until nothing
is left, so it succeeds if the shares together make up for the loss
(`repair_spec`).
-/
namespace RtcCore.FixedPoint

/-! ## Rounding down -/

def scale (f D : Int) (l : List Int) : List Int := l.map fun v => v * f / D

variable {f D : Int} {l : List Int}

@[simp] theorem length_scale : (scale f D l).length = l.length := List.length_map _

theorem scale_nonneg (hf : 0 ≤ f) (hD : 0 < D) (h : ∀ v ∈ l, 0 ≤ v) : ∀ v ∈ scale f D l, 0 ≤ v := by
  intro v hv
  obtain ⟨w, hw, rfl⟩ := List.mem_map.1 hv
  exact Int.ediv_nonneg (Int.mul_nonneg (h w hw) hf) (Int.le_of_lt hD)

theorem sum_scale_le (hD : 0 < D) : D * (scale f D l).sum ≤ f * l.sum := by
  induction l with
  | nil => simp [scale]
  | cons v l ih =>
    have hv : D * (v * f / D) ≤ v * f := Int.mul_ediv_self_le (Int.ne_of_gt hD)
    have hcons : D * (scale f D (v :: l)).sum = D * (v * f / D) + D * (scale f D l).sum := by
      rw [scale, List.map_cons, List.sum_cons, Int.mul_add]
      rfl
    have hsum : f * (v :: l).sum = v * f + f * l.sum := by
      rw [List.sum_cons]
      ring
    omega

theorem le_sum_scale (hD : 0 < D) : f * l.sum ≤ D * (scale f D l).sum + (D - 1) * l.length := by
  induction l with
  | nil => simp [scale]
  | cons v l ih =>
    have hv : v * f < D * (v * f / D) + D := Int.lt_mul_ediv_self_add hD
    have hcons : D * (scale f D (v :: l)).sum = D * (v * f / D) + D * (scale f D l).sum := by
      rw [scale, List.map_cons, List.sum_cons, Int.mul_add]
      rfl
    have hsum : f * (v :: l).sum = v * f + f * l.sum := by
      rw [List.sum_cons]
      ring
    have hlen : (D - 1) * ((v :: l).length : Int) = (D - 1) * l.length + (D - 1) := by
      rw [List.length_cons]
      push_cast
      ring
    omega

/-! ## Giving the loss back -/

/-- The sum that is left and the entries; `flip` is the sign of the corrections. -/
def repair (flip : Int) (share : Int → Int) : Int → List Int → Int × List Int
  | sum, [] => (sum, [])
  | sum, v :: l =>
    if sum.natAbs > 0 then
      let correction := flip * min (sum.natAbs : Int) (share v)
      let rest := repair flip share (sum + correction) l
      (rest.1, (v + correction) :: rest.2)
    else (sum, v :: l)

/-- What a loss of `-sum` comes to. -/
structure Repaired (share : Int → Int) (sum : Int) (l : List Int) (out : Int × List Int) : Prop where
  length : out.2.length = l.length
  nonneg : ∀ v ∈ out.2, 0 ≤ v
  moved : out.2.sum - l.sum = out.1 - sum
  left : out.1 = min 0 (sum + (l.map share).sum)

theorem repair_spec (share : Int → Int) {sum : Int} (hsum : sum ≤ 0) (hl : ∀ v ∈ l, 0 ≤ v)
    (hshare : ∀ v ∈ l, 0 ≤ share v) : Repaired share sum l (repair 1 share sum l) := by
  induction l generalizing sum with
  | nil => exact ⟨rfl, nofun, by simp [repair], by simp [repair]; omega⟩
  | cons v l ih =>
    have hv := hl v List.mem_cons_self
    have hsv := hshare v List.mem_cons_self
    have hrest : 0 ≤ (l.map share).sum := by
      refine List.sum_nonneg fun x hx => ?_
      obtain ⟨w, hw, rfl⟩ := List.mem_map.1 hx
      exact hshare w (List.mem_cons_of_mem v hw)
    unfold repair
    by_cases hzero : sum.natAbs > 0
    · rw [if_pos hzero]
      dsimp only
      have hneg : sum + 1 * min (sum.natAbs : Int) (share v) ≤ 0 := by omega
      have hr := ih hneg (fun w hw => hl w (List.mem_cons_of_mem v hw))
        (fun w hw => hshare w (List.mem_cons_of_mem v hw))
      refine ⟨?_, ?_, ?_, ?_⟩
      · rw [List.length_cons, List.length_cons, hr.length]
      · intro w hw
        rcases List.mem_cons.1 hw with rfl | hw
        · omega
        · exact hr.nonneg w hw
      · have := hr.moved
        rw [List.sum_cons, List.sum_cons]
        omega
      · rw [hr.left, List.map_cons, List.sum_cons]
        omega
    · rw [if_neg hzero]
      refine ⟨rfl, hl, by simp, ?_⟩
      rw [List.map_cons, List.sum_cons]
      dsimp only
      omega

end RtcCore.FixedPoint
