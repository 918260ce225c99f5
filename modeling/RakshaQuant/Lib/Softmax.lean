import Mathlib.Algebra.Order.BigOperators.Group.List
import Mathlib.Analysis.SpecialFunctions.Log.Basic

/-! Softmax with a temperature, over the reals. It gives a distribution in the order of the logits,
and a higher temperature never raises the largest probability: that is the inverse of a sum of
exponentials of the distances to the largest logit, each of which the temperature shrinks. -/

namespace Softmax

variable {l : List ℝ} {x y : ℝ}

/-! ## The largest element -/

/-- The largest element. -/
noncomputable def top (l : List ℝ) : ℝ := l.max?.getD 0

theorem max?_top (hne : l ≠ []) : l.max? = some (top l) := by
  cases h : l.max? with
  | none => exact absurd (List.max?_eq_none_iff.mp h) hne
  | some a => rw [top, h, Option.getD_some]

theorem top_mem (hne : l ≠ []) : top l ∈ l := (List.max?_eq_some_iff.mp (max?_top hne)).1

theorem le_top (hx : x ∈ l) : x ≤ top l :=
  (List.max?_eq_some_iff.mp (max?_top (List.ne_nil_of_mem hx))).2 x hx

theorem top_le {b : ℝ} (hne : l ≠ []) (h : ∀ x ∈ l, x ≤ b) : top l ≤ b := h _ (top_mem hne)

theorem top_map {f : ℝ → ℝ} (hne : l ≠ []) (hf : ∀ x ∈ l, ∀ y ∈ l, x ≤ y → f x ≤ f y) :
    top (l.map f) = f (top l) := by
  have hmap : l.map f ≠ [] := by simpa using hne
  apply le_antisymm
  · refine top_le hmap fun y hy => ?_
    obtain ⟨x, hx, rfl⟩ := List.mem_map.mp hy
    exact hf x hx _ (top_mem hne) (le_top hx)
  · exact le_top (List.mem_map_of_mem (top_mem hne))

/-! ## Softmax -/

/-- The sum of the exponentials of the distances to the largest logit. -/
noncomputable def weight (l : List ℝ) : ℝ := (l.map fun x => Real.exp (x - top l)).sum

noncomputable def softmax (l : List ℝ) : List ℝ :=
  l.map fun x => Real.exp (x - top l) / weight l

theorem weight_pos (hne : l ≠ []) : 0 < weight l := by
  have hmem : Real.exp (top l - top l) ∈ l.map fun x => Real.exp (x - top l) :=
    List.mem_map_of_mem (top_mem hne)
  refine lt_of_lt_of_le (Real.exp_pos (top l - top l)) ?_
  refine List.single_le_sum (fun y hy => ?_) _ hmem
  obtain ⟨x, -, rfl⟩ := List.mem_map.mp hy
  exact (Real.exp_pos _).le

theorem softmax_pos (h : y ∈ softmax l) : 0 < y := by
  obtain ⟨x, hx, rfl⟩ := List.mem_map.mp h
  exact div_pos (Real.exp_pos _) (weight_pos (List.ne_nil_of_mem hx))

theorem sum_map_div (l : List ℝ) (f : ℝ → ℝ) (c : ℝ) :
    (l.map fun x => f x / c).sum = (l.map f).sum / c := by
  induction l with
  | nil => simp
  | cons a l ih => rw [List.map_cons, List.sum_cons, ih, List.map_cons, List.sum_cons, add_div]

/-- Softmax gives a distribution. -/
theorem sum_softmax (hne : l ≠ []) : (softmax l).sum = 1 := by
  rw [softmax, sum_map_div]
  exact div_self (weight_pos hne).ne'

theorem exp_div_weight_le_iff (hne : l ≠ []) :
    Real.exp (x - top l) / weight l ≤ Real.exp (y - top l) / weight l ↔ x ≤ y := by
  rw [div_le_div_iff_of_pos_right (weight_pos hne), Real.exp_le_exp, sub_le_sub_iff_right]

theorem top_softmax (hne : l ≠ []) : top (softmax l) = 1 / weight l := by
  have hmono : ∀ x ∈ l, ∀ y ∈ l, x ≤ y →
      Real.exp (x - top l) / weight l ≤ Real.exp (y - top l) / weight l :=
    fun x _ y _ hxy => (exp_div_weight_le_iff hne).mpr hxy
  rw [softmax, top_map hne hmono, sub_self, Real.exp_zero]

/-- Each logit is further from the largest one at a lower temperature. -/
theorem weight_mono {T₁ T₂ : ℝ} (hne : l ≠ []) (hpos : 0 < T₁) (hle : T₁ ≤ T₂) :
    weight (l.map (· / T₁)) ≤ weight (l.map (· / T₂)) := by
  have htop : ∀ T : ℝ, 0 < T → top (l.map (· / T)) = top l / T := fun T hT =>
    top_map hne fun x _ y _ hxy => div_le_div_of_nonneg_right hxy hT.le
  rw [weight, weight, htop T₁ hpos, htop T₂ (hpos.trans_le hle), List.map_map, List.map_map]
  refine List.sum_le_sum fun x hx => ?_
  simp only [Function.comp_apply, Real.exp_le_exp, ← sub_div]
  -- the distance is not positive, and divided by more it is nearer to zero
  have hdist : 0 ≤ top l - x := sub_nonneg.mpr (le_top hx)
  have hdiv : (top l - x) / T₂ ≤ (top l - x) / T₁ := div_le_div_of_nonneg_left hdist hpos hle
  have hneg : ∀ T : ℝ, (x - top l) / T = -((top l - x) / T) := fun T => by
    rw [← neg_div, neg_sub]
  rw [hneg, hneg]
  exact neg_le_neg hdiv

/-- **A higher temperature never raises the largest probability.** -/
theorem top_softmax_anti {T₁ T₂ : ℝ} (hne : l ≠ []) (hpos : 0 < T₁) (hle : T₁ ≤ T₂) :
    top (softmax (l.map (· / T₂))) ≤ top (softmax (l.map (· / T₁))) := by
  have hmap : ∀ T : ℝ, l.map (· / T) ≠ [] := fun T => by simpa using hne
  rw [top_softmax (hmap T₁), top_softmax (hmap T₂)]
  exact one_div_le_one_div_of_le (weight_pos (hmap T₁)) (weight_mono hne hpos hle)

/-- The softmax of the logarithms of a distribution is the distribution. -/
theorem softmax_log (hpos : ∀ x ∈ l, 0 < x) (hsum : l.sum = 1) : softmax (l.map Real.log) = l := by
  have hexp : ∀ x ∈ l, Real.exp (Real.log x - top (l.map Real.log)) =
      x / Real.exp (top (l.map Real.log)) := fun x hx => by
    rw [Real.exp_sub, Real.exp_log (hpos x hx)]
  have hweight : weight (l.map Real.log) = 1 / Real.exp (top (l.map Real.log)) := by
    have hmap : (l.map Real.log).map (fun x => Real.exp (x - top (l.map Real.log))) =
        l.map fun x => x / Real.exp (top (l.map Real.log)) := by
      rw [List.map_map]
      exact List.map_congr_left hexp
    rw [weight, hmap, sum_map_div l fun x => x, List.map_id', hsum]
  have hmap : ∀ x ∈ l, Real.exp (Real.log x - top (l.map Real.log)) / weight (l.map Real.log) =
      x := fun x hx => by
    rw [hexp x hx, hweight, div_div_div_cancel_right₀ (Real.exp_pos _).ne', div_one]
  rw [softmax, List.map_map]
  exact (List.map_congr_left hmap).trans (List.map_id' l)

end Softmax
