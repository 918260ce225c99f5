import Mathlib.Algebra.Order.Floor.Ring
import Mathlib.Algebra.Order.Field.Basic
import Mathlib.Data.Int.ModEq
import Mathlib.Order.Bounds.Basic
import Mathlib.Tactic.Linarith

/-! Sizes under caps. The largest size that respects a request, a list of caps and
a lot is the smallest of them, rounded down to whole lots. -/

namespace Caps

/-- Down to a whole number of lots. -/
def roundDown (lot q : ℤ) : ℤ := q - q % lot

theorem dvd_roundDown (lot q : ℤ) : lot ∣ roundDown lot q :=
  Int.dvd_self_sub_emod

/-- Rounding down gives the largest multiple of the lot below a bound. -/
theorem isGreatest_roundDown {lot : ℤ} (hlot : 0 < lot) (q : ℤ) :
    IsGreatest {x | lot ∣ x ∧ x ≤ q} (roundDown lot q) := by
  constructor
  · have := Int.emod_nonneg q hlot.ne'
    exact ⟨dvd_roundDown lot q, by unfold roundDown; omega⟩
  · rintro x ⟨⟨k, rfl⟩, hle⟩
    have hdiv : k ≤ q / lot := by
      rw [Int.le_ediv_iff_mul_le hlot, mul_comm]
      exact hle
    calc lot * k ≤ lot * (q / lot) := mul_le_mul_of_nonneg_left hdiv hlot.le
      _ = roundDown lot q := by
        have := Int.emod_add_mul_ediv q lot
        unfold roundDown
        omega

/-- Whether the smallest cap is below the request. -/
def binds (requested : Option ℤ) (caps : List ℤ) : Bool :=
  caps.min?.any fun cap => requested.all fun q => cap < q

/-- The smaller of the request and the smallest cap. -/
def smallest (requested : Option ℤ) (caps : List ℤ) : Option ℤ :=
  if binds requested caps then caps.min? else requested

/-- The sizes a request and caps allow. -/
def Within (requested : Option ℤ) (caps : List ℤ) (x : ℤ) : Prop :=
  (∀ q ∈ requested, x ≤ q) ∧ ∀ cap ∈ caps, x ≤ cap

theorem le_min_iff {caps : List ℤ} {cap x : ℤ} (h : caps.min? = some cap) :
    x ≤ cap ↔ ∀ c ∈ caps, x ≤ c := by
  obtain ⟨hmem, hle⟩ := List.min?_eq_some_iff.mp h
  exact ⟨fun hx c hc => hx.trans (hle c hc), fun hx => hx cap hmem⟩

/-- What is within the request and the caps is what is below the smallest of them. -/
theorem within_iff {requested : Option ℤ} {caps : List ℤ} {bound : ℤ}
    (h : smallest requested caps = some bound) (x : ℤ) :
    Within requested caps x ↔ x ≤ bound := by
  unfold smallest binds at h
  cases hmin : caps.min? with
  | none =>
    rw [hmin] at h
    have hnil : caps = [] := by simpa using hmin
    simp only [Option.any_none, Bool.false_eq_true, if_false] at h
    simp [Within, h, hnil]
  | some cap =>
    rw [hmin] at h
    cases requested with
    | none =>
      simp only [Option.any_some, Option.all_none, if_true, Option.some.injEq] at h
      subst h
      simp [Within, le_min_iff hmin]
    | some q =>
      simp only [Option.any_some, Option.all_some, decide_eq_true_eq] at h
      simp only [Within, Option.mem_some_iff, forall_eq', ← le_min_iff hmin]
      split at h <;> obtain rfl := Option.some.inj h <;> omega

theorem smallest_eq_none {requested : Option ℤ} {caps : List ℤ} :
    smallest requested caps = none ↔ requested = none ∧ caps = [] := by
  unfold smallest binds
  cases hmin : caps.min? with
  | none =>
    have hnil : caps = [] := by simpa using hmin
    simp [hnil]
  | some cap =>
    have hne : caps ≠ [] := by
      rintro rfl
      cases hmin
    cases requested with
    | none => simp [hne]
    | some q => by_cases h : cap < q <;> simp [h]

/-- The size rounded down to lots is the largest whole number of lots allowed. -/
theorem isGreatest_size {lot : ℤ} (hlot : 0 < lot) {requested : Option ℤ} {caps : List ℤ}
    {bound : ℤ} (h : smallest requested caps = some bound) :
    IsGreatest {x | lot ∣ x ∧ Within requested caps x} (roundDown lot bound) := by
  simp only [within_iff h]
  exact isGreatest_roundDown hlot bound

/-- Without a request and caps there is no largest size. -/
theorem not_isGreatest_of_none {lot : ℤ} (hlot : 0 < lot) {requested : Option ℤ}
    {caps : List ℤ} (h : smallest requested caps = none) {P : ℤ → Prop} {q : ℤ}
    (hP : ∀ x y, x ≤ y → P x → P y) :
    ¬ IsGreatest {x | P x ∧ lot ∣ x ∧ Within requested caps x} q := by
  obtain ⟨rfl, rfl⟩ := smallest_eq_none.mp h
  rintro ⟨⟨hq, hdvd, -⟩, hub⟩
  have hnext := hub (a := q + lot)
    ⟨hP q _ (by omega) hq, dvd_add hdvd (dvd_refl lot), by simp [Within]⟩
  omega

section

variable {K : Type*} [Field K] [LinearOrder K] [IsStrictOrderedRing K] [FloorRing K]

/-- How many units an amount buys. -/
theorem le_floor_div_iff {amount per : K} (h : 0 < per) (q : ℤ) :
    q ≤ ⌊amount / per⌋ ↔ q * per ≤ amount := by
  rw [Int.le_floor, le_div_iff₀ h]

end

end Caps
