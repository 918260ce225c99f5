import Mathlib.Data.Rat.Floor
import Mathlib.Tactic.Positivity
import Mathlib.Tactic.Linarith

/-! Decimal rounding over exact rationals: to an integer with ties to even or
away from zero, to a quantum, and to a tick grid in either direction. -/

namespace Decimal

/-- The nearest integer, ties to the even one. -/
def roundHalfEven (x : ℚ) : ℤ :=
  let lo := ⌊x⌋
  if x - lo < 1 / 2 then lo
  else if 1 / 2 < x - lo then lo + 1
  else if lo % 2 = 0 then lo else lo + 1

/-- The nearest integer, ties away from zero. -/
def roundHalfUp (x : ℚ) : ℤ := if 0 ≤ x then ⌊x + 1 / 2⌋ else -⌊-x + 1 / 2⌋

/-- Round to a multiple of `quantum`, ties to even. -/
def quantize (quantum x : ℚ) : ℚ := roundHalfEven (x / quantum) * quantum

/-- Round to a multiple of `quantum`, ties away from zero. -/
def quantizeHalfUp (quantum x : ℚ) : ℚ := roundHalfUp (x / quantum) * quantum

theorem roundHalfUp_nonneg {x : ℚ} (h : 0 ≤ x) : 0 ≤ roundHalfUp x := by
  rw [roundHalfUp, if_pos h]
  exact Int.floor_nonneg.mpr (by positivity)

theorem roundHalfUp_mono {x y : ℚ} (hx : 0 ≤ x) (h : x ≤ y) : roundHalfUp x ≤ roundHalfUp y := by
  rw [roundHalfUp, roundHalfUp, if_pos hx, if_pos (hx.trans h)]
  exact Int.floor_mono (by linarith)

theorem quantize_nonneg {quantum x : ℚ} (hq : 0 ≤ quantum) (h : 0 ≤ x) :
    0 ≤ quantize quantum x := by
  have hfloor : 0 ≤ ⌊x / quantum⌋ := Int.floor_nonneg.mpr (div_nonneg h hq)
  have hround : 0 ≤ roundHalfEven (x / quantum) := by
    unfold roundHalfEven
    dsimp only
    split_ifs <;> omega
  exact mul_nonneg (by exact_mod_cast hround) hq

theorem quantizeHalfUp_nonneg {quantum x : ℚ} (hq : 0 ≤ quantum) (h : 0 ≤ x) :
    0 ≤ quantizeHalfUp quantum x := by
  have : (0 : ℚ) ≤ roundHalfUp (x / quantum) := by
    exact_mod_cast roundHalfUp_nonneg (div_nonneg h hq)
  exact mul_nonneg this hq

theorem quantizeHalfUp_mono {quantum x y : ℚ} (hq : 0 ≤ quantum) (hx : 0 ≤ x) (h : x ≤ y) :
    quantizeHalfUp quantum x ≤ quantizeHalfUp quantum y := by
  have hround : (roundHalfUp (x / quantum) : ℚ) ≤ roundHalfUp (y / quantum) := by
    exact_mod_cast roundHalfUp_mono (div_nonneg hx hq) (div_le_div_of_nonneg_right h hq)
  exact mul_le_mul_of_nonneg_right hround hq

/-! ## Ties to even, by order -/

/-- Rounding gives the integer below or the one above. -/
theorem roundHalfEven_bounds (x : ℚ) : ⌊x⌋ ≤ roundHalfEven x ∧ roundHalfEven x ≤ ⌊x⌋ + 1 := by
  unfold roundHalfEven
  dsimp only
  split_ifs <;> omega

@[simp] theorem roundHalfEven_intCast (n : ℤ) : roundHalfEven n = n := by
  unfold roundHalfEven
  simp

theorem roundHalfEven_mono {x y : ℚ} (h : x ≤ y) : roundHalfEven x ≤ roundHalfEven y := by
  rcases lt_or_eq_of_le (Int.floor_mono h) with hlt | heq
  · have hx := (roundHalfEven_bounds x).2
    have hy := (roundHalfEven_bounds y).1
    omega
  · -- on the same side of an integer the fractions decide
    have hfrac : x - ⌊x⌋ ≤ y - ⌊y⌋ := by rw [heq]; linarith
    unfold roundHalfEven
    dsimp only
    rw [heq] at hfrac ⊢
    split_ifs <;> first | omega | linarith

/-- An even integer can be added before or after. -/
theorem roundHalfEven_add_even (x : ℚ) {n : ℤ} (hn : n % 2 = 0) :
    roundHalfEven (x + n) = roundHalfEven x + n := by
  have hfrac : x + n - (⌊x⌋ + n : ℤ) = x - ⌊x⌋ := by
    push_cast
    ring
  have hparity : (⌊x⌋ + n) % 2 = ⌊x⌋ % 2 := by omega
  unfold roundHalfEven
  rw [Int.floor_add_intCast]
  dsimp only
  rw [hfrac, hparity]
  split_ifs <;> omega

theorem quantize_mono {quantum x y : ℚ} (hq : 0 ≤ quantum) (h : x ≤ y) :
    quantize quantum x ≤ quantize quantum y := by
  have hround : (roundHalfEven (x / quantum) : ℚ) ≤ roundHalfEven (y / quantum) := by
    exact_mod_cast roundHalfEven_mono (div_le_div_of_nonneg_right h hq)
  exact mul_le_mul_of_nonneg_right hround hq

end Decimal
