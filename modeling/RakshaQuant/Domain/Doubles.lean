import Mathlib.Data.Rat.Floor
import RakshaQuant.Lib.Decimal

/-! Doubles as the program meets them: exact rationals here, besides the infinities and NaN. -/

namespace RakshaQuant

inductive Double
  | finite (value : ℚ)
  | infinite (negative : Bool)
  | nan
deriving DecidableEq

namespace Double

/-- `low <= x <= high`, which no NaN is. -/
def Within (low high : ℚ) : Double → Prop
  | finite x => low ≤ x ∧ x ≤ high
  | _ => False

instance (low high : ℚ) : DecidablePred (Within low high)
  | finite x => inferInstanceAs (Decidable (low ≤ x ∧ x ≤ high))
  | infinite _ => .isFalse not_false
  | nan => .isFalse not_false

/-- `round(x, 4)`. -/
def round4 : Double → Double
  | finite x => finite (Decimal.quantize (1 / 10000) x)
  | x => x

/-- `x < y`, which is false of a NaN. -/
def Lt : Double → Double → Prop
  | finite x, finite y => x < y
  | finite _, infinite negative => negative = false
  | infinite negative, finite _ => negative = true
  | infinite negative, infinite negative' => negative = true ∧ negative' = false
  | _, _ => False

instance : DecidableRel Lt
  | finite x, finite y => inferInstanceAs (Decidable (x < y))
  | finite _, infinite negative => inferInstanceAs (Decidable (negative = false))
  | infinite negative, finite _ => inferInstanceAs (Decidable (negative = true))
  | infinite negative, infinite negative' =>
    inferInstanceAs (Decidable (negative = true ∧ negative' = false))
  | nan, _ => .isFalse (by simp [Lt])
  | finite _, nan => .isFalse (by simp [Lt])
  | infinite _, nan => .isFalse (by simp [Lt])

/-- `min(1.0, max(0.0, x))`. -/
def clamp01 (x : Double) : Double :=
  let floored := if Lt (finite 0) x then x else finite 0
  if Lt floored (finite 1) then floored else finite 1

end Double

end RakshaQuant
