import RakshaQuant.Lib.Decimal
import RakshaQuant.Lib.Dict

/-! The models of a role, and what a reply of one costs: USD per million tokens
by the longest matching entry of the price table, and INR from it. -/

namespace RakshaQuant

structure ModelSpec where
  provider : String
  model : String
deriving DecidableEq

namespace ModelSpec

def spec (m : ModelSpec) : String := m.provider ++ ":" ++ m.model

def isFree (m : ModelSpec) : Bool := ":free".toList.isSuffixOf m.model.toList

end ModelSpec

/-- A role's models, the primary one first. -/
structure RoleConfig where
  role : String
  chain : List ModelSpec

/-- The tokens of a reply, and what the provider says it cost, if it does. -/
structure Usage where
  inputTokens : ℤ
  outputTokens : ℤ
  cacheReadTokens : ℤ
  cacheWriteTokens : ℤ
  reportedCostUsd : Option ℚ
deriving DecidableEq

structure Price where
  inputPerM : ℚ
  outputPerM : ℚ
  cacheRead : ℚ
  cacheWrite : ℚ

structure PricingTable where
  prices : Dict String Price

namespace PricingTable

/-- The first longest of some keys, as `max` finds it. -/
def longest : List String → Option String
  | [] => none
  | key :: rest =>
    match longest rest with
    | none => some key
    | some other => some (if key.length < other.length then other else key)

def price (table : PricingTable) (m : ModelSpec) : Option Price :=
  if m.isFree then some ⟨0, 0, 1, 1⟩
  else (longest (table.prices.keys.filter fun key => key.isPrefixOf m.spec)).bind table.prices.get?

/-- A cost that the provider reports overrides the table. -/
def costUsd (table : PricingTable) (m : ModelSpec) (usage : Usage) : Option ℚ :=
  match usage.reportedCostUsd with
  | some cost => some cost
  | none => (table.price m).map fun price =>
    let total : ℚ := (usage.inputTokens * price.inputPerM + usage.outputTokens * price.outputPerM +
      usage.cacheReadTokens * price.inputPerM * price.cacheRead +
      usage.cacheWriteTokens * price.inputPerM * price.cacheWrite) / 1000000
    Decimal.quantize (1 / 1000000) total

end PricingTable

def toInr (usd : Option ℚ) (usdInr : ℚ) : Option ℚ :=
  usd.map fun usd => Decimal.quantize (1 / 10000) (usd * usdInr)

end RakshaQuant
