import RakshaQuant.Brokers.Base
import RakshaQuant.Lib.Decimal

/-! The fill model: the price a quantity fills at, worse than the reference by
half the spread and the impact, and rounded adversely to the tick. Floats of the
configuration are exact rationals here and the square root of the impact law is
a parameter; nothing proved depends on its values. -/

namespace RakshaQuant

structure FillModelConfig where
  /-- (minimum turnover, half-spread in basis points), most liquid first. -/
  spreadTiers : List (ℚ × ℚ)
  impactK : ℚ
  participation : ℚ
  maxFillQuotes : ℤ
  defaultSigmaDaily : ℚ
  spreadTiers_ne : spreadTiers ≠ []
  participation_pos : 0 < participation
  participation_le : participation ≤ 1
  maxFillQuotes_pos : 1 ≤ maxFillQuotes

/-- Liquidity facts of an instrument, where known. -/
structure MarketContext where
  advInr : Option ℚ
  advShares : Option ℚ
  sigmaDaily : Option ℚ

namespace MarketContext

def unknown : MarketContext := ⟨none, none, none⟩

end MarketContext

namespace FillModelConfig

/-- `half_spread_bps`: the first tier reached, else the widest. -/
def halfSpreadBps (config : FillModelConfig) (advInr : Option ℚ) : ℚ :=
  let widest := (config.spreadTiers.getLast config.spreadTiers_ne).2
  match advInr with
  | none => widest
  | some adv => ((config.spreadTiers.find? fun tier => tier.1 ≤ adv).map Prod.snd).getD widest

/-- `impact_fraction`: the square-root law. -/
def impactFraction (config : FillModelConfig) (sqrt : ℚ → ℚ) (quantity : ℤ)
    (context : MarketContext) : ℚ :=
  match context.advShares with
  | none => 0
  | some shares =>
    if shares ≤ 0 then 0
    else
      let sigma := match context.sigmaDaily with
        | some s => if s = 0 then config.defaultSigmaDaily else s
        | none => config.defaultSigmaDaily
      config.impactK * sigma * sqrt (quantity / shares)

end FillModelConfig

/-- Round adversely to the tick: up for a buy, down for a sell. -/
def roundToTick (price tick : ℚ) (side : Side) : ℚ :=
  let steps := price / tick
  (match side with
    | .buy => ⌈steps⌉
    | .sell => ⌊steps⌋) * tick

def onTick (price tick : ℚ) : Bool := price / tick = ⌊price / tick⌋

/-- `adverse_price`: never below one tick. -/
def adversePrice (config : FillModelConfig) (sqrt : ℚ → ℚ) (context : MarketContext)
    (reference : ℚ) (side : Side) (tick : ℚ) (quantity : ℤ) : ℚ :=
  let cost := config.halfSpreadBps context.advInr / 10000 +
    config.impactFraction sqrt quantity context
  let move := max (reference * cost) (tick / 2)
  let raw := match side with
    | .buy => reference + move
    | .sell => reference - move
  max (roundToTick raw tick side) tick

theorem adversePrice_pos {tick : ℚ} (h : 0 < tick) (config : FillModelConfig) (sqrt : ℚ → ℚ)
    (context : MarketContext) (reference : ℚ) (side : Side) (quantity : ℤ) :
    0 < adversePrice config sqrt context reference side tick quantity :=
  lt_max_of_lt_right h

end RakshaQuant
