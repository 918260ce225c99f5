import Mathlib.Algebra.Order.Ring.Rat
import Mathlib.Tactic.NormNum
import RakshaQuant.Domain.Risk

/-! The bounded risk limits. Every limit carries the bounds its field declares, so
limits that are out of bounds cannot be built. -/

namespace RakshaQuant

/-- What a breached limit asks of its kill switch. -/
inductive KillAction
  | haltNew
  | flatten
deriving DecidableEq

structure RiskLimits where
  -- order sizing
  riskPerTrade : ℚ
  maxPositionPct : ℚ
  maxPositionInr : ℚ
  advPct : ℚ
  kellyEnabled : Bool
  kellyMinTrades : ℕ
  kellyScale : ℚ
  -- stops and prices
  minRr : ℚ
  stopAtrMin : ℚ
  stopAtrMax : ℚ
  maxStopPct : ℚ
  priceCollarPct : ℚ
  allowShort : Bool
  -- portfolio
  maxPositions : ℕ
  maxGrossExposurePct : ℚ
  maxSectorPct : ℚ
  maxHeatPct : ℚ
  dailyLossLimitPct : ℚ
  maxDrawdownPct : ℚ
  maxEntriesPerDay : ℕ
  -- strategies
  enabledStrategies : List String
  strategyCapitalPct : ℚ
  strategyDailyLossPct : ℚ
  strategyMaxConsecLosses : ℕ
  strategyOrdersPerMin : ℕ
  -- system
  maxQuoteAgeS : ℚ
  maxOpenOrders : ℕ
  ordersPerMin : ℕ
  rejectStormCount : ℕ
  rejectStormWindowS : ℚ
  -- kill switches
  dailyLossAction : KillAction
  drawdownAction : KillAction
  rearmOnNewDay : Bool
  flattenEscalateAfter : ℕ
  riskPerTrade_mem : 0 < riskPerTrade ∧ riskPerTrade ≤ 5 / 100
  maxPositionPct_mem : 0 < maxPositionPct ∧ maxPositionPct ≤ 25 / 100
  maxPositionInr_pos : 0 < maxPositionInr
  advPct_mem : 0 < advPct ∧ advPct ≤ 10 / 100
  kellyMinTrades_ge : 30 ≤ kellyMinTrades
  kellyScale_mem : 0 < kellyScale ∧ kellyScale ≤ 1
  minRr_mem : 5 / 10 ≤ minRr ∧ minRr ≤ 10
  stopAtrMin_mem : 0 < stopAtrMin ∧ stopAtrMin ≤ 10
  stopAtrMax_mem : 0 < stopAtrMax ∧ stopAtrMax ≤ 10
  maxStopPct_mem : 0 < maxStopPct ∧ maxStopPct ≤ 25 / 100
  priceCollarPct_mem : 0 < priceCollarPct ∧ priceCollarPct ≤ 20 / 100
  maxPositions_mem : 1 ≤ maxPositions ∧ maxPositions ≤ 20
  maxGrossExposurePct_mem : 0 < maxGrossExposurePct ∧ maxGrossExposurePct ≤ 1
  maxSectorPct_mem : 0 < maxSectorPct ∧ maxSectorPct ≤ 1
  maxHeatPct_mem : 0 < maxHeatPct ∧ maxHeatPct ≤ 25 / 100
  dailyLossLimitPct_mem : 0 < dailyLossLimitPct ∧ dailyLossLimitPct ≤ 10 / 100
  maxDrawdownPct_mem : 0 < maxDrawdownPct ∧ maxDrawdownPct ≤ 25 / 100
  maxEntriesPerDay_mem : 1 ≤ maxEntriesPerDay ∧ maxEntriesPerDay ≤ 100
  strategyCapitalPct_mem : 0 < strategyCapitalPct ∧ strategyCapitalPct ≤ 1
  strategyDailyLossPct_mem : 0 < strategyDailyLossPct ∧ strategyDailyLossPct ≤ 10 / 100
  strategyMaxConsecLosses_mem : 1 ≤ strategyMaxConsecLosses ∧ strategyMaxConsecLosses ≤ 50
  strategyOrdersPerMin_mem : 1 ≤ strategyOrdersPerMin ∧ strategyOrdersPerMin ≤ 60
  maxQuoteAgeS_mem : 0 < maxQuoteAgeS ∧ maxQuoteAgeS ≤ 3600
  maxOpenOrders_mem : 1 ≤ maxOpenOrders ∧ maxOpenOrders ≤ 200
  ordersPerMin_mem : 1 ≤ ordersPerMin ∧ ordersPerMin ≤ 120
  rejectStormCount_mem : 1 ≤ rejectStormCount ∧ rejectStormCount ≤ 100
  rejectStormWindowS_mem : 0 < rejectStormWindowS ∧ rejectStormWindowS ≤ 86400
  flattenEscalateAfter_mem : 1 ≤ flattenEscalateAfter ∧ flattenEscalateAfter ≤ 20
  -- `_consistent`
  stopAtr_lt : stopAtrMin < stopAtrMax
  riskPerTrade_le : riskPerTrade ≤ maxPositionPct
  maxPositionPct_le : maxPositionPct ≤ maxGrossExposurePct
  enabledStrategies_ne : enabledStrategies ≠ []

/-- The defaults, which pass every check. -/
def RiskLimits.default : RiskLimits where
  riskPerTrade := 2 / 100
  maxPositionPct := 10 / 100
  maxPositionInr := 100000
  advPct := 1 / 100
  kellyEnabled := false
  kellyMinTrades := 30
  kellyScale := 25 / 100
  minRr := 15 / 10
  stopAtrMin := 5 / 10
  stopAtrMax := 3
  maxStopPct := 5 / 100
  priceCollarPct := 3 / 100
  allowShort := false
  maxPositions := 5
  maxGrossExposurePct := 50 / 100
  maxSectorPct := 30 / 100
  maxHeatPct := 6 / 100
  dailyLossLimitPct := 1 / 100
  maxDrawdownPct := 5 / 100
  maxEntriesPerDay := 10
  enabledStrategies := ["momentum", "mean_reversion"]
  strategyCapitalPct := 50 / 100
  strategyDailyLossPct := 5 / 1000
  strategyMaxConsecLosses := 4
  strategyOrdersPerMin := 5
  maxQuoteAgeS := 1200
  maxOpenOrders := 20
  ordersPerMin := 10
  rejectStormCount := 5
  rejectStormWindowS := 600
  dailyLossAction := .flatten
  drawdownAction := .flatten
  rearmOnNewDay := false
  flattenEscalateAfter := 3
  riskPerTrade_mem := by norm_num
  maxPositionPct_mem := by norm_num
  maxPositionInr_pos := by norm_num
  advPct_mem := by norm_num
  kellyMinTrades_ge := le_rfl
  kellyScale_mem := by norm_num
  minRr_mem := by norm_num
  stopAtrMin_mem := by norm_num
  stopAtrMax_mem := by norm_num
  maxStopPct_mem := by norm_num
  priceCollarPct_mem := by norm_num
  maxPositions_mem := by norm_num
  maxGrossExposurePct_mem := by norm_num
  maxSectorPct_mem := by norm_num
  maxHeatPct_mem := by norm_num
  dailyLossLimitPct_mem := by norm_num
  maxDrawdownPct_mem := by norm_num
  maxEntriesPerDay_mem := by norm_num
  strategyCapitalPct_mem := by norm_num
  strategyDailyLossPct_mem := by norm_num
  strategyMaxConsecLosses_mem := by norm_num
  strategyOrdersPerMin_mem := by norm_num
  maxQuoteAgeS_mem := by norm_num
  maxOpenOrders_mem := by norm_num
  ordersPerMin_mem := by norm_num
  rejectStormCount_mem := by norm_num
  rejectStormWindowS_mem := by norm_num
  flattenEscalateAfter_mem := by norm_num
  stopAtr_lt := by norm_num
  riskPerTrade_le := by norm_num
  maxPositionPct_le := by norm_num
  enabledStrategies_ne := by simp

end RakshaQuant
