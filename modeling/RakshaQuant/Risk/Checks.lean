import RakshaQuant.Domain.Calendar
import RakshaQuant.Risk.Sizing
import RakshaQuant.Risk.Snapshot

/-! The risk checks by level: system, strategy, portfolio, event calendar and order,
in the order the engine runs them. None of them raises. Beside each check that
caps a size stands what it admits. -/

namespace RakshaQuant

/-- `shares`: whole shares that an amount buys at a price. -/
def shares (amount per : ℚ) : ℤ := if per ≤ 0 ∨ amount ≤ 0 then 0 else ⌊amount / per⌋

theorem le_shares_iff {amount per : ℚ} (h : 0 < per) {q : ℤ} (hq : 0 < q) :
    q ≤ shares amount per ↔ q * per ≤ amount := by
  unfold shares
  split
  · rename_i hle
    have hamount : amount ≤ 0 := hle.resolve_left (not_le.mpr h)
    have hq' : (0 : ℚ) < q := by exact_mod_cast hq
    have := mul_pos hq' h
    constructor <;> intro hc <;> [omega; linarith]
  · exact Caps.le_floor_div_iff h q

namespace Check

/-- A check that never raises. -/
def of (code : ReasonCode) (appliesTo : IntentKind → Bool)
    (fn : RiskContext RiskFacts → Option RiskCheckResult) : Check RiskFacts :=
  ⟨code, appliesTo, fun ctx => .ok (fn ctx)⟩

/-- `ALL_KINDS`. -/
def allKinds : IntentKind → Bool := fun _ => true

/-- Block on a condition. -/
def blockIf (p : Prop) [Decidable p] (code : ReasonCode) (message : String) :
    Option RiskCheckResult :=
  if p then some (block code message) else none

@[simp] theorem admits_blockIf (p : Prop) [Decidable p] (code : ReasonCode) (message : String)
    (q : ℤ) : Admits (blockIf p code message) q ↔ ¬ p := by
  by_cases h : p <;> simp [blockIf, h]

/-- The room left under a limit: block when it is used up, else cap the size. -/
def room (code : ReasonCode) (limit used per : ℚ) (reached message : String) : RiskCheckResult :=
  if limit ≤ used then block code reached else resize code (shares (limit - used) per) message

/-- What a limit's room admits fits under the limit. -/
theorem admits_room {code : ReasonCode} {limit used per : ℚ} {reached message : String}
    (h : 0 < per) {q : ℤ} (hq : 0 < q) :
    (room code limit used per reached message).Admits q ↔ used + q * per ≤ limit := by
  have hq' : (0 : ℚ) < q := by exact_mod_cast hq
  have hpos := mul_pos hq' h
  unfold room
  split
  · simp only [not_admits_block, false_iff, not_le]
    linarith
  · rw [admits_resize hq, le_shares_iff h hq]
    constructor <;> intro hc <;> linarith

end Check

open Check

variable (ctx : RiskContext RiskFacts)

/-! ## System -/

namespace SystemChecks

def demoEnvironment : String := "demo"

/-- `check_data_source`: fabricated prices trade only in the demo environment, and
an unknown source blocks. -/
def checkDataSource (source : Option MarketDataSource) (environment : String) :
    RiskCheckResult :=
  match source with
  | none => block .sysDataSimulated "market data source unknown: no orders"
  | some source =>
    if source.isFabricated = true ∧ environment ≠ demoEnvironment then
      block .sysDataSimulated (source.value ++
        " prices cannot create orders in environment '" ++ environment ++ "'")
    else info .sysDataSimulated ""

def killGlobal : Option RiskCheckResult :=
  let state := ctx.facts.snapshot.kill.globalState
  blockIf (state ≠ .armed) .sysKillGlobal ("global kill switch is " ++ state.value)

def killBroker : Option RiskCheckResult :=
  let state := ctx.facts.snapshot.kill.broker
  blockIf (state ≠ .armed) .sysKillBroker ("broker kill switch is " ++ state.value)

def sessionClosed : Option RiskCheckResult :=
  let snap := ctx.facts.snapshot
  blockIf (snap.isWeekend = true ∨ (snap.isTradingDay = true ∧ snap.sessionOpen = false))
    .sysSessionClosed "the market is closed"

def holiday : Option RiskCheckResult :=
  let snap := ctx.facts.snapshot
  blockIf (snap.isTradingDay = false ∧ snap.isWeekend = false) .sysHoliday "exchange holiday"

def entryCutoff : Option RiskCheckResult :=
  blockIf (ctx.facts.snapshot.entryWindow = false) .sysEntryCutoff "outside the entry window"

/-- `age_seconds`. -/
def ageSeconds (quote : Quote) (now : Instant) : ℚ := (now - quote.exchangeTs : ℤ) / 1000000

def dataStale : Option RiskCheckResult :=
  match ctx.market.quote with
  | none => some (block .sysDataStale "no quote for the instrument")
  | some quote =>
    blockIf (ctx.facts.limits.maxQuoteAgeS < ageSeconds quote ctx.facts.snapshot.now)
      .sysDataStale "quote too old"

def dataSimulated : Option RiskCheckResult :=
  let source := ctx.market.dataSource
  -- an exit may go without our quote; only fabricated prices block it
  if source = none ∧ ctx.intent.kind.reducesRisk = true then none
  else
    let result := checkDataSource source ctx.facts.snapshot.environment
    if result.outcome = .block then some result else none

def maxOpenOrders : Option RiskCheckResult :=
  blockIf (ctx.facts.limits.maxOpenOrders ≤ ctx.facts.snapshot.openOrders) .sysMaxOpenOrders
    "too many open orders"

def orderRate : Option RiskCheckResult :=
  blockIf (ctx.facts.limits.ordersPerMin ≤
    ctx.facts.snapshot.ordersLastMin + ctx.facts.reserved.orders) .sysOrderRate "order rate limit"

def rejectStorm : Option RiskCheckResult :=
  blockIf (ctx.facts.limits.rejectStormCount ≤ ctx.facts.snapshot.rejectsInWindow)
    .sysRejectStorm "too many recent rejects"

def unknownOrder : Option RiskCheckResult :=
  blockIf (ctx.key ∈ ctx.facts.snapshot.unknownOrderKeys) .sysUnknownOrder
    "an order in this instrument has an UNKNOWN outcome"

def llmDegraded : Option RiskCheckResult :=
  if ctx.facts.snapshot.llmDegraded then
    some (info .sysLlmDegraded "AI advisor unavailable: the deterministic decision stands")
  else none

def journalNotDurable : Option RiskCheckResult :=
  blockIf (ctx.facts.snapshot.journalDurable = false) .sysJournalNotDurable
    "the event store is not durable"

def reconDrift : Option RiskCheckResult :=
  blockIf (ctx.facts.snapshot.reconDrift = true) .sysReconDrift
    "the book disagrees with the broker"

/-- `CHECKS`. -/
def checks : List (Check RiskFacts) :=
  [.of .sysSessionClosed allKinds sessionClosed,
    .of .sysHoliday allKinds holiday,
    .of .sysDataSimulated allKinds dataSimulated,
    .of .sysKillGlobal IntentKind.opens killGlobal,
    .of .sysKillBroker IntentKind.opens killBroker,
    .of .sysEntryCutoff IntentKind.opens entryCutoff,
    .of .sysDataStale IntentKind.opens dataStale,
    .of .sysMaxOpenOrders IntentKind.opens maxOpenOrders,
    .of .sysOrderRate IntentKind.opens orderRate,
    .of .sysRejectStorm IntentKind.opens rejectStorm,
    .of .sysUnknownOrder IntentKind.opens unknownOrder,
    .of .sysLlmDegraded IntentKind.opens llmDegraded,
    .of .sysJournalNotDurable IntentKind.opens journalNotDurable,
    .of .sysReconDrift IntentKind.opens reconDrift]

end SystemChecks

/-! ## Strategy -/

namespace StrategyChecks

def halted : Option RiskCheckResult :=
  let state := (ctx.facts.snapshot.kill.strategies.get? ctx.intent.strategy).getD .armed
  blockIf (state ≠ .armed) .strHalted
    ("strategy " ++ ctx.intent.strategy ++ " kill switch is " ++ state.value)

def notValidated : Option RiskCheckResult :=
  blockIf (ctx.intent.strategy ∉ ctx.facts.limits.enabledStrategies) .strNotValidated
    (ctx.intent.strategy ++ " is not enabled for trading (shadow only)")

def capitalAlloc : Option RiskCheckResult := do
  let price ← ctx.price
  let strategy := ctx.intent.strategy
  let budget := ctx.pct ctx.facts.limits.strategyCapitalPct
  let used := ctx.facts.snapshot.deployed strategy +
    Reservations.amount ctx.facts.reserved.byStrategy strategy
  return room .strCapitalAlloc budget used price (strategy ++ " has used its allocation")
    (strategy ++ " allocation room")

def dailyLoss : Option RiskCheckResult :=
  let limit := ctx.facts.snapshot.sodEquity * ctx.facts.limits.strategyDailyLossPct
  blockIf (ctx.stats.dayPnl ≤ -limit) .strDailyLoss
    (ctx.intent.strategy ++ " hit its daily loss limit")

def consecLosses : Option RiskCheckResult :=
  let streak := ctx.stats.consecutiveLosses
  blockIf (ctx.facts.limits.strategyMaxConsecLosses ≤ streak) .strConsecLosses
    (ctx.intent.strategy ++ " lost " ++ toString streak ++ " in a row")

def orderRate : Option RiskCheckResult :=
  blockIf (ctx.facts.limits.strategyOrdersPerMin ≤ ctx.stats.ordersLastMin) .strOrderRate
    (ctx.intent.strategy ++ " order rate too high")

/-- `CHECKS`. -/
def checks : List (Check RiskFacts) :=
  [.of .strHalted IntentKind.opens halted,
    .of .strNotValidated IntentKind.opens notValidated,
    .of .strCapitalAlloc IntentKind.opens capitalAlloc,
    .of .strDailyLoss IntentKind.opens dailyLoss,
    .of .strConsecLosses IntentKind.opens consecLosses,
    .of .strOrderRate IntentKind.opens orderRate]

end StrategyChecks

/-! ## Portfolio -/

namespace PortfolioChecks

/-- `_BUY_COST_BUFFER`: price, 0.5% fill buffer and about 0.15% charges per rupee. -/
def buyCostBuffer : ℚ := 10065 / 10000

/-- `_new_symbol`. -/
def newSymbol : Bool := ctx.key ∉ ctx.facts.snapshot.held ∧ ctx.key ∉ ctx.facts.reserved.symbols

/-- The instruments held or reserved. -/
def occupied : Finset String := ctx.facts.snapshot.held ∪ ctx.facts.reserved.symbols

def maxPositions : Option RiskCheckResult :=
  let held := ctx.facts.snapshot.held
  let count := held.card + (ctx.facts.reserved.symbols \ held).card
  blockIf (newSymbol ctx = true ∧ ctx.facts.limits.maxPositions ≤ count) .pfMaxPositions
    "maximum open positions reached"

def duplicate : Option RiskCheckResult :=
  blockIf (ctx.intent.kind = .open ∧ newSymbol ctx = false) .pfDuplicate
    ("already holding (or buying) " ++ ctx.intent.instrument.symbol)

def reentrySameDay : Option RiskCheckResult :=
  blockIf (ctx.key ∈ ctx.facts.snapshot.symbolsExitedToday ∨
      ctx.key ∈ ctx.facts.snapshot.symbolsEnteredToday) .pfReentrySameDay
    (ctx.intent.instrument.symbol ++ " already traded today")

def gross : Option RiskCheckResult := do
  let price ← ctx.price
  let limit := ctx.pct ctx.facts.limits.maxGrossExposurePct
  let used := ctx.facts.snapshot.grossExposure + ctx.facts.reserved.gross
  return room .pfGross limit used price "gross exposure limit reached" "gross exposure room"

def sector : Option RiskCheckResult := do
  let price ← ctx.price
  let name := ctx.sector
  let limit := ctx.pct ctx.facts.limits.maxSectorPct
  let used := ctx.facts.snapshot.sectorExposure name +
    Reservations.amount ctx.facts.reserved.bySector name
  return room .pfSector limit used price ("sector " ++ name ++ " limit reached")
    ("sector " ++ name ++ " room")

def heat : Option RiskCheckResult := do
  let distance ← ctx.stopDistance
  if distance ≤ 0 then none
  else
    let limit := ctx.pct ctx.facts.limits.maxHeatPct
    let used := ctx.facts.snapshot.heat + ctx.facts.reserved.heat
    return room .pfHeat limit used distance "portfolio heat limit reached" "portfolio heat room"

def cash : Option RiskCheckResult := do
  let price ← ctx.price
  if ctx.intent.side.sign < 0 then none
  else
    let available := ctx.facts.snapshot.cash - ctx.facts.reserved.cash
    if available ≤ 0 then return block .pfCash "no free cash"
    else return resize .pfCash (shares available (price * buyCostBuffer)) "cash available"

def dailyLossMtm : Option RiskCheckResult :=
  let limit := ctx.facts.snapshot.sodEquity * ctx.facts.limits.dailyLossLimitPct
  blockIf (ctx.facts.snapshot.dayPnlMtm ≤ -limit) .pfDailyLossMtm
    "daily loss limit reached (mark-to-market)"

def drawdown : Option RiskCheckResult :=
  let peak := ctx.facts.snapshot.peakEquity
  let dd := (peak - ctx.facts.snapshot.equity) / peak
  blockIf (0 < peak ∧ ctx.facts.limits.maxDrawdownPct ≤ dd) .pfDrawdown "drawdown limit reached"

def entriesPerDay : Option RiskCheckResult :=
  blockIf (ctx.facts.limits.maxEntriesPerDay ≤
    ctx.facts.snapshot.entriesToday + ctx.facts.reserved.entries) .pfEntriesPerDay
    "maximum entries for the day reached"

/-- `CHECKS`. -/
def checks : List (Check RiskFacts) :=
  [.of .pfMaxPositions IntentKind.opens maxPositions,
    .of .pfDuplicate IntentKind.opens duplicate,
    .of .pfReentrySameDay IntentKind.opens reentrySameDay,
    .of .pfGross IntentKind.opens gross,
    .of .pfSector IntentKind.opens sector,
    .of .pfHeat IntentKind.opens heat,
    .of .pfCash IntentKind.opens cash,
    .of .pfDailyLossMtm IntentKind.opens dailyLossMtm,
    .of .pfDrawdown IntentKind.opens drawdown,
    .of .pfEntriesPerDay IntentKind.opens entriesPerDay]

end PortfolioChecks

/-! ## Event calendar -/

namespace EventChecks

/-- `_window`: block in the first window of this kind that covers today. -/
def window (code : ReasonCode) : Option RiskCheckResult := do
  let today := ctx.facts.snapshot.now.istDate
  let b ← ((ctx.facts.snapshot.eventBlocks.get? ctx.key).getD []).find? fun b =>
    b.code = code ∧ b.covers today
  return block code (b.reason ++ " (blocked " ++ Day.isoformat b.start ++ " to " ++
    Day.isoformat b.end ++ ")")

/-- `CHECKS`. -/
def checks : List (Check RiskFacts) :=
  [.of .evtResultsWindow IntentKind.opens (window · .evtResultsWindow),
    .of .evtAdverseMajor IntentKind.opens (window · .evtAdverseMajor)]

end EventChecks

/-! ## Order -/

namespace OrderChecks

def notionalMax : Option RiskCheckResult := do
  let price ← ctx.price
  let cap := min (ctx.pct ctx.facts.limits.maxPositionPct) ctx.facts.limits.maxPositionInr
  return resize .ordNotionalMax (shares cap price) ("position capped at Rs " ++ toString cap)

/-- The fraction of equity at risk: the limit, or Kelly's where it is enabled and there
are enough trades. -/
def riskFraction : ℚ :=
  let limits := ctx.facts.limits
  match ctx.facts.snapshot.strategies.get? ctx.intent.strategy with
  | some ⟨_, _, _, trades, some winRate, some payoff⟩ =>
    if limits.kellyEnabled = true ∧ limits.kellyMinTrades ≤ trades ∧ payoff ≠ 0 then
      let kelly := winRate - (1 - winRate) / payoff
      min limits.riskPerTrade (max 0 (kelly * limits.kellyScale))
    else limits.riskPerTrade
  | _ => limits.riskPerTrade

def riskPerTrade : Option RiskCheckResult :=
  match ctx.stopDistance with
  | none => some (block .ordRiskPerTrade "no stop: the risk of an entry cannot be sized")
  | some distance =>
    if distance ≤ 0 then none
    else
      let fraction := riskFraction ctx
      let budget := ctx.pct fraction
      some (resize .ordRiskPerTrade (shares budget distance)
        ("risk capped at " ++ toString (fraction * 100) ++ "% of equity (Rs " ++
          toString budget ++ ") over a " ++ toString distance ++ " stop"))

def stopWrongSide : Option RiskCheckResult := do
  let distance ← ctx.stopDistance
  blockIf (distance ≤ 0) .ordStopWrongSide
    (ctx.intent.side.value ++ " with stop " ++ toString (ctx.intent.stopPrice.getD 0) ++
      " at/through price " ++ toString (ctx.price.getD 0))

def stopTooWide : Option RiskCheckResult := do
  let distance ← ctx.stopDistance
  let price ← ctx.price
  if distance ≤ 0 then none
  else if ctx.facts.limits.maxStopPct < distance / price then
    return block .ordStopTooWide "stop too far from the price"
  else
    let atr ← ctx.market.atr
    blockIf (0 < atr ∧ atr * ctx.facts.limits.stopAtrMax < distance) .ordStopTooWide
      "stop wider than the ATR limit"

def stopTooTight : Option RiskCheckResult := do
  let distance ← ctx.stopDistance
  let atr ← ctx.market.atr
  blockIf (0 < distance ∧ 0 < atr ∧ distance < atr * ctx.facts.limits.stopAtrMin)
    .ordStopTooTight "stop inside the noise"

def rrMin : Option RiskCheckResult := do
  let distance ← ctx.stopDistance
  let price ← ctx.price
  let target ← ctx.intent.targetPrice
  let reward := if 0 < ctx.intent.side.sign then target - price else price - target
  blockIf (0 < distance ∧ reward / distance < ctx.facts.limits.minRr) .ordRrMin
    "reward:risk below the minimum at the current price"

def priceCollar : Option RiskCheckResult := do
  let price ← ctx.price
  blockIf (ctx.facts.limits.priceCollarPct < |ctx.intent.decisionPrice / price - 1|)
    .ordPriceCollar "decision price is far from the fresh price"

def advPct : Option RiskCheckResult := do
  let adv ← ctx.market.advShares
  if adv ≤ 0 then none
  else
    let cap := ⌊adv * ctx.facts.limits.advPct⌋
    return resize .ordAdvPct cap
      ("order capped at " ++ toString (ctx.facts.limits.advPct * 100) ++ "% of ADV")

def circuitBand : Option RiskCheckResult := do
  let band ← ctx.intent.instrument.bandPct
  let quote ← ctx.market.quote
  let prevClose ← quote.prevClose
  blockIf (band - 1 / 2 ≤ |quote.ltp / prevClose - 1| * 100) .ordCircuitBand
    "at or near the circuit limit"

/-- `CHECKS`. -/
def checks : List (Check RiskFacts) :=
  [Check.qtyNonpos,
    .of .ordNotionalMax IntentKind.opens notionalMax,
    .of .ordRiskPerTrade IntentKind.opens riskPerTrade,
    .of .ordStopWrongSide IntentKind.opens stopWrongSide,
    .of .ordStopTooWide IntentKind.opens stopTooWide,
    .of .ordStopTooTight IntentKind.opens stopTooTight,
    .of .ordRrMin IntentKind.opens rrMin,
    .of .ordPriceCollar IntentKind.opens priceCollar,
    .of .ordAdvPct IntentKind.opens advPct,
    .of .ordCircuitBand IntentKind.opens circuitBand,
    Check.tick,
    Check.shortNotAllowed,
    Check.reduceExceedsPos]

end OrderChecks

/-! ## The engine with the default checks -/

/-- `DEFAULT_CHECKS`. -/
def defaultChecks : List (Check RiskFacts) :=
  SystemChecks.checks ++ StrategyChecks.checks ++ PortfolioChecks.checks ++ EventChecks.checks ++
    OrderChecks.checks

/-- `RiskEngine(limits)`. -/
def RiskLimits.engine (limits : RiskLimits) : RiskEngine RiskFacts :=
  { allowShort := limits.allowShort, checks := defaultChecks
    shorts := by simp [defaultChecks, OrderChecks.checks] }

/-- A decision and what it was made against. -/
structure Evaluation where
  decision : RiskDecision
  context : RiskContext RiskFacts

namespace Evaluation

variable (e : Evaluation)

def approvedQty : ℤ := e.decision.qtyApproved

/-- `notional`: at the fresh price, or the decision's where there is none. -/
def notional : ℚ := (e.context.price.getD e.context.intent.decisionPrice) * e.approvedQty

/-- `risk_amount`: the loss to the stop. -/
def riskAmount : ℚ :=
  match e.context.stopDistance with
  | some distance => if 0 < distance then distance * e.approvedQty else 0
  | none => 0

end Evaluation

/-- Reserve what an evaluation approved. -/
def Reservations.grant (r : Reservations) (e : Evaluation) : Reservations :=
  if 0 < e.approvedQty then r.add e.context e.approvedQty true else r

namespace RiskLimits

variable (limits : RiskLimits)

/-- `evaluate`. -/
def evaluate (intent : OrderIntent) (snapshot : RiskSnapshot) (quantity : Option ℤ)
    (reserved : Reservations) : Evaluation :=
  let ctx := RiskFacts.context ⟨snapshot, limits, reserved⟩ intent (quantity <|> intent.quantity)
  ⟨limits.engine.evaluate ctx, ctx⟩

/-- The loop of `evaluate_batch`: each approval is reserved for the ones that follow. -/
def evaluateFrom (snapshot : RiskSnapshot) : Reservations → List OrderIntent → List Evaluation
  | _, [] => []
  | reserved, intent :: rest =>
    let e := limits.evaluate intent snapshot none reserved
    e :: evaluateFrom snapshot (reserved.grant e) rest

def evaluateBatch (intents : List OrderIntent) (snapshot : RiskSnapshot) : List Evaluation :=
  limits.evaluateFrom snapshot .empty intents

end RiskLimits

end RakshaQuant
