import RakshaQuant.Backtesting.Edge
import RakshaQuant.Evaluation.Recorded
import RakshaQuant.Lib.Grouping

/-! The daily report, made of the recorded events alone. Every section asks for the events of its
kind by book and day, and some join them by the ids of decisions, signals and orders. Floats are
exact rationals; a division by zero and a missing primary book make no report. -/

namespace RakshaQuant.DailyReport

open Edge (mean tradingDays)

/-- What the report takes from its libraries, besides the statistics. -/
structure Libraries extends Numpy where
  /-- Samples with replacement, of a seed. -/
  choices : ℕ → ℕ → List ℚ → List (List ℚ)
  isalnum : Char → Bool

structure ReportInputs where
  day : Day
  capital : ℚ
  books : List String
  advisors : Dict String String
  start : Option Day := none
  experiment : String := ""
  niftyCloses : Dict Day ℚ := .empty
  equalWeightDayPct : Option ℚ := none
  infraCostInrPerDay : Option ℚ := none
  intradayLowEquity : Dict String ℚ := .empty
  bootstrapSamples : ℕ := 2000

/-! ## Statistics -/

/-- `round(x, digits)`. -/
def rounded (digits : ℕ) (x : ℚ) : ℚ := Edge.round digits x

/-- A quotient; division by zero raises. -/
def ratio (a b : ℚ) : Option ℚ := if b = 0 then none else some (a / b)

/-- The 95% score interval of a share. -/
def wilson (lib : Libraries) (successes n : ℕ) : Option (ℚ × ℚ) :=
  if n = 0 then none
  else
    let z : ℚ := 49 / 25
    let p : ℚ := successes / n
    let centre := (p + z * z / (2 * n)) / (1 + z * z / n)
    let half := z * lib.sqrt (p * (1 - p) / n + z * z / (4 * n * n)) / (1 + z * z / n)
    some (rounded 4 (centre - half), rounded 4 (centre + half))

def sharpe (lib : Libraries) (returns : List ℚ) : Option ℚ :=
  if returns.length < 2 then none
  else
    let sd := lib.std returns
    if sd = 0 then none else some (mean returns / sd * lib.sqrt tradingDays)

def sortino (lib : Libraries) (returns : List ℚ) : Option ℚ :=
  if returns.length < 2 then none
  else
    let dd := lib.sqrt (mean (returns.map fun r => min 0 r * min 0 r))
    if dd = 0 then none else some (mean returns / dd * lib.sqrt tradingDays)

/-- The deepest fall from a running peak, as a fraction of it. -/
def maxDrawdown (equity : List ℚ) : ℚ :=
  let run := equity.foldl (fun (acc : Option ℚ × ℚ) value =>
    let peak := match acc.1 with
      | none => value
      | some peak => max peak value
    (some peak, if 0 < peak then max acc.2 ((peak - value) / peak) else acc.2)) (none, 0)
  run.2

def bootstrap (lib : Libraries) (values : List ℚ) (statistic : List ℚ → Option ℚ)
    (samples : ℕ) : Option (ℚ × ℚ) :=
  if values.length < 3 then none
  else
    let stats := (lib.choices 7 samples values).filterMap statistic
    if stats = [] then none
    else some (rounded 4 (lib.percentile stats (5 / 2)), rounded 4 (lib.percentile stats (195 / 2)))

/-- `_pct`. -/
def pct (lib : Libraries) (values : List ℚ) (q : ℚ) : Option ℚ :=
  if values = [] then none else some (rounded 2 (lib.percentile values q))

/-- The mean of values, if there are any, to some digits. -/
def meanOf (digits : ℕ) (values : List ℚ) : Option ℚ :=
  if values = [] then none else some (rounded digits (mean values))

/-! ## Dictionaries -/

/-- `Counter(items)`. -/
def counter (items : List String) : Dict String ℕ :=
  items.foldl (fun d item => d.set item ((d.get? item).getD 0 + 1)) .empty

/-- `most_common()`: of equal counts the first counted comes first. -/
def mostCommon (d : Dict String ℕ) : List (String × ℕ) :=
  d.entries.insertionSort fun a b => b.2 ≤ a.2

/-- `sorted(d.items())`. -/
def sortedItems {α : Type} (d : Dict String α) : List (String × α) :=
  d.entries.insertionSort fun a b => a.1 ≤ b.1

/-! ## Trades and costs -/

structure TradeFigures where
  winRate : ℚ
  avgGain : Option ℚ
  avgLoss : Option ℚ
  expectancyInr : ℚ
  expectancyPct : Option ℚ
  profitFactor : Option ℚ
  avgHoldingDays : ℚ
  byStrategy : Dict String (ℕ × ℚ)

/-- The figures are there when there is a trade. -/
structure TradeStats where
  count : ℕ
  figures : Option TradeFigures

/-- The count and the net P&L of a strategy's trades, rounded after each. -/
def strategyRow (rows : Dict String (ℕ × ℚ)) (t : TradeClosed) : Dict String (ℕ × ℚ) :=
  let row := (rows.get? t.strategy).getD (0, 0)
  rows.set t.strategy (row.1 + 1, rounded 2 (row.2 + t.netPnl))

/-- `_trade_stats`. -/
def tradeStats (trades : List TradeClosed) : TradeStats :=
  if trades = [] then ⟨0, none⟩
  else
    let nets := trades.map fun t => t.netPnl
    let rets := trades.filterMap fun t =>
      if t.quantity = 0 then none else some (t.netPnl / (t.entryPrice * (t.quantity : ℚ)) * 100)
    let gains := nets.filter fun n => 0 < n
    let losses := nets.filter fun n => n < 0
    let holding := trades.map fun t => ((t.exitTs - t.entryTs : ℤ) : ℚ) / 86400000000
    ⟨trades.length, some
      { winRate := rounded 4 (gains.length / nets.length)
        avgGain := meanOf 2 gains
        avgLoss := meanOf 2 losses
        expectancyInr := rounded 2 (mean nets)
        expectancyPct := meanOf 4 rets
        profitFactor := if losses = [] then none else some (rounded 3 (gains.sum / -losses.sum))
        avgHoldingDays := rounded 2 (mean holding)
        byStrategy := trades.foldl strategyRow .empty }⟩

/-- `_calmar`. -/
def calmar (returns series : List ℚ) : Option ℚ :=
  let dd := maxDrawdown series
  if returns = [] ∨ dd = 0 then none
  else some (rounded 3 (((1 + mean returns) ^ 252 - 1) / dd))

structure Costs where
  components : List (String × ℚ)
  total : ℚ
  turnover : ℚ
  bpsOfTurnover : Option ℚ

/-- `_costs`. -/
def costs (fills : List FillReceived) : Costs :=
  let total := (fills.map fun f => f.fill.charges).sum
  let turnover := (fills.map fun f => f.fill.notional).sum
  let parts := (fills.map fun f => f.fill.chargesBreakdown).flatten
  { components := (sortedItems (Dict.collect parts)).map fun e => (e.1, rounded 2 e.2.sum)
    total := rounded 2 total
    turnover := rounded 2 turnover
    bpsOfTurnover :=
      if turnover = 0 then none else some (rounded 2 (total / turnover * 10000)) }

/-! ## Execution -/

/-- A stop that rests at the broker until it is triggered: its arrival quote is from when it was
placed. -/
def resting (order : Order) : Bool :=
  order.intent.orderType = .sl ∨ order.intent.orderType = .slM

/-- Slippage against a reference price in basis points; adverse is positive. -/
def slippageBps (fillPrice reference : ℚ) (side : Side) : ℚ :=
  (fillPrice / reference - 1) * side.sign * 10000

/-- What the loop over the submitted orders appends for one of them. -/
structure OrderFigures where
  vsDecision : Option ℚ
  vsArrival : Option ℚ
  shortfall : ℚ
  toOrder : Option ℚ
  toFill : Option ℚ

/-- `total_seconds()` of the time between two instants. -/
def seconds (since till : Instant) : ℚ := ((till - since : ℤ) : ℚ) / 1000000

/-- The figures of an order, from its fills, its arrival price and the time of its signal. -/
def orderFigures (got : List FillReceived) (arrival : Option ℚ) (decided : Option Instant)
    (order : Order) : OrderFigures :=
  let side := order.intent.side
  let decision := order.intent.decisionPrice
  let avg := got.getLast?.map fun f => f.orderAvgPrice
  { vsDecision := avg.map fun avg => slippageBps avg decision side
    vsArrival := avg.bind fun avg =>
      (arrival.filter fun ref => ref ≠ 0 ∧ resting order = false).map fun ref =>
        slippageBps avg ref side
    shortfall := match got.getLast? with
      | none => 0
      | some last => (last.orderAvgPrice - decision) * last.orderFilledQty * side.sign +
          (got.map fun f => f.fill.charges).sum
    toOrder := if order.intent.kind.reducesRisk then none
      else decided.bind fun decided => order.submittedAt.map fun submitted =>
        seconds decided submitted
    toFill := got.head?.bind fun first => order.submittedAt.map fun submitted =>
      seconds submitted first.fill.ts }

structure Execution where
  filledOrders : ℕ
  /-- The mean and the 95th percentile. -/
  slippageVsDecisionBps : Option ℚ × Option ℚ
  slippageVsArrivalBps : Option ℚ × Option ℚ
  implementationShortfallInr : ℚ
  /-- The 50th and the 95th percentile. -/
  decisionToOrderS : Option ℚ × Option ℚ
  orderToFillS : Option ℚ × Option ℚ

/-- The arrival prices of the day's decisions, by order. -/
def arrivals (ev : List Event) (book : String) (day : Day) : Dict (Option String) (Option ℚ) :=
  .ofList ((payloads Payload.riskDecision? { book := some book, day := some day } ev).map
    fun d => (d.clientOrderId, d.refPrice))

/-- The times of all recorded signals, by decision. -/
def decidedAt (ev : List Event) : Dict String Instant :=
  .ofList ((payloads Payload.signalGenerated? {} ev).map fun s => (s.decisionId, s.generatedAt))

/-- The day's fills, by order. -/
def fillsOf (ev : List Event) (book : String) (day : Day) : Dict String (List FillReceived) :=
  Dict.collect ((payloads Payload.fillReceived? { book := some book, day := some day } ev).map
    fun f => (f.fill.clientOrderId, f))

/-- What the loop over the submitted orders appends. -/
def figuresOf (ev : List Event) (book : String) (day : Day) (submitted : List Order) :
    List OrderFigures :=
  let arrival := arrivals ev book day
  let decided := decidedAt ev
  let fills := fillsOf ev book day
  submitted.map fun order =>
    orderFigures ((fills.get? order.clientOrderId).getD [])
      ((arrival.get? (some order.clientOrderId)).bind id)
      (decided.get? order.intent.decisionId) order

def execution (lib : Libraries) (ev : List Event) (book : String) (day : Day)
    (submitted : List Order) : Execution :=
  let figures := figuresOf ev book day submitted
  let vsDecision := figures.filterMap fun f => f.vsDecision
  let vsArrival := figures.filterMap fun f => f.vsArrival
  let toOrder := figures.filterMap fun f => f.toOrder
  let toFill := figures.filterMap fun f => f.toFill
  { filledOrders := vsDecision.length
    slippageVsDecisionBps := (meanOf 2 vsDecision, pct lib vsDecision 95)
    slippageVsArrivalBps := (meanOf 2 vsArrival, pct lib vsArrival 95)
    implementationShortfallInr := rounded 2 (figures.map fun f => f.shortfall).sum
    decisionToOrderS := (pct lib toOrder 50, pct lib toOrder 95)
    orderToFillS := (pct lib toFill 50, pct lib toFill 95) }

/-! ## Rejections -/

/-- The maximal runs of word characters of a text. -/
def words (lib : Libraries) (text : List Char) : List (List Char) :=
  text.splitOnP fun c => ¬(lib.isalnum c ∨ c = '_')

/-- `_CODE`: a group, an underscore, and capitals and underscores. -/
def isCode (word : List Char) : Bool :=
  ["ORD_", "STR_", "PF_", "SYS_", "EVT_"].any fun group =>
    group.toList.isPrefixOf word ∧ word.drop group.length ≠ [] ∧
      (word.drop group.length).all fun c => c.isUpper ∨ c = '_'

/-- `_CODE.findall(detail)`. The word boundaries around a match make it a whole word. -/
def codes (lib : Libraries) (detail : String) : List String :=
  ((words lib detail.toList).filter isCode).map String.ofList

/-- The missed signals that a disposition counts: one for each code in it, or for what stands
before the first colon. -/
def missed (lib : Libraries) (d : SignalDisposition) : List String :=
  if d.disposition = .submitted ∨ d.disposition = .shadowStrategy then []
  else
    let found := if d.disposition = .riskRejected then codes lib d.detail else []
    let head := String.ofList (d.detail.toList.takeWhile (· ≠ ':'))
    let fallback := if head = "" then d.disposition.value else head
    (if found = [] then [fallback] else found).map fun code =>
      d.disposition.value ++ ":" ++ code

/-- The codes of the checks that blocked a decision. -/
def blocking (d : RecordedDecision) : List String :=
  if d.outcome = .rejected ∨ d.outcome = .halted then
    (d.reasons.filter fun r => r.outcome = .block).map fun r => r.code.value
  else []

structure Rejections where
  riskByReason : List (String × ℕ)
  brokerByReason : Dict String ℕ
  advisorVetoes : Dict String ℕ
  missedSignals : List (String × ℕ)

def rejections (lib : Libraries) (ev : List Event) (book : String) (day : Day) : Rejections :=
  let q : Query := { book := some book, day := some day }
  { riskByReason :=
      mostCommon (counter ((payloads Payload.riskDecision? q ev).flatMap blocking))
    brokerByReason := counter (payloads Payload.orderRejected? q ev)
    advisorVetoes :=
      counter (((payloads Payload.advisorVerdict? q ev).filter fun v => v.verdict = .veto).map
        fun v => v.advisor.value)
    missedSignals :=
      mostCommon (counter ((payloads Payload.signalDisposition? q ev).flatMap (missed lib))) }

/-! ## AI -/

/-- `verdict.value`. -/
def verdictValue : Verdict → String
  | .approve => "APPROVE"
  | .veto => "VETO"
  | .abstain => "ABSTAIN"

structure VetoPrecision where
  vetoes : ℕ
  settled : ℕ
  correct : ℕ
  precision : Option ℚ
  ci95 : Option (ℚ × ℚ)
  lossAvoidedInr : ℚ
  gainForgoneInr : ℚ

/-- Vetoed signals whose counterfactual lost money. -/
def vetoPrecision (lib : Libraries) (ev : List Event) (book : String) (start day : Day) :
    VetoPrecision :=
  let vetoed := (((payloads Payload.signalDisposition?
    { book := some book, since := some start, till := some day } ev).filter
      fun d => d.disposition = .vetoed).map fun d => d.signalId).dedup
  let outcomes : Dict String ℚ := .ofList ((payloads Payload.shadowTradeClosed?
    { since := some start, till := some day } ev).map fun t => (t.signalId, t.netPnl))
  let settled := vetoed.filterMap outcomes.get?
  let correct := settled.countP fun pnl => pnl < 0
  { vetoes := vetoed.length
    settled := settled.length
    correct
    precision := (ratio correct settled.length).map (rounded 4)
    ci95 := wilson lib correct settled.length
    lossAvoidedInr := rounded 2 (-(settled.filter fun p => p < 0).sum)
    gainForgoneInr := rounded 2 (settled.filter fun p => 0 < p).sum }

structure AI where
  llmCalls : ℕ
  tokensIn : ℤ
  tokensOut : ℤ
  spendInrToday : ℚ
  spendInrToDate : ℚ
  timeouts : ℕ
  schemaFailures : ℕ
  advisorReviews : ℕ
  verdicts : Dict String ℕ
  fallbackRate : Option ℚ
  abstainRate : Option ℚ
  decisionModelCalls : ℕ
  escalationRate : Option ℚ
  vetoPrecision : VetoPrecision
  spendPerDecisionInr : Option ℚ
  spendPerExecutedTradeInr : Option ℚ

/-- What calls cost; an unknown price counts as nothing. -/
def spend (calls : List LLMFields) : ℚ := (calls.map fun c => c.costInr.getD 0).sum

def ai (lib : Libraries) (ev : List Event) (book : String) (inputs : ReportInputs) (start : Day)
    (closedMtd : ℕ) : AI :=
  let day := inputs.day
  let today : Query := { book := some book, day := some day }
  let mtd : Query := { book := some book, since := some start, till := some day }
  let callsToday := payloads Payload.llmCall? today ev
  let spendMtd := spend (payloads Payload.llmCall? mtd ev)
  let requested := (payloads Payload.advisorRequested? today ev).length
  let verdicts := payloads Payload.advisorVerdict? today ev
  let fallbacks := (payloads Payload.advisorFallback? today ev).length
  let decisionsMtd := (payloads Payload.advisorRequested? mtd ev).dedup.length
  let modelCalls := payloads Payload.decisionModelCall? today ev
  { llmCalls := callsToday.length
    tokensIn := (callsToday.map fun c => c.tokensIn).sum
    tokensOut := (callsToday.map fun c => c.tokensOut).sum
    spendInrToday := rounded 4 (spend callsToday)
    spendInrToDate := rounded 4 spendMtd
    timeouts := callsToday.countP fun c => c.outcome = .timeout
    schemaFailures := callsToday.countP fun c => c.outcome = .invalidOutput
    advisorReviews := requested
    verdicts := counter (verdicts.map fun v => verdictValue v.verdict)
    fallbackRate := (ratio fallbacks requested).map (rounded 4)
    abstainRate :=
      (ratio (verdicts.countP fun v => v.verdict = .abstain) verdicts.length).map (rounded 4)
    decisionModelCalls := modelCalls.length
    escalationRate :=
      (ratio (modelCalls.countP fun c => c.escalated) modelCalls.length).map (rounded 4)
    vetoPrecision := vetoPrecision lib ev book start day
    spendPerDecisionInr := (ratio spendMtd decisionsMtd).map (rounded 4)
    spendPerExecutedTradeInr := (ratio spendMtd closedMtd).map (rounded 4) }

/-! ## Benchmark, integrity and infrastructure -/

structure Benchmark where
  niftyDayPct : Option ℚ
  niftyCumulativePct : Option ℚ
  niftyAsOf : Option String
  equalWeightDayPct : Option ℚ

/-- The change between the closes of two days, if both are known. -/
def change (closes : Dict Day ℚ) (base latest : Option Day) : Option (Option ℚ) :=
  match base.bind closes.get?, latest.bind closes.get? with
  | some base, some close => (ratio close base).map fun r => some ((r - 1) * 100)
  | _, _ => some none

/-- `_benchmark`; nothing when a known close is zero. -/
def benchmark (inputs : ReportInputs) (start : Day) (calendar : NSECalendar) : Option Benchmark :=
  let closes := inputs.niftyCloses
  let before := fun (d : Day) => (calendar.previousTradingDay d).toOption
  let latest := (closes.keys.filter fun d => d ≤ inputs.day).max?
  (change closes (before inputs.day) (some inputs.day)).bind fun dayPct =>
    (change closes (before start) latest).map fun cum =>
      { niftyDayPct := dayPct.map (rounded 3)
        niftyCumulativePct := cum.map (rounded 3)
        niftyAsOf := latest.map Day.isoformat
        equalWeightDayPct := inputs.equalWeightDayPct.map (rounded 3) }

structure Integrity where
  closedTrades : ℕ
  explainedByDecisionId : ℕ
  reconciliations : ℕ
  reconciliationDrift : ℕ

/-- The kinds of the events of all days, by the decision that they are filed under. -/
def byDecision (ev : List Event) : Dict String (List String) :=
  Dict.collect (ev.filterMap fun e =>
    (e.decisionId.filter fun id => id ≠ "").map fun id => (id, e.payload.type))

/-- Whether kinds of events tell a trade from its signal or intent to its fill. -/
def explains (types : List String) : Bool :=
  ("RiskDecision" ∈ types ∧ "OrderSubmitted" ∈ types ∧ "FillReceived" ∈ types) ∧
    ("SignalGenerated" ∈ types ∨ "OrderIntentProposed" ∈ types)

def integrity (ev : List Event) (book : String) (day : Day) (closed : List TradeClosed) :
    Integrity :=
  let types := byDecision ev
  let recon := payloads Payload.reconciliationResult? { book := some book, day := some day } ev
  { closedTrades := closed.length
    explainedByDecisionId := closed.countP fun t =>
      explains ((types.get? t.decisionId).getD [])
    reconciliations := recon.length
    reconciliationDrift := recon.countP fun r => r.inSync = false }

/-- From 9:15 to 15:30 in IST. -/
def inSession (ts : Instant) : Bool :=
  let timeOfDay := (ts + 19800000000) % 86400000000
  33300000000 ≤ timeOfDay ∧ timeOfDay < 55800000000

structure Infrastructure where
  infraCostInr : Option ℚ
  uptimePctMarketHours : Option ℚ
  downtimeMinutes : Option ℚ
  processStarts : ℕ
  restarts : ℕ
  loopLagP99Ms : Option ℚ
  quoteAgeP95SAtDecisions : List (String × Option ℚ)
  feedStaleEvents : ℕ
  announcementCoverageGaps : ℕ
  reconciliationDrift : ℕ
  alertsByLevel : Dict String ℕ
  killSwitchEvents : List String

/-- The age of the quote that a decision was made on, under its source. -/
def quoteAge (d : RecordedDecision) : Option (String × ℚ) :=
  d.quoteAgeS.map fun age =>
    (match d.dataSource with
    | none => "unknown"
    | some source => source.value, age)

def killSwitchText (c : KillSwitchChanged) : String :=
  c.bookId ++ "/" ++ c.name ++ ": " ++ c.previous.value ++ "->" ++ c.current.value ++
    " (" ++ c.reason ++ ")"

def infrastructure (lib : Libraries) (ev : List Event) (inputs : ReportInputs) : Infrastructure :=
  let q : Query := { day := some inputs.day }
  let beats := (of Payload.heartbeat? q ev).filter fun e => inSession e.1.tsUtc
  -- The session has 375 minutes, and one with a beat in it is up.
  let minutesUp : ℚ := ((beats.map fun e => e.1.tsUtc / 60000000).dedup.length : ℕ)
  let ages := Dict.collect ((payloads Payload.riskDecision? q ev).filterMap quoteAge)
  let starts := (payloads Payload.processStarted? q ev).length
  { infraCostInr := inputs.infraCostInrPerDay
    uptimePctMarketHours :=
      if beats = [] then none else some (rounded 2 (min 1 (minutesUp * 60 / 22500) * 100))
    downtimeMinutes := if beats = [] then none else some (rounded 1 (max 0 (375 - minutesUp)))
    processStarts := starts
    restarts := starts - 1
    loopLagP99Ms := pct lib (beats.filterMap fun e => e.2) 99
    quoteAgeP95SAtDecisions := (sortedItems ages).map fun e => (e.1, pct lib e.2 95)
    feedStaleEvents := (payloads Payload.feedStale? q ev).length
    announcementCoverageGaps := (payloads Payload.announcementCoverageGap? q ev).length
    reconciliationDrift :=
      (payloads Payload.reconciliationResult? q ev).countP fun r => r.inSync = false
    alertsByLevel := counter ((payloads Payload.alert? q ev).map fun a => a.level)
    killSwitchEvents := (payloads Payload.killSwitchChanged? q ev).map killSwitchText }

/-! ## The report -/

structure Capital where
  startEquity : ℚ
  endEquity : Option ℚ
  cash : Option ℚ
  grossExposure : Option ℚ
  netExposure : Option ℚ
  maxIntradayDrawdownPct : Option ℚ

structure Pnl where
  realizedNet : ℚ
  unrealized : Option ℚ
  dayReturnPct : Option ℚ
  cumulativeReturnPct : Option ℚ
  excessVsNiftyDayPct : Option ℚ
  excessVsEqualWeightDayPct : Option ℚ

structure Trades where
  entries : ℕ
  exits : ℕ
  today : TradeStats
  monthToDate : TradeStats

structure RiskAdjusted where
  observations : ℕ
  sharpe : Option ℚ
  sharpeCi95 : Option (ℚ × ℚ)
  sortino : Option ℚ
  maxDrawdownPct : ℚ
  calmar : Option ℚ

structure BookReport where
  advisor : String
  capital : Capital
  pnl : Pnl
  trades : Trades
  riskAdjustedMtd : RiskAdjusted
  costsToday : Costs
  costsMonthToDate : Costs
  execution : Execution
  rejections : Rejections
  ai : AI
  integrity : Integrity

/-- `_equity_by_day`: the last mark of each day. -/
def equityByDay (ev : List Event) (book : String) (start day : Day) : Dict Day ℚ :=
  .ofList ((of Payload.markToMarket?
    { book := some book, since := some start, till := some day } ev).map
      fun e => (e.1.istDate, e.2.equity))

/-- The low of the day: given live, or of the state that was rolled the next morning. -/
def intradayLow (ev : List Event) (inputs : ReportInputs) (book : String) : Option ℚ :=
  match inputs.intradayLowEquity.get? book with
  | some low => some low
  | none =>
    let rolled := (payloads Payload.dailyRiskStateRolled? { book := some book } ev).filter
      fun e => e.1 = inputs.day
    rolled.getLast?.map fun e => e.2.lowEquity

def bookReport (lib : Libraries) (ev : List Event) (b : String) (inputs : ReportInputs)
    (start : Day) (calendar : NSECalendar) : Option BookReport := do
  let day := inputs.day
  let capital := inputs.capital
  let today : Query := { book := some b, day := some day }
  let mtd : Query := { book := some b, since := some start, till := some day }
  let equity := (equityByDay ev b start day).entries.insertionSort fun x y => x.1 ≤ y.1
  let mtm := (payloads Payload.markToMarket? today ev).getLast?
  let previous := (equity.filter fun e => e.1 < day).map fun e => e.2
  let startEquity := previous.getLastD capital
  let endEquity := mtm.map fun m => m.equity
  let series := capital :: equity.map fun e => e.2
  let returns := (series.zip series.tail).filterMap fun (e : ℚ × ℚ) =>
    if e.1 = 0 then none else some (e.2 / e.1 - 1)
  let low := intradayLow ev inputs b
  let intradayDd := (low.filter fun low => low ≠ 0 ∧ startEquity ≠ 0).map fun low =>
    max 0 ((startEquity - low) / startEquity)
  let closedToday := payloads Payload.tradeClosed? today ev
  let closedMtd := payloads Payload.tradeClosed? mtd ev
  let submitted := payloads Payload.orderSubmitted? today ev
  let netReturn ← endEquity.mapM fun equity => ratio (equity - startEquity) startEquity
  let cumulative ← endEquity.mapM fun equity => ratio (equity - capital) capital
  let nifty ← benchmark inputs start calendar
  return {
    advisor := (inputs.advisors.get? b).getD "none"
    capital := {
      startEquity := rounded 2 startEquity
      endEquity := endEquity.map (rounded 2)
      cash := mtm.map fun m => rounded 2 m.cash
      grossExposure := mtm.map fun m => rounded 2 m.positionsValue
      netExposure := mtm.map fun m => rounded 2 m.positionsValue
      maxIntradayDrawdownPct := intradayDd.map fun dd => rounded 3 (dd * 100) }
    pnl := {
      realizedNet := rounded 2 (closedToday.map fun t => t.netPnl).sum
      unrealized := mtm.map fun m => rounded 2 m.unrealizedPnl
      dayReturnPct := netReturn.map fun r => rounded 3 (r * 100)
      cumulativeReturnPct := cumulative.map fun r => rounded 3 (r * 100)
      excessVsNiftyDayPct := netReturn.bind fun r =>
        nifty.niftyDayPct.map fun n => rounded 3 (r * 100 - n)
      excessVsEqualWeightDayPct := netReturn.bind fun r =>
        inputs.equalWeightDayPct.map fun n => rounded 3 (r * 100 - n) }
    trades := {
      entries := submitted.countP fun o => o.intent.kind.reducesRisk = false
      exits := closedToday.length
      today := tradeStats closedToday
      monthToDate := tradeStats closedMtd }
    riskAdjustedMtd := {
      observations := returns.length
      sharpe := (sharpe lib returns).map (rounded 3)
      sharpeCi95 := bootstrap lib returns (sharpe lib) inputs.bootstrapSamples
      sortino := (sortino lib returns).map (rounded 3)
      maxDrawdownPct := rounded 3 (maxDrawdown series * 100)
      calmar := calmar returns series }
    costsToday := costs (payloads Payload.fillReceived? today ev)
    costsMonthToDate := costs (payloads Payload.fillReceived? mtd ev)
    execution := execution lib ev b day submitted
    rejections := rejections lib ev b day
    ai := ai lib ev b inputs start closedMtd.length
    integrity := integrity ev b day closedToday }

/-- A book's entry in the report. -/
def bookEntry (lib : Libraries) (ev : List Event) (b : String) (inputs : ReportInputs)
    (start : Day) (calendar : NSECalendar) : Option (String × BookReport) :=
  (bookReport lib ev b inputs start calendar).map fun report => (b, report)

structure Comparison where
  vs : String
  advisor : String
  equityDifferenceInr : Option ℚ
  aiSpendInrToDate : ℚ
  netAiValueInr : Option ℚ

/-- `_comparison` of a book with the primary one. -/
def comparison (b primary : String) (books : Dict String BookReport) (inputs : ReportInputs) :
    Option Comparison := do
  let mine ← books.get? b
  let base ← books.get? primary
  let spend := mine.ai.spendInrToDate
  let gross := mine.capital.endEquity.bind fun x =>
    base.capital.endEquity.map fun y => rounded 2 (x - y)
  return {
    vs := primary
    advisor := (inputs.advisors.get? b).getD "none"
    equityDifferenceInr := gross
    aiSpendInrToDate := spend
    netAiValueInr := gross.map fun gross => rounded 4 (gross - spend) }

structure Report where
  experiment : String
  date : String
  start : String
  sessionsToDate : ℕ
  benchmark : Benchmark
  books : Dict String BookReport
  comparison : Dict String Comparison
  infrastructure : Infrastructure

/-- The days with an event, up to a day. -/
def daysTo (ev : List Event) (day : Day) : List Day :=
  ((early day ev).map fun e => e.istDate).dedup.insertionSort (· ≤ ·)

/-- `build_report`; nothing when it raises. -/
def buildReport (lib : Libraries) (ev : List Event) (inputs : ReportInputs)
    (calendar : NSECalendar) : Option Report := do
  let day := inputs.day
  let days := daysTo ev day
  let start := inputs.start.getD (days.headD day)
  let reports ← inputs.books.mapM fun b => bookEntry lib ev b inputs start calendar
  let books := Dict.ofList reports
  let primary ← inputs.books.head?
  let comparisons ← (inputs.books.filter fun b => b ≠ primary).mapM fun b =>
    (comparison b primary books inputs).map fun row => (b, row)
  let benchmark ← benchmark inputs start calendar
  return {
    experiment := inputs.experiment
    date := Day.isoformat day
    start := Day.isoformat start
    sessionsToDate := (days.filter fun d => start ≤ d).length
    benchmark
    books
    comparison := Dict.ofList comparisons
    infrastructure := infrastructure lib ev inputs }

end RakshaQuant.DailyReport
