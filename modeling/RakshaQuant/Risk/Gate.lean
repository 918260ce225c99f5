import RakshaQuant.Engine.Lifecycle
import RakshaQuant.Risk.Checks
import RakshaQuant.Risk.KillSwitch

/-! The pre-trade gate with all it reads: the OMS's book and orders, the tracker and the
switches, the calendar and the market source. Each order is evaluated against a fresh
snapshot, with the capacity of orders that still work reserved. -/

namespace RakshaQuant

/-! ## Marking the book -/

/-- `open_positions`. -/
def openPositions (book : PositionBook) (now : Instant) : List Position :=
  (book.positions now).filter fun p => p.quantity ≠ 0

/-- `owner`: the strategy of the oldest open lot. -/
def owner (book : PositionBook) (p : Position) : String :=
  ((book.bookAt (p.instrumentKey, p.product)).lots.head?.map Lot.strategy).getD "unknown"

/-- `unrealized_by_strategy`: open P&L per strategy, lot by lot. -/
def unrealizedByStrategy (book : PositionBook) (marks : Dict String ℚ) (now : Instant) :
    Dict String ℚ :=
  (openPositions book now).foldl (fun out p =>
    let sign : ℤ := if 0 < p.quantity then 1 else -1
    let mark := (marks.get? p.instrumentKey).getD 0
    (book.bookAt (p.instrumentKey, p.product)).lots.foldl (fun out lot =>
      let pnl := (mark - lot.price) * lot.quantity * sign
      out.set lot.strategy ((out.get? lot.strategy).getD 0 + pnl)) out) .empty

/-! ## The gate -/

/-- System conditions the engine reads. -/
structure SystemFlags where
  llmDegraded : Bool
  journalDurable : Bool
  reconDrift : Bool

/-- What the gate reads beside the OMS, at the instant it is asked. `market` is the source
of quotes; `events` are the event calendar's blocks, or what it raised. -/
structure RiskGate where
  limits : RiskLimits
  tracker : Option DailyRiskState
  switches : Switches
  calendar : NSECalendar
  market : Instrument → MarketFacts
  environment : String
  lifecycle : LifecycleConfig
  instruments : List (String × Instrument)
  flags : SystemFlags
  events : Option (Except Exc (Dict String (List EventBlock)))

/-- The three session flags of a snapshot. -/
structure SessionFlags where
  tradingDay : Bool
  sessionOpen : Bool
  entryWindow : Bool

namespace RiskGate

variable (gate : RiskGate) (o : OMS) (intent : Option OrderIntent) (now : Instant)

/-- The orders that are not terminal, in the order of the table. -/
def workingOrders : List Order := o.orders.values.filter fun order => !order.status.isTerminal

/-- The instruments known by key: the intent's, else the orders', else the configured. -/
def instrumentsBy : Dict String Instrument :=
  let known := (intent.toList.map fun i => (i.instrument.key, i.instrument)) ++
    (o.orders.values.map fun order => (order.intent.instrument.key, order.intent.instrument)) ++
    gate.instruments
  known.foldl (fun d e => d.setdefault e.1 e.2) .empty

/-- The keys the snapshot wants market facts for. -/
def wanted : List String :=
  (openPositions o.book now).map Position.instrumentKey ++
    (intent.toList.map fun i => i.instrument.key) ++
    (workingOrders o).map fun order => order.intent.instrument.key

/-- The market facts of one key. -/
def factsOf (key : String) : MarketFacts :=
  ((instrumentsBy gate o intent).get? key).elim .empty gate.market

def marketBy : Dict String MarketFacts :=
  .ofList ((wanted o intent now).map fun key => (key, factsOf gate o intent key))

/-- A position at the latest quote, or at cost. -/
def markOf (p : Position) : ℚ :=
  match (factsOf gate o intent p.instrumentKey).quote with
  | some quote => quote.ltp
  | none => p.avgPrice.getD 0

def marksBy : Dict String ℚ :=
  .ofList ((openPositions o.book now).map fun p =>
    (p.instrumentKey, markOf gate o intent p))

/-- The resting protective stop per instrument. -/
def stopsBy : Dict String (Option ℚ) :=
  .ofList (((workingOrders o).filter fun order =>
    order.intent.reduceOnly ∧ (order.intent.orderType = .slM ∨ order.intent.orderType = .sl)).map
      fun order => (order.intent.instrument.key, order.intent.triggerPrice))

def positionsBy : Dict String PositionInfo :=
  let marks := marksBy gate o intent now
  .ofList ((openPositions o.book now).map fun p =>
    (p.instrumentKey,
      { quantity := p.quantity
        mark := (marks.get? p.instrumentKey).getD 0
        sector := ((instrumentsBy gate o intent).get? p.instrumentKey).bind Instrument.sector
        strategy := some (owner o.book p)
        stopPrice := ((stopsBy o).get? p.instrumentKey).join }))

/-- The session flags: outside the calendar's coverage the market is treated as closed. -/
def sessionFlags (calendar : NSECalendar) (lifecycle : LifecycleConfig) (now : Instant) :
    SessionFlags :=
  let today := now.istDate
  let flags : Except Exc SessionFlags := do
    let tradingDay ← calendar.isTradingDay today
    let sessionOpen ← calendar.isMarketOpen now
    let schedule ← buildSchedule calendar today lifecycle
    return ⟨tradingDay, sessionOpen, schedule.any fun s => s.stateAt now = .entryWindow⟩
  match flags with
  | .ok flags => flags
  | .error _ => ⟨false, false, false⟩

/-- `_event_blocks`: an unknown calendar blocks new entries in the intent's instrument. -/
def eventBlocks : Dict String (List EventBlock) :=
  match gate.events, intent with
  | none, _ => .empty
  | some (.ok blocks), _ => blocks
  | some (.error _), none => .empty
  | some (.error e), some i =>
    let today := now.istDate
    .ofList [(i.instrument.key, [⟨.evtResultsWindow, today, today, "unknown",
      "event calendar unavailable: " ++ e.name⟩])]

/-- `_snapshot`. -/
def snapshot : Except Exc RiskSnapshot := do
  let marks := marksBy gate o intent now
  let equity ← o.book.equity marks.get?
  let today := now.istDate
  let state := gate.tracker.filter fun s => s.istDate = today
  let session := sessionFlags gate.calendar gate.lifecycle now
  return {
    now := now
    environment := gate.environment
    equity := equity
    cash := o.book.cash
    sodEquity := state.elim equity DailyRiskState.sodEquity
    peakEquity := gate.tracker.elim equity fun s => max equity s.peakEquity
    positions := positionsBy gate o intent now
    market := marketBy gate o intent now
    strategies := DailyRiskTracker.strategyStats gate.tracker now
      (unrealizedByStrategy o.book marks now)
    kill := gate.switches.killState
    openOrders := (workingOrders o).length
    ordersLastMin := DailyRiskTracker.ordersLastMin gate.tracker now
    rejectsInWindow := DailyRiskTracker.rejectsInWindow gate.limits gate.tracker now
    entriesToday := state.elim 0 DailyRiskState.entries
    symbolsEnteredToday := state.elim [] DailyRiskState.symbolsEntered
    symbolsExitedToday := state.elim [] DailyRiskState.symbolsExited
    unknownOrderKeys := (o.orders.values.filter fun order => order.status = .unknown).map
      fun order => order.intent.instrument.key
    isTradingDay := session.tradingDay
    isWeekend := 5 ≤ Day.weekday today
    sessionOpen := session.sessionOpen
    entryWindow := session.entryWindow
    llmDegraded := gate.flags.llmDegraded
    journalDurable := gate.flags.journalDurable
    reconDrift := gate.flags.reconDrift
    eventBlocks := eventBlocks gate intent now }

/-- Whether an order holds capacity: it is not terminal and opens. -/
def holds (order : Order) : Bool :=
  !order.status.isTerminal && !order.intent.kind.reducesRisk

/-- One round of the loop of `_working`. -/
def reserve (limits : RiskLimits) (snapshot : RiskSnapshot) (reserved : Reservations)
    (order : Order) : Reservations :=
  if holds order then
    reserved.add (RiskFacts.context ⟨snapshot, limits, reserved⟩ order.intent none)
      order.remainingQty false
  else reserved

/-- `_working`: the capacity held by submitted entries that have not filled yet. -/
def working (limits : RiskLimits) (o : OMS) (snapshot : RiskSnapshot) : Reservations :=
  o.orders.values.foldl (reserve limits snapshot) .empty

/-- `_decide`. -/
def decide (intent : OrderIntent) (quantity : Option ℤ) : Except Exc Evaluation := do
  let snapshot ← gate.snapshot o (some intent) now
  return gate.limits.evaluate intent snapshot quantity (working gate.limits o snapshot)

end RiskGate

end RakshaQuant
