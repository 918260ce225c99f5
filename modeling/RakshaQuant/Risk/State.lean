import Mathlib.Data.List.Sort
import RakshaQuant.Domain.Calendar
import RakshaQuant.Risk.Snapshot
import RakshaQuant.Risk.World

/-! The daily risk tracker: the risk day of one book, saved on every change and loaded at
startup. A tick marks equity, and returns the limits newly crossed; each is raised once a
day. -/

namespace RakshaQuant

/-- `_recent`: the stamps less than a window old. -/
def recent (stamps : List Instant) (now : Instant) (window : ℚ) : List Instant :=
  stamps.filter fun ts => ((now - ts : ℤ) : ℚ) < window

/-- `ORDER_RATE_WINDOW`, in microseconds. -/
def orderRateWindow : ℚ := 60000000

/-- `reject_storm_window_s`, in microseconds. -/
def RiskLimits.rejectWindow (limits : RiskLimits) : ℚ := limits.rejectStormWindowS * 1000000

/-- A limit crossed: the named switch must move to the action. -/
structure Breach where
  scope : KillScope
  name : String
  action : KillAction
  code : ReasonCode
  observed : ℚ
  limit : ℚ
  message : String

/-- What a breach is remembered by for the day. -/
def Breach.key (b : Breach) : ReasonCode × String := (b.code, b.name)

namespace DailyRiskState

variable (s : DailyRiskState) (limits : RiskLimits)

/-- A breach on a condition. -/
def breachIf (p : Prop) [Decidable p] (b : Breach) : List Breach := if p then [b] else []

/-- The breaches of the global switch. -/
def globalBreaches (now : Instant) : List Breach :=
  let loss := s.sodEquity - s.lastEquity
  let lossLimit := s.sodEquity * limits.dailyLossLimitPct
  let rejects := (recent s.rejectTs now limits.rejectWindow).length
  breachIf (0 < s.sodEquity ∧ lossLimit ≤ loss)
      ⟨.global, "global", limits.dailyLossAction, .pfDailyLossMtm, loss / s.sodEquity,
        limits.dailyLossLimitPct,
        "day loss Rs " ++ toString loss ++ " vs limit Rs " ++ toString lossLimit⟩ ++
    breachIf (limits.maxDrawdownPct ≤ s.drawdown)
      ⟨.global, "global", limits.drawdownAction, .pfDrawdown, s.drawdown, limits.maxDrawdownPct,
        "equity Rs " ++ toString s.lastEquity ++ " is " ++ toString s.drawdown ++
          " below the peak Rs " ++ toString s.peakEquity⟩ ++
    breachIf (limits.rejectStormCount ≤ rejects)
      ⟨.global, "global", .haltNew, .sysRejectStorm, rejects, limits.rejectStormCount,
        toString rejects ++ " rejects in " ++ toString limits.rejectStormWindowS ++ " s"⟩

/-- The breaches of one strategy's switch. -/
def strategyBreaches (unrealized : Dict String ℚ) (name : String) : List Breach :=
  let day := (s.strategies.get? name).getD .empty
  let pnl := day.realizedPnl + (unrealized.get? name).getD 0
  breachIf (0 < s.sodEquity ∧ s.sodEquity * limits.strategyDailyLossPct ≤ -pnl)
      ⟨.strategy, name, .haltNew, .strDailyLoss, -pnl / s.sodEquity,
        limits.strategyDailyLossPct, name ++ " day P&L Rs " ++ toString pnl⟩ ++
    breachIf (limits.strategyMaxConsecLosses ≤ day.consecutiveLosses)
      ⟨.strategy, name, .haltNew, .strConsecLosses, day.consecutiveLosses,
        limits.strategyMaxConsecLosses,
        name ++ " lost " ++ toString day.consecutiveLosses ++ " trades in a row"⟩

/-- The limits crossed, raised already or not. -/
def found (now : Instant) (unrealized : Dict String ℚ) : List Breach :=
  s.globalBreaches limits now ++
    ((s.strategies.keys ++ unrealized.keys).dedup.insertionSort (· ≤ ·)).flatMap
      (s.strategyBreaches limits unrealized)

/-- The breaches not raised yet today. -/
def fresh (now : Instant) (unrealized : Dict String ℚ) : List Breach :=
  (s.found limits now unrealized).filter fun b => b.key ∉ s.breaches

/-- The state a new IST day starts with: the peak and the loss streaks carry over. -/
def rolled (bookId : String) (today : Day) (sodEquity : ℚ) (previous : Option DailyRiskState) :
    DailyRiskState :=
  let streaks := previous.elim [] fun p => p.strategies.entries
  { bookId := bookId, istDate := today, sodEquity := sodEquity
    peakEquity := previous.elim sodEquity fun p => max p.peakEquity sodEquity
    lastEquity := sodEquity, lowEquity := sodEquity, realizedPnl := 0, entries := 0
    symbolsEntered := [], symbolsExited := []
    strategies := .ofList (streaks.map fun e =>
      (e.1, { StrategyDay.empty with
        consecutiveLosses := e.2.consecutiveLosses, lastExit := e.2.lastExit }))
    orderTs := [], rejectTs := [], breaches := [], lastTick := none }

/-- The state marked to market. -/
def marked (equity : ℚ) (now : Instant) : DailyRiskState :=
  { s with
    lastEquity := equity, lowEquity := min s.lowEquity equity
    peakEquity := max s.peakEquity equity, lastTick := some now }

/-- `setdefault(strategy, StrategyDay())`, changed. -/
def withDay (strategy : String) (change : StrategyDay → StrategyDay) : DailyRiskState :=
  { s with
    strategies := s.strategies.set strategy
      (change ((s.strategies.get? strategy).getD .empty)) }

def withOrder (intent : OrderIntent) (now : Instant) : DailyRiskState :=
  let s := { s with orderTs := recent s.orderTs now orderRateWindow ++ [now] }
  let stamped (day : StrategyDay) : StrategyDay :=
    { day with orderTs := recent day.orderTs now orderRateWindow ++ [now] }
  if intent.kind.reducesRisk then s.withDay intent.strategy stamped
  else
    { s.withDay intent.strategy fun day =>
        { stamped day with entries := day.entries + 1 } with
      entries := s.entries + 1
      symbolsEntered := s.symbolsEntered.insert intent.instrument.key }

/-- One exit can close several lots: it is one win or loss for the streak. -/
def withTrade (trade : TradeClosed) : DailyRiskState :=
  let decision := if trade.exitDecisionId = "" then trade.tradeId else trade.exitDecisionId
  let exitRef := decision ++ "|" ++ trade.instrumentKey
  { s.withDay trade.strategy fun day =>
      let day := { day with realizedPnl := day.realizedPnl + trade.netPnl }
      if day.lastExit = some exitRef then day
      else
        { day with
          lastExit := some exitRef
          trades := day.trades + 1
          consecutiveLosses :=
            if trade.netPnl < 0 then day.consecutiveLosses + 1
            else if 0 < trade.netPnl then 0
            else day.consecutiveLosses } with
    realizedPnl := s.realizedPnl + trade.netPnl
    symbolsExited := s.symbolsExited.insert trade.instrumentKey }

end DailyRiskState

namespace DailyRiskTracker

variable (config : RiskConfig)

/-! ## Changes -/

/-- `_save`. -/
def save : RiskM PUnit := do
  if (← Fault.read).tracker.isSome then
    Fault.write fun w => { w with trackerStore := w.tracker }

/-- Change the risk day in memory. -/
def update (f : DailyRiskState → DailyRiskState) : RiskM PUnit :=
  Fault.change fun w => { w with tracker := w.tracker.map f }

/-- The branches of `start_day` that start a new day. -/
def roll (now : Instant) (sodEquity : ℚ) : RiskM DailyRiskState := do
  let previous := (← Fault.read).tracker
  let today := now.istDate
  match previous with
  | none => pure ⟨⟩
  | some p =>
    if today < p.istDate then
      throw (.valueError ("stored risk state is dated " ++ Day.isoformat p.istDate ++ ", after " ++
        Day.isoformat today))
    RiskM.emit (.dailyRiskStateRolled config.bookId p.istDate p)
  let state := DailyRiskState.rolled config.bookId today sodEquity previous
  Fault.change fun w => { w with tracker := some state }
  save
  return state

/-- `start_day`: a stored state for today is kept unchanged. -/
def startDay (now : Instant) (sodEquity : ℚ) : RiskM DailyRiskState := do
  match (← Fault.read).tracker with
  | some state => if state.istDate = now.istDate then return state else roll config now sodEquity
  | none => roll config now sodEquity

/-- `_current`: today's state, rolled from the last mark if the day was never started. -/
def current (now : Instant) (equityHint : Option ℚ) : RiskM DailyRiskState := do
  match (← Fault.read).tracker, equityHint with
  | some state, none =>
    if state.istDate = now.istDate then return state else startDay config now state.lastEquity
  | some state, some hint =>
    if state.istDate = now.istDate then return state else startDay config now hint
  | none, some hint => startDay config now hint
  | none, none => throw (.runtimeError "start_day() must run before the first risk event")

/-- `record_order`, `record_reject` and `record_trade` change the day and save it. -/
def recorded (now : Instant) (change : DailyRiskState → DailyRiskState) : RiskM PUnit := do
  let _ ← current config now none
  update change
  save

/-- `on_event`. -/
def onEvent (now : Instant) (payload : EventPayload) : RiskM PUnit :=
  match payload with
  | .orderSubmitted order => recorded config now fun s => s.withOrder order.intent now
  | .orderRejected _ _ _ =>
    recorded config now fun s =>
      { s with rejectTs := recent s.rejectTs now config.limits.rejectWindow ++ [now] }
  | .tradeClosed trade => recorded config now fun s => s.withTrade trade
  | _ => pure ⟨⟩

/-- `acknowledge_streak`: an operator re-armed the strategy, so count from zero. -/
def acknowledgeStreak (strategy : String) : RiskM Bool := do
  match (← Fault.read).tracker.bind fun s => s.strategies.get? strategy with
  | none => return false
  | some day =>
    if day.consecutiveLosses = 0 then return false
    update fun s =>
      { s.withDay strategy fun day => { day with consecutiveLosses := 0 } with
        breaches := s.breaches.erase (.strConsecLosses, strategy) }
    save
    return true

/-! ## The monitor tick -/

/-- The loop that raises the new breaches. -/
def raiseAll : List Breach → RiskM PUnit
  | [] => pure ⟨⟩
  | b :: rest => do
    update fun s => { s with breaches := s.breaches.insert b.key }
    RiskM.emit (.limitBreached config.bookId b.code b.observed b.limit b.message)
    raiseAll rest

/-- `risk_tick`: mark to market, and return the limits newly crossed. -/
def riskTick (now : Instant) (equity : ℚ) (unrealized : Dict String ℚ) :
    RiskM (List Breach) := do
  let state ← current config now (some equity)
  let state := state.marked equity now
  Fault.change fun w => { w with tracker := some state }
  let new := state.fresh config.limits now unrealized
  raiseAll config new
  save
  return new

/-! ## What the risk engine reads -/

def ordersLastMin (state : Option DailyRiskState) (now : Instant) : ℕ :=
  state.elim 0 fun s => (recent s.orderTs now orderRateWindow).length

def rejectsInWindow (limits : RiskLimits) (state : Option DailyRiskState) (now : Instant) : ℕ :=
  state.elim 0 fun s => (recent s.rejectTs now limits.rejectWindow).length

/-- `strategy_stats`; without trades there is no win rate. -/
def strategyStats (state : Option DailyRiskState) (now : Instant) (unrealized : Dict String ℚ) :
    Dict String StrategyStats :=
  match state with
  | none => .empty
  | some s =>
    if s.istDate ≠ now.istDate then .empty
    else
      .ofList (s.strategies.entries.map fun e =>
        (e.1, { StrategyStats.empty with
          dayPnl := e.2.realizedPnl + (unrealized.get? e.1).getD 0
          consecutiveLosses := e.2.consecutiveLosses
          ordersLastMin := (recent e.2.orderTs now orderRateWindow).length }))

end DailyRiskTracker

/-! ## The tracker leaves the switches alone -/

/-- A property of the switches, their store and the HALT file only. -/
def RiskWorld.SwitchesOnly (I : RiskWorld → Prop) : Prop :=
  ∀ w w' : RiskWorld, w'.switches = w.switches → w'.switchStore = w.switchStore →
    w'.haltFile = w.haltFile → I w → I w'

namespace DailyRiskTracker

open Fault

variable {I : RiskWorld → Prop} (hI : RiskWorld.SwitchesOnly I) (config : RiskConfig)
  (now : Instant)

include hI

theorem keeps_emit (payload : EventPayload) : Keeps I (RiskM.emit payload) :=
  .write fun w => hI w _ rfl rfl rfl

theorem keeps_update (f : DailyRiskState → DailyRiskState) : Keeps I (update f) :=
  .change fun w => hI w _ rfl rfl rfl

theorem keeps_save : Keeps I save := by
  refine .bind .read fun w => ?_
  split
  · exact .write fun w => hI w _ rfl rfl rfl
  · exact .pure _

theorem keeps_roll (sodEquity : ℚ) : Keeps I (roll config now sodEquity) := by
  have hstart : ∀ state : DailyRiskState, Keeps I (do
      Fault.change fun w => { w with tracker := some state }
      save
      return state) := fun state =>
    .bind (.change fun w => hI w _ rfl rfl rfl) fun _ => .bind (keeps_save hI) fun _ => .pure _
  refine .bind .read fun w => ?_
  dsimp only
  cases w.tracker with
  | none => exact hstart _
  | some p =>
    dsimp only
    split
    · exact .throw _
    · exact .bind (keeps_emit hI _) fun _ => hstart _

theorem keeps_startDay (sodEquity : ℚ) : Keeps I (startDay config now sodEquity) := by
  refine .bind .read fun w => ?_
  cases w.tracker with
  | none => exact keeps_roll hI config now sodEquity
  | some state =>
    dsimp only
    split
    · exact .pure _
    · exact keeps_roll hI config now sodEquity

theorem keeps_current (hint : Option ℚ) : Keeps I (current config now hint) := by
  refine .bind .read fun w => ?_
  cases w.tracker with
  | none =>
    cases hint with
    | none => exact .throw _
    | some equity => exact keeps_startDay hI config now equity
  | some state =>
    cases hint with
    | none =>
      dsimp only
      split
      · exact .pure _
      · exact keeps_startDay hI config now _
    | some equity =>
      dsimp only
      split
      · exact .pure _
      · exact keeps_startDay hI config now _

theorem keeps_onEvent (payload : EventPayload) : Keeps I (onEvent config now payload) := by
  have hrecorded : ∀ change, Keeps I (recorded config now change) := fun change =>
    .bind (keeps_current hI config now none) fun _ =>
      .bind (keeps_update hI change) fun _ => keeps_save hI
  unfold onEvent
  split
  · exact hrecorded _
  · exact hrecorded _
  · exact hrecorded _
  · exact .pure _

theorem keeps_acknowledgeStreak (strategy : String) : Keeps I (acknowledgeStreak strategy) := by
  refine .bind .read fun w => ?_
  split
  · exact .pure _
  · split
    · exact .pure _
    · exact .bind (keeps_update hI _) fun _ => .bind (keeps_save hI) fun _ => .pure _

theorem keeps_raiseAll (breaches : List Breach) : Keeps I (raiseAll config breaches) := by
  induction breaches with
  | nil => exact .pure _
  | cons b rest ih =>
    exact .bind (keeps_update hI _) fun _ => .bind (keeps_emit hI _) fun _ => ih

theorem keeps_riskTick (equity : ℚ) (unrealized : Dict String ℚ) :
    Keeps I (riskTick config now equity unrealized) :=
  .bind (keeps_current hI config now _) fun _ =>
    .bind (.change fun w => hI w _ rfl rfl rfl) fun _ =>
      .bind (keeps_raiseAll hI config _) fun _ => .bind (keeps_save hI) fun _ => .pure _

end DailyRiskTracker

end RakshaQuant
