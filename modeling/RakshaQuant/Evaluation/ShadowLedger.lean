import RakshaQuant.Brokers.Simulated.Costs
import RakshaQuant.Decision.Signals
import RakshaQuant.Domain.Calendar
import RakshaQuant.Lib.Effect

/-! The shadow ledger: the counterfactual of every signal, entered on the first quote
after its decision, left by the exit rules of the policy net of costs, and settled
against the index when its closes are known. A signal moves between three lists that
are saved together; the events are kept by a store that outlives the process. -/

namespace RakshaQuant

namespace Shadow

/-! ## State -/

structure Pending where
  signalId : String
  decisionId : String
  instrumentKey : String
  strategy : String
  isShadow : Bool
  decidedAt : Instant
  atr : ℚ
deriving DecidableEq

structure OpenTrade where
  signalId : String
  decisionId : String
  instrumentKey : String
  strategy : String
  isShadow : Bool
  entryTs : Instant
  entryPrice : ℚ
  quantity : ℤ
  stop : ℚ
  target : ℚ
  atr : ℚ
  highestClose : ℚ
  enteredOn : Day
  timeExit : Bool
deriving DecidableEq

structure Settling where
  signalId : String
  decisionId : String
  instrumentKey : String
  entryDate : Day
  exitDate : Day
  netReturnPct : ℚ
deriving DecidableEq

structure State where
  seen : List String
  pending : List Pending
  «open» : List OpenTrade
  settling : List Settling
deriving DecidableEq

def State.empty : State := ⟨[], [], [], []⟩

/-! ## Events -/

structure Opened where
  signalId : String
  decisionId : String
  instrumentKey : String
  strategy : String
  isShadowStrategy : Bool
  entryTs : Instant
  entryPrice : ℚ
  quantity : ℤ
  stopPrice : ℚ
  targetPrice : ℚ
  atr : ℚ
deriving DecidableEq

structure Closed where
  signalId : String
  decisionId : String
  instrumentKey : String
  strategy : String
  isShadowStrategy : Bool
  entryTs : Instant
  entryPrice : ℚ
  exitTs : Instant
  exitPrice : ℚ
  exitReason : String
  quantity : ℤ
  grossPnl : ℚ
  charges : ℚ
  netPnl : ℚ
  netReturnPct : ℚ
  holdSessions : ℕ
deriving DecidableEq

structure AlphaSettled where
  signalId : String
  decisionId : String
  instrumentKey : String
  entryDate : Day
  exitDate : Day
  netReturnPct : ℚ
  niftyReturnPct : ℚ
  alphaPct : ℚ
deriving DecidableEq

inductive Event
  | opened (o : Opened)
  | closed (t : Closed)
  | settled (a : AlphaSettled)
deriving DecidableEq

/-! ## The ledger -/

/-- What a ledger is built with; the multiples are those of the exit policy. -/
structure Config where
  kStopAtr : ℚ
  kTargetAtr : ℚ
  kTrailAtr : Option ℚ
  maxHoldDays : ℕ
  costs : NSECostSchedule
  calendar : NSECalendar
  notional : ℚ
  notional_pos : 0 < notional

/-- The state in memory, the one in the state store, and the events emitted. -/
structure Ledger where
  state : State
  saved : Option State
  emitted : List Event

namespace Ledger

/-- A first start on an empty store. -/
def init : Ledger := ⟨.empty, none, []⟩

/-- The process starts again on the same store. -/
def restart (l : Ledger) : Ledger := { l with state := l.saved.getD .empty }

/-- `_save`. -/
def save (l : Ledger) : Ledger := { l with saved := some l.state }

def emit (event : Event) (l : Ledger) : Ledger := { l with emitted := l.emitted ++ [event] }

/-! ## Signals -/

/-- The queued counterfactual of a signal. -/
def queued (signal : Signal) (atr : ℚ) : Pending :=
  { signalId := signal.signalId, decisionId := signal.decisionId
    instrumentKey := signal.instrumentKey, strategy := signal.strategy
    isShadow := signal.isShadow, decidedAt := signal.generatedAt, atr }

/-- One signal of `track`; only a new BUY signal with an ATR is queued. -/
def trackOne (atr : Dict String (Option ℚ)) (s : State) (signal : Signal) : State :=
  match (atr.get? signal.instrumentKey).join with
  | none => s
  | some value =>
    if signal.signalId ∈ s.seen ∨ signal.side ≠ .buy ∨ value ≤ 0 then s
    else
      { s with
        seen := s.seen ++ [signal.signalId]
        pending := s.pending ++ [queued signal value] }

/-- `track`, which returns how many signals it queued. -/
def track (signals : List Signal) (atr : Dict String (Option ℚ)) (l : Ledger) : ℕ × Ledger :=
  let state := signals.foldl (trackOne atr) l.state
  (state.pending.length - l.state.pending.length, { l with state }.save)

/-! ## The tape -/

/-- `_open`: whole shares for the notional. -/
def enter (config : Config) (p : Pending) (price : ℚ) (ts : Instant) (l : Ledger) : Ledger :=
  let quantity := ⌊config.notional / price⌋
  if quantity < 1 then l
  else
    let stop := price - config.kStopAtr * p.atr
    let target := price + config.kTargetAtr * p.atr
    let trade : OpenTrade :=
      { signalId := p.signalId, decisionId := p.decisionId, instrumentKey := p.instrumentKey
        strategy := p.strategy, isShadow := p.isShadow, entryTs := ts, entryPrice := price
        quantity, stop, target, atr := p.atr, highestClose := price
        enteredOn := ts.istDate, timeExit := false }
    let opened : Opened :=
      { signalId := p.signalId, decisionId := p.decisionId, instrumentKey := p.instrumentKey
        strategy := p.strategy, isShadowStrategy := p.isShadow, entryTs := ts
        entryPrice := price, quantity, stopPrice := max stop (1 / 100), targetPrice := target
        atr := p.atr }
    { l with state := { l.state with «open» := l.state.open ++ [trade] } }.emit (.opened opened)

/-- The first loop of `on_quote` over the pending signals that are due. -/
def enterDue (config : Config) (q : Quote) : List Pending → Ledger → Ledger
  | [], l => l
  | p :: rest, l =>
    let taken := { l with state := { l.state with pending := l.state.pending.erase p } }
    enterDue config q rest (taken.enter config p q.ltp q.receiptTs)

/-- `_sessions_held`. -/
def sessionsHeld (config : Config) (start day : Day) : ℕ :=
  match config.calendar.tradingDays start day with
  | .ok days => days.length - 1
  | .error _ => (day - start).toNat

/-- The net return of a trade in percent, to four places. -/
def netReturn (t : OpenTrade) (net : ℚ) : ℚ :=
  Decimal.quantize (1 / 10000) (net / (t.entryPrice * t.quantity) * 100)

/-- The event of a closed trade. -/
def closing (config : Config) (t : OpenTrade) (price : ℚ) (ts : Instant) (reason : String)
    (charges : ℚ) : Closed :=
  let gross := (price - t.entryPrice) * t.quantity
  { signalId := t.signalId, decisionId := t.decisionId, instrumentKey := t.instrumentKey
    strategy := t.strategy, isShadowStrategy := t.isShadow, entryTs := t.entryTs
    entryPrice := t.entryPrice, exitTs := ts, exitPrice := price, exitReason := reason
    quantity := t.quantity, grossPnl := gross, charges, netPnl := gross - charges
    netReturnPct := netReturn t (gross - charges)
    holdSessions := sessionsHeld config t.enteredOn ts.istDate }

/-- What a closed trade waits for the index with. -/
def waiting (t : OpenTrade) (ts : Instant) (netReturnPct : ℚ) : Settling :=
  { signalId := t.signalId, decisionId := t.decisionId, instrumentKey := t.instrumentKey
    entryDate := t.enteredOn, exitDate := ts.istDate, netReturnPct }

/-- `_close`; the trade has left the open ones when the charges are computed. -/
def close (config : Config) (t : OpenTrade) (price : ℚ) (ts : Instant) (reason : String) :
    EStateM Exc Ledger PUnit := do
  modify fun l => { l with state := { l.state with «open» := l.state.open.erase t } }
  let buy ← MonadExcept.ofExcept (config.costs.charges .cnc .buy (t.entryPrice * t.quantity) false)
  let sell ← MonadExcept.ofExcept (config.costs.charges .cnc .sell (price * t.quantity) true)
  let closed := closing config t price ts reason (buy.total + sell.total : ℚ)
  let item := waiting t ts closed.netReturnPct
  modify fun l =>
    { l.emit (.closed closed) with
      state := { l.state with settling := l.state.settling ++ [item] } }

/-- Why a quote ends a trade; the quote a trade was entered on does not. -/
def exitReason (t : OpenTrade) (q : Quote) : Option String :=
  if q.receiptTs ≤ t.entryTs then none
  else if t.timeExit then some "time"
  else if q.ltp ≤ t.stop then some "stop"
  else if t.target ≤ q.ltp then some "target"
  else none

/-- The second loop of `on_quote`, which says whether a trade was closed. -/
def closeDue (config : Config) (q : Quote) : List OpenTrade → EStateM Exc Ledger Bool
  | [] => return false
  | t :: rest =>
    match exitReason t q with
    | none => closeDue config q rest
    | some reason => do
      close config t q.ltp q.receiptTs reason
      let _ ← closeDue config q rest
      return true

/-- The pending signals that a quote enters. -/
def due (q : Quote) (s : State) : List Pending :=
  s.pending.filter fun p => p.instrumentKey = q.instrumentKey ∧ p.decidedAt < q.receiptTs

def onQuote (config : Config) (q : Quote) : EStateM Exc Ledger PUnit := do
  let entering := due q (← get).state
  modify (enterDue config q entering)
  let trades := (← get).state.open.filter fun t => t.instrumentKey = q.instrumentKey
  let closed ← closeDue config q trades
  if !entering.isEmpty || closed then modify save

/-! ## Daily -/

/-- What a session start does to one open trade. -/
def trail (config : Config) (day : Day) (closes atr : Dict String ℚ) (t : OpenTrade) :
    OpenTrade :=
  if config.maxHoldDays ≤ sessionsHeld config t.enteredOn day then { t with timeExit := true }
  else
    let highestClose := match closes.get? t.instrumentKey with
      | some close => max t.highestClose close
      | none => t.highestClose
    let stop := match config.kTrailAtr with
      | some k => max t.stop (highestClose - k * (atr.get? t.instrumentKey).getD t.atr)
      | none => t.stop
    { t with highestClose, stop }

/-- `on_session_start`. -/
def onSessionStart (config : Config) (day : Day) (closes atr : Dict String ℚ) (l : Ledger) :
    Ledger :=
  let trailed := l.state.open.map (trail config day closes atr)
  { l with state := { l.state with «open» := trailed } }.save

/-- The index's settled closes, by day. -/
abbrev IndexCloses := Dict Day { close : ℚ // 0 < close }

/-- The settlement of a closed trade, when both closes are known. -/
def alphaOf (config : Config) (closes : IndexCloses) (item : Settling) : Option AlphaSettled :=
  match config.calendar.previousTradingDay item.entryDate with
  | .error _ => none
  | .ok startDay =>
    match closes.get? startDay, closes.get? item.exitDate with
    | some start, some last =>
      let nifty := (last.1 / start.1 - 1) * 100
      some
        { signalId := item.signalId, decisionId := item.decisionId
          instrumentKey := item.instrumentKey, entryDate := item.entryDate
          exitDate := item.exitDate, netReturnPct := item.netReturnPct
          niftyReturnPct := Decimal.quantize (1 / 10000) nifty
          alphaPct := Decimal.quantize (1 / 10000) (item.netReturnPct - nifty) }
    | _, _ => none

/-- The loop of `settle_alpha`, which counts what it settles. -/
def settleAll (config : Config) (closes : IndexCloses) : List Settling → Ledger → ℕ × Ledger
  | [], l => (0, l)
  | item :: rest, l =>
    match alphaOf config closes item with
    | none => settleAll config closes rest l
    | some alpha =>
      let settled := l.emit (.settled alpha)
      let state := { l.state with settling := l.state.settling.erase item }
      let after := settleAll config closes rest { settled with state }
      (after.1 + 1, after.2)

def settleAlpha (config : Config) (closes : IndexCloses) (l : Ledger) : ℕ × Ledger :=
  let settled := settleAll config closes l.state.settling l
  if settled.1 = 0 then settled else (settled.1, settled.2.save)

end Ledger

/-! ## Runs -/

inductive Action
  | track (signals : List Signal) (atr : Dict String (Option ℚ))
  | quote (q : Quote)
  | sessionStart (day : Day) (closes atr : Dict String ℚ)
  | settleAlpha (closes : Ledger.IndexCloses)
  | restart

namespace Ledger

/-- What is left of an operation, also when it raises. -/
def step (config : Config) (l : Ledger) : Action → Ledger
  | .track signals atr => (l.track signals atr).2
  | .quote q => (onQuote config q l).state
  | .sessionStart day closes atr => l.onSessionStart config day closes atr
  | .settleAlpha closes => (l.settleAlpha config closes).2
  | .restart => l.restart

def run (config : Config) : List Action → Ledger → Ledger
  | [], l => l
  | a :: rest, l => run config rest (l.step config a)

end Ledger

end Shadow

end RakshaQuant
