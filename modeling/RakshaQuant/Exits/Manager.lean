import RakshaQuant.Decision.Policy
import RakshaQuant.Desk.System
import RakshaQuant.Domain.Calendar
import RakshaQuant.Exits.State

/-! The coroutines of the exit manager, on a desk whose fills it listens to. The
simulated broker reports no fill inside a call, so the position object a coroutine
holds across an await is the one in the table. -/

namespace RakshaQuant

/-- What stays the same over a run. -/
structure ExitManager where
  env : SimEnv
  config : OmsConfig
  policy : ExitPolicy
  calendar : NSECalendar

/-- What a call of a method brings along: the clocks, what `new_id` returns for an
intent, what the gate answers and what becomes of the broker's acknowledgements. -/
structure ExitCall where
  now : Instant
  brokerNow : Instant
  newId : String → String
  gate : Gate
  delivery : Delivery

namespace World

/-- Change the exit manager's state. -/
def mapExits (f : Exits → Exits) (w : Paper Exits) : Paper Exits :=
  { w with desk := { w.desk with ext := f w.desk.ext } }

def alert (a : Alert) (w : Paper Exits) : Paper Exits := { w with desk := w.desk.alerts [a] }

def exits (w : Paper Exits) : Exits := w.desk.ext

end World

/-- The fields of an exit the record's validator checks. -/
def ValidExit (kind : IntentKind) (qty : ℤ) (orderType : OrderType) (trigger : Option ℚ)
    (decisionPrice : ℚ) : Prop :=
  (∀ q ∈ some qty, 0 < q) ∧ (∀ p ∈ trigger, 0 < p) ∧ 0 < decisionPrice ∧
    true = kind.reducesRisk ∧ (orderType = .limit → (none : Option ℚ).isSome) ∧
    (orderType = .sl ∨ orderType = .slM → trigger.isSome) ∧
    (orderType = .sl → (none : Option ℚ).isSome)

instance (kind : IntentKind) (qty : ℤ) (orderType : OrderType) (trigger : Option ℚ)
    (decisionPrice : ℚ) : Decidable (ValidExit kind qty orderType trigger decisionPrice) :=
  inferInstanceAs (Decidable (_ ∧ _))

/-- What distinguishes one exit of a position from another. -/
structure ExitLeg where
  leg : String
  kind : IntentKind
  reason : IntentReason
  qty : ℤ
  orderType : OrderType
  trigger : Option ℚ
  price : Option ℚ

/-- The intent of an exit with a given id. -/
def ManagedPosition.exitIntent (pos : ManagedPosition) (id decisionId bookId : String)
    (now : Instant) (leg : ExitLeg) : Except Exc OrderIntent :=
  let price := (leg.price.filter (· ≠ 0)).getD pos.stopPrice
  if h : ValidExit leg.kind leg.qty leg.orderType leg.trigger price then
    .ok
      { intentId := id, decisionId := decisionId, parentDecisionId := some pos.entryDecisionId
        bookId := bookId, strategy := pos.strategy, signalId := none
        instrument := pos.instrument, side := .sell, kind := leg.kind, quantity := some leg.qty
        orderType := leg.orderType, product := pos.product, validity := .day
        limitPrice := none, triggerPrice := leg.trigger, stopPrice := none, targetPrice := none
        reduceOnly := true, decisionPrice := price, decisionTs := now, reason := leg.reason
        source := .exitManager
        quantity_pos := h.1, limitPrice_pos := no_price, triggerPrice_pos := h.2.1
        decisionPrice_pos := h.2.2.1, reduceOnly_eq := h.2.2.2.1
        limit_needs_price := h.2.2.2.2.1, sl_needs_trigger := h.2.2.2.2.2.1
        sl_needs_price := h.2.2.2.2.2.2 }
  else .error (.validationError ("OrderIntent " ++ id))

/-- What `refresh_stops` does about a position whose stop is missing or out of date. -/
inductive StopAction
  /-- Its stop still rests: take it over. -/
  | adopt (live : Order) (trigger : ℚ)
  /-- Cancel what is there, if anything, and place a new stop. -/
  | replace (working : Option String)
deriving DecidableEq

def Exits.stopAction (o : OMS) (pos : ManagedPosition) : StopAction :=
  match pos.stopCoid with
  | none =>
    match liveStop o pos with
    | none => .replace none
    | some live =>
      match live.intent.triggerPrice with
      | some trigger =>
        if live.remainingQty = pos.quantity then .adopt live trigger
        else .replace (some live.clientOrderId)
      | none => .replace (some live.clientOrderId)
  | some coid =>
    match o.orders.get? coid with
    | some current => if current.status.isTerminal then .replace none else .replace (some coid)
    | none => .replace none

namespace ExitManager

variable (m : ExitManager)

def system : System Exits := ⟨m.env, m.config, Exits.onFill m.policy⟩

/-! ## Talking to the OMS -/

def cancel (call : ExitCall) (coid : String) : EStateM Exc (Paper Exits) PUnit :=
  OMS.cancel (m.system.adapter call.brokerNow) coid

def submit (call : ExitCall) (intent : OrderIntent) : EStateM Exc (Paper Exits) SubmitResult :=
  OMS.submit m.config (call.delivery.through (m.system.adapter call.brokerNow))
    (some call.gate.asOrderGate) call.now intent none

/-- `_intent`. -/
def intent (call : ExitCall) (bookId : String) (pos : ManagedPosition) (leg : ExitLeg) :
    Except Exc OrderIntent := do
  let id ← intentId bookId pos.strategy pos.instrument.key pos.signalBarDate leg.leg
  pos.exitIntent id (call.newId id) bookId call.now leg

/-- Build an exit of a position and submit it. -/
def submitExit (call : ExitCall) (pos : ManagedPosition) (leg : ExitLeg) :
    EStateM Exc (Paper Exits) SubmitResult := do
  let intent ← SimulatedBroker.ofExcept (intent call (← get).desk.oms.bookId pos leg)
  m.submit call intent

/-- `_cancel_stop`. -/
def cancelStop (call : ExitCall) (key : String) (pos : ManagedPosition) :
    EStateM Exc (Paper Exits) PUnit := do
  match pos.stopCoid with
  | none => return
  | some coid =>
    m.cancel call coid
    modify (World.mapExits (.update key (.withStop none)))

/-! ## Stops -/

/-- The stop order of a position, in its next version. -/
def stopLeg (call : ExitCall) (pos : ManagedPosition) : ExitLeg :=
  { leg := "stop-" ++ Day.isoformat call.now.istDate ++ "-v" ++ toString (pos.stopVersion + 1)
    kind := .close, reason := .stop, qty := pos.quantity, orderType := .slM
    trigger := some pos.stopPrice, price := some pos.stopPrice }

/-- The stop was placed, or it was not. -/
def recordStop (key : String) (result : SubmitResult) (w : Paper Exits) : Paper Exits :=
  match result.accepted, result.order with
  | true, some order =>
    w.mapExits fun e => (e.update key (.withStop (some order.clientOrderId))).clearStale key
  | _, _ =>
    w.alert ⟨"WARNING", "exit_stop_not_placed",
      key ++ ": " ++ result.status.value ++ " " ++ result.message⟩

def placeStop (call : ExitCall) (key : String) (pos : ManagedPosition) :
    EStateM Exc (Paper Exits) PUnit := do
  modify (World.mapExits (.update key .nextVersion))
  let result ← m.submitExit call pos (stopLeg call pos)
  modify (recordStop key result)

/-- One position of `refresh_stops`. -/
def refreshOne (call : ExitCall) (key : String) : EStateM Exc (Paper Exits) PUnit := do
  match (← get).exits.position? key with
  | none => modify (World.mapExits (.clearStale key))
  | some pos =>
    if pos.closing ∨ pos.quantity ≤ 0 then modify (World.mapExits (.clearStale key))
    else
      match Exits.stopAction (← get).desk.oms pos with
      | .adopt live trigger =>
        modify (World.mapExits fun e =>
          (e.update key fun pos =>
            { pos with
              stopCoid := some live.clientOrderId, stopPrice := trigger }).clearStale key)
      | .replace none => m.placeStop call key pos
      | .replace (some coid) =>
        m.cancel call coid
        m.placeStop call key pos

def refreshAll (call : ExitCall) : List String → EStateM Exc (Paper Exits) PUnit
  | [] => pure ⟨⟩
  | key :: rest => do
    m.refreshOne call key
    refreshAll call rest

/-- `refresh_stops`: place the stop of every position marked, in the order of the keys. -/
def refreshStops (call : ExitCall) : EStateM Exc (Paper Exits) PUnit := do
  m.refreshAll call ((← get).exits.staleStops.insertionSort (· ≤ ·))
  modify (World.mapExits .save)

/-! ## Exits -/

/-- A full exit was accepted, or its position is to be protected again. -/
def recordExit (key : String) (reason : IntentReason) (result : SubmitResult) (w : Paper Exits) :
    Paper Exits :=
  if result.accepted then w.mapExits (.update key .close)
  else
    (w.alert ⟨"WARNING", "exit_not_submitted",
      key ++ " " ++ reason.value ++ ": " ++ result.status.value ++ " " ++ result.message⟩).mapExits
      (.markStale key)

/-- `_exit_all`. -/
def exitAll (call : ExitCall) (key : String) (reason : IntentReason) (leg : String)
    (price : Option ℚ) : EStateM Exc (Paper Exits) PUnit := do
  match (← get).exits.position? key with
  | none => return
  | some pos =>
    m.cancelStop call key pos
    let result ← m.submitExit call pos
      { leg := leg, kind := .close, reason := reason, qty := pos.quantity, orderType := .market
        trigger := none, price := price }
    modify (recordExit key reason result)

/-- A partial exit was submitted; what remains needs its stop back. -/
def recordPartial (key : String) (result : SubmitResult) (w : Paper Exits) : Paper Exits :=
  let told :=
    if result.accepted then w
    else w.alert ⟨"WARNING", "exit_not_submitted",
      key ++ " partial: " ++ result.status.value ++ " " ++ result.message⟩
  told.mapExits fun e => (e.update key .takePartial).markStale key

/-- `_exit_partial`. -/
def exitPartial (call : ExitCall) (key : String) (price : ℚ) :
    EStateM Exc (Paper Exits) PUnit := do
  match (← get).exits.position? key with
  | none => return
  | some pos =>
    let lot := pos.instrument.lotSize
    let qty := m.policy.partialOf pos.quantity / lot * lot
    if qty ≤ 0 ∨ pos.quantity ≤ qty then
      modify (World.mapExits (.update key .takePartial))
    else
      m.cancelStop call key pos
      let result ← m.submitExit call pos
        { leg := "partial", kind := .reduce, reason := .partially, qty := qty
          orderType := .market, trigger := none, price := some price }
      modify (recordPartial key result)

/-! ## The monitor's entry points -/

/-- `expect_entry`. -/
def expectEntry (entry : OrderIntent) (atr : ℚ) (signalBarDate : Day) :
    EStateM Exc (Paper Exits) PUnit := do
  if atr ≤ 0 then throw (.valueError "ATR must be positive")
  modify (World.mapExits (.expect (m.config.clientOrderId entry.intentId)
    ⟨atr, entry.strategy, entry.decisionId, signalBarDate⟩))
  modify (World.mapExits .save)

/-- The partial exit is due at this price. -/
def partialDue (pos : ManagedPosition) (price : ℚ) : Bool :=
  match m.policy.partialAtR with
  | none => false
  | some r => !pos.partialTaken && pos.entryPrice + r * pos.rDistance ≤ price

/-- One position of `on_quote`. -/
def quoteOne (call : ExitCall) (quote : Quote) (key : String) :
    EStateM Exc (Paper Exits) PUnit := do
  match (← get).exits.position? key with
  | none => return
  | some pos =>
    if pos.instrument.key ≠ quote.instrumentKey ∨ pos.closing then return
    else if pos.targetPrice ≤ quote.ltp then
      m.exitAll call key .target "target" (some quote.ltp)
    else if m.partialDue pos quote.ltp then m.exitPartial call key quote.ltp
    else return

def quoteAll (call : ExitCall) (quote : Quote) : List String → EStateM Exc (Paper Exits) PUnit
  | [] => pure ⟨⟩
  | key :: rest => do
    m.quoteOne call quote key
    quoteAll call quote rest

/-- `on_quote`. -/
def onQuote (call : ExitCall) (quote : Quote) : EStateM Exc (Paper Exits) PUnit := do
  m.refreshStops call
  m.quoteAll call quote (← get).exits.state.positions.keys
  modify (World.mapExits .save)

/-- One position of `on_session_start`. -/
def startOne (call : ExitCall) (day : Day) (atr closes : String → Option ℚ) (key : String) :
    EStateM Exc (Paper Exits) PUnit := do
  match (← get).exits.position? key with
  | none => return
  | some pos =>
    if pos.closing then return
    else
      let sessions ← SimulatedBroker.ofExcept (m.calendar.tradingDays pos.enteredOn day)
      if m.policy.maxHoldDays ≤ (sessions.length : ℤ) - 1 then
        m.exitAll call key .time ("time-" ++ Day.isoformat day) none
      else
        modify (World.mapExits fun e =>
          (e.update key (ManagedPosition.trailed m.policy (closes pos.instrument.key)
            (atr pos.instrument.key))).markStale key)

def startAll (call : ExitCall) (day : Day) (atr closes : String → Option ℚ) :
    List String → EStateM Exc (Paper Exits) PUnit
  | [] => pure ⟨⟩
  | key :: rest => do
    m.startOne call day atr closes key
    startAll call day atr closes rest

/-- `on_session_start`. -/
def onSessionStart (call : ExitCall) (day : Day) (atr closes : String → Option ℚ) :
    EStateM Exc (Paper Exits) PUnit := do
  m.startAll call day atr closes (← get).exits.state.positions.keys
  m.refreshStops call
  modify (World.mapExits .save)

def flattenAll (call : ExitCall) (reason : String) : List String → EStateM Exc (Paper Exits) PUnit
  | [] => pure ⟨⟩
  | key :: rest => do
    m.exitAll call key .flatten reason none
    flattenAll call reason rest

/-- `flatten`: exit every managed position at market. -/
def flatten (call : ExitCall) (reason : String) : EStateM Exc (Paper Exits) PUnit := do
  m.flattenAll call reason (← get).exits.state.positions.keys
  modify (World.mapExits .save)

/-- `stand_down` before it saves. -/
def standDownOne (call : ExitCall) (key : String) (pos : ManagedPosition) :
    EStateM Exc (Paper Exits) PUnit := do
  m.cancelStop call key pos
  modify (World.mapExits fun e => (e.update key .close).clearStale key)

/-- `stand_down`: the kill switch flattens this position, so let go of it. -/
def standDown (call : ExitCall) (instrumentKey : String) (product : Product) :
    EStateM Exc (Paper Exits) PUnit := do
  let key := positionKey instrumentKey product
  match (← get).exits.position? key with
  | none => return
  | some pos =>
    m.standDownOne call key pos
    modify (World.mapExits .save)

/-- The part of `reconcile` before its stops: take stock and raise an alert per note. -/
def stocktake (call : ExitCall) (atr : String → Option ℚ) (w : Paper Exits) : Paper Exits :=
  let r := Exits.takeStock m.policy call.now call.newId atr w.desk.oms w.exits
  { w with desk := ({ w.desk with ext := r.1 }).alerts (r.2.map Exits.noteAlert) }

/-- `reconcile`. -/
def reconcile (call : ExitCall) (atr : String → Option ℚ) :
    EStateM Exc (Paper Exits) (List String) := do
  let w ← get
  let notes := (Exits.takeStock m.policy call.now call.newId atr w.desk.oms w.exits).2
  modify (m.stocktake call atr)
  m.refreshStops call
  modify (World.mapExits .save)
  return notes

end ExitManager

end RakshaQuant
