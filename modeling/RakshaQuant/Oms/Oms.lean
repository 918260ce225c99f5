import RakshaQuant.Lib.Effect
import RakshaQuant.Oms.PositionBook
import RakshaQuant.Store.Journal

/-! The order management system: the single entry point for every order and the
only writer of the book.

What happens between two awaits is a function of the OMS alone, named after the
stretch of `_submit`, `resolve_unknown` or the callback it is; the coroutines
below join these stretches with the awaited calls of the gate and the broker. -/

namespace RakshaQuant

/-- `_NEXT`: the allowed status moves. -/
def next : OrderStatus → List OrderStatus
  | .pendingNew => [.submitted, .rejected]
  | .submitted =>
    [.open, .triggerPending, .rejected, .unknown, .partiallyFilled, .filled, .cancelled, .expired]
  | .unknown =>
    [.open, .triggerPending, .rejected, .partiallyFilled, .filled, .cancelled, .expired]
  | .triggerPending =>
    [.open, .partiallyFilled, .filled, .pendingCancel, .cancelled, .expired]
  | .open => [.partiallyFilled, .filled, .pendingCancel, .cancelled, .expired]
  | .partiallyFilled => [.partiallyFilled, .filled, .pendingCancel, .cancelled, .expired]
  | .pendingCancel => [.cancelled, .partiallyFilled, .filled]
  | .pendingModify => [.open, .triggerPending, .partiallyFilled, .filled]
  | .filled | .cancelled | .rejected | .expired => []

inductive SubmitStatus
  | submitted
  | duplicate
  | blocked
  | rejected
  | unknown
deriving DecidableEq

def SubmitStatus.value : SubmitStatus → String
  | submitted => "SUBMITTED"
  | duplicate => "DUPLICATE"
  | blocked => "BLOCKED"
  | rejected => "REJECTED"
  | unknown => "UNKNOWN"

/-- The pre-trade decision: quantity 0 means rejected. -/
structure GateResult where
  quantity : ℤ
  reason : String
deriving DecidableEq

structure SubmitResult where
  status : SubmitStatus
  order : Option Order
  message : String
deriving DecidableEq

def SubmitResult.accepted (r : SubmitResult) : Bool :=
  r.status = .submitted ∨ r.status = .duplicate ∨ r.status = .unknown

/-- What an OMS is configured with: the order tag of an intent id (a truncated
sha256) and how long an order may stay UNKNOWN, in microseconds. -/
structure OmsConfig where
  clientOrderId : String → String
  unknownTimeout : ℤ

/-- The OMS's own state. Its book id is the book's, as the constructor checks;
`sink` is the journal its events are appended to. -/
structure OMS where
  book : PositionBook
  orders : Dict String Order
  unknownChecks : Dict String ℕ
  sink : List Write

/-- What a broker error that is not UNKNOWN gives as its reason; any other
exception leaves open whether the order was placed. -/
def Exc.notPlacedReason : Exc → Option String
  | .broker (.orderRejectedError reason) _ => some reason.value
  | .broker cls _ => if cls.outcome = .unknown then none else some cls.name
  | _ => none

namespace OMS

def init (book : PositionBook) : OMS := ⟨book, .empty, .empty, []⟩

def bookId (o : OMS) : String := o.book.bookId

/-! ## Helpers -/

/-- `_ref`. -/
def ref (order : Order) : OrderRef :=
  ⟨order.clientOrderId, order.intent.bookId, order.intent.decisionId, order.intent.instrument.key⟩

def emit (payload : EventPayload) (o : OMS) : OMS := { o with sink := o.sink ++ [.event payload] }

def alert (level key message : String) (o : OMS) : OMS := o.emit (.alert ⟨level, key, message⟩)

/-- `self.orders[order.client_order_id]`, or the order itself. -/
def latest (o : OMS) (order : Order) : Order :=
  (o.orders.get? order.clientOrderId).getD order

/-- `_set`: change the latest copy of an order and count its version. -/
def setOrder (order : Order) (change : Order → Order) (o : OMS) : OMS :=
  let changed := change (o.latest order)
  { o with
    orders := o.orders.set order.clientOrderId
      { changed with version := (o.latest order).version + 1 } }

/-- Whether `_advance` moves an order from `current` to `status`. -/
def advances (current status : OrderStatus) (force : Bool) : Bool :=
  !(status = current ∧ status ≠ .partiallyFilled) && (force || status ∈ next current)

/-- `_advance`: move an order forward, or ignore a stale or illegal move. -/
def advance (order : Order) (status : OrderStatus) (force : Bool) (o : OMS) : OMS :=
  if advances order.status status force then
    o.setOrder order fun latest => { latest with status := status }
  else o

/-! ## Submission -/

/-- How much a reduce-only intent may still take off. -/
def committed (o : OMS) (instrumentKey : String) (product : Product) : ℤ :=
  o.orders.sum fun _ order =>
    if order.intent.reduceOnly ∧ order.intent.instrument.key = instrumentKey ∧
        order.intent.product = product ∧ order.status.isTerminal = false then
      order.remainingQty
    else 0

def reducible (o : OMS) (intent : OrderIntent) : ℤ :=
  let position := o.book.quantity intent.instrument.key intent.product
  if position = 0 ∨ (0 < position ↔ intent.side = .buy) then 0
  else max 0 (|position| - o.committed intent.instrument.key intent.product)

/-- `_submit` up to the gate: a result that ends the submission, or the quantity
to ask the gate for. -/
def precheck (config : OmsConfig) (hasGate : Bool) (intent : OrderIntent) (quantity : Option ℤ)
    (o : OMS) : Except SubmitResult (Option ℤ) :=
  if intent.bookId ≠ o.bookId then
    .error ⟨.blocked, none, "intent is for book " ++ intent.bookId⟩
  else if !hasGate then .error ⟨.blocked, none, "no risk gate installed: refusing to route"⟩
  else
    match o.orders.get? (config.clientOrderId intent.intentId) with
    | some existing => .error ⟨.duplicate, some existing, "intent already submitted"⟩
    | none =>
      let qty := quantity <|> intent.quantity
      if intent.reduceOnly then
        let available := o.reducible intent
        let clipped := (qty.map (min available)).getD available
        if clipped ≤ 0 then
          .error ⟨.blocked, none, "reduce-only: nothing left to reduce"⟩
        else .ok (some clipped)
      else .ok qty

/-- `_submit` after the gate: the quantity to place, if any. -/
def sized (qty : Option ℤ) (decision : GateResult) : Except SubmitResult { q : ℤ // 0 < q } :=
  if decision.quantity ≤ 0 then
    .error ⟨.blocked, none,
      if decision.reason = "" then "rejected by the gate" else decision.reason⟩
  else
    let q := (qty.map (min decision.quantity)).getD decision.quantity
    if h : 0 < q then .ok ⟨q, h⟩
    else .error ⟨.blocked, none, "intent has no quantity (unsized)"⟩

/-- The order a submission registers. -/
def newOrder (config : OmsConfig) (intent : OrderIntent) (qty : { q : ℤ // 0 < q })
    (now : Instant) : Order :=
  { clientOrderId := config.clientOrderId intent.intentId, intent := intent, quantity := qty.1
    status := .submitted, brokerOrderId := none, filledQty := 0, avgFillPrice := none
    submittedAt := some now, version := 0, quantity_pos := quantity_positive qty }

/-- The order is registered and `OrderSubmitted` persisted before the broker call. -/
def register (order : Order) (o : OMS) : OMS :=
  { o with orders := o.orders.set order.clientOrderId order }.emit (.orderSubmitted order)

/-- `_mark_unknown`. -/
def markUnknown (order : Order) (error : String) (o : OMS) : OMS :=
  let o := o.setOrder order fun latest => { latest with status := .unknown }
  { o with unknownChecks := o.unknownChecks.set order.clientOrderId 0 }.emit
    (.orderUnknown (ref order) error)

/-- What `_submit` records when `place_order` raised: rejected when a broker error
says that nothing was placed, unknown for everything else. -/
def placeFailed (order : Order) (exc : Exc) (o : OMS) : OMS :=
  match exc.notPlacedReason with
  | none => o.markUnknown order (exc.name ++ ": " ++ exc.message)
  | some reason =>
    (o.setOrder order fun latest => { latest with status := .rejected }).emit
      (.orderRejected (ref order) reason exc.message)

/-- What `_submit` records when `place_order` returned: nothing when an update
callback came first. -/
def placed (order : Order) (ack : BrokerAck) (o : OMS) : OMS :=
  let current := o.latest order
  if current.status = .submitted then
    let o := o.setOrder current fun latest => { latest with brokerOrderId := some ack.brokerOrderId }
    let o := o.advance current ack.status false
    o.emit (.orderAcked (ref current) ack.brokerOrderId (o.latest order).status)
  else o

/-! ## Broker callbacks -/

/-- The event an accepted status update is recorded as. -/
def updateEvent (order : Order) (snap : BrokerOrderSnapshot) : EventPayload :=
  match snap.status with
  | .cancelled => .orderCancelled (ref order) snap.filledQty snap.message
  | .expired => .orderExpired (ref order) snap.filledQty
  | .rejected => .orderRejected (ref order) "BROKER_REJECTED" snap.message
  | _ => .orderAcked (ref order) snap.brokerOrderId snap.status

/-- `_on_update`. -/
def onUpdate (snap : BrokerOrderSnapshot) (o : OMS) : OMS :=
  match o.orders.get? snap.clientOrderId with
  | none =>
    o.alert "WARNING" "oms_unknown_order"
      ("broker update for unknown order " ++ snap.clientOrderId)
  | some order =>
    let o :=
      if order.brokerOrderId = none then
        o.setOrder order fun latest => { latest with brokerOrderId := some snap.brokerOrderId }
      else o
    if snap.status = .filled ∨ snap.status = .partiallyFilled then o -- driven by fills
    else if advances order.status snap.status false then
      (o.advance order snap.status false).emit (updateEvent order snap)
    else o

/-- An order's filled quantity after one more fill, never above its quantity. -/
def filledAfter (order : Order) (fill : Fill) : ℤ :=
  min (order.filledQty + fill.quantity) order.quantity

/-- An order's average fill price after one more fill. -/
def avgAfter (order : Order) (fill : Fill) : ℚ :=
  ((order.avgFillPrice.getD 0) * order.filledQty + fill.price * fill.quantity) /
    ((order.filledQty : ℚ) + fill.quantity)

def statusAfter (order : Order) (fill : Fill) : OrderStatus :=
  if filledAfter order fill = order.quantity then .filled else .partiallyFilled

/-- `fill.broker_order_id or order.broker_order_id`. -/
def brokerIdAfter (order : Order) (fill : Fill) : Option String :=
  if fill.brokerOrderId = none ∨ fill.brokerOrderId = some "" then order.brokerOrderId
  else fill.brokerOrderId

/-- The order table after a fill: the fill moves the status even where `_NEXT`
does not, so a fill that arrives late still counts. -/
def fillOrder (order : Order) (fill : Fill) (o : OMS) : OMS :=
  let o :=
    if order.quantity < order.filledQty + fill.quantity then
      o.alert "WARNING" "oms_overfill" (fill.fillId ++ " overfills " ++ order.clientOrderId)
    else o
  let o := o.setOrder order fun latest =>
    { latest with
      filledQty := filledAfter order fill
      avgFillPrice := some (avgAfter order fill)
      brokerOrderId := brokerIdAfter order fill }
  o.advance (o.latest order) (statusAfter order fill) true

/-- `self.book.apply`, raising what it raises. -/
def applyToBook (fill : Fill) (product : Product) (strategy exitReason : String) :
    EStateM Exc OMS FillOutcome := do
  let o ← get
  match o.book.apply fill product strategy exitReason with
  | .error e => throw e
  | .ok (outcome, book) =>
    set { o with book := book }
    return outcome

/-- A closed piece as a `TradeClosed`, whose fields are validated. -/
def tradeClosed (bookId : String) (p : ClosedPiece) : Except Exc TradeClosed :=
  if h : 0 ≤ p.quantity ∧ 0 < p.entryPrice ∧ 0 < p.exitPrice ∧ 0 ≤ p.charges then
    .ok
      { tradeId := p.tradeId, bookId := bookId, decisionId := p.decisionId
        exitDecisionId := p.exitDecisionId, instrumentKey := p.instrumentKey
        strategy := p.strategy, side := p.side, quantity := p.quantity
        entryPrice := p.entryPrice, exitPrice := p.exitPrice, entryTs := p.entryTs
        exitTs := p.exitTs, grossPnl := p.grossPnl, charges := p.charges, netPnl := p.netPnl
        exitReason := if p.exitReason = "" then "unknown" else p.exitReason
        quantity_nonneg := h.1, entryPrice_pos := h.2.1, exitPrice_pos := h.2.2.1
        charges_nonneg := h.2.2.2 }
  else .error (.validationError ("TradeClosed " ++ p.tradeId))

/-- Emit the closed pieces in order, up to the first that does not validate. -/
def emitTrades : List ClosedPiece → EStateM Exc OMS PUnit
  | [] => pure ⟨⟩
  | p :: rest => do
    let o ← get
    match tradeClosed o.bookId p with
    | .error e => throw e
    | .ok trade =>
      modify (emit (.tradeClosed trade))
      emitTrades rest

/-- `_on_fill`. Returns the order to tell the fill listeners about, if any. -/
def onFill (fill : Fill) : EStateM Exc OMS (Option Order) := do
  let o ← get
  if o.book.hasSeen fill.fillId then return none
  match o.orders.get? fill.clientOrderId with
  | none =>
    modify (alert "WARNING" "oms_unknown_fill"
      ("fill " ++ fill.fillId ++ " for unknown order; applied"))
    let outcome ← applyToBook fill .cnc "unknown" ""
    modify (emit (.fillReceived fill .filled fill.quantity fill.price))
    modify (emit (.positionChanged outcome.position (some fill.fillId)))
    return none
  | some order =>
    modify (fillOrder order fill)
    let intent := order.intent
    let outcome ← applyToBook fill intent.product intent.strategy intent.reason.value
    let o ← get
    modify (emit (.fillReceived fill (o.latest order).status (filledAfter order fill)
      (avgAfter order fill)))
    modify (emit (.positionChanged outcome.position (some fill.fillId)))
    emitTrades outcome.closed
    return some (o.latest order)

/-! ## Restart -/

/-- `_restore_fill`. -/
def restoreFill (fill : Fill) (orderStatus : OrderStatus) (orderFilledQty : ℤ)
    (orderAvgPrice : ℚ) : EStateM Exc OMS PUnit := do
  let o ← get
  match o.orders.get? fill.clientOrderId with
  | none => let _ ← applyToBook fill .cnc "unknown" ""
  | some order =>
    let intent := order.intent
    let _ ← applyToBook fill intent.product intent.strategy intent.reason.value
    modify (setOrder order fun latest =>
      { latest with
        filledQty := orderFilledQty
        avgFillPrice := some orderAvgPrice
        status := orderStatus
        brokerOrderId := brokerIdAfter order fill })

def popCheck (coid : String) (o : OMS) : OMS :=
  { o with unknownChecks := o.unknownChecks.pop coid }

/-- `_restore_status` for the three terminal updates. -/
def restoreTerminal (order : Order) (status : OrderStatus) (o : OMS) : OMS :=
  (o.setOrder order fun latest => { latest with status := status }).popCheck order.clientOrderId

/-- `_restore_status` for `OrderAcked`. -/
def restoreAcked (order : Order) (brokerOrderId : String) (status : OrderStatus) (o : OMS) : OMS :=
  let o :=
    if order.status.isTerminal = false then
      o.setOrder order fun latest =>
        { latest with brokerOrderId := some brokerOrderId, status := status }
    else if order.brokerOrderId = none then
      o.setOrder order fun latest => { latest with brokerOrderId := some brokerOrderId }
    else o
  o.popCheck order.clientOrderId

/-- `_restore_status` for `OrderUnknown`. -/
def restoreUnknown (order : Order) (o : OMS) : OMS :=
  let o := o.setOrder order fun latest => { latest with status := .unknown }
  { o with unknownChecks := o.unknownChecks.set order.clientOrderId 0 }

/-- Apply a lifecycle update to its order, if the order is known and the update
is this book's; says whether it was applied. -/
def restoreStatus (ref : OrderRef) (change : Order → OMS → OMS) : EStateM Exc OMS Bool := do
  let o ← get
  match o.orders.get? ref.clientOrderId with
  | none => return false
  | some order =>
    if ref.bookId ≠ o.bookId then return false
    modify (change order)
    return true

/-- One event of `restore`; says whether it was applied. -/
def restoreEvent (p : EventPayload) : EStateM Exc OMS Bool := do
  let o ← get
  match p with
  | .orderSubmitted order =>
    if order.intent.bookId ≠ o.bookId then return false
    set { o with orders := o.orders.set order.clientOrderId order }
    return true
  | .fillReceived fill orderStatus orderFilledQty orderAvgPrice =>
    if fill.bookId ≠ o.bookId then return false
    restoreFill fill orderStatus orderFilledQty orderAvgPrice
    return true
  | .orderAcked ref boid status => restoreStatus ref fun order => restoreAcked order boid status
  | .orderUnknown ref _ => restoreStatus ref restoreUnknown
  | .orderRejected ref _ _ => restoreStatus ref fun order => restoreTerminal order .rejected
  | .orderCancelled ref _ _ => restoreStatus ref fun order => restoreTerminal order .cancelled
  | .orderExpired ref _ => restoreStatus ref fun order => restoreTerminal order .expired
  | _ => return false

/-- The events of `restore` in order; counts those applied. -/
def restoreEvents : List EventPayload → ℕ → EStateM Exc OMS ℕ
  | [], applied => return applied
  | p :: rest, applied => do
    let counted ← restoreEvent p
    restoreEvents rest (if counted then applied + 1 else applied)

/-- `restore`: needs an OMS without orders and without books. -/
def restore (ps : List EventPayload) : EStateM Exc OMS ℕ := do
  let o ← get
  if o.orders.keys ≠ [] ∨ o.book.books.keys ≠ [] then
    throw (.runtimeError "restore() needs a fresh OMS and book")
  restoreEvents ps 0

/-! ## UNKNOWN resolution -/

/-- An UNKNOWN order was found at the broker: note its id there. -/
def found (order : Order) (snap : BrokerOrderSnapshot) (o : OMS) : OMS :=
  o.setOrder order fun latest => { latest with brokerOrderId := some snap.brokerOrderId }

/-- After the fills of a found order were adopted: take over its status. -/
def resolved (order : Order) (snap : BrokerOrderSnapshot) (o : OMS) : OMS :=
  let current := o.latest order
  let o :=
    if current.status.isTerminal = false ∧ snap.status ≠ .filled ∧
        snap.status ≠ .partiallyFilled then
      o.advance current snap.status false
    else o
  (o.emit (.orderAcked (ref order) snap.brokerOrderId (o.latest order).status)).popCheck
    order.clientOrderId

/-- An UNKNOWN order is absent at the broker: count the check, and reject the
order after two checks and the timeout. -/
def absent (config : OmsConfig) (now : Instant) (order : Order) (o : OMS) : OMS :=
  let coid := order.clientOrderId
  let checks := (o.unknownChecks.get? coid).getD 0 + 1
  let o := { o with unknownChecks := o.unknownChecks.set coid checks }
  let waited := now - order.submittedAt.getD now
  if 2 ≤ checks ∧ config.unknownTimeout ≤ waited then
    ((o.setOrder order fun latest => { latest with status := .rejected }).emit
      (.orderRejected (ref order) "NOT_FOUND_AT_BROKER"
        ("absent after " ++ toString checks ++ " checks"))).popCheck coid
  else o

/-- The orders `resolve_unknown` looks up, in the table's order. -/
def unknownOrders (o : OMS) : List String :=
  (o.orders.entries.filter fun e => e.2.status = .unknown).map Prod.fst

/-! ## Reconciliation -/

/-- A difference `reconcile` reports. -/
inductive Diff
  | adopted (fillId : String)
  | absentAtBroker (coid : String) (status : OrderStatus)
  | status (coid : String) (ours theirs : OrderStatus)
  | unknownToOms (coid : String)
  | position (key : String × Product) (ours theirs : ℤ)
  | cash (ours theirs : ℚ)
deriving DecidableEq

namespace Diff

def text : Diff → String
  | adopted fid => "adopted missed fill " ++ fid
  | absentAtBroker coid s => "order " ++ coid ++ " (" ++ s.value ++ ") unknown to the broker"
  | status coid ours theirs =>
    "order " ++ coid ++ ": OMS " ++ ours.value ++ " vs broker " ++ theirs.value
  | unknownToOms coid => "broker order " ++ coid ++ " unknown to the OMS"
  | position key ours theirs =>
    "position " ++ key.1 ++ "/" ++ key.2.value ++ ": OMS " ++ toString ours ++ " vs broker " ++
      toString theirs
  | cash ours theirs => "cash: OMS " ++ toString ours ++ " vs broker " ++ toString theirs

/-- `d.startswith("adopted")`, which holds of no other difference's text. -/
def isAdopted : Diff → Bool
  | adopted _ => true
  | _ => false

end Diff

/-- How the OMS's orders differ from the broker's. -/
def orderDiffs (brokerOrders : Dict String BrokerOrderSnapshot) (o : OMS) : List Diff :=
  (o.orders.entries.flatMap fun e =>
    match brokerOrders.get? e.1 with
    | none =>
      if e.2.status ≠ .rejected ∧ e.2.status ≠ .unknown then [.absentAtBroker e.1 e.2.status]
      else []
    | some snap => if snap.status ≠ e.2.status then [.status e.1 e.2.status snap.status] else [])
  ++ (brokerOrders.keys.filter fun coid => (o.orders.get? coid).isNone).map .unknownToOms

/-- Quantities by key; the last position of a key counts. -/
def quantities (positions : List Position) : Dict (String × Product) ℤ :=
  .ofList (positions.map fun p => ((p.instrumentKey, p.product), p.quantity))

def positionKeyLe (a b : String × Product) : Prop :=
  a.1 < b.1 ∨ (a.1 = b.1 ∧ a.2.value ≤ b.2.value)

instance : DecidableRel positionKeyLe := fun a b =>
  inferInstanceAs (Decidable (a.1 < b.1 ∨ (a.1 = b.1 ∧ a.2.value ≤ b.2.value)))

/-- How the book's positions differ from the broker's, in sorted key order. -/
def positionDiffs (now : Instant) (theirs : List Position) (o : OMS) : List Diff :=
  let ours := quantities (o.book.positions now)
  let theirs := quantities theirs
  let keys := ours.keys ++ theirs.keys.filter fun k => (ours.get? k).isNone
  (keys.insertionSort positionKeyLe).flatMap fun key =>
    let mine := (ours.get? key).getD 0
    let broker := (theirs.get? key).getD 0
    if mine ≠ broker then [.position key mine broker] else []

def cashDiffs (funds : Funds) (o : OMS) : List Diff :=
  let brokerCash := funds.availableCash + funds.blocked + funds.unsettledCredit
  if brokerCash ≠ o.book.cash then [.cash o.book.cash brokerCash] else []

/-- Record the result of a reconciliation, with an alert when anything drifts. -/
def recordReconciliation (diffs : List Diff) (o : OMS) : OMS × ReconciliationResult :=
  let inSync := diffs.all Diff.isAdopted
  let result : ReconciliationResult :=
    ⟨o.bookId, "oms_broker", inSync, diffs.map Diff.text⟩
  let o := o.emit (.reconciliationResult result)
  (if inSync then o
    else o.alert "CRITICAL" "SYS_RECON_DRIFT" ("; ".intercalate (diffs.map Diff.text)), result)

end OMS

/-! ## The desk: an OMS and the listener to its fills -/

/-- An OMS and what listens to its fills (the exit manager, say). -/
structure Desk (T : Type) where
  oms : OMS
  ext : T

/-- A fill listener changes its own state and may raise alerts. -/
abbrev FillListener (T : Type) := Fill → Order → OMS → T → T × List Alert

namespace Desk

variable {T : Type}

def mapOms (f : OMS → OMS) (d : Desk T) : Desk T := { d with oms := f d.oms }

/-- Emit alerts straight to the sink. -/
def alerts (as : List Alert) (d : Desk T) : Desk T :=
  d.mapOms fun o => { o with sink := o.sink ++ as.map fun a => .event (.alert a) }

/-- `_on_fill` with its listener, called after the fill is recorded. -/
def onFill (listener : FillListener T) (fill : Fill) : EStateM Exc (Desk T) PUnit := fun d =>
  match OMS.onFill fill d.oms with
  | .error e o => .error e { d with oms := o }
  | .ok none o => .ok ⟨⟩ { d with oms := o }
  | .ok (some order) o =>
    let r := listener fill order o d.ext
    .ok ⟨⟩ (({ oms := o, ext := r.1 } : Desk T).alerts r.2)

end Desk

/-! ## The coroutines -/

namespace World

variable {B T : Type}

def mapOms (f : OMS → OMS) (w : World B (Desk T)) : World B (Desk T) :=
  { w with desk := w.desk.mapOms f }

end World

/-- The pre-trade gate as the OMS calls it. -/
abbrev OrderGate (W : Type) := OrderIntent → Option ℤ → EStateM Exc W GateResult

namespace OMS

variable {B T : Type}

/-- `_submit` from the registration of the order to its recorded outcome. -/
def place (adapter : BrokerAdapter (World B (Desk T))) (order : Order) :
    EStateM Exc (World B (Desk T)) SubmitResult := do
  modify (World.mapOms (register order))
  match ← Effect.attempt (adapter.placeOrder order) with
  | .error exc =>
    modify (World.mapOms (placeFailed order exc))
    let latest := (← get).desk.oms.latest order
    match exc.notPlacedReason with
    | none => return ⟨.unknown, some latest, exc.name ++ ": " ++ exc.message⟩
    | some reason => return ⟨.rejected, some latest, reason ++ ": " ++ exc.message⟩
  | .ok ack =>
    modify (World.mapOms (placed order ack))
    return ⟨.submitted, some ((← get).desk.oms.latest order), ""⟩

/-- `submit`, run to its end before anything else happens. -/
def submit (config : OmsConfig) (adapter : BrokerAdapter (World B (Desk T)))
    (gate : Option (OrderGate (World B (Desk T)))) (now : Instant) (intent : OrderIntent)
    (quantity : Option ℤ) : EStateM Exc (World B (Desk T)) SubmitResult := do
  match (← get).desk.oms.precheck config gate.isSome intent quantity, gate with
  | .error result, _ => return result
  | .ok _, none => return ⟨.blocked, none, "no risk gate installed: refusing to route"⟩
  | .ok qty, some gate =>
    let decision ← gate intent qty
    match sized qty decision with
    | .error result => return result
    | .ok q => place adapter (newOrder config intent q now)

def cancel (adapter : BrokerAdapter (World B (Desk T))) (coid : String) :
    EStateM Exc (World B (Desk T)) PUnit := do
  match (← get).desk.oms.orders.get? coid with
  | none => return
  | some order =>
    match order.status.isTerminal, order.brokerOrderId with
    | false, some boid => let _ ← adapter.cancelOrder boid
    | _, _ => return

/-- Apply the fills one by one, as `_on_fill` does. -/
def applyFills (listener : FillListener T) : List Fill → EStateM Exc (World B (Desk T)) PUnit
  | [] => pure ⟨⟩
  | f :: rest => do
    World.onDesk (Desk.onFill listener f)
    applyFills listener rest

/-- `_adopt_fills`: apply the broker's fills the book has not seen. -/
def adoptFills (adapter : BrokerAdapter (World B (Desk T))) (listener : FillListener T)
    (since : Option Instant) : EStateM Exc (World B (Desk T)) (List String) := do
  let trades ← adapter.getTrades since
  let o := (← get).desk.oms
  let missing := trades.filter fun f => !o.book.hasSeen f.fillId
  applyFills listener missing
  return missing.map Fill.fillId

/-- One order of `resolve_unknown`. -/
def resolveOne (config : OmsConfig) (adapter : BrokerAdapter (World B (Desk T)))
    (listener : FillListener T) (now : Instant) (coid : String) :
    EStateM Exc (World B (Desk T)) PUnit := do
  match (← get).desk.oms.orders.get? coid with
  | none => throw (.keyError coid)
  | some order =>
    match ← adapter.findOrderByTag coid with
    | some snap =>
      modify (World.mapOms (found order snap))
      let _ ← adoptFills adapter listener order.submittedAt
      modify (World.mapOms (resolved order snap))
    | none => modify (World.mapOms (absent config now order))

def resolveAll (config : OmsConfig) (adapter : BrokerAdapter (World B (Desk T)))
    (listener : FillListener T) (now : Instant) :
    List String → EStateM Exc (World B (Desk T)) PUnit
  | [] => pure ⟨⟩
  | coid :: rest => do
    resolveOne config adapter listener now coid
    resolveAll config adapter listener now rest

def resolveUnknown (config : OmsConfig) (adapter : BrokerAdapter (World B (Desk T)))
    (listener : FillListener T) (now : Instant) : EStateM Exc (World B (Desk T)) PUnit := do
  resolveAll config adapter listener now (← get).desk.oms.unknownOrders

/-- `reconcile`: adopt missed fills, then compare orders, positions and cash. -/
def reconcile (adapter : BrokerAdapter (World B (Desk T))) (listener : FillListener T)
    (now : Instant) : EStateM Exc (World B (Desk T)) ReconciliationResult := do
  let adopted ← adoptFills adapter listener none
  let snaps ← adapter.getOrders
  let orderDiffs := (← get).desk.oms.orderDiffs (.ofList (snaps.map fun s => (s.clientOrderId, s)))
  let o := (← get).desk.oms
  let theirs ← adapter.getPositions
  let positionDiffs := o.positionDiffs now theirs
  let funds ← adapter.getFunds
  let cashDiffs := (← get).desk.oms.cashDiffs funds
  let diffs := adopted.map .adopted ++ orderDiffs ++ positionDiffs ++ cashDiffs
  let result := ((← get).desk.oms.recordReconciliation diffs).2
  modify (World.mapOms fun o => (o.recordReconciliation diffs).1)
  return result

end OMS

end RakshaQuant
