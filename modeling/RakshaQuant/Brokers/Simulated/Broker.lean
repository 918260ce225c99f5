import RakshaQuant.Brokers.Simulated.Costs
import RakshaQuant.Brokers.Simulated.FillModel
import RakshaQuant.Brokers.Simulated.State
import RakshaQuant.Domain.Calendar
import RakshaQuant.Lib.Effect
import RakshaQuant.Lib.Numeral

/-! The simulated exchange. It calls back into the desk that is subscribed to it:
an update is a function of the desk, a fill may raise there. What happens between
two callbacks is a function of the broker alone. -/

namespace RakshaQuant

structure BrokerCapabilities where
  orderTypes : List OrderType
  products : List Product
  validities : List Validity

def BrokerCapabilities.supports (c : BrokerCapabilities) (orderType : OrderType)
    (product : Product) (validity : Validity) : Bool :=
  orderType ∈ c.orderTypes ∧ product ∈ c.products ∧ validity ∈ c.validities

/-- `SIM_CAPABILITIES`. -/
def simCapabilities : BrokerCapabilities := ⟨[.market, .slM], [.cnc, .mis], [.day]⟩

inductive SellProceeds
  | sameDay
  | tPlus1
deriving DecidableEq

/-- What a simulated broker is built with. The latency of an order, drawn from a
generator seeded with its tag and day, is a parameter, in microseconds. -/
structure SimEnv where
  bookId : String
  instruments : Dict String Instrument
  calendar : NSECalendar
  costs : NSECostSchedule
  config : FillModelConfig
  market : Dict String MarketContext
  sellProceeds : SellProceeds
  capabilities : BrokerCapabilities
  sqrt : ℚ → ℚ
  latency : String → Day → ℤ
  /-- The runner builds the mapping by the instruments' own keys. -/
  instruments_keyed : ∀ key instrument, instruments.get? key = some instrument →
    instrument.key = key

/-- `_LIVE`. -/
def OrderStatus.isLive : OrderStatus → Bool
  | .open | .partiallyFilled | .triggerPending => true
  | _ => false

/-- `_FUNDS_BUFFER`. -/
def fundsBuffer : ℚ := 1 / 200

/-- The id of a book's `n`-th broker order, `{n:06d}`. -/
def simId (bookId : String) (n : ℕ) : String := "SIM-" ++ bookId ++ "-" ++ Numeral.padded 6 n

/-- The id of an order's `k`-th fill. -/
def fillIdOf (boid : String) (k : ℕ) : String := boid ++ "-F" ++ toString k

namespace SimulatedBroker

def init (startingCash : ℚ) : SimulatedBroker :=
  { core := .init startingCash, orders := .empty, fills := [], byTag := .empty, dirty := false
    dirtyOrders := [], newFills := [], quotes := .empty }

/-! ## Cash and market data -/

def available (b : SimulatedBroker) : ℚ := b.core.cash - b.core.blocked

/-- `_settle`: sale proceeds that are due become cash. -/
def settle (today : Day) (b : SimulatedBroker) : SimulatedBroker :=
  let due := b.core.unsettled.filter fun u => u.availableOn ≤ today
  if due = [] then b
  else
    { b with core :=
      { b.core with
        cash := b.core.cash + (due.map Unsettled.amount).sum
        unsettled := b.core.unsettled.filter fun u => today < u.availableOn } }

/-- What `_interval_volume` returns: the volume since the previous quote. -/
def intervalVolume (quote : Quote) (today : Day) (b : SimulatedBroker) : ℤ :=
  match b.core.volume.get? quote.instrumentKey with
  | some (day, seen) => if day = today then max 0 (quote.volumeCum - seen) else quote.volumeCum
  | none => quote.volumeCum

/-- Remember a quote and its volume. -/
def observe (quote : Quote) (today : Day) (b : SimulatedBroker) : SimulatedBroker :=
  { b with
    core := { b.core with
      volume := b.core.volume.set quote.instrumentKey (today, quote.volumeCum) }
    quotes := b.quotes.set quote.instrumentKey quote }

/-! ## Orders -/

/-- `_find`. -/
def find (b : SimulatedBroker) (clientOrderId : String) : Option SimOrder :=
  (b.byTag.get? clientOrderId).bind b.orders.get?

def mapOrder (boid : String) (change : SimOrder → SimOrder) (b : SimulatedBroker) :
    SimulatedBroker :=
  match b.orders.get? boid with
  | none => b
  | some o => { b with orders := b.orders.set boid (change o) }

/-- One more quote the order was eligible for. -/
def countQuote (boid : String) (b : SimulatedBroker) : SimulatedBroker :=
  b.mapOrder boid fun o => { o with eligibleQuotes := o.eligibleQuotes + 1 }

/-- A resting stop is triggered. -/
def trigger (boid : String) (ts : Instant) (b : SimulatedBroker) : SimulatedBroker :=
  { b.mapOrder boid fun o => { o with status := .open, updatedAt := ts } with dirty := true }

/-- `_finish` up to the notification: the order ends and its reserve is released. -/
def finish (boid : String) (status : OrderStatus) (message : String) (ts : Instant)
    (b : SimulatedBroker) : SimulatedBroker :=
  match b.orders.get? boid with
  | none => b
  | some o =>
    { b with
      core := { b.core with blocked := b.core.blocked - o.reserved }
      orders := b.orders.set boid
        { o with status := status, message := message, updatedAt := ts, reserved := 0 }
      dirty := true }

/-- The instrument's orders in the order of their ids. -/
def ordersOf (b : SimulatedBroker) (instrumentKey : String) : List String :=
  ((b.orders.entries.filter fun e => e.2.instrumentKey = instrumentKey).map Prod.fst).insertionSort
    (· ≤ ·)

def markDirty (boid : String) (b : SimulatedBroker) : SimulatedBroker :=
  { b with
    dirtyOrders := if boid ∈ b.dirtyOrders then b.dirtyOrders else b.dirtyOrders ++ [boid] }

/-- The rows `_save` writes. -/
def rows (b : SimulatedBroker) : List Row :=
  [.core b.core] ++ (b.dirtyOrders.filterMap b.orders.get?).map .order ++ b.newFills.map .fill

def saved (b : SimulatedBroker) : SimulatedBroker :=
  { b with dirty := false, dirtyOrders := [], newFills := [] }

/-! ## Fills -/

/-- How a fill is paid: a buy from its reserve and the cash, a sale at once or on
a later day. -/
inductive Settlement
  | paid (cost release : ℚ)
  | received (proceeds : ℚ)
  | credited (availableOn : Day) (proceeds : ℚ)

def Settlement.release : Settlement → ℚ
  | paid _ release => release
  | _ => 0

def settleFill (s : Settlement) (core : SimCore) : SimCore :=
  match s with
  | .paid cost release =>
    { core with blocked := core.blocked - release, cash := core.cash - cost }
  | .received proceeds => { core with cash := core.cash + proceeds }
  | .credited availableOn proceeds =>
    { core with unsettled := core.unsettled ++ [⟨availableOn, proceeds⟩] }

/-- `_apply_position` at one position. -/
def movePosition (p : SimPosition) (fill : Fill) : SimPosition :=
  let signed := fill.signedQty
  let moved : SimPosition :=
    if p.quantity = 0 ∨ (0 < p.quantity ↔ 0 < signed) then
      { p with
        realized := p.realized - fill.charges
        cost := p.cost + fill.price * fill.quantity
        quantity := p.quantity + signed }
    else
      let direction : ℤ := if 0 < p.quantity then 1 else -1
      let closing := min fill.quantity |p.quantity|
      let avg := p.cost / |p.quantity|
      let rest := fill.quantity - closing
      { p with
        realized := p.realized - fill.charges + (fill.price - avg) * closing * direction
        cost := if rest = 0 then p.cost - avg * closing else fill.price * rest
        quantity := if rest = 0 then p.quantity - direction * closing else -direction * rest }
  { moved with
    cost := if moved.quantity = 0 then 0 else moved.cost
    updatedAt := some fill.ts }

def applyPosition (product : Product) (fill : Fill) (core : SimCore) : SimCore :=
  let key := (fill.instrumentKey, product)
  { core with
    positions := core.positions.set key
      (movePosition ((core.positions.get? key).getD .empty) fill) }

/-- The order after a fill, before its status. -/
def fillOrder (o : SimOrder) (s : Settlement) (fill : Fill) : SimOrder :=
  { o with
    reserved := o.reserved - s.release
    fillCount := o.fillCount + 1
    filledQty := o.filledQty + fill.quantity
    filledNotional := o.filledNotional + fill.price * fill.quantity
    updatedAt := fill.ts }

/-- `_execute` from the payment to the callbacks. -/
def bookFill (boid : String) (o : SimOrder) (s : Settlement) (dpDay : Option (String × Day))
    (fill : Fill) (b : SimulatedBroker) : SimulatedBroker :=
  let core := settleFill s b.core
  let core := { core with dpDays := core.dpDays ++ dpDay.toList }
  let filled := fillOrder o s fill
  let b : SimulatedBroker :=
    { b with
      core := applyPosition o.product fill core
      orders := b.orders.set boid filled
      dirty := true
      fills := b.fills ++ [fill]
      newFills := b.newFills ++ [fill] }
  if filled.remaining = 0 then b.finish boid .filled "" fill.ts
  else b.mapOrder boid fun o => { o with status := .partiallyFilled }

/-- Whether the price has crossed a stop's trigger. -/
def crossed (side : Side) (trigger ltp : ℚ) : Bool :=
  match side with
  | .sell => ltp ≤ trigger
  | .buy => trigger ≤ ltp

/-- The worse of trigger and price, so that a gap through a stop fills at the gap. -/
def gapPrice (side : Side) (trigger ltp : ℚ) : ℚ :=
  match side with
  | .sell => min trigger ltp
  | .buy => max trigger ltp

/-! ## Placing -/

/-- A new order enters the broker's tables. -/
def accept (sim : SimOrder) (b : SimulatedBroker) : SimulatedBroker :=
  { b with
    core := { b.core with
      nextOrder := b.core.nextOrder + 1, blocked := b.core.blocked + sim.reserved }
    orders := b.orders.set sim.brokerOrderId sim
    byTag := b.byTag.set sim.clientOrderId sim.brokerOrderId }

/-- Whether a price is at or through the band around the previous close. -/
def beyondBand (band prevClose price : ℚ) : Bool := band ≤ |price / prevClose - 1| * 100

/-- Shares of a delivery holding that no live sale claims. -/
def availableToSell (b : SimulatedBroker) (instrumentKey : String) : ℤ :=
  let held := ((b.core.positions.get? (instrumentKey, .cnc)).getD .empty).quantity
  let pending := b.orders.sum fun _ o =>
    if o.instrumentKey = instrumentKey ∧ o.product = .cnc ∧ o.side = .sell ∧ o.status.isLive then
      o.remaining
    else 0
  max 0 held - pending

end SimulatedBroker

namespace SimEnv

def rejected (reason : RejectReason) (message : String) : Exc :=
  .broker (.orderRejectedError reason) message

def invalid (message : String) : Exc := .broker .invalidRequestError message

/-- `_validate`: the instrument and the last quote of an order that passes. -/
def validate (env : SimEnv) (order : Order) (now : Instant) (b : SimulatedBroker) :
    Except Exc (Instrument × Quote) := do
  let intent := order.intent
  let key := intent.instrument.key
  if order.quantity ≤ 0 then throw (invalid "quantity must be positive")
  if !env.capabilities.supports intent.orderType intent.product intent.validity then
    throw (invalid (intent.orderType.value ++ "/" ++ intent.product.value ++ "/" ++
      intent.validity.value ++ " not supported"))
  match env.instruments.get? key with
  | none => throw (rejected .instrumentRestricted ("unknown instrument " ++ key))
  | some instrument =>
    if order.quantity % instrument.lotSize ≠ 0 then
      throw (invalid ("quantity must be a multiple of " ++ toString instrument.lotSize))
    let isOpen ← match env.calendar.isMarketOpen now with
      | .ok isOpen => pure isOpen
      | .error (.calendarCoverageError _) => pure false
      | .error e => throw e
    if !isOpen then throw (rejected .marketClosed "market closed")
    if intent.product = .mis ∧ !instrument.misAllowed then
      throw (rejected .productNotAllowed ("MIS not allowed for " ++ key))
    match b.quotes.get? instrument.key with
    | none => throw (rejected .rmsOther ("no market price for " ++ key))
    | some quote =>
      if intent.triggerPrice.any fun t => !onTick t instrument.tickSize then
        throw (rejected .tickSize ("trigger " ++ toString intent.triggerPrice ++ " is off the " ++
          toString instrument.tickSize ++ " tick"))
      match instrument.bandPct, quote.prevClose with
      | some band, some prevClose =>
        if SimulatedBroker.beyondBand band prevClose quote.ltp then
          throw (rejected .priceBand ("price " ++ toString quote.ltp ++ " is at/through the " ++
            toString band ++ "% band"))
        if intent.triggerPrice.any fun t => SimulatedBroker.beyondBand band prevClose t then
          throw (rejected .priceBand ("trigger " ++ toString intent.triggerPrice ++
            " is at/through the " ++ toString band ++ "% band"))
      | _, _ => pure ⟨⟩
      if intent.product = .cnc ∧ intent.side = .sell ∧ b.availableToSell instrument.key <
          order.quantity then
        throw (rejected .shortNotAllowed ("CNC sell of " ++ toString order.quantity ++ " exceeds " ++
          toString (b.availableToSell instrument.key) ++ " available to sell"))
      return (instrument, quote)

/-- `_buy_reservation`. -/
def buyReservation (env : SimEnv) (product : Product) (reference : ℚ) (qty : ℤ) :
    Except Exc ℚ := do
  let notional := reference * qty * (1 + fundsBuffer)
  let charges ← env.costs.charges product .buy notional false
  return Decimal.quantize (1 / 100) (notional + charges.total)

/-- What an order reserves. -/
def reservation (env : SimEnv) (order : Order) (reference : ℚ) (b : SimulatedBroker) :
    Except Exc ℚ := do
  match order.intent.side with
  | .sell => return 0
  | .buy =>
    let reserved ← env.buyReservation order.intent.product reference order.quantity
    if b.available < reserved then
      throw (rejected .insufficientFunds ("needs " ++ toString reserved ++ " but " ++
        toString b.available ++ " available"))
    return reserved

/-- The broker order of a new order. -/
def newSimOrder (env : SimEnv) (order : Order) (reserved : ℚ) (now : Instant)
    (b : SimulatedBroker) : SimOrder :=
  { brokerOrderId := simId env.bookId b.core.nextOrder
    clientOrderId := order.clientOrderId
    decisionId := order.intent.decisionId
    instrumentKey := order.intent.instrument.key
    side := order.intent.side
    product := order.intent.product
    orderType := order.intent.orderType
    quantity := order.quantity
    triggerPrice := order.intent.triggerPrice
    status := if order.intent.orderType = .slM then .triggerPending else .open
    filledQty := 0
    filledNotional := 0
    reserved := reserved
    eligibleAt := now + env.latency order.clientOrderId now.istDate
    eligibleQuotes := 0
    fillCount := 0
    sessionDay := now.istDate
    createdAt := now
    updatedAt := now
    message := "" }

/-- The fill of `qty` shares of an order at a quote. -/
def newFill (env : SimEnv) (o : SimOrder) (instrument : Instrument) (reference : ℚ)
    (qty : { q : ℤ // 0 < q }) (charges : ChargeBreakdown) (quote : Quote) : Fill :=
  { fillId := fillIdOf o.brokerOrderId (o.fillCount + 1)
    clientOrderId := o.clientOrderId
    brokerOrderId := some o.brokerOrderId
    bookId := env.bookId
    decisionId := o.decisionId
    instrumentKey := o.instrumentKey
    side := o.side
    quantity := qty.1
    price := adversePrice env.config env.sqrt ((env.market.get? o.instrumentKey).getD .unknown)
      reference o.side instrument.tickSize qty.1
    ts := quote.receiptTs
    charges := charges.total
    chargesBreakdown := charges.asDict.filter fun c => 0 < c.2
    quantity_pos := quantity_positive qty
    price_pos := adversePrice_pos instrument.tickSize_pos _ _ _ _ _ _
    charges_nonneg := charges.total.2 }

/-- How a fill is paid; none when a buy cannot be. -/
def settlement (env : SimEnv) (o : SimOrder) (fill : Fill) (b : SimulatedBroker) :
    Except Exc (Option SimulatedBroker.Settlement) :=
  match o.side with
  | .buy =>
    let cost := fill.notional + fill.charges
    let release := min o.reserved cost
    if release + b.available < cost then .ok none else .ok (some (.paid cost release))
  | .sell =>
    let proceeds := fill.notional - fill.charges
    match env.sellProceeds with
    | .sameDay => .ok (some (.received proceeds))
    | .tPlus1 => do return some (.credited (← env.calendar.nextTradingDay fill.ts.istDate) proceeds)

end SimEnv

/-! ## The broker and its subscriber -/

/-- What a desk does when the broker calls it, and where the broker's rows go. -/
structure Hooks (S : Type) where
  onUpdate : BrokerOrderSnapshot → S → S
  onFill : Fill → EStateM Exc S PUnit
  putMany : List Row → S → S

namespace World

variable {S : Type}

/-- `_notify_update`. -/
def notify (hooks : Hooks S) (boid : String) (w : World SimulatedBroker S) :
    World SimulatedBroker S :=
  match w.broker.orders.get? boid with
  | none => w
  | some o => { broker := w.broker.markDirty boid, desk := hooks.onUpdate o.snapshot w.desk }

/-- `_save`. -/
def save (hooks : Hooks S) (w : World SimulatedBroker S) : World SimulatedBroker S :=
  { broker := w.broker.saved, desk := hooks.putMany w.broker.rows w.desk }

/-- `_finish` with its notification. -/
def finish (hooks : Hooks S) (boid : String) (status : OrderStatus) (message : String)
    (ts : Instant) (w : World SimulatedBroker S) : World SimulatedBroker S :=
  (w.mapBroker (.finish boid status message ts)).notify hooks boid

end World

namespace SimulatedBroker

variable {S : Type} (env : SimEnv) (hooks : Hooks S)

/-- The order under an id, or the exception that it is missing. -/
def heldOrder (boid : String) (missing : Exc) : EStateM Exc (World SimulatedBroker S) SimOrder := do
  match (← get).broker.orders.get? boid with
  | some o => return o
  | none => throw missing

/-- An order object the broker holds. -/
def order (boid : String) : EStateM Exc (World SimulatedBroker S) SimOrder :=
  heldOrder boid (.keyError boid)

/-- `_get`. -/
def getOrder (boid : String) : EStateM Exc (World SimulatedBroker S) SimOrder :=
  heldOrder boid (SimEnv.invalid ("unknown order " ++ boid))

def ofExcept {α : Type} (r : Except Exc α) : EStateM Exc (World SimulatedBroker S) α :=
  match r with
  | .ok a => pure a
  | .error e => throw e

/-- `_ack`. -/
def ack (o : SimOrder) (message : String) : BrokerAck :=
  ⟨o.clientOrderId, o.brokerOrderId, o.status, o.updatedAt,
    if message = "" then o.message else message⟩

/-! ### Quotes -/

/-- `_execute`. -/
def execute (boid : String) (instrument : Instrument) (reference : ℚ) (qty : { q : ℤ // 0 < q })
    (quote : Quote) : EStateM Exc (World SimulatedBroker S) (Option Fill) := do
  let o ← order boid
  let dpKey := (o.instrumentKey, quote.receiptTs.istDate)
  let dpApplies := o.side = .sell ∧ o.product = .cnc ∧ dpKey ∉ (← get).broker.core.dpDays
  let price := (env.newFill o instrument reference qty .zero quote).price
  let charges ← ofExcept (env.costs.charges o.product o.side (price * qty.1) dpApplies)
  let fill := env.newFill o instrument reference qty charges quote
  match ← ofExcept (env.settlement o fill (← get).broker) with
  | none =>
    modify (World.finish hooks boid .cancelled ("remainder cancelled: insufficient funds for " ++
      toString qty.1 ++ " @ " ++ toString price) quote.receiptTs)
    return none
  | some s =>
    modify (World.mapBroker (bookFill boid o s (if dpApplies then some dpKey else none) fill))
    World.onDesk (hooks.onFill fill)
    modify (World.notify hooks boid)
    return some fill

/-- The end of `_match`: a market order that keeps finding too little volume is
cancelled for the remainder; a stop never is. -/
def cancelRest (boid : String) (quote : Quote) : EStateM Exc (World SimulatedBroker S) PUnit := do
  let o ← order boid
  if o.orderType = .market ∧ 0 < o.remaining ∧ o.status.isLive ∧
      env.config.maxFillQuotes ≤ o.eligibleQuotes then
    modify (World.finish hooks boid .cancelled ("unfilled remainder " ++ toString o.remaining ++
      " cancelled after " ++ toString o.eligibleQuotes ++ " quotes (participation cap)")
      quote.receiptTs)

/-- `_match` from the reference price on: fill what the volume allows. -/
def fillOrCancel (boid : String) (reference : ℚ) (quote : Quote) (liquidity : ℤ) :
    EStateM Exc (World SimulatedBroker S) (Option Fill) := do
  modify (World.mapBroker (countQuote boid))
  let o ← order boid
  match env.instruments.get? o.instrumentKey with
  | none => throw (.keyError o.instrumentKey)
  | some instrument =>
    let most := min o.remaining (max 0 liquidity)
    let qty := most - most % instrument.lotSize
    let fill ← if h : 0 < qty then execute env hooks boid instrument reference ⟨qty, h⟩ quote
      else pure none
    cancelRest env hooks boid quote
    return fill

/-- `_match`. -/
def matchOrder (boid : String) (quote : Quote) (liquidity : ℤ) :
    EStateM Exc (World SimulatedBroker S) (Option Fill) := do
  let o ← order boid
  if quote.receiptTs < o.eligibleAt then return none -- not at the exchange yet
  if o.status = .triggerPending then
    match o.triggerPrice with
    | none =>
      modify (World.finish hooks boid .rejected "SL-M without trigger" quote.receiptTs)
      return none
    | some trigger =>
      if !crossed o.side trigger quote.ltp then return none
      modify fun w => (w.mapBroker (SimulatedBroker.trigger boid quote.receiptTs)).notify hooks boid
      fillOrCancel env hooks boid (gapPrice o.side trigger quote.ltp) quote liquidity
  else fillOrCancel env hooks boid quote.ltp quote liquidity

/-- The loop of `on_quote` over the instrument's orders. -/
def matchAll (quote : Quote) (today : Day) :
    List String → ℤ → EStateM Exc (World SimulatedBroker S) (List Fill)
  | [], _ => pure []
  | boid :: rest, liquidity => do
    let o ← order boid
    if !o.status.isLive then matchAll quote today rest liquidity
    else if o.sessionDay < today then
      modify (World.finish hooks boid .expired "day order expired" quote.receiptTs)
      matchAll quote today rest liquidity
    else
      let filled ← matchOrder env hooks boid quote liquidity
      let used := (filled.map Fill.quantity).getD 0
      let fills ← matchAll quote today rest (liquidity - used)
      return filled.toList ++ fills

/-- `on_quote`. -/
def onQuote (quote : Quote) : EStateM Exc (World SimulatedBroker S) (List Fill) := do
  let today := quote.receiptTs.istDate
  modify (World.mapBroker (settle today))
  let interval := (← get).broker.intervalVolume quote today
  modify (World.mapBroker (observe quote today))
  let liquidity := ⌊env.config.participation * interval⌋
  let fills ← matchAll env hooks quote today ((← get).broker.ordersOf quote.instrumentKey) liquidity
  if (← get).broker.dirty then modify (World.save hooks)
  return fills

/-! ### Orders -/

/-- `place_order`. -/
def placeOrder (now : Instant) (order : Order) :
    EStateM Exc (World SimulatedBroker S) BrokerAck := do
  match (← get).broker.find order.clientOrderId with
  | some existing => return ack existing "duplicate tag: existing order returned"
  | none =>
    let b := (← get).broker
    let (_, quote) ← ofExcept (env.validate order now b)
    let reserved ← ofExcept (env.reservation order quote.ltp b)
    let sim := env.newSimOrder order reserved now b
    modify fun w =>
      ((w.mapBroker fun b => (b.accept sim).markDirty sim.brokerOrderId).save hooks).notify hooks
        sim.brokerOrderId
    return ack sim ""

/-- The checks and changes of `modify_order`: a refused quantity comes after the trigger. -/
def change (boid : String) (o : SimOrder) (instrument : Instrument) (qty : Option ℤ)
    (trigger : Option ℚ) : EStateM Exc (World SimulatedBroker S) PUnit := do
  if let some t := trigger then
    if o.orderType ≠ .slM then throw (SimEnv.invalid "only SL-M orders have a trigger")
    if !onTick t instrument.tickSize then
      throw (SimEnv.rejected .tickSize ("trigger " ++ toString t ++ " is off the tick"))
    modify (World.mapBroker (mapOrder boid fun o => { o with triggerPrice := some t }))
  if let some q := qty then
    if q < o.filledQty ∨ q ≤ 0 ∨ q % instrument.lotSize ≠ 0 then
      throw (SimEnv.invalid ("invalid quantity " ++ toString q))
    modify (World.mapBroker (mapOrder boid fun o => { o with quantity := q }))

/-- `modify_order`. -/
def modifyOrder (now : Instant) (boid : String) (qty : Option ℤ) (price trigger : Option ℚ) :
    EStateM Exc (World SimulatedBroker S) BrokerAck := do
  let o ← getOrder boid
  if !o.status.isLive then
    throw (SimEnv.invalid (boid ++ " is " ++ o.status.value ++ "; cannot modify"))
  if price.isSome then throw (SimEnv.invalid "limit prices are not supported")
  match env.instruments.get? o.instrumentKey with
  | none => throw (.keyError o.instrumentKey)
  | some instrument =>
    change boid o instrument qty trigger
    modify (World.mapBroker (mapOrder boid fun o => { o with updatedAt := now }))
    if (← order boid).remaining = 0 then modify (World.finish hooks boid .filled "" now)
    modify fun w => ((w.mapBroker (markDirty boid)).save hooks).notify hooks boid
    return ack (← order boid) "modified"

/-- `cancel_order`. -/
def cancelOrder (now : Instant) (boid : String) :
    EStateM Exc (World SimulatedBroker S) BrokerAck := do
  let o ← getOrder boid
  if o.status.isLive then
    modify (World.finish hooks boid .cancelled "cancelled by client" now)
    modify (World.save hooks)
  return ack (← getOrder boid) ""

/-- The loop of `expire_session`; says whether any order expired. -/
def expireAll (now : Instant) : List String → EStateM Exc (World SimulatedBroker S) Bool
  | [] => pure false
  | boid :: rest => do
    let o ← order boid
    if o.status.isLive then
      modify (World.finish hooks boid .expired "day order expired" now)
      let _ ← expireAll now rest
      return true
    else expireAll now rest

/-- `expire_session`. -/
def expireSession (now : Instant) : EStateM Exc (World SimulatedBroker S) PUnit := do
  if ← expireAll hooks now (← get).broker.orders.keys then modify (World.save hooks)

/-! ### Queries -/

def getOrders : EStateM Exc (World SimulatedBroker S) (List BrokerOrderSnapshot) := do
  return (← get).broker.orders.values.map SimOrder.snapshot

def findOrderByTag (clientOrderId : String) :
    EStateM Exc (World SimulatedBroker S) (Option BrokerOrderSnapshot) := do
  return ((← get).broker.find clientOrderId).map SimOrder.snapshot

def getTrades (since : Option Instant) : EStateM Exc (World SimulatedBroker S) (List Fill) := do
  return (← get).broker.fills.filter fun f => since.all (· ≤ f.ts)

/-- One position as `get_positions` reports it. -/
def positionView (now : Instant) (key : String × Product) (p : SimPosition) : Position :=
  { bookId := env.bookId, instrumentKey := key.1, product := key.2, quantity := p.quantity
    avgPrice := if p.quantity = 0 then none else some (p.cost / |p.quantity|)
    realizedPnl := p.realized, updatedAt := p.updatedAt.getD now
    avgPrice_iff := by split <;> simp_all }

/-- `get_positions`. -/
def getPositions (now : Instant) : EStateM Exc (World SimulatedBroker S) (List Position) := do
  return (← get).broker.core.positions.entries.map fun e => positionView env now e.1 e.2

/-- `get_funds`: the record's amounts are validated not to be negative. -/
def getFunds (now : Instant) : EStateM Exc (World SimulatedBroker S) Funds := do
  modify (World.mapBroker (settle now.istDate))
  let b := (← get).broker
  let unsettledCredit := (b.core.unsettled.map Unsettled.amount).sum
  if h : 0 ≤ b.core.blocked ∧ 0 ≤ unsettledCredit then
    return ⟨max 0 b.available, b.core.blocked, unsettledCredit, le_max_left _ _, h.1, h.2⟩
  else throw (.validationError "Funds")

/-- The broker as the OMS calls it; `now` is what its clock reads. -/
def adapter (now : Instant) : BrokerAdapter (World SimulatedBroker S) where
  placeOrder := placeOrder env hooks now
  cancelOrder := cancelOrder hooks now
  findOrderByTag := findOrderByTag
  getOrders := getOrders
  getTrades := getTrades
  getPositions := getPositions env now
  getFunds := getFunds now

/-! ### Restart -/

/-- `_load_state`, and the tags rebuilt from the orders: later rows of a key
replace earlier ones, and the fills are sorted by time and id. -/
def load (startingCash : ℚ) (rows : List Row) : SimulatedBroker :=
  let core := rows.foldl (fun core row => match row with
    | .core c => c
    | _ => core) (SimCore.init startingCash)
  let orders : Dict String SimOrder := rows.foldl (fun orders row => match row with
    | .order o => orders.set o.brokerOrderId o
    | _ => orders) .empty
  let fills : Dict String Fill := rows.foldl (fun fills row => match row with
    | .fill f => fills.set f.fillId f
    | _ => fills) .empty
  { init startingCash with
    core := core
    orders := orders
    fills := fills.values.insertionSort fun f g =>
      f.ts < g.ts ∨ (f.ts = g.ts ∧ f.fillId ≤ g.fillId)
    byTag := .ofList (orders.entries.map fun e => (e.2.clientOrderId, e.1)) }

end SimulatedBroker

end RakshaQuant
