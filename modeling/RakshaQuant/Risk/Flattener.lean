import RakshaQuant.Exits.Manager
import RakshaQuant.Risk.Gate

/-! The flattener of a kill switch. Tick by tick it takes one attempt at each open position:
unless a market order of its own still works, it lets the resting exits go, spends the next
attempt number in its store and submits a reduce-only FLATTEN intent under that number. -/

namespace RakshaQuant

/-- `_FlattenState`; the attempts are counted by `"<ist date>|<instrument>|<product>"`. -/
structure FlattenState where
  attempts : Dict String ℕ
  escalated : List String
deriving DecidableEq

/-- An attempt at a position. -/
structure Attempt where
  day : Day
  instrumentKey : String
  product : Product
  strategy : String
  number : ℕ
deriving DecidableEq

namespace Attempt

/-- The key its number is counted under. -/
def key (a : Attempt) : String :=
  Day.isoformat a.day ++ "|" ++ a.instrumentKey ++ "|" ++ a.product.value

def leg (a : Attempt) : String := "flatten-" ++ toString a.number

/-- The position, the day and the number, whichever strategy holds the position. -/
def slot (a : Attempt) : Day × String × Product × ℕ :=
  (a.day, a.instrumentKey, a.product, a.number)

def intentId (a : Attempt) (bookId : String) : Except Exc String :=
  RakshaQuant.intentId bookId a.strategy a.instrumentKey a.day a.leg

end Attempt

/-- A live FLATTEN order of a position. -/
def Order.Flattens (instrumentKey : String) (product : Product) (order : Order) : Prop :=
  order.intent.kind = .flatten ∧ order.intent.instrument.key = instrumentKey ∧
    order.intent.product = product ∧ order.status.isTerminal = false

instance (instrumentKey : String) (product : Product) (order : Order) :
    Decidable (order.Flattens instrumentKey product) :=
  inferInstanceAs (Decidable (_ ∧ _))

/-- The desk and the flattener on it, its state in memory and in its store. `spent` lists
the attempts counted, the newest first. -/
structure FlattenDesk where
  paper : Paper Exits
  state : FlattenState
  saved : Option FlattenState
  spent : List Attempt

namespace FlattenDesk

def oms (w : FlattenDesk) : OMS := w.paper.desk.oms

/-- How many attempts were counted under a key. -/
def attempts (w : FlattenDesk) (key : String) : ℕ := (w.state.attempts.get? key).getD 0

/-- Change the state and save it. -/
def store (state : FlattenState) (w : FlattenDesk) : FlattenDesk :=
  { w with state := state, saved := some state }

/-- The attempt number is spent before the order exists. -/
def spend (a : Attempt) (w : FlattenDesk) : FlattenDesk :=
  { w.store { w.state with attempts := w.state.attempts.set a.key a.number } with
    spent := a :: w.spent }

def escalate (key : String) (w : FlattenDesk) : FlattenDesk :=
  w.store { w.state with escalated := w.state.escalated ++ [key] }

/-- Run at the desk. -/
def onDesk {α : Type} (m : EStateM Exc (Paper Exits) α) : EStateM Exc FlattenDesk α := fun w =>
  match m w.paper with
  | .ok a p => .ok a { w with paper := p }
  | .error e p => .error e { w with paper := p }

end FlattenDesk

/-- What comes before the first separator, and what comes after it. -/
def cutAt (c : Char) : List Char → Option (List Char × List Char)
  | [] => none
  | a :: rest =>
    if a = c then some ([], rest) else (cutAt c rest).map fun parts => (a :: parts.1, parts.2)

theorem cutAt_eq {c : Char} {l left right : List Char} (h : cutAt c l = some (left, right)) :
    l = left ++ c :: right := by
  induction l generalizing left with
  | nil => cases h
  | cons a rest ih =>
    rw [cutAt] at h
    split at h
    · rename_i ha
      cases h
      rw [ha, List.nil_append]
    · obtain ⟨parts, hparts, heq⟩ := Option.map_eq_some_iff.mp h
      cases heq
      rw [List.cons_append, ← ih hparts]

theorem default_tick_pos : (0 : ℚ) < 1 / 20 := by norm_num

theorem default_lot_pos : (0 : ℤ) < 1 := by norm_num

/-- `instrument_key.split(":", 2)` of an instrument nothing is known of. -/
def Instrument.ofKey (key : String) : Except Exc Instrument :=
  let unpacked := (cutAt ':' key.toList).bind fun first =>
    (cutAt ':' first.2).map fun second => (first.1, second.1, second.2)
  match unpacked with
  | none => .error (.valueError "not enough values to unpack (expected 3)")
  | some (exchange, series, symbol) =>
    if exchange = [] ∨ series = [] ∨ symbol = [] then
      .error (.validationError ("Instrument " ++ key))
    else
      .ok
        { exchange := .ofList exchange, series := .ofList series, symbol := .ofList symbol
          sector := none, tickSize := 1 / 20, lotSize := 1, misAllowed := true, bandPct := none
          tickSize_pos := default_tick_pos, lotSize_pos := default_lot_pos, bandPct_pos := no_price }

theorem Instrument.key_ofKey {key : String} {instrument : Instrument}
    (h : Instrument.ofKey key = .ok instrument) : instrument.key = key := by
  unfold Instrument.ofKey at h
  dsimp only at h
  split at h
  · cases h
  rename_i exchange series symbol hunpacked
  split at h
  · cases h
  obtain ⟨first, hfirst, hrest⟩ := Option.bind_eq_some_iff.mp hunpacked
  obtain ⟨second, hsecond, heq⟩ := Option.map_eq_some_iff.mp hrest
  cases heq
  cases h
  apply String.toList_inj.mp
  rw [cutAt_eq hfirst, cutAt_eq hsecond]
  simp [Instrument.key]

theorem flatten_needs_no_price : OrderType.market = .limit → (none : Option ℚ).isSome :=
  market_needs_no_price

theorem flatten_needs_no_trigger :
    OrderType.market = .sl ∨ OrderType.market = .slM → (none : Option ℚ).isSome :=
  market_needs_no_trigger

theorem flatten_is_no_sl : OrderType.market = .sl → (none : Option ℚ).isSome := market_is_no_sl

/-- The fields of a FLATTEN intent that the record's validator checks. -/
def ValidFlatten (quantity : ℤ) (decisionPrice : ℚ) : Prop :=
  (∀ q ∈ some quantity, 0 < q) ∧ 0 < decisionPrice

instance (quantity : ℤ) (decisionPrice : ℚ) : Decidable (ValidFlatten quantity decisionPrice) :=
  inferInstanceAs (Decidable (_ ∧ _))

/-- What stays the same over a run. `standsDown` says whether it was given the exit manager. -/
structure Flattener where
  manager : ExitManager
  standsDown : Bool
  instruments : Dict String Instrument
  limits : RiskLimits
  instruments_key : ∀ key instrument, instruments.get? key = some instrument →
    instrument.key = key

namespace Flattener

variable (f : Flattener)

open FlattenDesk (onDesk)

/-- `_flatten_in_flight`. -/
def inFlight (p : Position) (o : OMS) : Bool :=
  o.orders.values.any fun order => order.Flattens p.instrumentKey p.product

/-- Cancel the live reduce-only orders of a position, as they were listed. -/
def cancelResting (call : ExitCall) (p : Position) :
    List Order → EStateM Exc (Paper Exits) PUnit
  | [] => pure ⟨⟩
  | order :: rest => do
    if order.intent.reduceOnly ∧ order.intent.instrument.key = p.instrumentKey ∧
        order.intent.product = p.product ∧ order.status.isTerminal = false then
      f.manager.cancel call order.clientOrderId
    cancelResting call p rest

/-- `_release`. -/
def release (call : ExitCall) (p : Position) : EStateM Exc (Paper Exits) PUnit := do
  if f.standsDown then f.manager.standDown call p.instrumentKey p.product
  f.cancelResting call p (← get).desk.oms.orders.values

/-- `_instrument`. -/
def instrument (instrumentKey : String) (o : OMS) : Except Exc Instrument :=
  match f.instruments.get? instrumentKey with
  | some known => .ok known
  | none =>
    match o.orders.values.find? fun order => order.intent.instrument.key = instrumentKey with
    | some order => .ok order.intent.instrument
    | none => Instrument.ofKey instrumentKey

/-- `marks.get(key) or position.avg_price or Decimal(1)` -/
def markOf (marks : Dict String ℚ) (p : Position) : ℚ :=
  ((marks.get? p.instrumentKey).filter (· ≠ 0) <|> p.avgPrice.filter (· ≠ 0)).getD 1

/-- The next attempt at a position. -/
def nextAttempt (today : Day) (p : Position) (owner : String) (w : FlattenDesk) : Attempt :=
  let strategy := if Plain owner then owner else "unknown"
  let first : Attempt := ⟨today, p.instrumentKey, p.product, strategy, 0⟩
  { first with number := w.attempts first.key + 1 }

/-- `_intent`. -/
def intent (call : ExitCall) (marks : Dict String ℚ) (p : Position) (a : Attempt) (o : OMS) :
    Except Exc OrderIntent := do
  let instrument ← f.instrument p.instrumentKey o
  let id ← a.intentId o.bookId
  if h : ValidFlatten |p.quantity| (markOf marks p) then
    .ok
      { intentId := id, decisionId := call.newId id, parentDecisionId := none
        bookId := o.bookId, strategy := a.strategy, signalId := none, instrument := instrument
        side := if 0 < p.quantity then .sell else .buy, kind := .flatten
        quantity := some |p.quantity|, orderType := .market, product := p.product
        validity := .day, limitPrice := none, triggerPrice := none, stopPrice := none
        targetPrice := none, reduceOnly := true, decisionPrice := markOf marks p
        decisionTs := call.now, reason := .flatten, source := .killSwitch
        quantity_pos := h.1, limitPrice_pos := no_price, triggerPrice_pos := no_price
        decisionPrice_pos := h.2, reduceOnly_eq := rfl
        limit_needs_price := flatten_needs_no_price
        sl_needs_trigger := flatten_needs_no_trigger, sl_needs_price := flatten_is_no_sl }
  else .error (.validationError ("OrderIntent " ++ id))

/-- The alert that asks for a human. -/
def stillOpen (p : Position) (number : ℕ) (result : SubmitResult) : Alert :=
  ⟨"CRITICAL", "flatten_escalated", p.instrumentKey ++ " still open after " ++ toString number ++
    " flatten attempts (" ++ result.status.value ++ ": " ++ result.message ++ ") - act manually"⟩

/-- Escalate a position that too many attempts have left open, once a day. -/
def escalateLate (p : Position) (a : Attempt) (result : SubmitResult) :
    EStateM Exc FlattenDesk PUnit := do
  if f.limits.flattenEscalateAfter ≤ a.number ∧ a.key ∉ (← get).state.escalated then
    modify (FlattenDesk.escalate a.key)
    onDesk (modify (World.alert (stillOpen p a.number result)))

/-- One position of `step`: the answer of the OMS, where an attempt was made. -/
def flattenOne (call : ExitCall) (today : Day) (marks : Dict String ℚ) (p : Position)
    (owner : String) : EStateM Exc FlattenDesk (Option SubmitResult) := do
  if inFlight p (← get).oms then return none -- a market order is working; check again next tick
  onDesk (f.release call p)
  let a := nextAttempt today p owner (← get)
  modify (FlattenDesk.spend a)
  let intent ← onDesk (SimulatedBroker.ofExcept (f.intent call marks p a (← get).oms))
  let result ← onDesk (f.manager.submit call intent)
  f.escalateLate p a result
  return some result

/-- The positions of `step`; counts those that remain. -/
def stepAll (call : ExitCall) (today : Day) (marks : Dict String ℚ) (strategy : Option String) :
    List Position → EStateM Exc FlattenDesk ℕ
  | [] => return 0
  | p :: rest => do
    let owner := owner (← get).oms.book p
    if p.quantity = 0 ∨ ∃ wanted ∈ strategy, owner ≠ wanted then
      stepAll call today marks strategy rest
    else
      let _ ← f.flattenOne call today marks p owner
      return (← stepAll call today marks strategy rest) + 1

/-- `step`: one attempt per open position, of one strategy or of all. -/
def step (call : ExitCall) (marks : Dict String ℚ) (strategy : Option String) :
    EStateM Exc FlattenDesk ℕ := do
  f.stepAll call call.now.istDate marks strategy ((← get).oms.book.positions call.now)

/-- The process starts on an empty store. -/
def init (startingCash : ℚ) : FlattenDesk :=
  ⟨f.manager.system.init startingCash .init, ⟨.empty, []⟩, none, []⟩

end Flattener

end RakshaQuant
