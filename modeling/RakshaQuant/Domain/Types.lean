import Mathlib.Data.Rat.Defs
import Mathlib.Algebra.Order.Ring.Rat

/-! Canonical domain records. Quantities are integers and prices and money are
exact rationals. A record whose constructor validates its fields carries the
validated facts, so an order intent or a fill that breaks them cannot be built;
the order record is later changed without validation and carries only what no
change touches. -/

namespace RakshaQuant

/-- Microseconds since the epoch, UTC. -/
abbrev Instant := ℤ

/-- A calendar date, as days since 1970-01-01. -/
abbrev Day := ℤ

/-- The IST date of an instant (UTC + 5:30). -/
def Instant.istDate (t : Instant) : Day := (t + 19800000000) / 86400000000

/-! ## Enumerations -/

inductive Side
  | buy
  | sell
deriving DecidableEq

namespace Side

def sign : Side → ℤ
  | buy => 1
  | sell => -1

def value : Side → String
  | buy => "BUY"
  | sell => "SELL"

@[simp] theorem sign_buy : sign buy = 1 := rfl

@[simp] theorem sign_sell : sign sell = -1 := rfl

end Side

inductive OrderType
  | market
  | limit
  | sl
  | slM
deriving DecidableEq

def OrderType.value : OrderType → String
  | market => "MARKET"
  | limit => "LIMIT"
  | sl => "SL"
  | slM => "SL_M"

inductive Product
  | mis
  | cnc
  | nrml
  | mtf
deriving DecidableEq

def Product.value : Product → String
  | mis => "MIS"
  | cnc => "CNC"
  | nrml => "NRML"
  | mtf => "MTF"

inductive Validity
  | day
  | ioc
deriving DecidableEq

def Validity.value : Validity → String
  | day => "DAY"
  | ioc => "IOC"

inductive OrderStatus
  | pendingNew
  | submitted
  | unknown
  | «open»
  | triggerPending
  | partiallyFilled
  | pendingCancel
  | pendingModify
  | filled
  | cancelled
  | rejected
  | expired
deriving DecidableEq

namespace OrderStatus

def value : OrderStatus → String
  | pendingNew => "PENDING_NEW"
  | submitted => "SUBMITTED"
  | unknown => "UNKNOWN"
  | «open» => "OPEN"
  | triggerPending => "TRIGGER_PENDING"
  | partiallyFilled => "PARTIALLY_FILLED"
  | pendingCancel => "PENDING_CANCEL"
  | pendingModify => "PENDING_MODIFY"
  | filled => "FILLED"
  | cancelled => "CANCELLED"
  | rejected => "REJECTED"
  | expired => "EXPIRED"

/-- `_TERMINAL_STATUSES`. -/
def isTerminal : OrderStatus → Bool
  | filled | cancelled | rejected | expired => true
  | _ => false

end OrderStatus

inductive IntentKind
  | «open»
  | increase
  | reduce
  | close
  | flatten
deriving DecidableEq

def IntentKind.reducesRisk : IntentKind → Bool
  | reduce | close | flatten => true
  | _ => false

def IntentKind.value : IntentKind → String
  | .open => "open"
  | increase => "increase"
  | reduce => "reduce"
  | close => "close"
  | flatten => "flatten"

inductive IntentReason
  | entry
  | stop
  | target
  | trail
  | partially
  | time
  | squareOff
  | flatten
  | operator
deriving DecidableEq

def IntentReason.value : IntentReason → String
  | entry => "entry"
  | stop => "stop"
  | target => "target"
  | trail => "trail"
  | partially => "partial"
  | time => "time"
  | squareOff => "square_off"
  | flatten => "flatten"
  | operator => "operator"

inductive IntentSource
  | signalEngine
  | exitManager
  | killSwitch
  | operator
deriving DecidableEq

inductive MarketDataSource
  | yfinance
  | dhan
  | replay
  | simulated
  | synthetic
deriving DecidableEq

namespace MarketDataSource

def value : MarketDataSource → String
  | yfinance => "yfinance"
  | dhan => "dhan"
  | replay => "replay"
  | simulated => "simulated"
  | synthetic => "synthetic"

/-- Prices that may only trade in the demo environment. -/
def isFabricated : MarketDataSource → Bool
  | simulated | synthetic => true
  | _ => false

end MarketDataSource

/-! ## Reference and market data -/

/-- A tradeable instrument. Its key is built from its parts, as the validator
of the record demands. -/
structure Instrument where
  exchange : String
  series : String
  symbol : String
  sector : Option String
  tickSize : ℚ
  lotSize : ℤ
  misAllowed : Bool
  bandPct : Option ℚ
  tickSize_pos : 0 < tickSize
  lotSize_pos : 0 < lotSize
  bandPct_pos : ∀ b ∈ bandPct, 0 < b
deriving DecidableEq

/-- `"{exchange}:{series}:{symbol}"`, e.g. `NSE:EQ:INFY`. -/
def Instrument.key (i : Instrument) : String :=
  i.exchange ++ ":" ++ i.series ++ ":" ++ i.symbol

/-- A point-in-time quote; `volumeCum` is the session's volume so far. -/
structure Quote where
  instrumentKey : String
  ltp : ℚ
  prevClose : Option ℚ
  volumeCum : ℤ
  exchangeTs : Instant
  receiptTs : Instant
  ltp_pos : 0 < ltp
  prevClose_pos : ∀ p ∈ prevClose, 0 < p
  volumeCum_nonneg : 0 ≤ volumeCum
deriving DecidableEq

/-! ## Decisions -/

/-- A proposal to trade; `quantity` is none until risk sizes it. -/
structure OrderIntent where
  intentId : String
  decisionId : String
  parentDecisionId : Option String
  bookId : String
  strategy : String
  signalId : Option String
  instrument : Instrument
  side : Side
  kind : IntentKind
  quantity : Option ℤ
  orderType : OrderType
  product : Product
  validity : Validity
  limitPrice : Option ℚ
  triggerPrice : Option ℚ
  stopPrice : Option ℚ
  targetPrice : Option ℚ
  reduceOnly : Bool
  decisionPrice : ℚ
  decisionTs : Instant
  reason : IntentReason
  source : IntentSource
  quantity_pos : ∀ q ∈ quantity, 0 < q
  limitPrice_pos : ∀ p ∈ limitPrice, 0 < p
  triggerPrice_pos : ∀ p ∈ triggerPrice, 0 < p
  decisionPrice_pos : 0 < decisionPrice
  reduceOnly_eq : reduceOnly = kind.reducesRisk
  limit_needs_price : orderType = .limit → limitPrice.isSome
  sl_needs_trigger : orderType = .sl ∨ orderType = .slM → triggerPrice.isSome
  sl_needs_price : orderType = .sl → limitPrice.isSome
deriving DecidableEq

/-- A quantity whose type says that it is positive. -/
theorem quantity_positive (q : { q : ℤ // 0 < q }) : 0 < q.1 := q.2

/-- An OMS order. Changed copies are not validated again, so only the quantity,
which no change touches, keeps its bound. -/
structure Order where
  clientOrderId : String
  intent : OrderIntent
  quantity : ℤ
  status : OrderStatus
  brokerOrderId : Option String
  filledQty : ℤ
  avgFillPrice : Option ℚ
  submittedAt : Option Instant
  version : ℕ
  quantity_pos : 0 < quantity
deriving DecidableEq

def Order.remainingQty (o : Order) : ℤ := o.quantity - o.filledQty

structure Fill where
  fillId : String
  clientOrderId : String
  brokerOrderId : Option String
  bookId : String
  decisionId : String
  instrumentKey : String
  side : Side
  quantity : ℤ
  price : ℚ
  ts : Instant
  charges : ℚ
  chargesBreakdown : List (String × ℚ)
  quantity_pos : 0 < quantity
  price_pos : 0 < price
  charges_nonneg : 0 ≤ charges
deriving DecidableEq

def Fill.notional (f : Fill) : ℚ := f.price * f.quantity

/-- The fill's quantity, positive for a buy and negative for a sell. -/
def Fill.signedQty (f : Fill) : ℤ := f.side.sign * f.quantity

/-- Net position per instrument and product; `quantity` is signed, and the
average price is there exactly when the position is open. -/
structure Position where
  bookId : String
  instrumentKey : String
  product : Product
  quantity : ℤ
  avgPrice : Option ℚ
  realizedPnl : ℚ
  updatedAt : Instant
  avgPrice_iff : quantity = 0 ↔ avgPrice = none
deriving DecidableEq

end RakshaQuant
