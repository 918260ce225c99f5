import Mathlib.Data.Finset.SDiff
import Mathlib.Data.Finset.Insert
import RakshaQuant.Risk.Engine
import RakshaQuant.Risk.Limits

/-! What a risk decision is made against: the state of the book and the market at
one instant, the capacity already granted to earlier proposals, and one intent's
view of both under the limits. -/

namespace RakshaQuant

/-- `UNKNOWN_SECTOR`: one bucket for unmapped symbols. -/
def unknownSector : String := "Unknown"

/-- `sector or UNKNOWN_SECTOR`. -/
def sectorName : Option String → String
  | some "" | none => unknownSector
  | some name => name

/-- A window in which new entries in an instrument are blocked, both ends included. -/
structure EventBlock where
  code : ReasonCode
  start : Day
  «end» : Day
  eventId : String
  reason : String
deriving DecidableEq

def EventBlock.covers (b : EventBlock) (day : Day) : Bool := b.start ≤ day ∧ day ≤ b.end

/-- A position, filed under its instrument's key. -/
structure PositionInfo where
  quantity : ℤ
  mark : ℚ
  sector : Option String
  strategy : Option String
  stopPrice : Option ℚ

namespace PositionInfo

def notional (p : PositionInfo) : ℚ := |p.quantity| * p.mark

/-- The loss to the stop, or the full notional when there is none. -/
def openRisk (p : PositionInfo) : ℚ :=
  match p.stopPrice with
  | none => p.notional
  | some stop => max 0 ((p.mark - stop) * p.quantity)

end PositionInfo

structure StrategyStats where
  dayPnl : ℚ
  consecutiveLosses : ℕ
  ordersLastMin : ℕ
  trades : ℕ
  winRate : Option ℚ
  payoff : Option ℚ

/-- `StrategyStats()`. -/
def StrategyStats.empty : StrategyStats := ⟨0, 0, 0, 0, none, none⟩

structure MarketFacts where
  quote : Option Quote
  atr : Option ℚ
  advShares : Option ℚ
  dataSource : Option MarketDataSource

/-- `MarketFacts()`. -/
def MarketFacts.empty : MarketFacts := ⟨none, none, none, none⟩

structure RiskSnapshot where
  now : Instant
  environment : String
  equity : ℚ
  cash : ℚ
  sodEquity : ℚ
  peakEquity : ℚ
  positions : Dict String PositionInfo
  market : Dict String MarketFacts
  strategies : Dict String StrategyStats
  kill : KillState
  openOrders : ℕ
  ordersLastMin : ℕ
  rejectsInWindow : ℕ
  entriesToday : ℕ
  symbolsEnteredToday : List String
  symbolsExitedToday : List String
  unknownOrderKeys : List String
  isTradingDay : Bool
  isWeekend : Bool
  sessionOpen : Bool
  entryWindow : Bool
  llmDegraded : Bool
  journalDurable : Bool
  reconDrift : Bool
  eventBlocks : Dict String (List EventBlock)

namespace RiskSnapshot

variable (s : RiskSnapshot)

def dayPnlMtm : ℚ := s.equity - s.sodEquity

def grossExposure : ℚ := s.positions.sum fun _ p => p.notional

def heat : ℚ := s.positions.sum fun _ p => p.openRisk

def sectorExposure (sector : String) : ℚ :=
  s.positions.sum fun _ p => if sectorName p.sector = sector then p.notional else 0

def deployed (strategy : String) : ℚ :=
  s.positions.sum fun _ p => if p.strategy = some strategy then p.notional else 0

/-- The instruments held. -/
def held : Finset String :=
  (s.positions.keys.filter fun key => (s.positions.get? key).any (·.quantity ≠ 0)).toFinset

end RiskSnapshot

/-- Capacity granted to earlier approvals in the same decision batch. -/
structure Reservations where
  symbols : Finset String
  gross : ℚ
  heat : ℚ
  cash : ℚ
  entries : ℕ
  orders : ℕ
  bySector : Dict String ℚ
  byStrategy : Dict String ℚ

/-- `Reservations()`. -/
def Reservations.empty : Reservations := ⟨∅, 0, 0, 0, 0, 0, .empty, .empty⟩

/-- What the checks on market facts, sizes and limits read. -/
structure RiskFacts where
  snapshot : RiskSnapshot
  limits : RiskLimits
  reserved : Reservations

/-- `RiskContext(intent, snapshot, limits, reserved, requested)`. -/
def RiskFacts.context (facts : RiskFacts) (intent : OrderIntent) (requested : Option ℤ) :
    RiskContext RiskFacts :=
  { intent := intent, requestedQty := requested, allowShort := facts.limits.allowShort
    position := (facts.snapshot.positions.get? intent.instrument.key).map PositionInfo.quantity
    facts := facts }

namespace RiskContext

variable (ctx : RiskContext RiskFacts)

def key : String := ctx.intent.instrument.key

/-- `facts`. -/
def market : MarketFacts := (ctx.facts.snapshot.market.get? ctx.key).getD .empty

/-- The fresh reference price: the latest quote's. -/
def price : Option ℚ := ctx.market.quote.map Quote.ltp

def stopDistance : Option ℚ := do
  let stop ← ctx.intent.stopPrice
  let price ← ctx.price
  return if 0 < ctx.intent.side.sign then price - stop else stop - price

def sector : String := sectorName ctx.intent.instrument.sector

/-- A fraction of equity, in rupees. -/
def pct (fraction : ℚ) : ℚ := ctx.facts.snapshot.equity * fraction

/-- `_stats`. -/
def stats : StrategyStats :=
  (ctx.facts.snapshot.strategies.get? ctx.intent.strategy).getD .empty

theorem price_pos {price : ℚ} (h : ctx.price = some price) : 0 < price := by
  unfold RiskContext.price at h
  obtain ⟨quote, -, rfl⟩ := Option.map_eq_some_iff.mp h
  exact quote.ltp_pos

end RiskContext

namespace Reservations

/-- What a key of the reservations holds. -/
def amount (d : Dict String ℚ) (key : String) : ℚ := (d.get? key).getD 0

def addTo (d : Dict String ℚ) (key : String) (value : ℚ) : Dict String ℚ :=
  d.set key (amount d key + value)

@[simp] theorem amount_empty (key : String) : amount .empty key = 0 := rfl

theorem amount_addTo (d : Dict String ℚ) (key other : String) (value : ℚ) :
    amount (addTo d key value) other = amount d other + if key = other then value else 0 := by
  unfold addTo amount
  rw [Dict.get?_set]
  by_cases h : other = key
  · subst h
    simp
  · simp [h, Ne.symm h]

/-- `add`: reserve an approval's capacity; `counted` is false for an order already
submitted, which the day's counts have. -/
def add (r : Reservations) (ctx : RiskContext RiskFacts) (quantity : ℤ) (counted : Bool) :
    Reservations :=
  let r := if counted then { r with orders := r.orders + 1 } else r
  if ctx.intent.kind.reducesRisk then r
  else
    match ctx.price with
    | none => r
    | some price =>
      let notional := price * quantity
      { symbols := insert ctx.key r.symbols
        gross := r.gross + notional
        heat := r.heat + (ctx.stopDistance.map (· * (quantity : ℚ))).getD 0
        cash := r.cash + notional
        entries := if counted then r.entries + 1 else r.entries
        orders := r.orders
        bySector := addTo r.bySector ctx.sector notional
        byStrategy := addTo r.byStrategy ctx.intent.strategy notional }

end Reservations

end RakshaQuant
