import RakshaQuant.Brokers.Base
import RakshaQuant.Lib.Dict

/-! The simulated broker's own state and the rows it persists: one core row, and
one row for each order and each fill. -/

namespace RakshaQuant

/-- `_SimOrder`. -/
structure SimOrder where
  brokerOrderId : String
  clientOrderId : String
  decisionId : String
  instrumentKey : String
  side : Side
  product : Product
  orderType : OrderType
  quantity : ℤ
  triggerPrice : Option ℚ
  status : OrderStatus
  filledQty : ℤ
  filledNotional : ℚ
  reserved : ℚ
  eligibleAt : Instant
  eligibleQuotes : ℤ
  fillCount : ℕ
  sessionDay : Day
  createdAt : Instant
  updatedAt : Instant
  message : String
deriving DecidableEq

namespace SimOrder

def remaining (o : SimOrder) : ℤ := o.quantity - o.filledQty

def snapshot (o : SimOrder) : BrokerOrderSnapshot :=
  { brokerOrderId := o.brokerOrderId, clientOrderId := o.clientOrderId
    instrumentKey := o.instrumentKey, side := o.side, product := o.product
    orderType := o.orderType, quantity := o.quantity, filledQty := o.filledQty
    avgFillPrice := if o.filledQty = 0 then none else some (o.filledNotional / o.filledQty)
    triggerPrice := o.triggerPrice, status := o.status, updatedAt := o.updatedAt
    message := o.message }

end SimOrder

/-- `_SimPosition`: `quantity` is signed, `cost` is `|quantity|` times the average price. -/
structure SimPosition where
  quantity : ℤ
  cost : ℚ
  realized : ℚ
  updatedAt : Option Instant
deriving DecidableEq

def SimPosition.empty : SimPosition := ⟨0, 0, 0, none⟩

/-- `_Unsettled`: sale proceeds and the day they become cash. -/
structure Unsettled where
  availableOn : Day
  amount : ℚ
deriving DecidableEq

/-- `dpDays` is searched for a pair. -/
instance lawfulBEqDpDay : LawfulBEq (String × Day) := inferInstance

/-- The fields of `_SimState` outside its orders and fills: the core row. -/
structure SimCore where
  cash : ℚ
  blocked : ℚ
  unsettled : List Unsettled
  positions : Dict (String × Product) SimPosition
  nextOrder : ℕ
  dpDays : List (String × Day)
  volume : Dict String (Day × ℤ)
deriving DecidableEq

def SimCore.init (startingCash : ℚ) : SimCore := ⟨startingCash, 0, [], .empty, 1, [], .empty⟩

/-- A persisted row; writing one replaces the row of the same key. -/
inductive Row
  | core (core : SimCore)
  | order (order : SimOrder)
  | fill (fill : Fill)
deriving DecidableEq

/-- The broker's state: the persisted part, the orders by broker order id and by
tag, what is not saved yet, and the last quotes. -/
structure SimulatedBroker where
  core : SimCore
  orders : Dict String SimOrder
  fills : List Fill
  byTag : Dict String String
  dirty : Bool
  dirtyOrders : List String
  newFills : List Fill
  quotes : Dict String Quote

end RakshaQuant
