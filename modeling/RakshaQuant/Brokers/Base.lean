import RakshaQuant.Domain.Errors
import RakshaQuant.Domain.Types

/-! The broker adapter contract: the records a broker returns and the calls the
OMS makes. An adapter acts on a state that also holds the desk listening to its
updates, since a broker delivers updates and fills by calling back into it. -/

namespace RakshaQuant

structure BrokerAck where
  clientOrderId : String
  brokerOrderId : String
  status : OrderStatus
  ts : Instant
  message : String
deriving DecidableEq

/-- The broker's view of one order. -/
structure BrokerOrderSnapshot where
  brokerOrderId : String
  clientOrderId : String
  instrumentKey : String
  side : Side
  product : Product
  orderType : OrderType
  quantity : ℤ
  filledQty : ℤ
  avgFillPrice : Option ℚ
  triggerPrice : Option ℚ
  status : OrderStatus
  updatedAt : Instant
  message : String
deriving DecidableEq

structure Funds where
  availableCash : ℚ
  blocked : ℚ
  unsettledCredit : ℚ
  availableCash_nonneg : 0 ≤ availableCash
  blocked_nonneg : 0 ≤ blocked
  unsettledCredit_nonneg : 0 ≤ unsettledCredit

/-- A broker and the desk subscribed to it. -/
structure World (B S : Type) where
  broker : B
  desk : S

namespace World

variable {B S α : Type}

def mapBroker (f : B → B) (w : World B S) : World B S := { w with broker := f w.broker }

/-- Run a computation of the desk inside the world. -/
def onDesk (m : EStateM Exc S α) : EStateM Exc (World B S) α := fun w =>
  match m w.desk with
  | .ok a d => .ok a { w with desk := d }
  | .error e d => .error e { w with desk := d }

end World

/-- The part of `BrokerAdapter` the OMS uses, on states `W`. -/
structure BrokerAdapter (W : Type) where
  placeOrder : Order → EStateM Exc W BrokerAck
  cancelOrder : String → EStateM Exc W BrokerAck
  findOrderByTag : String → EStateM Exc W (Option BrokerOrderSnapshot)
  getOrders : EStateM Exc W (List BrokerOrderSnapshot)
  getTrades : Option Instant → EStateM Exc W (List Fill)
  getPositions : EStateM Exc W (List Position)
  getFunds : EStateM Exc W Funds

end RakshaQuant
