import RakshaQuant.Domain.Risk
import RakshaQuant.Domain.Types

/-! The event payloads that order handling emits, without the envelope (sequence
number, timestamps and source), which nothing modelled here reads. -/

namespace RakshaQuant

/-- `_OrderRef`: what a lifecycle update says of the order it is about. -/
structure OrderRef where
  clientOrderId : String
  bookId : String
  decisionId : String
  instrumentKey : String
deriving DecidableEq

/-- A closed round trip, or the closed part of one, net of both legs' charges. -/
structure TradeClosed where
  tradeId : String
  bookId : String
  decisionId : String
  exitDecisionId : String
  instrumentKey : String
  strategy : String
  side : Side
  quantity : ℤ
  entryPrice : ℚ
  exitPrice : ℚ
  entryTs : Instant
  exitTs : Instant
  grossPnl : ℚ
  charges : ℚ
  netPnl : ℚ
  exitReason : String
  quantity_nonneg : 0 ≤ quantity
  entryPrice_pos : 0 < entryPrice
  exitPrice_pos : 0 < exitPrice
  charges_nonneg : 0 ≤ charges

structure ReconciliationResult where
  bookId : String
  scope : String
  inSync : Bool
  diffs : List String
deriving DecidableEq

structure Alert where
  level : String
  key : String
  message : String
deriving DecidableEq

inductive EventPayload
  | orderSubmitted (order : Order)
  | orderAcked (ref : OrderRef) (brokerOrderId : String) (status : OrderStatus)
  | orderRejected (ref : OrderRef) (reason message : String)
  | orderUnknown (ref : OrderRef) (error : String)
  | orderCancelled (ref : OrderRef) (filledQty : ℤ) (reason : String)
  | orderExpired (ref : OrderRef) (filledQty : ℤ)
  | fillReceived (fill : Fill) (orderStatus : OrderStatus) (orderFilledQty : ℤ)
      (orderAvgPrice : ℚ)
  | positionChanged (position : Position) (fillId : Option String)
  | tradeClosed (trade : TradeClosed)
  | reconciliationResult (result : ReconciliationResult)
  | alert (alert : Alert)
  | riskDecision (decision : RiskDecision)
  | dailyRiskStateRolled (bookId : String) (istDate : Day) (state : DailyRiskState)
  | limitBreached (bookId : String) (code : ReasonCode) (observed limit : ℚ) (message : String)
  | killSwitchChanged (bookId : String) (scope : KillScope) (name : String)
      (previous current : KillSwitchState) (reason actor : String)

end RakshaQuant
