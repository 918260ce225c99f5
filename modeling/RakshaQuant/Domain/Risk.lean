import RakshaQuant.Domain.Types
import RakshaQuant.Lib.Dict

/-! Risk results, the kill switches' states, and the decision record the pre-trade
gate persists before the OMS routes. -/

namespace RakshaQuant

/-! ## Kill switches -/

inductive KillScope
  | global
  | broker
  | strategy
deriving DecidableEq

def KillScope.value : KillScope → String
  | global => "global"
  | broker => "broker"
  | strategy => "strategy"

inductive KillSwitchState
  | armed
  | haltNew
  | flatten
deriving DecidableEq

def KillSwitchState.value : KillSwitchState → String
  | armed => "ARMED"
  | haltNew => "HALT_NEW"
  | flatten => "FLATTEN"

structure KillState where
  globalState : KillSwitchState
  broker : KillSwitchState
  strategies : Dict String KillSwitchState

/-! ## Checks and decisions -/

inductive ReasonCode
  | ordQtyNonpos
  | ordNotionalMax
  | ordRiskPerTrade
  | ordStopWrongSide
  | ordStopTooWide
  | ordStopTooTight
  | ordRrMin
  | ordPriceCollar
  | ordAdvPct
  | ordCircuitBand
  | ordTick
  | ordShortNotAllowed
  | ordReduceExceedsPos
  | evtResultsWindow
  | evtAdverseMajor
  | strHalted
  | strNotValidated
  | strCapitalAlloc
  | strDailyLoss
  | strConsecLosses
  | strOrderRate
  | pfMaxPositions
  | pfDuplicate
  | pfReentrySameDay
  | pfGross
  | pfNet
  | pfSector
  | pfHeat
  | pfCash
  | pfDailyLossMtm
  | pfDrawdown
  | pfEntriesPerDay
  | sysKillGlobal
  | sysKillBroker
  | sysSessionClosed
  | sysHoliday
  | sysEntryCutoff
  | sysDataStale
  | sysDataSimulated
  | sysMaxOpenOrders
  | sysOrderRate
  | sysRejectStorm
  | sysUnknownOrder
  | sysLlmDegraded
  | sysJournalNotDurable
  | sysReconDrift
  | sysCheckError
deriving DecidableEq

def ReasonCode.value : ReasonCode → String
  | ordQtyNonpos => "ORD_QTY_NONPOS"
  | ordNotionalMax => "ORD_NOTIONAL_MAX"
  | ordRiskPerTrade => "ORD_RISK_PER_TRADE"
  | ordStopWrongSide => "ORD_STOP_WRONG_SIDE"
  | ordStopTooWide => "ORD_STOP_TOO_WIDE"
  | ordStopTooTight => "ORD_STOP_TOO_TIGHT"
  | ordRrMin => "ORD_RR_MIN"
  | ordPriceCollar => "ORD_PRICE_COLLAR"
  | ordAdvPct => "ORD_ADV_PCT"
  | ordCircuitBand => "ORD_CIRCUIT_BAND"
  | ordTick => "ORD_TICK"
  | ordShortNotAllowed => "ORD_SHORT_NOT_ALLOWED"
  | ordReduceExceedsPos => "ORD_REDUCE_EXCEEDS_POS"
  | evtResultsWindow => "EVT_RESULTS_WINDOW"
  | evtAdverseMajor => "EVT_ADVERSE_MAJOR"
  | strHalted => "STR_HALTED"
  | strNotValidated => "STR_NOT_VALIDATED"
  | strCapitalAlloc => "STR_CAPITAL_ALLOC"
  | strDailyLoss => "STR_DAILY_LOSS"
  | strConsecLosses => "STR_CONSEC_LOSSES"
  | strOrderRate => "STR_ORDER_RATE"
  | pfMaxPositions => "PF_MAX_POSITIONS"
  | pfDuplicate => "PF_DUPLICATE"
  | pfReentrySameDay => "PF_REENTRY_SAME_DAY"
  | pfGross => "PF_GROSS"
  | pfNet => "PF_NET"
  | pfSector => "PF_SECTOR"
  | pfHeat => "PF_HEAT"
  | pfCash => "PF_CASH"
  | pfDailyLossMtm => "PF_DAILY_LOSS_MTM"
  | pfDrawdown => "PF_DRAWDOWN"
  | pfEntriesPerDay => "PF_ENTRIES_PER_DAY"
  | sysKillGlobal => "SYS_KILL_GLOBAL"
  | sysKillBroker => "SYS_KILL_BROKER"
  | sysSessionClosed => "SYS_SESSION_CLOSED"
  | sysHoliday => "SYS_HOLIDAY"
  | sysEntryCutoff => "SYS_ENTRY_CUTOFF"
  | sysDataStale => "SYS_DATA_STALE"
  | sysDataSimulated => "SYS_DATA_SIMULATED"
  | sysMaxOpenOrders => "SYS_MAX_OPEN_ORDERS"
  | sysOrderRate => "SYS_ORDER_RATE"
  | sysRejectStorm => "SYS_REJECT_STORM"
  | sysUnknownOrder => "SYS_UNKNOWN_ORDER"
  | sysLlmDegraded => "SYS_LLM_DEGRADED"
  | sysJournalNotDurable => "SYS_JOURNAL_NOT_DURABLE"
  | sysReconDrift => "SYS_RECON_DRIFT"
  | sysCheckError => "SYS_CHECK_ERROR"

/-! ## The risk day -/

/-- One strategy's part of the day. -/
structure StrategyDay where
  realizedPnl : ℚ
  trades : ℕ
  consecutiveLosses : ℕ
  entries : ℕ
  orderTs : List Instant
  lastExit : Option String

/-- `StrategyDay()`. -/
def StrategyDay.empty : StrategyDay := ⟨0, 0, 0, 0, [], none⟩

/-- What the limits of one IST day are measured against. A breach raised today is kept
as its code and name, the two parts of its text `<code>:<name>`. -/
structure DailyRiskState where
  bookId : String
  istDate : Day
  sodEquity : ℚ
  peakEquity : ℚ
  lastEquity : ℚ
  lowEquity : ℚ
  realizedPnl : ℚ
  entries : ℕ
  symbolsEntered : List String
  symbolsExited : List String
  strategies : Dict String StrategyDay
  orderTs : List Instant
  rejectTs : List Instant
  breaches : List (ReasonCode × String)
  lastTick : Option Instant

/-- How far equity is below its peak, as a fraction of the peak. -/
def DailyRiskState.drawdown (s : DailyRiskState) : ℚ :=
  if s.peakEquity ≤ 0 then 0 else max 0 ((s.peakEquity - s.lastEquity) / s.peakEquity)

inductive CheckOutcome
  | allow
  | resize
  | block
deriving DecidableEq

inductive RiskOutcome
  | approved
  | resized
  | rejected
  | halted
deriving DecidableEq

def RiskOutcome.value : RiskOutcome → String
  | approved => "APPROVED"
  | resized => "RESIZED"
  | rejected => "REJECTED"
  | halted => "HALTED"

/-- The result of one check; a cap is there exactly for a resize. -/
structure RiskCheckResult where
  code : ReasonCode
  outcome : CheckOutcome
  message : String
  maxQty : Option ℤ
  maxQty_nonneg : ∀ q ∈ maxQty, 0 ≤ q
  maxQty_iff : outcome = .resize ↔ maxQty.isSome
deriving DecidableEq

/-- The binding pre-trade decision for one intent. A decision that approves has
a positive quantity, one that does not has none and carries its reasons. -/
structure RiskDecision where
  decisionId : String
  intentId : String
  bookId : String
  strategy : String
  instrumentKey : String
  side : Side
  product : Product
  kind : IntentKind
  qtyRequested : Option ℤ
  qtyApproved : ℤ
  outcome : RiskOutcome
  reasons : List RiskCheckResult
  checksRun : List String
  qtyApproved_nonneg : 0 ≤ qtyApproved
  outcome_consistent : (outcome = .approved ∨ outcome = .resized) ↔ 0 < qtyApproved
  reasons_given : qtyApproved = 0 → reasons ≠ []

end RakshaQuant
