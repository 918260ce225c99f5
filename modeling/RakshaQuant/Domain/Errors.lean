/-! The exceptions the modelled code raises. Broker errors are normalised to one
taxonomy, whose `outcome` says what happened to a write. -/

namespace RakshaQuant

inductive RejectReason
  | insufficientFunds
  | priceBand
  | tickSize
  | qtyValueLimit
  | marketClosed
  | productNotAllowed
  | shortNotAllowed
  | instrumentRestricted
  | rmsOther
deriving DecidableEq

def RejectReason.value : RejectReason → String
  | insufficientFunds => "INSUFFICIENT_FUNDS"
  | priceBand => "PRICE_BAND"
  | tickSize => "TICK_SIZE"
  | qtyValueLimit => "QTY_VALUE_LIMIT"
  | marketClosed => "MARKET_CLOSED"
  | productNotAllowed => "PRODUCT_NOT_ALLOWED"
  | shortNotAllowed => "SHORT_NOT_ALLOWED"
  | instrumentRestricted => "INSTRUMENT_RESTRICTED"
  | rmsOther => "RMS_OTHER"

inductive Outcome
  | notPlaced
  | unknown
  | notApplicable
deriving DecidableEq

/-- The classes of broker errors; a rejection carries its reason. -/
inductive BrokerErrorClass
  | brokerError
  | authError
  | rateLimitedError
  | transportError
  | brokerUnavailableError
  | orderRejectedError (reason : RejectReason)
  | invalidRequestError
deriving DecidableEq

namespace BrokerErrorClass

/-- `type(exc).__name__`. -/
def name : BrokerErrorClass → String
  | brokerError => "BrokerError"
  | authError => "AuthError"
  | rateLimitedError => "RateLimitedError"
  | transportError => "TransportError"
  | brokerUnavailableError => "BrokerUnavailableError"
  | orderRejectedError _ => "OrderRejectedError"
  | invalidRequestError => "InvalidRequestError"

def outcome : BrokerErrorClass → Outcome
  | transportError | brokerUnavailableError => .unknown
  | authError | rateLimitedError | orderRejectedError _ | invalidRequestError => .notPlaced
  | brokerError => .notApplicable

end BrokerErrorClass

inductive Exc
  | broker (cls : BrokerErrorClass) (message : String)
  | valueError (message : String)
  | keyError (message : String)
  | runtimeError (message : String)
  | validationError (message : String)
  | calendarCoverageError (message : String)
deriving DecidableEq

namespace Exc

def name : Exc → String
  | broker cls _ => cls.name
  | valueError _ => "ValueError"
  | keyError _ => "KeyError"
  | runtimeError _ => "RuntimeError"
  | validationError _ => "ValidationError"
  | calendarCoverageError _ => "CalendarCoverageError"

def message : Exc → String
  | broker _ m | valueError m | keyError m | runtimeError m | validationError m
  | calendarCoverageError m => m

end Exc

end RakshaQuant
