import Mathlib.Data.NNRat.Lemmas
import RakshaQuant.Domain.Errors
import RakshaQuant.Domain.Types
import RakshaQuant.Lib.Decimal

/-! NSE charges by product. Every rate is validated not to be negative when the
schedule is loaded, so rates and charges are nonnegative rationals; each
component is computed exactly and rounded to the paisa. -/

namespace RakshaQuant

/-- `_paise`: to the paisa, half up. -/
def paise (value : ℚ≥0) : ℚ≥0 :=
  ⟨Decimal.quantizeHalfUp (1 / 100) value,
    Decimal.quantizeHalfUp_nonneg (by norm_num) value.2⟩

/-- Rates in percent of turnover; a brokerage cap of 0 is none. -/
structure ProductRates where
  brokeragePct : ℚ≥0
  brokerageCapInr : ℚ≥0
  sttBuyPct : ℚ≥0
  sttSellPct : ℚ≥0
  stampBuyPct : ℚ≥0
  dpPerSellInr : ℚ≥0
deriving DecidableEq

structure ChargeBreakdown where
  brokerage : ℚ≥0
  stt : ℚ≥0
  exchange : ℚ≥0
  sebi : ℚ≥0
  ipft : ℚ≥0
  stamp : ℚ≥0
  dp : ℚ≥0
  gst : ℚ≥0
deriving DecidableEq

namespace ChargeBreakdown

def zero : ChargeBreakdown := ⟨0, 0, 0, 0, 0, 0, 0, 0⟩

def total (c : ChargeBreakdown) : ℚ≥0 :=
  c.brokerage + c.stt + c.exchange + c.sebi + c.ipft + c.stamp + c.dp + c.gst

def asDict (c : ChargeBreakdown) : List (String × ℚ) :=
  [("brokerage", c.brokerage), ("stt", c.stt), ("exchange", c.exchange), ("sebi", c.sebi),
    ("ipft", c.ipft), ("stamp", c.stamp), ("dp", c.dp), ("gst", c.gst)]

end ChargeBreakdown

structure NSECostSchedule where
  exchangeTxnPct : ℚ≥0
  sebiPct : ℚ≥0
  ipftPct : ℚ≥0
  gstPct : ℚ≥0
  products : Product → Option ProductRates

namespace NSECostSchedule

/-- No charges at all. -/
def zero : NSECostSchedule := ⟨0, 0, 0, 0, fun _ => some ⟨0, 0, 0, 0, 0, 0⟩⟩

/-- Charges for one executed order leg of `notional` rupees. -/
def charges (s : NSECostSchedule) (product : Product) (side : Side) (notional : ℚ)
    (dpApplies : Bool) : Except Exc ChargeBreakdown :=
  if h : notional < 0 then .error (.valueError "notional must be >= 0")
  else if notional = 0 then .ok .zero
  else
    match s.products product with
    | none => .error (.valueError ("no cost schedule for product " ++ product.value))
    | some rates =>
      let pct (rate : ℚ≥0) : ℚ≥0 := ⟨notional, not_lt.mp h⟩ * rate / 100
      let brokerage :=
        if 0 < rates.brokerageCapInr then min (pct rates.brokeragePct) rates.brokerageCapInr
        else pct rates.brokeragePct
      let stt := pct (match side with
        | .buy => rates.sttBuyPct
        | .sell => rates.sttSellPct)
      let stamp := match side with
        | .buy => pct rates.stampBuyPct
        | .sell => 0
      let exchange := pct s.exchangeTxnPct
      let sebi := pct s.sebiPct
      let ipft := pct s.ipftPct
      let dp := if side = .sell ∧ dpApplies then rates.dpPerSellInr else 0
      let gst := (brokerage + exchange + sebi + ipft + dp) * s.gstPct / 100
      .ok
        { brokerage := paise brokerage, stt := paise stt, exchange := paise exchange
          sebi := paise sebi, ipft := paise ipft, stamp := paise stamp, dp := paise dp
          gst := paise gst }

end NSECostSchedule

end RakshaQuant
