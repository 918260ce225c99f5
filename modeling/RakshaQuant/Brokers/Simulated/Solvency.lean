import RakshaQuant.Brokers.Simulated.Accounts
import RakshaQuant.Brokers.Simulated.Conservation
import RakshaQuant.Oms.Lifecycle

/-! The broker's solvency. A buy is checked against the free cash when it is filled; a sale
is not checked against its own charges, and the flat depository fee can exceed what a few
shares bring. While no sale is of that kind, the free cash and the credits to come are not
negative, and the funds that are reported are valid and complete. -/

namespace RakshaQuant

/-- A sale brings its charges, or the free cash covers the rest where it is settled at once. -/
def SimEnv.salePays (env : SimEnv) (core : SimCore) (fill : Fill) : Bool :=
  fill.side = .buy ∨ fill.charges ≤
    fill.notional + if env.sellProceeds = .sameDay then core.cash - core.blocked else 0

namespace SimulatedBroker

variable {S : Type} {env : SimEnv} {hooks : Hooks S} {w w' : World SimulatedBroker S}
  {Asked : World SimulatedBroker S → Order → Prop}

/-- **The step lemma.** -/
theorem Accounts.step (h : w.broker.Accounts) (hids : Registered env w.broker)
    (hstep : BrokerStep env hooks env.salePays Asked w w') : w'.broker.Accounts := by
  have hnotify : ∀ {w : World SimulatedBroker S} (boid : String), w.broker.Accounts →
      (w.notify hooks boid).broker.Accounts := fun boid ha =>
    ha.same (World.notify_orders _ _ _) (by rw [World.notify_core]) (by rw [World.notify_core])
      (by rw [World.notify_core])
  cases hstep with
  | settled today => exact h.settle today
  | observed => exact h.same rfl rfl rfl rfl
  | counted boid => exact h.countQuote boid
  | @triggered boid _ ts held _ => exact hnotify boid (h.trigger ts held)
  | @finished boid _ status message ts held _ _ =>
    exact hnotify boid (h.finish status message ts held)
  | filled dpDay held live within settles wanted =>
    refine h.fill dpDay held rfl settles fun hsell => ?_
    rcases of_decide_eq_true wanted with hbuy | hpays
    · rw [hsell] at hbuy
      cases hbuy
    · exact hpays
  | @renotified boid _ _ _ => exact hnotify boid h
  | @accepted order checked reserved now _ _ _ reserves =>
    obtain ⟨hreserved, havailable⟩ := reservation_spec checked.2.ltp_pos h.solvent reserves
    exact hnotify _ ((h.accept hids.fresh hreserved havailable).same rfl rfl rfl rfl)
  | saved => exact h.same rfl rfl rfl rfl

end SimulatedBroker

namespace BrokerOp

open SimulatedBroker

variable {S : Type} (env : SimEnv) (hooks : Hooks S)

/-- **The run lemma.** -/
theorem run_accounts {startingCash : ℚ} (hcash : 0 ≤ startingCash) (desk : S)
    (ops : List BrokerOp)
    (h : allowsRun env hooks env.salePays ⟨.init startingCash, desk⟩ ops = true) :
    (run env hooks ⟨.init startingCash, desk⟩ ops).broker.Accounts := by
  have hinv := run_invariant env hooks
    (I := fun w => Sound env startingCash w.broker ∧ w.broker.Accounts) ?_
    ⟨.init _ _, .init hcash⟩ ops h
  · exact hinv.2
  · intro w w' hstep hw
    exact ⟨(hstep.change hw.1.conserves.reserved_nonneg).sound hw.1,
      hw.2.step hw.1.registered hstep⟩

/-- **The broker does not overspend**, while every sale pays its charges. -/
theorem broker_solvent {startingCash : ℚ} (hcash : 0 ≤ startingCash) (desk : S)
    (ops : List BrokerOp)
    (h : allowsRun env hooks env.salePays ⟨.init startingCash, desk⟩ ops = true) :
    let w := run env hooks ⟨.init startingCash, desk⟩ ops
    0 ≤ w.broker.available ∧ (∀ u ∈ w.broker.core.unsettled, 0 ≤ u.amount) ∧
      ∀ now, ∃ funds w', SimulatedBroker.getFunds now w = .ok funds w' ∧
        funds.availableCash + funds.blocked + funds.unsettledCredit = w.broker.core.money := by
  intro w
  have haccounts := run_accounts env hooks hcash desk ops h
  refine ⟨sub_nonneg.mpr haccounts.solvent, haccounts.credits, fun now => ?_⟩
  obtain ⟨funds, hfunds, hmoney⟩ := getFunds_spec haccounts now
  exact ⟨funds, _, hfunds, hmoney⟩

end BrokerOp

/-! ## One share of a cheap instrument -/

namespace Sample

theorem zero_nonneg : (0 : ℤ) ≤ 0 := le_rfl

theorem ten_nonneg : (0 : ℤ) ≤ 10 := by decide

/-- The market is open at all hours of 2026-10-02, a Friday. -/
def calendar : NSECalendar :=
  { default := ⟨0, 0, 86399000000, zero_nonneg, by decide⟩, years := [2026], holidays := []
    specials := .empty }

/-- Seconds into the day. -/
def clock (seconds : ℤ) : Instant := 20728 * 86400000000 - 19800000000 + seconds * 1000000

def fillModel : FillModelConfig :=
  { spreadTiers := [(0, 0)], impactK := 0, participation := 1, maxFillQuotes := 2
    defaultSigmaDaily := 0, spreadTiers_ne := by simp, participation_pos := by decide +kernel
    participation_le := le_rfl, maxFillQuotes_pos := by decide }

def instruments : Dict String Instrument := .ofList [(infy.key, infy)]

theorem instruments_keyed (key : String) (instrument : Instrument)
    (h : instruments.get? key = some instrument) : instrument.key = key := by
  have hmem := Dict.mem_of_ofList h
  simp only [List.mem_singleton, Prod.mk.injEq] at hmem
  rw [hmem.1, hmem.2]

def market : SimEnv :=
  { bookId := "main", instruments := instruments, calendar := calendar
    costs := .zero, config := fillModel, market := .empty, sellProceeds := .tPlus1
    capabilities := simCapabilities, sqrt := fun _ => 0, latency := fun _ _ => 0
    instruments_keyed := instruments_keyed }

/-- A quote at 100 with the session's volume so far. -/
def quote (seconds volume : ℤ) (h : 0 ≤ volume) : Quote :=
  { instrumentKey := infy.key, ltp := 100, prevClose := none, volumeCum := volume
    exchangeTs := clock seconds, receiptTs := clock seconds, ltp_pos := hundred_pos
    prevClose_pos := no_price_pos, volumeCum_nonneg := h }

theorem twenty_nonneg : (0 : ℤ) ≤ 20 := by decide

theorem five_pos : (0 : ℚ) < 5 := by norm_num

theorem fee_nonneg : (0 : ℚ) ≤ 27 / 2 := by norm_num

/-- No charges but the depository fee of a delivery sale. -/
def depositoryFee : NSECostSchedule :=
  { NSECostSchedule.zero with products := fun _ => some ⟨0, 0, 0, 0, 0, ⟨27 / 2, fee_nonneg⟩⟩ }

def feeMarket : SimEnv := { market with costs := depositoryFee }

/-- A quote at 5. -/
def cheapQuote (seconds volume : ℤ) (h : 0 ≤ volume) : Quote :=
  { quote seconds volume h with ltp := 5, ltp_pos := five_pos }

/-- Nobody is subscribed, and the rows go nowhere. -/
def unheard : Hooks Unit := ⟨fun _ => id, fun _ => pure ⟨⟩, fun _ => id⟩

def shares (intentId : String) (side : Side) (qty : { q : ℤ // 0 < q }) (seconds : ℤ) : Order :=
  OMS.newOrder config { entry with intentId := intentId, side := side } qty (clock seconds)

/-- Shares are bought at about 5 and sold. -/
def cheapTrade (qty : { q : ℤ // 0 < q }) : List BrokerOp :=
  [.onQuote (cheapQuote 0 0 zero_nonneg),
    .placeOrder (clock 1) (shares "I1" .buy qty 1), .onQuote (cheapQuote 2 10 ten_nonneg),
    .placeOrder (clock 3) (shares "I2" .sell qty 3), .onQuote (cheapQuote 4 20 twenty_nonneg)]

theorem ten_shares_pay :
    BrokerOp.allowsRun feeMarket unheard feeMarket.salePays ⟨.init 1000, ()⟩
      (cheapTrade ⟨10, ten_pos⟩) = true := by
  decide +kernel

theorem one_share_owes :
    ∃ u ∈ (BrokerOp.run feeMarket unheard ⟨.init 1000, ()⟩
      (cheapTrade ⟨1, Int.one_pos⟩)).broker.core.unsettled, u.amount < 0 := by
  decide +kernel

end Sample

namespace BrokerOp

/-- Ten shares bring more than the fee. -/
theorem broker_solvent_ten_shares :
    0 ≤ (run Sample.feeMarket Sample.unheard ⟨.init 1000, ()⟩
        (Sample.cheapTrade ⟨10, Sample.ten_pos⟩)).broker.available ∧
      ∀ u ∈ (run Sample.feeMarket Sample.unheard ⟨.init 1000, ()⟩
        (Sample.cheapTrade ⟨10, Sample.ten_pos⟩)).broker.core.unsettled, 0 ≤ u.amount := by
  have h := broker_solvent Sample.feeMarket Sample.unheard (by norm_num) () _ Sample.ten_shares_pay
  exact ⟨h.1, h.2.1⟩

/-- One share brings less, and its credit is negative. -/
theorem cheap_sale_owes :
    ¬∀ (S : Type) (env : SimEnv) (hooks : Hooks S) (startingCash : ℚ), 0 ≤ startingCash →
      ∀ (desk : S) (ops : List BrokerOp),
      let w := run env hooks ⟨.init startingCash, desk⟩ ops
      0 ≤ w.broker.available ∧ (∀ u ∈ w.broker.core.unsettled, 0 ≤ u.amount) ∧
        ∀ now, ∃ funds w', SimulatedBroker.getFunds now w = .ok funds w' ∧
          funds.availableCash + funds.blocked + funds.unsettledCredit = w.broker.core.money := by
  intro h
  have hcredits := (h Unit Sample.feeMarket Sample.unheard 1000 (by norm_num) ()
    (Sample.cheapTrade ⟨1, Int.one_pos⟩)).2.1
  obtain ⟨u, hu, howes⟩ := Sample.one_share_owes
  exact absurd (hcredits u hu) (not_le.mpr howes)

end BrokerOp

end RakshaQuant
