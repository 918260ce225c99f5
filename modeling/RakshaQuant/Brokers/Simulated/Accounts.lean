import RakshaQuant.Brokers.Simulated.Effects

/-! The broker's accounts: what is blocked is what the orders reserve, no order
reserves less than nothing, the cash covers what is blocked, and credits still to
come are credits. Only a sale whose charges exceed its proceeds breaks them. -/

namespace RakshaQuant

namespace SimulatedBroker

structure Accounts (b : SimulatedBroker) : Prop where
  reserved_nonneg : ∀ boid so, b.orders.get? boid = some so → 0 ≤ so.reserved
  blocked : b.core.blocked = b.orders.sum fun _ o => o.reserved
  solvent : b.core.blocked ≤ b.core.cash
  credits : ∀ u ∈ b.core.unsettled, 0 ≤ u.amount

/-- What an order reserves is there, and not negative. -/
theorem reservation_spec {env : SimEnv} {order : Order} {reference reserved : ℚ}
    {b : SimulatedBroker} (hr : 0 < reference) (hsolvent : b.core.blocked ≤ b.core.cash)
    (h : env.reservation order reference b = .ok reserved) :
    0 ≤ reserved ∧ reserved ≤ b.available := by
  rcases reservation_cases hr h with ⟨-, rfl⟩ | ⟨-, hreserved, hle⟩
  · exact ⟨le_rfl, sub_nonneg.mpr hsolvent⟩
  · exact ⟨hreserved, hle⟩

namespace Accounts

variable {b b' : SimulatedBroker}

theorem blocked_nonneg (h : Accounts b) : 0 ≤ b.core.blocked := by
  rw [h.blocked]
  exact Dict.sum_nonneg h.reserved_nonneg

theorem unsettled_nonneg (h : Accounts b) : 0 ≤ (b.core.unsettled.map Unsettled.amount).sum := by
  refine List.sum_nonneg fun x hx => ?_
  obtain ⟨u, hu, rfl⟩ := List.mem_map.mp hx
  exact h.credits u hu

/-- A change that rewrites one order. -/
theorem set (h : Accounts b) {boid : String} {so so' : SimOrder}
    (hso : b.orders.get? boid = some so) (horders : b'.orders = b.orders.set boid so')
    (hreserved : 0 ≤ so'.reserved)
    (hblocked : b'.core.blocked = b.core.blocked - so.reserved + so'.reserved)
    (hsolvent : b'.core.blocked ≤ b'.core.cash)
    (hcredits : ∀ u ∈ b'.core.unsettled, 0 ≤ u.amount) : Accounts b' := by
  refine ⟨fun k o ho => ?_, ?_, hsolvent, hcredits⟩
  · rw [horders, Dict.get?_set_iff] at ho
    rcases ho with ⟨-, rfl⟩ | ⟨-, hold⟩
    · exact hreserved
    · exact h.reserved_nonneg k o hold
  · have hsum := Dict.sum_set (fun _ (o : SimOrder) => o.reserved) b.orders boid so'
      { so' with reserved := 0 } rfl
    rw [hso, Option.getD_some] at hsum
    rw [horders, hblocked, h.blocked]
    linarith

/-- A change that leaves orders, cash and credits alone. -/
theorem same (h : Accounts b) (horders : b'.orders = b.orders)
    (hblocked : b'.core.blocked = b.core.blocked) (hcash : b'.core.cash = b.core.cash)
    (hunsettled : b'.core.unsettled = b.core.unsettled) : Accounts b' := by
  refine ⟨?_, ?_, ?_, ?_⟩
  · rw [horders]
    exact h.reserved_nonneg
  · rw [horders, hblocked]
    exact h.blocked
  · rw [hblocked, hcash]
    exact h.solvent
  · rw [hunsettled]
    exact h.credits

theorem settle (h : Accounts b) (today : Day) : Accounts (b.settle today) := by
  obtain ⟨cash, unsettled, heq, -, ⟨rfl, rfl⟩ | ⟨rfl, rfl⟩⟩ := b.settle_spec today
  · rw [heq]
    exact h.same rfl rfl rfl rfl
  · rw [heq]
    refine ⟨h.reserved_nonneg, h.blocked, ?_, fun u hu => h.credits u (List.mem_filter.mp hu).1⟩
    have hdue : 0 ≤ ((b.core.unsettled.filter fun u => u.availableOn ≤ today).map
        Unsettled.amount).sum := by
      refine List.sum_nonneg fun x hx => ?_
      obtain ⟨u, hu, rfl⟩ := List.mem_map.mp hx
      exact h.credits u (List.mem_filter.mp hu).1
    have hsolvent := h.solvent
    show b.core.blocked ≤ b.core.cash + _
    linarith

theorem countQuote (h : Accounts b) (boid : String) : Accounts (b.countQuote boid) := by
  cases hso : b.orders.get? boid with
  | none =>
    rw [countQuote_of_none hso]
    exact h
  | some so =>
    rw [countQuote_of_get hso]
    exact h.set hso rfl (h.reserved_nonneg boid so hso :) (by ring) h.solvent h.credits

theorem trigger (h : Accounts b) {boid : String} {so : SimOrder} (ts : Instant)
    (hso : b.orders.get? boid = some so) : Accounts (b.trigger boid ts) := by
  rw [trigger_of_get ts hso]
  exact h.set hso rfl (h.reserved_nonneg boid so hso :) (by ring) h.solvent h.credits

/-- An order that ends gives its reserve back. -/
theorem finish (h : Accounts b) {boid : String} {so : SimOrder} (status : OrderStatus)
    (message : String) (ts : Instant) (hso : b.orders.get? boid = some so) :
    Accounts (b.finish boid status message ts) := by
  have hreserved := h.reserved_nonneg boid so hso
  have hsolvent := h.solvent
  rw [finish_of_get status message ts hso]
  refine h.set hso rfl le_rfl (add_zero _).symm ?_ h.credits
  show b.core.blocked - so.reserved ≤ b.core.cash
  linarith

/-- A new order reserves what is available. -/
theorem accept (h : Accounts b) {sim : SimOrder} (hnew : b.orders.get? sim.brokerOrderId = none)
    (hreserved : 0 ≤ sim.reserved) (havailable : sim.reserved ≤ b.available) :
    Accounts (b.accept sim) := by
  refine ⟨fun k o ho => ?_, ?_, ?_, h.credits⟩
  · have hset : (b.orders.set sim.brokerOrderId sim).get? k = some o := ho
    rcases b.orders.get?_set_iff.mp hset with ⟨-, rfl⟩ | ⟨-, hold⟩
    · exact hreserved
    · exact h.reserved_nonneg k o hold
  · have hsum := Dict.sum_set (fun _ (o : SimOrder) => o.reserved) b.orders sim.brokerOrderId sim
      { sim with reserved := 0 } rfl
    rw [hnew, Option.getD_none, add_zero] at hsum
    show b.core.blocked + sim.reserved = (b.orders.set sim.brokerOrderId sim).sum _
    rw [hsum, h.blocked]
  · unfold available at havailable
    show b.core.blocked + sim.reserved ≤ b.core.cash
    linarith

/-- A fill that can be paid, or a sale whose charges can: at once from what is free, else
from what it brings alone. -/
theorem fill (h : Accounts b) {env : SimEnv} {boid : String} {so : SimOrder} {s : Settlement}
    (dpDay : Option (String × Day)) {fill : Fill} (hso : b.orders.get? boid = some so)
    (hside : fill.side = so.side) (hsettles : env.settlement so fill b = .ok (some s))
    (hworth : fill.side = .sell →
      fill.charges ≤ fill.notional + if env.sellProceeds = .sameDay then b.available else 0) :
    Accounts (b.bookFill boid so s dpDay fill) := by
  have hreserved := h.reserved_nonneg boid so hso
  have hsolvent := h.solvent
  obtain ⟨blocked, hbooked, hblocked⟩ := bookFill_eq boid so s dpDay fill b
  have hrest := so.afterFill_reserved s fill
  -- what the settlement releases, and what it does to the cash and the credits
  have hspec : s.release ≤ so.reserved ∧
      (settleFill s b.core).blocked = b.core.blocked - s.release ∧
      b.core.blocked - s.release ≤ (settleFill s b.core).cash ∧
      ∀ u ∈ (settleFill s b.core).unsettled, 0 ≤ u.amount := by
    unfold SimEnv.settlement at hsettles
    cases hs : so.side with
    | buy =>
      rw [hs] at hsettles
      dsimp only at hsettles
      split at hsettles
      · cases hsettles
      · rename_i hpaid
        cases hsettles
        unfold available at hpaid
        refine ⟨min_le_left _ _, rfl, ?_, h.credits⟩
        show b.core.blocked - min so.reserved (fill.notional + fill.charges) ≤
          b.core.cash - (fill.notional + fill.charges)
        linarith [not_lt.mp hpaid]
    | sell =>
      have hproceeds := hworth (hside.trans hs)
      rw [hs] at hsettles
      dsimp only at hsettles
      cases hp : env.sellProceeds with
      | sameDay =>
        rw [hp] at hsettles
        cases hsettles
        rw [if_pos hp] at hproceeds
        unfold available at hproceeds
        refine ⟨hreserved, (sub_zero _).symm, ?_, h.credits⟩
        show b.core.blocked - 0 ≤ b.core.cash + (fill.notional - fill.charges)
        linarith
      | tPlus1 =>
        rw [hp] at hsettles
        cases hday : env.calendar.nextTradingDay fill.ts.istDate with
        | error e =>
          rw [hday] at hsettles
          cases hsettles
        | ok day =>
          rw [hday] at hsettles
          cases hsettles
          have hmode : env.sellProceeds ≠ .sameDay := by simp [hp]
          rw [if_neg hmode, add_zero] at hproceeds
          refine ⟨hreserved, (sub_zero _).symm, ?_, fun u hu => ?_⟩
          · show b.core.blocked - 0 ≤ b.core.cash
            linarith
          · rcases List.mem_append.mp hu with hold | hnew
            · exact h.credits u hold
            · rw [List.mem_singleton.mp hnew]
              exact sub_nonneg.mpr hproceeds
  obtain ⟨hrelease, hsettled, hcovered, hcredits⟩ := hspec
  rw [hbooked]
  have hbalance : blocked = b.core.blocked - so.reserved + (so.afterFill s fill).reserved := by
    rw [hblocked, hsettled, hrest]
    split <;> ring
  refine h.set hso rfl ?_ hbalance ?_ hcredits
  · rw [hrest]
    split
    · exact le_rfl
    · linarith
  · show blocked ≤ (settleFill s b.core).cash
    rw [hblocked, hsettled]
    split <;> linarith

theorem init {startingCash : ℚ} (h : 0 ≤ startingCash) : Accounts (init startingCash) where
  reserved_nonneg _ _ h := by cases h
  blocked := rfl
  solvent := h
  credits _ h := by cases h

end Accounts

/-- The funds reported are valid and add up to the broker's money. -/
theorem getFunds_spec {S : Type} {w : World SimulatedBroker S} (h : w.broker.Accounts)
    (now : Instant) :
    ∃ funds, getFunds now w = .ok funds (w.mapBroker (.settle now.istDate)) ∧
      funds.availableCash + funds.blocked + funds.unsettledCredit = w.broker.core.money := by
  have hsettled := h.settle now.istDate
  obtain ⟨cash, unsettled, heq, hmoney, -⟩ := w.broker.settle_spec now.istDate
  unfold getFunds
  rw [Effect.run_bind_ok (Effect.run_modify _ _), Effect.run_bind_ok (Effect.run_get _)]
  refine ⟨_, congrFun (dif_pos ⟨hsettled.blocked_nonneg, hsettled.unsettled_nonneg⟩) _, ?_⟩
  have havailable : 0 ≤ (w.broker.settle now.istDate).available := sub_nonneg.mpr hsettled.solvent
  show max 0 (w.broker.settle now.istDate).available + (w.broker.settle now.istDate).core.blocked +
    ((w.broker.settle now.istDate).core.unsettled.map Unsettled.amount).sum = _
  rw [max_eq_right havailable, available, sub_add_cancel, heq]
  exact hmoney

end SimulatedBroker

end RakshaQuant
