import RakshaQuant.Brokers.Simulated.Amendments

/-! Runs with modifications. The books add up whatever a modification sets; that no delivery
position turns short is only kept while every modification is one the broker would take. -/

namespace RakshaQuant

namespace SimulatedBroker

variable {S : Type} {env : SimEnv} {w : World SimulatedBroker S} {boid : String} {so : SimOrder}
  {instrument : Instrument} {qty : Option ℤ} {price trigger : Option ℚ} {now : Instant}
  {startingCash : ℚ}

/-- A rewritten order is for what it was for, but for how much. -/
theorem Sound.rewrite {b b' : SimulatedBroker} (h : Sound env startingCash b) {c : SimOrder}
    (hso : b.orders.get? boid = some so) (hid : c.brokerOrderId = so.brokerOrderId)
    (hkey : c.instrumentKey = so.instrumentKey) (hproduct : c.product = so.product)
    (hfilled : c.filledQty = so.filledQty) (hnotional : c.filledNotional = so.filledNotional)
    (hwithin : c.filledQty ≤ c.quantity) (hreserved : 0 ≤ c.reserved)
    (hended : c.status.isLive = false → c.reserved = 0)
    (horders : b'.orders = b.orders.set boid c) (hfills : b'.fills = b.fills)
    (hcore : b'.core = { b.core with blocked := b.core.blocked - so.reserved + c.reserved }) :
    Sound env startingCash b' ∧ ∀ f ∈ b.fills, b'.productOf f = b.productOf f := by
  have hset : ∀ k o, b.orders.get? k = some o → ∃ o', b'.orders.get? k = some o' ∧
      o'.instrumentKey = o.instrumentKey ∧ o'.product = o.product := by
    intro k o ho
    rw [horders, Dict.get?_set]
    by_cases hk : k = boid
    · subst hk
      obtain rfl := Option.some.inj (hso.symm.trans ho)
      exact ⟨c, by rw [if_pos rfl], hkey, hproduct⟩
    · exact ⟨o, by rw [if_neg hk, ho], rfl, rfl⟩
  have hproducts : ∀ f ∈ b.fills, b'.productOf f = b.productOf f := by
    intro f hf
    obtain ⟨k, o, ho, hof, -⟩ := h.registered.made f hf
    obtain ⟨o', ho', -, hsame⟩ := hset k o ho
    simp [productOf, hof, ho, ho', hsame]
  refine ⟨⟨⟨?_, ?_⟩, ?_, ?_⟩, hproducts⟩
  · intro k o ho
    rw [horders, Dict.get?_set_iff] at ho
    rw [hcore]
    rcases ho with ⟨rfl, rfl⟩ | ⟨-, hold⟩
    · rw [hid]
      exact h.registered.ids k so hso
    · exact h.registered.ids k o hold
  · intro f hf
    rw [hfills] at hf
    obtain ⟨k, o, ho, hof, hmade⟩ := h.registered.made f hf
    obtain ⟨o', ho', hsame, -⟩ := hset k o ho
    exact ⟨k, o', ho', hof, hmade.trans hsame.symm⟩
  · rw [hcore]
    exact h.flat
  · refine h.conserves.rewrite hproducts hso hfilled hnotional hwithin hreserved hended horders
      hfills ?_ ?_ ?_
    · rw [hcore]
    · rw [hcore]
      rfl
    · rw [hcore]

/-- What a call that raised may have left: the new trigger. -/
theorem Sound.withTrigger (h : Sound env startingCash w.broker)
    (held : w.broker.orders.get? boid = some so) (trigger : Option ℚ) :
    Sound env startingCash (w.broker.setOrder boid (so.withTrigger trigger)) := by
  have hcore : (w.broker.setOrder boid (so.withTrigger trigger)).core = { w.broker.core with
      blocked := w.broker.core.blocked - so.reserved + (so.withTrigger trigger).reserved } := by
    show w.broker.core = _
    rw [show (so.withTrigger trigger).reserved = so.reserved from rfl, sub_add_cancel]
  have horders : (w.broker.setOrder boid (so.withTrigger trigger)).orders =
      w.broker.orders.set boid (so.withTrigger trigger) := rfl
  exact (h.rewrite held (c := so.withTrigger trigger) rfl rfl rfl rfl rfl
    (h.conserves.within boid so held) (h.conserves.reserved_nonneg boid so held)
    (h.conserves.reserved_ended boid so held) horders rfl hcore).1

/-- What an accepted call leaves. -/
theorem Sound.amended (h : Sound env startingCash w.broker) (hooks : Hooks S) (now : Instant)
    (haccepts : Accepts env w.broker boid price trigger so instrument)
    (hqty : ¬so.refusesQty instrument qty) :
    let w' := amendedWorld hooks boid (so.amended qty trigger now) now w
    Sound env startingCash w'.broker ∧
      ∀ f ∈ w.broker.fills, w'.broker.productOf f = w.broker.productOf f := by
  intro w'
  have held := haccepts.held
  obtain ⟨horders, -, hfills, -, hcore⟩ :=
    amendedWorld_broker hooks boid (so.amended qty trigger now) now w
  obtain ⟨-, hquantity, hproduct, hkey, -, hfilled⟩ :=
    settled_terms (so.amended qty trigger now) now
  have hwithin : so.filledQty ≤ qty.getD so.quantity := by
    cases hq : qty with
    | none => exact h.conserves.within boid so held
    | some q =>
      by_contra hless
      exact hqty ⟨q, hq, .inl (not_le.mp hless)⟩
  have hsettled : (settled (so.amended qty trigger now) now).brokerOrderId = so.brokerOrderId ∧
      (settled (so.amended qty trigger now) now).filledNotional = so.filledNotional ∧
      0 ≤ (settled (so.amended qty trigger now) now).reserved ∧
      ((settled (so.amended qty trigger now) now).status.isLive = false →
        (settled (so.amended qty trigger now) now).reserved = 0) := by
    have hreserved := h.conserves.reserved_nonneg boid so held
    unfold settled
    split
    · exact ⟨rfl, rfl, le_rfl, fun _ => rfl⟩
    · exact ⟨rfl, rfl, hreserved, h.conserves.reserved_ended boid so held⟩
  refine h.rewrite held hsettled.1 hkey hproduct hfilled hsettled.2.1 ?_ hsettled.2.2.1
    hsettled.2.2.2 horders hfills hcore
  rw [hfilled, hquantity]
  exact hwithin

/-- Fills that stay, of the products they were of, are not turned round later. -/
theorem NeverFlipped.same {b b' : SimulatedBroker} (h : NeverFlipped b)
    (hfills : b'.fills = b.fills) (hproducts : ∀ f ∈ b.fills, b'.productOf f = b.productOf f) :
    NeverFlipped b' := by
  intro xs f ys hsplit hcnc
  rw [hfills] at hsplit
  have hmem : ∀ g ∈ xs, g ∈ b.fills := by
    intro g hg
    rw [hsplit]
    exact List.mem_append_left _ hg
  have hf : f ∈ b.fills := by
    rw [hsplit]
    exact List.mem_append_right _ List.mem_cons_self
  rw [List.filter_congr fun g hg => by rw [hproducts g (hmem g hg)]]
  exact h xs f ys hsplit ((hproducts f hf).symm.trans hcnc)

/-- A call conserves, whether it is amendable or not. -/
theorem Sound.modify (h : Sound env startingCash w.broker) (hooks : Hooks S) (now : Instant)
    (boid : String) (qty : Option ℤ) (price trigger : Option ℚ) :
    Sound env startingCash (modifyOrder env hooks now boid qty price trigger w).state.broker := by
  refine modifyOrder_cases hooks (P := fun w' => Sound env startingCash w'.broker) h ?_ ?_
  · intro so instrument haccepts _
    exact h.withTrigger haccepts.held trigger
  · intro so instrument haccepts hqty
    exact (h.amended hooks now haccepts hqty).1

/-- An amendable call leaves no delivery position to turn short. -/
theorem Covered.modify (hs : Sound env startingCash w.broker) (hc : Covered w.broker)
    (hn : NeverFlipped w.broker) (hooks : Hooks S) (now : Instant)
    (h : Amendable env w.broker boid qty price trigger) :
    Covered (modifyOrder env hooks now boid qty price trigger w).state.broker ∧
      NeverFlipped (modifyOrder env hooks now boid qty price trigger w).state.broker := by
  by_cases hcall : ∃ so instrument, Accepts env w.broker boid price trigger so instrument
  · obtain ⟨so, instrument, haccepts⟩ := hcall
    obtain ⟨hrefused, hallowed⟩ := h so instrument haccepts
    by_cases hqty : so.refusesQty instrument qty
    · obtain ⟨e, he⟩ := modifyOrder_of_refusesQty hooks now haccepts hqty
      have hkept : so.withTrigger trigger = so := by
        unfold SimOrder.withTrigger
        rw [hrefused hqty]
      rw [he, hkept, World.mapBroker, setOrder_self haccepts.held]
      exact ⟨hc, hn⟩
    · obtain ⟨a, ha⟩ := modifyOrder_of_accepted hooks now haccepts hqty
      obtain ⟨-, hproducts⟩ := hs.amended hooks now haccepts hqty
      obtain ⟨-, -, hfills, -, hcore⟩ :=
        amendedWorld_broker hooks boid (so.amended qty trigger now) now w
      rw [ha]
      refine ⟨fun instrumentKey => ?_, hn.same hfills hproducts⟩
      have hheld := hc instrumentKey
      have hpending := pendingSales_nonneg hs instrumentKey
      have hquantity : (amendedWorld hooks boid (so.amended qty trigger now) now
          w).broker.core.quantity instrumentKey .cnc = w.broker.core.quantity instrumentKey .cnc := by
        rw [hcore]
        rfl
      show (amendedWorld hooks boid _ now w).broker.pendingSales instrumentKey ≤ _
      rw [pendingSales_amended haccepts]
      show _ ≤ (amendedWorld hooks boid _ now w).broker.core.quantity instrumentKey .cnc
      rw [hquantity]
      by_cases hsale : so.instrumentKey = instrumentKey ∧ so.product = .cnc ∧ so.side = .sell
      · obtain ⟨rfl, hcnc, hsell⟩ := hsale
        have hfits : _ ≤ max 0 (w.broker.core.quantity so.instrumentKey .cnc) -
          w.broker.pendingSales so.instrumentKey := (hallowed hqty).held hcnc hsell
        rw [max_eq_right (hpending.trans hheld)] at hfits
        rw [if_pos ⟨rfl, hcnc, hsell⟩]
        omega
      · rw [if_neg hsale]
        omega
  · obtain ⟨e, he⟩ := modifyOrder_of_not_accepts env hooks now boid qty price trigger w
      fun so instrument h => hcall ⟨so, instrument, h⟩
    rw [he]
    exact ⟨hc, hn⟩

end SimulatedBroker

namespace PublicOp

open SimulatedBroker

variable {S : Type} (env : SimEnv) (hooks : Hooks S)

/-- The modifications of a run are all amendable where they are called. -/
def Amends (w : World SimulatedBroker S) : List PublicOp → Prop
  | [] => True
  | call op :: rest => Amends (after env hooks w (call op)) rest
  | modifyOrder now boid qty price trigger :: rest =>
    Amendable env w.broker boid qty price trigger ∧
      Amends (after env hooks w (modifyOrder now boid qty price trigger)) rest

theorem after_sound {startingCash : ℚ} {w : World SimulatedBroker S} (op : PublicOp)
    (h : Sound env startingCash w.broker) (hticks : TriggersOnTick env w.broker) :
    Sound env startingCash (after env hooks w op).broker ∧
      TriggersOnTick env (after env hooks w op).broker := by
  cases op with
  | call op =>
    refine Effect.invariant (I := fun w => Sound env startingCash w.broker ∧
      TriggersOnTick env w.broker) ?_ (op.after_steps env hooks (op.allows_any env hooks w))
      ⟨h, hticks⟩
    intro v v' hstep hv
    exact ⟨(hstep.change hv.1.conserves.reserved_nonneg).sound hv.1, hv.2.step hstep⟩
  | modifyOrder now boid qty price trigger =>
    exact ⟨h.modify hooks now boid qty price trigger, hticks.modify⟩

theorem run_sound {startingCash : ℚ} {w : World SimulatedBroker S} (ops : List PublicOp)
    (h : Sound env startingCash w.broker) (hticks : TriggersOnTick env w.broker) :
    Sound env startingCash (run env hooks w ops).broker ∧
      TriggersOnTick env (run env hooks w ops).broker := by
  induction ops generalizing w with
  | nil => exact ⟨h, hticks⟩
  | cons op rest ih =>
    obtain ⟨hsound, honTick⟩ := after_sound env hooks op h hticks
    exact ih hsound honTick

/-- No delivery position turns short while every modification is amendable. -/
theorem run_covered {startingCash : ℚ} {w : World SimulatedBroker S} (ops : List PublicOp)
    (h : Sound env startingCash w.broker) (hc : Covered w.broker) (hn : NeverFlipped w.broker)
    (hamends : Amends env hooks w ops) :
    Covered (run env hooks w ops).broker ∧ NeverFlipped (run env hooks w ops).broker := by
  induction ops generalizing w with
  | nil => exact ⟨hc, hn⟩
  | cons op rest ih =>
    cases op with
    | call op =>
      have hlaws := Effect.invariant (I := fun w => Sound env startingCash w.broker ∧
        Covered w.broker ∧ NeverFlipped w.broker) ?_
        (op.after_steps env hooks (op.allows_any env hooks w)) ⟨h, hc, hn⟩
      · exact ih hlaws.1 hlaws.2.1 hlaws.2.2 hamends
      · intro v v' hstep hv
        have hchange := hstep.change hv.1.conserves.reserved_nonneg
        exact ⟨hchange.sound hv.1, hchange.covered hv.1 hv.2.1,
          hchange.neverFlipped hv.1 hv.2.1 hv.2.2⟩
    | modifyOrder now boid qty price trigger =>
      obtain ⟨hcovered, hnever⟩ := hc.modify h hn hooks now hamends.1
      exact ih (h.modify hooks now boid qty price trigger) hcovered hnever hamends.2

/-- **Modifications are atomic** exactly where they are amendable: in every state a run leads
to a call is all or nothing, and leaves an order the broker would take, if and only if it is
amendable. The books add up in any case, and while all calls are amendable no delivery
position is claimed beyond what is held, or turned short by a fill. -/
theorem modifyOrder_atomic (startingCash : ℚ) (desk : S) (ops : List PublicOp) :
    let w := run env hooks ⟨.init startingCash, desk⟩ ops
    (∀ now boid qty price trigger,
      Atomic env boid w (SimulatedBroker.modifyOrder env hooks now boid qty price trigger w) ↔
        Amendable env w.broker boid qty price trigger) ∧
      Conserves startingCash w.broker ∧
      (Amends env hooks ⟨.init startingCash, desk⟩ ops → Covered w.broker ∧ NeverFlipped w.broker) := by
  intro w
  have hticks : TriggersOnTick env (SimulatedBroker.init startingCash) := fun _ _ h => by cases h
  have hsound := Sound.init env startingCash
  obtain ⟨hs, ht⟩ := run_sound env hooks (w := ⟨.init startingCash, desk⟩) ops hsound hticks
  refine ⟨fun now boid qty price trigger => ?_, hs.conserves, fun hamends => ?_⟩
  · exact modifyOrder_atomic_iff hs.conserves.within ht
  · refine run_covered env hooks ops hsound (fun _ => le_rfl) ?_ hamends
    intro xs f ys hsplit
    exact absurd hsplit (by simp [SimulatedBroker.init])

end PublicOp

/-! ## A sale that is raised -/

namespace Sample

def deliverySale : List PublicOp :=
  [.call (.onQuote (quote 0 0 zero_nonneg)),
    .call (.placeOrder (clock 1) (shares "I1" .buy ⟨10, ten_pos⟩ 1)),
    .call (.onQuote (quote 2 10 ten_nonneg)),
    .call (.placeOrder (clock 3) (shares "I2" .sell ⟨10, ten_pos⟩ 3))]

/-- The world before the sale is modified. -/
def saleWorld : World SimulatedBroker Unit :=
  PublicOp.run market unheard ⟨.init 100000, ()⟩ deliverySale

/-- The sale of all that is held is live. -/
theorem saleWorld_order : (saleWorld.broker.orders.get? "SIM-main-000002").any (fun so =>
    decide (so.status.isLive = true ∧ so.instrumentKey = infy.key ∧ so.product = .cnc ∧
      so.side = .sell ∧ so.quantity = 10 ∧ so.filledQty = 0 ∧ so.triggerPrice = none)) = true ∧
    saleWorld.broker.availableToSell infy.key = 0 := by
  decide +kernel

theorem market_infy : market.instruments.get? infy.key = some infy := by decide +kernel

/-- The modification of the sale is checked for its quantity. -/
theorem saleWorld_accepts : ∃ so, SimulatedBroker.Accepts market saleWorld.broker
    "SIM-main-000002" none none so infy ∧ so.product = .cnc ∧ so.side = .sell ∧
      so.quantity = 10 ∧ so.filledQty = 0 ∧ so.instrumentKey = infy.key := by
  obtain ⟨hany, -⟩ := saleWorld_order
  cases hso : saleWorld.broker.orders.get? "SIM-main-000002" with
  | none =>
    rw [hso] at hany
    cases hany
  | some so =>
    rw [hso] at hany
    obtain ⟨hlive, hkey, hproduct, hside, hquantity, hfilled, -⟩ := of_decide_eq_true hany
    refine ⟨so, ⟨hso, hlive, rfl, ?_, ?_⟩, hproduct, hside, hquantity, hfilled, hkey⟩
    · rw [hkey]
      exact market_infy
    · rintro ⟨t, ht, -⟩
      cases ht

/-- The sale is halved. -/
theorem halved_amends : PublicOp.Amends market unheard ⟨.init 100000, ()⟩
    (deliverySale ++ [.modifyOrder (clock 4) "SIM-main-000002" (some 5) none none]) := by
  have hamendable : SimulatedBroker.Amendable market saleWorld.broker "SIM-main-000002" (some 5)
      none none := by
    obtain ⟨so, haccepts, hproduct, hside, hquantity, hfilled, hkey⟩ := saleWorld_accepts
    intro so' instrument' haccepts'
    obtain ⟨rfl, rfl⟩ := haccepts.unique (w := saleWorld) haccepts'
    refine ⟨fun _ => rfl, fun _ => ⟨?_, ?_, ?_⟩⟩
    · intro hbuy
      rw [hside] at hbuy
      cases hbuy
    · intro _ _
      rw [hkey, hquantity, saleWorld_order.2]
      decide
    · rintro t - ⟨instrument, quote, band, prevClose, hi, -, hband, -⟩
      rw [hkey, market_infy, Option.some.injEq] at hi
      subst hi
      cases hband
  exact ⟨hamendable, trivial⟩

end Sample

namespace PublicOp

open SimulatedBroker

/-- Nothing is claimed beyond what is held after the sale is halved. -/
theorem modifyOrder_atomic_halved :
    Covered (run Sample.market Sample.unheard ⟨.init 100000, ()⟩ (Sample.deliverySale ++
      [.modifyOrder (Sample.clock 4) "SIM-main-000002" (some 5) none none])).broker :=
  ((modifyOrder_atomic Sample.market Sample.unheard 100000 () _).2.2 Sample.halved_amends).1

/-- A sale of all that is held may be doubled. -/
theorem modifyOrder_oversells :
    ¬∀ (S : Type) (env : SimEnv) (hooks : Hooks S) (startingCash : ℚ) (desk : S)
      (ops : List PublicOp) (now : Instant) (boid : String) (qty : Option ℤ)
      (price trigger : Option ℚ),
      let w := run env hooks ⟨.init startingCash, desk⟩ ops
      Atomic env boid w (SimulatedBroker.modifyOrder env hooks now boid qty price trigger w) := by
  intro h
  obtain ⟨so, haccepts, hproduct, hside, hquantity, hfilled, hkey⟩ := Sample.saleWorld_accepts
  have hqty : ¬so.refusesQty Sample.infy (some 20) := by
    rintro ⟨q, hq, hrefused⟩
    cases hq
    rw [hfilled] at hrefused
    exact absurd hrefused (by decide)
  have hsound := run_sound Sample.market Sample.unheard (w := ⟨.init 100000, ()⟩) Sample.deliverySale
    (Sound.init Sample.market 100000) fun _ _ h => by cases h
  have hatomic := h Unit Sample.market Sample.unheard 100000 () Sample.deliverySale (Sample.clock 4)
    "SIM-main-000002" (some 20) none none
  rw [modifyOrder_atomic_iff hsound.1.conserves.within hsound.2] at hatomic
  have hfits := ((hatomic so Sample.infy haccepts).2 hqty).held hproduct hside
  have hfree : (run Sample.market Sample.unheard ⟨.init 100000, ()⟩
      Sample.deliverySale).broker.availableToSell Sample.infy.key = 0 := Sample.saleWorld_order.2
  rw [hkey, hfree, hquantity] at hfits
  exact absurd hfits (by decide)

end PublicOp

end RakshaQuant
