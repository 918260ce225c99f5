import RakshaQuant.Brokers.Simulated.Prices

/-! The brokerage of an order. The schedule's cap is per executed order, but it is applied to
each fill alone, and an order that is filled in pieces pays it again with each of them. What
an order pays is within the cap exactly where its percentage is, or where one fill takes the
cap and the others together at most what a paisa of rounding leaves. -/

namespace RakshaQuant

/-! ## Capped sums -/

/-- A sum of capped amounts is within a bound where the amounts are, or one of them takes
the cap and the others what is left. -/
theorem sum_min_le_iff {cap bound : ℚ} (l : List ℚ) :
    (l.map fun r => min r cap).sum ≤ bound ↔ l.sum ≤ bound ∨ ∃ xs r ys, l = xs ++ r :: ys ∧
      cap ≤ r ∧ ((xs ++ ys).map fun r => min r cap).sum ≤ bound - cap := by
  have hsplit : ∀ xs r ys, cap ≤ r → ((xs ++ r :: ys).map fun r => min r cap).sum =
      cap + ((xs ++ ys).map fun r => min r cap).sum := by
    intro xs r ys hr
    simp only [List.map_append, List.map_cons, List.sum_append, List.sum_cons, min_eq_right hr]
    ring
  constructor
  · intro h
    by_cases hreached : ∃ r ∈ l, cap ≤ r
    · obtain ⟨r, hr, hle⟩ := hreached
      obtain ⟨xs, ys, rfl⟩ := List.append_of_mem hr
      rw [hsplit xs r ys hle] at h
      exact .inr ⟨xs, r, ys, rfl, hle, by linarith⟩
    · have hsame : (l.map fun r => min r cap) = l := by
        conv_rhs => rw [← List.map_id' l]
        refine List.map_congr_left fun r hr => min_eq_left ?_
        exact le_of_not_ge fun hle => hreached ⟨r, hr, hle⟩
      rw [hsame] at h
      exact .inl h
  · rintro (h | ⟨xs, r, ys, rfl, hle, h⟩)
    · refine le_trans ?_ h
      conv_rhs => rw [← List.map_id' l]
      exact List.sum_le_sum fun r _ => min_le_left r cap
    · rw [hsplit xs r ys hle]
      linarith

/-! ## The brokerage of a fill -/

namespace ProductRates

/-- The percentage of a fill, to the paisa. -/
def percentage (rates : ProductRates) (notional : ℚ) : ℚ :=
  Decimal.quantizeHalfUp (1 / 100) (notional * rates.brokeragePct / 100)

/-- The cap, to the paisa. -/
def cap (rates : ProductRates) : ℚ := Decimal.quantizeHalfUp (1 / 100) rates.brokerageCapInr

/-- An order that is executed in fills of these notionals: its percentage is within the cap,
a paisa of rounding allowed, or one fill takes the cap and the others what is left of that. -/
def Moderate (rates : ProductRates) (notionals : List ℚ) : Prop :=
  (notionals.map rates.percentage).sum ≤ rates.brokerageCapInr + 1 / 100 ∨
    ∃ xs notional ys, notionals = xs ++ notional :: ys ∧ rates.cap ≤ rates.percentage notional ∧
      ((xs ++ ys).map fun n => min (rates.percentage n) rates.cap).sum ≤
        rates.brokerageCapInr + 1 / 100 - rates.cap

end ProductRates

/-- The brokerage in a fill's breakdown. -/
def Fill.brokerage (f : Fill) : ℚ := (f.chargesBreakdown.lookup "brokerage").getD 0

/-- Components of zero are left out of the breakdown. -/
theorem ChargeBreakdown.lookup_brokerage (c : ChargeBreakdown) :
    ((c.asDict.filter fun component => 0 < component.2).lookup "brokerage").getD 0 =
      (c.brokerage : ℚ) := by
  have hothers : ∀ l : List (String × ℚ), (∀ e ∈ l, e.1 ≠ "brokerage") →
      (l.filter fun component => 0 < component.2).lookup "brokerage" = none := by
    intro l hl
    refine List.lookup_eq_none_iff.mpr fun e he => ?_
    have hne := hl e (List.mem_of_mem_filter he)
    simpa using Ne.symm hne
  unfold asDict
  by_cases hpos : (0 : ℚ) < c.brokerage
  · rw [List.filter_cons_of_pos (by simpa using hpos), List.lookup_cons_self, Option.getD_some]
  · rw [List.filter_cons_of_neg (by simpa using hpos), hothers _ (by simp), Option.getD_none]
    exact (le_antisymm (not_lt.mp hpos) c.brokerage.2).symm

/-- The lower of percentage and cap, to the paisa. -/
theorem NSECostSchedule.charges_brokerage {s : NSECostSchedule} {product : Product} {side : Side}
    {notional : ℚ} {dpApplies : Bool} {c : ChargeBreakdown} {rates : ProductRates}
    (h : s.charges product side notional dpApplies = .ok c) (hpos : 0 < notional)
    (hrates : s.products product = some rates) (hcap : 0 < rates.brokerageCapInr) :
    (c.brokerage : ℚ) = min (rates.percentage notional) rates.cap := by
  unfold NSECostSchedule.charges at h
  rw [dif_neg (not_lt.mpr hpos.le), if_neg hpos.ne', hrates] at h
  dsimp only at h
  rw [if_pos hcap] at h
  cases h
  have hrate : (0 : ℚ) ≤ rates.brokeragePct := NNRat.coe_nonneg _
  have hpct : 0 ≤ notional * rates.brokeragePct / 100 :=
    div_nonneg (mul_nonneg hpos.le hrate) (by norm_num)
  have hfixed : (0 : ℚ) ≤ rates.brokerageCapInr := NNRat.coe_nonneg _
  have hmono : ∀ {x y : ℚ}, 0 ≤ x → x ≤ y → Decimal.quantizeHalfUp (1 / 100) x ≤
      Decimal.quantizeHalfUp (1 / 100) y := Decimal.quantizeHalfUp_mono (by norm_num)
  have hvalue : ∀ x : ℚ≥0, ((paise x : ℚ≥0) : ℚ) = Decimal.quantizeHalfUp (1 / 100) x :=
    fun _ => rfl
  rw [hvalue, NNRat.coe_min]
  show Decimal.quantizeHalfUp (1 / 100)
    (min (notional * rates.brokeragePct / 100) rates.brokerageCapInr) = _
  unfold ProductRates.percentage ProductRates.cap
  rcases le_total (notional * rates.brokeragePct / 100) (rates.brokerageCapInr : ℚ) with hle | hle
  · rw [min_eq_left hle, min_eq_left (hmono hpct hle)]
  · rw [min_eq_right hle, min_eq_right (hmono hfixed hle)]

namespace SimulatedBroker

variable {env : SimEnv} {b b' : SimulatedBroker}

/-- What an order was charged as brokerage. -/
def brokerageOf (b : SimulatedBroker) (boid : String) : ℚ :=
  ((b.fillsOf boid).map Fill.brokerage).sum

/-- What the fills of an order were worth. -/
def notionalsOf (b : SimulatedBroker) (boid : String) : List ℚ := (b.fillsOf boid).map Fill.notional

/-- Every fill is charged by the schedule, for the product and the side of its order. -/
def Billed (env : SimEnv) (b : SimulatedBroker) : Prop :=
  ∀ f ∈ b.fills, ∃ boid so dpApplies charges, b.orders.get? boid = some so ∧
    f.brokerOrderId = some boid ∧
    env.costs.charges so.product so.side f.notional dpApplies = .ok charges ∧
    f.chargesBreakdown = charges.asDict.filter fun c => 0 < c.2

/-- Orders are kept, for the product and the side they were. -/
def KeepsTerms (b b' : SimulatedBroker) : Prop :=
  ∀ boid so, b.orders.get? boid = some so →
    ∃ so', b'.orders.get? boid = some so' ∧ so'.product = so.product ∧ so'.side = so.side

theorem KeepsTerms.refl (b : SimulatedBroker) : KeepsTerms b b :=
  fun _ so h => ⟨so, h, rfl, rfl⟩

theorem KeepsTerms.set {boid : String} {so c : SimOrder} (hso : b.orders.get? boid = some so)
    (horders : b'.orders = b.orders.set boid c) (hproduct : c.product = so.product)
    (hside : c.side = so.side) : KeepsTerms b b' := by
  intro k o ho
  rw [horders, Dict.get?_set]
  by_cases hk : k = boid
  · subst hk
    obtain rfl := Option.some.inj (hso.symm.trans ho)
    exact ⟨c, by rw [if_pos rfl], hproduct, hside⟩
  · exact ⟨o, by rw [if_neg hk, ho], rfl, rfl⟩

theorem Billed.mono (h : Billed env b) (hkeeps : KeepsTerms b b') {fills : List Fill}
    (hfills : b'.fills = b.fills ++ fills)
    (hnew : ∀ f ∈ fills, ∃ boid so, b.orders.get? boid = some so ∧ ∃ quote left,
      so.brokerOrderId = boid ∧ Execution env so quote left f) : Billed env b' := by
  have hkept : ∀ {f : Fill}, (∃ boid so dpApplies charges, b.orders.get? boid = some so ∧
      f.brokerOrderId = some boid ∧
      env.costs.charges so.product so.side f.notional dpApplies = .ok charges ∧
      f.chargesBreakdown = charges.asDict.filter fun c => 0 < c.2) →
      ∃ boid so dpApplies charges, b'.orders.get? boid = some so ∧ f.brokerOrderId = some boid ∧
        env.costs.charges so.product so.side f.notional dpApplies = .ok charges ∧
        f.chargesBreakdown = charges.asDict.filter fun c => 0 < c.2 := by
    rintro f ⟨boid, so, dpApplies, charges, hso, hof, hcharges, hbreakdown⟩
    obtain ⟨so', hso', hproduct, hside⟩ := hkeeps boid so hso
    exact ⟨boid, so', dpApplies, charges, hso', hof, by rw [hproduct, hside]; exact hcharges,
      hbreakdown⟩
  intro f hf
  rw [hfills, List.mem_append] at hf
  rcases hf with hold | hadded
  · exact hkept (h f hold)
  · obtain ⟨boid, so, hso, quote, left, hid, hmade⟩ := hnew f hadded
    obtain ⟨-, -, -, dpApplies, charges, hcharges, rfl⟩ := hmade
    exact hkept ⟨boid, so, dpApplies, charges, hso, by rw [← hid]; rfl, hcharges, rfl⟩

/-- An order with no more charged than the cap, and what its fills were worth. -/
theorem Billed.capped_iff (h : Billed env b) {boid : String} {so : SimOrder} {rates : ProductRates}
    (hso : b.orders.get? boid = some so) (hrates : env.costs.products so.product = some rates)
    (hcap : 0 < rates.brokerageCapInr) :
    b.brokerageOf boid ≤ rates.brokerageCapInr + 1 / 100 ↔ rates.Moderate (b.notionalsOf boid) := by
  have hfill : ∀ f ∈ b.fillsOf boid,
      f.brokerage = min (rates.percentage f.notional) rates.cap := by
    intro f hf
    obtain ⟨hmem, hof⟩ := List.mem_filter.mp hf
    obtain ⟨boid', so', dpApplies, charges, hso', hof', hcharges, hbreakdown⟩ := h f hmem
    obtain rfl : boid' = boid :=
      Option.some.inj (hof'.symm.trans (of_decide_eq_true hof))
    obtain rfl := Option.some.inj (hso.symm.trans hso')
    have hquantity : (0 : ℚ) < f.quantity := by exact_mod_cast f.quantity_pos
    have hpos : 0 < f.notional := mul_pos f.price_pos hquantity
    rw [Fill.brokerage, hbreakdown, ChargeBreakdown.lookup_brokerage,
      NSECostSchedule.charges_brokerage hcharges hpos hrates hcap]
  have hsum : b.brokerageOf boid =
      (((b.notionalsOf boid).map rates.percentage).map fun r => min r rates.cap).sum := by
    unfold brokerageOf notionalsOf
    rw [List.map_map, List.map_map, List.map_congr_left hfill]
    rfl
  rw [hsum, sum_min_le_iff]
  unfold ProductRates.Moderate
  constructor
  · rintro (hsmall | ⟨xs, r, ys, hsplit, hreached, hrest⟩)
    · exact .inl hsmall
    · obtain ⟨xs', l, hl, rfl, htail⟩ := List.map_eq_append_iff.mp hsplit
      obtain ⟨n, ys', rfl, rfl, rfl⟩ := List.map_eq_cons_iff.mp htail
      refine .inr ⟨xs', n, ys', hl, hreached, ?_⟩
      rw [← List.map_append, List.map_map] at hrest
      exact hrest
  · rintro (hsmall | ⟨xs, n, ys, hsplit, hreached, hrest⟩)
    · exact .inl hsmall
    · refine .inr ⟨xs.map rates.percentage, rates.percentage n, ys.map rates.percentage, ?_,
        hreached, ?_⟩
      · rw [hsplit, List.map_append, List.map_cons]
      · rw [← List.map_append, List.map_map]
        exact hrest

theorem KeepsTerms.trans {b'' : SimulatedBroker} (h : KeepsTerms b b') (h' : KeepsTerms b' b'') :
    KeepsTerms b b'' := by
  intro boid so hso
  obtain ⟨so', hso', hproduct, hside⟩ := h boid so hso
  obtain ⟨so'', hso'', hproduct', hside'⟩ := h' boid so' hso'
  exact ⟨so'', hso'', hproduct'.trans hproduct, hside'.trans hside⟩

theorem keepsTerms_modify {S : Type} (env : SimEnv) (hooks : Hooks S) (now : Instant)
    (boid : String) (qty : Option ℤ) (price trigger : Option ℚ) (w : World SimulatedBroker S) :
    KeepsTerms w.broker (modifyOrder env hooks now boid qty price trigger w).state.broker := by
  refine modifyOrder_cases hooks (P := fun w' => KeepsTerms w.broker w'.broker) (.refl _) ?_ ?_
  · intro so instrument haccepts _
    exact .set (c := so.withTrigger trigger) haccepts.held rfl rfl rfl
  · intro so instrument haccepts _
    obtain ⟨horders, -⟩ := amendedWorld_broker hooks boid (so.amended qty trigger now) now w
    obtain ⟨hside, -, hproduct, -⟩ := settled_terms (so.amended qty trigger now) now
    exact .set haccepts.held horders hproduct hside

end SimulatedBroker

namespace PublicOp

open SimulatedBroker

variable {S : Type} (env : SimEnv) (hooks : Hooks S)

theorem keepsTerms_after {startingCash : ℚ} {w : World SimulatedBroker S} (op : PublicOp)
    (h : Sound env startingCash w.broker) : KeepsTerms w.broker (op.after env hooks w).broker := by
  cases op with
  | call op =>
    have hboth := Effect.invariant (I := fun w' => Sound env startingCash w'.broker ∧
      KeepsTerms w.broker w'.broker) ?_ (op.after_steps env hooks (op.allows_any env hooks w))
      ⟨h, .refl _⟩
    · exact hboth.2
    · intro v v' hstep hv
      have hchange := hstep.change hv.1.conserves.reserved_nonneg
      refine ⟨hchange.sound hv.1, hv.2.trans fun boid so hso => ?_⟩
      obtain ⟨so', hso', hsame⟩ := hchange.order_kept hv.1.registered hso
      exact ⟨so', hso', hsame.product, hsame.side⟩
  | modifyOrder now boid qty price trigger =>
    exact keepsTerms_modify env hooks now boid qty price trigger w

theorem run_billed {startingCash : ℚ} {w : World SimulatedBroker S} (ops : List PublicOp)
    (h : Sound env startingCash w.broker) (hticks : TriggersOnTick env w.broker)
    (hbilled : Billed env w.broker) : Billed env (run env hooks w ops).broker := by
  induction ops generalizing w with
  | nil => exact hbilled
  | cons op rest ih =>
    obtain ⟨hsound, honTick⟩ := after_sound env hooks op h hticks
    obtain ⟨fills, hfills, hmade⟩ := after_fills env hooks op w
    refine ih hsound honTick (hbilled.mono (keepsTerms_after env hooks op h) hfills ?_)
    intro f hf
    obtain ⟨quote, boid, so, left, -, hso, -, hexecution⟩ := hmade f hf
    exact ⟨boid, so, hso, quote, left, (h.registered.ids boid so hso).1, hexecution⟩

/-- **The brokerage of an order is within the cap** exactly where its fills are moderate: in
every state a run leads to, the brokerage of all fills of an order whose product has a cap is
at most the cap and a paisa, if and only if the percentage is, or one fill takes the cap and
the others together what a paisa leaves. -/
theorem brokerage_capped_iff (startingCash : ℚ) (desk : S) (ops : List PublicOp) (boid : String)
    (so : SimOrder) (rates : ProductRates) :
    let b := (run env hooks ⟨.init startingCash, desk⟩ ops).broker
    b.orders.get? boid = some so → env.costs.products so.product = some rates →
      0 < rates.brokerageCapInr →
      (b.brokerageOf boid ≤ rates.brokerageCapInr + 1 / 100 ↔
        rates.Moderate (b.notionalsOf boid)) := by
  intro b hso hrates hcap
  have hticks : TriggersOnTick env (SimulatedBroker.init startingCash) := fun _ _ h => by cases h
  have hnone : Billed env (SimulatedBroker.init startingCash) := fun _ h => by cases h
  have hbilled : Billed env b := run_billed env hooks (w := ⟨.init startingCash, desk⟩) ops
    (Sound.init env startingCash) hticks hnone
  exact hbilled.capped_iff hso hrates hcap

end PublicOp

/-! ## An order in two large fills -/

namespace Sample

/-- Three basis points, twenty rupees at most, and nothing else. -/
def intradayRates : ProductRates := ⟨(3 : ℕ) / (100 : ℕ), (20 : ℕ), 0, 0, 0, 0⟩

def intradayMarket : SimEnv :=
  { market with costs := { NSECostSchedule.zero with products := fun _ => some intradayRates } }

theorem lot_pos : (0 : ℤ) < 2000 := by decide

theorem twoThousand_nonneg : (0 : ℤ) ≤ 2000 := by decide

/-- Two thousand shares are bought intraday, a thousand on each of two quotes. -/
def splitOrder : List PublicOp :=
  [.call (.onQuote (quote 0 0 zero_nonneg)),
    .call (.placeOrder (clock 1) (OMS.newOrder config { entry with product := .mis }
      ⟨2000, lot_pos⟩ (clock 1))),
    .call (.onQuote (quote 2 1000 thousand_nonneg)),
    .call (.onQuote (quote 3 2000 twoThousand_nonneg))]

/-- After the first of the two quotes. -/
def halfOrder : List PublicOp := splitOrder.take 3

def intraday (ops : List PublicOp) : SimulatedBroker :=
  (PublicOp.run intradayMarket unheard ⟨.init 500000, ()⟩ ops).broker

theorem splitOrder_held : ((intraday splitOrder).orders.get? "SIM-main-000001").isSome = true ∧
    (intraday splitOrder).brokerageOf "SIM-main-000001" = 40 := by
  decide +kernel

theorem halfOrder_held : ((intraday halfOrder).orders.get? "SIM-main-000001").isSome = true ∧
    (intraday halfOrder).notionalsOf "SIM-main-000001" = [100050] := by
  decide +kernel

end Sample

namespace PublicOp

open SimulatedBroker

/-- One fill is charged the cap. -/
theorem brokerage_capped_half : (Sample.intraday Sample.halfOrder).brokerageOf "SIM-main-000001" ≤
    20 + 1 / 100 := by
  obtain ⟨hheld, hnotionals⟩ := Sample.halfOrder_held
  obtain ⟨so, hso⟩ := Option.isSome_iff_exists.mp hheld
  refine (brokerage_capped_iff Sample.intradayMarket Sample.unheard 500000 () Sample.halfOrder
    "SIM-main-000001" so Sample.intradayRates hso rfl (by decide +kernel)).mpr ?_
  have hone : (run Sample.intradayMarket Sample.unheard ⟨.init 500000, ()⟩
      Sample.halfOrder).broker.notionalsOf "SIM-main-000001" = [100050] := hnotionals
  rw [hone]
  exact .inr ⟨[], 100050, [], rfl, by decide +kernel, by decide +kernel⟩

/-- Two fills are each charged the cap. -/
theorem brokerage_capped_twice :
    ¬∀ (S : Type) (env : SimEnv) (hooks : Hooks S) (startingCash : ℚ) (desk : S)
      (ops : List PublicOp) (boid : String) (so : SimOrder) (rates : ProductRates),
      let b := (run env hooks ⟨.init startingCash, desk⟩ ops).broker
      b.orders.get? boid = some so → env.costs.products so.product = some rates →
        0 < rates.brokerageCapInr → b.brokerageOf boid ≤ rates.brokerageCapInr + 1 / 100 := by
  intro h
  obtain ⟨hheld, hbrokerage⟩ := Sample.splitOrder_held
  obtain ⟨so, hso⟩ := Option.isSome_iff_exists.mp hheld
  have hcapped := h Unit Sample.intradayMarket Sample.unheard 500000 () Sample.splitOrder
    "SIM-main-000001" so Sample.intradayRates hso rfl (by decide +kernel)
  have hforty : (run Sample.intradayMarket Sample.unheard ⟨.init 500000, ()⟩
      Sample.splitOrder).broker.brokerageOf "SIM-main-000001" = 40 := hbrokerage
  rw [hforty] at hcapped
  exact absurd hcapped (by decide +kernel)

end PublicOp

end RakshaQuant
