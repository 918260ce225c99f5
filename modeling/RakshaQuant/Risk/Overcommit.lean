import Mathlib.Algebra.BigOperators.Ring.List
import RakshaQuant.Risk.Batch

/-! Where a batch overcommits. The cash check prices an order with the cost buffer but
earlier approvals without it, and the count of open orders and a strategy's order rate
leave earlier approvals out. A batch keeps these limits exactly when the other checks
refuse every order that these let through. -/

namespace RakshaQuant

open Evaluation

/-! ## The turns of a batch -/

/-- The sizes that every check admits but those of one code. -/
def RiskEngine.AdmissibleBut {Φ : Type} (engine : RiskEngine Φ) (code : ReasonCode)
    (ctx : RiskContext Φ) : Set ℤ :=
  {q | 0 < q ∧ ctx.intent.instrument.lotSize ∣ q ∧ (∀ asked ∈ ctx.requestedQty, q ≤ asked) ∧
    ∀ c ∈ engine.checks, c.code ≠ code → c.appliesTo ctx.intent.kind → Admits (runCheck ctx c) q}

/-- Reserve a size for an order, if there is any. -/
def Reservations.take (r : Reservations) (ctx : RiskContext RiskFacts) (q : ℤ) : Reservations :=
  if 0 < q then r.add ctx q true else r

namespace RiskLimits

variable {limits : RiskLimits} {snapshot : RiskSnapshot} {intent : OrderIntent}
  {r : Reservations} {ctx : RiskContext RiskFacts}

/-- What the checks see of an intent of a batch. -/
def turn (limits : RiskLimits) (snapshot : RiskSnapshot) (r : Reservations)
    (intent : OrderIntent) : RiskContext RiskFacts :=
  RiskFacts.context ⟨snapshot, limits, r⟩ intent intent.quantity

/-- The size the checks leave an order: the largest they admit, or none. -/
def Leaves (limits : RiskLimits) (ctx : RiskContext RiskFacts) (q : ℤ) : Prop :=
  IsGreatest (limits.engine.Admissible ctx) q ∨ limits.engine.Admissible ctx = ∅ ∧ q = 0

/-- Every intent of a batch meets a condition at its turn, when those before it have what
the checks leave them. The condition is on the intents that were given a size and on what
the checks see. -/
def AtTurns (limits : RiskLimits) (snapshot : RiskSnapshot)
    (P : List OrderIntent → RiskContext RiskFacts → Prop) :
    List OrderIntent → Reservations → List OrderIntent → Prop
  | _, _, [] => True
  | given, r, intent :: rest =>
    let ctx := limits.turn snapshot r intent
    P given ctx ∧ ∀ q, limits.Leaves ctx q →
      AtTurns limits snapshot P (if 0 < q then given ++ [intent] else given) (r.take ctx q) rest

/-- The notional cap bounds every opening. -/
theorem bddAbove_admissible (hopens : ctx.intent.kind.reducesRisk = false) :
    BddAbove (limits.engine.Admissible ctx) := by
  refine ⟨⌊ctx.facts.limits.maxPositionInr / ctx.price.getD 1⌋, fun q hq => ?_⟩
  obtain ⟨-, -, hpasses⟩ := (mem_admissible hopens hq.1).mp hq
  obtain ⟨price, distance, hprice, -, -, hlimits⟩ := hpasses.sizeLimits hq.1
  rw [hprice, Option.getD_some, Caps.le_floor_div_iff (ctx.price_pos hprice)]
  exact hlimits.notional_inr

/-- Nothing is approved exactly when the checks admit no size. -/
theorem not_approved_iff (hopens : ctx.intent.kind.reducesRisk = false) :
    ¬ 0 < (limits.engine.evaluate ctx).qtyApproved ↔ limits.engine.Admissible ctx = ∅ := by
  constructor
  · intro hnone
    ext q
    refine ⟨fun hq => ?_, fun hq => absurd hq (Set.notMem_empty q)⟩
    have hle := RiskEngine.le_evaluate hq (bddAbove_admissible hopens)
    have hpos : 0 < q := hq.1
    omega
  · intro hempty hpos
    have hmem : (limits.engine.evaluate ctx).qtyApproved ∈ limits.engine.Admissible ctx :=
      RiskEngine.evaluate_mem hpos rfl
    rw [hempty] at hmem
    exact Set.notMem_empty _ hmem

/-- What the checks leave an opening order is what is approved. -/
theorem leaves_iff (hopens : ctx.intent.kind.reducesRisk = false) {q : ℤ} :
    limits.Leaves ctx q ↔ (limits.engine.evaluate ctx).qtyApproved = q := by
  constructor
  · rintro (hgreatest | ⟨hempty, rfl⟩)
    · exact (RiskEngine.evaluate_iff hgreatest.1.1).mpr hgreatest
    · have hnone := (not_approved_iff hopens).mpr hempty
      exact le_antisymm (not_lt.mp hnone) (RiskDecision.qtyApproved_nonneg _)
  · rintro rfl
    by_cases hpos : 0 < (limits.engine.evaluate ctx).qtyApproved
    · exact .inl ((RiskEngine.evaluate_iff hpos).mp rfl)
    · refine .inr ⟨(not_approved_iff hopens).mp hpos, ?_⟩
      exact le_antisymm (not_lt.mp hpos) (RiskDecision.qtyApproved_nonneg _)

/-- The loop of `evaluate_batch` takes the turns. -/
theorem atTurns_cons {P : List OrderIntent → RiskContext RiskFacts → Prop}
    {given rest : List OrderIntent} (hopens : intent.kind.reducesRisk = false) :
    AtTurns limits snapshot P given r (intent :: rest) ↔
      P given (limits.turn snapshot r intent) ∧
        AtTurns limits snapshot P
          (if (limits.evaluate intent snapshot none r).isApproved then given ++ [intent] else given)
          (r.grant (limits.evaluate intent snapshot none r)) rest := by
  have hleaves : ∀ q, limits.Leaves (limits.turn snapshot r intent) q ↔
      (limits.evaluate intent snapshot none r).approvedQty = q := fun q => leaves_iff hopens
  simp only [AtTurns, hleaves, forall_eq', isApproved, decide_eq_true_eq]
  rfl

end RiskLimits

/-! ## Cash -/

open PortfolioChecks (buyCostBuffer buyCostBuffer_pos)

/-- What an approval costs, charges counted. -/
def Evaluation.cost (e : Evaluation) : ℚ := e.notional * buyCostBuffer

/-- The sizes the cash check pays for although the cash is less than what is reserved and
the order cost, charges counted. -/
def PortfolioChecks.CashGap (ctx : RiskContext RiskFacts) : Set ℤ :=
  {q | ∃ price ∈ ctx.price,
    ctx.facts.reserved.cash + q * (price * buyCostBuffer) ≤ ctx.facts.snapshot.cash ∧
      ctx.facts.snapshot.cash < (ctx.facts.reserved.cash + q * price) * buyCostBuffer}

namespace RiskLimits

variable {limits : RiskLimits} {snapshot : RiskSnapshot} {intent : OrderIntent}
  {r : Reservations} {ctx : RiskContext RiskFacts}

/-- The other checks refuse every size in the gap of the cash check. -/
def GapRefused (limits : RiskLimits) (ctx : RiskContext RiskFacts) : Prop :=
  ∀ q ∈ PortfolioChecks.CashGap ctx, q ∉ limits.engine.AdmissibleBut .pfCash ctx

/-- Every check has a code of its own. -/
theorem nodup_codes : (defaultChecks.map Check.code).Nodup := by decide

/-- What the engine admits is what the cash check and the other checks admit. -/
theorem mem_admissible_cash (hopens : ctx.intent.kind.reducesRisk = false) {q : ℤ} :
    q ∈ limits.engine.Admissible ctx ↔
      q ∈ limits.engine.AdmissibleBut .pfCash ctx ∧ Admits (PortfolioChecks.cash ctx) q := by
  have hcash : Check.of .pfCash IntentKind.opens PortfolioChecks.cash ∈ defaultChecks := by
    simp [defaultChecks, PortfolioChecks.checks]
  have happ : ctx.intent.kind.opens = true := by rw [IntentKind.opens_eq, hopens]; rfl
  constructor
  · rintro ⟨hpos, hlot, hasked, hall⟩
    exact ⟨⟨hpos, hlot, hasked, fun c hc _ => hall c hc⟩, hall _ hcash happ⟩
  · rintro ⟨⟨hpos, hlot, hasked, hothers⟩, hpays⟩
    refine ⟨hpos, hlot, hasked, fun c hc hkind => ?_⟩
    by_cases hcode : c.code = .pfCash
    · rw [List.inj_on_of_nodup_map nodup_codes hc hcash hcode]
      exact hpays
    · exact hothers c hc hcode hkind

theorem notional_nonneg (e : Evaluation) : 0 ≤ e.notional := by
  have hprice : 0 < e.context.price.getD e.context.intent.decisionPrice := by
    cases hp : e.context.price with
    | none => exact e.context.intent.decisionPrice_pos
    | some price => exact RiskContext.price_pos _ hp
  have hq : (0 : ℚ) ≤ e.approvedQty := by exact_mod_cast e.decision.qtyApproved_nonneg
  exact mul_nonneg hprice.le hq

/-- One evaluation of the batch: what is reserved after it is funded exactly when what
was reserved before is and the other checks refuse every size in the gap. -/
theorem funded_step (hopens : intent.kind.reducesRisk = false) (hbuy : intent.side = .buy) :
    (r.grant (limits.evaluate intent snapshot none r)).cash * buyCostBuffer ≤ snapshot.cash ↔
      r.cash * buyCostBuffer ≤ snapshot.cash ∧
        limits.GapRefused (limits.turn snapshot r intent) := by
  set e := limits.evaluate intent snapshot none r with he
  set ctx := limits.turn snapshot r intent with hctx
  have hsound : e.Sound limits snapshot r := evaluate_sound hopens
  have hbuffer : (0 : ℚ) ≤ e.notional * buyCostBuffer :=
    mul_nonneg (notional_nonneg e) buyCostBuffer_pos.le
  rw [hsound.grants.cash]
  constructor
  · intro hfunded
    refine ⟨by linarith [add_mul r.cash e.notional buyCostBuffer], ?_⟩
    rintro q ⟨price, hprice, hpays, hshort⟩ hothers
    -- the cash check lets the size through as well, so at least it is approved
    have hcash : Admits (PortfolioChecks.cash ctx) q :=
      (PortfolioChecks.admits_cash hothers.1).mpr fun p hp _ => by
        rw [Option.mem_unique hp hprice]
        exact hpays
    have hle : q ≤ e.approvedQty := RiskEngine.le_evaluate
      ((mem_admissible_cash hopens).mpr ⟨hothers, hcash⟩) (bddAbove_admissible hopens)
    have hnotional : e.notional = price * e.approvedQty := by
      show ctx.price.getD _ * _ = _
      rw [Option.mem_def.mp hprice]
      rfl
    have hmore : (q : ℚ) * price ≤ e.notional := by
      have hle' : (q : ℚ) ≤ e.approvedQty := by exact_mod_cast hle
      rw [hnotional, mul_comm]
      exact mul_le_mul_of_nonneg_left hle' (RiskContext.price_pos _ hprice).le
    have hcost := mul_le_mul_of_nonneg_right (add_le_add_right hmore r.cash) buyCostBuffer_pos.le
    exact absurd (hcost.trans hfunded) (not_le.mpr hshort)
  · rintro ⟨hreserved, hrefused⟩
    by_cases hq : 0 < e.approvedQty
    · obtain ⟨price, -, hprice, -⟩ := (hsound.passes hq).sizeLimits hq
      have hmem : e.approvedQty ∈ limits.engine.Admissible ctx := RiskEngine.evaluate_mem hq rfl
      obtain ⟨hothers, hcash⟩ := (mem_admissible_cash hopens).mp hmem
      have hpays := (PortfolioChecks.admits_cash hq).mp hcash price hprice hbuy
      have hnotional : e.notional = e.approvedQty * price := by
        rw [notional, hprice, Option.getD_some, mul_comm]
      rw [hnotional]
      by_contra hshort
      exact hrefused _ ⟨price, hprice, hpays, not_le.mp hshort⟩ hothers
    · rw [(of_not_approved hq).1, add_zero]
      exact hreserved

/-- A batch is funded exactly when at every turn the other checks refuse the gap. -/
theorem funded_iff {given intents : List OrderIntent}
    (hopens : ∀ intent ∈ intents, intent.kind.reducesRisk = false)
    (hbuys : ∀ intent ∈ intents, intent.side = .buy) :
    (r.cash + totalNotional (limits.evaluateFrom snapshot r intents)) * buyCostBuffer ≤
        snapshot.cash ↔
      r.cash * buyCostBuffer ≤ snapshot.cash ∧
        AtTurns limits snapshot (fun _ => limits.GapRefused) given r intents := by
  induction intents generalizing given r with
  | nil => simp [evaluateFrom, AtTurns, totalNotional]
  | cons intent rest ih =>
    have hopen := hopens intent (List.mem_cons_self ..)
    have hgrant : (r.grant (limits.evaluate intent snapshot none r)).cash =
        r.cash + (limits.evaluate intent snapshot none r).notional :=
      (evaluate_sound hopen).grants.cash
    have hsum : r.cash + totalNotional (limits.evaluateFrom snapshot r (intent :: rest)) =
        (r.grant (limits.evaluate intent snapshot none r)).cash +
          totalNotional (limits.evaluateFrom snapshot
            (r.grant (limits.evaluate intent snapshot none r)) rest) := by
      rw [hgrant, evaluateFrom, totalNotional, totalNotional, List.map_cons, List.sum_cons]
      ring
    rw [hsum, atTurns_cons hopen, ← and_assoc,
      ← funded_step hopen (hbuys intent (List.mem_cons_self ..))]
    exact ih (fun i hi => hopens i (List.mem_cons_of_mem _ hi))
      fun i hi => hbuys i (List.mem_cons_of_mem _ hi)

/-- **Cash cover of a batch.** The approvals of a batch of buys are funded, charges
counted, exactly when there is no debt and at every turn the other checks refuse the
sizes the cash check pays for with the charges of what is reserved. -/
theorem batch_cash (limits : RiskLimits) (snapshot : RiskSnapshot) (intents : List OrderIntent)
    (hopens : ∀ intent ∈ intents, intent.kind.reducesRisk = false)
    (hbuys : ∀ intent ∈ intents, intent.side = .buy) :
    ((limits.evaluateBatch intents snapshot).map cost).sum ≤ snapshot.cash ↔
      0 ≤ snapshot.cash ∧
        AtTurns limits snapshot (fun _ => limits.GapRefused) [] .empty intents := by
  have hcosts : ∀ es : List Evaluation, (es.map cost).sum = totalNotional es * buyCostBuffer :=
    fun es => List.sum_map_mul_right ..
  have h := @funded_iff limits snapshot .empty [] intents hopens hbuys
  have hnone : Reservations.empty.cash = 0 := rfl
  rw [hnone, zero_add, zero_mul, ← hcosts] at h
  exact h

end RiskLimits

namespace Sample

/-- Two buys of a hundred shares each. -/
def twoBuys : List OrderIntent := [buy "I1" infy, buy "I2" tcs]

/-- A large book with cash for both at the price, but not for the charges of both. -/
def tight : RiskSnapshot :=
  { market2 with equity := 1000000, sodEquity := 1000000, peakEquity := 1000000, cash := 20065 }

end Sample

namespace RiskLimits

/-- With cash for the charges of both, both are approved: the request leaves no size in
the gap. -/
theorem batch_cash_two_buys :
    AtTurns Sample.limits { Sample.tight with cash := 20130 } (fun _ => Sample.limits.GapRefused)
        [] .empty Sample.twoBuys ∧
      ((Sample.limits.evaluateBatch Sample.twoBuys { Sample.tight with cash := 20130 }).map
        cost).sum = 20130 := by
  have hsum : ((Sample.limits.evaluateBatch Sample.twoBuys
      { Sample.tight with cash := 20130 }).map cost).sum = 20130 := by decide +kernel
  exact ⟨((batch_cash Sample.limits { Sample.tight with cash := 20130 } Sample.twoBuys
    (by decide) (by decide)).mp hsum.le).2, hsum⟩

/-- Both buys are approved in full, and together cost 65 more than there is. -/
theorem batch_cash_exceeded :
    (Sample.limits.evaluateBatch Sample.twoBuys Sample.tight).map approvedQty = [100, 100] ∧
      ((Sample.limits.evaluateBatch Sample.twoBuys Sample.tight).map cost).sum =
        Sample.tight.cash + 65 := by
  decide +kernel

end RiskLimits

/-! ## Order counts -/

/-- A strategy's orders in the last minute. -/
def RiskSnapshot.strategyRate (s : RiskSnapshot) (strategy : String) : ℕ :=
  ((s.strategies.get? strategy).getD .empty).ordersLastMin

/-- The strategies of a batch's approvals. -/
def Evaluation.approvedStrategies (es : List Evaluation) : List String :=
  (es.filter isApproved).map strategy

namespace RiskLimits

variable {limits : RiskLimits} {snapshot : RiskSnapshot} {intent : OrderIntent}
  {r : Reservations}

/-- After orders of these intents there is room for one more order of a strategy. -/
def HasRoom (limits : RiskLimits) (snapshot : RiskSnapshot) (given : List OrderIntent)
    (strategy : String) : Prop :=
  snapshot.openOrders + given.length < limits.maxOpenOrders ∧
    snapshot.strategyRate strategy + (given.map OrderIntent.strategy).count strategy <
      limits.strategyOrdersPerMin

/-- Where the intents before took the last room, the checks admit no size. -/
def FullRefused (limits : RiskLimits) (snapshot : RiskSnapshot) (given : List OrderIntent)
    (ctx : RiskContext RiskFacts) : Prop :=
  HasRoom limits snapshot given ctx.intent.strategy ∨ limits.engine.Admissible ctx = ∅

/-- Open orders and order rates, with approvals given by their strategies, are within the
limits. -/
def InCounts (limits : RiskLimits) (snapshot : RiskSnapshot) (approved : List String) : Prop :=
  snapshot.openOrders + approved.length ≤ limits.maxOpenOrders ∧
    ∀ name, snapshot.strategyRate name + approved.count name ≤ limits.strategyOrdersPerMin

theorem InCounts.left {a b : List String} (h : InCounts limits snapshot (a ++ b)) :
    InCounts limits snapshot a := by
  obtain ⟨hopen, hrate⟩ := h
  rw [List.length_append] at hopen
  refine ⟨by omega, fun name => ?_⟩
  have := hrate name
  rw [List.count_append] at this
  omega

/-- One more order is within the limits exactly when there is room for it. -/
theorem inCounts_concat {given : List OrderIntent}
    (h : InCounts limits snapshot (given.map OrderIntent.strategy)) (strategy : String) :
    InCounts limits snapshot (given.map OrderIntent.strategy ++ [strategy]) ↔
      HasRoom limits snapshot given strategy := by
  obtain ⟨hopen, hrate⟩ := h
  simp only [InCounts, HasRoom, List.length_append, List.length_map, List.length_singleton,
    List.count_append] at hopen ⊢
  constructor
  · rintro ⟨hlen, hcount⟩
    have := hcount strategy
    rw [List.count_singleton_self] at this
    omega
  · rintro ⟨hlen, hcount⟩
    refine ⟨by omega, fun name => ?_⟩
    by_cases hname : strategy = name
    · subst hname
      rw [List.count_singleton_self]
      omega
    · rw [List.count_singleton, if_neg (by simpa using hname)]
      exact hrate name

/-- One evaluation of the batch keeps the counts exactly when there is room for an order
or the checks admit none. -/
theorem inCounts_step {given : List OrderIntent} (hopens : intent.kind.reducesRisk = false)
    (h : InCounts limits snapshot (given.map OrderIntent.strategy)) :
    InCounts limits snapshot (given.map OrderIntent.strategy ++
        approvedStrategies [limits.evaluate intent snapshot none r]) ↔
      limits.FullRefused snapshot given (limits.turn snapshot r intent) := by
  set e := limits.evaluate intent snapshot none r with he
  have hempty : ¬ 0 < e.approvedQty ↔
      limits.engine.Admissible (limits.turn snapshot r intent) = ∅ := not_approved_iff hopens
  have hstrategy : (limits.turn snapshot r intent).intent.strategy = intent.strategy := rfl
  rw [FullRefused, ← hempty, hstrategy]
  by_cases hq : 0 < e.approvedQty
  · have hone : approvedStrategies [e] = [intent.strategy] := by
      have happroved : e.isApproved = true := by simpa [isApproved] using hq
      simp only [approvedStrategies, List.filter_cons_of_pos happroved, List.filter_nil,
        List.map_singleton]
      rfl
    rw [hone, inCounts_concat h]
    simp [hq]
  · have hnone : approvedStrategies [e] = [] := by
      simp [approvedStrategies, isApproved, hq]
    rw [hnone, List.append_nil]
    simp [hq, h]

/-- A batch keeps the counts exactly when at every turn there is room or the checks
admit no size. -/
theorem inCounts_iff {given intents : List OrderIntent}
    (hopens : ∀ intent ∈ intents, intent.kind.reducesRisk = false)
    (h : InCounts limits snapshot (given.map OrderIntent.strategy)) :
    InCounts limits snapshot (given.map OrderIntent.strategy ++
        approvedStrategies (limits.evaluateFrom snapshot r intents)) ↔
      AtTurns limits snapshot (limits.FullRefused snapshot) given r intents := by
  induction intents generalizing given r with
  | nil => simpa [evaluateFrom, AtTurns, approvedStrategies] using h
  | cons intent rest ih =>
    have hopen := hopens intent (List.mem_cons_self ..)
    have hrest : ∀ i ∈ rest, i.kind.reducesRisk = false :=
      fun i hi => hopens i (List.mem_cons_of_mem _ hi)
    set e := limits.evaluate intent snapshot none r with he
    have hstep := inCounts_step (r := r) hopen h
    have hgiven : given.map OrderIntent.strategy ++ approvedStrategies [e] =
        (if e.isApproved then given ++ [intent] else given).map OrderIntent.strategy := by
      cases happroved : e.isApproved with
      | false => simp [approvedStrategies, happroved]
      | true =>
        simp only [approvedStrategies, List.filter_cons_of_pos happroved, List.filter_nil,
          List.map_singleton, if_true, List.map_append]
        rfl
    have hsplit : approvedStrategies (limits.evaluateFrom snapshot r (intent :: rest)) =
        approvedStrategies [e] ++
          approvedStrategies (limits.evaluateFrom snapshot (r.grant e) rest) := by
      rw [evaluateFrom, approvedStrategies, approvedStrategies, approvedStrategies,
        ← List.map_append, ← List.filter_append]
      rfl
    rw [atTurns_cons hopen, ← hstep, hsplit, ← List.append_assoc, hgiven]
    constructor
    · intro hall
      exact ⟨hall.left, (ih hrest hall.left).mp hall⟩
    · rintro ⟨hnext, hturns⟩
      exact (ih hrest hnext).mpr hturns

/-- **Order counts of a batch.** Given a snapshot within its limits, the approvals of a
batch keep the open orders and every strategy's order rate within their limits exactly
when at every turn, where the intents before took the last room, the checks admit no
size. -/
theorem batch_counts (limits : RiskLimits) (snapshot : RiskSnapshot)
    (intents : List OrderIntent)
    (hopens : ∀ intent ∈ intents, intent.kind.reducesRisk = false)
    (hopen : snapshot.openOrders ≤ limits.maxOpenOrders)
    (hrate : ∀ name, snapshot.strategyRate name ≤ limits.strategyOrdersPerMin) :
    (let approved := approvedStrategies (limits.evaluateBatch intents snapshot);
      snapshot.openOrders + approved.length ≤ limits.maxOpenOrders ∧
        ∀ name, snapshot.strategyRate name + approved.count name ≤
          limits.strategyOrdersPerMin) ↔
      AtTurns limits snapshot (limits.FullRefused snapshot) [] .empty intents :=
  have h : InCounts limits snapshot (([] : List OrderIntent).map OrderIntent.strategy) :=
    ⟨hopen, hrate⟩
  inCounts_iff hopens h

end RiskLimits

namespace Sample

/-- One order below the limit of open orders. -/
def busy : RiskSnapshot := { tight with cash := 1000000, openOrders := 19 }

end Sample

namespace RiskLimits

/-- With room for both, both are approved, and no turn comes without room. -/
theorem batch_counts_two_buys :
    AtTurns Sample.limits { Sample.busy with openOrders := 18 }
        (Sample.limits.FullRefused { Sample.busy with openOrders := 18 }) [] .empty
        Sample.twoBuys ∧
      (Sample.limits.evaluateBatch Sample.twoBuys { Sample.busy with openOrders := 18 }).map
        approvedQty = [100, 100] := by
  have hcounts : 18 + (approvedStrategies (Sample.limits.evaluateBatch Sample.twoBuys
      { Sample.busy with openOrders := 18 })).length ≤ Sample.limits.maxOpenOrders ∧
      approvedStrategies (Sample.limits.evaluateBatch Sample.twoBuys
        { Sample.busy with openOrders := 18 }) = [Sample.entry.strategy, Sample.entry.strategy] ∧
      2 ≤ Sample.limits.strategyOrdersPerMin := by
    decide +kernel
  obtain ⟨hlen, hstrategies, htwo⟩ := hcounts
  refine ⟨(batch_counts Sample.limits { Sample.busy with openOrders := 18 } Sample.twoBuys
    (by decide) (by decide) fun _ => Nat.zero_le _).mp ⟨hlen, fun name => ?_⟩, by decide +kernel⟩
  rw [hstrategies]
  refine le_trans (Nat.add_le_add_left List.count_le_length _) ?_
  show 0 + 2 ≤ Sample.limits.strategyOrdersPerMin
  rw [zero_add]
  exact htwo

/-- With 19 of at most 20 orders open, both buys are approved. -/
theorem batch_counts_exceeded :
    Sample.busy.openOrders ≤ Sample.limits.maxOpenOrders ∧
      (Sample.limits.evaluateBatch Sample.twoBuys Sample.busy).map approvedQty = [100, 100] ∧
      Sample.limits.maxOpenOrders < Sample.busy.openOrders +
        (approvedStrategies (Sample.limits.evaluateBatch Sample.twoBuys Sample.busy)).length := by
  decide +kernel

end RiskLimits

end RakshaQuant
