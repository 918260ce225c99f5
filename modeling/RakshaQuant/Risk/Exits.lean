import RakshaQuant.Risk.Soundness

/-! Exits. A reduction is decided by the session, the source of the prices, its own
record and the position; nothing an entry is limited by is read, and a check that
raises is as good as absent. -/

namespace RakshaQuant

/-- Two snapshots that agree on all that exits in an instrument may depend on. -/
structure RiskSnapshot.AgreeForExits (s s' : RiskSnapshot) (key : String) : Prop where
  position : (s.positions.get? key).map PositionInfo.quantity =
    (s'.positions.get? key).map PositionInfo.quantity
  tradingDay : s.isTradingDay = s'.isTradingDay
  weekend : s.isWeekend = s'.isWeekend
  sessionOpen : s.sessionOpen = s'.sessionOpen
  dataSource : ((s.market.get? key).getD .empty).dataSource =
    ((s'.market.get? key).getD .empty).dataSource
  environment : s.environment = s'.environment

/-- The checks that apply to a reduction. -/
theorem admit_reduction (ctx : RiskContext RiskFacts) {q : ℤ}
    (hreduces : ctx.intent.kind.reducesRisk = true) : AllAdmit defaultChecks ctx q ↔
      (Admits (SystemChecks.sessionClosed ctx) q ∧ Admits (SystemChecks.holiday ctx) q ∧
        Admits (SystemChecks.dataSimulated ctx) q) ∧
      Admits (RiskEngine.runCheck ctx Check.qtyNonpos) q ∧
      Admits (RiskEngine.runCheck ctx Check.tick) q ∧
      Admits (RiskEngine.runCheck ctx Check.reduceExceedsPos) q := by
  have hopens : ctx.intent.kind.opens = false := by rw [IntentKind.opens_eq, hreduces]; rfl
  have hqty : (Check.qtyNonpos : Check RiskFacts).appliesTo ctx.intent.kind = true := rfl
  have htick : (Check.tick : Check RiskFacts).appliesTo ctx.intent.kind = true := rfl
  have hshort : (Check.shortNotAllowed : Check RiskFacts).appliesTo ctx.intent.kind = false :=
    hopens
  have hreduce : (Check.reduceExceedsPos : Check RiskFacts).appliesTo ctx.intent.kind = true :=
    hreduces
  have hsystem : AllAdmit SystemChecks.checks ctx q ↔
      Admits (SystemChecks.sessionClosed ctx) q ∧ Admits (SystemChecks.holiday ctx) q ∧
        Admits (SystemChecks.dataSimulated ctx) q := by
    simp only [SystemChecks.checks, allAdmit_of, allAdmit_nil, Check.allKinds, hopens,
      forall_const, Bool.false_eq_true, IsEmpty.forall_iff, and_true]
  have hstrategy : AllAdmit StrategyChecks.checks ctx q := by
    simp [StrategyChecks.checks, allAdmit_of, hopens]
  have hportfolio : AllAdmit PortfolioChecks.checks ctx q := by
    simp [PortfolioChecks.checks, allAdmit_of, hopens]
  have hevents : AllAdmit EventChecks.checks ctx q := by
    simp [EventChecks.checks, allAdmit_of, hopens]
  have horder : AllAdmit OrderChecks.checks ctx q ↔
      Admits (RiskEngine.runCheck ctx Check.qtyNonpos) q ∧
      Admits (RiskEngine.runCheck ctx Check.tick) q ∧
      Admits (RiskEngine.runCheck ctx Check.reduceExceedsPos) q := by
    rw [OrderChecks.checks, allAdmit_cons]
    simp only [allAdmit_of]
    simp only [allAdmit_cons, allAdmit_nil, hopens, hqty, htick, hshort, hreduce, forall_const,
      Bool.false_eq_true, IsEmpty.forall_iff, true_and, and_true]
  simp only [defaultChecks, allAdmit_append, hsystem, horder, hstrategy, hportfolio, hevents,
    and_true]

/-- Exits see the same where the snapshots agree. -/
theorem RiskSnapshot.AgreeForExits.admissible {s s' : RiskSnapshot} {intent : OrderIntent}
    (h : s.AgreeForExits s' intent.instrument.key) (hreduces : intent.kind.reducesRisk = true)
    (limits limits' : RiskLimits) (reserved reserved' : Reservations) (asked : Option ℤ) :
    limits.engine.Admissible (RiskFacts.context ⟨s, limits, reserved⟩ intent asked) =
      limits'.engine.Admissible (RiskFacts.context ⟨s', limits', reserved'⟩ intent asked) := by
  set ctx := RiskFacts.context ⟨s, limits, reserved⟩ intent asked
  set ctx' := RiskFacts.context ⟨s', limits', reserved'⟩ intent asked
  have hposition : ctx.position = ctx'.position := h.position
  have hsource : ctx.market.dataSource = ctx'.market.dataSource := h.dataSource
  have hsession : SystemChecks.sessionClosed ctx = SystemChecks.sessionClosed ctx' := by
    show Check.blockIf _ _ _ = Check.blockIf _ _ _
    simp only [ctx, ctx', RiskFacts.context, h.weekend, h.tradingDay, h.sessionOpen]
  have hholiday : SystemChecks.holiday ctx = SystemChecks.holiday ctx' := by
    show Check.blockIf _ _ _ = Check.blockIf _ _ _
    simp only [ctx, ctx', RiskFacts.context, h.weekend, h.tradingDay]
  have hdata : SystemChecks.dataSimulated ctx = SystemChecks.dataSimulated ctx' := by
    have henv : ctx.facts.snapshot.environment = ctx'.facts.snapshot.environment := h.environment
    simp only [SystemChecks.dataSimulated, hsource, henv]
    rfl
  have hexceeds : RiskEngine.runCheck ctx Check.reduceExceedsPos =
      RiskEngine.runCheck ctx' Check.reduceExceedsPos := by
    simp only [RiskEngine.runCheck, Check.reduceExceedsPos, hposition]
    rfl
  ext q
  have hadmit : AllAdmit defaultChecks ctx q ↔ AllAdmit defaultChecks ctx' q := by
    rw [admit_reduction ctx hreduces, admit_reduction ctx' hreduces, hsession, hholiday, hdata,
      hexceeds]
    exact Iff.rfl
  exact and_congr_right fun _ => and_congr_right fun _ => and_congr_right fun _ => hadmit

/-! ## Checks that raise -/

namespace RiskEngine

variable {Φ : Type} {engine engine' : RiskEngine Φ} {ctx : RiskContext Φ}

/-- The engine without the checks that raise on this order. -/
def quiet (engine : RiskEngine Φ) (ctx : RiskContext Φ) : RiskEngine Φ :=
  { allowShort := engine.allowShort
    checks := engine.checks.filter fun c => (c.fn ctx).isOk
    shorts := by
      refine List.mem_filter.mpr ⟨engine.shorts, ?_⟩
      simp only [Check.shortNotAllowed]
      split <;> rfl }

/-- A check that raises lets every size of a reduction pass. -/
theorem admits_of_raises {c : Check Φ} {e : Exc} (hraise : c.fn ctx = .error e)
    (hreduces : ctx.intent.kind.reducesRisk = true) (q : ℤ) : Admits (runCheck ctx c) q := by
  unfold runCheck
  rw [hraise]
  simp [hreduces, Check.admits_info]

theorem evaluate_quiet (hreduces : ctx.intent.kind.reducesRisk = true) :
    ((engine.quiet ctx).evaluate ctx).qtyApproved = (engine.evaluate ctx).qtyApproved := by
  refine evaluate_congr ?_
  ext q
  simp only [Admissible, quiet, List.mem_filter, Set.mem_ofPred_eq]
  refine and_congr_right fun _ => and_congr_right fun _ => and_congr_right fun _ => ?_
  constructor
  · intro h c hc
    cases hfn : c.fn ctx with
    | ok result => exact h c ⟨hc, by rw [hfn]; rfl⟩
    | error e => exact fun _ => admits_of_raises hfn hreduces q
  · rintro h c ⟨hc, -⟩
    exact h c hc

/-- Where something still sizes the reduction, a check approves no more in the place
of one that raises. -/
theorem evaluate_replace {before after : List (Check Φ)} {c c' : Check Φ} {e : Exc}
    (hreduces : ctx.intent.kind.reducesRisk = true)
    (hchecks : engine.checks = before ++ c :: after)
    (hchecks' : engine'.checks = before ++ c' :: after) (hraise : c.fn ctx = .error e)
    (hbound : BddAbove (engine.Admissible ctx)) :
    (engine'.evaluate ctx).qtyApproved ≤ (engine.evaluate ctx).qtyApproved := by
  rcases (engine'.evaluate ctx).qtyApproved_nonneg.eq_or_lt with h0 | hpos
  · rw [← h0]
    exact (engine.evaluate ctx).qtyApproved_nonneg
  · obtain ⟨-, hlot, hasked, hadmit⟩ := evaluate_mem hpos rfl
    refine le_evaluate ⟨hpos, hlot, hasked, fun d hd happ => ?_⟩ hbound
    rw [hchecks, List.mem_append, List.mem_cons] at hd
    rcases hd with hd | rfl | hd
    · exact hadmit d (by rw [hchecks']; simp [hd]) happ
    · exact admits_of_raises hraise hreduces _
    · exact hadmit d (by rw [hchecks']; simp [hd]) happ

end RiskEngine

/-- **Exits never depend on entry limits.** On two snapshots that agree on the position,
the session and holiday state, the source of the prices and the environment, and under
any limits and reservations, the same quantity of a reduction is approved. Whatever the
checks, those that raise on it are as good as absent, and where something still sizes
it, no check in the place of one that raises makes the quantity larger. -/
theorem RiskLimits.exits_ignore_limits (intent : OrderIntent) (hreduce : intent.reduceOnly = true) :
    (∀ (limits limits' : RiskLimits) (s s' : RiskSnapshot) (quantity : Option ℤ)
      (reserved reserved' : Reservations), s.AgreeForExits s' intent.instrument.key →
        (limits.evaluate intent s quantity reserved).approvedQty =
          (limits'.evaluate intent s' quantity reserved').approvedQty) ∧
    (∀ (Φ : Type) (engine : RiskEngine Φ) (ctx : RiskContext Φ), ctx.intent = intent →
      ((engine.quiet ctx).evaluate ctx).qtyApproved = (engine.evaluate ctx).qtyApproved) ∧
    ∀ (Φ : Type) (engine engine' : RiskEngine Φ) (ctx : RiskContext Φ)
      (before after : List (Check Φ)) (c c' : Check Φ) (e : Exc), ctx.intent = intent →
        engine.checks = before ++ c :: after → engine'.checks = before ++ c' :: after →
        c.fn ctx = .error e → BddAbove (engine.Admissible ctx) →
        (engine'.evaluate ctx).qtyApproved ≤ (engine.evaluate ctx).qtyApproved := by
  have hreduces : intent.kind.reducesRisk = true := by rw [← intent.reduceOnly_eq, hreduce]
  refine ⟨?_, ?_, ?_⟩
  · intro limits limits' s s' quantity reserved reserved' hagree
    exact RiskEngine.evaluate_congr
      (hagree.admissible hreduces limits limits' reserved reserved' (quantity <|> intent.quantity))
  · rintro Φ engine ctx rfl
    exact RiskEngine.evaluate_quiet hreduces
  · rintro Φ engine engine' ctx before after c c' e rfl hchecks hchecks' hraise hbound
    exact RiskEngine.evaluate_replace hreduces hchecks hchecks' hraise hbound

/-! ## An exit from a halted book -/

namespace Sample

/-- Sell what is held. -/
def leave : OrderIntent :=
  { entry with
    intentId := "X", side := .sell, kind := .close, quantity := none, reduceOnly := true
    reason := .operator, source := .operator, quantity_pos := no_quantity_pos
    reduceOnly_eq := close_reduces }

/-- Seven shares held, marked at 100. -/
def holding : RiskSnapshot :=
  { snapshot with
    positions := .ofList [(infy.key, ⟨7, 100, none, none, none⟩)] }

/-- The same holding with no quote, no cash, every switch at FLATTEN and every count
beyond its limit. -/
def crisis : RiskSnapshot :=
  { holding with
    equity := 0, cash := 0, market := .ofList [(infy.key, ⟨none, none, none, some .dhan⟩)]
    kill := ⟨.flatten, .flatten, .ofList [("momentum", .flatten)]⟩, openOrders := 1000
    ordersLastMin := 1000, rejectsInWindow := 1000, entriesToday := 1000, entryWindow := false
    llmDegraded := true, journalDurable := false, reconDrift := true }

end Sample

/-- All seven shares may be sold in the crisis. -/
theorem RiskLimits.exits_ignore_limits_crisis :
    (Sample.limits.evaluate Sample.leave Sample.holding none .empty).approvedQty =
      (Sample.shorting.evaluate Sample.leave Sample.crisis none .empty).approvedQty ∧
    (Sample.limits.evaluate Sample.leave Sample.holding none .empty).approvedQty = 7 :=
  ⟨(exits_ignore_limits Sample.leave rfl).1 Sample.limits Sample.shorting Sample.holding
    Sample.crisis none .empty .empty ⟨rfl, rfl, rfl, rfl, by decide +kernel, rfl⟩,
    by decide +kernel⟩

end RakshaQuant
