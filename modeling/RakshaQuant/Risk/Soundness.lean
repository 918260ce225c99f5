import RakshaQuant.Oms.Concurrency
import RakshaQuant.Risk.Openings

/-! Soundness of the risk engine for openings. Whatever the intent, the snapshot, the
limits and the reservations: at the quantity approved all limits hold at once. -/

namespace RakshaQuant

/-- At a size, every size limit of an opening order holds, usage and reservations
counted. -/
structure SizeLimits (ctx : RiskContext RiskFacts) (price distance : ℚ) (q : ℤ) : Prop where
  notional_pct : q * price ≤ ctx.facts.snapshot.equity * ctx.facts.limits.maxPositionPct
  notional_inr : q * price ≤ ctx.facts.limits.maxPositionInr
  risk : q * distance ≤ ctx.facts.snapshot.equity * ctx.facts.limits.riskPerTrade
  adv : ∀ adv ∈ ctx.market.advShares, 0 < adv → q ≤ adv * ctx.facts.limits.advPct
  gross : ctx.facts.snapshot.grossExposure + ctx.facts.reserved.gross + q * price ≤
    ctx.facts.snapshot.equity * ctx.facts.limits.maxGrossExposurePct
  sector : ctx.facts.snapshot.sectorExposure ctx.sector +
    Reservations.amount ctx.facts.reserved.bySector ctx.sector + q * price ≤
      ctx.facts.snapshot.equity * ctx.facts.limits.maxSectorPct
  heat : ctx.facts.snapshot.heat + ctx.facts.reserved.heat + q * distance ≤
    ctx.facts.snapshot.equity * ctx.facts.limits.maxHeatPct
  capital : ctx.facts.snapshot.deployed ctx.intent.strategy +
    Reservations.amount ctx.facts.reserved.byStrategy ctx.intent.strategy + q * price ≤
      ctx.facts.snapshot.equity * ctx.facts.limits.strategyCapitalPct
  cash : ctx.intent.side = .buy → ctx.facts.reserved.cash +
    q * (price * PortfolioChecks.buyCostBuffer) ≤ ctx.facts.snapshot.cash

/-- An order that passes has a fresh price and a stop, and is within all size limits. -/
theorem Passes.sizeLimits {ctx : RiskContext RiskFacts} {q : ℤ} (h : Passes ctx q)
    (hq : 0 < q) : ∃ price distance, ctx.price = some price ∧ ctx.stopDistance = some distance ∧
      0 < distance ∧ SizeLimits ctx price distance q := by
  obtain ⟨quote, hquote, -⟩ := h.system.quote
  obtain ⟨distance, hdistance, hpos, hrisk⟩ := h.order.risk
  have hprice : ctx.price = some quote.ltp := by
    unfold RiskContext.price
    rw [hquote]
    rfl
  -- the risk budget is positive, so equity is, and Kelly's fraction is below the limit's
  have hfraction : q * distance ≤ ctx.facts.snapshot.equity * ctx.facts.limits.riskPerTrade := by
    have hq' : (0 : ℚ) < q := by exact_mod_cast hq
    have hbudget := lt_of_lt_of_le (mul_pos hq' hpos) hrisk
    unfold RiskContext.pct at hbudget hrisk
    have hnonneg : 0 ≤ ctx.facts.snapshot.equity := by
      by_contra hneg
      have hcap := (h.order.notional _ hprice).1
      unfold RiskContext.pct at hcap
      have := mul_neg_of_neg_of_pos (not_le.mp hneg) ctx.facts.limits.maxPositionPct_mem.1
      have := mul_pos hq' quote.ltp_pos
      linarith
    exact hrisk.trans (mul_le_mul_of_nonneg_left OrderChecks.riskFraction_le hnonneg)
  exact ⟨quote.ltp, distance, hprice, hdistance, hpos,
    { notional_pct := (h.order.notional _ hprice).1
      notional_inr := (h.order.notional _ hprice).2
      risk := hfraction
      adv := h.order.adv
      gross := h.portfolio.gross _ hprice
      sector := h.portfolio.sector _ hprice
      heat := h.portfolio.heat _ hdistance hpos
      capital := h.strategy.capital _ hprice
      cash := h.portfolio.cash _ hprice }⟩

namespace RiskLimits

variable {limits : RiskLimits} {intent : OrderIntent} {snapshot : RiskSnapshot}
  {quantity : Option ℤ} {reserved : Reservations}

/-- What is approved for an opening order is admitted by every check. -/
theorem evaluate_passes (hopens : intent.kind.reducesRisk = false)
    (hq : 0 < (limits.evaluate intent snapshot quantity reserved).approvedQty) :
    intent.instrument.lotSize ∣ (limits.evaluate intent snapshot quantity reserved).approvedQty ∧
      (∀ asked ∈ (quantity <|> intent.quantity),
        (limits.evaluate intent snapshot quantity reserved).approvedQty ≤ asked) ∧
      Passes (limits.evaluate intent snapshot quantity reserved).context
        (limits.evaluate intent snapshot quantity reserved).approvedQty :=
  (mem_admissible hopens hq).mp (RiskEngine.evaluate_mem hq rfl)

/-- **Soundness for openings.** An approved opening quantity is a whole number of
lots, at most what was asked for, within every size limit at once, and every
blocking condition holds. Whatever the checks, one that raises approves nothing. -/
theorem opening_sound (limits : RiskLimits) (intent : OrderIntent) (snapshot : RiskSnapshot)
    (quantity : Option ℤ) (reserved : Reservations)
    (hopens : intent.kind.reducesRisk = false) :
    (let e := limits.evaluate intent snapshot quantity reserved;
      0 < e.approvedQty →
        intent.instrument.lotSize ∣ e.approvedQty ∧
        (∀ asked ∈ (quantity <|> intent.quantity), e.approvedQty ≤ asked) ∧
        (∃ price distance, e.context.price = some price ∧
          e.context.stopDistance = some distance ∧ 0 < distance ∧
          SizeLimits e.context price distance e.approvedQty) ∧
        Passes e.context e.approvedQty) ∧
      ∀ (Φ : Type) (engine : RiskEngine Φ) (ctx : RiskContext Φ) (c : Check Φ) (exc : Exc),
        ctx.intent = intent → c ∈ engine.checks → c.appliesTo intent.kind = true →
          c.fn ctx = .error exc → (engine.evaluate ctx).qtyApproved = 0 := by
  constructor
  · intro e hq
    obtain ⟨hlot, hasked, hpasses⟩ := evaluate_passes hopens hq
    exact ⟨hlot, hasked, hpasses.sizeLimits hq, hpasses⟩
  · rintro Φ engine ctx c exc rfl hc happ hraise
    exact RiskEngine.evaluate_raises hc happ hopens hraise

end RiskLimits

/-! ## A book that trades one instrument -/

namespace Sample

theorem none_traded : (0 : ℤ) ≤ 0 := le_rfl

/-- An entry at 100 with its stop at 98. -/
def stopped : OrderIntent := { entry with stopPrice := some 98 }

def limits : RiskLimits := RiskLimits.default

/-- A live quote at 100, of the decision's instant. -/
def facts : MarketFacts :=
  { quote := some
      { instrumentKey := infy.key, ltp := 100, prevClose := none, volumeCum := 0, exchangeTs := 0
        receiptTs := 0, ltp_pos := hundred_pos, prevClose_pos := no_price_pos
        volumeCum_nonneg := none_traded }
    atr := none, advShares := none, dataSource := some .dhan }

def kill : KillState := ⟨.armed, .armed, .empty⟩

/-- An empty book worth 100 000, in the entry window. -/
def snapshot : RiskSnapshot :=
  { now := 0, environment := "paper", equity := 100000, cash := 100000, sodEquity := 100000
    peakEquity := 100000, positions := .empty, market := .ofList [(infy.key, facts)]
    strategies := .empty, kill := kill, openOrders := 0, ordersLastMin := 0, rejectsInWindow := 0
    entriesToday := 0, symbolsEnteredToday := [], symbolsExitedToday := [], unknownOrderKeys := []
    isTradingDay := true, isWeekend := false, sessionOpen := true, entryWindow := true
    llmDegraded := false, journalDurable := true, reconDrift := false, eventBlocks := .empty }

/-- Shorting allowed. -/
def shorting : RiskLimits := { limits with allowShort := true }

/-- A short at 100 with its stop at 102. -/
def short : OrderIntent := { entry with side := .sell, stopPrice := some 102 }

end Sample

namespace RiskLimits

/-- Ten shares of the sample entry are approved. -/
theorem opening_sound_entry :
    (let e := Sample.limits.evaluate Sample.stopped Sample.snapshot none .empty;
      0 < e.approvedQty →
        Sample.stopped.instrument.lotSize ∣ e.approvedQty ∧
        (∀ asked ∈ Sample.stopped.quantity, e.approvedQty ≤ asked) ∧
        (∃ price distance, e.context.price = some price ∧
          e.context.stopDistance = some distance ∧ 0 < distance ∧
          SizeLimits e.context price distance e.approvedQty) ∧
        Passes e.context e.approvedQty) ∧
      (∀ (Φ : Type) (engine : RiskEngine Φ) (ctx : RiskContext Φ) (c : Check Φ) (exc : Exc),
        ctx.intent = Sample.stopped → c ∈ engine.checks →
          c.appliesTo Sample.stopped.kind = true →
          c.fn ctx = .error exc → (engine.evaluate ctx).qtyApproved = 0) ∧
      (Sample.limits.evaluate Sample.stopped Sample.snapshot none .empty).approvedQty = 10 := by
  obtain ⟨happroved, hraises⟩ :=
    opening_sound Sample.limits Sample.stopped Sample.snapshot none .empty rfl
  exact ⟨happroved, hraises, by decide +kernel⟩

/-- A short needs no cash: with none, ten shares are approved that the cash, charges
counted, would not pay for. And an ADV of zero counts as unknown. -/
theorem opening_beyond_cash :
    (let snapshot := { Sample.snapshot with cash := 0 };
      let e := Sample.shorting.evaluate Sample.short snapshot none .empty;
      e.approvedQty = 10 ∧ e.context.price = some 100 ∧
        ¬ (e.approvedQty * (100 * PortfolioChecks.buyCostBuffer) ≤ snapshot.cash)) ∧
      (let snapshot := { Sample.snapshot with
          market := .ofList [(Sample.infy.key, { Sample.facts with advShares := some 0 })] };
        let e := Sample.limits.evaluate Sample.stopped snapshot none .empty;
        e.approvedQty = 10 ∧ e.context.market.advShares = some 0 ∧
          ¬ ((e.approvedQty : ℚ) ≤ 0 * Sample.limits.advPct)) := by
  decide +kernel

end RiskLimits

end RakshaQuant
