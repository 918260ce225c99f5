import RakshaQuant.Risk.Checks

/-! What the default checks ask of an opening order. Level by level, the checks admit
a size exactly when the conditions of that level hold at it, so that the quantity
the engine approves is the largest one at which all of them hold at once. -/

namespace RakshaQuant

/-- The checks of a list that apply to an intent admit a size. -/
def AllAdmit (checks : List (Check RiskFacts)) (ctx : RiskContext RiskFacts) (q : ℤ) : Prop :=
  ∀ c ∈ checks, c.appliesTo ctx.intent.kind = true → Admits (RiskEngine.runCheck ctx c) q

section AllAdmit

variable {ctx : RiskContext RiskFacts} {q : ℤ}

@[simp] theorem allAdmit_nil : AllAdmit [] ctx q := by
  simp [AllAdmit]

theorem allAdmit_append {l m : List (Check RiskFacts)} :
    AllAdmit (l ++ m) ctx q ↔ AllAdmit l ctx q ∧ AllAdmit m ctx q :=
  List.forall_mem_append

theorem allAdmit_cons {c : Check RiskFacts} {l : List (Check RiskFacts)} :
    AllAdmit (c :: l) ctx q ↔
      (c.appliesTo ctx.intent.kind = true → Admits (RiskEngine.runCheck ctx c) q) ∧
        AllAdmit l ctx q :=
  List.forall_mem_cons

theorem allAdmit_of {code : ReasonCode} {kinds : IntentKind → Bool}
    {fn : RiskContext RiskFacts → Option RiskCheckResult} {l : List (Check RiskFacts)} :
    AllAdmit (Check.of code kinds fn :: l) ctx q ↔
      (kinds ctx.intent.kind = true → Admits (fn ctx) q) ∧ AllAdmit l ctx q :=
  allAdmit_cons

end AllAdmit

variable {ctx : RiskContext RiskFacts} {q : ℤ}

/-! ## System -/

namespace SystemChecks

theorem admits_session : Admits (sessionClosed ctx) q ∧ Admits (holiday ctx) q ↔
    ctx.facts.snapshot.isTradingDay = true ∧ ctx.facts.snapshot.isWeekend = false ∧
      ctx.facts.snapshot.sessionOpen = true := by
  simp only [sessionClosed, holiday, Check.admits_blockIf]
  cases ctx.facts.snapshot.isTradingDay <;> cases ctx.facts.snapshot.isWeekend <;>
    cases ctx.facts.snapshot.sessionOpen <;> simp

theorem admits_dataStale : Admits (dataStale ctx) q ↔ ∃ quote, ctx.market.quote = some quote ∧
    ageSeconds quote ctx.facts.snapshot.now ≤ ctx.facts.limits.maxQuoteAgeS := by
  unfold dataStale
  cases ctx.market.quote with
  | none => simp
  | some quote => simp

theorem checkDataSource_iff {source : Option MarketDataSource} {environment : String} :
    (checkDataSource source environment).outcome ≠ .block ↔
      ∃ s, source = some s ∧ (s.isFabricated = true → environment = demoEnvironment) := by
  unfold checkDataSource
  cases source with
  | none => simp [Check.block]
  | some s =>
    by_cases h : s.isFabricated = true ∧ environment ≠ demoEnvironment
    · simp [h, Check.block]
    · simp only [h, if_false]
      simpa [Check.info] using h

theorem admits_dataSimulated (hopens : ctx.intent.kind.reducesRisk = false) :
    Admits (dataSimulated ctx) q ↔ ∃ s, ctx.market.dataSource = some s ∧
      (s.isFabricated = true → ctx.facts.snapshot.environment = demoEnvironment) := by
  rw [← checkDataSource_iff]
  unfold dataSimulated
  simp only [hopens, Bool.false_eq_true, and_false, if_false]
  by_cases h : (checkDataSource ctx.market.dataSource ctx.facts.snapshot.environment).outcome =
      .block
  · simp [h, RiskCheckResult.Admits]
  · simp [h]

/-- What the system checks ask of an opening order. -/
structure Pass (ctx : RiskContext RiskFacts) : Prop where
  session : ctx.facts.snapshot.isTradingDay = true ∧ ctx.facts.snapshot.isWeekend = false ∧
    ctx.facts.snapshot.sessionOpen = true
  source : ∃ s, ctx.market.dataSource = some s ∧
    (s.isFabricated = true → ctx.facts.snapshot.environment = demoEnvironment)
  killGlobal : ctx.facts.snapshot.kill.globalState = .armed
  killBroker : ctx.facts.snapshot.kill.broker = .armed
  entryWindow : ctx.facts.snapshot.entryWindow = true
  quote : ∃ quote, ctx.market.quote = some quote ∧
    ageSeconds quote ctx.facts.snapshot.now ≤ ctx.facts.limits.maxQuoteAgeS
  openOrders : ctx.facts.snapshot.openOrders < ctx.facts.limits.maxOpenOrders
  orderRate : ctx.facts.snapshot.ordersLastMin + ctx.facts.reserved.orders <
    ctx.facts.limits.ordersPerMin
  rejects : ctx.facts.snapshot.rejectsInWindow < ctx.facts.limits.rejectStormCount
  unknown : ctx.key ∉ ctx.facts.snapshot.unknownOrderKeys
  durable : ctx.facts.snapshot.journalDurable = true
  drift : ctx.facts.snapshot.reconDrift = false

theorem admit_iff (hopens : ctx.intent.kind.reducesRisk = false) :
    AllAdmit checks ctx q ↔ Pass ctx := by
  have happ : ctx.intent.kind.opens = true := by rw [IntentKind.opens_eq, hopens]; rfl
  have hllm : Admits (llmDegraded ctx) q := by unfold llmDegraded; split <;> simp
  simp only [checks, allAdmit_of, allAdmit_nil, happ, Check.allKinds, forall_const,
    and_true]
  constructor
  · rintro ⟨hclosed, hholiday, hsource, hglobal, hbroker, hcutoff, hstale, hopen, hrate, hstorm,
      hunknown, -, hdurable, hdrift⟩
    exact
      { session := admits_session.mp ⟨hclosed, hholiday⟩
        source := (admits_dataSimulated hopens).mp hsource
        killGlobal := not_not.mp ((Check.admits_blockIf ..).mp hglobal)
        killBroker := not_not.mp ((Check.admits_blockIf ..).mp hbroker)
        entryWindow := by simpa using (Check.admits_blockIf ..).mp hcutoff
        quote := admits_dataStale.mp hstale
        openOrders := not_le.mp ((Check.admits_blockIf ..).mp hopen)
        orderRate := not_le.mp ((Check.admits_blockIf ..).mp hrate)
        rejects := not_le.mp ((Check.admits_blockIf ..).mp hstorm)
        unknown := (Check.admits_blockIf ..).mp hunknown
        durable := by simpa using (Check.admits_blockIf ..).mp hdurable
        drift := by simpa using (Check.admits_blockIf ..).mp hdrift }
  · intro h
    obtain ⟨hclosed, hholiday⟩ := admits_session (q := q).mpr h.session
    refine ⟨hclosed, hholiday, (admits_dataSimulated hopens).mpr h.source, ?_, ?_, ?_,
      admits_dataStale.mpr h.quote, ?_, ?_, ?_, ?_, hllm, ?_, ?_⟩ <;>
      refine (Check.admits_blockIf ..).mpr ?_
    · exact not_not.mpr h.killGlobal
    · exact not_not.mpr h.killBroker
    · simp [h.entryWindow]
    · exact not_le.mpr h.openOrders
    · exact not_le.mpr h.orderRate
    · exact not_le.mpr h.rejects
    · exact h.unknown
    · simp [h.durable]
    · simp [h.drift]

end SystemChecks

/-! ## Strategy -/

namespace StrategyChecks

theorem admits_capitalAlloc (hq : 0 < q) : Admits (capitalAlloc ctx) q ↔
    ∀ price ∈ ctx.price, ctx.facts.snapshot.deployed ctx.intent.strategy +
      Reservations.amount ctx.facts.reserved.byStrategy ctx.intent.strategy + q * price ≤
        ctx.pct ctx.facts.limits.strategyCapitalPct := by
  unfold capitalAlloc
  cases hp : ctx.price with
  | none => simp
  | some price => simp [Check.admits_room (ctx.price_pos hp) hq]

/-- What the strategy checks ask of an opening order. -/
structure Pass (ctx : RiskContext RiskFacts) (q : ℤ) : Prop where
  armed : (ctx.facts.snapshot.kill.strategies.get? ctx.intent.strategy).getD .armed = .armed
  enabled : ctx.intent.strategy ∈ ctx.facts.limits.enabledStrategies
  capital : ∀ price ∈ ctx.price, ctx.facts.snapshot.deployed ctx.intent.strategy +
    Reservations.amount ctx.facts.reserved.byStrategy ctx.intent.strategy + q * price ≤
      ctx.pct ctx.facts.limits.strategyCapitalPct
  dailyLoss : -(ctx.facts.snapshot.sodEquity * ctx.facts.limits.strategyDailyLossPct) <
    ctx.stats.dayPnl
  losses : ctx.stats.consecutiveLosses < ctx.facts.limits.strategyMaxConsecLosses
  orderRate : ctx.stats.ordersLastMin < ctx.facts.limits.strategyOrdersPerMin

theorem admit_iff (hopens : ctx.intent.kind.reducesRisk = false) (hq : 0 < q) :
    AllAdmit checks ctx q ↔ Pass ctx q := by
  have happ : ctx.intent.kind.opens = true := by rw [IntentKind.opens_eq, hopens]; rfl
  simp only [checks, allAdmit_of, allAdmit_nil, happ, forall_const,
    and_true]
  constructor
  · rintro ⟨harmed, henabled, hcapital, hloss, hstreak, hrate⟩
    exact
      { armed := not_not.mp ((Check.admits_blockIf ..).mp harmed)
        enabled := not_not.mp ((Check.admits_blockIf ..).mp henabled)
        capital := (admits_capitalAlloc hq).mp hcapital
        dailyLoss := not_le.mp ((Check.admits_blockIf ..).mp hloss)
        losses := not_le.mp ((Check.admits_blockIf ..).mp hstreak)
        orderRate := not_le.mp ((Check.admits_blockIf ..).mp hrate) }
  · intro h
    refine ⟨?_, ?_, (admits_capitalAlloc hq).mpr h.capital, ?_, ?_, ?_⟩ <;>
      refine (Check.admits_blockIf ..).mpr ?_
    · exact not_not.mpr h.armed
    · exact not_not.mpr h.enabled
    · exact not_le.mpr h.dailyLoss
    · exact not_le.mpr h.losses
    · exact not_le.mpr h.orderRate

end StrategyChecks

/-! ## Portfolio -/

namespace PortfolioChecks

theorem newSymbol_iff : newSymbol ctx = true ↔ ctx.key ∉ occupied ctx := by
  simp [newSymbol, occupied]

theorem card_occupied : ctx.facts.snapshot.held.card +
    (ctx.facts.reserved.symbols \ ctx.facts.snapshot.held).card = (occupied ctx).card := by
  rw [occupied, add_comm, Finset.card_sdiff_add_card, Finset.union_comm]

theorem admits_gross (hq : 0 < q) : Admits (gross ctx) q ↔
    ∀ price ∈ ctx.price, ctx.facts.snapshot.grossExposure + ctx.facts.reserved.gross +
      q * price ≤ ctx.pct ctx.facts.limits.maxGrossExposurePct := by
  unfold gross
  cases hp : ctx.price with
  | none => simp
  | some price => simp [Check.admits_room (ctx.price_pos hp) hq]

theorem admits_sector (hq : 0 < q) : Admits (sector ctx) q ↔
    ∀ price ∈ ctx.price, ctx.facts.snapshot.sectorExposure ctx.sector +
      Reservations.amount ctx.facts.reserved.bySector ctx.sector + q * price ≤
        ctx.pct ctx.facts.limits.maxSectorPct := by
  unfold sector
  cases hp : ctx.price with
  | none => simp
  | some price => simp [Check.admits_room (ctx.price_pos hp) hq]

theorem admits_heat (hq : 0 < q) : Admits (heat ctx) q ↔
    ∀ distance ∈ ctx.stopDistance, 0 < distance → ctx.facts.snapshot.heat +
      ctx.facts.reserved.heat + q * distance ≤ ctx.pct ctx.facts.limits.maxHeatPct := by
  unfold heat
  cases ctx.stopDistance with
  | none => simp
  | some distance =>
    by_cases h : distance ≤ 0
    · simp [h, not_lt.mpr h]
    · simp [h, Check.admits_room (not_le.mp h) hq, not_le.mp h]

theorem buyCostBuffer_pos : 0 < buyCostBuffer := by
  unfold buyCostBuffer
  norm_num

theorem admits_cash (hq : 0 < q) : Admits (cash ctx) q ↔
    ∀ price ∈ ctx.price, ctx.intent.side = .buy →
      ctx.facts.reserved.cash + q * (price * buyCostBuffer) ≤ ctx.facts.snapshot.cash := by
  unfold cash
  cases hp : ctx.price with
  | none => simp
  | some price =>
    have hper : 0 < price * buyCostBuffer := mul_pos (ctx.price_pos hp) buyCostBuffer_pos
    cases hside : ctx.intent.side with
    | sell => simp
    | buy =>
      by_cases h : ctx.facts.snapshot.cash - ctx.facts.reserved.cash ≤ 0
      · have hq' : (0 : ℚ) < q := by exact_mod_cast hq
        have hneg : ctx.facts.snapshot.cash < ctx.facts.reserved.cash +
            q * (price * buyCostBuffer) := by
          have := mul_pos hq' hper
          linarith
        simp [h, not_le.mpr hneg]
      · simp [h, Check.admits_resize hq, le_shares_iff hper hq, le_sub_iff_add_le']

/-- What the portfolio checks ask of an opening order. -/
structure Pass (ctx : RiskContext RiskFacts) (q : ℤ) : Prop where
  positions : ctx.key ∉ occupied ctx → (occupied ctx).card < ctx.facts.limits.maxPositions
  duplicate : ctx.intent.kind = .open → ctx.key ∉ occupied ctx
  reentry : ctx.key ∉ ctx.facts.snapshot.symbolsExitedToday ∧
    ctx.key ∉ ctx.facts.snapshot.symbolsEnteredToday
  gross : ∀ price ∈ ctx.price, ctx.facts.snapshot.grossExposure + ctx.facts.reserved.gross +
    q * price ≤ ctx.pct ctx.facts.limits.maxGrossExposurePct
  sector : ∀ price ∈ ctx.price, ctx.facts.snapshot.sectorExposure ctx.sector +
    Reservations.amount ctx.facts.reserved.bySector ctx.sector + q * price ≤
      ctx.pct ctx.facts.limits.maxSectorPct
  heat : ∀ distance ∈ ctx.stopDistance, 0 < distance → ctx.facts.snapshot.heat +
    ctx.facts.reserved.heat + q * distance ≤ ctx.pct ctx.facts.limits.maxHeatPct
  cash : ∀ price ∈ ctx.price, ctx.intent.side = .buy →
    ctx.facts.reserved.cash + q * (price * buyCostBuffer) ≤ ctx.facts.snapshot.cash
  dailyLoss : -(ctx.facts.snapshot.sodEquity * ctx.facts.limits.dailyLossLimitPct) <
    ctx.facts.snapshot.dayPnlMtm
  drawdown : 0 < ctx.facts.snapshot.peakEquity →
    (ctx.facts.snapshot.peakEquity - ctx.facts.snapshot.equity) / ctx.facts.snapshot.peakEquity <
      ctx.facts.limits.maxDrawdownPct
  entries : ctx.facts.snapshot.entriesToday + ctx.facts.reserved.entries <
    ctx.facts.limits.maxEntriesPerDay

theorem admit_iff (hopens : ctx.intent.kind.reducesRisk = false) (hq : 0 < q) :
    AllAdmit checks ctx q ↔ Pass ctx q := by
  have happ : ctx.intent.kind.opens = true := by rw [IntentKind.opens_eq, hopens]; rfl
  have hpositions : Admits (maxPositions ctx) q ↔
      (ctx.key ∉ occupied ctx → (occupied ctx).card < ctx.facts.limits.maxPositions) := by
    simp only [maxPositions, Check.admits_blockIf, newSymbol_iff, card_occupied, not_and, not_le]
  have hduplicate : Admits (duplicate ctx) q ↔
      (ctx.intent.kind = .open → ctx.key ∉ occupied ctx) := by
    simp only [duplicate, Check.admits_blockIf, ← newSymbol_iff, not_and, Bool.not_eq_false]
  have hreentry : Admits (reentrySameDay ctx) q ↔
      (ctx.key ∉ ctx.facts.snapshot.symbolsExitedToday ∧
        ctx.key ∉ ctx.facts.snapshot.symbolsEnteredToday) := by
    simp only [reentrySameDay, Check.admits_blockIf, not_or]
  have hdrawdown : Admits (drawdown ctx) q ↔ (0 < ctx.facts.snapshot.peakEquity →
      (ctx.facts.snapshot.peakEquity - ctx.facts.snapshot.equity) /
        ctx.facts.snapshot.peakEquity < ctx.facts.limits.maxDrawdownPct) := by
    simp only [drawdown, Check.admits_blockIf, not_and, not_le]
  simp only [checks, allAdmit_of, allAdmit_nil, happ, forall_const,
    and_true, hpositions, hduplicate, hreentry, admits_gross hq, admits_sector hq, admits_heat hq,
    admits_cash hq, hdrawdown]
  constructor
  · rintro ⟨hpos, hdup, hre, hgross, hsector, hheat, hcash, hloss, hdd, hentries⟩
    exact ⟨hpos, hdup, hre, hgross, hsector, hheat, hcash,
      not_le.mp ((Check.admits_blockIf ..).mp hloss), hdd,
      not_le.mp ((Check.admits_blockIf ..).mp hentries)⟩
  · intro h
    exact ⟨h.positions, h.duplicate, h.reentry, h.gross, h.sector, h.heat, h.cash,
      (Check.admits_blockIf ..).mpr (not_le.mpr h.dailyLoss), h.drawdown,
      (Check.admits_blockIf ..).mpr (not_le.mpr h.entries)⟩

end PortfolioChecks

/-! ## Event calendar -/

namespace EventChecks

/-- What the event calendar asks of an opening order: no window covers today. -/
def Pass (ctx : RiskContext RiskFacts) : Prop :=
  ∀ b ∈ (ctx.facts.snapshot.eventBlocks.get? ctx.key).getD [],
    b.covers ctx.facts.snapshot.now.istDate = true →
      b.code ≠ .evtResultsWindow ∧ b.code ≠ .evtAdverseMajor

theorem admits_window {code : ReasonCode} : Admits (window ctx code) q ↔
    ∀ b ∈ (ctx.facts.snapshot.eventBlocks.get? ctx.key).getD [],
      b.covers ctx.facts.snapshot.now.istDate = true → b.code ≠ code := by
  unfold window
  cases hfind : ((ctx.facts.snapshot.eventBlocks.get? ctx.key).getD []).find? fun b =>
      b.code = code ∧ b.covers ctx.facts.snapshot.now.istDate = true with
  | none =>
    simp only [Option.bind_eq_bind, hfind, Option.bind_none, admits_none, true_iff]
    intro b hb hcovers hcode
    have := List.find?_eq_none.mp hfind b hb
    simp [hcode, hcovers] at this
  | some b =>
    simp only [Option.bind_eq_bind, hfind, Option.bind_some, Option.pure_def, admits_some,
      Check.not_admits_block, false_iff, not_forall]
    have hb := List.find?_some hfind
    simp only [decide_eq_true_eq] at hb
    exact ⟨b, List.mem_of_find?_eq_some hfind, hb.2, fun hne => hne hb.1⟩

theorem admit_iff (hopens : ctx.intent.kind.reducesRisk = false) :
    AllAdmit checks ctx q ↔ Pass ctx := by
  have happ : ctx.intent.kind.opens = true := by rw [IntentKind.opens_eq, hopens]; rfl
  simp only [checks, allAdmit_of, allAdmit_nil, happ, forall_const,
    and_true, admits_window, Pass]
  constructor
  · rintro ⟨hresults, hadverse⟩ b hb hcovers
    exact ⟨hresults b hb hcovers, hadverse b hb hcovers⟩
  · intro h
    exact ⟨fun b hb hcovers => (h b hb hcovers).1, fun b hb hcovers => (h b hb hcovers).2⟩

end EventChecks

/-! ## Order -/

namespace OrderChecks

theorem admits_notionalMax (hq : 0 < q) : Admits (notionalMax ctx) q ↔ ∀ price ∈ ctx.price,
    q * price ≤ ctx.pct ctx.facts.limits.maxPositionPct ∧
      q * price ≤ ctx.facts.limits.maxPositionInr := by
  unfold notionalMax
  cases hp : ctx.price with
  | none => simp
  | some price => simp [Check.admits_resize hq, le_shares_iff (ctx.price_pos hp) hq]

/-- The stop gives a distance to size by. -/
theorem admits_risk (hq : 0 < q) : Admits (riskPerTrade ctx) q ∧ Admits (stopWrongSide ctx) q ↔
    ∃ distance, ctx.stopDistance = some distance ∧ 0 < distance ∧
      q * distance ≤ ctx.pct (riskFraction ctx) := by
  unfold riskPerTrade stopWrongSide
  cases ctx.stopDistance with
  | none => simp
  | some distance =>
    by_cases h : distance ≤ 0
    · simp [h, not_lt.mpr h]
    · simp [h, Check.admits_resize hq, le_shares_iff (not_le.mp h) hq, not_le.mp h]

/-- The fraction at risk is never above the limit. -/
theorem riskFraction_le : riskFraction ctx ≤ ctx.facts.limits.riskPerTrade := by
  unfold riskFraction
  dsimp only
  split
  · split
    · exact min_le_left _ _
    · exact le_rfl
  · exact le_rfl

theorem admits_stopTooWide : Admits (stopTooWide ctx) q ↔ ∀ distance ∈ ctx.stopDistance,
    ∀ price ∈ ctx.price, 0 < distance → distance / price ≤ ctx.facts.limits.maxStopPct ∧
      ∀ atr ∈ ctx.market.atr, 0 < atr → distance ≤ atr * ctx.facts.limits.stopAtrMax := by
  unfold stopTooWide
  cases ctx.stopDistance with
  | none => simp
  | some distance =>
    cases ctx.price with
    | none => simp
    | some price =>
      by_cases h : distance ≤ 0
      · simp [h, not_lt.mpr h]
      · by_cases hwide : ctx.facts.limits.maxStopPct < distance / price
        · simp [h, hwide, not_le.mp h, not_le.mpr hwide]
        · cases ctx.market.atr <;> simp [h, hwide, not_le.mp h, not_lt.mp hwide]

theorem admits_stopTooTight : Admits (stopTooTight ctx) q ↔ ∀ distance ∈ ctx.stopDistance,
    ∀ atr ∈ ctx.market.atr, 0 < distance → 0 < atr →
      atr * ctx.facts.limits.stopAtrMin ≤ distance := by
  unfold stopTooTight
  cases ctx.stopDistance with
  | none => simp
  | some distance => cases ctx.market.atr <;> simp

/-- The reward to the target. -/
def reward (ctx : RiskContext RiskFacts) (price target : ℚ) : ℚ :=
  if 0 < ctx.intent.side.sign then target - price else price - target

theorem admits_rrMin : Admits (rrMin ctx) q ↔ ∀ distance ∈ ctx.stopDistance,
    ∀ price ∈ ctx.price, ∀ target ∈ ctx.intent.targetPrice, 0 < distance →
      ctx.facts.limits.minRr ≤ reward ctx price target / distance := by
  unfold rrMin reward
  cases ctx.stopDistance with
  | none => simp
  | some distance =>
    cases ctx.price with
    | none => simp
    | some price => cases ctx.intent.targetPrice <;> simp

theorem admits_priceCollar : Admits (priceCollar ctx) q ↔ ∀ price ∈ ctx.price,
    |ctx.intent.decisionPrice / price - 1| ≤ ctx.facts.limits.priceCollarPct := by
  unfold priceCollar
  cases ctx.price <;> simp

theorem admits_advPct (hq : 0 < q) : Admits (advPct ctx) q ↔ ∀ adv ∈ ctx.market.advShares,
    0 < adv → q ≤ adv * ctx.facts.limits.advPct := by
  unfold advPct
  cases ctx.market.advShares with
  | none => simp
  | some adv =>
    by_cases h : adv ≤ 0
    · simp [h, not_lt.mpr h]
    · simp [h, Check.admits_resize hq, not_le.mp h, Int.le_floor]

theorem admits_circuitBand : Admits (circuitBand ctx) q ↔
    ∀ band ∈ ctx.intent.instrument.bandPct, ∀ quote ∈ ctx.market.quote,
      ∀ prevClose ∈ quote.prevClose, |quote.ltp / prevClose - 1| * 100 < band - 1 / 2 := by
  unfold circuitBand
  cases ctx.intent.instrument.bandPct with
  | none => simp
  | some band =>
    cases ctx.market.quote with
    | none => simp
    | some quote => cases hprev : quote.prevClose <;> simp [hprev, lt_sub_iff_add_lt]

/-- What the order's own checks ask of an opening order. -/
structure Pass (ctx : RiskContext RiskFacts) (q : ℤ) : Prop where
  asked : Admits (RiskEngine.runCheck ctx Check.qtyNonpos) q
  notional : ∀ price ∈ ctx.price, q * price ≤ ctx.pct ctx.facts.limits.maxPositionPct ∧
    q * price ≤ ctx.facts.limits.maxPositionInr
  risk : ∃ distance, ctx.stopDistance = some distance ∧ 0 < distance ∧
    q * distance ≤ ctx.pct (riskFraction ctx)
  stopTooWide : ∀ distance ∈ ctx.stopDistance, ∀ price ∈ ctx.price, 0 < distance →
    distance / price ≤ ctx.facts.limits.maxStopPct ∧
      ∀ atr ∈ ctx.market.atr, 0 < atr → distance ≤ atr * ctx.facts.limits.stopAtrMax
  stopTooTight : ∀ distance ∈ ctx.stopDistance, ∀ atr ∈ ctx.market.atr, 0 < distance → 0 < atr →
    atr * ctx.facts.limits.stopAtrMin ≤ distance
  rr : ∀ distance ∈ ctx.stopDistance, ∀ price ∈ ctx.price, ∀ target ∈ ctx.intent.targetPrice,
    0 < distance → ctx.facts.limits.minRr ≤ reward ctx price target / distance
  collar : ∀ price ∈ ctx.price,
    |ctx.intent.decisionPrice / price - 1| ≤ ctx.facts.limits.priceCollarPct
  adv : ∀ adv ∈ ctx.market.advShares, 0 < adv → q ≤ adv * ctx.facts.limits.advPct
  circuit : ∀ band ∈ ctx.intent.instrument.bandPct, ∀ quote ∈ ctx.market.quote,
    ∀ prevClose ∈ quote.prevClose, |quote.ltp / prevClose - 1| * 100 < band - 1 / 2
  tick : Admits (RiskEngine.runCheck ctx Check.tick) q
  short : Admits (RiskEngine.runCheck ctx Check.shortNotAllowed) q

theorem admit_iff (hopens : ctx.intent.kind.reducesRisk = false) (hq : 0 < q) :
    AllAdmit checks ctx q ↔ Pass ctx q := by
  have happ : ctx.intent.kind.opens = true := by rw [IntentKind.opens_eq, hopens]; rfl
  have hqty : (Check.qtyNonpos : Check RiskFacts).appliesTo ctx.intent.kind = true := rfl
  have htick : (Check.tick : Check RiskFacts).appliesTo ctx.intent.kind = true := rfl
  have hshort : (Check.shortNotAllowed : Check RiskFacts).appliesTo ctx.intent.kind = true := happ
  have hreduce : (Check.reduceExceedsPos : Check RiskFacts).appliesTo ctx.intent.kind = false :=
    hopens
  rw [checks, allAdmit_cons]
  simp only [allAdmit_of]
  simp only [allAdmit_cons, allAdmit_nil, happ, hqty, htick, hshort, hreduce, forall_const,
    Bool.false_eq_true, IsEmpty.forall_iff, and_true, admits_notionalMax hq, admits_stopTooWide,
    admits_stopTooTight, admits_rrMin, admits_priceCollar, admits_advPct hq, admits_circuitBand]
  constructor
  · rintro ⟨hasked, hnotional, hrisk, hside, hwide, htight, hrr, hcollar, hadv, hcircuit, htick,
      hshort⟩
    exact ⟨hasked, hnotional, (admits_risk hq).mp ⟨hrisk, hside⟩, hwide, htight, hrr, hcollar, hadv,
      hcircuit, htick, hshort⟩
  · intro h
    obtain ⟨hrisk, hside⟩ := (admits_risk hq).mpr h.risk
    exact ⟨h.asked, h.notional, hrisk, hside, h.stopTooWide, h.stopTooTight, h.rr, h.collar, h.adv,
      h.circuit, h.tick, h.short⟩

end OrderChecks

/-! ## All levels -/

/-- What all checks ask of an opening order. -/
structure Passes (ctx : RiskContext RiskFacts) (q : ℤ) : Prop where
  system : SystemChecks.Pass ctx
  strategy : StrategyChecks.Pass ctx q
  portfolio : PortfolioChecks.Pass ctx q
  events : EventChecks.Pass ctx
  order : OrderChecks.Pass ctx q

/-- The sizes the default engine may approve for an opening order are the ones at
which the conditions of all levels hold. -/
theorem RiskLimits.mem_admissible {limits : RiskLimits}
    (hopens : ctx.intent.kind.reducesRisk = false) (hq : 0 < q) :
    q ∈ limits.engine.Admissible ctx ↔ ctx.intent.instrument.lotSize ∣ q ∧
      (∀ asked ∈ ctx.requestedQty, q ≤ asked) ∧ Passes ctx q := by
  have hall : (∀ c ∈ limits.engine.checks, c.appliesTo ctx.intent.kind = true →
      Admits (RiskEngine.runCheck ctx c) q) ↔ Passes ctx q := by
    show AllAdmit defaultChecks ctx q ↔ _
    simp only [defaultChecks, allAdmit_append, SystemChecks.admit_iff hopens,
      StrategyChecks.admit_iff hopens hq, PortfolioChecks.admit_iff hopens hq,
      EventChecks.admit_iff hopens, OrderChecks.admit_iff hopens hq]
    constructor
    · rintro ⟨⟨⟨⟨hsystem, hstrategy⟩, hportfolio⟩, hevents⟩, horder⟩
      exact ⟨hsystem, hstrategy, hportfolio, hevents, horder⟩
    · intro h
      exact ⟨⟨⟨⟨h.system, h.strategy⟩, h.portfolio⟩, h.events⟩, h.order⟩
  rw [← hall]
  exact ⟨fun h => h.2, fun h => ⟨hq, h⟩⟩

end RakshaQuant
