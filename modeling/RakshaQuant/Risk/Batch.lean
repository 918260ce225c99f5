import RakshaQuant.Risk.Soundness

/-! A batch of proposals. Each approval is reserved for the ones that follow, so that
the approvals of a batch respect jointly what each respects alone: exposure, heat,
positions, entries and orders per minute. -/

namespace RakshaQuant

namespace Evaluation

variable (e : Evaluation)

def isApproved : Bool := 0 < e.approvedQty

def key : String := e.context.key

def sector : String := e.context.sector

def strategy : String := e.context.intent.strategy

/-- An evaluation of an opening order against reservations: what it approves passes. -/
structure Sound (limits : RiskLimits) (snapshot : RiskSnapshot) (reserved : Reservations) :
    Prop where
  opens : e.context.intent.kind.reducesRisk = false
  facts : e.context.facts = ⟨snapshot, limits, reserved⟩
  passes : 0 < e.approvedQty → Passes e.context e.approvedQty

end Evaluation

section Sound

variable {e : Evaluation} {limits : RiskLimits} {snapshot : RiskSnapshot} {r : Reservations}

theorem RiskLimits.evaluate_sound {intent : OrderIntent} {quantity : Option ℤ}
    (hopens : intent.kind.reducesRisk = false) :
    (limits.evaluate intent snapshot quantity r).Sound limits snapshot r :=
  ⟨hopens, rfl, fun hq => (evaluate_passes hopens hq).2.2⟩

/-- Nothing is approved: no notional, no risk. -/
theorem Evaluation.of_not_approved (h : ¬ 0 < e.approvedQty) :
    e.notional = 0 ∧ e.riskAmount = 0 := by
  have h0 : e.approvedQty = 0 := le_antisymm (not_lt.mp h) e.decision.qtyApproved_nonneg
  constructor
  · simp [notional, h0]
  · unfold riskAmount
    rw [h0]
    split
    · split <;> simp
    · rfl

/-- What an approval reserves. -/
structure Reservations.Grants (r : Reservations) (e : Evaluation) (r' : Reservations) : Prop where
  symbols : r'.symbols = if e.isApproved then insert e.key r.symbols else r.symbols
  gross : r'.gross = r.gross + e.notional
  heat : r'.heat = r.heat + e.riskAmount
  cash : r'.cash = r.cash + e.notional
  entries : r'.entries = r.entries + if e.isApproved then 1 else 0
  orders : r'.orders = r.orders + if e.isApproved then 1 else 0
  sector : ∀ name, amount r'.bySector name =
    amount r.bySector name + if e.sector = name then e.notional else 0
  strategy : ∀ name, amount r'.byStrategy name =
    amount r.byStrategy name + if e.strategy = name then e.notional else 0

theorem Evaluation.Sound.grants (h : e.Sound limits snapshot r) : r.Grants e (r.grant e) := by
  unfold Reservations.grant
  by_cases hq : 0 < e.approvedQty
  · obtain ⟨price, distance, hprice, hdistance, hpos, -⟩ := (h.passes hq).sizeLimits hq
    have happroved : e.isApproved = true := by simpa [Evaluation.isApproved] using hq
    have hnotional : e.notional = price * e.approvedQty := by
      simp [Evaluation.notional, hprice]
    have hrisk : e.riskAmount = distance * e.approvedQty := by
      simp [Evaluation.riskAmount, hdistance, hpos]
    rw [if_pos hq]
    simp only [Reservations.add, h.opens, hprice, hdistance, if_true, Bool.false_eq_true, if_false,
      Option.map_some, Option.getD_some]
    exact
      { symbols := by rw [if_pos happroved]; rfl
        gross := by rw [hnotional]
        heat := by rw [hrisk]
        cash := by rw [hnotional]
        entries := by rw [if_pos happroved]
        orders := by rw [if_pos happroved]
        sector := fun name => by rw [Reservations.amount_addTo, hnotional]; rfl
        strategy := fun name => by rw [Reservations.amount_addTo, hnotional]; rfl }
  · obtain ⟨hnotional, hrisk⟩ := Evaluation.of_not_approved hq
    have happroved : e.isApproved = false := by simpa [Evaluation.isApproved] using hq
    rw [if_neg hq]
    exact ⟨by simp [happroved], by simp [hnotional], by simp [hrisk], by simp [hnotional],
      by simp [happroved], by simp [happroved], by simp [hnotional], by simp [hnotional]⟩

end Sound

/-! ## Capacity -/

/-- The snapshot's usage plus what is reserved is within the limits. -/
structure Within (limits : RiskLimits) (snapshot : RiskSnapshot) (r : Reservations) : Prop where
  gross : snapshot.grossExposure + r.gross ≤ snapshot.equity * limits.maxGrossExposurePct
  sector : ∀ name, snapshot.sectorExposure name + Reservations.amount r.bySector name ≤
    snapshot.equity * limits.maxSectorPct
  strategy : ∀ name, snapshot.deployed name + Reservations.amount r.byStrategy name ≤
    snapshot.equity * limits.strategyCapitalPct
  heat : snapshot.heat + r.heat ≤ snapshot.equity * limits.maxHeatPct
  positions : (snapshot.held ∪ r.symbols).card ≤ limits.maxPositions
  entries : snapshot.entriesToday + r.entries ≤ limits.maxEntriesPerDay
  orders : snapshot.ordersLastMin + r.orders ≤ limits.ordersPerMin

section Within

variable {e : Evaluation} {limits : RiskLimits} {snapshot : RiskSnapshot} {r : Reservations}

/-- One evaluation keeps usage and reservations within the limits. -/
theorem Within.grant (h : Within limits snapshot r) (he : e.Sound limits snapshot r) :
    Within limits snapshot (r.grant e) := by
  have hgrants := he.grants
  by_cases hq : 0 < e.approvedQty
  -- what is approved passed every check, and the checks counted what was reserved
  · have hpasses := he.passes hq
    obtain ⟨price, distance, hprice, hdistance, hpos, hlimits⟩ := hpasses.sizeLimits hq
    have hfacts := he.facts
    have happroved : e.isApproved = true := by simpa [Evaluation.isApproved] using hq
    have hnotional : e.notional = e.approvedQty * price := by
      simp [Evaluation.notional, hprice, mul_comm]
    have hrisk : e.riskAmount = e.approvedQty * distance := by
      simp [Evaluation.riskAmount, hdistance, hpos, mul_comm]
    have hgross := hlimits.gross
    have hsector := hlimits.sector
    have hheat := hlimits.heat
    have hcapital := hlimits.capital
    have hpositions := hpasses.portfolio.positions
    have hentries := hpasses.portfolio.entries
    have horders := hpasses.system.orderRate
    simp only [PortfolioChecks.occupied] at hpositions
    rw [hfacts] at hgross hsector hheat hcapital hpositions hentries horders
    dsimp only at hgross hsector hheat hcapital hpositions hentries horders
    exact
      { gross := by rw [hgrants.gross, hnotional]; linarith
        sector := by
          intro name
          rw [hgrants.sector, hnotional]
          split
          · rename_i heq
            rw [← heq]
            have : e.sector = e.context.sector := rfl
            rw [this]
            linarith
          · have := h.sector name
            linarith
        strategy := by
          intro name
          rw [hgrants.strategy, hnotional]
          split
          · rename_i heq
            rw [← heq]
            have : e.strategy = e.context.intent.strategy := rfl
            rw [this]
            linarith
          · have := h.strategy name
            linarith
        heat := by rw [hgrants.heat, hrisk]; linarith
        positions := by
          rw [hgrants.symbols, if_pos happroved, Finset.union_insert]
          -- an instrument that is held or reserved already takes no new place
          by_cases hmem : e.key ∈ snapshot.held ∪ r.symbols
          · rw [Finset.insert_eq_of_mem hmem]
            exact h.positions
          · rw [Finset.card_insert_of_notMem hmem]
            exact hpositions hmem
        entries := by rw [hgrants.entries, if_pos happroved]; omega
        orders := by rw [hgrants.orders, if_pos happroved]; omega }
  · have hsame : r.grant e = r := if_neg hq
    rw [hsame]
    exact h

end Within

/-! ## A whole batch -/

namespace Evaluation

/-- How many of a batch are approved. -/
def approvals (es : List Evaluation) : ℕ := es.countP isApproved

/-- The instruments a batch is approved to trade. -/
def approvedKeys (es : List Evaluation) : Finset String :=
  ((es.filter isApproved).map key).toFinset

/-- The notional a batch is approved for. -/
def totalNotional (es : List Evaluation) : ℚ := (es.map notional).sum

def sectorNotional (es : List Evaluation) (name : String) : ℚ :=
  (es.map fun e => if e.sector = name then e.notional else 0).sum

def strategyNotional (es : List Evaluation) (name : String) : ℚ :=
  (es.map fun e => if e.strategy = name then e.notional else 0).sum

def totalRisk (es : List Evaluation) : ℚ := (es.map riskAmount).sum

end Evaluation

open Evaluation

/-- What a batch has reserved. -/
structure Reservations.Totals (r : Reservations) (es : List Evaluation) (r' : Reservations) :
    Prop where
  symbols : r'.symbols = r.symbols ∪ approvedKeys es
  gross : r'.gross = r.gross + totalNotional es
  heat : r'.heat = r.heat + totalRisk es
  cash : r'.cash = r.cash + totalNotional es
  entries : r'.entries = r.entries + approvals es
  orders : r'.orders = r.orders + approvals es
  sector : ∀ name, amount r'.bySector name = amount r.bySector name + sectorNotional es name
  strategy : ∀ name, amount r'.byStrategy name =
    amount r.byStrategy name + strategyNotional es name

section Totals

variable {e : Evaluation} {es : List Evaluation} {r r₁ r₂ : Reservations}

theorem Reservations.Totals.nil (r : Reservations) : r.Totals [] r :=
  ⟨by simp [approvedKeys], by simp [totalNotional], by simp [totalRisk], by simp [totalNotional],
    by simp [approvals], by simp [approvals], by simp [sectorNotional],
    by simp [strategyNotional]⟩

theorem Reservations.Totals.cons (h : r.Grants e r₁) (hs : r₁.Totals es r₂) :
    r.Totals (e :: es) r₂ where
  symbols := by
    rw [hs.symbols, h.symbols]
    cases happroved : e.isApproved with
    | true => simp [approvedKeys, happroved, Finset.insert_union, Finset.union_insert]
    | false => simp [approvedKeys, happroved]
  gross := by
    rw [hs.gross, h.gross]
    simp [totalNotional, add_assoc]
  heat := by
    rw [hs.heat, h.heat]
    simp [totalRisk, add_assoc]
  cash := by
    rw [hs.cash, h.cash]
    simp [totalNotional, add_assoc]
  entries := by
    rw [hs.entries, h.entries, approvals, approvals, List.countP_cons]
    omega
  orders := by
    rw [hs.orders, h.orders, approvals, approvals, List.countP_cons]
    omega
  sector := fun name => by
    rw [hs.sector, h.sector]
    simp [sectorNotional, add_assoc]
  strategy := fun name => by
    rw [hs.strategy, h.strategy]
    simp [strategyNotional, add_assoc]

end Totals

namespace RiskLimits

variable {limits : RiskLimits} {snapshot : RiskSnapshot}

/-- A batch of openings reserves the sum of its approvals and stays within the limits. -/
theorem evaluateFrom_spec {intents : List OrderIntent}
    (hopens : ∀ intent ∈ intents, intent.kind.reducesRisk = false) {r : Reservations}
    (h : Within limits snapshot r) : ∃ r', r.Totals (limits.evaluateFrom snapshot r intents) r' ∧
      Within limits snapshot r' := by
  induction intents generalizing r with
  | nil => exact ⟨r, .nil r, h⟩
  | cons intent rest ih =>
    have hsound : (limits.evaluate intent snapshot none r).Sound limits snapshot r :=
      evaluate_sound (hopens intent (List.mem_cons_self ..))
    obtain ⟨r', htotals, hwithin⟩ := ih (fun i hi => hopens i (List.mem_cons_of_mem _ hi))
      (h.grant hsound)
    exact ⟨r', .cons hsound.grants htotals, hwithin⟩

/-- **Batch capacity.** Given a snapshot within the limits, the approvals of a batch of
openings together take none of gross exposure, sector exposure, strategy capital and
heat past its limit, nor the book past its positions, entries or orders per minute. -/
theorem batch_capacity (limits : RiskLimits) (snapshot : RiskSnapshot)
    (intents : List OrderIntent)
    (hopens : ∀ intent ∈ intents, intent.kind.reducesRisk = false)
    (hwithin : Within limits snapshot .empty) :
    let es := limits.evaluateBatch intents snapshot
    snapshot.grossExposure + totalNotional es ≤ snapshot.equity * limits.maxGrossExposurePct ∧
    (∀ name, snapshot.sectorExposure name + sectorNotional es name ≤
      snapshot.equity * limits.maxSectorPct) ∧
    (∀ name, snapshot.deployed name + strategyNotional es name ≤
      snapshot.equity * limits.strategyCapitalPct) ∧
    snapshot.heat + totalRisk es ≤ snapshot.equity * limits.maxHeatPct ∧
    (snapshot.held ∪ approvedKeys es).card ≤ limits.maxPositions ∧
    snapshot.entriesToday + approvals es ≤ limits.maxEntriesPerDay ∧
    snapshot.ordersLastMin + approvals es ≤ limits.ordersPerMin := by
  intro es
  obtain ⟨r', htotals, h⟩ := evaluateFrom_spec hopens hwithin
  refine ⟨?_, fun name => ?_, fun name => ?_, ?_, ?_, ?_, ?_⟩
  · have := h.gross
    rwa [htotals.gross, Reservations.empty, zero_add] at this
  · have := h.sector name
    rwa [htotals.sector, Reservations.empty, Reservations.amount_empty, zero_add] at this
  · have := h.strategy name
    rwa [htotals.strategy, Reservations.empty, Reservations.amount_empty, zero_add] at this
  · have := h.heat
    rwa [htotals.heat, Reservations.empty, zero_add] at this
  · have := h.positions
    rwa [htotals.symbols, Reservations.empty, Finset.empty_union] at this
  · have := h.entries
    rwa [htotals.entries, Reservations.empty, Nat.zero_add] at this
  · have := h.orders
    rwa [htotals.orders, Reservations.empty, Nat.zero_add] at this

end RiskLimits

/-! ## Proposals in two instruments -/

namespace Sample

def tcs : Instrument := { infy with symbol := "TCS" }

/-- A hundred shares of an instrument, by its own intent. -/
def buy (id : String) (instrument : Instrument) : OrderIntent :=
  { stopped with intentId := id, instrument := instrument, quantity := some 100
                 quantity_pos := by simp }

/-- An empty book with quotes of both instruments. -/
def market2 : RiskSnapshot :=
  { snapshot with market := .ofList [(infy.key, facts), (tcs.key, facts)] }

/-- The second proposal in the first instrument is refused. -/
def proposals : List OrderIntent := [buy "I1" infy, buy "I2" infy, buy "I3" tcs]

theorem market2_within : Within limits market2 .empty where
  gross := by decide +kernel
  sector := fun _ => by
    show (0 : ℚ) + 0 ≤ market2.equity * limits.maxSectorPct
    decide +kernel
  strategy := fun _ => by
    show (0 : ℚ) + 0 ≤ market2.equity * limits.strategyCapitalPct
    decide +kernel
  heat := by decide +kernel
  positions := by decide +kernel
  entries := by decide
  orders := by decide

end Sample

theorem RiskLimits.batch_capacity_proposals :
    let es := Sample.limits.evaluateBatch Sample.proposals Sample.market2
    Sample.market2.grossExposure + totalNotional es ≤
      Sample.market2.equity * Sample.limits.maxGrossExposurePct ∧ approvals es = 2 :=
  ⟨(batch_capacity Sample.limits Sample.market2 Sample.proposals
    (by simp only [Sample.proposals, List.forall_mem_cons]; simp; decide) Sample.market2_within).1,
    by decide +kernel⟩

end RakshaQuant
