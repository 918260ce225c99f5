import RakshaQuant.Risk.Session

/-! How much of each portfolio limit is used: the Risk Center's meters. A meter computes a limit
in its own shape, with a clamped loss, a ratio or a count of positions; it is full exactly where
the engine's check of the same code blocks new entries. -/

namespace RakshaQuant

namespace Utilisation

inductive UsageUnit
  | inr
  | ratio
  | count
deriving DecidableEq

/-- `Usage`: `key` is the reason code the limit is enforced with, or `PF_SECTOR:` and a name. -/
structure Usage where
  key : String
  label : String
  used : ℚ
  limit : ℚ
  unit : UsageUnit
deriving DecidableEq

section usages

variable (s : RiskSnapshot) (limits : RiskLimits)

/-- `_of_equity`. -/
def ofEquity (fraction : ℚ) : ℚ := s.equity * fraction

/-- The positions that are open, counted one by one. -/
def openCount : ℕ := (s.positions.values.filter fun p => p.quantity ≠ 0).length

def drawdownUsed : ℚ :=
  if 0 < s.peakEquity then (s.peakEquity - s.equity) / s.peakEquity else 0

def utilisation : List Usage :=
  [⟨"PF_DAILY_LOSS_MTM", "Daily loss", max 0 (-s.dayPnlMtm),
      s.sodEquity * limits.dailyLossLimitPct, .inr⟩,
    ⟨"PF_DRAWDOWN", "Drawdown", max 0 (drawdownUsed s), limits.maxDrawdownPct, .ratio⟩,
    ⟨"PF_GROSS", "Gross exposure", s.grossExposure, ofEquity s limits.maxGrossExposurePct, .inr⟩,
    ⟨"PF_HEAT", "Heat (to stops)", s.heat, ofEquity s limits.maxHeatPct, .inr⟩,
    ⟨"PF_MAX_POSITIONS", "Positions", openCount s, limits.maxPositions, .count⟩,
    ⟨"PF_ENTRIES_PER_DAY", "Entries today", s.entriesToday, limits.maxEntriesPerDay, .count⟩]

/-- The sectors of the open positions. -/
def openSectors : List String :=
  ((s.positions.values.filter fun p => p.quantity ≠ 0).map fun p => sectorName p.sector).dedup

/-- Largest first, then by name. -/
def usageLe (u v : Usage) : Prop := v.used < u.used ∨ (v.used = u.used ∧ u.label ≤ v.label)

instance : DecidableRel usageLe := fun u v =>
  inferInstanceAs (Decidable (v.used < u.used ∨ (v.used = u.used ∧ u.label ≤ v.label)))

def sectorUsage : List Usage :=
  ((openSectors s).map fun name =>
    (⟨"PF_SECTOR:" ++ name, name, s.sectorExposure name, ofEquity s limits.maxSectorPct,
      .inr⟩ : Usage)).insertionSort usageLe

end usages

/-! ## The check of a code -/

/-- The engine's check of this code blocks. -/
def CheckBlocks (limits : RiskLimits) (ctx : RiskContext RiskFacts) (code : String) : Prop :=
  ∃ c ∈ limits.engine.checks, c.code.value = code ∧ c.appliesTo ctx.intent.kind = true ∧
    ∃ r, RiskEngine.runCheck ctx c = some r ∧ r.outcome = .block

/-- No two checks of the engine have one code. -/
theorem check_codes : (defaultChecks.map fun c => c.code.value).Nodup := by
  decide +kernel

theorem portfolio_mem {c : Check RiskFacts} (h : c ∈ PortfolioChecks.checks) :
    c ∈ defaultChecks := by
  unfold defaultChecks
  simp only [List.mem_append]
  exact .inl (.inl (.inr h))

section blocks

variable {ctx : RiskContext RiskFacts}

/-- The check of a code is the one the portfolio checks list under it. -/
theorem checkBlocks_iff (limits : RiskLimits) (code : ReasonCode)
    (fn : RiskContext RiskFacts → Option RiskCheckResult)
    (hmem : Check.of code IntentKind.opens fn ∈ PortfolioChecks.checks)
    (hopens : ctx.intent.kind.reducesRisk = false) :
    CheckBlocks limits ctx code.value ↔ ∃ r, fn ctx = some r ∧ r.outcome = .block := by
  have happ : ctx.intent.kind.opens = true := by
    rw [IntentKind.opens_eq, hopens]
    rfl
  constructor
  · rintro ⟨c, hc, hcode, -, hblock⟩
    have hsame : c = Check.of code IntentKind.opens fn :=
      List.inj_on_of_nodup_map check_codes hc (portfolio_mem hmem) hcode
    rwa [hsame] at hblock
  · intro hblock
    exact ⟨_, portfolio_mem hmem, rfl, happ, hblock⟩

theorem exists_room {code : ReasonCode} {limit used per : ℚ} {reached message : String} :
    (∃ r, some (Check.room code limit used per reached message) = some r ∧ r.outcome = .block) ↔
      limit ≤ used := by
  unfold Check.room
  split
  next h => simp [Check.block, h]
  next h => simp [Check.resize, h]

end blocks

/-- Counted one by one or by their instruments, the open positions are as many. -/
theorem card_held (s : RiskSnapshot) : s.held.card = openCount s := by
  have hfilter := s.positions.filter_keys fun p => decide (p.quantity ≠ 0)
  have hnodup : (s.positions.keys.filter fun key =>
      (s.positions.get? key).any (·.quantity ≠ 0)).Nodup :=
    s.positions.nodup_keys.filter _
  rw [RiskSnapshot.held, List.toFinset_card_of_nodup hnodup, ← hfilter, openCount, Dict.values]
  rw [List.filter_map, List.length_map, List.length_map]
  rfl

section meters

variable (limits : RiskLimits) (s : RiskSnapshot) (ctx : RiskContext RiskFacts)

/-- A clamped amount reaches a positive limit when the amount does. -/
theorem le_clamped_iff {limit amount : ℚ} (h : 0 < limit) :
    limit ≤ max 0 amount ↔ limit ≤ amount := by
  rw [le_max_iff]
  exact or_iff_right (not_le.mpr h)

theorem dailyLoss_meter (hsod : 0 < s.sodEquity) :
    s.sodEquity * limits.dailyLossLimitPct ≤ max 0 (-s.dayPnlMtm) ↔
      s.dayPnlMtm ≤ -(s.sodEquity * limits.dailyLossLimitPct) := by
  rw [le_clamped_iff (mul_pos hsod limits.dailyLossLimitPct_mem.1)]
  exact le_neg

theorem drawdown_meter : limits.maxDrawdownPct ≤ max 0 (drawdownUsed s) ↔
    0 < s.peakEquity ∧ limits.maxDrawdownPct ≤ (s.peakEquity - s.equity) / s.peakEquity := by
  rw [le_clamped_iff limits.maxDrawdownPct_mem.1, drawdownUsed]
  split
  next h => simp [h]
  next h => simp [h, limits.maxDrawdownPct_mem.1]

/-- A sector's meter reads the sector it is labelled with. -/
theorem mem_sectorUsage {u : Usage} (h : u ∈ sectorUsage s limits) :
    u.used = s.sectorExposure u.label ∧ u.limit = s.equity * limits.maxSectorPct := by
  unfold sectorUsage at h
  rw [List.mem_insertionSort] at h
  obtain ⟨name, -, rfl⟩ := List.mem_map.mp h
  exact ⟨rfl, rfl⟩

/-- One meter for each limit of the account, under the code of the check that enforces it. -/
theorem utilisation_keys : (utilisation s limits).map Usage.key =
    [ReasonCode.pfDailyLossMtm, .pfDrawdown, .pfGross, .pfHeat, .pfMaxPositions,
      .pfEntriesPerDay].map ReasonCode.value := rfl

theorem sectorUsage_labels :
    List.Perm ((sectorUsage s limits).map Usage.label) (openSectors s) := by
  have hsorted := ((openSectors s).map fun name => (⟨"PF_SECTOR:" ++ name, name,
    s.sectorExposure name, ofEquity s limits.maxSectorPct, .inr⟩ : Usage)).perm_insertionSort
      usageLe
  have hlabels := hsorted.map Usage.label
  rw [List.map_map, show Usage.label ∘ _ = id from rfl, List.map_id] at hlabels
  exact hlabels

/-- No sector has two meters. -/
theorem sectorUsage_nodup : ((sectorUsage s limits).map Usage.label).Nodup :=
  (sectorUsage_labels limits s).nodup_iff.mpr (List.nodup_dedup _)

/-- The sectors with a meter are those of the open positions. -/
theorem mem_sectorLabels (name : String) : name ∈ (sectorUsage s limits).map Usage.label ↔
    ∃ p ∈ s.positions.values, p.quantity ≠ 0 ∧ sectorName p.sector = name := by
  rw [(sectorUsage_labels limits s).mem_iff, openSectors, List.mem_dedup]
  simp only [List.mem_map, List.mem_filter, decide_eq_true_eq, and_assoc]

end meters

/-- **The meters match the checks.** There is one meter for each limit of the account and one for
each sector held. With a positive equity at the start of the day, for an opening order in an
instrument that is not held, with a quote and a positive stop distance, and nothing reserved: a
meter is full exactly where the check of its code blocks, and a sector's meter exactly where the
sector check blocks an order of the sector. -/
theorem meters_match (limits : RiskLimits) (s : RiskSnapshot) (intent : OrderIntent)
    (requested : Option ℤ) (hsod : 0 < s.sodEquity) (hopens : intent.kind.reducesRisk = false)
    (hnew : intent.instrument.key ∉ s.held)
    (hstop : ∃ distance ∈ (RiskFacts.context ⟨s, limits, .empty⟩ intent requested).stopDistance,
      0 < distance) :
    ((utilisation s limits).map Usage.key =
        [ReasonCode.pfDailyLossMtm, .pfDrawdown, .pfGross, .pfHeat, .pfMaxPositions,
          .pfEntriesPerDay].map ReasonCode.value ∧
      ((sectorUsage s limits).map Usage.label).Nodup ∧
      ∀ name, name ∈ (sectorUsage s limits).map Usage.label ↔
        ∃ p ∈ s.positions.values, p.quantity ≠ 0 ∧ sectorName p.sector = name) ∧
    (∀ u ∈ utilisation s limits, u.limit ≤ u.used ↔
      CheckBlocks limits (RiskFacts.context ⟨s, limits, .empty⟩ intent requested) u.key) ∧
    ∀ u ∈ sectorUsage s limits, sectorName intent.instrument.sector = u.label →
      (u.limit ≤ u.used ↔
        CheckBlocks limits (RiskFacts.context ⟨s, limits, .empty⟩ intent requested)
          "PF_SECTOR") := by
  obtain ⟨distance, hdistance, hpos⟩ := hstop
  obtain ⟨price, hprice⟩ : ∃ price,
      (RiskFacts.context ⟨s, limits, .empty⟩ intent requested).price = some price := by
    unfold RiskContext.stopDistance at hdistance
    cases hp : (RiskFacts.context ⟨s, limits, .empty⟩ intent requested).price with
    | none => simp [hp] at hdistance
    | some price => exact ⟨price, rfl⟩
  have hreduces : (RiskFacts.context ⟨s, limits, .empty⟩ intent requested).intent.kind.reducesRisk =
      false := hopens
  refine ⟨⟨utilisation_keys .., sectorUsage_nodup .., mem_sectorLabels limits s⟩, ?_, ?_⟩
  · intro u hu
    simp only [utilisation, List.mem_cons, List.not_mem_nil, or_false] at hu
    rcases hu with rfl | rfl | rfl | rfl | rfl | rfl
    · have hcheck := checkBlocks_iff limits .pfDailyLossMtm PortfolioChecks.dailyLossMtm
        (by simp [PortfolioChecks.checks]) hreduces
      exact (dailyLoss_meter limits s hsod).trans (hcheck.trans RiskGate.exists_blockIf).symm
    · have hcheck := checkBlocks_iff limits .pfDrawdown PortfolioChecks.drawdown
        (by simp [PortfolioChecks.checks]) hreduces
      exact (drawdown_meter limits s).trans (hcheck.trans RiskGate.exists_blockIf).symm
    · have hcheck := checkBlocks_iff limits .pfGross PortfolioChecks.gross
        (by simp [PortfolioChecks.checks]) hreduces
      -- a check that resizes blocks where it leaves no room
      refine Iff.trans ?_ hcheck.symm
      rw [PortfolioChecks.gross, hprice]
      simp only [Option.bind_eq_bind, Option.bind_some, Option.pure_def, exists_room]
      simp [RiskFacts.context, Reservations.empty, RiskContext.pct, ofEquity]
    · have hcheck := checkBlocks_iff limits .pfHeat PortfolioChecks.heat
        (by simp [PortfolioChecks.checks]) hreduces
      refine Iff.trans ?_ hcheck.symm
      rw [PortfolioChecks.heat, Option.mem_def.mp hdistance]
      simp only [Option.bind_eq_bind, Option.bind_some, Option.pure_def, not_le.mpr hpos, if_false,
        exists_room]
      simp [RiskFacts.context, Reservations.empty, RiskContext.pct, ofEquity]
    · have hcheck := checkBlocks_iff limits .pfMaxPositions PortfolioChecks.maxPositions
        (by simp [PortfolioChecks.checks]) hreduces
      refine Iff.trans ?_ hcheck.symm
      rw [PortfolioChecks.maxPositions, RiskGate.exists_blockIf]
      simp [PortfolioChecks.newSymbol, RiskContext.key, RiskFacts.context, Reservations.empty,
        hnew, card_held]
    · have hcheck := checkBlocks_iff limits .pfEntriesPerDay PortfolioChecks.entriesPerDay
        (by simp [PortfolioChecks.checks]) hreduces
      refine Iff.trans ?_ hcheck.symm
      rw [PortfolioChecks.entriesPerDay, RiskGate.exists_blockIf]
      simp [RiskFacts.context, Reservations.empty]
  · intro u hu hsector
    obtain ⟨hused, hlimit⟩ := mem_sectorUsage limits s hu
    have hcheck := checkBlocks_iff limits .pfSector PortfolioChecks.sector
      (by simp [PortfolioChecks.checks]) hreduces
    refine Iff.trans ?_ hcheck.symm
    rw [PortfolioChecks.sector, hprice]
    simp only [Option.bind_eq_bind, Option.bind_some, Option.pure_def, exists_room]
    simp [RiskFacts.context, Reservations.empty, RiskContext.pct, RiskContext.sector, hsector,
      hused, hlimit]

/-- A day that lost exactly its limit. -/
def lostLimit : RiskSnapshot := { Sample.snapshot with equity := 99000 }

/-- At the boundary the meter is full and the check blocks. -/
theorem meters_match_boundary :
    CheckBlocks Sample.limits (RiskFacts.context ⟨lostLimit, Sample.limits, .empty⟩
      Sample.stopped none) "PF_DAILY_LOSS_MTM" := by
  have hstop : ∃ distance ∈ (RiskFacts.context ⟨lostLimit, Sample.limits, .empty⟩
      Sample.stopped none).stopDistance, 0 < distance := ⟨2, by decide +kernel, by norm_num⟩
  obtain ⟨-, hmeters, -⟩ := meters_match Sample.limits lostLimit Sample.stopped none
    (by decide +kernel) rfl (by decide +kernel) hstop
  exact (hmeters _ List.mem_cons_self).mp (by decide +kernel)

end Utilisation

end RakshaQuant
