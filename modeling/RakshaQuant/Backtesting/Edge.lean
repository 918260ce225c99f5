import Mathlib.Data.List.Forall2
import Mathlib.Data.List.Sort
import RakshaQuant.Domain.Events
import RakshaQuant.Lib.Decimal
import RakshaQuant.Lib.Dict
import RakshaQuant.Oms.PositionBook

/-! The gate of a backtest: statistics of the net return of each closed trade, and a verdict that
asks for enough of them. What a book closes is told a piece at a time, one for every lot an exit
meets, and each piece is counted as a trade. Floats are exact rationals here. -/

namespace RakshaQuant

/-- What the statistics take from numpy and from `math`. -/
structure Numpy where
  std : List ℚ → ℚ
  sqrt : ℚ → ℚ
  percentile : List ℚ → ℚ → ℚ
  /-- The means of samples with replacement, of a seed. -/
  choiceMeans : ℕ → ℕ → List ℚ → List ℚ
  /-- Shuffles of a list, of a seed. -/
  permutations : ℕ → ℕ → List ℚ → List (List ℚ)

namespace Edge

def minTrades : ℕ := 200

def tradingDays : ℚ := 252

/-- `round(x, digits)`. -/
def round (digits : ℕ) (x : ℚ) : ℚ := Decimal.quantize (1 / 10 ^ digits) x

def mean (l : List ℚ) : ℚ := l.sum / l.length

def median (l : List ℚ) : ℚ :=
  let sorted := l.insertionSort (· ≤ ·)
  let n := sorted.length
  if n % 2 = 1 then sorted.getD (n / 2) 0
  else (sorted.getD (n / 2 - 1) 0 + sorted.getD (n / 2) 0) / 2

/-- Net P&L as a percentage of the entry notional. -/
def tradeReturnPct (t : TradeClosed) : ℚ :=
  let notional := t.entryPrice * t.quantity
  if notional = 0 then 0 else t.netPnl / notional * 100

structure TradeStats where
  n : ℕ
  meanPct : Option ℚ
  medianPct : Option ℚ
  stdevPct : Option ℚ
  winRate : Option ℚ
  tStat : Option ℚ
  ci95 : Option (ℚ × ℚ)

def tradeStats (np : Numpy) (samples seed : ℕ) (returns : List ℚ) : TradeStats :=
  let n := returns.length
  if n = 0 then ⟨0, none, none, none, none, none, none⟩
  else
    let sd := if 1 < n then some (np.std returns) else none
    let t := (sd.filter (· ≠ 0)).map fun sd => mean returns / (sd / np.sqrt n)
    let means := np.choiceMeans seed samples returns
    { n
      meanPct := some (round 4 (mean returns))
      medianPct := some (round 4 (median returns))
      stdevPct := sd.map (round 4)
      winRate := some (round 4 (returns.countP (0 < ·) / n))
      tStat := t.map (round 3)
      ci95 := if 1 < n then
          some (round 4 (np.percentile means (5 / 2)), round 4 (np.percentile means (195 / 2)))
        else none }

/-- The deepest fall from a running peak, as a percentage of it. -/
def maxDrawdownPct (equity : List ℚ) : ℚ :=
  let run := equity.foldl (fun (acc : Option ℚ × ℚ) value =>
    let peak := match acc.1 with
      | none => value
      | some peak => max peak value
    (some peak, if 0 < peak then max acc.2 ((peak - value) / peak * 100) else acc.2)) (none, 0)
  round 3 run.2

def sortino (np : Numpy) (dailyReturns : List ℚ) : Option ℚ :=
  if dailyReturns.length < 2 then none
  else
    let downside := np.sqrt (mean (dailyReturns.map fun r => min r 0 ^ 2))
    if downside = 0 then none
    else some (round 3 (mean dailyReturns / downside * np.sqrt tradingDays))

/-- The median and the 95th percentile of the drawdowns of the trades in random orders. -/
def monteCarloDrawdown (np : Numpy) (weight : ℚ) (samples seed : ℕ) (returns : List ℚ) :
    Option (ℚ × ℚ) :=
  if returns.length < 2 then none
  else
    let paths := np.permutations seed samples (returns.map fun r => r / 100 * weight)
    let depths := paths.map fun path =>
      maxDrawdownPct (path.scanl (fun equity r => equity * (1 + r)) 1)
    some (round 3 (np.percentile depths 50), round 3 (np.percentile depths 95))

/-- From the last close before `start` to the last one up to `endDay`. -/
def periodReturnPct (closes : Dict Day ℚ) (start endDay : Day) : Option ℚ :=
  let days := closes.keys
  let inside := days.filter fun d => start ≤ d ∧ d ≤ endDay
  match inside.max?, inside.min? with
  | some latest, some first =>
    let base := closes.get? (((days.filter fun d => d < start).max?).getD first)
    match base, closes.get? latest with
    | some base, some close =>
      if base = 0 then none else some (round 3 ((close / base - 1) * 100))
    | _, _ => none
  | _, _ => none

/-- Why a backtest is not validated. -/
inductive Reason
  | tooFew (n : ℕ)
  | lowBound (low : Option ℚ)
deriving DecidableEq

/-- What `edge_report` is given besides the trades. A book starts with some cash. -/
structure Period where
  equity : Dict Day ℚ
  capital : ℚ
  start : Day
  endDay : Day
  sessions : ℕ
  regimes : Dict Day String
  indexCloses : Dict Day ℚ
  symbolCloses : Dict String (Dict Day ℚ)
  positionWeight : ℚ
  samples : ℕ
  seed : ℕ
  capital_pos : 0 < capital

structure EdgeReport where
  start : Day
  endDay : Day
  sessions : ℕ
  trades : TradeStats
  byStrategy : List (String × TradeStats)
  byRegime : List (String × TradeStats)
  portfolioReturnPct : Option ℚ
  niftyReturnPct : Option ℚ
  buyHoldReturnPct : Option ℚ
  sortino : Option ℚ
  maxDrawdownPct : ℚ
  monteCarloDrawdownPct : Option (ℚ × ℚ)
  verdict : String
  reasons : List Reason

/-- The returns of the trades by a label of each, the labels sorted. -/
def grouped (label : TradeClosed → String) (trades : List TradeClosed) :
    List (String × List ℚ) :=
  let groups := trades.foldl (fun (d : Dict String (List ℚ)) t =>
    d.set (label t) (((d.get? (label t)).getD []) ++ [tradeReturnPct t])) .empty
  groups.entries.insertionSort fun a b => a.1 ≤ b.1

/-- The reason that the trades are too few, if they are. -/
def countReason (stats : TradeStats) : List Reason :=
  if stats.n < minTrades then [.tooFew stats.n] else []

/-- The reason that the interval of the mean is not above zero, if it is not. -/
def boundReason (stats : TradeStats) : List Reason :=
  match stats.ci95 with
  | none => [.lowBound none]
  | some (low, _) => if low ≤ 0 then [.lowBound (some low)] else []

def edgeReport (np : Numpy) (p : Period) (trades : List TradeClosed) : EdgeReport :=
  let returns := trades.map tradeReturnPct
  let stats := tradeStats np p.samples p.seed returns
  let series := p.capital ::
    (p.equity.entries.insertionSort fun a b => a.1 ≤ b.1).map fun e => e.2
  let daily := (series.zip series.tail).filterMap fun (e : ℚ × ℚ) =>
    if e.1 = 0 then none else some (e.2 / e.1 - 1)
  let traded := ((trades.map fun t => t.instrumentKey).dedup).insertionSort (· ≤ ·)
  let holds := traded.filterMap fun key =>
    periodReturnPct ((p.symbolCloses.get? key).getD .empty) p.start p.endDay
  let reasons := countReason stats ++ boundReason stats
  { start := p.start
    endDay := p.endDay
    sessions := p.sessions
    trades := stats
    byStrategy := (grouped (fun t => t.strategy) trades).map fun g =>
      (g.1, tradeStats np p.samples p.seed g.2)
    byRegime := (grouped (fun t => (p.regimes.get? t.entryTs.istDate).getD "unknown") trades).map
      fun g => (g.1, tradeStats np p.samples p.seed g.2)
    portfolioReturnPct := if 1 < series.length then
        some (round 3 ((series.getLastD 0 / p.capital - 1) * 100))
      else none
    niftyReturnPct := periodReturnPct p.indexCloses p.start p.endDay
    buyHoldReturnPct := if holds = [] then none else some (round 3 (mean holds))
    sortino := sortino np daily
    maxDrawdownPct := maxDrawdownPct series
    monteCarloDrawdownPct := monteCarloDrawdown np p.positionWeight p.samples p.seed returns
    verdict := if reasons = [] then "VALIDATED" else "NOT VALIDATED"
    reasons }

/-! ## Cutting trades into pieces -/

/-- Pieces of a trade as partial fills give them: of the same decisions and prices, with some of
the shares each and the P&L and charges that go with them. -/
structure Pieces (t : TradeClosed) (ps : List TradeClosed) : Prop where
  nonempty : ps ≠ []
  same : ∀ p ∈ ps, p.bookId = t.bookId ∧ p.decisionId = t.decisionId ∧
    p.exitDecisionId = t.exitDecisionId ∧ p.instrumentKey = t.instrumentKey ∧
    p.strategy = t.strategy ∧ p.side = t.side ∧ p.entryPrice = t.entryPrice ∧
    p.exitPrice = t.exitPrice
  shares : (ps.map TradeClosed.quantity).sum = t.quantity
  positive : ∀ p ∈ ps, 0 < p.quantity
  proRata : ∀ p ∈ ps, p.grossPnl = t.grossPnl * p.quantity / t.quantity ∧
    p.charges = t.charges * p.quantity / t.quantity ∧
    p.netPnl = t.netPnl * p.quantity / t.quantity

/-- A trade is left as it is, or replaced by pieces. -/
def IsCut (t : TradeClosed) (ps : List TradeClosed) : Prop := ps = [t] ∨ Pieces t ps

theorem IsCut.ne_nil {t : TradeClosed} {ps : List TradeClosed} (h : IsCut t ps) : ps ≠ [] := by
  rcases h with rfl | h
  · exact List.cons_ne_nil t []
  · exact h.nonempty

/-- A piece returns what its trade does. -/
theorem IsCut.returns {t : TradeClosed} {ps : List TradeClosed} (h : IsCut t ps) :
    ∀ p ∈ ps, tradeReturnPct p = tradeReturnPct t := by
  intro p hp
  rcases h with rfl | h
  · rw [List.mem_singleton.mp hp]
  · obtain ⟨-, -, -, -, -, -, hentry, -⟩ := h.same p hp
    have hpos : (0 : ℚ) < p.quantity := by exact_mod_cast h.positive p hp
    have hle : p.quantity ≤ t.quantity := by
      rw [← h.shares]
      refine List.single_le_sum ?_ _ (List.mem_map.mpr ⟨p, hp, rfl⟩)
      intro q hq
      obtain ⟨p', -, rfl⟩ := List.mem_map.mp hq
      exact p'.quantity_nonneg
    have hwhole : (0 : ℚ) < t.quantity := hpos.trans_le (by exact_mod_cast hle)
    have hprice : t.entryPrice ≠ 0 := t.entryPrice_pos.ne'
    have hpiece : t.entryPrice * p.quantity ≠ 0 := mul_ne_zero hprice hpos.ne'
    have htrade : t.entryPrice * t.quantity ≠ 0 := mul_ne_zero hprice hwhole.ne'
    rw [tradeReturnPct, tradeReturnPct, hentry, (h.proRata p hp).2.2]
    rw [if_neg hpiece, if_neg htrade]
    field_simp

section cut

variable {trades : List TradeClosed} {parts : List (List TradeClosed)}

/-- There are no fewer pieces than trades, and more as soon as one trade is cut. -/
theorem length_cut (h : List.Forall₂ IsCut trades parts) :
    trades.length ≤ parts.flatten.length ∧
      (parts.flatten.length = trades.length ↔ ∀ ps ∈ parts, ps.length = 1) := by
  induction h with
  | nil => simp
  | cons hcut _ ih =>
    obtain ⟨hle, hiff⟩ := ih
    have hone := List.length_pos_iff.mpr hcut.ne_nil
    simp only [List.flatten_cons, List.length_append, List.length_cons, List.forall_mem_cons]
    rw [← hiff]
    omega

/-- What the pieces return, when each trade is one piece. -/
theorem returns_uncut (h : List.Forall₂ IsCut trades parts)
    (hone : ∀ ps ∈ parts, ps.length = 1) :
    parts.flatten.map tradeReturnPct = trades.map tradeReturnPct := by
  induction h with
  | nil => rfl
  | cons hcut _ ih =>
    obtain ⟨hhead, htail⟩ := List.forall_mem_cons.mp hone
    obtain ⟨p, rfl⟩ := List.length_eq_one_iff.mp hhead
    rw [List.flatten_cons, List.map_append, ih htail, List.map_cons, List.map_nil,
      hcut.returns p (List.mem_singleton_self p)]
    rfl

/-- The pieces in any order: those of different trades may come between one another. -/
structure Cut (trades : List TradeClosed) (parts : List (List TradeClosed))
    (pieces : List TradeClosed) : Prop where
  cut : List.Forall₂ IsCut trades parts
  order : pieces.Perm parts.flatten

/-- Two reports of as many trades, as many of them won, and one answer to whether they are
enough. -/
structure SameCounts (r r' : EdgeReport) : Prop where
  n : r'.trades.n = r.trades.n
  winRate : r'.trades.winRate = r.trades.winRate
  enough : (∃ n, .tooFew n ∈ r'.reasons) ↔ ∃ n, .tooFew n ∈ r.reasons

variable (np : Numpy) (p : Period)

@[simp] theorem tradeStats_n (samples seed : ℕ) (returns : List ℚ) :
    (tradeStats np samples seed returns).n = returns.length := by
  unfold tradeStats
  by_cases h : returns.length = 0 <;> simp [h]

@[simp] theorem edgeReport_n (trades : List TradeClosed) :
    (edgeReport np p trades).trades.n = trades.length := by
  simp [edgeReport]

theorem tooFew_iff (trades : List TradeClosed) :
    (∃ n, .tooFew n ∈ (edgeReport np p trades).reasons) ↔ trades.length < minTrades := by
  have hbound : ∀ stats n, Reason.tooFew n ∉ boundReason stats := by
    intro stats n
    unfold boundReason
    cases stats.ci95 with
    | none => simp
    | some ci => by_cases hlow : ci.1 ≤ 0 <;> simp [hlow]
  simp only [edgeReport, List.mem_append, hbound, or_false, countReason, tradeStats_n,
    List.length_map]
  by_cases hfew : trades.length < minTrades <;> simp [hfew]

/-- The order of the returns does not matter to how many are positive. -/
theorem winRate_perm (samples seed : ℕ) {returns returns' : List ℚ} (h : returns'.Perm returns) :
    (tradeStats np samples seed returns').winRate =
      (tradeStats np samples seed returns).winRate := by
  have hlength := h.length_eq
  unfold tradeStats
  by_cases hnone : returns.length = 0
  · simp [hlength, hnone]
  · simp [hlength, hnone, h.countP_eq]

/-- A report of pieces counts the pieces. -/
theorem edgeReport_counts_pieces {pieces : List TradeClosed} (h : Cut trades parts pieces) :
    (edgeReport np p pieces).trades.n = (parts.map List.length).sum := by
  rw [edgeReport_n, h.order.length_eq, List.length_flatten]

/-- The counts of a report are those of the trades exactly when no trade is in several pieces. -/
theorem edge_report_counts_iff {pieces : List TradeClosed} (h : Cut trades parts pieces) :
    SameCounts (edgeReport np p trades) (edgeReport np p pieces) ↔
      ∀ ps ∈ parts, ps.length = 1 := by
  obtain ⟨-, hlength⟩ := length_cut h.cut
  have hpieces : pieces.length = parts.flatten.length := h.order.length_eq
  constructor
  · intro hsame
    have hn := hsame.n
    rw [edgeReport_n, edgeReport_n, hpieces] at hn
    exact hlength.mp hn
  · intro hone
    have hn : pieces.length = trades.length := hpieces.trans (hlength.mpr hone)
    refine ⟨?_, ?_, ?_⟩
    · rw [edgeReport_n, edgeReport_n, hn]
    · have hreturns : (pieces.map tradeReturnPct).Perm (trades.map tradeReturnPct) := by
        rw [← returns_uncut h.cut hone]
        exact h.order.map tradeReturnPct
      exact winRate_perm np p.samples p.seed hreturns
    · rw [tooFew_iff, tooFew_iff, hn]

end cut

/-! An entry for 200 shares is filled a share at a time and closed in one exit: one trade, and
200 pieces that pass for enough trades. -/

namespace ShareByShare

theorem entry_pos : (0 : ℚ) < 1000 := by norm_num

theorem exit_pos : (0 : ℚ) < 1050 := by norm_num

theorem free : (0 : ℚ) ≤ 0 := le_rfl

theorem whole_nonneg : (0 : ℤ) ≤ 200 := by decide

theorem one_nonneg : (0 : ℤ) ≤ 1 := by decide

theorem cash_pos : (0 : ℚ) < 1000000 := by norm_num

def trade : TradeClosed where
  tradeId := "f1#1"
  bookId := "A"
  decisionId := "d1"
  exitDecisionId := "d2"
  instrumentKey := "NSE:EQ:INFY"
  strategy := "momentum"
  side := .buy
  quantity := 200
  entryPrice := 1000
  exitPrice := 1050
  entryTs := 0
  exitTs := 3600000000
  grossPnl := 10000
  charges := 0
  netPnl := 10000
  exitReason := "target"
  quantity_nonneg := whole_nonneg
  entryPrice_pos := entry_pos
  exitPrice_pos := exit_pos
  charges_nonneg := free

/-- The piece of one of the fills. -/
def piece (n : ℕ) : TradeClosed where
  tradeId := "f201#" ++ toString (n + 1)
  bookId := "A"
  decisionId := "d1"
  exitDecisionId := "d2"
  instrumentKey := "NSE:EQ:INFY"
  strategy := "momentum"
  side := .buy
  quantity := 1
  entryPrice := 1000
  exitPrice := 1050
  entryTs := 0
  exitTs := 3600000000
  grossPnl := 50
  charges := 0
  netPnl := 50
  exitReason := "target"
  quantity_nonneg := one_nonneg
  entryPrice_pos := entry_pos
  exitPrice_pos := exit_pos
  charges_nonneg := free

/-- What numpy gives on returns that are all the same. -/
def alike : Numpy where
  std _ := 0
  sqrt x := x
  percentile l _ := l.headD 0
  choiceMeans _ samples l := List.replicate samples (l.headD 0)
  permutations _ samples l := List.replicate samples l

def period : Period where
  equity := .empty
  capital := 1000000
  start := 20000
  endDay := 20010
  sessions := 10
  regimes := .empty
  indexCloses := .empty
  symbolCloses := .empty
  positionWeight := 1 / 10
  samples := 2000
  seed := 7
  capital_pos := cash_pos

theorem pieces_cut : Pieces trade ((List.range 200).map piece) where
  nonempty := by simp
  same p hp := by
    obtain ⟨n, -, rfl⟩ := List.mem_map.mp hp
    exact ⟨rfl, rfl, rfl, rfl, rfl, rfl, rfl, rfl⟩
  shares := by
    rw [List.map_map]
    decide +kernel
  positive p hp := by
    obtain ⟨n, -, rfl⟩ := List.mem_map.mp hp
    exact Int.one_pos
  proRata p hp := by
    obtain ⟨n, -, rfl⟩ := List.mem_map.mp hp
    simp only [piece, trade]
    norm_num

theorem pieces_pass_for_trades : ¬∀ (np : Numpy) (p : Period) (trades : List TradeClosed)
    (parts : List (List TradeClosed)) (pieces : List TradeClosed), Cut trades parts pieces →
      SameCounts (edgeReport np p trades) (edgeReport np p pieces) := by
  intro h
  have hsame := h alike period [trade] [(List.range 200).map piece] ((List.range 200).map piece)
    ⟨.cons (.inr pieces_cut) .nil, by simp⟩
  have henough := hsame.enough
  rw [tooFew_iff, tooFew_iff] at henough
  simp [minTrades] at henough

/-- The trade told as one piece, under another id. -/
def whole : TradeClosed := { trade with tradeId := "f201#1" }

theorem whole_cut : Pieces trade [whole] where
  nonempty := List.cons_ne_nil _ _
  same p hp := by
    rw [List.mem_singleton.mp hp]
    exact ⟨rfl, rfl, rfl, rfl, rfl, rfl, rfl, rfl⟩
  shares := rfl
  positive p hp := by
    rw [List.mem_singleton.mp hp]
    decide
  proRata p hp := by
    rw [List.mem_singleton.mp hp]
    simp only [whole, trade]
    norm_num

/-- Another entry, of which nothing was gained. -/
def flat : TradeClosed :=
  { trade with
    tradeId := "f2#1"
    decisionId := "d3"
    exitDecisionId := "d4"
    exitPrice := 1000
    grossPnl := 0
    netPnl := 0
    exitPrice_pos := entry_pos }

/-- Two trades, one of them as it was, and told in the other order. -/
theorem edge_report_counts_iff_one_piece :
    SameCounts (edgeReport alike period [trade, flat]) (edgeReport alike period [flat, whole]) ∧
      (edgeReport alike period [trade, flat]).trades.winRate = some (1 / 2) := by
  constructor
  · have hcut : Cut [trade, flat] [[whole], [flat]] [flat, whole] :=
      ⟨.cons (.inr whole_cut) (.cons (.inl rfl) .nil), .swap whole flat []⟩
    exact (edge_report_counts_iff alike period hcut).mpr (by simp)
  · decide +kernel

end ShareByShare

/-! ## What an exit closes -/

/-- An exit of all the shares closes a piece for every lot, and so for every fill of the entry. -/
theorem closeLots_pieces (fill : Fill) (product : Product) (exitReason : String) (direction : ℤ)
    (lots : List Lot) (exitCharges : ℚ) (n : ℕ) :
    ((closeLots fill product exitReason direction lots (lots.map Lot.quantity).sum exitCharges
      n).closed.map ClosedPiece.quantity) = lots.map Lot.quantity := by
  induction lots generalizing exitCharges n with
  | nil => simp [closeLots]
  | cons lot rest ih =>
    have hrest : 0 ≤ (rest.map Lot.quantity).sum := List.sum_nonneg fun q hq => by
      obtain ⟨l, -, rfl⟩ := List.mem_map.mp hq
      exact l.quantity_pos.le
    have hpos := lot.quantity_pos
    rw [List.map_cons, List.sum_cons, closeLots_whole _ _ _ _ _ _ (by omega) (by omega)]
    simp only [add_sub_cancel_left, List.map_cons, ih]
    rfl

end Edge

end RakshaQuant
