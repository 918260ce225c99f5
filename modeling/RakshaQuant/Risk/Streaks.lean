import Mathlib.Data.Sign.Defs
import RakshaQuant.Lib.Blocks
import RakshaQuant.Risk.DayRuns

/-! Losing streaks. An exit may close several lots and come in several pieces; the tracker
means to count it once, remembers the last exit it counted and looks at the piece in hand.
So each exit is counted once, as what it is in total, exactly where the exits of a strategy
come one after the other and the first piece of each has the sign of the whole. -/

namespace RakshaQuant

/-- The exit a closed piece is of. -/
def TradeClosed.exit (t : TradeClosed) : String × String :=
  (if t.exitDecisionId = "" then t.tradeId else t.exitDecisionId, t.instrumentKey)

/-- `exit_ref`. -/
def exitRef (exit : String × String) : String := exit.1 ++ "|" ++ exit.2

/-- What a win or a loss does to a streak. -/
def streakAfter (streak : ℕ) (sign : SignType) : ℕ :=
  match sign with
  | -1 => streak + 1
  | 0 => streak
  | 1 => 0

namespace StrategyDay

/-- The strategy's day after one more piece. -/
def withPiece (day : StrategyDay) (t : TradeClosed) : StrategyDay :=
  let day := { day with realizedPnl := day.realizedPnl + t.netPnl }
  if day.lastExit = some (exitRef t.exit) then day
  else
    { day with
      lastExit := some (exitRef t.exit)
      trades := day.trades + 1
      consecutiveLosses := streakAfter day.consecutiveLosses (SignType.sign t.netPnl) }

/-- The strategy's day as the next day starts. -/
def rolled (day : StrategyDay) : StrategyDay :=
  { StrategyDay.empty with consecutiveLosses := day.consecutiveLosses, lastExit := day.lastExit }

end StrategyDay

namespace DailyRiskState

def day (s : DailyRiskState) (strategy : String) : StrategyDay :=
  (s.strategies.get? strategy).getD .empty

theorem streakAfter_sign (streak : ℕ) (net : ℚ) : streakAfter streak (SignType.sign net) =
    if net < 0 then streak + 1 else if 0 < net then 0 else streak := by
  rcases lt_trichotomy net 0 with h | rfl | h
  · rw [sign_neg h, if_pos h]
    rfl
  · rw [sign_zero]
    simp [streakAfter]
  · rw [sign_pos h, if_neg h.not_gt, if_pos h]
    rfl

theorem day_withTrade (s : DailyRiskState) (t : TradeClosed) (strategy : String) :
    (s.withTrade t).day strategy =
      if t.strategy = strategy then (s.day strategy).withPiece t else s.day strategy := by
  have hset : (s.withTrade t).strategies =
      s.strategies.set t.strategy ((s.day t.strategy).withPiece t) := by
    simp only [withTrade, withDay, StrategyDay.withPiece, streakAfter_sign]
    rfl
  unfold day
  rw [hset, Dict.get?_set]
  by_cases h : t.strategy = strategy
  · rw [if_pos h, if_pos h.symm, h]
    rfl
  · rw [if_neg h, if_neg (Ne.symm h)]

theorem day_rolled (bookId : String) (today : Day) (equity : ℚ) (s : DailyRiskState)
    (strategy : String) :
    (DailyRiskState.rolled bookId today equity (some s)).day strategy = (s.day strategy).rolled := by
  have hget : (DailyRiskState.rolled bookId today equity (some s)).strategies.get? strategy =
      (s.strategies.get? strategy).map StrategyDay.rolled :=
    Dict.get?_ofList_map s.strategies StrategyDay.rolled strategy
  unfold day
  rw [hget]
  cases s.strategies.get? strategy <;> rfl

end DailyRiskState

/-! ## Recording pieces -/

/-- The pieces of one strategy. -/
def piecesOf (strategy : String) (pieces : List (Instant × TradeClosed)) : List TradeClosed :=
  (pieces.map Prod.snd).filter fun t => t.strategy = strategy

/-- The exits of a strategy, in the order they began. -/
def exitsOf (strategy : String) (pieces : List (Instant × TradeClosed)) : List (String × String) :=
  (Blocks.firsts TradeClosed.exit [] (piecesOf strategy pieces)).map TradeClosed.exit

/-- The net P&L of an exit, all its pieces together. -/
def exitTotal (strategy : String) (pieces : List (Instant × TradeClosed))
    (exit : String × String) : ℚ :=
  (((piecesOf strategy pieces).filter fun t => t.exit = exit).map TradeClosed.netPnl).sum

/-- Calls of `record_trade`. -/
def recordTrades (pieces : List (Instant × TradeClosed)) : List TrackerStep :=
  pieces.map fun p => ⟨p.1, .event (.tradeClosed p.2), none⟩

namespace DailyRiskState

/-- The state a piece is recorded in. -/
def recordOn (bookId : String) (now : Instant) (s : DailyRiskState) : DailyRiskState :=
  (today bookId now none (some s)).getD s

def recordPiece (bookId : String) (s : DailyRiskState) (p : Instant × TradeClosed) :
    DailyRiskState :=
  (s.recordOn bookId p.1).withTrade p.2

/-- The exits at which the strategy's trades went up, and what each did to the streak. -/
def counts (bookId strategy : String) :
    DailyRiskState → List (Instant × TradeClosed) → List ((String × String) × SignType)
  | _, [] => []
  | s, p :: rest =>
    (if ((s.recordPiece bookId p).day strategy).trades =
        ((s.recordOn bookId p.1).day strategy).trades then []
      else [(p.2.exit, SignType.sign p.2.netPnl)]) ++
    counts bookId strategy (s.recordPiece bookId p) rest

section record

variable (bookId strategy : String) (s : DailyRiskState) (now : Instant)

/-- A new day keeps the streak and the last exit. -/
theorem day_recordOn : (s.recordOn bookId now).day strategy = s.day strategy ∨
    (s.recordOn bookId now).day strategy = (s.day strategy).rolled := by
  rw [recordOn, today]
  by_cases hday : s.istDate = now.istDate
  · rw [if_pos hday]
    exact .inl rfl
  · rw [if_neg hday]
    by_cases hold : now.istDate < s.istDate
    · rw [if_pos hold]
      exact .inl rfl
    · rw [if_neg hold]
      exact .inr (day_rolled ..)

theorem recordOn_same (h : s.istDate = now.istDate) : s.recordOn bookId now = s := by
  rw [recordOn, today, if_pos h, Option.getD_some]

theorem recordOn_istDate (h : s.istDate ≤ now.istDate) :
    (s.recordOn bookId now).istDate = now.istDate := by
  rw [recordOn, today, if_neg h.not_gt]
  by_cases hday : s.istDate = now.istDate
  · rw [if_pos hday]
    exact hday
  · rw [if_neg hday]
    rfl

@[simp] theorem lastExit_recordOn :
    ((s.recordOn bookId now).day strategy).lastExit = (s.day strategy).lastExit := by
  rcases day_recordOn bookId strategy s now with h | h <;> rw [h]
  rfl

@[simp] theorem consecutiveLosses_recordOn :
    ((s.recordOn bookId now).day strategy).consecutiveLosses =
      (s.day strategy).consecutiveLosses := by
  rcases day_recordOn bookId strategy s now with h | h <;> rw [h]
  rfl

variable (p : Instant × TradeClosed)

theorem day_recordPiece : (s.recordPiece bookId p).day strategy =
    if p.2.strategy = strategy then ((s.recordOn bookId p.1).day strategy).withPiece p.2
    else (s.recordOn bookId p.1).day strategy :=
  day_withTrade _ _ _

end record

end DailyRiskState

namespace StrategyDay

variable (day : StrategyDay) (t : TradeClosed)

theorem withPiece_counted (h : day.lastExit = some (exitRef t.exit)) :
    (day.withPiece t).trades = day.trades ∧
      (day.withPiece t).consecutiveLosses = day.consecutiveLosses ∧
      (day.withPiece t).lastExit = day.lastExit := by
  unfold withPiece
  rw [if_pos h]
  exact ⟨rfl, rfl, rfl⟩

theorem withPiece_new (h : day.lastExit ≠ some (exitRef t.exit)) :
    (day.withPiece t).trades = day.trades + 1 ∧
      (day.withPiece t).consecutiveLosses =
        streakAfter day.consecutiveLosses (SignType.sign t.netPnl) ∧
      (day.withPiece t).lastExit = some (exitRef t.exit) := by
  unfold withPiece
  rw [if_neg h]
  exact ⟨rfl, rfl, rfl⟩

end StrategyDay

namespace DailyRiskState

variable (bookId strategy : String)

/-- The code counts a piece where the exit's reference is not the last one. -/
theorem counts_eq (s : DailyRiskState) (pieces : List (Instant × TradeClosed)) :
    counts bookId strategy s pieces =
      (Blocks.changes (fun t => exitRef t.exit) (s.day strategy).lastExit
        (piecesOf strategy pieces)).map fun t => (t.exit, SignType.sign t.netPnl) := by
  induction pieces generalizing s with
  | nil => rfl
  | cons p rest ih =>
    have hday := day_recordPiece bookId strategy s p
    rw [counts, ih]
    by_cases hs : p.2.strategy = strategy
    · rw [if_pos hs] at hday
      have hpieces : piecesOf strategy (p :: rest) = p.2 :: piecesOf strategy rest := by
        simp [piecesOf, hs]
      rw [hpieces, Blocks.changes, hday]
      by_cases hlast : (s.day strategy).lastExit = some (exitRef p.2.exit)
      · obtain ⟨htrades, -, hexit⟩ := ((s.recordOn bookId p.1).day strategy).withPiece_counted p.2
          ((lastExit_recordOn ..).trans hlast)
        rw [if_pos htrades, hexit, lastExit_recordOn, if_pos hlast]
        rfl
      · obtain ⟨htrades, -, hexit⟩ := ((s.recordOn bookId p.1).day strategy).withPiece_new p.2
          (by rw [lastExit_recordOn]; exact hlast)
        rw [if_neg (by omega), hexit, if_neg hlast]
        rfl
    · rw [if_neg hs] at hday
      have hpieces : piecesOf strategy (p :: rest) = piecesOf strategy rest := by
        simp [piecesOf, hs]
      rw [hpieces, hday, if_pos rfl, lastExit_recordOn]
      rfl

/-- The streak is what the counted exits make of it. -/
theorem streak_counts (s : DailyRiskState) (pieces : List (Instant × TradeClosed)) :
    ((pieces.foldl (recordPiece bookId) s).day strategy).consecutiveLosses =
      (counts bookId strategy s pieces).foldl (fun streak c => streakAfter streak c.2)
        (s.day strategy).consecutiveLosses := by
  induction pieces generalizing s with
  | nil => rfl
  | cons p rest ih =>
    have hday := day_recordPiece bookId strategy s p
    rw [List.foldl_cons, ih, counts, List.foldl_append, hday]
    congr 1
    by_cases hs : p.2.strategy = strategy
    · rw [if_pos hs]
      by_cases hlast : (s.day strategy).lastExit = some (exitRef p.2.exit)
      · obtain ⟨htrades, hstreak, -⟩ :=
          ((s.recordOn bookId p.1).day strategy).withPiece_counted p.2
            ((lastExit_recordOn ..).trans hlast)
        rw [hstreak, if_pos htrades, consecutiveLosses_recordOn]
        rfl
      · obtain ⟨htrades, hstreak, -⟩ := ((s.recordOn bookId p.1).day strategy).withPiece_new p.2
          (by rw [lastExit_recordOn]; exact hlast)
        rw [hstreak, if_neg (by omega), consecutiveLosses_recordOn]
        rfl
    · rw [if_neg hs, if_pos rfl, consecutiveLosses_recordOn]
      rfl

/-- Within a day the trades are the exits counted. -/
theorem trades_counts (s : DailyRiskState) (pieces : List (Instant × TradeClosed))
    (hday : ∀ p ∈ pieces, p.1.istDate = s.istDate) :
    ((pieces.foldl (recordPiece bookId) s).day strategy).trades =
      (s.day strategy).trades + (counts bookId strategy s pieces).length := by
  induction pieces generalizing s with
  | nil => rfl
  | cons p rest ih =>
    have hsame : s.recordOn bookId p.1 = s :=
      recordOn_same bookId s p.1 (hday p List.mem_cons_self).symm
    have hpiece := day_recordPiece bookId strategy s p
    have hdate : (s.recordPiece bookId p).istDate = s.istDate := by
      rw [recordPiece, hsame]
      rfl
    rw [hsame] at hpiece
    rw [List.foldl_cons, ih _ fun q hq => (hday q (List.mem_cons_of_mem _ hq)).trans hdate.symm,
      counts, List.length_append, hsame, hpiece, ← add_assoc]
    congr 1
    by_cases hs : p.2.strategy = strategy
    · rw [if_pos hs]
      by_cases hlast : (s.day strategy).lastExit = some (exitRef p.2.exit)
      · obtain ⟨htrades, -, -⟩ := (s.day strategy).withPiece_counted p.2 hlast
        rw [htrades, if_pos rfl]
        rfl
      · obtain ⟨htrades, -, -⟩ := (s.day strategy).withPiece_new p.2 hlast
        rw [htrades, if_neg (by omega)]
        rfl
    · rw [if_neg hs, if_pos rfl]
      rfl

/-- The code counts each exit once, as what it is in total, exactly if the exits come one
after the other and the first piece of each has the sign of the whole. -/
theorem counts_exits_iff (s : DailyRiskState) (pieces : List (Instant × TradeClosed)) :
    counts bookId strategy s pieces = (exitsOf strategy pieces).map (fun exit =>
        (exit, SignType.sign (exitTotal strategy pieces exit))) ↔
      Blocks.InTurn (fun t => exitRef t.exit) TradeClosed.exit (s.day strategy).lastExit []
          (piecesOf strategy pieces) ∧
        ∀ t ∈ Blocks.firsts TradeClosed.exit [] (piecesOf strategy pieces),
          SignType.sign t.netPnl = SignType.sign (exitTotal strategy pieces t.exit) := by
  rw [counts_eq, exitsOf, List.map_map]
  constructor
  · intro h
    have hkeys : (Blocks.changes (fun t => exitRef t.exit) (s.day strategy).lastExit
        (piecesOf strategy pieces)).map TradeClosed.exit =
        (Blocks.firsts TradeClosed.exit [] (piecesOf strategy pieces)).map TradeClosed.exit := by
      have hfst := congrArg (List.map Prod.fst) h
      rwa [List.map_map, List.map_map] at hfst
    have hturn : Blocks.InTurn (fun t => exitRef t.exit) TradeClosed.exit (s.day strategy).lastExit
        [] (piecesOf strategy pieces) :=
      (Blocks.changes_keys_iff (f := exitRef) fun _ => rfl).mp hkeys
    refine ⟨hturn, fun t ht => ?_⟩
    rw [hturn.changes_eq] at h
    exact congrArg Prod.snd (List.map_inj_left.mp h t ht)
  · rintro ⟨hturn, hsigns⟩
    rw [hturn.changes_eq]
    exact List.map_inj_left.mpr fun t ht => Prod.ext rfl (hsigns t ht)

end DailyRiskState

namespace TrackerStep

open DailyRiskState

variable {config : RiskConfig}

/-- **The step lemma.** A piece that the clock allows is recorded, in memory and store. -/
theorem after_recordTrade {w : RiskWorld} {s : DailyRiskState} (hw : w.Tracks (some s) (some s))
    (p : Instant × TradeClosed) (hday : s.istDate ≤ p.1.istDate) :
    (after config w ⟨p.1, .event (.tradeClosed p.2), none⟩).Tracks
      (some (s.recordPiece config.bookId p)) (some (s.recordPiece config.bookId p)) := by
  obtain ⟨s', hw', ⟨breaches, -, hdoes⟩ | ⟨-, hnone, -⟩⟩ :=
    after_cases config hw ⟨p.1, .event (.tradeClosed p.2), none⟩
  · cases hdoes with
    | event recorded h =>
      cases recorded
      have hstate : today config.bookId p.1 none (some s) = some _ := h
      rw [recordPiece, recordOn, hstate]
      exact hw'
    | ignored ignored => cases ignored
  · have htoday : today config.bookId p.1 none (some s) = none := hnone rfl
    rw [today, if_neg hday.not_gt] at htoday
    split at htoday <;> cases htoday

/-- **The run lemma.** -/
theorem run_recordTrades {w : RiskWorld} {s : DailyRiskState} (hw : w.Tracks (some s) (some s))
    (pieces : List (Instant × TradeClosed))
    (hclock : (s.istDate :: pieces.map fun p => p.1.istDate).Pairwise (· ≤ ·)) :
    (run config w (recordTrades pieces)).tracker =
      some (pieces.foldl (recordPiece config.bookId) s) := by
  induction pieces generalizing w s with
  | nil => exact hw.1
  | cons p rest ih =>
    obtain ⟨hfirst, hrest⟩ := List.pairwise_cons.mp hclock
    have hday : s.istDate ≤ p.1.istDate := hfirst _ List.mem_cons_self
    refine ih (after_recordTrade hw p hday) ?_
    have hdate : (s.recordPiece config.bookId p).istDate = p.1.istDate :=
      recordOn_istDate config.bookId s p.1 hday
    rw [hdate]
    exact hrest

/-- **Streaks over exits.** However pieces are recorded: the streak is what the counted exits
make of it, and within a day the trades grow by their number. Each exit of the strategy is
counted once, in the order the exits began and as what it is in total, exactly if its pieces
come in turn and the first of them has the sign of them all. -/
theorem streak_counts_exits (config : RiskConfig) (w : RiskWorld) (s : DailyRiskState)
    (hw : w.Tracks (some s) (some s)) (pieces : List (Instant × TradeClosed))
    (hclock : (s.istDate :: pieces.map fun p => p.1.istDate).Pairwise (· ≤ ·))
    (strategy : String) :
    ∃ final, (run config w (recordTrades pieces)).tracker = some final ∧
      (final.day strategy).consecutiveLosses =
        (counts config.bookId strategy s pieces).foldl (fun streak c => streakAfter streak c.2)
          (s.day strategy).consecutiveLosses ∧
      ((∀ p ∈ pieces, p.1.istDate = s.istDate) → (final.day strategy).trades =
        (s.day strategy).trades + (counts config.bookId strategy s pieces).length) ∧
      (counts config.bookId strategy s pieces = (exitsOf strategy pieces).map (fun exit =>
          (exit, SignType.sign (exitTotal strategy pieces exit))) ↔
        Blocks.InTurn (fun t => exitRef t.exit) TradeClosed.exit (s.day strategy).lastExit []
            (piecesOf strategy pieces) ∧
          ∀ t ∈ Blocks.firsts TradeClosed.exit [] (piecesOf strategy pieces),
            SignType.sign t.netPnl = SignType.sign (exitTotal strategy pieces t.exit)) :=
  ⟨_, run_recordTrades hw pieces hclock, streak_counts config.bookId strategy s pieces,
    trades_counts config.bookId strategy s pieces, counts_exits_iff config.bookId strategy s pieces⟩

end TrackerStep

/-! ## Two exits with pieces in between -/

namespace Sample

theorem one_share_nonneg : (0 : ℤ) ≤ 1 := zero_le_one

theorem hundred_rupees_pos : (0 : ℚ) < 100 := by norm_num

theorem no_rupees_nonneg : (0 : ℚ) ≤ 0 := le_rfl

theorem ninety_rupees_pos : (0 : ℚ) < 90 := by norm_num

/-- A piece of an exit, with a loss of ten. -/
def lossPiece (exit instrument : String) : TradeClosed :=
  { tradeId := exit, bookId := "A", decisionId := "e", exitDecisionId := exit
    instrumentKey := instrument, strategy := "momentum", side := .buy, quantity := 1
    entryPrice := 100, exitPrice := 90, entryTs := 0, exitTs := 1
    grossPnl := -10, charges := 0, netPnl := -10, exitReason := ""
    quantity_nonneg := one_share_nonneg, entryPrice_pos := hundred_rupees_pos
    exitPrice_pos := ninety_rupees_pos, charges_nonneg := no_rupees_nonneg }

def startedDay : DailyRiskState := .rolled "A" (Instant.istDate 0) 1000000 none

def startedWorld : RiskWorld :=
  { stores with tracker := some startedDay, trackerStore := some startedDay }

/-- Two exits of two pieces each, one after the other. -/
def inTurn : List (Instant × TradeClosed) :=
  [(1, lossPiece "x1" "INFY"), (2, lossPiece "x1" "INFY"), (3, lossPiece "x2" "TCS"),
    (4, lossPiece "x2" "TCS")]

/-- The second exit starts before the first is over. -/
def interleaved : List (Instant × TradeClosed) :=
  [(1, lossPiece "x1" "INFY"), (2, lossPiece "x2" "TCS"), (3, lossPiece "x1" "INFY")]

theorem inTurn_clock :
    (startedDay.istDate :: inTurn.map fun p => p.1.istDate).Pairwise (· ≤ ·) := by
  decide +kernel

theorem interleaved_clock :
    (startedDay.istDate :: interleaved.map fun p => p.1.istDate).Pairwise (· ≤ ·) := by
  decide +kernel

end Sample

theorem TrackerStep.streak_counts_exits_inTurn :
    ∃ final, (run Sample.riskConfig Sample.startedWorld
        (recordTrades Sample.inTurn)).tracker = some final ∧
      (final.day "momentum").consecutiveLosses = 2 ∧ (final.day "momentum").trades = 2 := by
  obtain ⟨final, hrun, hstreak, htrades, -⟩ := streak_counts_exits Sample.riskConfig
    Sample.startedWorld Sample.startedDay ⟨rfl, rfl⟩ Sample.inTurn Sample.inTurn_clock "momentum"
  refine ⟨final, hrun, hstreak.trans ?_, (htrades ?_).trans ?_⟩
  all_goals decide +kernel

/-- One of the two exits is counted twice. -/
theorem TrackerStep.interleaved_exit_counted_twice :
    ¬∀ (config : RiskConfig) (w : RiskWorld) (s : DailyRiskState),
      w.Tracks (some s) (some s) → ∀ pieces : List (Instant × TradeClosed),
      (s.istDate :: pieces.map fun p => p.1.istDate).Pairwise (· ≤ ·) → ∀ strategy,
      ∃ final, (run config w (recordTrades pieces)).tracker = some final ∧
        (final.day strategy).consecutiveLosses = (exitsOf strategy pieces).foldl
          (fun streak exit => streakAfter streak
            (SignType.sign (exitTotal strategy pieces exit)))
          (s.day strategy).consecutiveLosses ∧
        ((∀ p ∈ pieces, p.1.istDate = s.istDate) → (final.day strategy).trades =
          (s.day strategy).trades + (exitsOf strategy pieces).length) := by
  intro h
  obtain ⟨final, hrun, hstreak, -⟩ := h Sample.riskConfig Sample.startedWorld Sample.startedDay
    ⟨rfl, rfl⟩ Sample.interleaved Sample.interleaved_clock "momentum"
  have hexits : (exitsOf "momentum" Sample.interleaved).foldl (fun streak exit =>
      streakAfter streak (SignType.sign (exitTotal "momentum" Sample.interleaved exit)))
      (Sample.startedDay.day "momentum").consecutiveLosses = 2 := by decide +kernel
  have hcounted : (run Sample.riskConfig Sample.startedWorld
      (recordTrades Sample.interleaved)).tracker.map
        (fun s => (s.day "momentum").consecutiveLosses) = some 3 := by decide +kernel
  rw [hrun, Option.map_some, hstreak, hexits] at hcounted
  cases hcounted

end RakshaQuant
