import RakshaQuant.Backtesting.Bars
import RakshaQuant.Domain.Events
import RakshaQuant.Lib.Effect

/-! A backtest: one paper session on each trading day of a period, over one store. The engine that
plays a session is a parameter; which days it is given comes from the calendar and the bars. -/

namespace RakshaQuant

/-- `MarkToMarket`, as far as the result of a backtest reads it. -/
structure SessionMark where
  bookId : String
  istDate : Day
  equity : ℚ

/-- The live engine on a replay clock, and what it leaves in the store. -/
structure SessionEngine (σ : Type) where
  /-- Play a day with its raw bars, the closes before it and the bars before it. -/
  play : Day → List Bar → Dict String ℚ → List Bar → EStateM Exc σ PUnit
  trades : σ → List TradeClosed
  marks : σ → List SessionMark

structure BacktestResult where
  sessions : List Day
  trades : List TradeClosed
  /-- The last mark of each session, by book. -/
  equity : Dict String (Dict Day ℚ)
  skipped : List Day

structure Backtest where
  bars : List Bar
  tradingCalendar : NSECalendar

namespace Backtest

variable {σ : Type}

/-- A backtest on the calendar it is given, or else on the sessions that its bars traded. -/
def new (bars : List Bar) (calendar : Option NSECalendar) : Option Backtest :=
  (calendar <|> calendarFromBars bars).map fun tradingCalendar => { bars, tradingCalendar }

theorem new_none (bars : List Bar) : new bars none =
    (calendarFromBars bars).map fun tradingCalendar => { bars, tradingCalendar } := rfl

/-- One session, unless nothing traded that day. -/
def runSession (b : Backtest) (engine : SessionEngine σ) (day : Day) : EStateM Exc σ Bool := do
  let today := ((sessions b.bars).get? day).getD []
  if today.isEmpty then return false
  engine.play day today (previousCloses b.bars day) (b.bars.filter (·.sessionDate < day))
  return true

/-- The days that ran and the days that were skipped. -/
def runDays (b : Backtest) (engine : SessionEngine σ) :
    List Day → EStateM Exc σ (List Day × List Day)
  | [] => return ([], [])
  | day :: rest => do
    let ran ← b.runSession engine day
    let later ← b.runDays engine rest
    return if ran then (day :: later.1, later.2) else (later.1, day :: later.2)

def equityOf (marks : List SessionMark) : Dict String (Dict Day ℚ) :=
  marks.foldl (fun equity m =>
    equity.set m.bookId (((equity.get? m.bookId).getD .empty).set m.istDate m.equity)) .empty

/-- `Backtest.run`. -/
def run (b : Backtest) (engine : SessionEngine σ) (start last : Day) :
    EStateM Exc σ BacktestResult := do
  let days ← ofExcept (b.tradingCalendar.tradingDays start last)
  let ran ← b.runDays engine days
  let store ← get
  return { sessions := ran.1, trades := engine.trades store
           equity := equityOf (engine.marks store), skipped := ran.2 }

/-! ## Which days run -/

/-- Some raw bar is of the day. -/
def Traded (bars : List Bar) (day : Day) : Prop :=
  ∃ bar ∈ bars, bar.adjusted = false ∧ bar.sessionDate = day

instance (bars : List Bar) (day : Day) : Decidable (Traded bars day) :=
  inferInstanceAs (Decidable (∃ bar ∈ bars, _))

variable {b : Backtest} {engine : SessionEngine σ} {day : Day} {s s' : σ}

theorem sessions_get (bars : List Bar) (day : Day) : ((sessions bars).get? day).getD [] =
    bars.filter fun bar => !bar.adjusted && bar.sessionDate = day := by
  have hfold : ∀ out : Dict Day (List Bar), ((bars.foldl (fun out b =>
      if b.adjusted then out
      else out.set b.sessionDate ((out.get? b.sessionDate).getD [] ++ [b])) out).get? day).getD [] =
      (out.get? day).getD [] ++ bars.filter fun bar => !bar.adjusted && bar.sessionDate = day := by
    induction bars with
    | nil => simp
    | cons bar rest ih =>
      intro out
      rw [List.foldl_cons, ih]
      by_cases hadjusted : bar.adjusted
      · simp [hadjusted]
      · by_cases hday : bar.sessionDate = day
        · simp [hadjusted, hday]
        · simp [hadjusted, hday, Ne.symm hday]
  exact hfold .empty

theorem runSession_ok {ran : Bool} (h : b.runSession engine day s = .ok ran s') :
    ran = decide (Traded b.bars day) := by
  have htraded : ((sessions b.bars).get? day).getD [] = [] ↔ ¬Traded b.bars day := by
    rw [sessions_get, List.filter_eq_nil_iff]
    simp [Traded]
  unfold runSession at h
  by_cases hempty : ((sessions b.bars).get? day).getD [] = []
  · rw [if_pos (by rw [hempty]; rfl)] at h
    cases h
    simp [htraded.mp hempty]
  · rw [if_neg (by simpa using hempty)] at h
    cases hplay : engine.play day (((sessions b.bars).get? day).getD [])
        (previousCloses b.bars day) (b.bars.filter (·.sessionDate < day)) s with
    | error e s'' =>
      rw [Effect.run_bind_error hplay] at h
      cases h
    | ok _ s'' =>
      rw [Effect.run_bind_ok hplay] at h
      cases h
      simp [not_not.mp (mt htraded.mpr hempty)]

/-- A run splits its days by the bars alone. -/
theorem runDays_ok {days : List Day} {ran : List Day × List Day}
    (h : b.runDays engine days s = .ok ran s') :
    ran = (days.filter fun day => Traded b.bars day, days.filter fun day => ¬Traded b.bars day) := by
  induction days generalizing s ran with
  | nil =>
    cases h
    rfl
  | cons day rest ih =>
    unfold runDays at h
    cases hday : b.runSession engine day s with
    | error e s'' =>
      rw [Effect.run_bind_error hday] at h
      cases h
    | ok this s'' =>
      rw [Effect.run_bind_ok hday] at h
      cases hrest : b.runDays engine rest s'' with
      | error e s₃ =>
        rw [Effect.run_bind_error hrest] at h
        cases h
      | ok later s₃ =>
        rw [Effect.run_bind_ok hrest] at h
        cases h
        rw [runSession_ok hday, ih hrest]
        by_cases htraded : Traded b.bars day <;> simp [htraded]

/-- What a finished run ran and skipped. -/
theorem run_ok {start last : Day} {result : BacktestResult}
    (h : b.run engine start last s = .ok result s') :
    ∃ days, b.tradingCalendar.tradingDays start last = .ok days ∧
      result.sessions = days.filter (fun day => Traded b.bars day) ∧
      result.skipped = days.filter fun day => ¬Traded b.bars day := by
  unfold run at h
  cases hdays : b.tradingCalendar.tradingDays start last with
  | error e =>
    rw [hdays] at h
    cases h
  | ok days =>
    rw [hdays] at h
    change (do
      let ran ← b.runDays engine days
      let store ← get
      return ({ sessions := ran.1, trades := engine.trades store
                equity := equityOf (engine.marks store), skipped := ran.2 } : BacktestResult) :
        EStateM Exc σ BacktestResult) s = .ok result s' at h
    cases hran : b.runDays engine days s with
    | error e s'' =>
      rw [Effect.run_bind_error hran] at h
      cases h
    | ok ran s'' =>
      rw [Effect.run_bind_ok hran] at h
      cases h
      rw [runDays_ok hran]
      exact ⟨days, rfl, rfl, rfl⟩

/-- No session of the data is left out. -/
def SkipsNone (σ : Type) (b : Backtest) : Prop :=
  ∀ (engine : SessionEngine σ) (start last : Day) (s s' : σ) (result : BacktestResult),
    b.run engine start last s = .ok result s' →
    result.skipped = [] ∧ ∀ day, day ∈ result.sessions ↔
      start ≤ day ∧ day ≤ last ∧ ∃ bar ∈ b.bars, bar.sessionDate = day

end Backtest

/-- A calendar whose sessions are the days of the data. -/
structure NSECalendar.IsOf (c : NSECalendar) (bars : List Bar) : Prop where
  covers : ∀ bar ∈ bars, c.covers bar.sessionDate
  trades : ∀ day, c.covers day →
    c.isTradingDay day = .ok (decide (∃ bar ∈ bars, bar.sessionDate = day))
  lists : ∀ start last, (∀ day, start ≤ day → day ≤ last → c.covers day) →
    ∃ days, c.tradingDays start last = .ok days ∧ days.Pairwise (· < ·) ∧
      ∀ day, day ∈ days ↔ start ≤ day ∧ day ≤ last ∧ ∃ bar ∈ bars, bar.sessionDate = day

section data

variable {bars : List Bar} {c : NSECalendar}

/-- On weekdays alone, the calendar is the data's. -/
theorem isOf_calendarFromBars (hweekdays : ∀ bar ∈ bars, bar.sessionDate.weekday < 5)
    (h : calendarFromBars bars = some c) : c.IsOf bars := by
  have htrades : ∀ day, c.covers day →
      c.isTradingDay day = .ok (decide (∃ bar ∈ bars, bar.sessionDate = day)) := by
    intro day hcovers
    rw [isTradingDay_calendarFromBars h hcovers]
    congr 1
    rw [decide_eq_decide]
    constructor
    · exact And.right
    · rintro ⟨bar, hbar, rfl⟩
      exact ⟨hweekdays bar hbar, bar, hbar, rfl⟩
  refine ⟨fun bar hbar => (covers_calendarFromBars h).mpr ⟨bar, hbar, rfl⟩, htrades, ?_⟩
  intro start last hcovers
  have hrange : ∀ d, start ≤ d → d < start + ((last + 1 - start : ℤ).toNat : ℤ) →
      c.isTradingDay d = .ok (decide (∃ bar ∈ bars, bar.sessionDate = d)) :=
    fun d hle hlt => htrades d (hcovers d hle (by grind))
  obtain ⟨days, hdays, hsorted, hmem⟩ := NSECalendar.tradingDaysFrom_spec hrange
  refine ⟨days, hdays, hsorted, fun day => ?_⟩
  rw [hmem]
  grind

/-- On weekdays that all have a raw bar, no session is skipped. -/
theorem skipsNone_calendarFromBars (σ : Type)
    (hbars : ∀ bar ∈ bars, bar.sessionDate.weekday < 5 ∧ Backtest.Traded bars bar.sessionDate)
    (h : calendarFromBars bars = some c) : ({ bars, tradingCalendar := c } : Backtest).SkipsNone σ := by
  intro engine start last s s' result hrun
  obtain ⟨days, hdays, hran, hskipped⟩ := Backtest.run_ok hrun
  -- a day is read as a trading day from a covered year, so a bar is of it
  have htraded : ∀ day ∈ days, Backtest.Traded bars day := by
    intro day hday
    have htrading := NSECalendar.of_mem_tradingDaysFrom hdays hday
    rw [isTradingDay_calendarFromBars h (NSECalendar.covers_of_isTradingDay htrading),
      Except.ok.injEq, decide_eq_true_eq] at htrading
    obtain ⟨-, bar, hbar, rfl⟩ := htrading
    exact (hbars bar hbar).2
  have hcovers : ∀ day, start ≤ day → day ≤ last → c.covers day := by
    intro day hstart hlast
    obtain ⟨trading, htrading⟩ := NSECalendar.read_of_tradingDaysFrom hdays hstart (by grind)
    exact NSECalendar.covers_of_isTradingDay htrading
  obtain ⟨listed, hlisted, -, hmem⟩ :=
    (isOf_calendarFromBars (fun bar hbar => (hbars bar hbar).1) h).lists start last hcovers
  obtain rfl : listed = days := by
    rw [hlisted] at hdays
    exact Except.ok.inj hdays
  constructor
  · rw [hskipped, List.filter_eq_nil_iff]
    intro day hday
    simpa using htraded day hday
  · intro day
    rw [hran, List.mem_filter, ← hmem, decide_eq_true_eq]
    exact and_iff_left_of_imp (htraded day)

/-- The engine that does nothing. -/
def idleEngine (σ : Type) : SessionEngine σ :=
  { play := fun _ _ _ _ => pure ⟨⟩, trades := fun _ => [], marks := fun _ => [] }

theorem runDays_idle {σ : Type} (b : Backtest) (days : List Day) (s : σ) :
    ∃ ran, b.runDays (idleEngine σ) days s = .ok ran s := by
  induction days with
  | nil => exact ⟨_, rfl⟩
  | cons day rest ih =>
    obtain ⟨later, hlater⟩ := ih
    have hday : ∃ ran, b.runSession (idleEngine σ) day s = .ok ran s := by
      unfold Backtest.runSession
      split
      · exact ⟨_, rfl⟩
      · exact ⟨_, rfl⟩
    obtain ⟨ran, hran⟩ := hday
    unfold Backtest.runDays
    rw [Effect.run_bind_ok hran, Effect.run_bind_ok hlater]
    exact ⟨_, rfl⟩

/-- A day that trades by the calendar and has no raw bar is skipped. -/
theorem traded_of_skipsNone {σ : Type} [Inhabited σ] {b : Backtest} (h : b.SkipsNone σ) {day : Day}
    (htrading : b.tradingCalendar.isTradingDay day = .ok true) : Backtest.Traded b.bars day := by
  have hdays : b.tradingCalendar.tradingDays day day = .ok [day] := by
    have hone : (day + 1 - day : ℤ).toNat = 1 := by
      rw [add_sub_cancel_left]
      rfl
    unfold NSECalendar.tradingDays
    rw [hone, NSECalendar.tradingDaysFrom, htrading]
    rfl
  obtain ⟨ran, hran⟩ := runDays_idle b [day] (default : σ)
  have hrun : b.run (idleEngine σ) day day default =
      .ok { sessions := ran.1, trades := [], equity := Backtest.equityOf [], skipped := ran.2 }
        default := by
    unfold Backtest.run
    rw [hdays]
    exact Effect.run_bind_ok hran
  obtain ⟨hskipped, -⟩ := h _ _ _ _ _ _ hrun
  rw [Backtest.runDays_ok hran] at hskipped
  simpa using hskipped

/-- **The calendar is the data's where the data is of weekdays.** A bar of a weekend is of no
session, a date of the last year there is ends the walk in an error, and a day of adjusted bars
alone trades and is skipped. -/
theorem calendarFromBars_iff (σ : Type) [Inhabited σ] (bars : List Bar) :
    (∃ b, Backtest.new bars none = some b ∧ calendarFromBars bars = some b.tradingCalendar ∧
      b.tradingCalendar.IsOf bars ∧ b.SkipsNone σ) ↔
    ∀ bar ∈ bars, bar.sessionDate.weekday < 5 ∧ bar.sessionDate.year ≠ Day.maxDay.year ∧
      Backtest.Traded bars bar.sessionDate := by
  constructor
  · rintro ⟨b, hnew, hcalendar, hof, hskips⟩ bar hbar
    have hbars : b.bars = bars := by
      rw [Backtest.new_none] at hnew
      obtain ⟨c, -, rfl⟩ := Option.map_eq_some_iff.mp hnew
      rfl
    have hcovers := hof.covers bar hbar
    have htrading := hof.trades _ hcovers
    rw [decide_eq_true ⟨bar, hbar, rfl⟩] at htrading
    have hread := isTradingDay_calendarFromBars hcalendar hcovers
    rw [htrading, Except.ok.injEq, eq_comm, decide_eq_true_eq] at hread
    refine ⟨hread.1, ?_, hbars ▸ traded_of_skipsNone hskips htrading⟩
    exact calendarFromBars_isSome.mp (Option.isSome_of_eq_some hcalendar) bar hbar
  · intro hbars
    obtain ⟨c, hc⟩ := Option.isSome_iff_exists.mp
      (calendarFromBars_isSome.mpr fun bar hbar => (hbars bar hbar).2.1)
    refine ⟨{ bars, tradingCalendar := c }, ?_, hc, ?_, ?_⟩
    · rw [Backtest.new_none, hc, Option.map_some]
    · exact isOf_calendarFromBars (fun bar hbar => (hbars bar hbar).1) hc
    · exact skipsNone_calendarFromBars σ
        (fun bar hbar => ⟨(hbars bar hbar).1, (hbars bar hbar).2.2⟩) hc

end data

/-! ## A session on a Saturday -/

namespace SaturdaySession

theorem key_ne : "NSE:EQ:INFY" ≠ "" := by decide

theorem price_pos : (0 : ℚ) < 100 := by norm_num

theorem volume_nonneg : (0 : ℤ) ≤ 1000 := by decide

theorem high_max : max (max (100 : ℚ) 100) 100 ≤ 100 := by norm_num

theorem low_min : (100 : ℚ) ≤ min 100 100 := by norm_num

/-- A bar of 20 January 2024, when the exchange held a special session. -/
def bar : Bar :=
  { instrumentKey := "NSE:EQ:INFY", timeframe := .d1, sessionDate := 19742, «open» := 100
    high := 100, low := 100, close := 100, volume := 1000, isSettled := true, adjusted := false
    source := .replay, instrumentKey_ne := key_ne, open_pos := price_pos, high_pos := price_pos
    low_pos := price_pos, close_pos := price_pos, volume_nonneg := volume_nonneg
    high_max := high_max, low_min := low_min }

end SaturdaySession

/-- A weekend session trades, and the calendar of its bars says that it does not. -/
theorem saturday_session_lost :
    ¬∀ (bars : List Bar) (c : NSECalendar), calendarFromBars bars = some c →
      ∀ day, c.covers day →
        c.isTradingDay day = .ok (decide (∃ bar ∈ bars, bar.sessionDate = day)) := by
  intro h
  obtain ⟨c, hc⟩ := Option.isSome_iff_exists.mp (calendarFromBars_isSome.mpr
    (by decide : ∀ b ∈ [SaturdaySession.bar], b.sessionDate.year ≠ Day.maxDay.year))
  have hcovers : c.covers SaturdaySession.bar.sessionDate :=
    (covers_calendarFromBars hc).mpr ⟨_, List.mem_singleton_self _, rfl⟩
  have htrades := h _ c hc _ hcovers
  rw [isTradingDay_calendarFromBars hc hcovers] at htrades
  exact absurd htrades (by decide)

end RakshaQuant
