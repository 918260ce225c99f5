import Mathlib.Data.List.Dedup
import RakshaQuant.Domain.Years
import RakshaQuant.Store.Tape

/-! The daily bars of a backtest and the calendar of the days they traded. The calendar names
the holidays, the weekdays of each year without a bar, and the days are read back from it. -/

namespace RakshaQuant

/-- `sessions`: what traded on each day, as raw bars. -/
def sessions (bars : List Bar) : Dict Day (List Bar) :=
  bars.foldl (fun out b =>
    if b.adjusted then out
    else out.set b.sessionDate ((out.get? b.sessionDate).getD [] ++ [b])) .empty

/-- Keep a bar as the latest raw one of its instrument before `day`. -/
def keepLatest (day : Day) (latest : Dict String Bar) (b : Bar) : Dict String Bar :=
  if ¬b.adjusted ∧ b.sessionDate < day then
    match latest.get? b.instrumentKey with
    | none => latest.set b.instrumentKey b
    | some seen =>
      if seen.sessionDate < b.sessionDate then latest.set b.instrumentKey b else latest
  else latest

/-- `previous_closes`. -/
def previousCloses (bars : List Bar) (day : Day) : Dict String ℚ :=
  .ofList ((bars.foldl (keepLatest day) .empty).entries.map fun e => (e.1, e.2.close))

theorem standard_preOpen_le : (32400000000 : ℤ) ≤ 33300000000 := by decide

theorem standard_opening_lt : (33300000000 : ℤ) < 55800000000 := by decide

/-- From 09:15 to 15:30, with the market open to orders from 09:00. -/
def standardHours : SessionTimes :=
  { preOpen := 32400000000, opening := 33300000000, close := 55800000000
    preOpen_le := standard_preOpen_le, opening_lt := standard_opening_lt }

theorem days_left_lt {day last : ℤ} (h : day < last) :
    (last - (day + 1)).toNat < (last - day).toNat := by
  omega

/-- The weekdays without a bar from `day` on, to the end of the year. The day after the last date
there is raises: `none`. -/
def holidaysFrom (traded : List Day) (year : ℤ) (day : Day) : Option (List Day) :=
  if day.year = year then
    if day = Day.maxDay then none
    else
      (holidaysFrom traded year (day + 1)).map fun rest =>
        if day.weekday < 5 ∧ day ∉ traded then day :: rest else rest
  else some []
termination_by (Day.ofYear (year + 1) - day).toNat
decreasing_by
  exact days_left_lt (Day.year_eq_iff.mp ‹_›).2

/-- The holidays of some years. -/
def holidaysOf (traded : List Day) : List ℤ → Option (List Day)
  | [] => some []
  | year :: rest => do
    let holidays ← holidaysFrom traded year (Day.ofYear year)
    let later ← holidaysOf traded rest
    return holidays ++ later

/-- `calendar_from_bars`. -/
def calendarFromBars (bars : List Bar) : Option NSECalendar := do
  let traded := bars.map Bar.sessionDate
  let years := ((traded.map Day.year).dedup).insertionSort (· ≤ ·)
  let holidays ← holidaysOf traded years
  return { default := standardHours, years, holidays, specials := .empty }

section holidays

variable {traded : List Day} {year : ℤ} {day d : Day} {hs : List Day}

/-- The walk through a year finds the weekdays of it that have no bar. -/
theorem mem_holidaysFrom (hday : Day.ofYear year ≤ day)
    (h : holidaysFrom traded year day = some hs) :
    d ∈ hs ↔ day ≤ d ∧ d.year = year ∧ d.weekday < 5 ∧ d ∉ traded := by
  induction day using holidaysFrom.induct year generalizing hs with
  | case1 hyear =>
    rw [holidaysFrom, if_pos hyear, if_pos rfl] at h
    cases h
  | case2 day hyear hmax ih =>
    rw [holidaysFrom, if_pos hyear, if_neg hmax, Option.map_eq_some_iff] at h
    obtain ⟨rest, hrest, rfl⟩ := h
    have hlater := ih (le_trans hday (by grind)) hrest
    by_cases hfirst : d = day
    · subst hfirst
      grind
    · grind
  | case3 day hyear =>
    rw [holidaysFrom, if_neg hyear] at h
    cases h
    -- past the year, no day of it is left
    have hpast : Day.ofYear (year + 1) ≤ day := by
      by_contra hlt
      exact hyear (Day.year_eq_iff.mpr ⟨hday, not_le.mp hlt⟩)
    constructor
    · intro hmem
      cases hmem
    · rintro ⟨hle, hd, -⟩
      exact absurd (lt_of_le_of_lt (le_trans hpast hle) (Day.year_eq_iff.mp hd).2) (lt_irrefl _)

/-- Only the year of the last date there is is not walked to its end. -/
theorem holidaysFrom_isSome (hday : Day.ofYear year ≤ day) :
    (holidaysFrom traded year day).isSome ↔ ¬(year = Day.maxDay.year ∧ day ≤ Day.maxDay) := by
  induction day using holidaysFrom.induct year with
  | case1 hyear =>
    rw [holidaysFrom, if_pos hyear, if_pos rfl]
    simp [hyear]
  | case2 day hyear hmax ih =>
    have hnext : day + 1 ≤ Day.maxDay ↔ day ≤ Day.maxDay := by
      constructor
      · grind
      · intro hle
        exact Int.add_one_le_of_lt (lt_of_le_of_ne hle hmax)
    rw [holidaysFrom, if_pos hyear, if_neg hmax, Option.isSome_map, ih (by grind), hnext]
  | case3 day hyear =>
    rw [holidaysFrom, if_neg hyear]
    simp only [Option.isSome_some, true_iff, not_and]
    rintro rfl hle
    exact hyear (Day.year_eq_iff.mpr ⟨hday, lt_of_le_of_lt hle (Day.year_spec _).2⟩)

theorem mem_holidaysOf {years : List ℤ} (h : holidaysOf traded years = some hs) :
    d ∈ hs ↔ d.year ∈ years ∧ d.weekday < 5 ∧ d ∉ traded := by
  induction years generalizing hs with
  | nil =>
    cases h
    simp
  | cons year rest ih =>
    simp only [holidaysOf, Option.bind_eq_bind, Option.bind_eq_some_iff, Option.pure_def,
      Option.some.injEq] at h
    obtain ⟨here, hhere, later, hlater, rfl⟩ := h
    rw [List.mem_append, mem_holidaysFrom le_rfl hhere, ih hlater, List.mem_cons]
    constructor
    · rintro (⟨-, hyear, hfree⟩ | ⟨hmem, hfree⟩)
      · exact ⟨.inl hyear, hfree⟩
      · exact ⟨.inr hmem, hfree⟩
    · rintro ⟨hyear | hmem, hfree⟩
      · exact .inl ⟨Day.ofYear_le hyear, hyear, hfree⟩
      · exact .inr ⟨hmem, hfree⟩

theorem holidaysOf_isSome {years : List ℤ} :
    (holidaysOf traded years).isSome ↔ Day.maxDay.year ∉ years := by
  induction years with
  | nil => simp [holidaysOf]
  | cons year rest ih =>
    have hyear : (holidaysFrom traded year (Day.ofYear year)).isSome ↔
        ¬(year = Day.maxDay.year ∧ Day.ofYear year ≤ Day.maxDay) := holidaysFrom_isSome le_rfl
    rw [List.mem_cons, not_or, ← ih]
    simp only [holidaysOf, Option.bind_eq_bind, Option.pure_def]
    cases hhere : holidaysFrom traded year (Day.ofYear year) with
    | none =>
      rw [hhere] at hyear
      simp only [Option.isSome_none, Bool.false_eq_true, false_iff, not_not] at hyear
      simp [hyear.1]
    | some here =>
      have hother : ¬Day.maxDay.year = year := by
        rw [hhere] at hyear
        intro heq
        exact hyear.mp rfl ⟨heq.symm, heq ▸ (Day.year_spec _).1⟩
      cases holidaysOf traded rest <;> simp [hother]

end holidays

/-! ## The days of a calendar -/

namespace NSECalendar

variable {c : NSECalendar} {day : Day}

/-- Without a special session, a weekday that is no holiday trades. -/
theorem isTradingDay_of_covers (hcovers : c.covers day) (hplain : c.specials.get? day = none) :
    c.isTradingDay day = .ok (decide (day.weekday < 5 ∧ day ∉ c.holidays)) := by
  have hsession : c.session day =
      .ok (if 5 ≤ day.weekday ∨ day ∈ c.holidays then none else some c.default) := by
    rw [session, require, if_pos hcovers]
    simp only [bind, Except.bind, hplain]
    split <;> rfl
  rw [isTradingDay, hsession]
  show Except.ok (ite _ _ _ : Option SessionTimes).isSome = _
  congr 1
  by_cases hoff : 5 ≤ day.weekday ∨ day ∈ c.holidays
  · rw [if_pos hoff]
    grind
  · rw [if_neg hoff]
    grind

/-- The calendar never guesses. -/
theorem covers_of_isTradingDay {trades : Bool} (h : c.isTradingDay day = .ok trades) :
    c.covers day := by
  by_contra hcovers
  rw [isTradingDay, session, require, if_neg hcovers] at h
  cases h

/-- Reading the days one by one gives them in order. -/
theorem tradingDaysFrom_spec {p : Day → Prop} [DecidablePred p] {n : ℕ}
    (h : ∀ d, day ≤ d → d < day + n → c.isTradingDay d = .ok (decide (p d))) :
    ∃ days, c.tradingDaysFrom day n = .ok days ∧ days.Pairwise (· < ·) ∧
      ∀ d, d ∈ days ↔ day ≤ d ∧ d < day + n ∧ p d := by
  induction n generalizing day with
  | zero =>
    refine ⟨[], rfl, .nil, fun d => ?_⟩
    simp only [List.not_mem_nil, false_iff]
    grind
  | succ n ih =>
    have hlater : ∀ d, day + 1 ≤ d → d < day + 1 + n → c.isTradingDay d = .ok (decide (p d)) := by
      intro d hle hlt
      exact h d (by grind) (by push_cast; grind)
    obtain ⟨rest, hrest, hsorted, hmem⟩ := ih hlater
    have hfirst := h day le_rfl (by push_cast; grind)
    rw [tradingDaysFrom, hfirst]
    simp only [bind, Except.bind, hrest]
    by_cases hday : p day
    · refine ⟨day :: rest, by simp [hday]; rfl, ?_, fun d => ?_⟩
      · refine List.pairwise_cons.mpr ⟨fun d hd => ?_, hsorted⟩
        have := (hmem d).mp hd
        grind
      · rw [List.mem_cons, hmem]
        push_cast
        grind
    · refine ⟨rest, by simp [hday]; rfl, hsorted, fun d => ?_⟩
      rw [hmem]
      push_cast
      grind

/-- Every day was read. -/
theorem read_of_tradingDaysFrom {n : ℕ} {days : List Day} (h : c.tradingDaysFrom day n = .ok days)
    {d : Day} (hle : day ≤ d) (hlt : d < day + n) : ∃ trading, c.isTradingDay d = .ok trading := by
  induction n generalizing day days with
  | zero => grind
  | succ n ih =>
    rw [tradingDaysFrom] at h
    cases hfirst : c.isTradingDay day with
    | error e =>
      rw [hfirst] at h
      cases h
    | ok trading =>
      cases hrest : c.tradingDaysFrom (day + 1) n with
      | error e =>
        rw [hfirst, hrest] at h
        cases h
      | ok rest =>
        by_cases hd : d = day
        · exact ⟨trading, hd ▸ hfirst⟩
        · push_cast at hlt
          exact ih hrest (by grind) (by grind)

/-- What is read as a trading day is one. -/
theorem of_mem_tradingDaysFrom {n : ℕ} {days : List Day} (h : c.tradingDaysFrom day n = .ok days)
    {d : Day} (hd : d ∈ days) : c.isTradingDay d = .ok true := by
  induction n generalizing day days with
  | zero =>
    cases h
    cases hd
  | succ n ih =>
    rw [tradingDaysFrom] at h
    cases hfirst : c.isTradingDay day with
    | error e =>
      rw [hfirst] at h
      cases h
    | ok trading =>
      cases hrest : c.tradingDaysFrom (day + 1) n with
      | error e =>
        rw [hfirst, hrest] at h
        cases h
      | ok rest =>
        rw [hfirst, hrest] at h
        cases trading with
        | true =>
          cases h
          rcases List.mem_cons.mp hd with rfl | hd
          · exact hfirst
          · exact ih hrest hd
        | false =>
          cases h
          exact ih hrest hd

end NSECalendar

section calendars

variable {bars : List Bar} {c : NSECalendar} {day : Day}

/-- A calendar comes of every set of bars that has none in the last year there is. -/
theorem calendarFromBars_isSome :
    (calendarFromBars bars).isSome ↔ ∀ b ∈ bars, b.sessionDate.year ≠ Day.maxDay.year := by
  have hholidays : (holidaysOf (bars.map Bar.sessionDate)
      ((((bars.map Bar.sessionDate).map Day.year).dedup).insertionSort (· ≤ ·))).isSome ↔
      Day.maxDay.year ∉ (((bars.map Bar.sessionDate).map Day.year).dedup).insertionSort (· ≤ ·) :=
    holidaysOf_isSome
  have hyears : Day.maxDay.year ∉
        (((bars.map Bar.sessionDate).map Day.year).dedup).insertionSort (· ≤ ·) ↔
      ∀ b ∈ bars, b.sessionDate.year ≠ Day.maxDay.year := by
    simp
  rw [← hyears, ← hholidays, calendarFromBars]
  simp only [Option.bind_eq_bind, Option.pure_def]
  cases holidaysOf _ _ <;> rfl

theorem covers_calendarFromBars (h : calendarFromBars bars = some c) :
    c.covers day ↔ ∃ b ∈ bars, b.sessionDate.year = day.year := by
  simp only [calendarFromBars, Option.bind_eq_bind, Option.bind_eq_some_iff, Option.pure_def,
    Option.some.injEq] at h
  obtain ⟨holidays, -, rfl⟩ := h
  simp [NSECalendar.covers]

/-- The weekdays with a bar are what the calendar trades on. -/
theorem isTradingDay_calendarFromBars (h : calendarFromBars bars = some c)
    (hcovers : c.covers day) : c.isTradingDay day =
      .ok (decide (day.weekday < 5 ∧ ∃ b ∈ bars, b.sessionDate = day)) := by
  simp only [calendarFromBars, Option.bind_eq_bind, Option.bind_eq_some_iff, Option.pure_def,
    Option.some.injEq] at h
  obtain ⟨holidays, hholidays, rfl⟩ := h
  have hmem := mem_holidaysOf (d := day) hholidays
  have hyear := hcovers
  simp only [NSECalendar.covers, decide_eq_true_eq] at hyear
  rw [NSECalendar.isTradingDay_of_covers hcovers rfl]
  congr 1
  rw [decide_eq_decide, hmem, List.mem_map]
  simp only [hyear, true_and, not_and, not_not]
  constructor
  · rintro ⟨hweekday, hbar⟩
    exact ⟨hweekday, hbar hweekday⟩
  · rintro ⟨hweekday, hbar⟩
    exact ⟨hweekday, fun _ => hbar⟩

end calendars

end RakshaQuant
