import RakshaQuant.Domain.Calendar

/-! The schedule of a trading day, driven by the calendar: before the open, the entry
window, the rest of the session, and what follows the close. -/

namespace RakshaQuant

/-- The instant of a time of day (in microseconds) on an IST day. -/
def Day.at (day : Day) (timeOfDay : ℤ) : Instant := day * 86400000000 - 19800000000 + timeOfDay

inductive SessionState
  | holiday
  | preOpen
  | «open»
  | entryWindow
  | monitor
  | close
  | report
  | exit
deriving DecidableEq

def SessionState.value : SessionState → String
  | holiday => "HOLIDAY"
  | preOpen => "PRE_OPEN"
  | «open» => "OPEN"
  | entryWindow => "ENTRY_WINDOW"
  | monitor => "MONITOR"
  | close => "CLOSE"
  | report => "REPORT"
  | exit => "EXIT"

/-- Times of the IST day and delays after the close, in microseconds. -/
structure LifecycleConfig where
  entryWindowStart : ℤ
  entryWindowEnd : ℤ
  reportAfterClose : ℤ
  exitAfterClose : ℤ
  entryWindow_lt : entryWindowStart < entryWindowEnd
  report_nonneg : 0 ≤ reportAfterClose
  report_le : reportAfterClose ≤ exitAfterClose

/-- The defaults: 09:20 to 09:45, and 15 and 20 minutes after the close. -/
def LifecycleConfig.default : LifecycleConfig where
  entryWindowStart := 33600000000
  entryWindowEnd := 35100000000
  reportAfterClose := 900000000
  exitAfterClose := 1200000000
  entryWindow_lt := by decide
  report_nonneg := by decide
  report_le := by decide

/-- A session's schedule; the entry window is there when it fits into the session. -/
structure Schedule where
  opening : Instant
  closing : Instant
  entry : Option (Instant × Instant)
  report : Instant
  exit : Instant

def Schedule.stateAt (s : Schedule) (ts : Instant) : SessionState :=
  if ts < s.opening then .preOpen
  else if ts < s.closing then
    match s.entry with
    | none => .monitor
    | some (start, stop) =>
      if ts < start then .open else if ts < stop then .entryWindow else .monitor
  else if ts < s.report then .close
  else if ts < s.exit then .report
  else .exit

/-- The states after PRE_OPEN with the instants they start at, in order. -/
def Schedule.transitions (s : Schedule) : List (SessionState × Instant) :=
  (match s.entry with
    | none => [(.monitor, s.opening)]
    | some (start, stop) =>
      (if s.opening < start then [(.open, s.opening)] else []) ++ [(.entryWindow, start)] ++
        if stop < s.closing then [(.monitor, stop)] else []) ++
    [(.close, s.closing), (.report, s.report), (.exit, s.exit)]

/-- `build_schedule`: none when the market does not trade that day. -/
def buildSchedule (calendar : NSECalendar) (day : Day) (config : LifecycleConfig) :
    Except Exc (Option Schedule) := do
  match ← calendar.session day with
  | none => return none
  | some times =>
    let fits := times.opening ≤ config.entryWindowStart ∧ config.entryWindowEnd ≤ times.close
    return some
      { opening := Day.at day times.opening, closing := Day.at day times.close
        entry := if fits then
            some (Day.at day config.entryWindowStart, Day.at day config.entryWindowEnd)
          else none
        report := Day.at day times.close + config.reportAfterClose
        exit := Day.at day times.close + config.exitAfterClose }

/-- A schedule is in order, and an entry window lies within the session. -/
theorem buildSchedule_spec {calendar : NSECalendar} {day : Day} {config : LifecycleConfig}
    {s : Schedule} (h : buildSchedule calendar day config = .ok (some s)) :
    s.opening < s.closing ∧ s.closing ≤ s.report ∧ s.report ≤ s.exit ∧
      ∀ start stop, s.entry = some (start, stop) →
        s.opening ≤ start ∧ start < stop ∧ stop ≤ s.closing := by
  have hat : ∀ a b, Day.at day a < Day.at day b ↔ a < b := fun a b => add_lt_add_iff_left _
  have hat' : ∀ a b, Day.at day a ≤ Day.at day b ↔ a ≤ b := fun a b => add_le_add_iff_left _
  unfold buildSchedule at h
  cases hsession : calendar.session day with
  | error e =>
    rw [hsession] at h
    cases h
  | ok times? =>
    rw [hsession] at h
    cases times? with
    | none => cases h
    | some times =>
      cases h
      have hreport := config.report_nonneg
      have hexit := config.report_le
      refine ⟨(hat _ _).mpr times.opening_lt, le_add_of_nonneg_right hreport,
        (add_le_add_iff_left _).mpr hexit, fun start stop hentry => ?_⟩
      dsimp only at hentry
      split at hentry
      · rename_i hfits
        cases hentry
        exact ⟨(hat' _ _).mpr hfits.1, (hat _ _).mpr config.entryWindow_lt,
          (hat' _ _).mpr hfits.2⟩
      · cases hentry

namespace Schedule

variable {s : Schedule}

/-- What comes before the close: its states, and that it starts by then. -/
theorem transitions_early (hopening : s.opening < s.closing)
    (hentry : ∀ start stop, s.entry = some (start, stop) →
      s.opening ≤ start ∧ start < stop ∧ stop ≤ s.closing) :
    ∃ early, s.transitions =
        early ++ [(.close, s.closing), (.report, s.report), (.exit, s.exit)] ∧
      (∀ e ∈ early, e.1 = .open ∨ e.1 = .entryWindow ∨ e.1 = .monitor) ∧
      ∀ e ∈ early, e.2 ≤ s.closing := by
  unfold transitions
  cases hwindow : s.entry with
  | none => exact ⟨_, rfl, by simp, by simpa using hopening.le⟩
  | some window =>
    obtain ⟨start, stop⟩ := window
    obtain ⟨hopens, hlt, hstops⟩ := hentry start stop hwindow
    refine ⟨_, rfl, fun e he => ?_, fun e he => ?_⟩
    · simp only [List.mem_append, List.mem_singleton] at he
      rcases he with (he | rfl) | he
      · split at he
        · rw [List.mem_singleton.mp he]
          exact .inl rfl
        · cases he
      · exact .inr (.inl rfl)
      · split at he
        · rw [List.mem_singleton.mp he]
          exact .inr (.inr rfl)
        · cases he
    · simp only [List.mem_append, List.mem_singleton] at he
      rcases he with (he | rfl) | he
      · split at he
        · rw [List.mem_singleton.mp he]
          exact hopening.le
        · cases he
      · exact hlt.le.trans hstops
      · split at he
        · rw [List.mem_singleton.mp he]
          exact hstops
        · cases he

theorem stateAt_early {ts : Instant} (h : ts < s.closing) :
    s.stateAt ts = .preOpen ∨ s.stateAt ts = .open ∨ s.stateAt ts = .entryWindow ∨
      s.stateAt ts = .monitor := by
  unfold stateAt
  rw [if_pos h]
  split
  · exact .inl rfl
  cases s.entry with
  | none => exact .inr (.inr (.inr rfl))
  | some window =>
    dsimp only
    split
    · exact .inr (.inl rfl)
    split
    · exact .inr (.inr (.inl rfl))
    · exact .inr (.inr (.inr rfl))

theorem stateAt_close {ts : Instant} (hopening : s.opening < s.closing) (h : s.closing ≤ ts)
    (hreport : ts < s.report) : s.stateAt ts = .close := by
  unfold stateAt
  rw [if_neg (not_lt.mpr (hopening.le.trans h)), if_neg (not_lt.mpr h), if_pos hreport]

theorem stateAt_late {ts : Instant} (hopening : s.opening < s.closing)
    (hclosing : s.closing ≤ s.report) (h : s.report ≤ ts) :
    s.stateAt ts = .report ∨ s.stateAt ts = .exit := by
  unfold stateAt
  rw [if_neg (not_lt.mpr (hopening.le.trans (hclosing.trans h))),
    if_neg (not_lt.mpr (hclosing.trans h)), if_neg (not_lt.mpr h)]
  split
  · exact .inl rfl
  · exact .inr rfl

end Schedule

end RakshaQuant
