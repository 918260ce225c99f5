import RakshaQuant.Engine.Session

/-! When a session closes and reports. The loop skips a state whose start has passed, so
CLOSE is entered only if the hooks before it return in time, and REPORT only if the CLOSE
hook does. -/

namespace RakshaQuant

/-- What a log shows of a state: that it was entered, and that its hook was called. -/
inductive Mark
  | entered (state : SessionState)
  | hooked (state : SessionState)
deriving DecidableEq

def Mark.state : Mark → SessionState
  | entered s | hooked s => s

def LifecycleEvent.mark : LifecycleEvent → Option Mark
  | sessionStateChanged _ _ s => some (.entered s)
  | onState s => some (.hooked s)
  | holidaySkipped _ | alert _ | onPreOpen => none

namespace LifecycleHooks

variable (hooks : LifecycleHooks)

/-- The marks of a state that is entered. -/
def marks (state : SessionState) : List Mark :=
  .entered state :: if hooks.onState.isSome then [.hooked state] else []

def took (state : SessionState) : ℕ := (hooks.onState.map fun run => (run state).took).getD 0

def preOpenTook : ℕ := (hooks.onPreOpen.map HookRun.took).getD 0

/-- CLOSE and then REPORT are entered, each once and with its hook. -/
def ClosesAndReports (l : SessionLifecycle) : Prop :=
  (l.log.filterMap LifecycleEvent.mark).filter (fun m => m.state = .close ∨ m.state = .report) =
    hooks.marks .close ++ hooks.marks .report

/-- The report is marked while its time has not come. -/
theorem reported_iff (report now : Instant) :
    (if report ≤ now then [] else hooks.marks .report) = hooks.marks .report ↔ now < report := by
  by_cases h : report ≤ now
  · simp [marks, h]
  · rw [if_neg h]
    exact iff_of_true rfl (not_le.mp h)

instance (l : SessionLifecycle) : Decidable (hooks.ClosesAndReports l) :=
  inferInstanceAs (Decidable (_ = _))

end LifecycleHooks

/-- Whether a state that is done at an instant leaves room for what must follow: the close,
and after it the report. -/
def Schedule.leavesRoom (s : Schedule) (state : SessionState) (ends : Instant) : Bool :=
  match state with
  | .holiday | .preOpen | .open | .entryWindow | .monitor => ends < s.closing
  | .close => ends < s.report
  | .report | .exit => true

/-- Every state the loop enters from an instant on leaves room. -/
def Schedule.loopInTime (s : Schedule) (hooks : LifecycleHooks) (wakes : Wakes) :
    List (SessionState × Instant) → Instant → Bool
  | [], _ => true
  | (state, starts) :: rest, now =>
    if starts ≤ now then s.loopInTime hooks wakes rest now
    else
      let ends := starts + wakes.late state + hooks.took state
      s.leavesRoom state ends && s.loopInTime hooks wakes rest ends

/-- So do the pre-open hook and the state a late start jumps to. -/
def Schedule.inTime (s : Schedule) (hooks : LifecycleHooks) (wakes : Wakes) (start : Instant) :
    Bool :=
  let opened := start + hooks.preOpenTook
  let current := s.stateAt opened
  let ready := if current = .preOpen then opened else opened + hooks.took current
  opened < s.report && s.leavesRoom current ready &&
    s.loopInTime hooks wakes s.transitions ready

namespace Schedule

variable {s : Schedule} {hooks : LifecycleHooks} {wakes : Wakes} {state : SessionState}
  {starts now : Instant} {rest : List (SessionState × Instant)}

theorem loopInTime_skip (h : starts ≤ now) :
    s.loopInTime hooks wakes ((state, starts) :: rest) now = s.loopInTime hooks wakes rest now := by
  rw [loopInTime, if_pos h]

theorem loopInTime_passed {passed : List (SessionState × Instant)}
    (h : ∀ e ∈ passed, e.2 ≤ now) :
    s.loopInTime hooks wakes (passed ++ rest) now = s.loopInTime hooks wakes rest now := by
  induction passed with
  | nil => rfl
  | cons e passed ih =>
    rw [List.cons_append, loopInTime_skip (h e List.mem_cons_self)]
    exact ih fun e he => h e (List.mem_cons_of_mem _ he)

theorem loopInTime_enter (h : now < starts) :
    s.loopInTime hooks wakes ((state, starts) :: rest) now =
      (s.leavesRoom state (starts + wakes.late state + hooks.took state) &&
        s.loopInTime hooks wakes rest (starts + wakes.late state + hooks.took state)) := by
  rw [loopInTime, if_neg (not_le.mpr h)]

end Schedule

namespace SessionLifecycle

/-- The marks of CLOSE and REPORT. -/
def closing (l : SessionLifecycle) : List Mark :=
  (l.log.filterMap LifecycleEvent.mark).filter fun m => m.state = .close ∨ m.state = .report

/-! ## Entering a state -/

section enter

variable (hooks : LifecycleHooks) (day : Day) (state : SessionState) (l : SessionLifecycle)

@[simp] theorem transition_now : (l.transition state day).now = l.now := by
  unfold transition
  split <;> rfl

@[simp] theorem transition_state : (l.transition state day).state = some state := by
  unfold transition
  split
  · assumption
  · rfl

theorem closing_transition : (l.transition state day).closing =
    l.closing ++ if (state = .close ∨ state = .report) ∧ l.state ≠ some state then [.entered state]
      else [] := by
  unfold transition closing
  by_cases h : l.state = some state
  · simp [h]
  · by_cases hs : state = .close ∨ state = .report
    · simp [h, hs, LifecycleEvent.mark, Mark.state]
    · simp [h, hs, LifecycleEvent.mark, Mark.state]

@[simp] theorem enter_now : (l.enter hooks day state).now = l.now + hooks.took state := by
  unfold enter LifecycleHooks.took
  cases hooks.onState with
  | none => simp
  | some onState => simp [hook]

@[simp] theorem enter_state : (l.enter hooks day state).state = some state := by
  unfold enter
  cases hooks.onState with
  | none => simp
  | some onState => simp [hook]

/-- An alert leaves no mark. -/
theorem closing_hook (name : String) (called : LifecycleEvent) (run : HookRun) :
    (l.hook name called run).closing = l.closing ++
      called.mark.toList.filter fun m => m.state = .close ∨ m.state = .report := by
  have halerts : ∀ excs : List Exc, (excs.map fun exc => LifecycleEvent.alert ⟨"CRITICAL",
      "lifecycle_hook_failed:" ++ name, name ++ " failed in " ++ l.stateText ++ ": " ++ exc.name ++
        ": " ++ exc.message⟩).filterMap LifecycleEvent.mark = [] := by
    intro excs
    induction excs with
    | nil => rfl
    | cons exc rest ih => exact ih
  have hcalled : [called].filterMap LifecycleEvent.mark = called.mark.toList := by
    cases h : called.mark <;> simp [h]
  unfold hook closing
  dsimp only
  rw [List.filterMap_append, List.filterMap_append, halerts, List.append_nil, List.filter_append,
    hcalled]

/-- A state other than CLOSE and REPORT leaves no mark of them. -/
theorem closing_enter_other (h : ¬(state = .close ∨ state = .report)) :
    (l.enter hooks day state).closing = l.closing := by
  have htransition := closing_transition day state l
  rw [if_neg fun hc => h hc.1, List.append_nil] at htransition
  unfold enter
  cases hooks.onState with
  | none => exact htransition
  | some onState =>
    dsimp only
    rw [closing_hook, htransition]
    simp [LifecycleEvent.mark, Mark.state, h]

theorem closing_enter (h : state = .close ∨ state = .report) (hnew : l.state ≠ some state) :
    (l.enter hooks day state).closing = l.closing ++ hooks.marks state := by
  have htransition := closing_transition day state l
  rw [if_pos ⟨h, hnew⟩] at htransition
  unfold enter LifecycleHooks.marks
  cases hooks.onState with
  | none => exact htransition
  | some onState =>
    dsimp only
    rw [closing_hook, htransition, List.append_assoc]
    simp [LifecycleEvent.mark, Mark.state, h]

end enter

/-! ## The loop -/

section loop

variable {hooks : LifecycleHooks} {wakes : Wakes} (hstop : wakes.stop = none) (day : Day)

/-- A state that is entered before the close is neither CLOSE nor REPORT, and neither is
the one before it. -/
def Early (l : SessionLifecycle) : Prop := l.state ≠ some .close ∧ l.state ≠ some .report

theorem loop_skip {state : SessionState} {starts : Instant}
    {rest : List (SessionState × Instant)} {l : SessionLifecycle} (h : starts ≤ l.now) :
    loop hooks wakes day ((state, starts) :: rest) l = loop hooks wakes day rest l := by
  rw [loop, if_pos h]

include hstop

theorem loop_enter {state : SessionState} {starts : Instant}
    {rest : List (SessionState × Instant)} {l : SessionLifecycle} (h : l.now < starts) :
    loop hooks wakes day ((state, starts) :: rest) l =
      loop hooks wakes day rest
        (enter hooks day state { l with now := starts + wakes.late state }) := by
  rw [loop, if_neg (not_le.mpr h)]
  unfold sleepUntil
  rw [hstop]

omit hstop in
/-- Time does not go back while a state is slept for and its hook runs. -/
theorem le_ended {now starts ends : ℤ} {late took : ℕ} (h : now < starts)
    (hends : starts + late + took ≤ ends) : now ≤ ends := by
  omega

/-- The states before the close leave no mark, and they leave room for it exactly if the
clock is still before it when they are through. -/
theorem loop_early (schedule : Schedule) (rest : List (SessionState × Instant))
    {early : List (SessionState × Instant)}
    (hearly : ∀ e ∈ early, e.1 = .open ∨ e.1 = .entryWindow ∨ e.1 = .monitor)
    {l : SessionLifecycle} (hl : l.Early) :
    ∃ l', loop hooks wakes day (early ++ rest) l = loop hooks wakes day rest l' ∧ l'.Early ∧
      l'.closing = l.closing ∧ l.now ≤ l'.now ∧
      (l.now < schedule.closing → (schedule.loopInTime hooks wakes (early ++ rest) l.now = true ↔
        l'.now < schedule.closing ∧ schedule.loopInTime hooks wakes rest l'.now = true)) := by
  -- by induction on the states: each is passed, or entered and waited out
  induction early generalizing l with
  | nil => exact ⟨l, rfl, hl, rfl, le_rfl, fun h => ⟨fun hrest => ⟨h, hrest⟩, fun h => h.2⟩⟩
  | cons e early ih =>
    obtain ⟨state, starts⟩ := e
    have hstate : state = .open ∨ state = .entryWindow ∨ state = .monitor :=
      hearly _ List.mem_cons_self
    have hrest := fun l => ih (l := l) fun e he => hearly e (List.mem_cons_of_mem _ he)
    rw [List.cons_append]
    by_cases hpassed : starts ≤ l.now
    · rw [loop_skip day hpassed, Schedule.loopInTime_skip hpassed]
      exact hrest l hl
    · rw [loop_enter hstop day (not_le.mp hpassed)]
      have hroom : ∀ ends, schedule.leavesRoom state ends = decide (ends < schedule.closing) := by
        rcases hstate with rfl | rfl | rfl <;> exact fun _ => rfl
      have hother : ¬(state = .close ∨ state = .report) := by
        rcases hstate with rfl | rfl | rfl <;> simp
      have hnew : (enter hooks day state { l with now := starts + wakes.late state }).Early := by
        unfold Early
        rw [enter_state]
        rcases hstate with rfl | rfl | rfl <;> simp
      obtain ⟨l', hloop, hl', hclosing, hnow, hiff⟩ := hrest _ hnew
      rw [enter_now] at hnow hiff
      dsimp only at hnow hiff
      refine ⟨l', hloop, hl', ?_, ?_, fun _ => ?_⟩
      · rw [hclosing, closing_enter_other _ _ _ _ hother]
        rfl
      · exact le_ended (not_le.mp hpassed) hnow
      · rw [Schedule.loopInTime_enter (not_le.mp hpassed), hroom]
        by_cases hends : starts + wakes.late state + hooks.took state < schedule.closing
        · rw [decide_eq_true hends, Bool.true_and]
          exact hiff hends
        · rw [decide_eq_false hends, Bool.false_and]
          constructor
          · intro h
            cases h
          · intro h
            exact absurd (hnow.trans_lt h.1) hends

omit hstop in
/-- What has passed is skipped. -/
theorem loop_passed (rest : List (SessionState × Instant)) {passed : List (SessionState × Instant)}
    {l : SessionLifecycle} (h : ∀ e ∈ passed, e.2 ≤ l.now) :
    loop hooks wakes day (passed ++ rest) l = loop hooks wakes day rest l := by
  induction passed with
  | nil => rfl
  | cons e passed ih =>
    rw [List.cons_append, loop_skip day (h e List.mem_cons_self)]
    exact ih fun e he => h e (List.mem_cons_of_mem _ he)

theorem loop_exit (exit : Instant) (l : SessionLifecycle) :
    (loop hooks wakes day [(.exit, exit)] l).closing = l.closing := by
  by_cases hpassed : exit ≤ l.now
  · rw [loop_skip day hpassed]
    rfl
  · rw [loop_enter hstop day (not_le.mp hpassed), loop, closing_enter_other _ _ _ _ (by simp)]
    rfl

/-- After the close the report is marked unless its time has passed. -/
theorem loop_report (report exit : Instant) {l : SessionLifecycle} (hl : l.state ≠ some .report) :
    (loop hooks wakes day [(.report, report), (.exit, exit)] l).closing =
      l.closing ++ if report ≤ l.now then [] else hooks.marks .report := by
  by_cases hpassed : report ≤ l.now
  · rw [loop_skip day hpassed, loop_exit hstop, if_pos hpassed, List.append_nil]
  · rw [loop_enter hstop day (not_le.mp hpassed), loop_exit hstop, if_neg hpassed]
    exact closing_enter _ _ _ { l with now := report + wakes.late .report } (.inr rfl) hl

omit hstop in
theorem loopInTime_report (schedule : Schedule) (report exit now : Instant) :
    schedule.loopInTime hooks wakes [(.report, report), (.exit, exit)] now = true := by
  unfold Schedule.loopInTime Schedule.loopInTime Schedule.loopInTime
  simp [Schedule.leavesRoom]

/-- From the close on, both are marked exactly if CLOSE is not passed and leaves room. -/
theorem loop_close {schedule : Schedule} {l : SessionLifecycle} (hl : l.Early)
    (hnone : l.closing = []) :
    (loop hooks wakes day [(.close, schedule.closing), (.report, schedule.report),
        (.exit, schedule.exit)] l).closing = hooks.marks .close ++ hooks.marks .report ↔
      l.now < schedule.closing ∧ schedule.loopInTime hooks wakes
        [(.close, schedule.closing), (.report, schedule.report), (.exit, schedule.exit)]
        l.now = true := by
  by_cases hpassed : schedule.closing ≤ l.now
  · -- CLOSE is skipped, and at most the report is marked
    rw [loop_skip day hpassed, loop_report hstop day _ _ hl.2, hnone, List.nil_append]
    constructor
    · intro h
      have hhead := congrArg List.head? h
      split at hhead
      · cases hhead
      · simp [LifecycleHooks.marks] at hhead
    · intro h
      exact absurd h.1 (not_lt.mpr hpassed)
  · have hbefore := not_le.mp hpassed
    have hentered : (enter hooks day .close
        { l with now := schedule.closing + wakes.late .close }).closing = hooks.marks .close := by
      rw [closing_enter _ _ _ { l with now := schedule.closing + wakes.late .close } (.inl rfl)
        hl.1]
      show l.closing ++ _ = _
      rw [hnone, List.nil_append]
    rw [loop_enter hstop day hbefore, loop_report hstop day _ _ (by simp), hentered,
      Schedule.loopInTime_enter hbefore, loopInTime_report, Bool.and_true, enter_now,
      List.append_right_inj]
    show _ ↔ l.now < schedule.closing ∧ decide (_ < schedule.report) = true
    rw [decide_eq_true_iff, and_iff_right hbefore]
    exact hooks.reported_iff _ _

end loop

/-! ## The day -/

section drive

variable (hooks : LifecycleHooks) (wakes : Wakes)

theorem preOpened_now (day : Day) (start : Instant) :
    (preOpened hooks day start).now = start + hooks.preOpenTook := by
  unfold preOpened LifecycleHooks.preOpenTook
  cases hooks.onPreOpen with
  | none => simp
  | some run => simp [hook]

theorem preOpened_early (day : Day) (start : Instant) : (preOpened hooks day start).Early := by
  unfold preOpened Early
  cases hooks.onPreOpen with
  | none => simp
  | some run => simp [hook]

theorem preOpened_closing (day : Day) (start : Instant) :
    (preOpened hooks day start).closing = [] := by
  have htransition := closing_transition day .preOpen ⟨start, none, []⟩
  unfold preOpened
  cases hooks.onPreOpen with
  | none => exact htransition
  | some run =>
    dsimp only
    rw [closing_hook, htransition]
    rfl

/-- What follows the pre-open hook, once it is known which state it is. -/
def resumed (hooks : LifecycleHooks) (day : Day) (s : Schedule) (l : SessionLifecycle) :
    SessionLifecycle :=
  if s.stateAt l.now = .preOpen then l else l.enter hooks day (s.stateAt l.now)

section resumed

variable (day : Day) (s : Schedule) (l : SessionLifecycle)

variable {s l} in
/-- Before the close it is a state that leaves no mark. -/
theorem resumed_before (hbegun : l.Early) (hnone : l.closing = []) (h : l.now < s.closing) :
    (resumed hooks day s l).Early ∧ (resumed hooks day s l).closing = [] := by
  have hstate := s.stateAt_early h
  unfold resumed
  by_cases hpre : s.stateAt l.now = .preOpen
  · rw [if_pos hpre]
    exact ⟨hbegun, hnone⟩
  · rw [if_neg hpre]
    constructor
    · unfold Early
      rw [enter_state]
      rcases hstate with h | h | h | h <;> rw [h] <;> simp
    · rw [closing_enter_other, hnone]
      rcases hstate with h | h | h | h <;> rw [h] <;> simp

theorem resumed_now : (resumed hooks day s l).now =
    if s.stateAt l.now = .preOpen then l.now else l.now + hooks.took (s.stateAt l.now) := by
  unfold resumed
  split
  · rfl
  · exact enter_now _ _ _ _

end resumed

variable (day : Day) {s : Schedule}

/-- The states before the close, and then the close. -/
theorem loop_before (hstop : wakes.stop = none) {early : List (SessionState × Instant)}
    (hearly : ∀ e ∈ early, e.1 = .open ∨ e.1 = .entryWindow ∨ e.1 = .monitor)
    {l : SessionLifecycle} (hbegun : l.Early) (hnone : l.closing = []) :
    (loop hooks wakes day
        (early ++ [(.close, s.closing), (.report, s.report), (.exit, s.exit)]) l).closing =
        hooks.marks .close ++ hooks.marks .report ↔
      l.now < s.closing ∧ s.loopInTime hooks wakes
        (early ++ [(.close, s.closing), (.report, s.report), (.exit, s.exit)]) l.now = true := by
  obtain ⟨l', hloop, hl', hmarks, hlater, hiff⟩ := loop_early hstop day s
    [(.close, s.closing), (.report, s.report), (.exit, s.exit)] hearly hbegun
  rw [hloop, loop_close hstop day hl' (hmarks.trans hnone)]
  constructor
  · intro h
    have hbefore := hlater.trans_lt h.1
    exact ⟨hbefore, (hiff hbefore).mpr h⟩
  · intro h
    exact (hiff h.1).mp h.2

/-- At the close or later the loop is at the report. -/
theorem loop_after {early : List (SessionState × Instant)}
    (hstarts : ∀ e ∈ early, e.2 ≤ s.closing) {l : SessionLifecycle} (h : s.closing ≤ l.now) :
    loop hooks wakes day
        (early ++ [(.close, s.closing), (.report, s.report), (.exit, s.exit)]) l =
        loop hooks wakes day [(.report, s.report), (.exit, s.exit)] l ∧
      s.loopInTime hooks wakes
        (early ++ [(.close, s.closing), (.report, s.report), (.exit, s.exit)]) l.now = true := by
  have hpassed : ∀ e ∈ early, e.2 ≤ l.now := fun e he => (hstarts e he).trans h
  rw [loop_passed day _ hpassed, loop_skip day h, Schedule.loopInTime_passed hpassed,
    Schedule.loopInTime_skip h, loopInTime_report]
  exact ⟨rfl, rfl⟩

/-- Without CLOSE the marks are not those of both. -/
theorem not_both {marks : List Mark} (h : ∀ m ∈ marks, m.state ≠ .close) :
    marks ≠ hooks.marks .close ++ hooks.marks .report := by
  rintro rfl
  exact h (.entered .close) (List.mem_append_left _ List.mem_cons_self) rfl

/-- A run that starts on a trading day before its close. -/
theorem drive_closing (hstop : wakes.stop = none) {start : Instant}
    (hopening : s.opening < s.closing) (hreport : s.closing ≤ s.report)
    (hentry : ∀ start stop, s.entry = some (start, stop) →
      s.opening ≤ start ∧ start < stop ∧ stop ≤ s.closing) :
    (drive hooks wakes day s start).closing = hooks.marks .close ++ hooks.marks .report ↔
      s.inTime hooks wakes start = true := by
  obtain ⟨early, htransitions, hearly, hstarts⟩ := Schedule.transitions_early hopening hentry
  have hnow := preOpened_now hooks day start
  have hbegun := preOpened_early hooks day start
  have hnone := preOpened_closing hooks day start
  have hdrive : drive hooks wakes day s start =
      loop hooks wakes day s.transitions (resumed hooks day s (preOpened hooks day start)) := by
    unfold drive resumed stopRequested
    rw [hstop]
    simp
  rw [hdrive, htransitions]
  unfold Schedule.inTime
  rw [← hnow]
  generalize preOpened hooks day start = l at hbegun hnone
  have hready := resumed_now hooks day s l
  dsimp only
  rw [← hready, htransitions]
  rcases lt_or_ge l.now s.closing with hbefore | hafter
  · -- before the close
    have hroom : ∀ ends, s.leavesRoom (s.stateAt l.now) ends = decide (ends < s.closing) := by
      rcases s.stateAt_early hbefore with h | h | h | h <;> rw [h] <;> exact fun _ => rfl
    obtain ⟨hearlyState, hunmarked⟩ := resumed_before hooks day hbegun hnone hbefore
    rw [loop_before hooks wakes day hstop hearly hearlyState hunmarked, hroom,
      decide_eq_true (hbefore.trans_le hreport), Bool.true_and, Bool.and_eq_true,
      decide_eq_true_iff]
  have hlater : l.now ≤ (resumed hooks day s l).now := by
    rw [hready]
    split
    · exact le_rfl
    · exact le_add_of_nonneg_right (Int.natCast_nonneg _)
  obtain ⟨hloop, hrest⟩ := loop_after hooks wakes day hstarts
    (hafter.trans hlater)
  rw [hloop, hrest, Bool.and_true]
  rcases lt_or_ge l.now s.report with hclose | hlate
  · -- between the close and the report: CLOSE is entered at once
    have hstate := s.stateAt_close hopening hafter hclose
    have hresumed : resumed hooks day s l = l.enter hooks day .close := by
      unfold resumed
      rw [hstate, if_neg (by simp)]
    have hclosing : (l.enter hooks day .close).closing = hooks.marks .close := by
      rw [closing_enter _ _ _ _ (.inl rfl) hbegun.1, hnone, List.nil_append]
    rw [hresumed, loop_report hstop day _ _ (by simp), hclosing, enter_now, List.append_right_inj,
      decide_eq_true hclose, Bool.true_and, hstate]
    show _ ↔ decide (_ < s.report) = true
    rw [decide_eq_true_iff]
    exact hooks.reported_iff _ _
  · -- after the report: CLOSE is passed
    rw [decide_eq_false (not_lt.mpr hlate), Bool.false_and, loop_skip day (hlate.trans hlater),
      loop_exit hstop]
    refine iff_of_false (not_both hooks fun m hm => ?_) (by simp)
    unfold resumed at hm
    rcases s.stateAt_late hopening hreport hlate with h | h
    · rw [h, if_neg (by simp), closing_enter _ _ _ _ (.inr rfl) hbegun.2, hnone] at hm
      unfold LifecycleHooks.marks at hm
      rcases List.mem_cons.mp hm with rfl | hm
      · simp [Mark.state]
      · split at hm
        · rw [List.mem_singleton.mp hm]
          simp [Mark.state]
        · cases hm
    · rw [h, if_neg (by simp), closing_enter_other _ _ _ _ (by simp), hnone] at hm
      cases hm

end drive

/-- **When a session closes and reports.** A run that starts on a trading day before the
close, and is not stopped, enters CLOSE and REPORT, each once and with its hook, exactly if
every state it enters leaves room for them. -/
theorem closes_and_reports_iff (calendar : NSECalendar) (config : LifecycleConfig)
    (hooks : LifecycleHooks) (wakes : Wakes) (start : Instant) {schedule : Schedule}
    (hschedule : buildSchedule calendar start.istDate config = .ok (some schedule))
    (hstart : start < schedule.closing) (hstop : wakes.stop = none) :
    ∃ l, run calendar config hooks wakes start = .ok l ∧
      (hooks.ClosesAndReports l ↔ schedule.inTime hooks wakes start = true) := by
  obtain ⟨hopening, hreport, hexit, hentry⟩ := buildSchedule_spec hschedule
  refine ⟨drive hooks wakes start.istDate schedule start, ?_,
    drive_closing hooks wakes start.istDate hstop hopening hreport hentry⟩
  have hrunning : ¬schedule.exit ≤ start :=
    not_le.mpr (hstart.trans_le (hreport.trans hexit))
  unfold run
  dsimp only
  rw [hschedule]
  show (if schedule.exit ≤ start then _ else _) = _
  rw [if_neg hrunning]
  rfl

end SessionLifecycle

/-! ## A Monday -/

namespace Sample

theorem preOpen_le_opening : (32400000000 : ℤ) ≤ 33300000000 := by decide

theorem opening_lt_close : (33300000000 : ℤ) < 55800000000 := by decide

def nseCalendar : NSECalendar :=
  { default := ⟨32400000000, 33300000000, 55800000000, preOpen_le_opening, opening_lt_close⟩
    years := [2026], holidays := [], specials := .empty }

/-- 2026-10-05, at nine. -/
def mondayAtNine : Instant := Day.at 20731 32400000000

theorem no_delay : (0 : ℤ) ≤ 0 := by decide

theorem no_delay_le : (0 : ℤ) ≤ 1200000000 := by decide

/-- The report is due at the close. -/
def reportAtClose : LifecycleConfig :=
  { LifecycleConfig.default with
    reportAfterClose := 0, report_nonneg := no_delay, report_le := no_delay_le }

/-- Every hook takes so long and none raises. -/
def steadyHooks (took : ℕ) : LifecycleHooks := ⟨some ⟨took, none⟩, some fun _ => ⟨took, none⟩⟩

def prompt : Wakes := ⟨fun _ => 0, none⟩

/-- The Monday, with the report so long after the close. -/
def mondaySchedule (reportAfterClose : ℤ) : Schedule :=
  { opening := Day.at 20731 33300000000, closing := Day.at 20731 55800000000
    entry := some (Day.at 20731 33600000000, Day.at 20731 35100000000)
    report := Day.at 20731 55800000000 + reportAfterClose
    exit := Day.at 20731 55800000000 + 1200000000 }

theorem monday_scheduled :
    buildSchedule nseCalendar mondayAtNine.istDate .default =
      .ok (some (mondaySchedule 900000000)) := by
  rfl

theorem monday_scheduled_at_close :
    buildSchedule nseCalendar mondayAtNine.istDate reportAtClose = .ok (some (mondaySchedule 0)) := by
  rfl

end Sample

namespace SessionLifecycle

/-- Hooks of a minute each leave room. -/
theorem closes_and_reports_minutes :
    ∃ l, run Sample.nseCalendar .default (Sample.steadyHooks 60000000) Sample.prompt
        Sample.mondayAtNine = .ok l ∧
      (Sample.steadyHooks 60000000).ClosesAndReports l := by
  obtain ⟨l, hrun, hiff⟩ := closes_and_reports_iff Sample.nseCalendar .default
    (Sample.steadyHooks 60000000) Sample.prompt Sample.mondayAtNine Sample.monday_scheduled
    (by decide) rfl
  exact ⟨l, hrun, hiff.mpr (by decide)⟩

/-- A report that is due at the close is skipped when CLOSE has been entered. -/
theorem report_at_close_skipped :
    ¬∀ (calendar : NSECalendar) (config : LifecycleConfig) (hooks : LifecycleHooks)
        (wakes : Wakes) (start : Instant) (schedule : Schedule),
      buildSchedule calendar start.istDate config = .ok (some schedule) →
      start < schedule.closing → wakes.stop = none →
      ∃ l, run calendar config hooks wakes start = .ok l ∧ hooks.ClosesAndReports l := by
  intro h
  obtain ⟨l, hrun, hboth⟩ := h Sample.nseCalendar Sample.reportAtClose (Sample.steadyHooks 0)
    Sample.prompt Sample.mondayAtNine _ Sample.monday_scheduled_at_close (by decide) rfl
  cases hrun
  revert hboth
  decide

end SessionLifecycle

end RakshaQuant
