import RakshaQuant.Risk.Exits
import RakshaQuant.Risk.Working

/-! When the market trades, by the risk engine and by the calendar. The engine combines
three flags of the snapshot in two checks; the broker asks the calendar. They differ
exactly during a live session on a Saturday or a Sunday, which the engine takes for
closed. -/

namespace RakshaQuant

namespace NSECalendar

variable (c : NSECalendar) (now : Instant)

/-- The time of day of an instant, in microseconds. -/
def timeOfDay (now : Instant) : ℤ := (now + 19800000000) % 86400000000

/-- Inside a special session notified for a Saturday or a Sunday. -/
def WeekendSession : Prop :=
  5 ≤ Day.weekday now.istDate ∧ ∃ times, c.specials.get? now.istDate = some (some times) ∧
    times.opening ≤ timeOfDay now ∧ timeOfDay now < times.close

/-- Within the hours of a session. -/
def Hours (times : Option SessionTimes) (now : Instant) : Prop :=
  ∃ t ∈ times, t.opening ≤ timeOfDay now ∧ timeOfDay now < t.close

variable {c now}

/-- The session of a day: a special one, or the default one of a weekday. -/
theorem session_spec {day : Day} {times : Option SessionTimes} (h : c.session day = .ok times) :
    c.specials.get? day = some times ∨
      c.specials.get? day = none ∧ (5 ≤ Day.weekday day → times = none) := by
  unfold session at h
  cases hr : c.require day with
  | error e =>
    rw [hr] at h
    cases h
  | ok u =>
    rw [hr] at h
    cases hsp : c.specials.get? day with
    | some special =>
      rw [hsp] at h
      cases h
      exact .inl rfl
    | none =>
      rw [hsp] at h
      refine .inr ⟨rfl, fun hweekend => ?_⟩
      replace h : (if 5 ≤ Day.weekday day ∨ day ∈ c.holidays then Except.ok none
          else Except.ok (some c.default)) = Except.ok (ε := Exc) times := h
      rw [if_pos (.inl hweekend)] at h
      exact (Except.ok.inj h).symm

/-- What the calendar answers, it answers from the session of the day. -/
theorem isMarketOpen_spec {isOpen : Bool} (h : c.isMarketOpen now = .ok isOpen) :
    ∃ times, c.session now.istDate = .ok times ∧ (isOpen = true ↔ Hours times now) := by
  unfold isMarketOpen at h
  cases hs : c.session now.istDate with
  | error e =>
    rw [hs] at h
    cases h
  | ok times =>
    rw [hs] at h
    refine ⟨times, rfl, ?_⟩
    cases times with
    | none =>
      cases h
      simp [Hours]
    | some t =>
      cases h
      simp [Hours, timeOfDay]

/-- A weekend day trades only by a special session. -/
theorem weekendSession_iff {times : Option SessionTimes} (h : c.session now.istDate = .ok times) :
    c.WeekendSession now ↔ 5 ≤ Day.weekday now.istDate ∧ Hours times now := by
  refine and_congr_right fun hweekend => ?_
  rcases session_spec h with hspecial | ⟨hnone, hclosed⟩
  · simp [hspecial, Hours]
  · simp [hnone, hclosed hweekend, Hours]

end NSECalendar

namespace RiskGate

variable (gate : RiskGate) (o : OMS) (intent : OrderIntent) (now : Instant)

/-- A session check of the engine blocks. -/
def SessionBlocks (limits : RiskLimits) (ctx : RiskContext RiskFacts) : Prop :=
  ∃ c ∈ limits.engine.checks, (c.code = .sysSessionClosed ∨ c.code = .sysHoliday) ∧
    c.appliesTo ctx.intent.kind = true ∧
      ∃ r, RiskEngine.runCheck ctx c = some r ∧ r.outcome = .block

theorem exists_blockIf {p : Prop} [Decidable p] {code : ReasonCode} {message : String} :
    (∃ r, Check.blockIf p code message = some r ∧ r.outcome = .block) ↔ p := by
  by_cases h : p <;> simp [Check.blockIf, Check.block, h]

/-- The two session checks are the ones of their codes. -/
theorem session_checks : defaultChecks.filter (fun c =>
      c.code = .sysSessionClosed ∨ c.code = .sysHoliday) =
    [.of .sysSessionClosed Check.allKinds SystemChecks.sessionClosed,
      .of .sysHoliday Check.allKinds SystemChecks.holiday] := by
  rfl

/-- The two session checks combine the three flags. -/
theorem sessionBlocks_iff (limits : RiskLimits) (ctx : RiskContext RiskFacts) :
    SessionBlocks limits ctx ↔ ctx.facts.snapshot.isWeekend = true ∨
      ¬ (ctx.facts.snapshot.isTradingDay = true ∧ ctx.facts.snapshot.sessionOpen = true) := by
  have hchecks : SessionBlocks limits ctx ↔ ∃ c ∈ [Check.of .sysSessionClosed Check.allKinds
        SystemChecks.sessionClosed, .of .sysHoliday Check.allKinds SystemChecks.holiday],
      c.appliesTo ctx.intent.kind = true ∧
        ∃ r, RiskEngine.runCheck ctx c = some r ∧ r.outcome = .block := by
    rw [← session_checks]
    constructor
    · rintro ⟨c, hc, hcode, hblocks⟩
      exact ⟨c, List.mem_filter.mpr ⟨hc, decide_eq_true hcode⟩, hblocks⟩
    · rintro ⟨c, hc, hblocks⟩
      obtain ⟨hc, hcode⟩ := List.mem_filter.mp hc
      exact ⟨c, hc, of_decide_eq_true hcode, hblocks⟩
  have hclosed : (∃ r, SystemChecks.sessionClosed ctx = some r ∧ r.outcome = .block) ↔
      ctx.facts.snapshot.isWeekend = true ∨
        (ctx.facts.snapshot.isTradingDay = true ∧ ctx.facts.snapshot.sessionOpen = false) :=
    exists_blockIf
  have hholiday : (∃ r, SystemChecks.holiday ctx = some r ∧ r.outcome = .block) ↔
      ctx.facts.snapshot.isTradingDay = false ∧ ctx.facts.snapshot.isWeekend = false :=
    exists_blockIf
  rw [hchecks, List.exists_mem_cons_iff, List.exists_mem_cons_iff]
  change (true = true ∧ ∃ r, SystemChecks.sessionClosed ctx = some r ∧ r.outcome = .block) ∨
    (true = true ∧ ∃ r, SystemChecks.holiday ctx = some r ∧ r.outcome = .block) ∨ _ ↔ _
  rw [hclosed, hholiday]
  generalize ctx.facts.snapshot.isWeekend = weekend
  generalize ctx.facts.snapshot.isTradingDay = trading
  generalize ctx.facts.snapshot.sessionOpen = sessionOpen
  cases weekend <;> cases trading <;> cases sessionOpen <;> simp

/-- The flags of the gate's snapshot are the calendar's answers. -/
theorem sessionFlags_spec {calendar : NSECalendar} (lifecycle : LifecycleConfig) {isOpen : Bool}
    {times : Option SessionTimes} (hopen : calendar.isMarketOpen now = .ok isOpen)
    (hsession : calendar.session now.istDate = .ok times) :
    (sessionFlags calendar lifecycle now).tradingDay = times.isSome ∧
      (sessionFlags calendar lifecycle now).sessionOpen = isOpen := by
  have htrading : calendar.isTradingDay now.istDate = .ok times.isSome := by
    unfold NSECalendar.isTradingDay
    rw [hsession]
    rfl
  have hschedule : ∃ schedule, buildSchedule calendar now.istDate lifecycle = .ok schedule := by
    unfold buildSchedule
    rw [hsession]
    cases times with
    | none => exact ⟨none, rfl⟩
    | some t => exact ⟨_, rfl⟩
  obtain ⟨schedule, hschedule⟩ := hschedule
  dsimp only [sessionFlags]
  rw [htrading, hopen, hschedule]
  exact ⟨rfl, rfl⟩

/-- **When the market trades.** At every instant the calendar covers, the session checks
on the gate's snapshot block an order exactly when the market is closed, if and only if
it is not a live session of a Saturday or a Sunday. -/
theorem session_checks_agree (isOpen : Bool)
    (hcovers : gate.calendar.isMarketOpen now = .ok isOpen) (reserved : Reservations)
    (quantity : Option ℤ) :
    ∃ snapshot, gate.snapshot o (some intent) now = .ok snapshot ∧
      ((SessionBlocks gate.limits (RiskFacts.context ⟨snapshot, gate.limits, reserved⟩ intent
          quantity) ↔ isOpen = false) ↔ ¬ gate.calendar.WeekendSession now) := by
  obtain ⟨snapshot, hsnapshot, -, hflags⟩ := snapshot_ok gate o intent now
  refine ⟨snapshot, hsnapshot, ?_⟩
  obtain ⟨times, hsession, hopen⟩ := NSECalendar.isMarketOpen_spec hcovers
  obtain ⟨htrading, hsessionOpen⟩ :=
    sessionFlags_spec now gate.lifecycle hcovers hsession
  rw [sessionBlocks_iff, NSECalendar.weekendSession_iff hsession, ← hopen]
  simp only [RiskFacts.context, hflags, htrading, hsessionOpen]
  -- an open market has a session, so the trading-day flag adds nothing
  have hsome : isOpen = true → times.isSome = true := by
    intro h
    obtain ⟨t, ht, -⟩ := hopen.mp h
    rw [ht]
    rfl
  cases isOpen <;> simp_all

end RiskGate

/-! ## A live session on a Sunday -/

namespace Sample

/-- The ten shares of the submitted entry are bought. -/
def holder : OMS := (OMS.onFill (fill 1 10 ten_pos) restarted).state

/-- Noon of Sunday 2026-02-01, in the session notified for it. -/
def sunday : Instant := Day.at 20485 43200000000

def openGate : RiskGate := riskGate fun _ => facts

end Sample

namespace RiskGate

theorem session_checks_agree_monday : ∃ snapshot,
    Sample.openGate.snapshot Sample.holder (some Sample.leave) Sample.monday = .ok snapshot ∧
      ¬ SessionBlocks Sample.limits
        (RiskFacts.context ⟨snapshot, Sample.limits, .empty⟩ Sample.leave none) := by
  obtain ⟨snapshot, hsnapshot, hiff⟩ := session_checks_agree Sample.openGate Sample.holder
    Sample.leave Sample.monday true (by rfl) .empty none
  refine ⟨snapshot, hsnapshot, fun hblocks => ?_⟩
  have hday : ¬ Sample.openGate.calendar.WeekendSession Sample.monday := by
    rintro ⟨hweekend, -⟩
    revert hweekend
    decide
  exact absurd ((hiff.mpr hday).mp hblocks) (by decide)

/-- On the Sunday the market is open and the session checks block the exit, so nothing
is approved for it. -/
theorem session_checks_sunday :
    Sample.openGate.calendar.isMarketOpen Sample.sunday = .ok true ∧
      (∃ snapshot,
        Sample.openGate.snapshot Sample.holder (some Sample.leave) Sample.sunday = .ok snapshot ∧
          SessionBlocks Sample.limits
            (RiskFacts.context ⟨snapshot, Sample.limits, .empty⟩ Sample.leave none)) ∧
      (Sample.openGate.decide Sample.holder Sample.sunday Sample.leave none).toOption.map
        Evaluation.approvedQty = some 0 ∧
      (Sample.openGate.decide Sample.holder Sample.monday Sample.leave none).toOption.map
        Evaluation.approvedQty = some 10 := by
  refine ⟨by rfl, ?_, by decide +kernel, by decide +kernel⟩
  obtain ⟨snapshot, hsnapshot, -, hweekend, -⟩ :=
    snapshot_ok Sample.openGate Sample.holder Sample.leave Sample.sunday
  exact ⟨snapshot, hsnapshot, (sessionBlocks_iff _ _).mpr (.inl (hweekend.mpr (by decide)))⟩

end RiskGate

end RakshaQuant
