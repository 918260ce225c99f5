import RakshaQuant.Engine.Closing

/-! The two readings of a schedule. The guards ask for the state at an instant, and the loop
walks the transitions; both tell the same day, at every instant of it. -/

namespace RakshaQuant

/-- The state of the last transition that starts by an instant, if one does. -/
def lastEntered (transitions : List (SessionState × Instant)) (t : Instant) : Option SessionState :=
  (transitions.filter fun e => e.2 ≤ t).getLast?.map Prod.fst

/-- The state a day that stood in `before` stands in. -/
def enteredBy (before : SessionState) (transitions : List (SessionState × Instant)) (t : Instant) :
    SessionState :=
  (lastEntered transitions t).getD before

@[simp] theorem enteredBy_nil (before : SessionState) (t : Instant) :
    enteredBy before [] t = before := rfl

/-- A transition that has started is what the day stood in before the rest. -/
@[simp] theorem enteredBy_cons (before state : SessionState) (start t : Instant)
    (rest : List (SessionState × Instant)) :
    enteredBy before ((state, start) :: rest) t =
      if start ≤ t then enteredBy state rest t else enteredBy before rest t := by
  unfold enteredBy lastEntered
  rw [List.filter_cons]
  by_cases hstarted : start ≤ t
  · simp only [hstarted, decide_true, if_true, List.getLast?_cons]
    cases (rest.filter fun e => e.2 ≤ t).getLast? <;> rfl
  · simp only [hstarted, decide_false, if_false, Bool.false_eq_true]

namespace Schedule

variable {s : Schedule}

/-- The transitions of a schedule in order start one after the other. -/
theorem transitions_sorted (hopening : s.opening < s.closing) (hreport : s.closing ≤ s.report)
    (hexit : s.report ≤ s.exit)
    (hentry : ∀ start stop, s.entry = some (start, stop) →
      s.opening ≤ start ∧ start < stop ∧ stop ≤ s.closing) :
    s.transitions.Pairwise fun a b => a.2 ≤ b.2 := by
  unfold transitions
  cases hwindow : s.entry with
  | none =>
    simp
    grind
  | some window =>
    obtain ⟨start, stop⟩ := window
    obtain ⟨hstart, hlt, hstop⟩ := hentry start stop hwindow
    by_cases hopen : s.opening < start <;> by_cases hclose : stop < s.closing <;>
      simp [hopen, hclose] <;> grind

/-- Both readings agree, whether the window touches the open or the close or is not there. -/
theorem stateAt_eq_enteredBy (hopening : s.opening < s.closing) (hreport : s.closing ≤ s.report)
    (hexit : s.report ≤ s.exit)
    (hentry : ∀ start stop, s.entry = some (start, stop) →
      s.opening ≤ start ∧ start < stop ∧ stop ≤ s.closing) (t : Instant) :
    s.stateAt t = enteredBy .preOpen s.transitions t := by
  unfold stateAt transitions
  cases hwindow : s.entry with
  | none =>
    simp
    grind
  | some window =>
    obtain ⟨start, stop⟩ := window
    obtain ⟨hstart, hlt, hstop⟩ := hentry start stop hwindow
    by_cases hopen : s.opening < start <;> by_cases hclose : stop < s.closing <;>
      simp [hopen, hclose] <;> grind

/-- **The guards and the loop agree.** The transitions are sorted, and the state at an instant is
that of the last one that starts by then, or PRE_OPEN before the first. -/
theorem stateAt_agrees {calendar : NSECalendar} {day : Day} {config : LifecycleConfig}
    (h : buildSchedule calendar day config = .ok (some s)) :
    (s.transitions.Pairwise fun a b => a.2 ≤ b.2) ∧
      ∀ t, s.stateAt t = (lastEntered s.transitions t).getD .preOpen := by
  obtain ⟨hopening, hreport, hexit, hentry⟩ := buildSchedule_spec h
  exact ⟨transitions_sorted hopening hreport hexit hentry,
    stateAt_eq_enteredBy hopening hreport hexit hentry⟩

/-- The report is due at the close, so the session never stands in CLOSE. -/
theorem stateAt_agrees_at_close :
    (Sample.mondaySchedule 0).stateAt (Sample.mondaySchedule 0).closing =
      (lastEntered (Sample.mondaySchedule 0).transitions
        (Sample.mondaySchedule 0).closing).getD .preOpen ∧
      (Sample.mondaySchedule 0).stateAt (Sample.mondaySchedule 0).closing = .report :=
  ⟨(stateAt_agrees Sample.monday_scheduled_at_close).2 _, by decide⟩

end Schedule

end RakshaQuant
