import RakshaQuant.Risk.Events

/-! Which days the event calendar blocks. A window ends with the so-manieth session after a
day, where a session is a trading day of the calendar, or a weekday where the calendar cannot
tell. Results windows are always blocked. The window of an adverse event is blocked unless the
event is also of a results type: then only its results window is, and what is left of the other
stays open. -/

namespace RakshaQuant

/-! ## Sessions -/

/-- The first of the places after 0, up to the `n`-th, that answers yes, where all before it
answer no. -/
structure Nearest (f : ℕ → Except Exc Bool) (n k : ℕ) : Prop where
  pos : 0 < k
  reach : k ≤ n
  yes : f k = .ok true
  no : ∀ j, 0 < j → j < k → f j = .ok false

theorem Nearest.unique {f : ℕ → Except Exc Bool} {n k k' : ℕ} (h : Nearest f n k)
    (h' : Nearest f n k') : k = k' := by
  rcases lt_trichotomy k k' with hlt | heq | hgt
  · have := (h'.no k h.pos hlt).symm.trans h.yes
    cases this
  · exact heq
  · have := (h.no k' h'.pos hgt).symm.trans h'.yes
    cases this

/-- Either the next place answers yes, or it answers no and the search goes on from it. -/
theorem nearest_succ {f : ℕ → Except Exc Bool} {n : ℕ} {P : ℕ → Prop} :
    (∃ k, Nearest f (n + 1) k ∧ P k) ↔ (f 1 = .ok true ∧ P 1) ∨
      (f 1 = .ok false ∧ ∃ k, Nearest (fun j => f (j + 1)) n k ∧ P (k + 1)) := by
  constructor
  · rintro ⟨k, h, hp⟩
    obtain ⟨k, rfl⟩ : ∃ j, k = j + 1 := ⟨k - 1, by have := h.pos; omega⟩
    cases k with
    | zero => exact .inl ⟨h.yes, hp⟩
    | succ k =>
      refine .inr ⟨h.no 1 Nat.one_pos (by omega), k + 1, ?_, hp⟩
      exact ⟨by omega, by have := h.reach; omega, h.yes, fun j hj hlt =>
        h.no (j + 1) (by omega) (by omega)⟩
  · rintro (⟨hyes, hp⟩ | ⟨hno, k, h, hp⟩)
    · exact ⟨1, ⟨Nat.one_pos, by omega, hyes, fun j hj hlt => by omega⟩, hp⟩
    · refine ⟨k + 1, ⟨by omega, by have := h.reach; omega, h.yes, fun j hj hlt => ?_⟩, hp⟩
      cases j with
      | zero => omega
      | succ j =>
        cases j with
        | zero => exact hno
        | succ j => exact h.no (j + 1) (by omega) (by omega)

namespace NSECalendar

/-- The nearest trading day on one side of a day is `k` days off: the calendar covers the days
up to it, its scan reaches it, and the days between are no trading days. -/
def Trades (c : NSECalendar) (step : ℤ) (day : Day) (k : ℕ) : Prop :=
  Nearest (fun j => c.isTradingDay (day + step * j)) maxScanDays k

/-- The nearest weekday on one side of a day is `k` days off. -/
def Weekday (step : ℤ) (day : Day) (k : ℕ) : Prop :=
  Nearest (fun j => .ok (Day.weekday (day + step * j) < 5)) 3 k

/-- The session next to a day: the nearest trading day, or the nearest weekday where the
calendar does not tell a trading day. -/
def NextSession (c : NSECalendar) (step : ℤ) (day next : Day) : Prop :=
  ∃ k : ℕ, next = day + step * k ∧
    (c.Trades step day k ∨ ((∀ j, ¬c.Trades step day j) ∧ Weekday step day k))

/-- The `n`-th session on one side of a day; the day itself when `n` is zero. -/
inductive NthSession (c : NSECalendar) (step : ℤ) (day : Day) : ℕ → Day → Prop
  | here : NthSession c step day 0 day
  | next {n : ℕ} {last following : Day} (before : NthSession c step day n last)
      (after : c.NextSession step last following) : NthSession c step day (n + 1) following

variable {c : NSECalendar} {step : ℤ} {day : Day}

theorem NextSession.unique {next next' : Day} (h : c.NextSession step day next)
    (h' : c.NextSession step day next') : next = next' := by
  obtain ⟨k, rfl, htrades | ⟨hnone, hweekday⟩⟩ := h
  · obtain ⟨k', rfl, htrades' | ⟨hnone', -⟩⟩ := h'
    · rw [htrades.unique htrades']
    · exact absurd htrades (hnone' k)
  · obtain ⟨k', rfl, htrades' | ⟨-, hweekday'⟩⟩ := h'
    · exact absurd htrades' (hnone k')
    · rw [hweekday.unique hweekday']

theorem NthSession.unique {n : ℕ} {last last' : Day} (h : c.NthSession step day n last)
    (h' : c.NthSession step day n last') : last = last' := by
  induction h generalizing last' with
  | here =>
    cases h'
    rfl
  | next before after ih =>
    cases h' with
    | next before' after' =>
      rw [← ih before'] at after'
      exact after.unique after'

/-- A scan that asks one day after the other answers with the nearest trading day in reach. -/
theorem scan_nearest {g : ℕ → Day → Except Exc Day} (hzero : ∀ day next, g 0 day ≠ .ok next)
    (hsucc : ∀ n day, g (n + 1) day = do
      if ← c.isTradingDay (day + step) then return day + step
      g n (day + step)) (n : ℕ) (day next : Day) :
    g n day = .ok next ↔
      ∃ k : ℕ, Nearest (fun j => c.isTradingDay (day + step * j)) n k ∧ next = day + step * k := by
  induction n generalizing day with
  | zero =>
    simp only [hzero, false_iff, not_exists, not_and]
    intro k h
    exact absurd h.reach (not_le.mpr h.pos)
  | succ n ih =>
    have hone : day + step * ((1 : ℕ) : ℤ) = day + step := by
      push_cast
      ring
    have hnext : ∀ k : ℕ, day + step * ((k + 1 : ℕ) : ℤ) = day + step + step * (k : ℤ) := by
      intro k
      push_cast
      ring
    rw [nearest_succ, hsucc]
    simp only [hone, hnext, ← ih]
    cases c.isTradingDay (day + step) with
    | error e => simp [bind, Except.bind]
    | ok trading => cases trading <;> simp [bind, Except.bind, pure, Except.pure, eq_comm]

theorem nextTradingDay_iff (day next : Day) :
    c.nextTradingDay day = .ok next ↔ ∃ k : ℕ, c.Trades 1 day k ∧ next = day + 1 * k := by
  refine scan_nearest (g := c.scan day) (fun day next h => ?_) (fun n day => rfl) maxScanDays day
    next
  cases h

theorem previousTradingDay_iff (day next : Day) :
    c.previousTradingDay day = .ok next ↔ ∃ k : ℕ, c.Trades (-1) day k ∧ next = day + -1 * k := by
  refine scan_nearest (g := c.scanBack day) (fun day next h => ?_) (fun n day => rfl) maxScanDays
    day next
  cases h

/-- The days of a weekend skipped, the day is the nearest weekday. -/
theorem nextWeekday_spec (hstep : step = 1 ∨ step = -1) (day : Day) :
    ∃ k : ℕ, nextWeekday step day = day + step * k ∧ Weekday step day k := by
  have hplace : ∀ k : ℕ, 0 < k → k ≤ 3 → Day.weekday (day + step * k) < 5 →
      (∀ j : ℕ, 0 < j → j < k → ¬Day.weekday (day + step * j) < 5) → Weekday step day k :=
    fun k hpos hreach hyes hno =>
      ⟨hpos, hreach, by simp [hyes], fun j hj hlt => by simpa using hno j hj hlt⟩
  have h1 : day + step * ((1 : ℕ) : ℤ) = day + step := by
    push_cast
    ring
  have h2 : day + step * ((2 : ℕ) : ℤ) = day + step + step := by
    push_cast
    ring
  have h3 : day + step * ((3 : ℕ) : ℤ) = day + step + step + step := by
    push_cast
    ring
  unfold nextWeekday
  split
  next hfirst =>
    exact ⟨1, h1.symm, hplace 1 (by omega) (by omega) (by rwa [h1]) fun j hj hlt => by omega⟩
  next hfirst =>
    split
    next hsecond =>
      refine ⟨2, h2.symm, hplace 2 (by omega) (by omega) (by rwa [h2]) fun j hj hlt => ?_⟩
      obtain rfl : j = 1 := by omega
      rwa [h1]
    next hsecond =>
      have hthird : Day.weekday (day + step + step + step) < 5 := by
        unfold Day.weekday at hfirst hsecond ⊢
        rcases hstep with rfl | rfl <;> omega
      refine ⟨3, h3.symm, hplace 3 (by omega) (by omega) (by rwa [h3]) fun j hj hlt => ?_⟩
      obtain rfl | rfl : j = 1 ∨ j = 2 := by omega
      · rwa [h1]
      · rwa [h2]

theorem shiftOne_next (hstep : step = 1 ∨ step = -1) (day : Day) :
    c.NextSession step day (shiftOne c step day) := by
  have hscan : ∀ next, (if 0 < step then c.nextTradingDay day else c.previousTradingDay day) =
      .ok next ↔ ∃ k : ℕ, c.Trades step day k ∧ next = day + step * k := by
    intro next
    rcases hstep with rfl | rfl
    · exact nextTradingDay_iff day next
    · exact previousTradingDay_iff day next
  unfold shiftOne
  cases hs : (if 0 < step then c.nextTradingDay day else c.previousTradingDay day) with
  | ok next =>
    obtain ⟨k, htrades, hnext⟩ := (hscan next).mp hs
    exact ⟨k, hnext, .inl htrades⟩
  | error e =>
    obtain ⟨k, hk, hweekday⟩ := nextWeekday_spec hstep day
    refine ⟨k, hk, .inr ⟨fun j hj => ?_, hweekday⟩⟩
    have := (hscan _).mpr ⟨j, hj, rfl⟩
    rw [hs] at this
    cases this

theorem iterate_nth (hstep : step = 1 ∨ step = -1) (n : ℕ) (day : Day) :
    c.NthSession step day n ((shiftOne c step)^[n] day) := by
  induction n with
  | zero => exact .here
  | succ n ih =>
    rw [Function.iterate_succ_apply']
    exact ih.next (shiftOne_next hstep _)

end NSECalendar

/-- `shift_sessions` counts sessions, after the day or before it. -/
theorem shiftSessions_after (c : NSECalendar) (day : Day) (n : ℕ) :
    c.NthSession 1 day n (shiftSessions c day n) := by
  unfold shiftSessions
  cases n with
  | zero => exact .here
  | succ n =>
    have hpos : 0 < ((n + 1 : ℕ) : ℤ) := by omega
    rw [if_pos hpos, Int.natAbs_natCast]
    exact NSECalendar.iterate_nth (.inl rfl) (n + 1) day

theorem shiftSessions_before (c : NSECalendar) (day : Day) (n : ℕ) :
    c.NthSession (-1) day n (shiftSessions c day (-n)) := by
  have hneg : ¬0 < -(n : ℤ) := by omega
  rw [shiftSessions, if_neg hneg, Int.natAbs_neg, Int.natAbs_natCast]
  exact NSECalendar.iterate_nth (.inr rfl) n day

/-! ## Windows -/

/-- The day lies in the results window of the event. -/
def InResultsWindow (c : NSECalendar) (rules : EventRules) (e : TypedEvent) (day : Day) : Prop :=
  ∃ first last, c.NthSession (-1) e.day rules.resultsBefore first ∧
    c.NthSession 1 e.day rules.resultsAfter last ∧ first ≤ day ∧ day ≤ last

/-- The day lies in the window of the event as an adverse one. -/
def InAdverseWindow (c : NSECalendar) (rules : EventRules) (e : TypedEvent) (day : Day) : Prop :=
  ∃ last, c.NthSession 1 e.published rules.adverseAfter last ∧ e.published ≤ day ∧ day ≤ last

section windows

variable {c : NSECalendar} {rules : EventRules} {e : TypedEvent} {day : Day}

theorem resultsBlock_covers :
    (e.resultsBlock c rules).covers day = true ↔ InResultsWindow c rules e day := by
  have hfirst := shiftSessions_before c e.day rules.resultsBefore
  have hlast := shiftSessions_after c e.day rules.resultsAfter
  simp only [EventBlock.covers, decide_eq_true_eq]
  constructor
  · rintro ⟨hstart, hend⟩
    exact ⟨_, _, hfirst, hlast, hstart, hend⟩
  · rintro ⟨first, last, hf, hl, hstart, hend⟩
    rw [hf.unique hfirst] at hstart
    rw [hl.unique hlast] at hend
    exact ⟨hstart, hend⟩

theorem adverseBlock_covers :
    (e.adverseBlock c rules).covers day = true ↔ InAdverseWindow c rules e day := by
  have hlast := shiftSessions_after c e.published rules.adverseAfter
  simp only [EventBlock.covers, decide_eq_true_eq]
  constructor
  · rintro ⟨hstart, hend⟩
    exact ⟨_, hlast, hstart, hend⟩
  · rintro ⟨last, hl, hstart, hend⟩
    rw [hl.unique hlast] at hend
    exact ⟨hstart, hend⟩

end windows

section eventBlocks

variable (c : NSECalendar) (rules : EventRules) (now : Instant)

/-- The blocks an instrument is given. -/
def blocksOf (events : List TypedEvent) (key : String) : List EventBlock :=
  ((eventBlocks c rules now events).get? key).getD []

theorem mem_addBlock (out : Dict String (List EventBlock)) (e : TypedEvent) (key : String)
    (b : EventBlock) : b ∈ ((addBlock c rules now out e).get? key).getD [] ↔
      b ∈ (out.get? key).getD [] ∨ (e.publishedAt ≤ now ∧ e.instrumentKey = key ∧
        e.block c rules = some b ∧ now.istDate ≤ b.end) := by
  unfold addBlock
  by_cases hknown : now < e.publishedAt
  · rw [if_pos hknown]
    simp [not_le.mpr hknown]
  · have hle : e.publishedAt ≤ now := not_lt.mp hknown
    rw [if_neg hknown]
    cases hblock : e.block c rules with
    | none => simp
    | some block =>
      by_cases hend : now.istDate ≤ block.end
      · by_cases hkey : key = e.instrumentKey
        · subst hkey
          simp only [hend, if_true, Dict.get?_set_self, Option.getD_some, List.mem_append,
            List.mem_singleton, hle, true_and, Option.some.injEq]
          constructor
          · rintro (hold | rfl)
            · exact .inl hold
            · exact .inr ⟨rfl, hend⟩
          · rintro (hold | ⟨rfl, -⟩)
            · exact .inl hold
            · exact .inr rfl
        · simp only [hend, if_true, Dict.get?_set_ne _ _ hkey]
          simp [Ne.symm hkey]
      · simp only [hend, if_false]
        constructor
        · exact .inl
        · rintro (hold | ⟨-, -, hsame, hle'⟩)
          · exact hold
          · cases hsame
            exact absurd hle' hend

/-- The blocks of an instrument are those of its events that were published by `now`, as far as
they do not end before today. -/
theorem mem_blocksOf (events : List TypedEvent) (key : String) (b : EventBlock) :
    b ∈ blocksOf c rules now events key ↔ ∃ e ∈ events, e.publishedAt ≤ now ∧
      e.instrumentKey = key ∧ e.block c rules = some b ∧ now.istDate ≤ b.end := by
  induction events using List.reverseRecOn with
  | nil => simp [blocksOf, eventBlocks]
  | append_singleton events e ih =>
    have hlast : b ∈ blocksOf c rules now (events ++ [e]) key ↔
        b ∈ blocksOf c rules now events key ∨ (e.publishedAt ≤ now ∧ e.instrumentKey = key ∧
          e.block c rules = some b ∧ now.istDate ≤ b.end) := by
      unfold blocksOf eventBlocks
      rw [List.foldl_concat]
      exact mem_addBlock c rules now _ e key b
    rw [hlast, ih]
    simp only [List.mem_append, List.mem_singleton, or_and_right, exists_or, exists_eq_left]

/-- What was published after `now` contributes nothing. -/
theorem eventBlocks_known (events : List TypedEvent) :
    eventBlocks c rules now events =
      eventBlocks c rules now (events.filter fun e => e.publishedAt ≤ now) := by
  unfold eventBlocks
  rw [List.foldl_filter]
  congr 1
  funext out e
  unfold addBlock
  by_cases h : e.publishedAt ≤ now
  · simp [h]
  · simp [h, lt_of_not_ge h]

/-- Some block of the instrument covers the day. -/
def Covered (events : List TypedEvent) (key : String) (day : Day) : Prop :=
  ∃ b ∈ blocksOf c rules now events key, b.covers day = true

/-- The day lies in a window of the event that `event_blocks` looks at: the results window of an
event of a results type, the adverse window of any other adverse event. -/
def Shelters (e : TypedEvent) (day : Day) : Prop :=
  (rules.isResults e = true ∧ InResultsWindow c rules e day) ∨
    (rules.isResults e = false ∧ rules.isAdverse e = true ∧ InAdverseWindow c rules e day)

variable {c rules now}

/-- From today on, a day is blocked when it lies in a window that is looked at. -/
theorem covered_iff {events : List TypedEvent} {key : String} {day : Day}
    (htoday : now.istDate ≤ day) : Covered c rules now events key day ↔
      ∃ e ∈ events, e.publishedAt ≤ now ∧ e.instrumentKey = key ∧ Shelters c rules e day := by
  have hblock : ∀ e : TypedEvent, (∃ b, e.block c rules = some b ∧ now.istDate ≤ b.end ∧
      b.covers day = true) ↔ Shelters c rules e day := by
    intro e
    -- a block that covers a day from today on does not end before today
    have hend : ∀ b : EventBlock, (now.istDate ≤ b.end ∧ b.covers day = true) ↔
        b.covers day = true := by
      intro b
      refine and_iff_right_of_imp fun hcovers => ?_
      simp only [EventBlock.covers, decide_eq_true_eq] at hcovers
      exact htoday.trans hcovers.2
    unfold Shelters TypedEvent.block
    cases hresults : rules.isResults e
    · cases hadverse : rules.isAdverse e
      · simp
      · simp [hend, adverseBlock_covers]
    · simp [hend, resultsBlock_covers]
  constructor
  · rintro ⟨b, hb, hcovers⟩
    obtain ⟨e, he, hknown, hkey, heq, hend⟩ := (mem_blocksOf c rules now events key b).mp hb
    exact ⟨e, he, hknown, hkey, (hblock e).mp ⟨b, heq, hend, hcovers⟩⟩
  · rintro ⟨e, he, hknown, hkey, hshelters⟩
    obtain ⟨b, heq, hend, hcovers⟩ := (hblock e).mpr hshelters
    exact ⟨b, (mem_blocksOf c rules now events key b).mpr ⟨e, he, hknown, hkey, heq, hend⟩,
      hcovers⟩

variable (c rules now)

/-- Every day of a results window, from today on, is blocked. -/
def ResultsBlocked (events : List TypedEvent) : Prop :=
  ∀ e ∈ events, e.publishedAt ≤ now → rules.isResults e = true → ∀ day, now.istDate ≤ day →
    InResultsWindow c rules e day → Covered c rules now events e.instrumentKey day

/-- Every day of the window of an adverse event, from today on, is blocked. -/
def AdverseBlocked (events : List TypedEvent) : Prop :=
  ∀ e ∈ events, e.publishedAt ≤ now → rules.isAdverse e = true → ∀ day, now.istDate ≤ day →
    InAdverseWindow c rules e day → Covered c rules now events e.instrumentKey day

/-- Where an adverse event is of a results type too, the days of its adverse window, from today
on, lie in windows of the instrument's events that are looked at. -/
def AdverseSheltered (events : List TypedEvent) : Prop :=
  ∀ e ∈ events, e.publishedAt ≤ now → rules.isAdverse e = true → rules.isResults e = true →
    ∀ day, now.istDate ≤ day → InAdverseWindow c rules e day →
      ∃ e' ∈ events, e'.publishedAt ≤ now ∧ e'.instrumentKey = e.instrumentKey ∧
        Shelters c rules e' day

/-- **Event windows.** For all announcements, rules, calendars and instants: what was published
later contributes nothing, results windows are always blocked, and adverse windows are exactly
when those of events of a results type lie in other windows. -/
theorem adverse_blocked_iff (events : List TypedEvent) :
    eventBlocks c rules now events =
        eventBlocks c rules now (events.filter fun e => e.publishedAt ≤ now) ∧
      ResultsBlocked c rules now events ∧
      (AdverseBlocked c rules now events ↔ AdverseSheltered c rules now events) := by
  refine ⟨eventBlocks_known c rules now events, ?_, ?_, ?_⟩
  · intro e he hknown hresults day htoday hwindow
    exact (covered_iff htoday).mpr ⟨e, he, hknown, rfl, .inl ⟨hresults, hwindow⟩⟩
  · intro hblocked e he hknown hadverse _ day htoday hwindow
    exact (covered_iff htoday).mp (hblocked e he hknown hadverse day htoday hwindow)
  · intro hsheltered e he hknown hadverse day htoday hwindow
    refine (covered_iff htoday).mpr ?_
    cases hresults : rules.isResults e
    · exact ⟨e, he, hknown, rfl, .inr ⟨hresults, hadverse, hwindow⟩⟩
    · exact hsheltered e he hknown hadverse hresults day htoday hwindow

end eventBlocks

/-! ## Bad results -/

namespace BadResults

/-- Weekdays trade, in 2026. -/
def calendar : NSECalendar :=
  ⟨⟨32400000000, 33300000000, 55800000000, by decide, by decide⟩, [2026], [], .empty⟩

/-- Bad results, out on Monday 5 October 2026 at noon. -/
def announcement : TypedEvent :=
  { eventId := "e1", instrumentKey := "INFY", publishedAt := 1791181800000000, title := "Q2 results"
    relevant := true, announcementType := some .results, direction := some .negative
    materiality := some .major, extra := .empty }

end BadResults

/-- Bad results block the next session only; on the second session after them, which the adverse
rule covers, nothing is blocked. -/
theorem bad_results_unblocked : ¬ ∀ (c : NSECalendar) (rules : EventRules) (now : Instant)
    (events : List TypedEvent), AdverseBlocked c rules now events := by
  intro h
  have hwindow : InAdverseWindow BadResults.calendar .default BadResults.announcement 20733 :=
    ⟨_, shiftSessions_after _ _ 2, by decide +kernel, by decide +kernel⟩
  obtain ⟨b, hb, hcovers⟩ := h BadResults.calendar .default 1791181800000000
    [BadResults.announcement] _ (List.mem_singleton_self _) le_rfl (by decide +kernel) 20733
    (by decide +kernel) hwindow
  have hnone : ∀ b ∈ blocksOf BadResults.calendar .default 1791181800000000
      [BadResults.announcement] "INFY", b.covers 20733 = false := by decide +kernel
  rw [hnone b hb] at hcovers
  cases hcovers

end RakshaQuant
