import RakshaQuant.Domain.Calendar
import RakshaQuant.Risk.Snapshot

/-! The event calendar: classified announcements become windows in which new entries in an
instrument are blocked. Windows are counted in trading sessions, and only what was published
by the evaluation time counts. -/

namespace RakshaQuant

/-! ## Dates in texts -/

namespace Day

/-- The number a text of digits stands for. -/
def digits (cs : List Char) : Option ℤ :=
  if cs.all Char.isDigit then some (Nat.ofDigitChars 10 cs 0) else none

/-- The day of a civil date, if there is one in the years a date has. -/
def ofCivil (year month dayOfMonth : ℤ) : Option Day :=
  let y := if month ≤ 2 then year - 1 else year
  let yoe := y % 400
  let doy := (153 * (if 2 < month then month - 3 else month + 9) + 2) / 5 + dayOfMonth - 1
  let day := y / 400 * 146097 + (yoe * 365 + yoe / 4 - yoe / 100 + doy) - 719468
  if 1 ≤ year ∧ year ≤ 9999 ∧ civil day = (year, month, dayOfMonth) then some day else none

/-- The Monday of the first ISO week of a year: the week of 4 January. -/
def isoWeekOne (year : ℤ) : Option Day :=
  (ofCivil year 1 4).map fun fourth => fourth - weekday fourth

/-- The day of an ISO week date: a week belongs to the year its Thursday is in. -/
def ofIsoWeek (year week dayOfWeek : ℤ) : Option Day := do
  let monday := (← isoWeekOne year) + 7 * (week - 1)
  let day := monday + dayOfWeek - 1
  if 1 ≤ week ∧ Day.year (monday + 3) = year ∧ 1 ≤ dayOfWeek ∧ dayOfWeek ≤ 7 ∧
      Day.year day ≤ 9999 then some day
  else none

/-- `date.fromisoformat`: a calendar or a week date, with or without separators. -/
def fromIsoformat (s : String) : Option Day :=
  match s.toList with
  | [y₀, y₁, y₂, y₃, '-', 'W', w₀, w₁, '-', d] => do
    ofIsoWeek (← digits [y₀, y₁, y₂, y₃]) (← digits [w₀, w₁]) (← digits [d])
  | [y₀, y₁, y₂, y₃, '-', 'W', w₀, w₁] => do
    ofIsoWeek (← digits [y₀, y₁, y₂, y₃]) (← digits [w₀, w₁]) 1
  | [y₀, y₁, y₂, y₃, 'W', w₀, w₁, d] => do
    ofIsoWeek (← digits [y₀, y₁, y₂, y₃]) (← digits [w₀, w₁]) (← digits [d])
  | [y₀, y₁, y₂, y₃, 'W', w₀, w₁] => do
    ofIsoWeek (← digits [y₀, y₁, y₂, y₃]) (← digits [w₀, w₁]) 1
  | [y₀, y₁, y₂, y₃, '-', m₀, m₁, '-', d₀, d₁] => do
    ofCivil (← digits [y₀, y₁, y₂, y₃]) (← digits [m₀, m₁]) (← digits [d₀, d₁])
  | [y₀, y₁, y₂, y₃, m₀, m₁, d₀, d₁] => do
    ofCivil (← digits [y₀, y₁, y₂, y₃]) (← digits [m₀, m₁]) (← digits [d₀, d₁])
  | _ => none

end Day

example : ["2026-10-02", "20261002", "2026-W40-5", "2026W405"].map Day.fromIsoformat =
    List.replicate 4 (some 20728) := by
  decide +kernel

example : ["2026-02-30", "2026-13-01", "2 Oct 2026", ""].map Day.fromIsoformat =
    List.replicate 4 none := by
  decide +kernel

/-! ## Announcements and rules -/

inductive AnnouncementType
  | results
  | resultsDate
  | dividend
  | splitBonus
  | pledge
  | insiderOrPromoter
  | orderWin
  | litigationOrRegulatory
  | managementChange
  | ratingChange
  | fundraise
  | other
deriving DecidableEq

inductive EventDirection
  | positive
  | negative
  | neutral
  | unclear
deriving DecidableEq

inductive Materiality
  | minor
  | moderate
  | major
deriving DecidableEq

/-- A JSON value of an announcement's `extra`, as far as it is told apart: a text or not. -/
inductive ExtraValue
  | text (value : String)
  | other
deriving DecidableEq

/-- A classified announcement. -/
structure TypedEvent where
  eventId : String
  instrumentKey : String
  publishedAt : Instant
  title : String
  relevant : Bool
  announcementType : Option AnnouncementType
  direction : Option EventDirection
  materiality : Option Materiality
  extra : Dict String ExtraValue

/-- `EventRules`; `from_yaml` refuses a count of sessions below zero. -/
structure EventRules where
  resultsTypes : List AnnouncementType
  resultsBefore : ℕ
  resultsAfter : ℕ
  adverseDirection : EventDirection
  adverseMateriality : Materiality
  adverseAfter : ℕ

namespace EventRules

/-- `EventRules()`, and the rules the repository ships. -/
def default : EventRules := ⟨[.results, .resultsDate], 1, 1, .negative, .major, 2⟩

variable (rules : EventRules) (event : TypedEvent)

def isAdverse : Bool :=
  event.relevant ∧ event.direction = some rules.adverseDirection ∧
    event.materiality = some rules.adverseMateriality

/-- `announcement_type in results_types`. -/
def isResults : Bool := event.announcementType.any fun kind => kind ∈ rules.resultsTypes

end EventRules

/-! ## Counting sessions -/

/-- The weekday on one side of a day: a step, and the days of a weekend skipped. A weekend
has two days, so the loop of the source makes at most two more steps. -/
def nextWeekday (step : ℤ) (day : Day) : Day :=
  if Day.weekday (day + step) < 5 then day + step
  else if Day.weekday (day + step + step) < 5 then day + step + step
  else day + step + step + step

/-- One round of `shift_sessions`: where the calendar raises, a weekday stands in. -/
def shiftOne (calendar : NSECalendar) (step : ℤ) (day : Day) : Day :=
  match if 0 < step then calendar.nextTradingDay day else calendar.previousTradingDay day with
  | .ok session => session
  | .error _ => nextWeekday step day

/-- `shift_sessions`: the session so many after a day, or before it when negative. -/
def shiftSessions (calendar : NSECalendar) (day : Day) (sessions : ℤ) : Day :=
  (shiftOne calendar (if 0 < sessions then 1 else -1))^[sessions.natAbs] day

/-! ## Blocks -/

namespace TypedEvent

variable (event : TypedEvent)

/-- The IST day the event was published on. -/
def published : Day := event.publishedAt.istDate

/-- `_event_date`. -/
def eventDate : Option Day :=
  match event.extra.get? "event_date" with
  | some (.text value) => Day.fromIsoformat value
  | _ => none

/-- `_event_date(event) or published`. -/
def day : Day := event.eventDate.getD event.published

variable (calendar : NSECalendar) (rules : EventRules)

def resultsBlock : EventBlock :=
  { code := .evtResultsWindow
    start := shiftSessions calendar event.day (-rules.resultsBefore)
    «end» := shiftSessions calendar event.day rules.resultsAfter
    eventId := event.eventId
    reason := "results " ++
      (if event.announcementType = some .resultsDate then "meeting" else "out") ++ " on " ++
      Day.isoformat event.day }

def adverseBlock : EventBlock :=
  { code := .evtAdverseMajor
    start := event.published
    «end» := shiftSessions calendar event.published rules.adverseAfter
    eventId := event.eventId
    reason := "negative major event on " ++ Day.isoformat event.published ++ ": " ++
      String.ofList (event.title.toList.take 80) }

/-- The block of one event, if a rule gives it one. -/
def block : Option EventBlock :=
  if rules.isResults event then some (event.resultsBlock calendar rules)
  else if rules.isAdverse event then some (event.adverseBlock calendar rules)
  else none

end TypedEvent

section eventBlocks

variable (calendar : NSECalendar) (rules : EventRules) (now : Instant)

/-- One round of the loop of `event_blocks`. -/
def addBlock (out : Dict String (List EventBlock)) (event : TypedEvent) :
    Dict String (List EventBlock) :=
  if now < event.publishedAt then out -- not yet known
  else
    match event.block calendar rules with
    | none => out
    | some block =>
      if now.istDate ≤ block.end then
        out.set event.instrumentKey ((out.get? event.instrumentKey).getD [] ++ [block])
      else out

/-- `event_blocks`: the blocks per instrument, from the events published by `now`. -/
def eventBlocks (events : List TypedEvent) : Dict String (List EventBlock) :=
  events.foldl (addBlock calendar rules now) .empty

end eventBlocks

end RakshaQuant
