import RakshaQuant.Domain.Events
import RakshaQuant.Engine.Lifecycle

/-! The session lifecycle, driven through the schedule of its day. Time passes while a hook
runs and while the lifecycle sleeps: how long a hook takes, whether it raises, how late the
lifecycle is woken, and when a stop is requested are given from outside. -/

namespace RakshaQuant

/-- One run of a hook. -/
structure HookRun where
  took : ℕ
  raised : Option Exc

/-- A hook that is not set is not called. -/
structure LifecycleHooks where
  onPreOpen : Option HookRun
  onState : Option (SessionState → HookRun)

/-- How late the sleep to a state's start ends, and when `request_stop` is called. -/
structure Wakes where
  late : SessionState → ℕ
  stop : Option Instant

/-- What is emitted, without the reason of a skipped holiday, and the hooks that are called. -/
inductive LifecycleEvent
  | holidaySkipped (sessionDate : Day)
  | sessionStateChanged (sessionDate : Day) (previous : Option SessionState)
      (current : SessionState)
  | alert (alert : Alert)
  | onPreOpen
  | onState (state : SessionState)
deriving DecidableEq

/-- What the clock reads, `state`, and the log. -/
structure SessionLifecycle where
  now : Instant
  state : Option SessionState
  log : List LifecycleEvent
deriving DecidableEq

namespace SessionLifecycle

def stateText (l : SessionLifecycle) : String := (l.state.map SessionState.value).getD "None"

def stopRequested (wakes : Wakes) (l : SessionLifecycle) : Bool := wakes.stop.any (· ≤ l.now)

/-- `_transition`. -/
def transition (state : SessionState) (day : Day) (l : SessionLifecycle) : SessionLifecycle :=
  if l.state = some state then l
  else { l with state := some state, log := l.log ++ [.sessionStateChanged day l.state state] }

/-- `_hook`: a hook that raises is alerted. -/
def hook (name : String) (called : LifecycleEvent) (run : HookRun) (l : SessionLifecycle) :
    SessionLifecycle :=
  let alerts := run.raised.toList.map fun exc =>
    LifecycleEvent.alert ⟨"CRITICAL", "lifecycle_hook_failed:" ++ name,
      name ++ " failed in " ++ l.stateText ++ ": " ++ exc.name ++ ": " ++ exc.message⟩
  { l with now := l.now + run.took, log := l.log ++ [called] ++ alerts }

/-- `_enter`. -/
def enter (hooks : LifecycleHooks) (day : Day) (state : SessionState) (l : SessionLifecycle) :
    SessionLifecycle :=
  match hooks.onState with
  | none => l.transition state day
  | some onState => (l.transition state day).hook "on_state" (.onState state) (onState state)

/-- `_sleep_until` the start of a state; false when a stop came first. -/
def sleepUntil (wakes : Wakes) (state : SessionState) (starts : Instant) (l : SessionLifecycle) :
    Bool × SessionLifecycle :=
  let wake := starts + wakes.late state
  match wakes.stop with
  | none => (true, { l with now := wake })
  | some stop =>
    if stop ≤ wake then (false, { l with now := max l.now stop }) else (true, { l with now := wake })

/-- `_stopped`. -/
def stopped (l : SessionLifecycle) : SessionLifecycle :=
  { l with log := l.log ++ [.alert ⟨"INFO", "session_stopped",
    "stopped on request in " ++ l.stateText⟩] }

/-- The loop of `run`: a state whose start has passed is skipped. -/
def loop (hooks : LifecycleHooks) (wakes : Wakes) (day : Day) :
    List (SessionState × Instant) → SessionLifecycle → SessionLifecycle
  | [], l => l
  | (state, starts) :: rest, l =>
    if starts ≤ l.now then loop hooks wakes day rest l
    else
      match l.sleepUntil wakes state starts with
      | (false, l) => l.stopped
      | (true, l) => loop hooks wakes day rest (l.enter hooks day state)

/-- The lifecycle when the pre-open hook has returned. -/
def preOpened (hooks : LifecycleHooks) (day : Day) (start : Instant) : SessionLifecycle :=
  match hooks.onPreOpen with
  | none => transition .preOpen day ⟨start, none, []⟩
  | some run => (transition .preOpen day ⟨start, none, []⟩).hook "on_pre_open" .onPreOpen run

/-- `run` on a trading day that is not over: a late start skips what already passed. -/
def drive (hooks : LifecycleHooks) (wakes : Wakes) (day : Day) (schedule : Schedule)
    (start : Instant) : SessionLifecycle :=
  let l := preOpened hooks day start
  let current := schedule.stateAt l.now
  let l := if current ≠ .preOpen ∧ !l.stopRequested wakes then l.enter hooks day current else l
  l.loop hooks wakes day schedule.transitions

/-- `run`: the lifecycle as it returns. A day the calendar does not cover is a
configuration error with the calendar's message. -/
def run (calendar : NSECalendar) (config : LifecycleConfig) (hooks : LifecycleHooks)
    (wakes : Wakes) (start : Instant) : Except Exc SessionLifecycle := do
  let today := start.istDate
  match ← buildSchedule calendar today config with
  | none => return transition .holiday today ⟨start, none, [.holidaySkipped today]⟩
  | some schedule =>
    if schedule.exit ≤ start then return transition .exit today ⟨start, none, []⟩
    return drive hooks wakes today schedule start

end SessionLifecycle

end RakshaQuant
