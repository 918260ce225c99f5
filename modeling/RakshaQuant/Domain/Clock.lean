import RakshaQuant.Domain.Calendar
import RakshaQuant.Domain.Errors
import RakshaQuant.Lib.Agenda
import RakshaQuant.Lib.Decimal
import RakshaQuant.Lib.Numeral
import Mathlib.Data.Prod.Lex

/-! The replay clock: virtual time that moves only when a driver advances it. Tasks
blocked in `sleep` are woken in time order, first come first among equal wake times, and
the event loop runs between two wakes. What the tasks do then is any function of their
own state. -/

namespace RakshaQuant

/-- `str` of an instant in UTC. -/
def Instant.str (t : Instant) : String :=
  let micros := (t % 86400000000).toNat
  let seconds := micros / 1000000
  Day.isoformat (t / 86400000000) ++ " " ++ Numeral.padded 2 (seconds / 3600) ++ ":" ++
    Numeral.padded 2 (seconds / 60 % 60) ++ ":" ++ Numeral.padded 2 (seconds % 60) ++
    (if micros % 1000000 = 0 then "" else "." ++ Numeral.padded 6 (micros % 1000000)) ++ "+00:00"

/-- `timedelta(seconds=…)` in microseconds. -/
def timedelta (seconds : ℚ) : ℤ := Decimal.roundHalfEven (seconds * 1000000)

/-- An entry of the heap: when a task is to be woken, its place among those that asked,
and whether its future is done, the task being cancelled. -/
structure Sleeper where
  wake : Instant
  order : ℕ
  done : Bool
deriving DecidableEq

/-- The heap's order. -/
def Sleeper.key (s : Sleeper) : Instant ×ₗ ℕ := toLex (s.wake, s.order)

theorem Sleeper.key_lt_iff {s t : Sleeper} :
    s.key < t.key ↔ s.wake < t.wake ∨ s.wake = t.wake ∧ s.order < t.order :=
  Prod.Lex.lt_iff

theorem Sleeper.wake_le {s t : Sleeper} (h : s.key ≤ t.key) : s.wake ≤ t.wake := by
  rcases Prod.Lex.le_iff.mp h with h | h
  · exact h.le
  · exact h.1.le

/-- A cancelled task's future. -/
def Sleeper.stop (order : ℕ) (s : Sleeper) : Sleeper :=
  if s.order = order then { s with done := true } else s

theorem Sleeper.key_stop (order : ℕ) (s : Sleeper) : (s.stop order).key = s.key := by
  unfold stop
  split <;> rfl

@[simp] theorem Sleeper.order_stop (order : ℕ) (s : Sleeper) : (s.stop order).order = s.order := by
  unfold stop
  split <;> rfl

@[simp] theorem Sleeper.wake_stop (order : ℕ) (s : Sleeper) : (s.stop order).wake = s.wake := by
  unfold stop
  split <;> rfl

/-- The clock. No sleeper is overdue, and the next one's place is free. -/
structure ReplayClock where
  now : Instant
  sleepers : Agenda Sleeper.key
  order : ℕ
  fresh : ∀ s ∈ sleepers.entries, s.order < order
  due : ∀ s ∈ sleepers.entries, now ≤ s.wake

namespace ReplayClock

/-- What happens to a task at the clock. -/
inductive Mark
  | slept (s : Sleeper)
  | cancelled (s : Sleeper)
  | woke (s : Sleeper)
deriving DecidableEq

/-- A mark and what the clock read. -/
structure Note where
  time : Instant
  mark : Mark
deriving DecidableEq

/-- What a running task asks of the clock, or does to another that sleeps. -/
inductive Act
  | sleep (seconds : ℚ)
  | sleepUntil (ts : Instant)
  | cancel (order : ℕ)

theorem no_entries {P : Sleeper → Prop} : ∀ s ∈ (Agenda.empty : Agenda Sleeper.key).entries, P s :=
  fun _ h => absurd h List.not_mem_nil

def init (start : Instant) : ReplayClock := ⟨start, .empty, 0, no_entries, no_entries⟩

/-! ## What tasks ask -/

theorem key_fresh (c : ReplayClock) (ts : Instant) :
    ∀ s ∈ c.sleepers.entries, s.key ≠ Sleeper.key ⟨ts, c.order, false⟩ := by
  intro s hs h
  have horder : s.order = c.order := congrArg (fun k => (ofLex k).2) h
  exact absurd (c.fresh s hs) (by omega)

theorem fresh_push (c : ReplayClock) (ts : Instant) :
    ∀ s ∈ (c.sleepers.push ⟨ts, c.order, false⟩ (c.key_fresh ts)).entries, s.order < c.order + 1 := by
  intro s hs
  rcases Agenda.mem_place.mp hs with rfl | hs
  · exact Nat.lt_succ_self _
  · exact (c.fresh s hs).trans (Nat.lt_succ_self _)

theorem due_push (c : ReplayClock) {ts : Instant} (h : ¬ts ≤ c.now) :
    ∀ s ∈ (c.sleepers.push ⟨ts, c.order, false⟩ (c.key_fresh ts)).entries, c.now ≤ s.wake := by
  intro s hs
  rcases Agenda.mem_place.mp hs with rfl | hs
  · exact (not_le.mp h).le
  · exact c.due s hs

/-- The heap push of `sleep_until`. -/
def register (c : ReplayClock) (ts : Instant) (h : ¬ts ≤ c.now) : ReplayClock :=
  ⟨c.now, c.sleepers.push ⟨ts, c.order, false⟩ (c.key_fresh ts), c.order + 1, c.fresh_push ts,
    c.due_push h⟩

def sleepUntil (c : ReplayClock) (ts : Instant) : ReplayClock × List Mark :=
  if h : ts ≤ c.now then (c, [])
  else (c.register ts h, [.slept ⟨ts, c.order, false⟩])

def sleep (c : ReplayClock) (seconds : ℚ) : ReplayClock × List Mark :=
  if seconds ≤ 0 then (c, []) else c.sleepUntil (c.now + timedelta seconds)

theorem fresh_stop (c : ReplayClock) (order : ℕ) :
    ∀ s ∈ (c.sleepers.relabel (Sleeper.stop order) (Sleeper.key_stop order)).entries,
      s.order < c.order := by
  intro s hs
  obtain ⟨t, ht, rfl⟩ := List.mem_map.mp hs
  rw [Sleeper.order_stop]
  exact c.fresh t ht

theorem due_stop (c : ReplayClock) (order : ℕ) :
    ∀ s ∈ (c.sleepers.relabel (Sleeper.stop order) (Sleeper.key_stop order)).entries,
      c.now ≤ s.wake := by
  intro s hs
  obtain ⟨t, ht, rfl⟩ := List.mem_map.mp hs
  rw [Sleeper.wake_stop]
  exact c.due t ht

/-- The sleeper's future is done; its entry stays in the heap. -/
def stop (c : ReplayClock) (order : ℕ) : ReplayClock :=
  ⟨c.now, c.sleepers.relabel (Sleeper.stop order) (Sleeper.key_stop order), c.order,
    c.fresh_stop order, c.due_stop order⟩

/-- A sleeping task is cancelled; one that does not sleep is no concern of the clock. -/
def cancel (c : ReplayClock) (order : ℕ) : ReplayClock × List Mark :=
  match c.sleepers.entries.find? fun s => s.order = order ∧ s.done = false with
  | none => (c, [])
  | some s => (c.stop order, [.cancelled s])

def perform (c : ReplayClock) : Act → ReplayClock × List Mark
  | .sleep seconds => c.sleep seconds
  | .sleepUntil ts => c.sleepUntil ts
  | .cancel order => c.cancel order

/-- The acts of one turn of the event loop; time stands still. -/
def settle (c : ReplayClock) : List Act → ReplayClock × List Note
  | [] => (c, [])
  | a :: as =>
    let r := c.perform a
    let later := r.1.settle as
    (later.1, r.2.map (⟨c.now, ·⟩) ++ later.2)

/-! ## What the driver does -/

/-- The heap pop of a future that is done. -/
def skip (c : ReplayClock) : ReplayClock :=
  ⟨c.now, c.sleepers.rest, c.order, fun s hs => c.fresh s (List.mem_of_mem_tail hs),
    fun s hs => c.due s (List.mem_of_mem_tail hs)⟩

theorem due_wake (c : ReplayClock) {s : Sleeper} (h : c.sleepers.entries.head? = some s) :
    ∀ t ∈ c.sleepers.rest.entries, s.wake ≤ t.wake :=
  fun _ ht => Sleeper.wake_le (Agenda.head_lt h ht).le

/-- The heap pop of a future that is set: it is the sleeper's time. -/
def wake (c : ReplayClock) (s : Sleeper) (h : c.sleepers.entries.head? = some s) : ReplayClock :=
  ⟨s.wake, c.sleepers.rest, c.order, fun s hs => c.fresh s (List.mem_of_mem_tail hs),
    c.due_wake h⟩

def moveTo (c : ReplayClock) (target : Instant) (h : ∀ s ∈ c.sleepers.entries, target ≤ s.wake) :
    ReplayClock :=
  ⟨target, c.sleepers, c.order, c.fresh, h⟩

/-- The sleepers whose time is now. -/
def dueNow (c : ReplayClock) : ℕ := c.sleepers.entries.countP fun s => s.wake ≤ c.now

theorem perform_now (c : ReplayClock) (a : Act) : (c.perform a).1.now = c.now := by
  cases a with
  | sleep seconds =>
    unfold perform sleep sleepUntil
    dsimp only
    split
    · rfl
    · split <;> rfl
  | sleepUntil ts =>
    unfold perform sleepUntil
    dsimp only
    split <;> rfl
  | cancel order =>
    unfold perform cancel
    dsimp only
    split <;> rfl

theorem dueNow_register (c : ReplayClock) {ts : Instant} (h : ¬ts ≤ c.now) :
    (c.register ts h).dueNow = c.dueNow := by
  unfold dueNow register Agenda.push
  dsimp only
  rw [(Agenda.perm_place _ _).countP_eq, List.countP_cons_of_neg (by simpa using h)]

theorem dueNow_stop (c : ReplayClock) (order : ℕ) : (c.stop order).dueNow = c.dueNow := by
  unfold dueNow stop Agenda.relabel
  dsimp only
  rw [List.countP_map]
  exact List.countP_congr fun s _ => by simp

/-- A task that sleeps is not due now. -/
theorem dueNow_perform (c : ReplayClock) (a : Act) : (c.perform a).1.dueNow = c.dueNow := by
  have huntil : ∀ ts, (c.sleepUntil ts).1.dueNow = c.dueNow := by
    intro ts
    unfold sleepUntil
    split
    · rfl
    · rename_i h
      exact c.dueNow_register h
  cases a with
  | sleep seconds =>
    unfold perform sleep
    dsimp only
    split
    · rfl
    · exact huntil _
  | sleepUntil ts => exact huntil ts
  | cancel order =>
    unfold perform cancel
    dsimp only
    split
    · rfl
    · exact c.dueNow_stop order

theorem settle_now (c : ReplayClock) (as : List Act) : (c.settle as).1.now = c.now := by
  induction as generalizing c with
  | nil => rfl
  | cons a as ih => exact (ih _).trans (c.perform_now a)

theorem dueNow_settle (c : ReplayClock) (as : List Act) : (c.settle as).1.dueNow = c.dueNow := by
  induction as generalizing c with
  | nil => rfl
  | cons a as ih => exact (ih _).trans (c.dueNow_perform a)

end ReplayClock

/-! ## The replay -/

/-- A replay: the tasks' state, the clock, and what happened at it. -/
structure Playback (σ : Type*) where
  tasks : σ
  clock : ReplayClock
  notes : List ReplayClock.Note

namespace Playback

open ReplayClock

/-- The tasks under replay, as the clock sees them: their state and, when the loop runs
after a wake or before one, what they do. -/
abbrev Turn (σ : Type*) := σ → ReplayClock → Option Sleeper → σ × List Act

variable {σ : Type*} (turn : Turn σ)

/-- `_settle`: the event loop runs, after a sleeper was woken if one was. -/
def settle (woken : Option Sleeper) (r : Playback σ) : Playback σ :=
  let t := turn r.tasks r.clock woken
  let s := r.clock.settle t.2
  ⟨t.1, s.1, r.notes ++ s.2⟩

def skip (r : Playback σ) : Playback σ := { r with clock := r.clock.skip }

def wake (r : Playback σ) (s : Sleeper) (h : r.clock.sleepers.entries.head? = some s) : Playback σ :=
  { r with clock := r.clock.wake s h, notes := r.notes ++ [⟨s.wake, .woke s⟩] }

/-- How far the loop of `advance_to` still has to go. -/
def ahead (target : Instant) (r : Playback σ) : ℕ ×ₗ ℕ ×ₗ ℕ :=
  toLex ((target - r.clock.now).toNat, toLex (r.clock.dueNow, r.clock.sleepers.entries.length))

theorem ahead_skip {target : Instant} {r : Playback σ} {s : Sleeper}
    (h : r.clock.sleepers.entries.head? = some s) : r.skip.ahead target < r.ahead target := by
  have hentries := Agenda.entries_eq h
  refine Prod.Lex.lt_iff.mpr (.inr ⟨rfl, Prod.Lex.lt_iff.mpr ?_⟩)
  have hlength : r.skip.clock.sleepers.entries.length < r.clock.sleepers.entries.length := by
    rw [hentries]
    exact Nat.lt_succ_self _
  have hcount : r.skip.clock.dueNow ≤ r.clock.dueNow :=
    (List.tail_sublist r.clock.sleepers.entries).countP_le
  rcases hcount.lt_or_eq with hlt | heq
  · exact .inl hlt
  · exact .inr ⟨heq, hlength⟩

/-- Either time has moved on, or one of the sleepers due now is gone and none was added. -/
theorem ahead_wake {target : Instant} {r : Playback σ} {s : Sleeper}
    (h : r.clock.sleepers.entries.head? = some s) (hdue : s.wake ≤ target) :
    ((r.wake s h).settle turn (some s)).ahead target < r.ahead target := by
  have hentries := Agenda.entries_eq h
  have hmem : s ∈ r.clock.sleepers.entries := by
    rw [hentries]
    exact List.mem_cons_self
  have hnow : ((r.wake s h).settle turn (some s)).clock.now = s.wake := ReplayClock.settle_now _ _
  have hcount : ((r.wake s h).settle turn (some s)).clock.dueNow =
      (r.clock.wake s h).dueNow := ReplayClock.dueNow_settle _ _
  rcases (r.clock.due s hmem).lt_or_eq with hlt | heq
  · have hless : (target - s.wake).toNat < (target - r.clock.now).toNat := by
      have hfrom : (0 : ℤ) ≤ target - s.wake := sub_nonneg.mpr hdue
      have hto : target - s.wake < target - r.clock.now := sub_lt_sub_left hlt target
      exact (Int.toNat_lt_toNat (hfrom.trans_lt hto)).mpr hto
    unfold ahead
    rw [hnow]
    exact Prod.Lex.toLex_lt_toLex.mpr (.inl hless)
  · have hless : (r.clock.wake s h).dueNow < r.clock.dueNow := by
      unfold ReplayClock.dueNow ReplayClock.wake
      rw [hentries, List.countP_cons_of_pos (by simp [heq]), heq]
      exact Nat.lt_succ_self _
    unfold ahead
    rw [hnow, hcount, heq]
    exact Prod.Lex.toLex_lt_toLex.mpr (.inr ⟨rfl, Prod.Lex.toLex_lt_toLex.mpr (.inl hless)⟩)

/-- The loop of `advance_to`. It ends: a task woken at an instant can only sleep past it. -/
def wakeDue (target : Instant) (r : Playback σ) : Playback σ :=
  match h : r.clock.sleepers.entries.head? with
  | none => r
  | some s =>
    if s.wake ≤ target then
      if s.done then wakeDue target r.skip
      else wakeDue target ((r.wake s h).settle turn (some s))
    else r
termination_by r.ahead target
decreasing_by
  · exact ahead_skip h
  · exact ahead_wake turn h ‹_›

theorem wakeDue_none {target : Instant} {r : Playback σ}
    (h : r.clock.sleepers.entries.head? = none) : r.wakeDue turn target = r := by
  rw [wakeDue.eq_def]
  split
  · rfl
  · rename_i hs
    cases h.symm.trans hs

theorem wakeDue_stay {target : Instant} {r : Playback σ} {s : Sleeper}
    (h : r.clock.sleepers.entries.head? = some s) (hdue : ¬s.wake ≤ target) :
    r.wakeDue turn target = r := by
  rw [wakeDue.eq_def]
  split
  · rfl
  · rename_i hs
    cases h.symm.trans hs
    rw [if_neg hdue]

theorem wakeDue_skip {target : Instant} {r : Playback σ} {s : Sleeper}
    (h : r.clock.sleepers.entries.head? = some s) (hdue : s.wake ≤ target) (hdone : s.done) :
    r.wakeDue turn target = r.skip.wakeDue turn target := by
  rw [wakeDue.eq_def]
  split
  · rename_i hs
    cases h.symm.trans hs
  · rename_i hs
    cases h.symm.trans hs
    rw [if_pos hdue, if_pos hdone]

theorem wakeDue_wake {target : Instant} {r : Playback σ} {s : Sleeper}
    (h : r.clock.sleepers.entries.head? = some s) (hdue : s.wake ≤ target) (hdone : ¬s.done) :
    r.wakeDue turn target = ((r.wake s h).settle turn (some s)).wakeDue turn target := by
  rw [wakeDue.eq_def]
  split
  · rename_i hs
    cases h.symm.trans hs
  · rename_i hs
    cases h.symm.trans hs
    rw [if_pos hdue, if_neg hdone]

theorem wakeDue_later (target : Instant) (r : Playback σ) :
    ∀ s ∈ (r.wakeDue turn target).clock.sleepers.entries, target < s.wake := by
  induction r using wakeDue.induct turn target with
  | case1 r h =>
    rw [wakeDue_none turn h, List.head?_eq_none_iff.mp h]
    exact fun s hs => absurd hs List.not_mem_nil
  | case2 r s h hdue hdone ih =>
    rw [wakeDue_skip turn h hdue hdone]
    exact ih
  | case3 r s h hdue hdone ih =>
    rw [wakeDue_wake turn h hdue hdone]
    exact ih
  | case4 r s h hdue =>
    rw [wakeDue_stay turn h hdue]
    intro t ht
    exact (not_le.mp hdue).trans_le (Sleeper.wake_le (Agenda.head_le h ht))

theorem wakeDue_due (target : Instant) (r : Playback σ) :
    ∀ s ∈ (r.wakeDue turn target).clock.sleepers.entries, target ≤ s.wake :=
  fun s hs => (r.wakeDue_later turn target s hs).le

/-- Time moves to `target`, whatever was due on the way woken. -/
def reach (target : Instant) (r : Playback σ) : Playback σ :=
  let s := r.wakeDue turn target
  { s with clock := s.clock.moveTo target (r.wakeDue_due turn target) }

def advanceTo (target : Instant) (r : Playback σ) : Except Exc (Playback σ) :=
  if target < r.clock.now then
    .error (.valueError
      ("time cannot go backwards (" ++ target.str ++ " < " ++ r.clock.now.str ++ ")"))
  else .ok ((r.settle turn none).reach turn target)

/-- One call of a driver; a refused one changes nothing. -/
def call (r : Playback σ) (target : Instant) : Playback σ :=
  match r.advanceTo turn target with
  | .ok r' => r'
  | .error _ => r

/-- A driver's calls, one after the other. -/
def run (targets : List Instant) (r : Playback σ) : Playback σ := targets.foldl (call turn) r

def start (tasks : σ) (now : Instant) : Playback σ := ⟨tasks, .init now, []⟩

end Playback

end RakshaQuant
