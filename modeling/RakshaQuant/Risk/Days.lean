import Mathlib.Order.Bounds.Basic
import RakshaQuant.Risk.State

/-! The daily risk state over whole runs. Whatever day an op of the tracker lands on, and
wherever the process dies in it, the state it leaves is the one it found, today's state
rolled from it, or what the op makes of today's state. -/

namespace RakshaQuant

namespace DailyRiskState

/-- The state `_current` works on: today's, or one rolled at the hint, or at the last mark.
None where it raises. -/
def today (bookId : String) (now : Instant) (hint : Option ℚ) :
    Option DailyRiskState → Option DailyRiskState
  | none => hint.map fun equity => rolled bookId now.istDate equity none
  | some s =>
    if s.istDate = now.istDate then some s
    else if now.istDate < s.istDate then none
    else some (rolled bookId now.istDate (hint.getD s.lastEquity) (some s))

/-- The state after an event of the OMS, if the tracker records it. -/
def recording (limits : RiskLimits) (now : Instant) :
    EventPayload → Option (DailyRiskState → DailyRiskState)
  | .orderSubmitted order => some fun s => s.withOrder order.intent now
  | .orderRejected _ _ _ => some fun s =>
      { s with rejectTs := recent s.rejectTs now limits.rejectWindow ++ [now] }
  | .tradeClosed trade => some fun s => s.withTrade trade
  | _ => none

/-- The state after a streak was acknowledged. -/
def acknowledged (strategy : String) (s : DailyRiskState) : DailyRiskState :=
  match s.strategies.get? strategy with
  | none => s
  | some day =>
    if day.consecutiveLosses = 0 then s
    else
      { s.withDay strategy fun day => { day with consecutiveLosses := 0 } with
        breaches := s.breaches.erase (.strConsecLosses, strategy) }

/-- The state with more breaches raised. -/
def raised (new : List Breach) (s : DailyRiskState) : DailyRiskState :=
  { s with breaches := new.foldl (fun keys b => keys.insert b.key) s.breaches }

end DailyRiskState

/-- What is called on a tracker; at a restart the state is loaded again. -/
inductive TrackerOp
  | startDay (equity : ℚ)
  | event (payload : EventPayload)
  | acknowledge (strategy : String)
  | tick (equity : ℚ) (unrealized : Dict String ℚ)
  | restart

/-- A call at its time. In a crash the process dies after some writes of it, or after it. -/
structure TrackerStep where
  now : Instant
  op : TrackerOp
  crash : Option ℕ

namespace TrackerOp

/-- An op as the code runs it; only a tick returns breaches. -/
def exec (config : RiskConfig) (now : Instant) : TrackerOp → RiskM (List Breach)
  | startDay equity => do
    let _ ← DailyRiskTracker.startDay config now equity
    return []
  | event payload => do
    DailyRiskTracker.onEvent config now payload
    return []
  | acknowledge strategy => do
    let _ ← DailyRiskTracker.acknowledgeStreak strategy
    return []
  | tick equity unrealized => DailyRiskTracker.riskTick config now equity unrealized
  | restart => do
    Fault.change RiskWorld.restart
    return []

/-- What an op that returns makes of the state, and the breaches it returns. -/
inductive Does (config : RiskConfig) (now : Instant) :
    TrackerOp → Option DailyRiskState → Option DailyRiskState → List Breach → Prop
  | startDay {equity : ℚ} {s : Option DailyRiskState} {state : DailyRiskState}
      (h : DailyRiskState.today config.bookId now (some equity) s = some state) :
      Does config now (.startDay equity) s (some state) []
  | event {payload : EventPayload} {change : DailyRiskState → DailyRiskState}
      {s : Option DailyRiskState} {state : DailyRiskState}
      (recorded : DailyRiskState.recording config.limits now payload = some change)
      (h : DailyRiskState.today config.bookId now none s = some state) :
      Does config now (.event payload) s (some (change state)) []
  | ignored {payload : EventPayload} {s : Option DailyRiskState}
      (ignored : DailyRiskState.recording config.limits now payload = none) :
      Does config now (.event payload) s s []
  | acknowledge {strategy : String} {s : Option DailyRiskState} :
      Does config now (.acknowledge strategy) s (s.map (DailyRiskState.acknowledged strategy)) []
  | tick {equity : ℚ} {unrealized : Dict String ℚ} {s : Option DailyRiskState}
      {state : DailyRiskState}
      (h : DailyRiskState.today config.bookId now (some equity) s = some state) :
      Does config now (.tick equity unrealized) s
        (some ((state.marked equity now).raised
          ((state.marked equity now).fresh config.limits now unrealized)))
        ((state.marked equity now).fresh config.limits now unrealized)
  | restart {s : Option DailyRiskState} : Does config now .restart s s []

/-- The equity an op hands to `_current`. -/
def hint : TrackerOp → Option ℚ
  | startDay equity | tick equity _ => some equity
  | _ => none

end TrackerOp

/-- What the process dies of. -/
def processDied : Exc := .runtimeError "the process died"

namespace TrackerStep

def exec (config : RiskConfig) (w : RiskWorld) (step : TrackerStep) :
    EStateM.Result Exc (Faulty Exc RiskWorld) (List Breach) :=
  step.op.exec config step.now ⟨w, step.crash.map fun writes => (writes, processDied)⟩

/-- The world after a step, whether it returned or raised; after a crash, restarted. -/
def after (config : RiskConfig) (w : RiskWorld) (step : TrackerStep) : RiskWorld :=
  let w' := (step.exec config w).state.state
  if step.crash.isSome then w'.restart else w'

/-- The breaches a step returned, if it returned. -/
def returned (config : RiskConfig) (w : RiskWorld) (step : TrackerStep) : Option (List Breach) :=
  match step.exec config w with
  | .ok breaches _ => some breaches
  | .error .. => none

def run (config : RiskConfig) (w : RiskWorld) (steps : List TrackerStep) : RiskWorld :=
  steps.foldl (after config) w

end TrackerStep

/-! ## What an op does, fault or not -/

/-- The tracker's state in memory and in its store. -/
def RiskWorld.Tracks (memory store : Option DailyRiskState) (w : RiskWorld) : Prop :=
  w.tracker = memory ∧ w.trackerStore = store

namespace DailyRiskTracker

open Fault DailyRiskState

variable {sound : Prop} {config : RiskConfig} {now : Instant} {s store : Option DailyRiskState}
  {state : DailyRiskState}

/-- Where a write of an op fails, the store holds this. -/
def Kept (sound : Prop) (store : Option DailyRiskState) (w : RiskWorld) : Prop :=
  ¬sound ∧ w.trackerStore = store

theorem triple_save : Triple sound (RiskWorld.Tracks (some state) store) save
    (fun _ => RiskWorld.Tracks (some state) (some state)) (Kept sound store) := by
  refine .read fun w hw => ?_
  rw [hw.1, if_pos Option.isSome_some]
  refine .write ?_ ?_
  · rintro _ rfl
    exact ⟨hw.1, hw.1⟩
  · rintro hfault _ rfl
    exact ⟨hfault, hw.2⟩

/-- A new state, in memory and then in the store. -/
theorem triple_begin : Triple sound (fun w => w.trackerStore = store) (do
      Fault.change fun w => { w with tracker := some state }
      save
      return state : RiskM DailyRiskState)
    (fun a w => a = state ∧ RiskWorld.Tracks (some state) (some state) w) (Kept sound store) :=
  .bind (Q := fun _ => RiskWorld.Tracks (some state) store) (.change fun _ hw => ⟨rfl, hw⟩)
    fun _ => .bind triple_save fun _ => .pure fun _ hw => ⟨rfl, hw⟩

theorem triple_emit (payload : EventPayload) :
    Triple sound (RiskWorld.Tracks s store) (RiskM.emit payload)
      (fun _ => RiskWorld.Tracks s store) (Kept sound store) :=
  .write (fun _ hw => hw) fun hfault _ hw => ⟨hfault, hw.2⟩

/-- Where an op stops, the store is as it was. Without a fault the memory is too, and there
is no day to work on. -/
def Refused (sound : Prop) (config : RiskConfig) (now : Instant) (hint : Option ℚ)
    (s : Option DailyRiskState) (w : RiskWorld) : Prop :=
  w.trackerStore = s ∧ (sound → w.tracker = s ∧ today config.bookId now hint s = none)

theorem Kept.refused {hint : Option ℚ} {w : RiskWorld} (h : Kept sound s w) :
    Refused sound config now hint s w :=
  ⟨h.2, fun hsound => absurd hsound h.1⟩

theorem Refused.of_tracks {hint : Option ℚ} {w : RiskWorld} (h : RiskWorld.Tracks s s w)
    (hnone : today config.bookId now hint s = none) : Refused sound config now hint s w :=
  ⟨h.2, fun _ => ⟨h.1, hnone⟩⟩

theorem triple_roll {equity : ℚ} (hnew : ∀ p, s = some p → p.istDate ≠ now.istDate) :
    Triple sound (RiskWorld.Tracks s s) (roll config now equity)
      (fun a w => today config.bookId now (some equity) s = some a ∧
        RiskWorld.Tracks (some a) (some a) w) (Refused sound config now (some equity) s) := by
  refine .read fun w hw => ?_
  rw [hw.1]
  have hbegin : ∀ state : DailyRiskState,
      today config.bookId now (some equity) s = some state →
      Triple sound (fun w => w.trackerStore = s) (do
        Fault.change fun w => { w with tracker := some state }
        save
        return state : RiskM DailyRiskState)
      (fun a w => today config.bookId now (some equity) s = some a ∧
        RiskWorld.Tracks (some a) (some a) w) (Refused sound config now (some equity) s) :=
    fun state htoday =>
    triple_begin.conseq (fun _ h => h) (fun a w h => by rw [h.1]; exact ⟨htoday, h.2⟩)
      fun _ h => h.refused
  cases s with
  | none => exact (hbegin _ rfl).conseq (fun w' h => h ▸ hw.2) (fun _ _ h => h) fun _ h => h
  | some p =>
    dsimp only
    by_cases hold : now.istDate < p.istDate
    · rw [if_pos hold]
      have hnone : today config.bookId now (some equity) (some p) = none := by
        rw [today, if_neg (hnew p rfl), if_pos hold]
      exact .bind (Q := fun _ _ => False)
        (.throw fun w' h => .of_tracks (h ▸ hw) hnone) fun _ _ _ h => h.elim
    · have htoday : today config.bookId now (some equity) (some p) =
          some (rolled config.bookId now.istDate equity (some p)) := by
        rw [today, if_neg (hnew p rfl), if_neg hold, Option.getD_some]
      rw [if_neg hold]
      refine .bind (Q := fun _ => RiskWorld.Tracks (some p) (some p)) ?_ fun _ =>
        (hbegin _ htoday).conseq (fun _ h => h.2) (fun _ _ h => h) fun _ h => h
      exact (triple_emit _).conseq (fun w' h => h ▸ hw) (fun _ _ h => h) fun _ h => h.refused

theorem triple_startDay {equity : ℚ} :
    Triple sound (RiskWorld.Tracks s s) (startDay config now equity)
      (fun a w => today config.bookId now (some equity) s = some a ∧
        RiskWorld.Tracks (some a) (some a) w) (Refused sound config now (some equity) s) := by
  refine .read fun w hw => ?_
  have hroll : (∀ p, s = some p → p.istDate ≠ now.istDate) → Triple sound (Eq w)
      (roll config now equity) (fun a w => today config.bookId now (some equity) s = some a ∧
        RiskWorld.Tracks (some a) (some a) w)
      (Refused sound config now (some equity) s) := fun hnew =>
    (triple_roll hnew).conseq (fun w' h => h ▸ hw) (fun _ _ h => h) fun _ h => h
  rw [hw.1]
  cases s with
  | none => exact hroll (by simp)
  | some p =>
    dsimp only
    by_cases hday : p.istDate = now.istDate
    · rw [if_pos hday]
      refine .pure fun w' h => ⟨?_, h ▸ hw⟩
      rw [today, if_pos hday]
    · rw [if_neg hday]
      exact hroll (by simpa using hday)

theorem triple_current {hint : Option ℚ} :
    Triple sound (RiskWorld.Tracks s s) (current config now hint)
      (fun a w => today config.bookId now hint s = some a ∧ RiskWorld.Tracks (some a) (some a) w)
      (Refused sound config now hint s) := by
  refine .read fun w hw => ?_
  have hstart : ∀ equity, today config.bookId now (some equity) s = today config.bookId now hint s →
      Triple sound (Eq w) (startDay config now equity)
        (fun a w => today config.bookId now hint s = some a ∧
          RiskWorld.Tracks (some a) (some a) w) (Refused sound config now hint s) :=
    fun equity heq => triple_startDay.conseq (fun w' h => h ▸ hw) (fun a w h => heq ▸ h)
      fun w h => ⟨h.1, fun hsound => heq ▸ h.2 hsound⟩
  rw [hw.1]
  cases s with
  | none =>
    cases hint with
    | none => exact .throw fun w' h => .of_tracks (h ▸ hw) rfl
    | some equity => exact hstart equity rfl
  | some p =>
    have hsame : p.istDate = now.istDate → Triple sound (Eq w) (Pure.pure p : RiskM DailyRiskState)
        (fun a w => today config.bookId now hint (some p) = some a ∧
          RiskWorld.Tracks (some a) (some a) w) (Refused sound config now hint (some p)) :=
      fun hday => .pure fun w' h => ⟨by rw [today, if_pos hday], h ▸ hw⟩
    cases hint with
    | none =>
      dsimp only
      by_cases hday : p.istDate = now.istDate
      · rw [if_pos hday]
        exact hsame hday
      · rw [if_neg hday]
        exact hstart p.lastEquity rfl
    | some equity =>
      dsimp only
      by_cases hday : p.istDate = now.istDate
      · rw [if_pos hday]
        exact hsame hday
      · rw [if_neg hday]
        exact hstart equity rfl

/-- Where an op stops after it began the day, the store holds the day it found or began. -/
def Began (sound : Prop) (config : RiskConfig) (now : Instant) (hint : Option ℚ)
    (s : Option DailyRiskState) (w : RiskWorld) : Prop :=
  Refused sound config now hint s w ∨
    (¬sound ∧ ∃ a, today config.bookId now hint s = some a ∧ w.trackerStore = some a)

theorem triple_recorded (change : DailyRiskState → DailyRiskState) :
    Triple sound (RiskWorld.Tracks s s) (recorded config now change)
      (fun _ w => ∃ a, today config.bookId now none s = some a ∧
        RiskWorld.Tracks (some (change a)) (some (change a)) w)
      (Began sound config now none s) := by
  refine .bind (triple_current.conseq (fun _ h => h) (fun _ _ h => h) fun _ h => .inl h) fun a => ?_
  by_cases ha : today config.bookId now none s = some a
  · refine .bind (Q := fun _ => RiskWorld.Tracks (some (change a)) (some a))
      (.change fun w hw => ⟨by rw [hw.2.1]; rfl, hw.2.2⟩) fun _ => ?_
    exact triple_save.conseq (fun _ h => h) (fun _ w h => ⟨a, ha, h⟩)
      fun w h => .inr ⟨h.1, a, ha, h.2⟩
  · exact fun w _ hw => absurd hw.1 ha

theorem triple_acknowledgeStreak (strategy : String) :
    Triple sound (RiskWorld.Tracks s s) (acknowledgeStreak strategy)
      (fun _ => RiskWorld.Tracks (s.map (acknowledged strategy)) (s.map (acknowledged strategy)))
      (Kept sound s) := by
  refine .read fun w hw => ?_
  have hsame : s.map (acknowledged strategy) = s → Triple sound (Eq w)
      (Pure.pure false : RiskM Bool) (fun _ => RiskWorld.Tracks
        (s.map (acknowledged strategy)) (s.map (acknowledged strategy))) (Kept sound s) :=
    fun heq => .pure fun w' h => by rw [heq]; exact h ▸ hw
  rw [hw.1]
  cases s with
  | none => exact hsame rfl
  | some p =>
    have hbind : ((some p).bind fun s : DailyRiskState => s.strategies.get? strategy) =
        p.strategies.get? strategy := rfl
    rw [hbind]
    cases hday : p.strategies.get? strategy with
    | none =>
      refine hsame ?_
      rw [Option.map_some, acknowledged, hday]
    | some day =>
      dsimp only
      by_cases hzero : day.consecutiveLosses = 0
      · rw [if_pos hzero]
        refine hsame ?_
        rw [Option.map_some, acknowledged, hday]
        simp only [hzero, if_true]
      · rw [if_neg hzero]
        have hack : acknowledged strategy p =
            { p.withDay strategy fun day => { day with consecutiveLosses := 0 } with
              breaches := p.breaches.erase (.strConsecLosses, strategy) } := by
          rw [acknowledged, hday]
          simp only [hzero, if_false]
        rw [Option.map_some, hack]
        refine .bind (Q := fun _ => RiskWorld.Tracks _ (some p)) (.change fun w' h => ?_) fun _ =>
          .bind triple_save fun _ => .pure fun _ h => h
        subst h
        exact ⟨by rw [hw.1]; rfl, hw.2⟩

theorem triple_raiseAll (new : List Breach) :
    Triple sound (RiskWorld.Tracks (some state) store) (raiseAll config new)
      (fun _ => RiskWorld.Tracks (some (state.raised new)) store) (Kept sound store) := by
  induction new generalizing state with
  | nil => exact .pure fun _ h => h
  | cons b rest ih =>
    refine .bind (Q := fun _ => RiskWorld.Tracks
      (some { state with breaches := state.breaches.insert b.key }) store)
      (.change fun w hw => ⟨by rw [hw.1]; rfl, hw.2⟩) fun _ => ?_
    exact .bind (triple_emit _) fun _ => ih

theorem triple_riskTick {equity : ℚ} {unrealized : Dict String ℚ} :
    Triple sound (RiskWorld.Tracks s s) (riskTick config now equity unrealized)
      (fun breaches w => ∃ a, today config.bookId now (some equity) s = some a ∧
        breaches = (a.marked equity now).fresh config.limits now unrealized ∧
        RiskWorld.Tracks (some ((a.marked equity now).raised breaches))
          (some ((a.marked equity now).raised breaches)) w)
      (Began sound config now (some equity) s) := by
  refine .bind (triple_current.conseq (fun _ h => h) (fun _ _ h => h) fun _ h => .inl h) fun a => ?_
  by_cases ha : today config.bookId now (some equity) s = some a
  · have hkept : ∀ w, Kept sound (some a) w → Began sound config now (some equity) s w :=
      fun w h => .inr ⟨h.1, a, ha, h.2⟩
    refine .bind (Q := fun _ => RiskWorld.Tracks (some (a.marked equity now)) (some a))
      (.change fun w hw => ⟨rfl, hw.2.2⟩) fun _ => ?_
    refine .bind ((triple_raiseAll _).conseq (fun _ h => h) (fun _ _ h => h) hkept) fun _ => ?_
    exact .bind (triple_save.conseq (fun _ h => h) (fun _ _ h => h) hkept) fun _ =>
      .pure fun w h => ⟨a, ha, rfl, h⟩
  · exact fun w _ hw => absurd hw.1 ha

end DailyRiskTracker

namespace TrackerOp

open Fault DailyRiskTracker DailyRiskState

variable {sound : Prop} {config : RiskConfig} {now : Instant} {s : Option DailyRiskState}

/-- An op that returns does what `Does` says, and one that stops may have begun the day. -/
theorem triple_exec (op : TrackerOp) :
    Triple sound (RiskWorld.Tracks s s) (op.exec config now)
      (fun breaches w => ∃ s', Does config now op s s' breaches ∧ RiskWorld.Tracks s' s' w)
      (Began sound config now op.hint s) := by
  cases op with
  | startDay equity =>
    refine .bind (triple_startDay.conseq (fun _ h => h) (fun _ _ h => h) fun _ h => .inl h)
      fun a => .pure fun w h => ⟨some a, .startDay h.1, h.2⟩
  | event payload =>
    have hrecorded : ∀ change, recording config.limits now payload = some change →
        Triple sound (RiskWorld.Tracks s s) (do
          recorded config now change
          return [] : RiskM (List Breach))
        (fun breaches w => ∃ s', Does config now (.event payload) s s' breaches ∧
          RiskWorld.Tracks s' s' w) (Began sound config now none s) := fun change hchange =>
      .bind (triple_recorded change) fun _ => .pure fun w ⟨a, ha, hw⟩ =>
        ⟨_, .event hchange ha, hw⟩
    have hignored : recording config.limits now payload = none →
        Triple sound (RiskWorld.Tracks s s) (do
          (Pure.pure ⟨⟩ : RiskM PUnit)
          return [] : RiskM (List Breach))
        (fun breaches w => ∃ s', Does config now (.event payload) s s' breaches ∧
          RiskWorld.Tracks s' s' w) (Began sound config now none s) := fun hnone =>
      .pure fun w hw => ⟨s, .ignored hnone, hw⟩
    cases payload with
    | orderSubmitted | orderRejected | tradeClosed => exact hrecorded _ rfl
    | _ => exact hignored rfl
  | acknowledge strategy =>
    refine .bind ((triple_acknowledgeStreak strategy).conseq (fun _ h => h) (fun _ _ h => h)
      fun _ h => .inl h.refused) fun _ => .pure fun w h => ⟨_, .acknowledge, h⟩
  | tick equity unrealized =>
    refine triple_riskTick.conseq (fun _ h => h) ?_ fun _ h => h
    rintro breaches w ⟨a, ha, rfl, hw⟩
    exact ⟨_, .tick ha, hw⟩
  | restart =>
    refine .bind (Q := fun _ => RiskWorld.Tracks s s) (.change fun w hw => ⟨hw.2, hw.2⟩)
      fun _ => .pure fun w hw => ⟨s, .restart, hw⟩

end TrackerOp

namespace TrackerStep

open Fault DailyRiskTracker DailyRiskState

variable (config : RiskConfig) {w : RiskWorld} {s : Option DailyRiskState}

/-- A step that returns does what its op does; one that does not leaves the state it found,
or today's state rolled from it, and without a crash it has no day to work on. Memory and
store agree after every step. -/
theorem after_cases (hw : w.Tracks s s) (step : TrackerStep) :
    ∃ s', (step.after config w).Tracks s' s' ∧
      ((∃ breaches, step.returned config w = some breaches ∧
          step.op.Does config step.now s s' breaches) ∨
        (step.returned config w = none ∧
          (step.crash = none → today config.bookId step.now step.op.hint s = none) ∧
          (s' = s ∨ ∃ a, today config.bookId step.now step.op.hint s = some a ∧ s' = some a))) := by
  have htriple : Triple (step.crash = none) (RiskWorld.Tracks s s) (step.op.exec config step.now)
      _ _ := TrackerOp.triple_exec step.op
  have hend := htriple ⟨w, step.crash.map fun writes => (writes, processDied)⟩
    (fun hsound => by rw [hsound]; rfl) hw
  unfold after returned exec
  split at hend
  · rename_i breaches w' hrun
    obtain ⟨⟨s', hdoes, hw'⟩, -⟩ := hend
    rw [hrun]
    refine ⟨s', ?_, .inl ⟨breaches, rfl, hdoes⟩⟩
    dsimp only [EStateM.Result.state_ok]
    split
    · exact ⟨hw'.2, hw'.2⟩
    · exact hw'
  · rename_i e w' hrun
    rw [hrun]
    dsimp only [EStateM.Result.state_error]
    rcases hend with ⟨hstore, hsound⟩ | ⟨hcrash, a, ha, hstore⟩
    · refine ⟨s, ?_, .inr ⟨rfl, fun hnone => (hsound hnone).2, .inl rfl⟩⟩
      split
      · exact ⟨hstore, hstore⟩
      · rename_i hnone
        exact ⟨(hsound (by simpa using hnone)).1, hstore⟩
    · have hsome : step.crash.isSome = true := Option.isSome_iff_ne_none.mpr hcrash
      rw [if_pos hsome]
      exact ⟨some a, ⟨hstore, hstore⟩, .inr ⟨rfl, fun hnone => absurd hnone hcrash,
        .inr ⟨a, ha, rfl⟩⟩⟩

end TrackerStep

end RakshaQuant
