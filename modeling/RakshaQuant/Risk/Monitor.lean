import RakshaQuant.Risk.Latch

/-! The risk monitor task. Each tick re-arms yesterday's daily-loss trips where that is
configured, looks at the HALT file, marks the book, and trips the kill switches on what
the risk tick newly found. A write may fail at any point, and the process may crash. -/

namespace RakshaQuant

/-- What the book is worth at a tick: the alerts of held instruments without a quote, the
equity, and the open P&L of the strategies. -/
structure Valuation where
  alerts : List Alert
  equity : ℚ
  unrealized : Dict String ℚ

/-- `TickReport`, without what the flattener has left to do. -/
structure TickReport where
  equity : ℚ
  breaches : List Breach
  tripped : List Breach
  haltFile : Bool
  rearmed : List String

namespace RiskMonitor

variable (config : RiskConfig) (now : Instant)

def alertAll : List Alert → RiskM PUnit
  | [] => pure ⟨⟩
  | alert :: rest => do
    RiskM.emit (.alert alert)
    alertAll rest

/-- `tick`. What the flattener's orders do to the tracker and the switches afterwards are
the events and the HALT file checks of a run. -/
def tick (v : Valuation) : RiskM TickReport := do
  let rearmed ← KillSwitchRegistry.newDay config now
  let halted ← KillSwitchRegistry.checkHaltFile config now
  alertAll v.alerts
  let breaches ← DailyRiskTracker.riskTick config now v.equity v.unrealized
  let tripped ← KillSwitchRegistry.apply config now breaches
  return ⟨v.equity, breaches, tripped, halted, rearmed⟩

/-- A tick up to where `risk_tick` has found the new breaches. -/
def search (v : Valuation) : RiskM (List Breach) := do
  let _ ← KillSwitchRegistry.newDay config now
  let _ ← KillSwitchRegistry.checkHaltFile config now
  alertAll v.alerts
  let state ← DailyRiskTracker.current config now (some v.equity)
  let state := state.marked v.equity now
  Fault.change fun w => { w with tracker := some state }
  return state.fresh config.limits now v.unrealized

/-- The rest of a tick: raise the new breaches, save the day and trip the switches. -/
def act (new : List Breach) : RiskM (List Breach) := do
  DailyRiskTracker.raiseAll config new
  DailyRiskTracker.save
  KillSwitchRegistry.apply config now new

end RiskMonitor

/-- What happens to a book's tracker and switches in a run: ticks, the day's start, events
of the OMS, and what happens to the switches besides. -/
inductive MonitorOp
  | tick (v : Valuation)
  | startDay (equity : ℚ)
  | event (payload : EventPayload)
  | switch (op : SwitchOp)

/-- An op at its time, and the write of it that fails, if one does. A crash in an op is a
failure in it and a restart. -/
structure MonitorStep where
  now : Instant
  op : MonitorOp
  fault : Option (ℕ × Exc)

namespace MonitorOp

/-- An op as the code runs it. -/
def exec (config : RiskConfig) (now : Instant) : MonitorOp → RiskM PUnit
  | tick v => do let _ ← RiskMonitor.tick config now v
  | startDay equity => do let _ ← DailyRiskTracker.startDay config now equity
  | event payload => DailyRiskTracker.onEvent config now payload
  | switch op => op.exec config now

/-- The world after a step, whether it returned or raised. -/
def after (config : RiskConfig) (w : RiskWorld) (step : MonitorStep) : RiskWorld :=
  Fault.after (step.op.exec config step.now) step.fault w

def run (config : RiskConfig) (w : RiskWorld) (steps : List MonitorStep) : RiskWorld :=
  steps.foldl (after config) w

/-- Whether a step completes without failure. -/
def completes (config : RiskConfig) (w : RiskWorld) (step : MonitorStep) : Bool :=
  match step.op.exec config step.now ⟨w, step.fault⟩ with
  | .ok .. => true
  | .error .. => false

end MonitorOp

namespace RiskMonitor

variable (config : RiskConfig) (now : Instant)

/-- A tick leaves what its search and, if that returned, its acting leave. -/
theorem tick_state (v : Valuation) (w : Faulty Exc RiskWorld) :
    (tick config now v w).state =
      ((search config now v >>= fun new => act config now new) w).state := by
  unfold tick search act DailyRiskTracker.riskTick
  simp only [bind_assoc, pure_bind]
  refine Effect.state_bind_congr _ (fun rearmed w1 => ?_) w
  refine Effect.state_bind_congr _ (fun halted w2 => ?_) w1
  refine Effect.state_bind_congr _ (fun _ w3 => ?_) w2
  refine Effect.state_bind_congr _ (fun state w4 => ?_) w3
  refine Effect.state_bind_congr _ (fun _ w5 => ?_) w4
  refine Effect.state_bind_congr _ (fun _ w6 => ?_) w5
  refine Effect.state_bind_congr _ (fun _ w7 => ?_) w6
  exact Effect.state_bind_pure _ _ w7

end RiskMonitor

/-! ## What the switches' changes keep -/

/-- `I` is kept by every change of the switches whose new record is `ok`, by the save of
the switches and by the events. -/
structure KeptBySwitches (I : RiskWorld → Prop)
    (ok : RiskWorld → KillScope → String → SwitchRecord → Prop) : Prop where
  emitted : ∀ payload w, I w → I (RiskWorld.emitted payload w)
  saved : ∀ w, I w → I { w with switchStore := some w.switches }
  put : ∀ w scope name record, I w → ok w scope name record →
    I { w with switches := w.switches.put scope name record }

namespace KeptBySwitches

open Fault KillSwitchRegistry

variable {I : RiskWorld → Prop} {ok : RiskWorld → KillScope → String → SwitchRecord → Prop}
  (h : KeptBySwitches I ok) (config : RiskConfig) (now : Instant)

include h

theorem emit (payload : EventPayload) : Keeps I (RiskM.emit payload) := .write (h.emitted payload)

theorem set {w : Faulty Exc RiskWorld} (hw : I w.state) {scope : KillScope} {name : String}
    {record : SwitchRecord} (hok : ok w.state scope name record) (current : SwitchRecord) :
    I (KillSwitchRegistry.set config scope name current record w).state.state := by
  have hrest : Keeps I (do
      Fault.write fun w => { w with switchStore := some w.switches }
      RiskM.emit (.killSwitchChanged config.bookId scope name current.state record.state
        record.reason record.actor)) :=
    .bind (.write h.saved) fun _ => h.emit _
  exact hrest _ (h.put w.state scope name record hw hok)

theorem trip (t : Trip)
    (hok : ∀ w, I w → (w.switches.record t.scope t.name).state.rank < t.target.rank →
      ok w t.scope t.name (t.record now)) :
    Keeps I (KillSwitchRegistry.trip config now t) := by
  intro w hw
  by_cases harmed : t.target = .armed
  · unfold KillSwitchRegistry.trip
    rw [if_pos harmed]
    exact hw
  by_cases hrank : t.target.rank ≤ (w.state.switches.record t.scope t.name).state.rank
  · rw [trip_absorbed config now harmed hrank]
    exact hw
  · rw [trip_changes config now harmed hrank]
    apply Keeps.bindAt
    · exact h.set config hw (hok w.state hw (not_le.mp hrank)) _
    · intro _
      exact .bind (h.emit _) fun _ => .pure _

theorem apply (breaches : List Breach)
    (hok : ∀ b ∈ breaches, ∀ w, I w →
      (w.switches.record b.scope b.name).state.rank < b.action.target.rank →
        ok w b.scope b.name (b.trip.record now)) :
    Keeps I (KillSwitchRegistry.apply config now breaches) := by
  induction breaches with
  | nil => exact .pure _
  | cons b rest ih =>
    obtain ⟨hb, hrest⟩ := List.forall_mem_cons.mp hok
    exact .bind (h.trip config now b.trip hb) fun _ => .bind (ih hrest) fun _ => .pure _

theorem checkHaltFile
    (hok : ∀ text w, I w →
      (w.switches.record .global "global").state.rank < (haltFileTarget text).rank →
        ok w .global "global" ((haltFileTrip text).record now)) :
    Keeps I (KillSwitchRegistry.checkHaltFile config now) := by
  refine .bind .read fun w => ?_
  cases w.haltFile with
  | none => exact .pure _
  | some text => exact h.trip config now (haltFileTrip text) (hok text)

theorem resume (hack : ∀ strategy, Keeps I (DailyRiskTracker.acknowledgeStreak strategy))
    {w : Faulty Exc RiskWorld} (hw : I w.state) (scope : KillScope) (name actor reason : String)
    (hok : (w.state.switches.record scope name).state ≠ .armed →
      ¬ (scope = .global ∧ w.state.haltFile.isSome = true) →
        ok w.state scope name ⟨.armed, reason, actor, some now, none, some now.istDate⟩) :
    I (KillSwitchRegistry.resume config now scope name actor reason w).state.state := by
  rw [resume_eq]
  split
  · exact hw
  · rename_i harmed
    split
    · exact hw
    · rename_i hfile
      apply Keeps.bindAt
      · exact h.set config hw (hok harmed hfile) _
      · intro _
        split
        · exact .bind (hack name) fun _ => .pure _
        · exact .pure _

theorem rearm (candidates : List (KillScope × String))
    (hok : ∀ w scope name record, I w → (w.switches.record scope name).rearms now.istDate →
      record.state = .armed → ok w scope name record) :
    Keeps I (KillSwitchRegistry.rearm config now candidates) := by
  induction candidates with
  | nil => exact .pure _
  | cons candidate rest ih =>
    intro w hw
    rw [rearm_cons]
    split
    · rename_i hrearms
      apply Keeps.bindAt
      · exact h.set config hw (hok w.state _ _ _ hw hrearms rfl) _
      · intro _
        exact .bind ih fun _ => .pure _
    · exact ih w hw

theorem newDay
    (hok : ∀ w scope name record, I w → (w.switches.record scope name).rearms now.istDate →
      record.state = .armed → ok w scope name record) :
    Keeps I (KillSwitchRegistry.newDay config now) := by
  unfold KillSwitchRegistry.newDay
  split
  · exact .bind .read fun _ => h.rearm config now _ hok
  · exact .pure _

theorem alertAll (alerts : List Alert) : Keeps I (RiskMonitor.alertAll alerts) := by
  induction alerts with
  | nil => exact .pure _
  | cons alert rest ih => exact .bind (h.emit _) fun _ => ih

end KeptBySwitches

end RakshaQuant
