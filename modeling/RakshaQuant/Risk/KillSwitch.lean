import RakshaQuant.Risk.State

/-! The kill switches of one book: a global switch, one for the broker and one for each
strategy. A trip escalates a switch and never takes it back; only a resume and, where
configured, a new day re-arm it. -/

namespace RakshaQuant

/-- What a breach's action asks of its switch. -/
def KillAction.target : KillAction → KillSwitchState
  | haltNew => .haltNew
  | flatten => .flatten

/-- `HALT_FILE_CODE`. -/
def haltFileCode : String := "HALT_FILE"

/-- The codes of daily-loss trips. -/
def dailyCodes : List String := [ReasonCode.pfDailyLossMtm.value, ReasonCode.strDailyLoss.value]

/-- What the HALT file asks of the global switch. -/
def haltFileTarget (text : String) : KillSwitchState :=
  if "FLATTEN".toList.isPrefixOf text.toList then .flatten else .haltNew

/-- Whether a new IST day re-arms a switch that stands so. -/
def SwitchRecord.rearms (r : SwitchRecord) (today : Day) : Prop :=
  r.state ≠ .armed ∧ (∃ code ∈ r.code, code ∈ dailyCodes) ∧ ∃ date ∈ r.istDate, date < today

instance (r : SwitchRecord) (today : Day) : Decidable (r.rearms today) :=
  inferInstanceAs (Decidable (_ ∧ _ ∧ _))

/-- What a trip asks for: the switch, where it must stand, and why. -/
structure Trip where
  scope : KillScope
  name : String
  target : KillSwitchState
  reason : String
  actor : String
  code : Option String

/-- The record a trip leaves. -/
def Trip.record (t : Trip) (now : Instant) : SwitchRecord :=
  ⟨t.target, t.reason, t.actor, some now, t.code, some now.istDate⟩

/-- What a breach asks for. -/
def Breach.trip (b : Breach) : Trip :=
  ⟨b.scope, b.name, b.action.target, b.message, "monitor", some b.code.value⟩

/-- What the HALT file asks for. -/
def haltFileTrip (text : String) : Trip :=
  ⟨.global, "global", haltFileTarget text, "HALT file present", "halt_file", some haltFileCode⟩

namespace KillSwitchRegistry

variable (config : RiskConfig) (now : Instant)

/-- `_set`: in memory, then persisted, then announced. -/
def set (scope : KillScope) (name : String) (current record : SwitchRecord) : RiskM PUnit := do
  Fault.change fun w => { w with switches := w.switches.put scope name record }
  Fault.write fun w => { w with switchStore := some w.switches }
  RiskM.emit (.killSwitchChanged config.bookId scope name current.state record.state record.reason
    record.actor)

/-- The alert of a trip. -/
def tripAlert (t : Trip) (current : SwitchRecord) : Alert :=
  ⟨if t.target = .flatten ∨ t.scope = .broker then "CRITICAL" else "WARNING",
    "kill_" ++ t.scope.value ++ "_" ++ t.name,
    t.scope.value ++ " kill switch " ++ t.name ++ ": " ++ current.state.value ++ " -> " ++
      t.target.value ++ " (" ++ t.reason ++ ")"⟩

/-- `trip`: escalate a switch; true when it changed. -/
def trip (t : Trip) : RiskM Bool := do
  if t.target = .armed then throw (.valueError "trip() only escalates; resume() re-arms")
  let current := (← Fault.read).switches.record t.scope t.name
  if t.target.rank ≤ current.state.rank then return false
  set config t.scope t.name current (t.record now)
  RiskM.emit (.alert (tripAlert t current))
  return true

/-- `resume`, with what a resume tells the tracker: a strategy's streak is acknowledged. -/
def resume (scope : KillScope) (name : String) (actor reason : String) : RiskM Bool := do
  let w ← Fault.read
  let current := w.switches.record scope name
  if current.state = .armed then return false
  if scope = .global ∧ w.haltFile.isSome then
    throw (.runtimeError "remove HALT before resuming the global switch")
  set config scope name current ⟨.armed, reason, actor, some now, none, some now.istDate⟩
  if scope = .strategy then
    let _ ← DailyRiskTracker.acknowledgeStreak name
  return true

/-- `apply`: act on the risk tick's breaches; returns those that changed a switch. -/
def apply : List Breach → RiskM (List Breach)
  | [] => return []
  | b :: rest => do
    let changed ← trip config now b.trip
    let others ← apply rest
    return if changed then b :: others else others

/-- `check_halt_file`. -/
def checkHaltFile : RiskM Bool := do
  match (← Fault.read).haltFile with
  | none => return false
  | some text => trip config now (haltFileTrip text)

/-- The loop of `new_day` over the candidates. -/
def rearm : List (KillScope × String) → RiskM (List String)
  | [] => return []
  | (scope, name) :: rest => do
    let current := (← Fault.read).switches.record scope name
    if current.rearms now.istDate then
      set config scope name current ⟨.armed, "new IST day after " ++ current.code.getD "", "rearm",
        some now, none, some now.istDate⟩
      let others ← rearm rest
      return name :: others
    else rearm rest

/-- `new_day`: re-arm the daily-loss trips of earlier days, where that is configured. -/
def newDay : RiskM (List String) := do
  if config.limits.rearmOnNewDay then
    let strategies := (← Fault.read).switches.strategies.keys
    rearm config now ((.global, "global") :: strategies.map fun name => (.strategy, name))
  else return []

/-! ## What one step does -/

theorem trip_absorbed {t : Trip} {w : Faulty Exc RiskWorld} (ht : t.target ≠ .armed)
    (h : t.target.rank ≤ (w.state.switches.record t.scope t.name).state.rank) :
    trip config now t w = .ok false w := by
  unfold trip
  rw [if_neg ht]
  change (if t.target.rank ≤ (w.state.switches.record t.scope t.name).state.rank then
    (pure false : RiskM Bool) else _) _ = _
  rw [if_pos h]
  rfl

theorem trip_changes {t : Trip} {w : Faulty Exc RiskWorld} (ht : t.target ≠ .armed)
    (h : ¬ t.target.rank ≤ (w.state.switches.record t.scope t.name).state.rank) :
    trip config now t w =
      (do
        let current := w.state.switches.record t.scope t.name
        set config t.scope t.name current (t.record now)
        RiskM.emit (.alert (tripAlert t current))
        return true : RiskM Bool) w := by
  unfold trip
  rw [if_neg ht]
  change (if t.target.rank ≤ (w.state.switches.record t.scope t.name).state.rank then
    (pure false : RiskM Bool) else _) _ = _
  rw [if_neg h]

theorem resume_eq (scope : KillScope) (name actor reason : String) (w : Faulty Exc RiskWorld) :
    resume config now scope name actor reason w =
      if (w.state.switches.record scope name).state = .armed then .ok false w
      else if scope = .global ∧ w.state.haltFile.isSome then
        .error (.runtimeError "remove HALT before resuming the global switch") w
      else
        (do
          set config scope name (w.state.switches.record scope name)
            ⟨.armed, reason, actor, some now, none, some now.istDate⟩
          if scope = .strategy then
            let _ ← DailyRiskTracker.acknowledgeStreak name
          return true : RiskM Bool) w := by
  change (if (w.state.switches.record scope name).state = .armed then (pure false : RiskM Bool)
    else if scope = .global ∧ w.state.haltFile.isSome = true then _ else _) w = _
  split
  · rfl
  · split <;> rfl

theorem rearm_cons (candidate : KillScope × String) (rest : List (KillScope × String))
    (w : Faulty Exc RiskWorld) :
    rearm config now (candidate :: rest) w =
      if (w.state.switches.record candidate.1 candidate.2).rearms now.istDate then
        (do
          let current := w.state.switches.record candidate.1 candidate.2
          set config candidate.1 candidate.2 current
            ⟨.armed, "new IST day after " ++ current.code.getD "", "rearm", some now, none,
              some now.istDate⟩
          let others ← rearm config now rest
          return candidate.2 :: others : RiskM (List String)) w
      else rearm config now rest w := by
  change (if (w.state.switches.record candidate.1 candidate.2).rearms now.istDate then _ else _ :
    RiskM (List String)) w = _
  split <;> rfl

end KillSwitchRegistry

end RakshaQuant
