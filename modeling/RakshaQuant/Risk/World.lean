import RakshaQuant.Domain.Errors
import RakshaQuant.Domain.Events
import RakshaQuant.Lib.Fault
import RakshaQuant.Risk.Limits

/-! What the daily risk tracker and the kill switches of one book keep: each its state in
memory and in a store of its own. The stores outlive the process, the event log and the
HALT file too. -/

namespace RakshaQuant

/-! ## Kill switch records -/

/-- `_RANK`. -/
def KillSwitchState.rank : KillSwitchState → ℕ
  | armed => 0
  | haltNew => 1
  | flatten => 2

/-- How a switch came to stand where it stands; `code` is what tripped it. -/
structure SwitchRecord where
  state : KillSwitchState
  reason : String
  actor : String
  ts : Option Instant
  code : Option String
  istDate : Option Day
deriving DecidableEq

/-- `SwitchRecord()`. -/
def SwitchRecord.initial : SwitchRecord := ⟨.armed, "", "", none, none, none⟩

/-- `_Switches`. -/
structure Switches where
  globalSwitch : SwitchRecord
  broker : SwitchRecord
  strategies : Dict String SwitchRecord

namespace Switches

/-- `_Switches()`. -/
def initial : Switches := ⟨.initial, .initial, .empty⟩

/-- `record`; the name matters for strategies only. -/
def record (s : Switches) (scope : KillScope) (name : String) : SwitchRecord :=
  match scope with
  | .global => s.globalSwitch
  | .broker => s.broker
  | .strategy => (s.strategies.get? name).getD .initial

/-- `kill_state`. -/
def killState (s : Switches) : KillState :=
  { globalState := s.globalSwitch.state, broker := s.broker.state
    strategies := .ofList (s.strategies.entries.map fun e => (e.1, e.2.state)) }

/-- The switches with one record replaced. -/
def put (s : Switches) (scope : KillScope) (name : String) (r : SwitchRecord) : Switches :=
  match scope with
  | .global => { s with globalSwitch := r }
  | .broker => { s with broker := r }
  | .strategy => { s with strategies := s.strategies.set name r }

/-- Two ways to name one switch. -/
def Same (scope : KillScope) (name : String) (scope' : KillScope) (name' : String) : Prop :=
  scope = scope' ∧ (scope = .strategy → name = name')

instance (scope : KillScope) (name : String) (scope' : KillScope) (name' : String) :
    Decidable (Same scope name scope' name') :=
  inferInstanceAs (Decidable (scope = scope' ∧ (scope = .strategy → name = name')))

theorem record_same (s : Switches) {scope scope' : KillScope} {name name' : String}
    (h : Same scope name scope' name') : s.record scope name = s.record scope' name' := by
  obtain ⟨rfl, hname⟩ := h
  cases scope with
  | global => rfl
  | broker => rfl
  | strategy => rw [hname rfl]

theorem record_put (s : Switches) (scope scope' : KillScope) (name name' : String)
    (r : SwitchRecord) : (s.put scope name r).record scope' name' =
      if Same scope name scope' name' then r else s.record scope' name' := by
  cases scope <;> cases scope' <;> simp [put, record, Same]
  by_cases h : name' = name
  · simp [h]
  · simp [h, Ne.symm h]

theorem record_put_self (s : Switches) (scope : KillScope) (name : String) (r : SwitchRecord) :
    (s.put scope name r).record scope name = r := by
  rw [record_put, if_pos ⟨rfl, fun _ => rfl⟩]

end Switches

/-! ## The world -/

/-- The tracker's and the switches' state in memory, their stores, the text of the HALT
file (stripped, in upper case, empty where it cannot be read) and the event log. -/
structure RiskWorld where
  tracker : Option DailyRiskState
  switches : Switches
  trackerStore : Option DailyRiskState
  switchStore : Option Switches
  haltFile : Option String
  sink : List EventPayload

abbrev RiskM (α : Type) := FaultM Exc RiskWorld α

namespace RiskWorld

/-- The process starts: what is in memory is loaded from the stores. -/
def restart (w : RiskWorld) : RiskWorld :=
  { w with tracker := w.trackerStore, switches := w.switchStore.getD .initial }

def emitted (payload : EventPayload) (w : RiskWorld) : RiskWorld :=
  { w with sink := w.sink ++ [payload] }

end RiskWorld

/-- `sink.emit`. -/
def RiskM.emit (payload : EventPayload) : RiskM PUnit := Fault.write (RiskWorld.emitted payload)

/-- What the tracker and the switches of a book are configured with. -/
structure RiskConfig where
  bookId : String
  limits : RiskLimits

end RakshaQuant
