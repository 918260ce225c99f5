import Mathlib.Order.Lattice.Nat
import RakshaQuant.Risk.KillSwitch

/-! Kill switches latch and persist. Whatever trips them (the operator, the monitor's
breaches, the HALT file), and across restarts, each switch stands at the maximum of what
it started at and of all that was asked of it. -/

namespace RakshaQuant

namespace KillSwitchState

theorem rank_injective : Function.Injective rank := by
  intro a b h
  cases a <;> cases b <;> first | rfl | cases h

/-- ARMED, then HALT_NEW, then FLATTEN. -/
instance : LinearOrder KillSwitchState := LinearOrder.lift' rank rank_injective

theorem le_iff_rank {a b : KillSwitchState} : a ≤ b ↔ a.rank ≤ b.rank := Iff.rfl

@[simp] theorem armed_le (a : KillSwitchState) : armed ≤ a := Nat.zero_le _

end KillSwitchState

/-- The state an order of a strategy sees: the highest of the switches over it. -/
def KillState.effective (k : KillState) (strategy : String) : KillSwitchState :=
  max k.globalState (max k.broker ((k.strategies.get? strategy).getD .armed))

namespace Switches

theorem killState_strategies (s : Switches) (name : String) :
    (s.killState.strategies.get? name).getD .armed = (s.record .strategy name).state := by
  have hget : s.killState.strategies.get? name = (s.strategies.get? name).map SwitchRecord.state :=
    Dict.get?_ofList_map s.strategies SwitchRecord.state name
  rw [hget, record]
  cases s.strategies.get? name <;> rfl

/-- What an order sees, from the switches' records. -/
theorem effective_eq (s : Switches) (strategy : String) :
    s.killState.effective strategy = max (s.record .global "global").state
      (max (s.record .broker "broker").state (s.record .strategy strategy).state) := by
  unfold KillState.effective
  rw [killState_strategies]
  rfl

end Switches

/-- What happens to a book's switches. The HALT file comes and goes; a restart loads what
the stores hold. -/
inductive SwitchOp
  | trip (t : Trip)
  | apply (breaches : List Breach)
  | checkHaltFile
  | haltFile (text : Option String)
  | resume (scope : KillScope) (name actor reason : String)
  | newDay
  | restart

namespace SwitchOp

/-- An op as the code runs it. -/
def exec (config : RiskConfig) (now : Instant) : SwitchOp → RiskM PUnit
  | trip t => do let _ ← KillSwitchRegistry.trip config now t
  | apply breaches => do let _ ← KillSwitchRegistry.apply config now breaches
  | checkHaltFile => do let _ ← KillSwitchRegistry.checkHaltFile config now
  | haltFile text => Fault.change fun w => { w with haltFile := text }
  | resume scope name actor reason => do
    let _ ← KillSwitchRegistry.resume config now scope name actor reason
  | newDay => do let _ ← KillSwitchRegistry.newDay config now
  | restart => Fault.change RiskWorld.restart

/-- The world after an op that no write fails in, whether it returned or raised. -/
def after (config : RiskConfig) (w : RiskWorld) (op : Instant × SwitchOp) : RiskWorld :=
  Fault.after (op.2.exec config op.1) none w

def run (config : RiskConfig) (w : RiskWorld) (ops : List (Instant × SwitchOp)) : RiskWorld :=
  ops.foldl (after config) w

/-- The trips an op asks for. -/
def trips (w : RiskWorld) : SwitchOp → List Trip
  | trip t => [t]
  | apply breaches => breaches.map Breach.trip
  | checkHaltFile => w.haltFile.toList.map haltFileTrip
  | _ => []

/-- An op that re-arms, or may. -/
def rearms : SwitchOp → Bool
  | resume .. | newDay => true
  | _ => false

end SwitchOp

/-! ## One trip -/

namespace KillSwitchRegistry

variable (config : RiskConfig) (now : Instant)

/-- The world after `_set`, when no write fails. -/
def assigned (w : RiskWorld) (scope : KillScope) (name : String) (record : SwitchRecord) :
    RiskWorld :=
  let current := w.switches.record scope name
  let switches := w.switches.put scope name record
  { w with
    switches := switches, switchStore := some switches
    sink := w.sink ++ [.killSwitchChanged config.bookId scope name current.state record.state
      record.reason record.actor] }

theorem set_none (w : RiskWorld) (scope : KillScope) (name : String) (record : SwitchRecord) :
    set config scope name (w.switches.record scope name) record ⟨w, none⟩ =
      .ok ⟨⟩ ⟨assigned config w scope name record, none⟩ := rfl

/-- The world after a trip, when no write fails. -/
def tripped (w : RiskWorld) (t : Trip) : RiskWorld :=
  let current := w.switches.record t.scope t.name
  if t.target.rank ≤ current.state.rank then w
  else (assigned config w t.scope t.name (t.record now)).emitted (.alert (tripAlert t current))

theorem trip_none (w : RiskWorld) {t : Trip} (h : t.target ≠ .armed) :
    ∃ changed, trip config now t ⟨w, none⟩ = .ok changed ⟨tripped config now w t, none⟩ := by
  unfold tripped
  by_cases hrank : t.target.rank ≤ (w.switches.record t.scope t.name).state.rank
  · refine ⟨false, (trip_absorbed config now (w := ⟨w, none⟩) h hrank).trans ?_⟩
    dsimp only
    rw [if_pos hrank]
  · refine ⟨true, (trip_changes config now (w := ⟨w, none⟩) h hrank).trans ?_⟩
    dsimp only
    rw [if_neg hrank]
    rfl

theorem tripped_armed (w : RiskWorld) {t : Trip} (h : t.target = .armed) :
    tripped config now w t = w := by
  unfold tripped
  rw [h]
  exact if_pos (Nat.zero_le _)

theorem after_trip (w : RiskWorld) (t : Trip) :
    Fault.after (trip config now t) none w = tripped config now w t := by
  by_cases h : t.target = .armed
  · rw [tripped_armed config now w h]
    unfold trip
    rw [if_pos h]
    rfl
  · obtain ⟨changed, htrip⟩ := trip_none config now w h
    rw [Fault.after, htrip]
    rfl

theorem breach_target_ne (b : Breach) : b.trip.target ≠ .armed := by
  show b.action.target ≠ .armed
  cases b.action <;> simp [KillAction.target]

theorem apply_none (breaches : List Breach) (w : RiskWorld) :
    ∃ changed, apply config now breaches ⟨w, none⟩ =
      .ok changed ⟨(breaches.map Breach.trip).foldl (tripped config now) w, none⟩ := by
  induction breaches generalizing w with
  | nil => exact ⟨[], rfl⟩
  | cons b rest ih =>
    obtain ⟨changed, htrip⟩ := trip_none config now w (breach_target_ne b)
    obtain ⟨others, hrest⟩ := ih (tripped config now w b.trip)
    refine ⟨if changed then b :: others else others, ?_⟩
    rw [apply, Effect.run_bind_ok htrip, Effect.run_bind_ok hrest]
    rfl

/-- What a trip does to any switch: the one it names takes its record if that is higher. -/
theorem tripped_record (w : RiskWorld) (t : Trip) (scope : KillScope) (name : String) :
    (tripped config now w t).switches.record scope name =
      if Switches.Same t.scope t.name scope name ∧
          (w.switches.record scope name).state < t.target then t.record now
      else w.switches.record scope name := by
  unfold tripped
  dsimp only
  by_cases hrank : t.target.rank ≤ (w.switches.record t.scope t.name).state.rank
  · rw [if_pos hrank, if_neg]
    rintro ⟨hsame, hlt⟩
    rw [Switches.record_same w.switches hsame] at hrank
    exact absurd hlt (not_lt.mpr (KillSwitchState.le_iff_rank.mpr hrank))
  · rw [if_neg hrank]
    refine (Switches.record_put w.switches t.scope scope t.name name (t.record now)).trans ?_
    by_cases hsame : Switches.Same t.scope t.name scope name
    · rw [Switches.record_same w.switches hsame] at hrank
      rw [if_pos hsame, if_pos ⟨hsame, not_le.mp fun h => hrank (KillSwitchState.le_iff_rank.mp h)⟩]
    · rw [if_neg hsame, if_neg fun h => hsame h.1]

theorem tripped_state (w : RiskWorld) (t : Trip) (scope : KillScope) (name : String) :
    ((tripped config now w t).switches.record scope name).state =
      if Switches.Same t.scope t.name scope name then
        max (w.switches.record scope name).state t.target
      else (w.switches.record scope name).state := by
  rw [tripped_record]
  by_cases hsame : Switches.Same t.scope t.name scope name
  · by_cases hlt : (w.switches.record scope name).state < t.target
    · rw [if_pos ⟨hsame, hlt⟩, if_pos hsame, max_eq_right hlt.le]
      rfl
    · rw [if_neg fun h => hlt h.2, if_pos hsame, max_eq_left (not_lt.mp hlt)]
  · rw [if_neg fun h => hsame h.1, if_neg hsame]

/-- What is stored is what is in memory. -/
def Saved (w : RiskWorld) : Prop := w.switchStore.getD .initial = w.switches

theorem Saved.tripped {w : RiskWorld} (h : Saved w) (t : Trip) :
    Saved (tripped config now w t) := by
  unfold KillSwitchRegistry.tripped
  dsimp only
  split
  · exact h
  · rfl

theorem Saved.restart (w : RiskWorld) : Saved w.restart := rfl

/-- What some trips ask of one switch. -/
def asked (scope : KillScope) (name : String) (trips : List Trip) : List KillSwitchState :=
  (trips.filter fun t => Switches.Same t.scope t.name scope name).map Trip.target

theorem trips_state (trips : List Trip) (w : RiskWorld) (scope : KillScope) (name : String) :
    ((trips.foldl (tripped config now) w).switches.record scope name).state =
      (asked scope name trips).foldl max (w.switches.record scope name).state := by
  induction trips generalizing w with
  | nil => rfl
  | cons t rest ih =>
    rw [List.foldl_cons, ih, tripped_state]
    by_cases hsame : Switches.Same t.scope t.name scope name <;> simp [hsame, asked]

theorem Saved.trips {w : RiskWorld} (h : Saved w) (trips : List Trip) :
    Saved (trips.foldl (KillSwitchRegistry.tripped config now) w) := by
  induction trips generalizing w with
  | nil => exact h
  | cons t rest ih => exact ih (h.tripped config now t)

end KillSwitchRegistry

/-! ## Runs -/

namespace SwitchOp

open KillSwitchRegistry

variable (config : RiskConfig) {w : RiskWorld}

/-- Without a failing write the trips of an op are what it does to the switches. -/
theorem exec_trips (now : Instant) {op : SwitchOp}
    (h : (∃ t, op = trip t) ∨ (∃ breaches, op = apply breaches) ∨ op = checkHaltFile) :
    after config w (now, op) = (op.trips w).foldl (tripped config now) w := by
  rcases h with ⟨t, rfl⟩ | ⟨breaches, rfl⟩ | rfl
  · exact (Fault.after_bind_pure _ _ _ _).trans (after_trip config now w t)
  · obtain ⟨changed, happly⟩ := apply_none config now breaches w
    refine (Fault.after_bind_pure _ _ _ _).trans ?_
    rw [Fault.after, happly]
    rfl
  · refine (Fault.after_bind_pure _ _ _ _).trans ?_
    cases hfile : w.haltFile with
    | none =>
      have hcheck : KillSwitchRegistry.checkHaltFile config now ⟨w, none⟩ = .ok false ⟨w, none⟩ := by
        unfold KillSwitchRegistry.checkHaltFile
        rw [Fault.run_read_bind]
        dsimp only
        rw [hfile]
        rfl
      rw [Fault.after, hcheck, trips, hfile]
      rfl
    | some text =>
      have hcheck : KillSwitchRegistry.checkHaltFile config now ⟨w, none⟩ =
          KillSwitchRegistry.trip config now (haltFileTrip text) ⟨w, none⟩ := by
        unfold KillSwitchRegistry.checkHaltFile
        rw [Fault.run_read_bind]
        dsimp only
        rw [hfile]
      rw [Fault.after, hcheck, trips, hfile]
      exact after_trip config now w (haltFileTrip text)

/-- The step lemma: an op that does not re-arm raises each switch to what it asks, and
leaves what is stored as it is in memory. -/
theorem after_spec (hsaved : Saved w) (op : Instant × SwitchOp) (h : op.2.rearms = false) :
    Saved (after config w op) ∧ ∀ scope name,
      ((after config w op).switches.record scope name).state =
        (asked scope name (op.2.trips w)).foldl max (w.switches.record scope name).state := by
  obtain ⟨now, op⟩ := op
  have htrips : after config w (now, op) = (op.trips w).foldl (tripped config now) w →
      Saved (after config w (now, op)) ∧ ∀ scope name,
        ((after config w (now, op)).switches.record scope name).state =
          (asked scope name (op.trips w)).foldl max (w.switches.record scope name).state := by
    intro heq
    rw [heq]
    exact ⟨hsaved.trips config now _, fun scope name => trips_state config now _ w scope name⟩
  cases op with
  | trip t => exact htrips (exec_trips config now (.inl ⟨t, rfl⟩))
  | apply breaches => exact htrips (exec_trips config now (.inr (.inl ⟨breaches, rfl⟩)))
  | checkHaltFile => exact htrips (exec_trips config now (.inr (.inr rfl)))
  | haltFile text => exact ⟨hsaved, fun _ _ => rfl⟩
  | resume scope name actor reason => cases h
  | newDay => cases h
  | restart =>
    refine ⟨Saved.restart w, fun scope name => ?_⟩
    show (((w.switchStore.getD .initial).record scope name).state) = _
    rw [hsaved]
    rfl

/-- All that a run asks of one switch. -/
def requested (scope : KillScope) (name : String) :
    RiskWorld → List (Instant × SwitchOp) → List KillSwitchState
  | _, [] => []
  | w, op :: rest =>
    asked scope name (op.2.trips w) ++ requested scope name (after config w op) rest

/-- The run lemma, by induction on the ops. -/
theorem run_spec (hsaved : Saved w) (ops : List (Instant × SwitchOp))
    (h : ∀ op ∈ ops, op.2.rearms = false) :
    Saved (run config w ops) ∧ ∀ scope name,
      ((run config w ops).switches.record scope name).state =
        (requested config scope name w ops).foldl max (w.switches.record scope name).state := by
  induction ops generalizing w with
  | nil => exact ⟨hsaved, fun _ _ => rfl⟩
  | cons op rest ih =>
    obtain ⟨hop, hrest⟩ := List.forall_mem_cons.mp h
    obtain ⟨hsaved', hstate⟩ := after_spec config hsaved op hop
    obtain ⟨hrun, hstates⟩ := ih hsaved' hrest
    refine ⟨hrun, fun scope name => ?_⟩
    rw [requested, List.foldl_append, ← hstate]
    exact hstates scope name

theorem le_foldl_max (requests : List KillSwitchState) (state : KillSwitchState) :
    state ≤ requests.foldl max state := by
  induction requests generalizing state with
  | nil => exact le_rfl
  | cons r rest ih => exact (le_max_left _ _).trans (ih _)

/-- A run that does not re-arm lowers nothing an order sees. -/
theorem run_effective (hsaved : Saved w) (ops : List (Instant × SwitchOp))
    (h : ∀ op ∈ ops, op.2.rearms = false) (strategy : String) :
    w.switches.killState.effective strategy ≤
      (run config w ops).switches.killState.effective strategy := by
  rw [Switches.effective_eq, Switches.effective_eq]
  have hle : ∀ scope name, (w.switches.record scope name).state ≤
      ((run config w ops).switches.record scope name).state := by
    intro scope name
    rw [(run_spec config hsaved ops h).2 scope name]
    exact le_foldl_max _ _
  exact max_le_max (hle _ _) (max_le_max (hle _ _) (hle _ _))

/-- **Latching.** From whatever the stores hold, in every run without a resume and a new
day: each switch stands at the maximum of what it started at and of all that was asked
of it, a restart leaves every switch as it is, and what an order sees never decreases. -/
theorem switches_latch (config : RiskConfig) (stores : RiskWorld)
    (ops more : List (Instant × SwitchOp)) (h : ∀ op ∈ ops ++ more, op.2.rearms = false) :
    let start := stores.restart
    let w := run config start ops
    (∀ scope name, (w.switches.record scope name).state =
        (requested config scope name start ops).foldl max
          (start.switches.record scope name).state) ∧
      w.restart.switches = w.switches ∧
      ∀ strategy, w.switches.killState.effective strategy ≤
        (run config w more).switches.killState.effective strategy := by
  intro start w
  obtain ⟨hops, hmore⟩ := List.forall_mem_append.mp h
  obtain ⟨hsaved, hstate⟩ := run_spec config (Saved.restart stores) ops hops
  exact ⟨hstate, hsaved, fun strategy => run_effective config hsaved more hmore strategy⟩

end SwitchOp

/-! ## A halt below a flatten, across a restart -/

namespace Sample

def riskConfig : RiskConfig := ⟨"main", .default⟩

/-- Empty stores. -/
def stores : RiskWorld := ⟨none, .initial, none, none, none, []⟩

/-- A trip of the global switch by an operator. -/
def operatorTrip (target : KillSwitchState) (code : String) : Trip :=
  ⟨.global, "global", target, "operator", "api", some code⟩

/-- Flattened by the HALT file, then halted by an operator. -/
def flattened : List (Instant × SwitchOp) :=
  [(0, .haltFile (some "FLATTEN")), (0, .checkHaltFile),
    (0, .trip (operatorTrip .haltNew "API_HALT"))]

end Sample

namespace SwitchOp

theorem switches_latch_flattened :
    let w := run Sample.riskConfig Sample.stores.restart Sample.flattened
    (w.switches.record .global "global").state = .flatten ∧ w.restart.switches = w.switches ∧
      w.switches.killState.effective "momentum" ≤
        (run Sample.riskConfig w [(0, .restart)]).switches.killState.effective "momentum" := by
  obtain ⟨hstate, hrestart, heffective⟩ := switches_latch Sample.riskConfig Sample.stores
    Sample.flattened [(0, .restart)] (by decide)
  refine ⟨(hstate .global "global").trans ?_, hrestart, heffective "momentum"⟩
  decide +kernel

end SwitchOp

end RakshaQuant
