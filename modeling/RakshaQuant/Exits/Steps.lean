import RakshaQuant.Desk.Beside
import RakshaQuant.Desk.Recovery
import RakshaQuant.Exits.Manager

/-! A run of the exit manager in steps: what goes on at the desk beside it, a fill it
is told of, a stretch of one of its methods about one position, and a restart on its
store. Every method is a sequence of such stretches, whether it returns or raises. -/

namespace RakshaQuant

namespace ExitManager

/-- A stretch of the exit manager's own code. -/
inductive Act
  | expect (clientOrderId : String) (entry : PendingEntry)
  | save
  /-- The daily update of one position. -/
  | trail (key : String) (close atr : Option ℚ)
  /-- One position of `refresh_stops`. -/
  | refresh (call : ExitCall) (key : String)
  | exitAll (call : ExitCall) (key : String) (reason : IntentReason) (leg : String)
      (price : Option ℚ)
  | exitPartial (call : ExitCall) (key : String) (price : ℚ)
  | letGo (call : ExitCall) (key : String)
  /-- `reconcile` before its stops. -/
  | stocktake (call : ExitCall) (atr : String → Option ℚ)

/-- What a step of a run is. -/
inductive Move
  | beside
  | filled (fill : Fill)
  | acted (act : Act)
  | restarted

open BrokerStep (anyEnd)

variable (m : ExitManager)

/-- The daily update of one position, which is marked for a new stop. -/
def trail (key : String) (close atr : Option ℚ) (e : Exits) : Exits :=
  (e.update key (ManagedPosition.trailed m.policy close atr)).markStale key

/-- `stand_down` of a managed position, before it saves. -/
def letGo (call : ExitCall) (key : String) : EStateM Exc (Paper Exits) PUnit := do
  match (← get).exits.position? key with
  | none => return
  | some pos => m.standDownOne call key pos

def act : Act → EStateM Exc (Paper Exits) PUnit
  | .expect coid entry => modify (World.mapExits (.expect coid entry))
  | .save => modify (World.mapExits .save)
  | .trail key close atr => modify (World.mapExits (m.trail key close atr))
  | .refresh call key => m.refreshOne call key
  | .exitAll call key reason leg price => m.exitAll call key reason leg price
  | .exitPartial call key price => m.exitPartial call key price
  | .letGo call key => m.letGo call key
  | .stocktake call atr => modify (m.stocktake call atr)

/-- One step. A fill reaches the desk whatever the broker is then; after a restart the
broker and the OMS are whatever they come back as. -/
inductive Step : Move → Paper Exits → Paper Exits → Prop
  | beside {w w' : Paper Exits} (h : Beside (fun _ => True) w w') : Step .beside w w'
  | filled {w : Paper Exits} (fill : Fill) (b : SimulatedBroker) :
      Step (.filled fill) w
        { broker := b, desk := (Desk.onFill m.system.listener fill w.desk).state }
  | acted {w : Paper Exits} (a : Act) : Step (.acted a) w (m.act a w).state
  | restarted {w w' : Paper Exits} (exits : w'.exits = w.exits.restart)
      (keyed : w'.desk.oms.Keyed) : Step .restarted w w'

/-- Any step. -/
def Goes (w w' : Paper Exits) : Prop := ∃ move, m.Step move w w'

def Run : Paper Exits → Paper Exits → Prop := Relation.ReflTransGen m.Goes

/-- A fresh desk and a manager on an empty store. -/
def init (startingCash : ℚ) : Paper Exits := m.system.init startingCash .init

/-! ## Every operation is a run -/

section runs

variable {m}

theorem moves_act (a : Act) (P : Paper Exits → Prop) :
    Effect.Moves m.Goes P (m.act a) anyEnd anyEnd := by
  intro w _
  refine ⟨.single ⟨_, .acted a⟩, ?_⟩
  cases m.act a w <;> trivial

/-- A computation that only reads the manager's state before an act. -/
theorem moves_if {c : Prop} [Decidable c] {P : Paper Exits → Prop}
    {f g : EStateM Exc (Paper Exits) PUnit} (hf : Effect.Moves m.Goes P f anyEnd anyEnd)
    (hg : Effect.Moves m.Goes P g anyEnd anyEnd) :
    Effect.Moves m.Goes P (if c then f else g) anyEnd anyEnd := by
  split
  · exact hf
  · exact hg

theorem moves_refreshAll (call : ExitCall) (keys : List String) (P : Paper Exits → Prop) :
    Effect.Moves m.Goes P (m.refreshAll call keys) anyEnd anyEnd := by
  induction keys generalizing P with
  | nil => exact Effect.Moves.pure fun _ _ => trivial
  | cons key rest ih => exact Effect.Moves.bind (moves_act (.refresh call key) P) fun _ => ih _

theorem moves_refreshStops (call : ExitCall) (P : Paper Exits → Prop) :
    Effect.Moves m.Goes P (m.refreshStops call) anyEnd anyEnd :=
  Effect.Moves.read fun _ _ =>
    Effect.Moves.bind (moves_refreshAll call _ _) fun _ => moves_act .save _

theorem moves_quoteOne (call : ExitCall) (quote : Quote) (key : String) (P : Paper Exits → Prop) :
    Effect.Moves m.Goes P (m.quoteOne call quote key) anyEnd anyEnd := by
  refine Effect.Moves.read fun w _ => ?_
  cases w.exits.position? key with
  | none => exact Effect.Moves.pure fun _ _ => trivial
  | some pos =>
    refine moves_if (Effect.Moves.pure fun _ _ => trivial) (moves_if ?_ (moves_if ?_ ?_))
    · exact moves_act (.exitAll call key .target "target" (some quote.ltp)) _
    · exact moves_act (.exitPartial call key quote.ltp) _
    · exact Effect.Moves.pure fun _ _ => trivial

theorem moves_onQuote (call : ExitCall) (quote : Quote) (P : Paper Exits → Prop) :
    Effect.Moves m.Goes P (m.onQuote call quote) anyEnd anyEnd := by
  have hall : ∀ (keys : List String) (P : Paper Exits → Prop),
      Effect.Moves m.Goes P (m.quoteAll call quote keys) anyEnd anyEnd := by
    intro keys
    induction keys with
    | nil => exact fun _ => Effect.Moves.pure fun _ _ => trivial
    | cons key rest ih =>
      exact fun P => Effect.Moves.bind (moves_quoteOne call quote key P) fun _ => ih _
  refine Effect.Moves.bind (moves_refreshStops call P) fun _ => Effect.Moves.read fun _ _ => ?_
  exact Effect.Moves.bind (hall _ _) fun _ => moves_act .save _

theorem moves_startOne (call : ExitCall) (day : Day) (atr closes : String → Option ℚ)
    (key : String) (P : Paper Exits → Prop) :
    Effect.Moves m.Goes P (m.startOne call day atr closes key) anyEnd anyEnd := by
  refine Effect.Moves.read fun w _ => ?_
  cases w.exits.position? key with
  | none => exact Effect.Moves.pure fun _ _ => trivial
  | some pos =>
    refine moves_if (Effect.Moves.pure fun _ _ => trivial) ?_
    refine BrokerStep.moves_ofExcept (fun sessions _ => moves_if ?_ ?_) fun _ _ _ _ => trivial
    · exact moves_act (.exitAll call key .time ("time-" ++ Day.isoformat day) none) _
    · exact moves_act (.trail key (closes pos.instrument.key) (atr pos.instrument.key)) _

theorem moves_onSessionStart (call : ExitCall) (day : Day) (atr closes : String → Option ℚ)
    (P : Paper Exits → Prop) :
    Effect.Moves m.Goes P (m.onSessionStart call day atr closes) anyEnd anyEnd := by
  have hall : ∀ (keys : List String) (P : Paper Exits → Prop),
      Effect.Moves m.Goes P (m.startAll call day atr closes keys) anyEnd anyEnd := by
    intro keys
    induction keys with
    | nil => exact fun _ => Effect.Moves.pure fun _ _ => trivial
    | cons key rest ih =>
      exact fun P => Effect.Moves.bind (moves_startOne call day atr closes key P) fun _ => ih _
  refine Effect.Moves.read fun _ _ => Effect.Moves.bind (hall _ _) fun _ => ?_
  exact Effect.Moves.bind (moves_refreshStops call _) fun _ => moves_act .save _

theorem moves_flatten (call : ExitCall) (reason : String) (P : Paper Exits → Prop) :
    Effect.Moves m.Goes P (m.flatten call reason) anyEnd anyEnd := by
  have hall : ∀ (keys : List String) (P : Paper Exits → Prop),
      Effect.Moves m.Goes P (m.flattenAll call reason keys) anyEnd anyEnd := by
    intro keys
    induction keys with
    | nil => exact fun _ => Effect.Moves.pure fun _ _ => trivial
    | cons key rest ih =>
      exact fun P =>
        Effect.Moves.bind (moves_act (.exitAll call key .flatten reason none) P) fun _ => ih _
  refine Effect.Moves.read fun _ _ => Effect.Moves.bind (hall _ _) fun _ => ?_
  exact moves_act .save _

theorem moves_standDown (call : ExitCall) (instrumentKey : String) (product : Product)
    (P : Paper Exits → Prop) :
    Effect.Moves m.Goes P (m.standDown call instrumentKey product) anyEnd anyEnd := by
  refine Effect.Moves.read fun w _ => ?_
  cases hpos : w.exits.position? (positionKey instrumentKey product) with
  | none => exact Effect.Moves.pure fun _ _ => trivial
  | some pos =>
    refine Effect.Moves.bind (Q := anyEnd) ?_ fun _ => moves_act .save _
    rintro _ rfl
    have hact : m.act (.letGo call (positionKey instrumentKey product)) w =
        m.standDownOne call (positionKey instrumentKey product) pos w := by
      show m.letGo _ _ w = _
      rw [letGo, Effect.run_bind_ok (Effect.run_get _), hpos]
    rw [← hact]
    exact moves_act _ (Eq w) w rfl

theorem moves_expectEntry (entry : OrderIntent) (atr : ℚ) (signalBarDate : Day)
    (P : Paper Exits → Prop) :
    Effect.Moves m.Goes P (m.expectEntry entry atr signalBarDate) anyEnd anyEnd := by
  unfold expectEntry
  split
  · exact Effect.Moves.bind (Q := anyEnd) (Effect.Moves.throw fun _ _ => trivial) fun _ =>
      Effect.Moves.bind (moves_act (.expect (m.config.clientOrderId entry.intentId)
        ⟨atr, entry.strategy, entry.decisionId, signalBarDate⟩) _) fun _ => moves_act .save _
  · exact Effect.Moves.bind (moves_act (.expect (m.config.clientOrderId entry.intentId)
      ⟨atr, entry.strategy, entry.decisionId, signalBarDate⟩) _) fun _ => moves_act .save _

theorem moves_reconcile (call : ExitCall) (atr : String → Option ℚ) (P : Paper Exits → Prop) :
    Effect.Moves m.Goes P (m.reconcile call atr) anyEnd anyEnd := by
  refine Effect.Moves.read fun _ _ => Effect.Moves.bind (moves_act (.stocktake call atr) _) ?_
  exact fun _ => Effect.Moves.bind (moves_refreshStops call _) fun _ =>
    Effect.Moves.bind (moves_act .save _) fun _ => Effect.Moves.pure fun _ _ => trivial

/-- An operation of the desk is steps beside the manager and fills it is told of. -/
theorem run_op (op : Op) {w : Paper Exits} (hk : w.desk.oms.Keyed) :
    m.Run w (m.system.after w op) := by
  refine (System.after_steps (System.Op.gated_any m.system.config op) hk).lift id
    fun w w' hstep => ?_
  rcases hstep.beside_or_filled with hbeside | ⟨fill, b, rfl⟩
  · exact ⟨_, .beside hbeside⟩
  · exact ⟨_, .filled fill b⟩

/-- A start of the process on what a crash left is a restart. -/
theorem goes_restart {startingCash : ℚ} {journal : List Write} {w w' : Paper Exits}
    (h : m.system.restart startingCash w.exits.restart journal = some w')
    (keyed : w'.desk.oms.Keyed) : m.Goes w w' := by
  refine ⟨_, .restarted ?_ keyed⟩
  unfold System.restart at h
  split at h
  · cases h
    rfl
  · cases h

end runs

end ExitManager

end RakshaQuant
