import RakshaQuant.Desk.Beside
import RakshaQuant.Exits.Steps
import RakshaQuant.Risk.Flattener

/-! Runs of the flattener. Beside it the desk works, fills arrive and the exit manager does
what it does; between any two durable writes the process may crash and start again on the
journal and the store. The flattener's own method is a sequence of these steps. -/

namespace RakshaQuant

namespace OMS

/-- No FLATTEN order of a position is live. -/
def Idle (instrumentKey : String) (product : Product) (o : OMS) : Prop :=
  ∀ coid order, o.orders.get? coid = some order → ¬order.Flattens instrumentKey product

/-- Nothing came and nothing revived: every order was there with its extent, and lives only
if it did. -/
structure Rests (o o' : OMS) : Prop where
  keyed : o'.Keyed
  book : o'.book = o.book
  before : ∀ coid order', o'.orders.get? coid = some order' →
    ∃ order, o.orders.get? coid = some order ∧ order'.extent = order.extent ∧
      (order'.status.isTerminal = false → order.status.isTerminal = false)

variable {o o' o'' : OMS} {Allowed : Order → Prop} {instrumentKey : String} {product : Product}

/-- A live FLATTEN order was one before, where its extent is the same and it lived. -/
theorem flattens_of_before {order order' : Order} (hextent : order'.extent = order.extent)
    (hlive : order'.status.isTerminal = false → order.status.isTerminal = false)
    (h : order'.Flattens instrumentKey product) : order.Flattens instrumentKey product := by
  have hintent : order'.intent = order.intent := congrArg Prod.fst hextent
  obtain ⟨hkind, hkey, hproduct, hstatus⟩ := h
  rw [hintent] at hkind hkey hproduct
  exact ⟨hkind, hkey, hproduct, hlive hstatus⟩

namespace Rests

theorem refl (hk : o.Keyed) : Rests o o := ⟨hk, rfl, fun _ order ho => ⟨order, ho, rfl, id⟩⟩

theorem trans (h : Rests o o') (h' : Rests o' o'') : Rests o o'' where
  keyed := h'.keyed
  book := h'.book.trans h.book
  before coid order'' ho'' := by
    obtain ⟨order', ho', hextent', hlive'⟩ := h'.before coid order'' ho''
    obtain ⟨order, ho, hextent, hlive⟩ := h.before coid order' ho'
    exact ⟨order, ho, hextent'.trans hextent, fun hs => hlive (hlive' hs)⟩

theorem of_work (hwork : Work (fun _ => False) o o') (hk : o.Keyed) : Rests o o' where
  keyed := hwork.keyed hk
  book := hwork.book
  before coid order' ho' := by
    rcases hwork.before ho' with hold | ⟨hnever, -⟩
    · exact hold
    · exact hnever.elim

theorem idle (h : Rests o o') (hidle : o.Idle instrumentKey product) :
    o'.Idle instrumentKey product := by
  intro coid order' ho' hflattens
  obtain ⟨order, ho, hextent, hlive⟩ := h.before coid order' ho'
  exact hidle coid order ho (flattens_of_before hextent hlive hflattens)

end Rests

end OMS

namespace Attempt

/-- An intent is the one of an attempt. -/
structure Names (a : Attempt) (bookId : String) (intent : OrderIntent) : Prop where
  id : a.intentId bookId = .ok intent.intentId
  key : intent.instrument.key = a.instrumentKey
  product : intent.product = a.product

theorem same_of_slot {a a' : Attempt} (h : a.slot = a'.slot) :
    a.key = a'.key ∧ a.number = a'.number := by
  simp only [slot, Prod.mk.injEq] at h
  obtain ⟨hday, hkey, hproduct, hnumber⟩ := h
  exact ⟨by rw [key, key, hday, hkey, hproduct], hnumber⟩

/-- Attempts at one position that have the same intent id are counted under the same key,
and have the same number. -/
theorem same_of_id {a a' : Attempt} {bookId id : String} (h : a.intentId bookId = .ok id)
    (h' : a'.intentId bookId = .ok id) (hkey : a.instrumentKey = a'.instrumentKey)
    (hproduct : a.product = a'.product) : a.key = a'.key ∧ a.number = a'.number := by
  obtain ⟨-, -, -, hday, hleg⟩ := intentId_injective h h'
  refine ⟨by rw [key, key, hday, hkey, hproduct], Numeral.toString_injective ?_⟩
  apply String.toList_inj.mp
  have hlists := congrArg String.toList hleg
  simp only [leg, String.toList_append] at hlists
  exact List.append_cancel_left hlists

end Attempt

namespace Flattener

variable (f : Flattener)

/-- What a step of a run is. -/
inductive Move
  | worked
  | filled (fill : Fill)
  | managed
  | counted (attempt : Attempt)
  | sent
  | escalated

/-- The orders of everyone else. -/
def Other (order : Order) : Prop := order.intent.kind ≠ .flatten

/-- The order a submission of an intent registers. -/
def OrderOf (intent : OrderIntent) (order : Order) : Prop :=
  order.intent = intent ∧ order.clientOrderId = f.manager.config.clientOrderId intent.intentId

/-- The order of an intent is registered, or no FLATTEN order of its position is live. -/
def Clear (intent : OrderIntent) (o : OMS) : Prop :=
  (∃ order, o.orders.get? (f.manager.config.clientOrderId intent.intentId) = some order) ∨
    o.Idle intent.instrument.key intent.product

/-- One step. A fill reaches the desk whatever the broker is then. -/
inductive Step : Move → FlattenDesk → FlattenDesk → Prop
  /-- The desk goes on beside the flattener, which sends every FLATTEN order there is. -/
  | worked {w : FlattenDesk} {p : Paper Exits} (h : f.manager.system.Quiet Other w.paper p) :
      Step .worked w { w with paper := p }
  | filled {w : FlattenDesk} (fill : Fill) (b : SimulatedBroker) :
      Step (.filled fill) w { w with
        paper := { broker := b
                   desk := (Desk.onFill f.manager.system.listener fill w.paper.desk).state } }
  /-- The exit manager changes its own state. -/
  | managed {w : FlattenDesk} (change : Exits → Exits) :
      Step .managed w { w with paper := w.paper.mapExits change }
  /-- The next attempt at a position is counted and saved. -/
  | counted {w : FlattenDesk} {a : Attempt} (next : a.number = w.attempts a.key + 1) :
      Step (.counted a) w (w.spend a)
  /-- The newest attempt is submitted, in the small steps of a submission. -/
  | sent {w : FlattenDesk} {p : Paper Exits} {a : Attempt} {intent : OrderIntent}
      (newest : w.spent.head? = some a) (names : a.Names w.oms.bookId intent)
      (clear : f.Clear intent w.oms)
      (h : f.manager.system.Quiet (f.OrderOf intent) w.paper p) : Step .sent w { w with paper := p }
  | escalated {w : FlattenDesk} (key : String) : Step .escalated w (w.escalate key)

/-- A fill is told by the broker. -/
def Move.Silent : Move → Prop
  | .filled _ => False
  | _ => True

/-- Any step but a fill. -/
def Goes (w w' : FlattenDesk) : Prop := ∃ move, f.Step move w w' ∧ move.Silent

/-- The process starts on a journal and what the store holds. Broker and exit manager are
whatever they come back as. -/
structure Restarts (startingCash : ℚ) (journal : List Write) (w w' : FlattenDesk) : Prop where
  restored : ∃ applied o, OMS.restore (events journal)
    (.init (.init f.manager.env.bookId startingCash)) = .ok applied o ∧
      w'.oms = { o with sink := journal }
  saved : w'.saved = w.saved
  state : w'.state = w.saved.getD ⟨.empty, []⟩
  spent : w'.spent = w.spent

/-! ## The method is a run -/

section moves

open BrokerStep (anyEnd)
open FlattenDesk (onDesk)

variable {f}

/-- A computation at the desk moves the flattener's world with it. -/
theorem moves_onDesk {α : Type} {R : Paper Exits → Paper Exits → Prop}
    {m : EStateM Exc (Paper Exits) α} {Q : α → Paper Exits → Prop} {E : Exc → Paper Exits → Prop}
    {w : FlattenDesk} (hm : Effect.Moves R (Eq w.paper) m Q E)
    (hlift : ∀ p p', R p p' → f.Goes { w with paper := p } { w with paper := p' }) :
    Effect.Moves f.Goes (Eq w) (onDesk m) (fun a w' => ∃ p, w' = { w with paper := p } ∧ Q a p)
      (fun e w' => ∃ p, w' = { w with paper := p } ∧ E e p) := by
  rintro _ rfl
  obtain ⟨hr, h⟩ := hm w.paper rfl
  have hchain : ∀ p, Relation.ReflTransGen R w.paper p →
      Relation.ReflTransGen f.Goes w { w with paper := p } := fun p hp =>
    hp.lift (fun p => { w with paper := p }) hlift
  unfold onDesk
  cases hrun : m w.paper with
  | ok a p =>
    rw [hrun] at hr h
    exact ⟨hchain p hr, p, rfl, h⟩
  | error e p =>
    rw [hrun] at hr h
    exact ⟨hchain p hr, p, rfl, h⟩

/-- What a release does: quiet steps that register nothing, and changes of the exit manager. -/
def Lets (f : Flattener) (p p' : Paper Exits) : Prop :=
  f.manager.system.Quiet (fun _ => False) p p' ∨ ∃ change, p' = p.mapExits change

theorem Lets.rests {p p' : Paper Exits} (h : f.Lets p p') (hk : p.desk.oms.Keyed) :
    p.desk.oms.Rests p'.desk.oms := by
  rcases h with hquiet | ⟨change, rfl⟩
  · exact .of_work (hquiet.work hk) hk
  · exact .refl hk

theorem Lets.goes {w : FlattenDesk} {p p' : Paper Exits} (h : f.Lets p p') :
    f.Goes { w with paper := p } { w with paper := p' } := by
  rcases h with hquiet | ⟨change, rfl⟩
  · have hstep : f.Step .worked { w with paper := p } { w with paper := p' } :=
      .worked (w := { w with paper := p }) (hquiet.mono fun _ h => h.elim)
    exact ⟨_, hstep, trivial⟩
  · have hstep : f.Step .managed { w with paper := p } { w with paper := p.mapExits change } :=
      .managed (w := { w with paper := p }) change
    exact ⟨_, hstep, trivial⟩

theorem lets_cancel (call : ExitCall) (coid : String) (P : Paper Exits → Prop) :
    Effect.Moves f.Lets P (f.manager.cancel call coid) anyEnd anyEnd :=
  ((System.quiet_cancel f.manager.system (fun _ => False) call.brokerNow coid).lift
    fun _ _ h => .inl h).conseq (fun _ _ => trivial) (fun _ _ h => h) fun _ _ h => h

theorem lets_change (change : Exits → Exits) (P : Paper Exits → Prop) :
    Effect.Moves f.Lets P (modify (World.mapExits change) : EStateM Exc (Paper Exits) PUnit)
      anyEnd anyEnd :=
  Effect.Moves.change fun _ _ => ⟨.single (.inr ⟨change, rfl⟩), trivial⟩

theorem lets_cancelStop (call : ExitCall) (key : String) (pos : ManagedPosition)
    (P : Paper Exits → Prop) :
    Effect.Moves f.Lets P (f.manager.cancelStop call key pos) anyEnd anyEnd := by
  unfold ExitManager.cancelStop
  cases pos.stopCoid with
  | none => exact Effect.Moves.pure fun _ _ => trivial
  | some coid => exact Effect.Moves.bind (lets_cancel call coid P) fun _ => lets_change _ _

theorem lets_standDown (call : ExitCall) (instrumentKey : String) (product : Product)
    (P : Paper Exits → Prop) :
    Effect.Moves f.Lets P (f.manager.standDown call instrumentKey product) anyEnd anyEnd := by
  refine Effect.Moves.read fun w _ => ?_
  cases w.exits.position? (positionKey instrumentKey product) with
  | none => exact Effect.Moves.pure fun _ _ => trivial
  | some pos =>
    refine Effect.Moves.bind (Q := anyEnd) ?_ fun _ => lets_change _ _
    exact Effect.Moves.bind (lets_cancelStop call _ pos _) fun _ => lets_change _ _

theorem lets_cancelResting (call : ExitCall) (p : Position) (orders : List Order)
    (P : Paper Exits → Prop) :
    Effect.Moves f.Lets P (f.cancelResting call p orders) anyEnd anyEnd := by
  induction orders generalizing P with
  | nil => exact Effect.Moves.pure fun _ _ => trivial
  | cons order rest ih =>
    unfold cancelResting
    split
    · exact Effect.Moves.bind (lets_cancel call _ P) fun _ => ih _
    · exact ih P

theorem lets_release (call : ExitCall) (p : Position) (P : Paper Exits → Prop) :
    Effect.Moves f.Lets P (f.release call p) anyEnd anyEnd := by
  have hrest : ∀ P : Paper Exits → Prop, Effect.Moves f.Lets P
      (get >>= fun w => f.cancelResting call p w.desk.oms.orders.values) anyEnd anyEnd := fun _ =>
    Effect.Moves.read fun _ _ => lets_cancelResting call p _ _
  unfold release
  split
  · exact Effect.Moves.bind (lets_standDown call _ _ P) fun _ => hrest _
  · exact hrest P

/-- A release lets orders go; none comes and none revives. -/
theorem moves_release (call : ExitCall) (p : Position) {w : FlattenDesk} (hk : w.oms.Keyed) :
    Effect.Moves f.Goes (Eq w) (onDesk (f.release call p))
      (fun _ w' => ∃ q, w' = { w with paper := q } ∧ w.oms.Rests q.desk.oms) fun _ _ => True := by
  have hkept := (lets_release (f := f) call p (Eq w.paper)).keeping
    (I := fun q => w.oms.Rests q.desk.oms) fun q q' h hq => hq.trans (h.rests hq.keyed)
  have hstart := hkept.conseq (M := Eq w.paper) (fun q hq => ⟨hq, hq ▸ .refl hk⟩)
    (fun _ _ h => h.2) fun _ _ h => h.2
  exact (moves_onDesk hstart fun q q' h => h.goes).conseq (fun _ h => h) (fun _ _ h => h)
    fun _ _ _ => trivial

end moves

end Flattener

namespace OMS

/-- Placing an order is not answered with a duplicate. -/
theorem place_not_duplicate {B T : Type} {adapter : BrokerAdapter (World B (Desk T))} {order : Order}
    {w w' : World B (Desk T)} {result : SubmitResult} (h : place adapter order w = .ok result w') :
    result.status ≠ .duplicate := by
  have hends : Effect.Moves (fun _ _ => True) (fun _ => True) (place adapter order)
      (fun result _ => result.status ≠ .duplicate) fun _ _ => True := by
    unfold place
    refine Effect.Moves.after (M := fun _ => True) (fun _ _ => ⟨.single trivial, trivial⟩) ?_
    refine Effect.Moves.bind (Q := fun _ _ => True) (fun w _ => ⟨.single trivial, ?_⟩) fun r => ?_
    · cases Effect.attempt (adapter.placeOrder order) w <;> trivial
    · cases r with
      | error exc =>
        refine Effect.Moves.after (M := fun _ => True) (fun _ _ => ⟨.single trivial, trivial⟩) ?_
        refine Effect.Moves.read fun w _ => ?_
        cases exc.notPlacedReason <;> exact Effect.Moves.pure fun _ _ h => by cases h
      | ok ack =>
        refine Effect.Moves.after (M := fun _ => True) (fun _ _ => ⟨.single trivial, trivial⟩) ?_
        exact Effect.Moves.read fun w _ => Effect.Moves.pure fun _ _ h => by cases h
  have hend := (hends w trivial).2
  rw [h] at hend
  exact hend

/-- Only an order that stands under the id is answered with a duplicate. -/
theorem submit_duplicate {B T : Type} {config : OmsConfig}
    {adapter : BrokerAdapter (World B (Desk T))} {gate : Option (OrderGate (World B (Desk T)))}
    {now : Instant} {intent : OrderIntent} {quantity : Option ℤ} {w w' : World B (Desk T)}
    {result : SubmitResult} (h : submit config adapter gate now intent quantity w = .ok result w')
    (hduplicate : result.status = .duplicate) :
    ∃ existing, w.desk.oms.orders.get? (config.clientOrderId intent.intentId) = some existing := by
  unfold submit at h
  rw [Effect.run_bind, Effect.run_get] at h
  dsimp only at h
  cases hchecked : w.desk.oms.precheck config gate.isSome intent quantity with
  | error answer =>
    rw [hchecked] at h
    cases h
    unfold precheck at hchecked
    split at hchecked
    · cases hchecked
      cases hduplicate
    split at hchecked
    · cases hchecked
      cases hduplicate
    split at hchecked
    · rename_i existing hexisting
      exact ⟨existing, hexisting⟩
    · dsimp only at hchecked
      split at hchecked
      · split at hchecked
        · cases hchecked
          cases hduplicate
        · cases hchecked
      · cases hchecked
  | ok qty =>
    rw [hchecked] at h
    cases gate with
    | none =>
      cases h
      cases hduplicate
    | some gate =>
      -- the gate lets pass or blocks, and a placed order is no duplicate
      dsimp only at h
      rw [Effect.run_bind] at h
      cases hgate : gate intent qty w with
      | error e w₁ =>
        rw [hgate] at h
        cases h
      | ok decision w₁ =>
        rw [hgate] at h
        dsimp only at h
        cases hsized : sized qty decision with
        | error answer =>
          rw [hsized] at h
          cases h
          rw [sized] at hsized
          split at hsized
          · cases hsized
            cases hduplicate
          · dsimp only at hsized
            split at hsized
            · cases hsized
            · cases hsized
              cases hduplicate
        | ok q =>
          rw [hsized] at h
          exact absurd hduplicate (place_not_duplicate h)

end OMS

namespace Flattener

variable {f : Flattener}

open FlattenDesk (onDesk)

theorem instrument_key {instrumentKey : String} {o : OMS} {instrument : Instrument}
    (h : f.instrument instrumentKey o = .ok instrument) : instrument.key = instrumentKey := by
  unfold Flattener.instrument at h
  split at h
  · rename_i known hknown
    cases h
    exact f.instruments_key _ _ hknown
  · split at h
    · rename_i order horder
      cases h
      simpa using List.find?_some horder
    · exact Instrument.key_ofKey h

/-- The intent of an attempt is named by it. -/
theorem intent_names {call : ExitCall} {marks : Dict String ℚ} {p : Position} {a : Attempt}
    {o : OMS} {intent : OrderIntent} (h : f.intent call marks p a o = .ok intent)
    (hkey : a.instrumentKey = p.instrumentKey) (hproduct : a.product = p.product) :
    a.Names o.bookId intent := by
  unfold Flattener.intent at h
  cases hinstrument : f.instrument p.instrumentKey o with
  | error e =>
    rw [hinstrument] at h
    cases h
  | ok instrument =>
    rw [hinstrument] at h
    cases hid : a.intentId o.bookId with
    | error e =>
      rw [hid] at h
      cases h
    | ok id =>
      rw [hid] at h
      dsimp only [bind, Except.bind] at h
      split at h
      · cases h
        exact ⟨hid, (instrument_key hinstrument).trans hkey.symm, hproduct.symm⟩
      · cases h

/-- A submission keeps what it started from. -/
theorem clear_kept {intent : OrderIntent} {o o' : OMS} (hwork : OMS.Work (f.OrderOf intent) o o')
    (h : f.Clear intent o) : f.Clear intent o' := by
  rcases h with ⟨order, horder⟩ | hidle
  · exact .inl (hwork.held horder)
  · by_cases hthere : ∃ order,
        o'.orders.get? (f.manager.config.clientOrderId intent.intentId) = some order
    · exact .inl hthere
    · refine .inr fun coid order' ho' hflattens => ?_
      rcases hwork.before ho' with ⟨order, ho, hextent, hlive⟩ | ⟨hof, hid, -⟩
      · exact hidle coid order ho (OMS.flattens_of_before hextent hlive hflattens)
      · exact hthere ⟨order', by rw [← hof.2, hid, ho']⟩

/-- The submission of an intent, where no FLATTEN order of its position is live. -/
theorem moves_submit (call : ExitCall) {intent : OrderIntent} {w : FlattenDesk} {a : Attempt}
    (hk : w.oms.Keyed) (newest : w.spent.head? = some a) (names : a.Names w.oms.bookId intent)
    (idle : w.oms.Idle intent.instrument.key intent.product) :
    Effect.Moves f.Goes (Eq w) (onDesk (f.manager.submit call intent))
      (fun result w' => w'.spent = w.spent ∧ (result.status = .duplicate → ∃ existing,
        w.oms.orders.get? (f.manager.config.clientOrderId intent.intentId) = some existing))
      fun _ _ => True := by
  have hpasses : System.Passes f.manager.system.config (f.OrderOf intent) call.gate intent :=
    fun _ _ _ _ _ _ _ => ⟨rfl, rfl⟩
  have hmoves := (System.quiet_submit f.manager.system (f.OrderOf intent) call.now call.brokerNow
    intent none hpasses call.delivery hk).run.guarded
    (I := fun p => p.desk.oms.Keyed ∧ f.Clear intent p.desk.oms ∧
      p.desk.oms.bookId = w.oms.bookId) ?_ ?_
  · refine (moves_onDesk hmoves fun p p' h => ?_).conseq (fun _ h => h) (fun result w' h => ?_)
      fun _ _ _ => trivial
    · obtain ⟨hquiet, -, hclear, hbook⟩ := h
      have hstep : f.Step .sent { w with paper := p } { w with paper := p' } :=
        .sent (w := { w with paper := p }) newest (by
          show a.Names p.desk.oms.bookId intent
          rw [hbook]
          exact names) hclear hquiet
      exact ⟨_, hstep, trivial⟩
    · obtain ⟨p, rfl, -, hrun⟩ := h
      exact ⟨rfl, OMS.submit_duplicate hrun⟩
  · intro p p' hquiet h
    have hwork := hquiet.work h.1
    exact ⟨hwork.keyed h.1, clear_kept hwork h.2.1, by rw [← h.2.2, OMS.bookId, hwork.book]; rfl⟩
  · rintro _ rfl
    exact ⟨hk, .inr idle, rfl⟩

/-- What an answered attempt says: it was submitted to an OMS whose orders were there before. -/
def Answers (f : Flattener) (w : FlattenDesk) (a : Attempt) (result : SubmitResult) : Prop :=
  ∃ o intent, w.oms.Rests o ∧ a.Names o.bookId intent ∧ (result.status = .duplicate →
    ∃ existing, o.orders.get? (f.manager.config.clientOrderId intent.intentId) = some existing)

/-- An escalation spends no attempt. -/
theorem moves_escalateLate (p : Position) (a : Attempt) (result : SubmitResult)
    (spent : List Attempt) :
    Effect.Moves f.Goes (fun w => w.spent = spent) (f.escalateLate p a result)
      (fun _ w => w.spent = spent) fun _ _ => True := by
  refine Effect.Moves.read fun w hspent => ?_
  split
  · refine Effect.Moves.after (M := fun w => w.spent = spent) ?_ fun w' hspent' => ?_
    · rintro _ rfl
      exact ⟨.single ⟨_, .escalated a.key, trivial⟩, hspent⟩
    · have hasides : ∀ e ∈ [EventPayload.alert (stillOpen p a.number result)], e.Aside := by
        simp [EventPayload.Aside]
      exact ⟨.single ⟨_, .worked (w := w') (.emitted hasides), trivial⟩, hspent'⟩
  · exact Effect.Moves.pure fun _ h => h ▸ hspent

theorem idle_of_inFlight {p : Position} {o : OMS} (h : inFlight p o = false) :
    o.Idle p.instrumentKey p.product := by
  intro coid order ho hflattens
  have hnone := List.any_eq_false.mp h order (o.orders.mem_values_iff.mpr ⟨coid, ho⟩)
  simp [hflattens] at hnone

/-- One position of `step`. -/
theorem moves_flattenOne (call : ExitCall) (today : Day) (marks : Dict String ℚ) (p : Position)
    (owner : String) {w : FlattenDesk} (hk : w.oms.Keyed) :
    Effect.Moves f.Goes (Eq w) (f.flattenOne call today marks p owner)
      (fun answer w' => ∀ result, answer = some result →
        f.Answers w (nextAttempt today p owner w) result ∧
          w'.spent = nextAttempt today p owner w :: w.spent) fun _ _ => True := by
  refine Effect.Moves.read ?_
  rintro _ rfl
  split
  · exact Effect.Moves.pure fun _ _ _ h => by cases h
  rename_i hflight
  have hidle := idle_of_inFlight (by simpa using hflight)
  refine Effect.Moves.bind (moves_release call p hk) fun _ => ?_
  refine Effect.Moves.read ?_
  rintro _ ⟨q, rfl, hrests⟩
  -- a release leaves the counters alone, so the attempt is the one to come before it
  generalize hattempt : nextAttempt today p owner w = a
  have hsame : nextAttempt today p owner { w with paper := q } = a := hattempt
  rw [hsame]
  have hkey : a.instrumentKey = p.instrumentKey := by rw [← hattempt]; rfl
  have hproduct : a.product = p.product := by rw [← hattempt]; rfl
  refine Effect.Moves.after (M := Eq ({ w with paper := q }.spend a)) ?_ ?_
  · rintro _ rfl
    refine ⟨.single ⟨_, .counted (w := { w with paper := q }) ?_, trivial⟩, rfl⟩
    rw [← hattempt]
    rfl
  refine Effect.Moves.read ?_
  rintro _ rfl
  refine Effect.Moves.bind (Q := fun intent w' => w' = { w with paper := q }.spend a ∧
    a.Names q.desk.oms.bookId intent) ?_ fun intent => ?_
  · rintro _ rfl
    have homs : ({ w with paper := q }.spend a).oms = q.desk.oms := rfl
    rw [homs]
    cases hintent : f.intent call marks p a q.desk.oms with
    | error e => exact ⟨.refl, trivial⟩
    | ok intent => exact ⟨.refl, rfl, intent_names hintent hkey hproduct⟩
  rintro _ ⟨rfl, hnames⟩
  have hready : q.desk.oms.Idle intent.instrument.key intent.product := by
    rw [hnames.key, hnames.product, hkey, hproduct]
    exact hrests.idle hidle
  have hsubmit := moves_submit (f := f) (w := ({ w with paper := q } : FlattenDesk).spend a) call
    hrests.keyed rfl hnames hready
  refine Effect.Moves.bind hsubmit (fun result => ?_) _ rfl
  intro w' hanswered
  obtain ⟨hspent, hduplicate⟩ := hanswered
  refine Effect.Moves.bind (moves_escalateLate p a result (a :: w.spent)) (fun _ => ?_) w' hspent
  refine Effect.Moves.pure fun _ hspent answer hanswer => ?_
  cases hanswer
  exact ⟨⟨q.desk.oms, intent, hrests, hnames, hduplicate⟩, hspent⟩

theorem Step.keyed {move : Move} {w w' : FlattenDesk} (h : f.Step move w w') (hk : w.oms.Keyed) :
    w'.oms.Keyed := by
  cases h with
  | worked h => exact (h.work hk).keyed hk
  | filled fill b =>
    obtain ⟨as, homs⟩ := Desk.onFill_oms f.manager.system.listener fill w.paper.desk
    have horders : (Desk.onFill f.manager.system.listener fill w.paper.desk).state.oms.orders =
        (OMS.onFill fill w.oms).state.orders := by rw [homs]; rfl
    exact OMS.keyed_of_eq ((OMS.touched_onFill fill hk).keyed hk) horders
  | managed _ => exact hk
  | counted _ => exact hk
  | sent _ _ _ h => exact (h.work hk).keyed hk
  | escalated _ => exact hk

theorem moves_stepAll (call : ExitCall) (today : Day) (marks : Dict String ℚ)
    (strategy : Option String) (positions : List Position) :
    Effect.Moves f.Goes (fun w => w.oms.Keyed) (f.stepAll call today marks strategy positions)
      (fun _ _ => True) fun _ _ => True := by
  induction positions with
  | nil => exact Effect.Moves.pure fun _ _ => trivial
  | cons p rest ih =>
    refine Effect.Moves.read fun w hk => ?_
    dsimp only
    split
    · exact ih.conseq (fun _ h => h ▸ hk) (fun _ _ h => h) fun _ _ h => h
    · have hone := (moves_flattenOne (f := f) call today marks p (owner w.oms.book p) hk).keeping
        (I := fun w => w.oms.Keyed) fun _ _ ⟨_, h, _⟩ => h.keyed
      refine Effect.Moves.bind (Q := fun _ w => w.oms.Keyed) (hone.conseq (fun _ h => ⟨h, h ▸ hk⟩)
        (fun _ _ h => h.2) fun _ _ _ => trivial) fun _ => ?_
      exact Effect.Moves.bind ih fun _ => Effect.Moves.pure fun _ _ => trivial

/-- The method is a run, whether it returns or raises. -/
theorem moves_step (call : ExitCall) (marks : Dict String ℚ) (strategy : Option String) :
    Effect.Moves f.Goes (fun w => w.oms.Keyed) (f.step call marks strategy) (fun _ _ => True)
      fun _ _ => True := by
  refine Effect.Moves.read fun w hk => ?_
  exact (moves_stepAll call call.now.istDate marks strategy _).conseq (fun _ h => h ▸ hk)
    (fun _ _ h => h) fun _ _ h => h

end Flattener

end RakshaQuant
