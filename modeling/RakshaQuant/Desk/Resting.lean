import RakshaQuant.Desk.Beside

/-! Orders that are live once they are placed. Where nothing that has ended stands under
an id, what the broker tells of a new order under it and what the OMS records of the
answer leave the order live, unless the broker refused it. A cancel of another order
leaves what stands under the id as it is. -/

namespace RakshaQuant

namespace OMS

/-- A live order stands under an id. -/
def LiveAt (coid : String) (o : OMS) : Prop :=
  ∃ order, o.orders.get? coid = some order ∧ order.status.isTerminal = false

variable {coid : String} {o o' : OMS}

theorem LiveAt.of_get (h : o.LiveAt coid) (hget : o'.orders.get? coid = o.orders.get? coid) :
    o'.LiveAt coid := by
  obtain ⟨order, horder, hlive⟩ := h
  exact ⟨order, by rw [hget, horder], hlive⟩

theorem LiveAt.set (h : o.LiveAt coid) {k : String} {changed : Order}
    (horders : o'.orders = o.orders.set k changed)
    (hlive : coid = k → changed.status.isTerminal = false) : o'.LiveAt coid := by
  by_cases hc : coid = k
  · exact ⟨changed, by rw [horders, hc, Dict.get?_set_self], hlive hc⟩
  · exact h.of_get (by rw [horders, Dict.get?_set_ne _ _ hc])

theorem LiveAt.get (h : o.LiveAt coid) {order : Order} (horder : o.orders.get? coid = some order) :
    order.status.isTerminal = false := by
  obtain ⟨known, hknown, hlive⟩ := h
  obtain rfl := Option.some.inj (hknown.symm.trans horder)
  exact hlive

theorem LiveAt.onUpdate (h : o.LiveAt coid) {snap : BrokerOrderSnapshot} (hk : o.Keyed)
    (hsnap : snap.status.isTerminal = false) : (o.onUpdate snap).LiveAt coid := by
  cases hs : o.orders.get? snap.clientOrderId with
  | none =>
    obtain ⟨a, heq⟩ := onUpdate_unknown hs
    exact h.of_get (by rw [heq, emit_orders])
  | some known =>
    rcases (onUpdate_known hk hs).2 with ⟨-, -, -, version, heq, -⟩ | ⟨-, -, hsame | hset⟩
    · exact h.set heq fun _ => hsnap
    · exact h.of_get (by rw [hsame.2])
    · refine h.set hset.2 fun hc => ?_
      have hlive : known.status.isTerminal = false := h.get (hc ▸ hs)
      exact hlive

theorem LiveAt.placed {order : Order} {ack : BrokerAck} (h : o.LiveAt order.clientOrderId)
    (hk : o.Keyed) (hack : ack.status.isTerminal = false) :
    (o.placed order ack).LiveAt order.clientOrderId := by
  obtain ⟨known, hknown, hlive⟩ := id h
  rcases placed_orders ack hk hknown with heq | ⟨-, version, heq⟩
  · exact h.of_get (by rw [heq])
  · refine h.set heq fun _ => ?_
    show (advanced known.status ack.status).isTerminal = false
    unfold advanced
    split
    · exact hack
    · exact hlive

/-- An order whose outcome is unknown counts as live. -/
theorem LiveAt.placeFailed {order : Order} {exc : Exc} (h : o.LiveAt order.clientOrderId)
    (hexc : exc.notPlacedReason = none) : (o.placeFailed order exc).LiveAt order.clientOrderId := by
  obtain ⟨known, hknown, -⟩ := id h
  obtain ⟨status, event, hstatus, heq, -, -⟩ := placeFailed_spec exc hknown
  refine h.set heq fun _ => ?_
  rcases hstatus with ⟨rfl, -, -⟩ | ⟨-, hrefused, -⟩
  · rfl
  · exact absurd hexc hrefused

/-- An update is about the order it names. -/
theorem onUpdate_other {snap : BrokerOrderSnapshot} (hk : o.Keyed)
    (hne : snap.clientOrderId ≠ coid) :
    (o.onUpdate snap).orders.get? coid = o.orders.get? coid := by
  cases hs : o.orders.get? snap.clientOrderId with
  | none =>
    obtain ⟨a, heq⟩ := onUpdate_unknown hs
    rw [heq, emit_orders]
  | some known =>
    rcases (onUpdate_known hk hs).2 with ⟨-, -, -, version, heq, -⟩ | ⟨-, -, hsame | hset⟩
    · rw [heq, Dict.get?_set_ne _ _ hne.symm]
    · rw [hsame.2]
    · rw [hset.2, Dict.get?_set_ne _ _ hne.symm]

/-- A submission ended before the gate that counts as accepted is a duplicate. -/
theorem precheck_accepted {config : OmsConfig} {hasGate : Bool} {intent : OrderIntent}
    {quantity : Option ℤ} {result : SubmitResult}
    (h : o.precheck config hasGate intent quantity = .error result) (ha : result.accepted = true) :
    ∃ existing, o.orders.get? (config.clientOrderId intent.intentId) = some existing := by
  unfold precheck at h
  split at h
  · cases h
    cases ha
  split at h
  · cases h
    cases ha
  split at h
  · exact ⟨_, ‹_›⟩
  · dsimp only at h
    split at h
    · split at h
      · cases h
        cases ha
      · cases h
    · cases h

theorem sized_refused {qty : Option ℤ} {decision : GateResult} {result : SubmitResult}
    (h : sized qty decision = .error result) : result.accepted = false := by
  unfold sized at h
  split at h
  · cases h
    rfl
  · dsimp only at h
    split at h
    · cases h
    · cases h
      rfl

end OMS

namespace System

open BrokerStep (anyEnd)

variable {T : Type} (sys : System T) (coid : String)

/-! ## Placing an order -/

/-- What the broker holds under an id has not ended. -/
def RestsAt (w : Paper T) : Prop :=
  ∀ so, w.broker.find coid = some so → so.status.isTerminal = false

/-- A live order stands under an id at the desk. -/
structure LiveAt (w : Paper T) : Prop where
  keyed : w.desk.oms.Keyed
  live : w.desk.oms.LiveAt coid

theorem LiveAt.save {w : Paper T} (h : LiveAt coid w) : LiveAt coid (w.save sys.hooks) :=
  ⟨OMS.keyed_of_eq h.keyed rfl, h.live.of_get rfl⟩

/-- The broker tells the desk of a live order. -/
theorem LiveAt.notify {boid : String} {so : SimOrder} {w : Paper T} (h : LiveAt coid w)
    (hso : w.broker.orders.get? boid = some so) (hlive : so.status.isTerminal = false) :
    LiveAt coid (w.notify sys.hooks boid) := by
  have hsnap : so.snapshot.status.isTerminal = false := hlive
  rw [World.notify_of_get _ hso]
  exact ⟨(OMS.touched_onUpdate so.snapshot h.keyed).keyed h.keyed, h.live.onUpdate h.keyed hsnap⟩

theorem ends_placeOrder (now : Instant) (order : Order) :
    Effect.Ends (fun w => RestsAt order.clientOrderId w ∧ LiveAt coid w)
      (SimulatedBroker.placeOrder sys.env sys.hooks now order)
      (fun ack w => ack.status.isTerminal = false ∧ LiveAt coid w) (fun _ => LiveAt coid) := by
  unfold SimulatedBroker.placeOrder
  refine Effect.Moves.read fun w ⟨hrests, hlive⟩ => ?_
  cases hfind : w.broker.find order.clientOrderId with
  | some existing =>
    refine Effect.Moves.pure ?_
    rintro _ rfl
    exact ⟨hrests existing hfind, hlive⟩
  | none =>
    refine Effect.Moves.read ?_
    rintro _ rfl
    refine BrokerStep.moves_ofExcept (fun checked _ => ?_) fun _ _ _ h => h ▸ hlive
    refine BrokerStep.moves_ofExcept (fun reserved _ => ?_) fun _ _ _ h => h ▸ hlive
    have hsim : (sys.env.newSimOrder order reserved now w.broker).status.isTerminal = false := by
      unfold SimEnv.newSimOrder
      dsimp only
      split <;> rfl
    refine Effect.Moves.after (M := LiveAt coid) ?_ (Effect.Moves.pure fun _ h => ⟨hsim, h⟩)
    rintro _ rfl
    have haccepted : LiveAt coid (w.mapBroker fun b =>
        (b.accept (sys.env.newSimOrder order reserved now w.broker)).markDirty
          (sys.env.newSimOrder order reserved now w.broker).brokerOrderId) :=
      ⟨hlive.keyed, hlive.live⟩
    exact ⟨.single trivial,
      (haccepted.save sys coid).notify sys coid (Dict.get?_set_self _ _ _) hsim⟩

/-- The same of a call whose answer may be lost. -/
theorem ends_through (now : Instant) (order : Order) (delivery : Delivery) :
    Effect.Ends (fun w => RestsAt order.clientOrderId w ∧ LiveAt coid w)
      ((delivery.through (sys.adapter now)).placeOrder order)
      (fun ack w => ack.status.isTerminal = false ∧ LiveAt coid w) (fun _ => LiveAt coid) := by
  have hplace := ends_placeOrder sys coid now order
  cases delivery with
  | delivered => exact hplace
  | lost reached message =>
    cases reached with
    | true =>
      exact Effect.Moves.bind (Effect.Moves.attempt (U := fun _ => LiveAt coid) hplace
        (fun _ _ h => h.2) fun _ _ h => h) fun _ => Effect.Moves.throw fun _ h => h
    | false => exact Effect.Moves.throw fun _ h => h.2

/-- What an answer is worth: where it counts as accepted, a live order stands under the id. -/
def Stands (result : SubmitResult) (w : Paper T) : Prop :=
  result.accepted = true → w.desk.oms.LiveAt coid

theorem ends_place (now : Instant) (order : Order) (delivery : Delivery)
    (hnew : order.status.isTerminal = false) :
    Effect.Ends (fun w => RestsAt order.clientOrderId w ∧ w.desk.oms.Keyed)
      (OMS.place (delivery.through (sys.adapter now)) order) (Stands order.clientOrderId)
      anyEnd := by
  unfold OMS.place
  refine Effect.Moves.after
    (M := fun w => RestsAt order.clientOrderId w ∧ LiveAt order.clientOrderId w) ?_ ?_
  · rintro w ⟨hrests, hk⟩
    exact ⟨.single trivial, hrests, OMS.keyed_set hk (OMS.register_orders order _) rfl, order,
      Dict.get?_set_self _ _ _, hnew⟩
  refine Effect.Moves.bind (Effect.Moves.attempt
    (U := fun answer w => LiveAt order.clientOrderId w ∧
      ∀ ack, answer = .ok ack → ack.status.isTerminal = false)
    (ends_through sys order.clientOrderId now order delivery) ?_ ?_) ?_
  · rintro ack w ⟨hack, hlive⟩
    exact ⟨hlive, fun ack' h => by cases h; exact hack⟩
  · exact fun e w hlive => ⟨hlive, fun ack h => by cases h⟩
  rintro (exc | ack)
  · cases hexc : exc.notPlacedReason with
    | none =>
      refine Effect.Moves.after (M := fun w => w.desk.oms.LiveAt order.clientOrderId)
        (fun w hw => ⟨.single trivial, hw.1.live.placeFailed hexc⟩) ?_
      refine Effect.Moves.read fun w hw => ?_
      rw [hexc]
      exact Effect.Moves.pure fun _ h _ => h ▸ hw
    | some reason =>
      -- a refused order does not count as accepted
      refine Effect.Moves.after (M := fun _ => True) (fun w _ => ⟨.single trivial, trivial⟩) ?_
      refine Effect.Moves.read fun w _ => ?_
      rw [hexc]
      exact Effect.Moves.pure fun _ _ h => by cases h
  · refine Effect.Moves.after (M := fun w => w.desk.oms.LiveAt order.clientOrderId)
      (fun w hw => ⟨.single trivial, hw.1.live.placed hw.1.keyed (hw.2 ack rfl)⟩) ?_
    exact Effect.Moves.read fun _ hw => Effect.Moves.pure fun _ h _ => h ▸ hw

/-- Nothing that has ended stands under an id: neither with the OMS, nor, where the OMS
has nothing under it, with the broker. -/
structure Unspent (w : Paper T) : Prop where
  known : ∀ order, w.desk.oms.orders.get? coid = some order → order.status.isTerminal = false
  resting : w.desk.oms.orders.get? coid = none → RestsAt coid w

/-- The gate records its decisions and leaves the broker alone. -/
theorem ends_gate {coid : String} (gate : Gate) (intent : OrderIntent) (qty : Option ℤ)
    {w : Paper T} (hw : RestsAt coid w ∧ w.desk.oms.Keyed) :
    Effect.Ends (Eq w) (gate.asOrderGate intent qty)
      (fun _ w' => RestsAt coid w' ∧ w'.desk.oms.Keyed) anyEnd := by
  unfold Gate.asOrderGate
  refine Effect.Moves.read ?_
  rintro _ rfl
  refine Effect.Moves.after (M := fun w' => RestsAt coid w' ∧ w'.desk.oms.Keyed) ?_ ?_
  · rintro _ rfl
    exact ⟨.single trivial, hw.1, OMS.keyed_of_eq hw.2 rfl⟩
  · cases (gate w.desk.oms intent qty).result with
    | ok result => exact Effect.Moves.pure fun _ h => h
    | error e => exact Effect.Moves.throw fun _ _ => trivial

/-- A submission under an id that is not spent is answered with a live order, or with none. -/
theorem ends_submit (now brokerNow : Instant) (intent : OrderIntent) (quantity : Option ℤ)
    (gate : Gate) (delivery : Delivery) {w : Paper T} (hk : w.desk.oms.Keyed)
    (hunspent : Unspent (sys.config.clientOrderId intent.intentId) w) :
    Effect.Ends (Eq w)
      (OMS.submit sys.config (delivery.through (sys.adapter brokerNow)) (some gate.asOrderGate)
        now intent quantity) (Stands (sys.config.clientOrderId intent.intentId)) anyEnd := by
  unfold OMS.submit
  refine Effect.Moves.read ?_
  rintro _ rfl
  cases hchecked : w.desk.oms.precheck sys.config (some (gate.asOrderGate (B := SimulatedBroker)
      (T := T))).isSome intent quantity with
  | error result =>
    refine Effect.Moves.pure ?_
    rintro _ rfl haccepted
    obtain ⟨existing, hexisting⟩ := OMS.precheck_accepted hchecked haccepted
    exact ⟨existing, hexisting, hunspent.known existing hexisting⟩
  | ok qty =>
    obtain ⟨-, hfresh, -⟩ := OMS.precheck_spec hchecked
    refine Effect.Moves.bind (Q := fun _ w' =>
      RestsAt (sys.config.clientOrderId intent.intentId) w' ∧ w'.desk.oms.Keyed)
      (ends_gate gate intent qty ⟨hunspent.resting hfresh, hk⟩) fun decision => ?_
    cases hsized : OMS.sized qty decision with
    | error result =>
      refine Effect.Moves.pure fun _ _ haccepted => ?_
      rw [OMS.sized_refused hsized] at haccepted
      cases haccepted
    | ok q => exact ends_place sys brokerNow (OMS.newOrder sys.config intent q now) delivery rfl

/-! ## Cancelling another order -/

/-- The broker's order of the order that is cancelled is not the one under an id. -/
def Spares (cancelled : String) (w : Paper T) : Prop :=
  ∀ known boid, w.desk.oms.orders.get? cancelled = some known → known.brokerOrderId = some boid →
    w.broker.byTag.get? coid ≠ some boid ∧
      ∀ so, w.broker.orders.get? boid = some so → so.clientOrderId ≠ coid

/-- What stands under an id is as it was, with the OMS and with the broker. -/
structure Untouched (w w' : Paper T) : Prop where
  keyed : w'.desk.oms.Keyed
  known : w'.desk.oms.orders.get? coid = w.desk.oms.orders.get? coid
  found : w'.broker.find coid = w.broker.find coid

theorem Unspent.untouched {coid : String} {w w' : Paper T} (h : Unspent coid w)
    (hsame : Untouched coid w w') : Unspent coid w' := by
  refine ⟨hsame.known ▸ h.known, fun hnone so hso => ?_⟩
  rw [hsame.known] at hnone
  rw [hsame.found] at hso
  exact h.resting hnone so hso

theorem Untouched.save {w w' : Paper T} (h : Untouched coid w w') :
    Untouched coid w (w'.save sys.hooks) :=
  ⟨OMS.keyed_of_eq h.keyed rfl, h.known, h.found⟩

theorem Untouched.finish {boid : String} {so : SimOrder} {w : Paper T} (hk : w.desk.oms.Keyed)
    (hso : w.broker.orders.get? boid = some so) (htag : w.broker.byTag.get? coid ≠ some boid)
    (hid : so.clientOrderId ≠ coid) (status : OrderStatus) (message : String) (ts : Instant) :
    Untouched coid w (w.finish sys.hooks boid status message ts) := by
  have hended : (w.broker.finish boid status message ts).orders.get? boid =
      some { so with status := status, message := message, updatedAt := ts, reserved := 0 } := by
    rw [SimulatedBroker.finish_of_get _ _ _ hso]
    exact Dict.get?_set_self _ _ _
  have hfinish : w.finish sys.hooks boid status message ts = _ :=
    World.notify_of_get sys.hooks hended
  rw [hfinish]
  refine ⟨(OMS.touched_onUpdate _ hk).keyed hk, OMS.onUpdate_other hk hid, ?_⟩
  show ((w.broker.finish boid status message ts).byTag.get? coid).bind
    (w.broker.finish boid status message ts).orders.get? = _
  rw [SimulatedBroker.finish_of_get _ _ _ hso, SimulatedBroker.find]
  dsimp only
  cases hboid : w.broker.byTag.get? coid with
  | none => rfl
  | some k =>
    have hne : k ≠ boid := by
      rintro rfl
      exact htag hboid
    rw [Option.bind_some, Option.bind_some, Dict.get?_set_ne _ _ hne]

/-- A cancel of another order leaves what stands under an id as it was. -/
theorem ends_cancel (now : Instant) (cancelled : String) {w : Paper T} (hk : w.desk.oms.Keyed)
    (hspares : Spares coid cancelled w) :
    Effect.Ends (Eq w) (OMS.cancel (sys.adapter now) cancelled)
      (fun _ => Untouched coid w) (fun _ => Untouched coid w) := by
  have hsame : ∀ w', w = w' → Untouched coid w w' := by
    rintro _ rfl
    exact ⟨hk, rfl, rfl⟩
  unfold OMS.cancel
  refine Effect.Moves.read ?_
  rintro _ rfl
  split
  · exact Effect.Moves.pure hsame
  rename_i known hknown
  split
  · rename_i boid _ hboid
    refine Effect.Moves.bind (Q := fun _ => Untouched coid w) ?_
      fun _ => Effect.Moves.pure fun _ h => h
    obtain ⟨htag, hids⟩ := hspares known boid hknown hboid
    show Effect.Ends (Eq w) (SimulatedBroker.cancelOrder sys.hooks now boid) _ _
    unfold SimulatedBroker.cancelOrder
    refine BrokerStep.moves_order (fun w' so hw' hso => ?_) hsame
    subst hw'
    have hrest : Effect.Ends (Untouched coid w)
        (SimulatedBroker.getOrder boid >>= fun o => pure (SimulatedBroker.ack o "") :
          EStateM Exc (Paper T) BrokerAck) (fun _ => Untouched coid w)
        (fun _ => Untouched coid w) :=
      BrokerStep.moves_order (fun _ _ h _ => Effect.Moves.pure fun _ heq => heq ▸ h) fun _ h => h
    split
    · refine Effect.Moves.after (M := Untouched coid w) ?_
        (Effect.Moves.after (M := Untouched coid w)
          (fun _ h => ⟨.single trivial, h.save sys coid⟩) hrest)
      rintro _ rfl
      exact ⟨.single trivial, .finish sys coid hk hso htag (hids so hso) _ _ _⟩
    · exact hrest.conseq hsame (fun _ _ h => h) fun _ _ h => h
  · exact Effect.Moves.pure hsame

end System

end RakshaQuant
