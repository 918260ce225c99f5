import RakshaQuant.Brokers.Simulated.Delivery
import RakshaQuant.Brokers.Simulated.Restart

/-! What `modify_order` does, case by case. A call that is refused leaves everything as it
was, unless its trigger was accepted before its quantity was refused: the new trigger stays.
A call that is accepted is checked against the lot and the tick, and against nothing else
that the broker asks of a new order. -/

namespace RakshaQuant

namespace SimOrder

/-- The trigger is refused: only a stop has one, and it is on the tick. -/
def refusesTrigger (o : SimOrder) (instrument : Instrument) (trigger : Option ℚ) : Prop :=
  ∃ t ∈ trigger, o.orderType ≠ .slM ∨ onTick t instrument.tickSize = false

/-- The quantity is refused: it covers what is filled, in whole lots. -/
def refusesQty (o : SimOrder) (instrument : Instrument) (qty : Option ℤ) : Prop :=
  ∃ q ∈ qty, q < o.filledQty ∨ q ≤ 0 ∨ q % instrument.lotSize ≠ 0

/-- The order with a new trigger, if one is given. -/
def withTrigger (o : SimOrder) (trigger : Option ℚ) : SimOrder :=
  { o with triggerPrice := trigger.or o.triggerPrice }

/-- The order with a new quantity, if one is given. -/
def withQty (o : SimOrder) (qty : Option ℤ) : SimOrder := { o with quantity := qty.getD o.quantity }

/-- The order as a call that is accepted leaves it. -/
def amended (o : SimOrder) (qty : Option ℤ) (trigger : Option ℚ) (now : Instant) : SimOrder :=
  { (o.withTrigger trigger).withQty qty with updatedAt := now }

end SimOrder

namespace SimulatedBroker

def setOrder (boid : String) (o : SimOrder) (b : SimulatedBroker) : SimulatedBroker :=
  { b with orders := b.orders.set boid o }

theorem mapOrder_of_get {boid : String} {so : SimOrder} {b : SimulatedBroker}
    (f : SimOrder → SimOrder) (h : b.orders.get? boid = some so) :
    b.mapOrder boid f = b.setOrder boid (f so) := by
  rw [mapOrder, h]
  rfl

theorem setOrder_self {boid : String} {so : SimOrder} {b : SimulatedBroker}
    (h : b.orders.get? boid = some so) : b.setOrder boid so = b := by
  rw [setOrder, Dict.set_of_get h]

@[simp] theorem get?_setOrder (boid : String) (so : SimOrder) (b : SimulatedBroker) :
    (b.setOrder boid so).orders.get? boid = some so :=
  Dict.get?_set_self _ _ _

@[simp] theorem setOrder_setOrder (boid : String) (so so' : SimOrder) (b : SimulatedBroker) :
    (b.setOrder boid so).setOrder boid so' = b.setOrder boid so' := by
  rw [setOrder, setOrder, Dict.set_set]
  rfl

section calls

variable {S : Type} {env : SimEnv} {hooks : Hooks S} {w : World SimulatedBroker S}
  {boid : String} {so : SimOrder} {instrument : Instrument} {qty : Option ℤ}
  {price trigger : Option ℚ} {now : Instant}

/-- The call comes to the quantity: the order is live, and the trigger is accepted. -/
structure Accepts (env : SimEnv) (b : SimulatedBroker) (boid : String) (price trigger : Option ℚ)
    (so : SimOrder) (instrument : Instrument) : Prop where
  held : b.orders.get? boid = some so
  live : so.status.isLive = true
  noPrice : price = none
  known : env.instruments.get? so.instrumentKey = some instrument
  trigger : ¬so.refusesTrigger instrument trigger

theorem Accepts.unique {so' : SimOrder} {instrument' : Instrument}
    (h : Accepts env w.broker boid price trigger so instrument)
    (h' : Accepts env w.broker boid price trigger so' instrument') :
    so = so' ∧ instrument = instrument' := by
  obtain rfl := Option.some.inj (h.held.symm.trans h'.held)
  exact ⟨rfl, Option.some.inj (h.known.symm.trans h'.known)⟩

/-- The checks of the quantity alone. -/
theorem change_qty (held : w.broker.orders.get? boid = some so) (c : SimOrder)
    (hfilled : c.filledQty = so.filledQty) (instrument : Instrument) (qty : Option ℤ) :
    (so.refusesQty instrument qty → ∃ e, change boid c instrument qty none w = .error e w) ∧
    (¬so.refusesQty instrument qty → change boid c instrument qty none w =
      .ok ⟨⟩ (w.mapBroker (setOrder boid (so.withQty qty)))) := by
  unfold change
  cases qty with
  | none =>
    constructor
    · rintro ⟨q, hq, -⟩
      cases hq
    · intro _
      have hsame : w.broker.setOrder boid (so.withQty none) = w.broker := setOrder_self held
      show EStateM.Result.ok PUnit.unit w = _
      rw [World.mapBroker, hsame]
  | some q =>
    have hiff : so.refusesQty instrument (some q) ↔
        q < c.filledQty ∨ q ≤ 0 ∨ q % instrument.lotSize ≠ 0 := by
      simp [SimOrder.refusesQty, hfilled]
    rw [hiff]
    constructor
    · intro h
      dsimp only
      rw [if_pos h]
      exact ⟨_, rfl⟩
    · intro h
      dsimp only
      rw [if_neg h]
      have hmap := mapOrder_of_get (fun o => { o with quantity := q }) held
      show EStateM.Result.ok PUnit.unit (w.mapBroker (mapOrder boid _)) = _
      rw [World.mapBroker, World.mapBroker, hmap]
      rfl

theorem change_of_refusesTrigger (boid : String) (qty : Option ℤ) (w : World SimulatedBroker S)
    (h : so.refusesTrigger instrument trigger) :
    ∃ e, change boid so instrument qty trigger w = .error e w := by
  obtain ⟨t, rfl, ht⟩ := h
  unfold change
  dsimp only
  by_cases htype : so.orderType ≠ .slM
  · rw [if_pos htype]
    exact ⟨_, rfl⟩
  · rw [if_neg htype]
    have htick : onTick t instrument.tickSize = false := ht.resolve_left htype
    rw [htick, if_pos (by rfl)]
    exact ⟨_, rfl⟩

/-- An accepted trigger is set before the quantity is looked at. -/
theorem change_of_trigger (qty : Option ℤ) (held : w.broker.orders.get? boid = some so)
    (h : ¬so.refusesTrigger instrument trigger) :
    change boid so instrument qty trigger w = change boid so instrument qty none
      (w.mapBroker (setOrder boid (so.withTrigger trigger))) := by
  cases trigger with
  | none =>
    have hsame : w.broker.setOrder boid (so.withTrigger none) = w.broker := setOrder_self held
    rw [World.mapBroker, hsame]
  | some t =>
    have htype : ¬so.orderType ≠ .slM := fun htype => h ⟨t, rfl, .inl htype⟩
    have htick : onTick t instrument.tickSize = true := by
      cases ht : onTick t instrument.tickSize with
      | true => rfl
      | false => exact absurd ⟨t, rfl, .inr ht⟩ h
    have hmap := mapOrder_of_get (fun o => { o with triggerPrice := some t }) held
    unfold change
    dsimp only
    rw [if_neg htype, htick, if_neg (by simp), Effect.run_bind_ok (Effect.run_modify _ _),
      World.mapBroker, hmap]
    rfl

/-- Everything the call changes once it is accepted. -/
def amendedWorld (hooks : Hooks S) (boid : String) (c : SimOrder) (now : Instant)
    (w : World SimulatedBroker S) : World SimulatedBroker S :=
  let set := w.mapBroker (setOrder boid c)
  let ended := if c.remaining = 0 then set.finish hooks boid .filled "" now else set
  ((ended.mapBroker (markDirty boid)).save hooks).notify hooks boid

theorem getOrder_held (h : w.broker.orders.get? boid = some so) : getOrder boid w = .ok so w :=
  BrokerStep.heldOrder_some h

theorem order_held (h : w.broker.orders.get? boid = some so) : order boid w = .ok so w :=
  BrokerStep.heldOrder_some h

theorem modifyOrder_of_accepts (h : Accepts env w.broker boid price trigger so instrument) :
    modifyOrder env hooks now boid qty price trigger w =
      (do
        change boid so instrument qty trigger
        modify (World.mapBroker (mapOrder boid fun o => { o with updatedAt := now }))
        if (← order boid).remaining = 0 then modify (World.finish hooks boid .filled "" now)
        modify fun w => ((w.mapBroker (markDirty boid)).save hooks).notify hooks boid
        return ack (← order boid) "modified" :
        EStateM Exc (World SimulatedBroker S) BrokerAck) w := by
  have hlive : (!so.status.isLive) ≠ true := by simp [h.live]
  unfold modifyOrder
  rw [Effect.run_bind_ok (getOrder_held h.held), if_neg hlive, h.noPrice,
    if_neg (by simp), h.known]

/-- A call that does not come to the quantity changes nothing. -/
theorem modifyOrder_of_not_accepts (env : SimEnv) (hooks : Hooks S) (now : Instant)
    (boid : String) (qty : Option ℤ) (price trigger : Option ℚ) (w : World SimulatedBroker S)
    (h : ∀ so instrument, ¬Accepts env w.broker boid price trigger so instrument) :
    ∃ e, modifyOrder env hooks now boid qty price trigger w = .error e w := by
  cases hso : w.broker.orders.get? boid with
  | none =>
    have hget : getOrder boid w = .error (SimEnv.invalid ("unknown order " ++ boid)) w :=
      BrokerStep.heldOrder_none hso
    unfold modifyOrder
    exact ⟨_, Effect.run_bind_error hget⟩
  | some so =>
    by_cases hlive : so.status.isLive = true
    · cases hprice : price with
      | some p =>
        unfold modifyOrder
        rw [Effect.run_bind_ok (getOrder_held hso), if_neg (by simp [hlive]),
          if_pos (by rfl)]
        exact ⟨_, rfl⟩
      | none =>
        cases hknown : env.instruments.get? so.instrumentKey with
        | none =>
          unfold modifyOrder
          rw [Effect.run_bind_ok (getOrder_held hso), if_neg (by simp [hlive]),
            if_neg (by simp), hknown]
          exact ⟨_, rfl⟩
        | some instrument =>
          have hrefused : so.refusesTrigger instrument trigger := by
            by_contra hno
            exact h so instrument ⟨hso, hlive, hprice, hknown, hno⟩
          obtain ⟨e, he⟩ := change_of_refusesTrigger boid qty w hrefused
          unfold modifyOrder
          rw [Effect.run_bind_ok (getOrder_held hso), if_neg (by simp [hlive]),
            if_neg (by simp), hknown]
          exact ⟨e, Effect.run_bind_error he⟩
    · unfold modifyOrder
      rw [Effect.run_bind_ok (getOrder_held hso), if_pos (by simp [hlive])]
      exact ⟨_, rfl⟩

/-- A quantity that is refused leaves the new trigger behind. -/
theorem modifyOrder_of_refusesQty (hooks : Hooks S) (now : Instant)
    (h : Accepts env w.broker boid price trigger so instrument)
    (hqty : so.refusesQty instrument qty) :
    ∃ e, modifyOrder env hooks now boid qty price trigger w =
      .error e (w.mapBroker (setOrder boid (so.withTrigger trigger))) := by
  have hheld : (w.mapBroker (setOrder boid (so.withTrigger trigger))).broker.orders.get? boid =
      some (so.withTrigger trigger) := get?_setOrder ..
  obtain ⟨e, he⟩ := (change_qty hheld so rfl instrument qty).1 hqty
  rw [modifyOrder_of_accepts h]
  exact ⟨e, Effect.run_bind_error ((change_of_trigger qty h.held h.trigger).trans he)⟩

/-- A call that is accepted amends the order, and ends it when nothing remains. -/
theorem modifyOrder_of_accepted (hooks : Hooks S) (now : Instant)
    (h : Accepts env w.broker boid price trigger so instrument)
    (hqty : ¬so.refusesQty instrument qty) :
    ∃ a, modifyOrder env hooks now boid qty price trigger w =
      .ok a (amendedWorld hooks boid (so.amended qty trigger now) now w) := by
  have hheld : (w.mapBroker (setOrder boid (so.withTrigger trigger))).broker.orders.get? boid =
      some (so.withTrigger trigger) := get?_setOrder ..
  have hchange := (change_of_trigger qty h.held h.trigger).trans
    ((change_qty hheld so rfl instrument qty).2 hqty)
  -- trigger, quantity and time are written one after another, to the amended order
  have hset : ((w.mapBroker (setOrder boid (so.withTrigger trigger))).mapBroker
      (setOrder boid ((so.withTrigger trigger).withQty qty))).mapBroker
        (mapOrder boid fun o => { o with updatedAt := now }) =
      w.mapBroker (setOrder boid (so.amended qty trigger now)) := by
    have hmap := mapOrder_of_get (fun o => { o with updatedAt := now })
      (get?_setOrder boid ((so.withTrigger trigger).withQty qty)
        (w.broker.setOrder boid (so.withTrigger trigger)))
    simp only [World.mapBroker, hmap]
    simp only [setOrder_setOrder]
    rfl
  have hend : ∀ v : World SimulatedBroker S, (∃ c, v.broker.orders.get? boid = some c) → ∃ a,
      (do
        modify fun w => ((w.mapBroker (markDirty boid)).save hooks).notify hooks boid
        return ack (← order boid) "modified" : EStateM Exc (World SimulatedBroker S) BrokerAck) v =
      .ok a (((v.mapBroker (markDirty boid)).save hooks).notify hooks boid) := by
    rintro v ⟨c, hc⟩
    have hkept : (((v.mapBroker (markDirty boid)).save hooks).notify hooks boid).broker.orders.get?
        boid = some c := by
      rw [World.notify_orders]
      exact hc
    rw [Effect.run_bind_ok (Effect.run_modify _ _), Effect.run_bind_ok (order_held hkept)]
    exact ⟨_, rfl⟩
  rw [modifyOrder_of_accepts h, Effect.run_bind_ok hchange,
    Effect.run_bind_ok (Effect.run_modify _ _), hset]
  generalize hc : so.amended qty trigger now = c
  have hc' : (w.mapBroker (setOrder boid c)).broker.orders.get? boid = some c := get?_setOrder ..
  rw [Effect.run_bind_ok (order_held hc'), amendedWorld]
  by_cases hremaining : c.remaining = 0
  · rw [if_pos hremaining, if_pos hremaining, Effect.run_bind_ok (Effect.run_modify _ _)]
    apply hend
    unfold World.finish
    rw [World.notify_orders]
    exact ⟨_, by
      show ((w.broker.setOrder boid c).finish boid .filled "" now).orders.get? boid = _
      rw [finish_of_get _ _ _ (get?_setOrder ..)]
      exact Dict.get?_set_self _ _ _⟩
  · rw [if_neg hremaining, if_neg hremaining]
    exact hend _ ⟨c, hc'⟩

/-- **The three outcomes.** What holds before the call, where it leaves a new trigger behind and
where it is accepted, holds after it. -/
theorem modifyOrder_cases (hooks : Hooks S) {P : World SimulatedBroker S → Prop} (refused : P w)
    (half : ∀ so instrument, Accepts env w.broker boid price trigger so instrument →
      so.refusesQty instrument qty → P (w.mapBroker (setOrder boid (so.withTrigger trigger))))
    (accepted : ∀ so instrument, Accepts env w.broker boid price trigger so instrument →
      ¬so.refusesQty instrument qty →
        P (amendedWorld hooks boid (so.amended qty trigger now) now w)) :
    P (modifyOrder env hooks now boid qty price trigger w).state := by
  by_cases hcall : ∃ so instrument, Accepts env w.broker boid price trigger so instrument
  · obtain ⟨so, instrument, haccepts⟩ := hcall
    by_cases hqty : so.refusesQty instrument qty
    · obtain ⟨e, he⟩ := modifyOrder_of_refusesQty hooks now haccepts hqty
      rw [he]
      exact half so instrument haccepts hqty
    · obtain ⟨a, ha⟩ := modifyOrder_of_accepted hooks now haccepts hqty
      rw [ha]
      exact accepted so instrument haccepts hqty
  · obtain ⟨e, he⟩ := modifyOrder_of_not_accepts env hooks now boid qty price trigger w
      fun so instrument h => hcall ⟨so, instrument, h⟩
    rw [he]
    exact refused

end calls

end SimulatedBroker

end RakshaQuant
