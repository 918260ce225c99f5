import RakshaQuant.Brokers.Simulated.Modify

/-! When `modify_order` is atomic and its result is an order the broker would take. -/

namespace RakshaQuant

namespace SimulatedBroker

variable {S : Type} {env : SimEnv} {hooks : Hooks S} {w : World SimulatedBroker S}
  {boid : String} {so : SimOrder} {instrument : Instrument} {qty : Option ℤ}
  {price trigger : Option ℚ} {now : Instant}

/-- A trigger at or through the band around the previous close. -/
def OutOfBand (env : SimEnv) (b : SimulatedBroker) (instrumentKey : String) (t : ℚ) : Prop :=
  ∃ instrument quote band prevClose, env.instruments.get? instrumentKey = some instrument ∧
    b.quotes.get? instrumentKey = some quote ∧ instrument.bandPct = some band ∧
    quote.prevClose = some prevClose ∧ beyondBand band prevClose t = true

/-- What the shares of a buy that remain would reserve is reserved or free. -/
def Affords (env : SimEnv) (b : SimulatedBroker) (o : SimOrder) (remaining : ℤ) : Prop :=
  ∃ quote needed, b.quotes.get? o.instrumentKey = some quote ∧
    env.buyReservation o.product quote.ltp remaining = .ok needed ∧
    needed ≤ o.reserved + b.available

/-- An amended order is one that the broker would take in that state. -/
structure Placeable (env : SimEnv) (b : SimulatedBroker) (before after : SimOrder) : Prop where
  covered : after.side = .buy → before.quantity < after.quantity →
    Affords env b after after.remaining
  held : after.product = .cnc → after.side = .sell →
    b.pendingSales after.instrumentKey ≤ max 0 (b.core.quantity after.instrumentKey .cnc)
  onTick : ∀ t ∈ after.triggerPrice, ∀ instrument,
    env.instruments.get? after.instrumentKey = some instrument →
    onTick t instrument.tickSize = true
  inBand : ∀ t ∈ after.triggerPrice, ¬OutOfBand env b after.instrumentKey t

/-- A call raises and leaves everything as it was, or leaves an order the broker would take. -/
structure Atomic (env : SimEnv) (boid : String) (w : World SimulatedBroker S)
    (r : EStateM.Result Exc (World SimulatedBroker S) BrokerAck) : Prop where
  refused : ∀ e w', r = .error e w' → w' = w
  accepted : ∀ a w', r = .ok a w' → ∃ before after, w.broker.orders.get? boid = some before ∧
    w'.broker.orders.get? boid = some after ∧ Placeable env w'.broker before after

/-- The new terms of an order are ones the broker would take: what a larger buy needs is
there, a larger sale is of shares that are held and not for sale yet, and the trigger is
inside the band. -/
structure Allowed (env : SimEnv) (b : SimulatedBroker) (so : SimOrder) (qty : Option ℤ)
    (trigger : Option ℚ) : Prop where
  covered : so.side = .buy → so.quantity < qty.getD so.quantity →
    Affords env b so (qty.getD so.quantity - so.filledQty)
  held : so.product = .cnc → so.side = .sell →
    qty.getD so.quantity - so.quantity ≤ b.availableToSell so.instrumentKey
  inBand : ∀ t ∈ trigger.or so.triggerPrice, ¬OutOfBand env b so.instrumentKey t

/-- The calls that meet what the broker does not check: no new trigger comes with a quantity
that is refused, and new terms are allowed. -/
def Amendable (env : SimEnv) (b : SimulatedBroker) (boid : String) (qty : Option ℤ)
    (price trigger : Option ℚ) : Prop :=
  ∀ so instrument, Accepts env b boid price trigger so instrument →
    (so.refusesQty instrument qty → trigger.or so.triggerPrice = so.triggerPrice) ∧
    (¬so.refusesQty instrument qty → Allowed env b so qty trigger)

/-! ## What an accepted call leaves -/

/-- The order at the end of an accepted call. -/
def settled (c : SimOrder) (now : Instant) : SimOrder :=
  if c.remaining = 0 then
    { c with status := .filled, message := "", updatedAt := now, reserved := 0 }
  else c

theorem settled_terms (c : SimOrder) (now : Instant) :
    (settled c now).side = c.side ∧ (settled c now).quantity = c.quantity ∧
      (settled c now).product = c.product ∧ (settled c now).instrumentKey = c.instrumentKey ∧
      (settled c now).triggerPrice = c.triggerPrice ∧ (settled c now).filledQty = c.filledQty := by
  unfold settled
  split <;> exact ⟨rfl, rfl, rfl, rfl, rfl, rfl⟩

/-- The broker at the end: one order is set, and what it reserved is free if it ended. -/
theorem amendedWorld_broker (hooks : Hooks S) (boid : String) (c : SimOrder) (now : Instant)
    (w : World SimulatedBroker S) :
    (amendedWorld hooks boid c now w).broker.orders = w.broker.orders.set boid (settled c now) ∧
    (amendedWorld hooks boid c now w).broker.quotes = w.broker.quotes ∧
    (amendedWorld hooks boid c now w).broker.fills = w.broker.fills ∧
    (amendedWorld hooks boid c now w).broker.byTag = w.broker.byTag ∧
    (amendedWorld hooks boid c now w).broker.core =
      { w.broker.core with blocked := w.broker.core.blocked - c.reserved +
        (settled c now).reserved } := by
  have hquotes : ∀ v : World SimulatedBroker S, (v.notify hooks boid).broker.quotes =
      v.broker.quotes := by
    intro v
    unfold World.notify
    split <;> rfl
  unfold amendedWorld settled
  dsimp only
  rw [World.notify_orders, World.notify_fills, World.notify_byTag, World.notify_core, hquotes]
  -- with nothing left to fill the amended order is finished at once
  by_cases hremaining : c.remaining = 0
  · rw [if_pos hremaining, if_pos hremaining]
    unfold World.finish
    have hfinish := finish_of_get .filled "" now (get?_setOrder boid c w.broker)
    refine ⟨?_, ?_, ?_, ?_, ?_⟩
    · show ((w.mapBroker (setOrder boid c)).mapBroker
        (SimulatedBroker.finish boid .filled "" now) |>.notify hooks boid).broker.orders = _
      rw [World.notify_orders]
      show ((w.broker.setOrder boid c).finish boid .filled "" now).orders = _
      rw [hfinish]
      exact Dict.set_set _ _ _ _
    · show ((w.mapBroker (setOrder boid c)).mapBroker
        (SimulatedBroker.finish boid .filled "" now) |>.notify hooks boid).broker.quotes = _
      rw [hquotes]
      show ((w.broker.setOrder boid c).finish boid .filled "" now).quotes = _
      rw [hfinish]
      rfl
    · show ((w.mapBroker (setOrder boid c)).mapBroker
        (SimulatedBroker.finish boid .filled "" now) |>.notify hooks boid).broker.fills = _
      rw [World.notify_fills]
      show ((w.broker.setOrder boid c).finish boid .filled "" now).fills = _
      rw [hfinish]
      rfl
    · show ((w.mapBroker (setOrder boid c)).mapBroker
        (SimulatedBroker.finish boid .filled "" now) |>.notify hooks boid).broker.byTag = _
      rw [World.notify_byTag]
      show ((w.broker.setOrder boid c).finish boid .filled "" now).byTag = _
      rw [hfinish]
      rfl
    · show ((w.mapBroker (setOrder boid c)).mapBroker
        (SimulatedBroker.finish boid .filled "" now) |>.notify hooks boid).broker.core = _
      rw [World.notify_core]
      show ((w.broker.setOrder boid c).finish boid .filled "" now).core = _
      rw [hfinish]
      simp [setOrder]
  · rw [if_neg hremaining, if_neg hremaining]
    refine ⟨rfl, rfl, rfl, rfl, ?_⟩
    rw [sub_add_cancel]
    rfl

/-! ## Triggers -/

/-- Every trigger is on the tick of its instrument. -/
def TriggersOnTick (env : SimEnv) (b : SimulatedBroker) : Prop :=
  ∀ boid so, b.orders.get? boid = some so → ∀ t ∈ so.triggerPrice, ∀ instrument,
    env.instruments.get? so.instrumentKey = some instrument → onTick t instrument.tickSize = true

theorem TriggersOnTick.set {b b' : SimulatedBroker} (h : TriggersOnTick env b) {boid : String}
    {c : SimOrder} (horders : b'.orders = b.orders.set boid c)
    (hc : ∀ t ∈ c.triggerPrice, ∀ instrument, env.instruments.get? c.instrumentKey =
      some instrument → onTick t instrument.tickSize = true) : TriggersOnTick env b' := by
  intro k o ho
  rw [horders, Dict.get?_set_iff] at ho
  rcases ho with ⟨-, rfl⟩ | ⟨-, hold⟩
  · exact hc
  · exact h k o hold

/-- What is placed with a trigger has passed the check of its tick. -/
theorem validate_trigger {order : Order} {b : SimulatedBroker} {checked : Instrument × Quote}
    (h : env.validate order now b = .ok checked) {t : ℚ} (ht : t ∈ order.intent.triggerPrice)
    {instrument : Instrument}
    (hknown : env.instruments.get? order.intent.instrument.key = some instrument) :
    onTick t instrument.tickSize = true := by
  unfold SimEnv.validate at h
  dsimp only at h
  obtain ⟨-, h⟩ := Effect.passes h
  obtain ⟨-, h⟩ := Effect.passes h
  rw [hknown] at h
  obtain ⟨-, h⟩ := Effect.passes h
  split at h
  case h_3 => cases h
  all_goals
    rw [pure_bind] at h
    obtain ⟨-, h⟩ := Effect.passes h
    obtain ⟨-, h⟩ := Effect.passes h
    cases hq : b.quotes.get? instrument.key with
    | none =>
      rw [hq] at h
      cases h
    | some quote =>
      rw [hq] at h
      obtain ⟨htick, -⟩ := Effect.passes h
      rw [Option.mem_def] at ht
      rw [ht, Option.any_some, Bool.not_eq_true', Bool.not_eq_false] at htick
      exact htick

/-- **The step lemma.** -/
theorem TriggersOnTick.step {good : SimCore → Fill → Bool}
    {Asked : World SimulatedBroker S → Order → Prop} {w' : World SimulatedBroker S}
    (h : TriggersOnTick env w.broker) (hstep : BrokerStep env hooks good Asked w w') :
    TriggersOnTick env w'.broker := by
  cases hstep with
  | settled today =>
    obtain ⟨cash, unsettled, heq, -⟩ := w.broker.settle_spec today
    show TriggersOnTick env (w.broker.settle today)
    rw [heq]
    exact h
  | observed => exact h
  | counted boid =>
    show TriggersOnTick env (w.broker.countQuote boid)
    cases hso : w.broker.orders.get? boid with
    | none =>
      rw [countQuote_of_none hso]
      exact h
    | some so =>
      rw [countQuote_of_get hso]
      exact h.set rfl (h boid so hso)
  | @triggered boid so ts held =>
    have horders : ((w.mapBroker (SimulatedBroker.trigger boid ts)).notify hooks boid).broker.orders =
        w.broker.orders.set boid { so with status := .open, updatedAt := ts } := by
      rw [World.notify_orders]
      show (w.broker.trigger boid ts).orders = _
      rw [trigger_of_get ts held]
    exact h.set horders (h boid so held)
  | @finished boid so status message ts held =>
    have horders : (w.finish hooks boid status message ts).broker.orders = w.broker.orders.set boid
        { so with status := status, message := message, updatedAt := ts, reserved := 0 } := by
      unfold World.finish
      rw [World.notify_orders]
      show (w.broker.finish boid status message ts).orders = _
      rw [finish_of_get status message ts held]
    exact h.set horders (h boid so held)
  | @filled boid so _ _ _ _ _ s dpDay held =>
    obtain ⟨blocked, hbooked, -⟩ := bookFill_eq boid so s dpDay _ w.broker
    obtain ⟨-, -, hkey, -, -, -, htrigger, -⟩ := so.afterFill_same s _
    refine h.set (by rw [hbooked]) ?_
    rw [hkey, htrigger]
    exact h boid so held
  | @renotified boid =>
    intro k o ho
    rw [World.notify_orders] at ho
    exact h k o ho
  | @accepted order checked reserved now _ _ valid =>
    intro k o ho
    rw [World.notify_orders] at ho
    have hset : (w.broker.accept (env.newSimOrder order reserved now w.broker)).orders.get? k =
        some o := ho
    rcases (Dict.get?_set_iff _).mp hset with ⟨-, rfl⟩ | ⟨-, hold⟩
    · exact fun t ht instrument hknown => validate_trigger valid ht hknown
    · exact h k o hold
  | saved => exact h

/-- An order with the trigger of a call that comes to the quantity. -/
theorem Accepts.onTick (h : Accepts env w.broker boid price trigger so instrument)
    (hticks : TriggersOnTick env w.broker) :
    ∀ t ∈ trigger.or so.triggerPrice, ∀ i, env.instruments.get? so.instrumentKey = some i →
      RakshaQuant.onTick t i.tickSize = true := by
  intro t ht i hi
  obtain rfl : instrument = i := Option.some.inj (h.known.symm.trans hi)
  cases trigger with
  | none => exact hticks boid so h.held t ht instrument hi
  | some t' =>
    obtain rfl : t' = t := by simpa using ht
    by_contra hoff
    exact h.trigger ⟨t', rfl, .inr (by simpa using hoff)⟩

/-- What a call that comes to the quantity leaves: one order is rewritten, if any. -/
theorem TriggersOnTick.modify (h : TriggersOnTick env w.broker) :
    TriggersOnTick env (modifyOrder env hooks now boid qty price trigger w).state.broker := by
  refine modifyOrder_cases hooks (P := fun w' => TriggersOnTick env w'.broker) h ?_ ?_
  · intro so instrument haccepts _
    exact h.set (c := so.withTrigger trigger) rfl (haccepts.onTick h)
  · intro so instrument haccepts _
    obtain ⟨-, -, -, hkey, htrigger, -⟩ := settled_terms (so.amended qty trigger now) now
    refine h.set (amendedWorld_broker hooks boid (so.amended qty trigger now) now w).1 ?_
    rw [hkey, htrigger]
    exact haccepts.onTick h

/-! ## When a call is atomic -/

/-- What a delivery sale claims after a call that is accepted. -/
theorem claims_settled (hlive : so.status.isLive = true) (qty : Option ℤ) (trigger : Option ℚ)
    (now : Instant) (instrumentKey : String) :
    (settled (so.amended qty trigger now) now).claims instrumentKey - so.claims instrumentKey =
      if so.instrumentKey = instrumentKey ∧ so.product = .cnc ∧ so.side = .sell then
        qty.getD so.quantity - so.quantity else 0 := by
  obtain ⟨hside, hquantity, hproduct, hkey, -, hfilled⟩ :=
    settled_terms (so.amended qty trigger now) now
  have hremaining : (settled (so.amended qty trigger now) now).remaining =
      qty.getD so.quantity - so.filledQty := by
    unfold SimOrder.remaining
    rw [hquantity, hfilled]
    rfl
  have hstatus : (settled (so.amended qty trigger now) now).status.isLive = true ∨
      qty.getD so.quantity - so.filledQty = 0 := by
    unfold settled
    split
    · rename_i hzero
      exact .inr hzero
    · exact .inl hlive
  have hbefore : so.remaining = so.quantity - so.filledQty := rfl
  have hterms : (so.amended qty trigger now).side = so.side ∧
      (so.amended qty trigger now).product = so.product ∧
      (so.amended qty trigger now).instrumentKey = so.instrumentKey := ⟨rfl, rfl, rfl⟩
  unfold SimOrder.claims
  rw [hside, hproduct, hkey, hremaining, hbefore, hterms.1, hterms.2.1, hterms.2.2]
  by_cases hsale : so.instrumentKey = instrumentKey ∧ so.product = .cnc ∧ so.side = .sell
  · obtain ⟨rfl, hcnc, hsell⟩ := hsale
    rw [if_pos (⟨rfl, hcnc, hsell⟩ : _ ∧ _ ∧ _), if_pos (⟨rfl, hcnc, hsell, hlive⟩ : _ ∧ _ ∧ _ ∧ _)]
    rcases hstatus with hstatus | hzero
    · rw [if_pos (⟨rfl, hcnc, hsell, hstatus⟩ : _ ∧ _ ∧ _ ∧ _)]
      omega
    · rw [hzero, ite_self]
      omega
  · rw [if_neg hsale, if_neg fun h => hsale ⟨h.1, h.2.1, h.2.2.1⟩,
      if_neg fun h => hsale ⟨h.1, h.2.1, h.2.2.1⟩, sub_zero]

/-- What is pending after a call that is accepted. -/
theorem pendingSales_amended (h : Accepts env w.broker boid price trigger so instrument)
    (instrumentKey : String) :
    (amendedWorld hooks boid (so.amended qty trigger now) now w).broker.pendingSales instrumentKey =
      w.broker.pendingSales instrumentKey +
        if so.instrumentKey = instrumentKey ∧ so.product = .cnc ∧ so.side = .sell then
          qty.getD so.quantity - so.quantity else 0 := by
  have hsum := pendingSales_set h.held
    (amendedWorld_broker hooks boid (so.amended qty trigger now) now w).1 instrumentKey
  have hclaims := claims_settled h.live qty trigger now instrumentKey
  omega

/-- The result of an accepted call is an order the broker would take, when its terms are
allowed and only then. -/
theorem placeable_iff (hooks : Hooks S) (qty : Option ℤ) (now : Instant)
    (h : Accepts env w.broker boid price trigger so instrument)
    (hwithin : so.filledQty ≤ so.quantity) (hticks : TriggersOnTick env w.broker) :
    Placeable env (amendedWorld hooks boid (so.amended qty trigger now) now w).broker so
      (settled (so.amended qty trigger now) now) ↔ Allowed env w.broker so qty trigger := by
  obtain ⟨horders, hquotes, -, -, hcore⟩ :=
    amendedWorld_broker hooks boid (so.amended qty trigger now) now w
  obtain ⟨hside, hquantity, hproduct, hkey, htrigger, hfilled⟩ :=
    settled_terms (so.amended qty trigger now) now
  have hband : ∀ t, OutOfBand env (amendedWorld hooks boid (so.amended qty trigger now) now w).broker
      so.instrumentKey t ↔ OutOfBand env w.broker so.instrumentKey t := by
    intro t
    unfold OutOfBand
    rw [hquotes]
  have hheld : (amendedWorld hooks boid (so.amended qty trigger now) now w).broker.core.quantity
      so.instrumentKey .cnc = w.broker.core.quantity so.instrumentKey .cnc := by
    rw [hcore]
    rfl
  -- a larger order does not end
  have haffords : so.quantity < qty.getD so.quantity →
      (Affords env (amendedWorld hooks boid (so.amended qty trigger now) now w).broker
        (settled (so.amended qty trigger now) now)
        (settled (so.amended qty trigger now) now).remaining ↔
      Affords env w.broker so (qty.getD so.quantity - so.filledQty)) := by
    intro hlarger
    have hremaining : ¬(so.amended qty trigger now).remaining = 0 := by
      show ¬qty.getD so.quantity - so.filledQty = 0
      omega
    have hsettled : settled (so.amended qty trigger now) now = so.amended qty trigger now :=
      if_neg hremaining
    have havailable : (amendedWorld hooks boid (so.amended qty trigger now) now w).broker.available =
        w.broker.available := by
      unfold available
      rw [hcore, hsettled, sub_add_cancel]
    unfold Affords
    rw [hquotes, hsettled, havailable]
    rfl
  constructor
  · intro hplaceable
    refine ⟨?_, ?_, ?_⟩
    · intro hbuy hlarger
      have hcovered := hplaceable.covered (hside.trans hbuy) (by rw [hquantity]; exact hlarger)
      exact (haffords hlarger).mp hcovered
    · intro hcnc hsell
      have hfits := hplaceable.held (hproduct.trans hcnc) (hside.trans hsell)
      rw [hkey, pendingSales_amended h] at hfits
      have hsale : so.instrumentKey = (so.amended qty trigger now).instrumentKey ∧
          so.product = .cnc ∧ so.side = .sell := ⟨rfl, hcnc, hsell⟩
      rw [if_pos hsale] at hfits
      show _ ≤ max 0 (w.broker.core.quantity so.instrumentKey .cnc) -
        w.broker.pendingSales so.instrumentKey
      rw [← hheld]
      exact le_sub_iff_add_le'.mpr hfits
    · intro t ht
      have hin := hplaceable.inBand t (by rw [htrigger]; exact ht)
      rw [hkey] at hin
      exact fun hout => hin ((hband t).mpr hout)
  · intro hallowed
    refine ⟨?_, ?_, ?_, ?_⟩
    · intro hbuy hlarger
      rw [hquantity] at hlarger
      exact (haffords hlarger).mpr (hallowed.covered (hside.symm.trans hbuy) hlarger)
    · intro hcnc hsell
      have hsale : so.instrumentKey = (so.amended qty trigger now).instrumentKey ∧
          so.product = .cnc ∧ so.side = .sell :=
        ⟨rfl, hproduct.symm.trans hcnc, hside.symm.trans hsell⟩
      have hfits : _ ≤ max 0 (w.broker.core.quantity so.instrumentKey .cnc) -
        w.broker.pendingSales so.instrumentKey := hallowed.held hsale.2.1 hsale.2.2
      rw [← hheld] at hfits
      rw [hkey, pendingSales_amended h, if_pos hsale]
      exact le_sub_iff_add_le'.mp hfits
    · intro t ht i hi
      rw [htrigger] at ht
      rw [hkey] at hi
      exact h.onTick hticks t ht i hi
    · intro t ht hout
      rw [htrigger] at ht
      rw [hkey] at hout
      exact hallowed.inBand t ht ((hband t).mp hout)

/-- **A call is atomic**, and leaves an order the broker would take, when it is amendable and
only then. -/
theorem modifyOrder_atomic_iff
    (hwithin : ∀ boid so, w.broker.orders.get? boid = some so → so.filledQty ≤ so.quantity)
    (hticks : TriggersOnTick env w.broker) :
    Atomic env boid w (modifyOrder env hooks now boid qty price trigger w) ↔
      Amendable env w.broker boid qty price trigger := by
  by_cases hcall : ∃ so instrument, Accepts env w.broker boid price trigger so instrument
  · obtain ⟨so, instrument, haccepts⟩ := hcall
    have hamendable : Amendable env w.broker boid qty price trigger ↔
        (so.refusesQty instrument qty → trigger.or so.triggerPrice = so.triggerPrice) ∧
        (¬so.refusesQty instrument qty → Allowed env w.broker so qty trigger) := by
      constructor
      · intro h
        exact h so instrument haccepts
      · intro h so' instrument' haccepts'
        obtain ⟨rfl, rfl⟩ := haccepts.unique haccepts'
        exact h
    rw [hamendable]
    -- the trigger price is written before the quantity is refused
    by_cases hqty : so.refusesQty instrument qty
    · obtain ⟨e, he⟩ := modifyOrder_of_refusesQty hooks now haccepts hqty
      rw [he]
      constructor
      · intro hatomic
        refine ⟨fun _ => ?_, fun hno => absurd hqty hno⟩
        -- the refused call left the order with the new trigger, and atomicity says with the old
        have hsame := hatomic.refused e _ rfl
        have horder : (w.mapBroker (setOrder boid (so.withTrigger trigger))).broker.orders.get? boid =
            some (so.withTrigger trigger) := get?_setOrder ..
        rw [hsame, haccepts.held, Option.some.injEq] at horder
        exact (congrArg SimOrder.triggerPrice horder).symm
      · intro h
        refine ⟨fun e' w' hr => ?_, fun a w' hr => by cases hr⟩
        have hkept : so.withTrigger trigger = so := by
          unfold SimOrder.withTrigger
          rw [h.1 hqty]
        cases hr
        rw [hkept, World.mapBroker, setOrder_self haccepts.held]
    · obtain ⟨a, ha⟩ := modifyOrder_of_accepted hooks now haccepts hqty
      -- the call asks nothing of what a new order is asked, so the order has to stand it by itself
      have hiff := placeable_iff hooks qty now haccepts
        (hwithin boid so haccepts.held) hticks
      have hafter : (amendedWorld hooks boid (so.amended qty trigger now) now w).broker.orders.get?
          boid = some (settled (so.amended qty trigger now) now) := by
        rw [(amendedWorld_broker hooks boid (so.amended qty trigger now) now w).1]
        exact Dict.get?_set_self _ _ _
      rw [ha]
      constructor
      · intro hatomic
        refine ⟨fun hyes => absurd hyes hqty, fun _ => hiff.mp ?_⟩
        obtain ⟨before, after, hbefore, hheld, hplaceable⟩ := hatomic.accepted a _ rfl
        obtain rfl := Option.some.inj (haccepts.held.symm.trans hbefore)
        obtain rfl := Option.some.inj (hafter.symm.trans hheld)
        exact hplaceable
      · intro h
        constructor
        · intro e w' hr
          cases hr
        · intro a' w' hr
          cases hr
          exact ⟨so, _, haccepts.held, hafter, hiff.mpr (h.2 hqty)⟩
  · obtain ⟨e, he⟩ := modifyOrder_of_not_accepts env hooks now boid qty price trigger w
      fun so instrument h => hcall ⟨so, instrument, h⟩
    rw [he]
    refine ⟨fun _ so instrument h => absurd ⟨so, instrument, h⟩ hcall, fun _ => ?_⟩
    constructor
    · intro e' w' hr
      cases hr
      rfl
    · intro a w' hr
      cases hr

end SimulatedBroker

end RakshaQuant
