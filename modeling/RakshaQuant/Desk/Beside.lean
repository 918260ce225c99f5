import RakshaQuant.Brokers.Simulated.Steps
import RakshaQuant.Desk.Steps

/-! What happens at the desk without a fill. Submitting and cancelling change order
statuses and register orders; the book, the listener's state and every intent stay. -/

namespace RakshaQuant

namespace OMS

/-- Between two states of an OMS no fill was applied: the book stays, no order goes or
changes its extent, and none comes but under an id that was asked for. -/
structure Beside (Asked : String → Prop) (o o' : OMS) : Prop where
  book : o'.book = o.book
  keyed : o'.Keyed
  held : ∀ {coid order}, o.orders.get? coid = some order →
    ∃ order', o'.orders.get? coid = some order' ∧ order'.extent = order.extent
  fresh : ∀ {coid}, o.orders.get? coid = none → ¬Asked coid → o'.orders.get? coid = none

namespace Beside

variable {Asked Asked' : String → Prop} {o o' o'' : OMS}

theorem refl (hk : o.Keyed) : Beside Asked o o := ⟨rfl, hk, fun h => ⟨_, h, rfl⟩, fun h _ => h⟩

theorem intent (h : Beside Asked o o') {coid : String} {order : Order}
    (ho : o.orders.get? coid = some order) :
    ∃ order', o'.orders.get? coid = some order' ∧ order'.intent = order.intent := by
  obtain ⟨order', ho', hextent⟩ := h.held ho
  exact ⟨order', ho', congrArg Prod.fst hextent⟩

theorem trans (h : Beside Asked o o') (h' : Beside Asked o' o'') : Beside Asked o o'' where
  book := h'.book.trans h.book
  keyed := h'.keyed
  held ho := by
    obtain ⟨order', ho', hi⟩ := h.held ho
    obtain ⟨order'', ho'', hi'⟩ := h'.held ho'
    exact ⟨order'', ho'', hi'.trans hi⟩
  fresh hnone hasked := h'.fresh (h.fresh hnone hasked) hasked

theorem mono (h : Beside Asked o o') (hmono : ∀ coid, Asked coid → Asked' coid) :
    Beside Asked' o o' :=
  ⟨h.book, h.keyed, h.held, fun hnone hasked =>
    h.fresh hnone fun hc => hasked (hmono _ hc)⟩

theorem of_updated (hk : o.Keyed) (h : Updated o o') (book : o'.book = o.book) :
    Beside Asked o o' where
  book := book
  keyed := h.touched.keyed hk
  held {coid order} ho := by
    cases h with
    | same horders => exact ⟨order, by rw [horders, ho], rfl⟩
    | @one k known changed hknown horders _ hextent =>
      rw [horders, Dict.get?_set]
      split
      · rename_i hc
        rw [← hc, ho, Option.some.injEq] at hknown
        exact ⟨changed, rfl, by rw [hextent, hknown]⟩
      · exact ⟨order, ho, rfl⟩
  fresh {coid} hnone _ := by
    cases h with
    | same horders => rw [horders, hnone]
    | @one k known _ hknown horders _ _ =>
      have hne : coid ≠ k := by
        rintro rfl
        rw [hknown] at hnone
        cases hnone
      rw [horders, Dict.get?_set_ne _ _ hne, hnone]

/-- Only the log changes. -/
theorem of_eq (hk : o.Keyed) (horders : o'.orders = o.orders) (book : o'.book = o.book) :
    Beside Asked o o' :=
  of_updated hk (.same horders) book

theorem register {order : Order} (hk : o.Keyed)
    (hfresh : o.orders.get? order.clientOrderId = none) :
    Beside (· = order.clientOrderId) o (o.register order) where
  book := rfl
  keyed := keyed_set hk (register_orders order o) rfl
  held := by
    intro coid known hknown
    have hne : coid ≠ order.clientOrderId := by
      rintro rfl
      rw [hfresh] at hknown
      cases hknown
    exact ⟨known, by rw [register_orders, Dict.get?_set_ne _ _ hne, hknown], rfl⟩
  fresh hnone hne := by rw [register_orders, Dict.get?_set_ne _ _ hne, hnone]

end Beside

end OMS

/-- What a fill makes of the listener's state: nothing, unless it is a new fill of an
order the OMS holds and `_on_fill` does not raise. -/
theorem Desk.onFill_ext {T : Type} (listener : FillListener T) (fill : Fill) {d : Desk T}
    (hk : d.oms.Keyed) :
    (Desk.onFill listener fill d).state.ext = d.ext ∨
      ∃ known version o, fill.fillId ∉ d.oms.book.seen ∧
        d.oms.orders.get? fill.clientOrderId = some known ∧ fill.bookId = d.oms.bookId ∧
        OMS.onFill fill d.oms = .ok (some (known.afterFill fill version)) o ∧
        (Desk.onFill listener fill d).state.ext =
          (listener fill (known.afterFill fill version) o d.ext).1 := by
  unfold Desk.onFill
  cases hrun : OMS.onFill fill d.oms with
  | error e o => exact .inl rfl
  | ok r o =>
    cases r with
    | none => exact .inl rfl
    | some order =>
      by_cases hseen : fill.fillId ∈ d.oms.book.seen
      · rw [OMS.onFill_seen hseen] at hrun
        cases hrun
      cases hget : d.oms.orders.get? fill.clientOrderId with
      | none =>
        by_cases hbook : fill.bookId = d.oms.bookId
        · rw [OMS.onFill_unheld hseen hget hbook] at hrun
          cases hrun
        · obtain ⟨e, he⟩ := OMS.onFill_stray hseen hget hbook
          rw [he] at hrun
          cases hrun
      | some known =>
        by_cases hbook : fill.bookId = d.oms.bookId
        · obtain ⟨version, -, -, hreturns⟩ := OMS.onFill_known hseen hk hget hbook
          obtain rfl := Option.some.inj (hreturns _ _ hrun)
          exact .inr ⟨known, version, o, hseen, rfl, hbook, rfl, rfl⟩
        · obtain ⟨e, he⟩ := OMS.onFill_foreign hseen hget hbook
          rw [he] at hrun
          cases hrun

/-- The desk went on without a fill. -/
structure Beside {T : Type} (Asked : String → Prop) (w w' : Paper T) : Prop where
  ext : w'.desk.ext = w.desk.ext
  oms : w.desk.oms.Keyed → w.desk.oms.Beside Asked w'.desk.oms

namespace Beside

variable {T : Type} {Asked Asked' : String → Prop} {w w' w'' : Paper T}

theorem refl (w : Paper T) : Beside Asked w w := ⟨rfl, .refl⟩

theorem trans (h : Beside Asked w w') (h' : Beside Asked w' w'') : Beside Asked w w'' :=
  ⟨h'.ext.trans h.ext, fun hk => (h.oms hk).trans (h'.oms (h.oms hk).keyed)⟩

theorem mono (h : Beside Asked w w') (hmono : ∀ coid, Asked coid → Asked' coid) :
    Beside Asked' w w' :=
  ⟨h.ext, fun hk => (h.oms hk).mono hmono⟩

/-- The broker goes on alone. -/
theorem mapBroker (f : SimulatedBroker → SimulatedBroker) (w : Paper T) :
    Beside Asked w (w.mapBroker f) :=
  ⟨rfl, .refl⟩

theorem mapOms {f : OMS → OMS}
    (h : w.desk.oms.Keyed → w.desk.oms.Beside Asked (f w.desk.oms)) :
    Beside Asked w (w.mapOms f) :=
  ⟨rfl, h⟩

variable (listener : FillListener T)

theorem notify (boid : String) (w : Paper T) :
    Beside Asked w (w.notify (Desk.hooks listener) boid) := by
  cases hso : w.broker.orders.get? boid with
  | none =>
    unfold World.notify
    rw [hso]
    exact .refl w
  | some so =>
    rw [World.notify_of_get _ hso]
    exact ⟨rfl, fun hk => .of_updated hk (OMS.updated_onUpdate so.snapshot hk)
      (OMS.onUpdate_book so.snapshot hk)⟩

theorem save (w : Paper T) : Beside Asked w (w.save (Desk.hooks listener)) :=
  ⟨rfl, fun hk => .of_eq hk rfl rfl⟩

/-- A step of the broker that fills nothing. -/
theorem of_broker {env : SimEnv} {Wanted : Paper T → Order → Prop}
    (h : BrokerStep env (Desk.hooks listener) (fun _ _ => false) Wanted w w') :
    Beside Asked w w' := by
  cases h with
  | settled today => exact mapBroker _ w
  | observed quote today => exact mapBroker _ w
  | counted boid => exact mapBroker _ w
  | triggered ts _ _ => exact (mapBroker _ w).trans (notify listener _ _)
  | finished message ts _ _ _ => exact (mapBroker _ w).trans (notify listener _ _)
  | filled _ _ _ _ _ wanted => cases wanted
  | renotified _ _ => exact notify listener _ _
  | accepted _ _ _ _ _ =>
    exact ((mapBroker _ w).trans (save listener _)).trans (notify listener _ _)
  | saved => exact save listener _

end Beside

namespace OMS

/-- A submission ended before the gate answers with the order under its id, if any. -/
theorem precheck_order {config : OmsConfig} {hasGate : Bool} {intent : OrderIntent}
    {quantity : Option ℤ} {o : OMS} {result : SubmitResult} {order : Order}
    (h : o.precheck config hasGate intent quantity = .error result)
    (ho : result.order = some order) :
    o.orders.get? (config.clientOrderId intent.intentId) = some order := by
  unfold precheck at h
  split at h
  · cases h
    cases ho
  split at h
  · cases h
    cases ho
  split at h
  · rename_i existing hexisting
    cases h
    rw [hexisting, ← ho]
  · dsimp only at h
    split at h
    · split at h
      · cases h
        cases ho
      · cases h
    · cases h

/-- A submission ended by the gate answers with no order. -/
theorem sized_order {qty : Option ℤ} {decision : GateResult} {result : SubmitResult}
    (h : sized qty decision = .error result) : result.order = none := by
  unfold sized at h
  split at h
  · cases h
    rfl
  · dsimp only at h
    split at h
    · cases h
    · cases h
      rfl

theorem placeFailed_book (order : Order) (exc : Exc) (o : OMS) :
    (o.placeFailed order exc).book = o.book := by
  unfold placeFailed
  cases exc.notPlacedReason <;> rfl

end OMS

namespace System

open BrokerStep (anyEnd)

variable {T : Type} {Asked : String → Prop} (sys : System T)

theorem beside_cancel (now : Instant) (coid : String) :
    Effect.Moves (Beside Asked) (fun _ => True) (OMS.cancel (sys.adapter now) coid) anyEnd anyEnd := by
  unfold OMS.cancel
  refine Effect.Moves.read fun w _ => ?_
  split
  · exact Effect.Moves.pure fun _ _ => trivial
  · split
    · refine Effect.Moves.bind (Q := anyEnd) ?_ fun _ => Effect.Moves.pure fun _ _ => trivial
      have hmoves := BrokerStep.moves_cancelOrder
        (BrokerStep.rules sys.env sys.hooks (fun _ _ => false) fun _ _ => True) now
      exact ((hmoves _).lift fun _ _ => Beside.of_broker sys.listener).conseq
        (fun _ _ => trivial) (fun _ _ h => h) fun _ _ h => h
    · exact Effect.Moves.pure fun _ _ => trivial

theorem beside_placeOrder (now : Instant) (order : Order) (delivery : Delivery) :
    Effect.Moves (Beside Asked) (fun _ => True)
      ((delivery.through (sys.adapter now)).placeOrder order) anyEnd anyEnd := by
  have hplace : Effect.Moves (Beside Asked) (fun _ => True)
      (SimulatedBroker.placeOrder sys.env sys.hooks now order) anyEnd anyEnd :=
    (BrokerStep.moves_placeOrder
      (BrokerStep.rules sys.env sys.hooks (fun _ _ => false) fun _ _ => True) now order).lift
      fun _ _ => Beside.of_broker sys.listener
  cases delivery with
  | delivered => exact hplace
  | lost reached message =>
    cases reached with
    | true =>
      exact Effect.Moves.bind (Effect.Moves.attempt (U := anyEnd) hplace (fun _ _ _ => trivial)
        fun _ _ _ => trivial) fun _ => Effect.Moves.throw fun _ _ => trivial
    | false => exact Effect.Moves.throw fun _ _ => trivial

/-- The OMS holds an order with this intent under this id. -/
def Placed (coid : String) (intent : OrderIntent) (w : Paper T) : Prop :=
  w.desk.oms.Keyed ∧ ∃ known, w.desk.oms.orders.get? coid = some known ∧ known.intent = intent

theorem Placed.beside {coid : String} {intent : OrderIntent} {w w' : Paper T}
    (h : Beside Asked w w') (hp : Placed coid intent w) : Placed coid intent w' := by
  obtain ⟨hk, known, hknown, hi⟩ := hp
  obtain ⟨known', hknown', hi'⟩ := (h.oms hk).intent hknown
  exact ⟨(h.oms hk).keyed, known', hknown', hi'.trans hi⟩

/-- Placing a new order leaves it with the OMS, and that order is the answer. -/
theorem beside_place (now : Instant) (order : Order) (delivery : Delivery) :
    Effect.Moves (Beside (· = order.clientOrderId))
      (fun w => w.desk.oms.Keyed ∧ w.desk.oms.orders.get? order.clientOrderId = none)
      (OMS.place (delivery.through (sys.adapter now)) order)
      (fun result w =>
        (∀ known, result.order = some known → known.clientOrderId = order.clientOrderId) ∧
        Placed order.clientOrderId order.intent w) anyEnd := by
  have hlatest : ∀ {w : Paper T}, Placed order.clientOrderId order.intent w →
      (w.desk.oms.latest order).clientOrderId = order.clientOrderId := by
    rintro w ⟨hk, known, hknown, -⟩
    rw [OMS.latest_of_get hknown]
    exact hk _ _ hknown
  unfold OMS.place
  refine Effect.Moves.after (M := Placed order.clientOrderId order.intent) ?_ ?_
  · rintro w ⟨hk, hfresh⟩
    have hregister := OMS.Beside.register hk hfresh
    exact ⟨.single (.mapOms fun _ => hregister), hregister.keyed, order,
      Dict.get?_set_self _ _ _, rfl⟩
  refine Effect.Moves.bind (Effect.Moves.attempt
    (U := fun _ => Placed order.clientOrderId order.intent)
    ((beside_placeOrder sys now order delivery).keeping fun _ _ => Placed.beside)
    (fun _ _ h => h.2) fun _ _ h => h.2) ?_ |>.conseq (fun w h => ⟨trivial, h⟩)
    (fun _ _ h => h) fun _ _ h => h
  -- what is recorded of the call keeps the order, and the answer is its latest copy
  have hrecord : ∀ f : OMS → OMS, (∀ o : OMS, o.Keyed → o.Holds order → o.Updated (f o)) →
      (∀ o : OMS, (f o).book = o.book) → ∀ w : Paper T, Placed order.clientOrderId order.intent w →
      Beside (· = order.clientOrderId) w (w.mapOms f) := by
    intro f hupdated hbook w hw
    obtain ⟨hk, known, hknown, -⟩ := hw
    exact .mapOms fun hk => .of_updated hk (hupdated _ hk ⟨known, hknown⟩) (hbook _)
  rintro (exc | ack)
  · refine Effect.Moves.after (M := Placed order.clientOrderId order.intent) (fun w hw => ?_) ?_
    · have hbeside := hrecord (OMS.placeFailed order exc)
        (fun _ hk held => OMS.updated_placeFailed exc hk held)
        (fun o => OMS.placeFailed_book order exc o) w hw
      exact ⟨.single hbeside, hw.beside hbeside⟩
    · refine Effect.Moves.read fun w hw => ?_
      cases exc.notPlacedReason with
      | none =>
        refine Effect.Moves.pure ?_
        rintro _ rfl
        exact ⟨fun known hknown => Option.some.inj hknown ▸ hlatest hw, hw⟩
      | some reason =>
        refine Effect.Moves.pure ?_
        rintro _ rfl
        exact ⟨fun known hknown => Option.some.inj hknown ▸ hlatest hw, hw⟩
  · refine Effect.Moves.after (M := Placed order.clientOrderId order.intent) (fun w hw => ?_) ?_
    · have hbeside := hrecord (OMS.placed order ack)
        (fun _ hk held => OMS.updated_placed ack hk held)
        (fun o => OMS.placed_book order ack o) w hw
      exact ⟨.single hbeside, hw.beside hbeside⟩
    · refine Effect.Moves.read fun w hw => Effect.Moves.pure ?_
      rintro _ rfl
      exact ⟨fun known hknown => Option.some.inj hknown ▸ hlatest hw, hw⟩

/-- What a submission answers with an order: one the OMS holds with this intent, or
the one that was there under its id. -/
def Answered (intent : OrderIntent) (w : Paper T) (result : SubmitResult) (w' : Paper T) : Prop :=
  ∀ order, result.order = some order →
    (order.clientOrderId = sys.config.clientOrderId intent.intentId ∧
      Placed order.clientOrderId intent w') ∨
    w.desk.oms.orders.get? (sys.config.clientOrderId intent.intentId) = some order

/-- The gate records its decisions and nothing else. -/
theorem beside_gate (gate : Gate) (intent : OrderIntent) (qty : Option ℤ) (w : Paper T) :
    Effect.Moves (Beside Asked) (Eq w) (gate.asOrderGate intent qty)
      (fun _ w' => w'.desk.oms.orders = w.desk.oms.orders) anyEnd := by
  unfold Gate.asOrderGate
  refine Effect.Moves.read ?_
  rintro _ rfl
  refine Effect.Moves.after (M := fun w' => w'.desk.oms.orders = w.desk.oms.orders) ?_ ?_
  · rintro _ rfl
    exact ⟨.single (.mapOms fun hk => .of_eq hk rfl rfl), rfl⟩
  · cases (gate w.desk.oms intent qty).result with
    | ok result => exact Effect.Moves.pure fun _ h => h
    | error e => exact Effect.Moves.throw fun _ _ => trivial

theorem beside_submit (now brokerNow : Instant) (intent : OrderIntent) (quantity : Option ℤ)
    (gate : Gate) (delivery : Delivery) {w : Paper T} (hk : w.desk.oms.Keyed) :
    Effect.Moves (Beside (· = sys.config.clientOrderId intent.intentId)) (Eq w)
      (OMS.submit sys.config (delivery.through (sys.adapter brokerNow)) (some gate.asOrderGate)
        now intent quantity) (Answered sys intent w) anyEnd := by
  have hnone : ∀ {status : SubmitStatus} {message : String} {w' : Paper T},
      Answered sys intent w ⟨status, none, message⟩ w' := by
    intro _ _ _ order h
    cases h
  unfold OMS.submit
  refine Effect.Moves.read ?_
  rintro _ rfl
  cases hchecked : w.desk.oms.precheck sys.config (some (gate.asOrderGate (B := SimulatedBroker)
      (T := T))).isSome intent quantity with
  | error result =>
    refine Effect.Moves.pure ?_
    rintro _ rfl order ho
    exact .inr (OMS.precheck_order hchecked ho)
  | ok qty =>
    obtain ⟨-, hfresh, -⟩ := OMS.precheck_spec hchecked
    refine Effect.Moves.bind (Q := fun _ (w' : Paper T) =>
      w'.desk.oms.orders = w.desk.oms.orders) (beside_gate gate intent qty w) fun decision => ?_
    cases hsized : OMS.sized qty decision with
    | error result =>
      have hresult := OMS.sized_order hsized
      refine Effect.Moves.pure fun w' _ order ho => ?_
      rw [hresult] at ho
      cases ho
    | ok q =>
      refine (beside_place sys brokerNow (OMS.newOrder sys.config intent q now) delivery).conseq
        (fun w' horders => ⟨OMS.keyed_of_eq hk horders, ?_⟩) (fun result w' h => ?_)
        fun _ _ h => h
      · rw [horders]
        exact hfresh
      · obtain ⟨hid, hplaced⟩ := h
        intro order ho
        have horder := hid order ho
        exact .inl ⟨horder, horder ▸ hplaced⟩

/-- A small step of the desk goes on without a fill, or a fill reaches the desk. -/
theorem Step.beside_or_filled {Allowed : Order → Prop} {w w' : Paper T}
    (h : Step sys Allowed w w') : Beside (fun _ => True) w w' ∨
      ∃ fill b, w' = { broker := b, desk := (Desk.onFill sys.listener fill w.desk).state } := by
  have hbroker : BrokerStep sys.env (Desk.hooks sys.listener) (fun _ _ => false)
      (fun _ _ => False) w w' → Beside (fun _ => True) w w' := Beside.of_broker sys.listener
  have hupdated : ∀ {f : OMS → OMS},
      (w.desk.oms.Keyed → w.desk.oms.Updated (f w.desk.oms) ∧
        (f w.desk.oms).book = w.desk.oms.book) → Beside (fun _ => True) w (w.mapOms f) := fun hf =>
    .mapOms fun hk => .of_updated hk (hf hk).1 (hf hk).2
  cases h with
  | settled today => exact .inl (hbroker (.settled today))
  | observed quote today => exact .inl (hbroker (.observed quote today))
  | counted boid => exact .inl (hbroker (.counted boid))
  | triggered ts held pending => exact .inl (hbroker (.triggered ts held pending))
  | finished message ts held live ends => exact .inl (hbroker (.finished message ts held live ends))
  | filled dpDay held live within settles => exact .inr ⟨_, _, rfl⟩
  | renotified held filled => exact .inl (hbroker (.renotified held filled))
  | accepted now known new free pos reserves =>
    exact .inl (((Beside.mapBroker _ w).trans (.save sys.listener _)).trans
      (.notify sys.listener _ _))
  | saved => exact .inl (hbroker .saved)
  | registered new allowed book fresh room =>
    exact .inl (.mapOms fun hk => (OMS.Beside.register hk fresh).mono fun _ _ => trivial)
  | unplaced held intent live free =>
    exact .inl (hupdated fun hk => ⟨OMS.updated_placeFailed _ hk ⟨_, held⟩,
      OMS.placeFailed_book _ _ _⟩)
  | acked ack held placed =>
    exact .inl (hupdated fun hk => ⟨OMS.updated_placed ack hk ⟨_, held⟩, OMS.placed_book _ _ _⟩)
  | found held placed =>
    exact .inl (hupdated fun hk => ⟨OMS.updated_found _ hk ⟨_, held⟩, rfl⟩)
  | adopted reported => exact .inr ⟨_, _, rfl⟩
  | resolved held intent placed =>
    exact .inl (hupdated fun hk => ⟨OMS.updated_resolved _ hk ⟨_, held⟩, OMS.resolved_book _ _ _⟩)
  | absent now held free =>
    exact .inl (hupdated fun hk => ⟨OMS.updated_absent _ _ hk ⟨_, held⟩, OMS.absent_book _ _ _ _⟩)
  | emitted asides => exact .inl (.mapOms fun hk => .of_eq hk rfl rfl)

end System

end RakshaQuant
