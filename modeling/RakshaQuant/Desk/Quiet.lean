import RakshaQuant.Desk.Steps
import RakshaQuant.Oms.Lives

/-! The small steps that are no fills. Submitting and cancelling take only these, and to the
OMS each of them is work: its orders keep their lives or end them, and its log says so. -/

namespace RakshaQuant

namespace OMS

/-- A fill the desk is told of is recorded, where it is a new one of an order of this book. -/
theorem booked_onFill {T : Type} (listener : FillListener T) {fill : Fill} {d : Desk T}
    {known : Order} (hk : d.oms.Keyed) (held : d.oms.orders.get? fill.clientOrderId = some known)
    (ours : fill.bookId = d.oms.bookId) (fresh : fill.fillId ∉ d.oms.book.seen) :
    Booked d.oms (Desk.onFill listener fill d).state.oms known fill := by
  obtain ⟨version, as, hstate, -⟩ := onFill_known fresh hk held ours
  obtain ⟨bs, homs⟩ := Desk.onFill_oms listener fill d
  refine ⟨held, ours, fresh, ⟨version, ?_⟩, ?_, as.map .alert, .positionChanged
    (d.oms.book.outcome (known.application fill)).position (some fill.fillId) ::
    ((reportedTrades d.oms.bookId (d.oms.book.outcome (known.application fill)).closed).map
      .tradeClosed ++ bs.map .alert), ?_, ?_, ?_⟩
  · rw [homs, hstate]
  · rw [homs, hstate]
  · intro p hp
    obtain ⟨a, -, rfl⟩ := List.mem_map.mp hp
    trivial
  · intro p hp
    rcases List.mem_cons.mp hp with rfl | hp
    · trivial
    rcases List.mem_append.mp hp with hp | hp
    · obtain ⟨t, -, rfl⟩ := List.mem_map.mp hp
      trivial
    · obtain ⟨a, -, rfl⟩ := List.mem_map.mp hp
      trivial
  · rw [homs, hstate]
    simp only [events_append, events_map, List.append_assoc]
    rfl

end OMS

/-- A fill the book has seen changes nothing at the desk. -/
theorem Desk.onFill_seen {T : Type} (listener : FillListener T) {fill : Fill} {d : Desk T}
    (h : fill.fillId ∈ d.oms.book.seen) : (Desk.onFill listener fill d).state = d := by
  unfold Desk.onFill
  rw [OMS.onFill_seen h]
  rfl

namespace System

open BrokerStep (anyEnd moves_order moves_ofExcept)

variable {T : Type}

/-- A small step that brings the desk no fill. -/
inductive Quiet (sys : System T) (Allowed : Order → Prop) : Paper T → Paper T → Prop
  /-- The broker goes on by itself. -/
  | broker {w w' : Paper T}
      (h : BrokerStep sys.env sys.hooks (fun _ _ => false) (fun _ _ => False) w w') :
      Quiet sys Allowed w w'
  | accepted {w : Paper T} {order : Order} {reference reserved : ℚ} (now : Instant)
      (known : w.desk.oms.orders.get? order.clientOrderId = some order) (new : order.New)
      (free : w.broker.find order.clientOrderId = none) (pos : 0 < reference)
      (reserves : sys.env.reservation order reference w.broker = .ok reserved) :
      Quiet sys Allowed w
        (((w.mapBroker fun b => (b.accept (sys.env.newSimOrder order reserved now w.broker)).markDirty
          (sys.env.newSimOrder order reserved now w.broker).brokerOrderId).save sys.hooks).notify
          sys.hooks (sys.env.newSimOrder order reserved now w.broker).brokerOrderId)
  | registered {w : Paper T} {order : Order} (new : order.New) (allowed : Allowed order)
      (book : order.intent.bookId = w.desk.oms.bookId)
      (fresh : w.desk.oms.orders.get? order.clientOrderId = none) (room : w.desk.oms.Room order) :
      Quiet sys Allowed w (w.mapOms (OMS.register order))
  | unplaced {w : Paper T} {order known : Order} {exc : Exc}
      (held : w.desk.oms.orders.get? order.clientOrderId = some known)
      (intent : known.intent = order.intent) (live : known.status.isTerminal = false)
      (free : exc.notPlacedReason ≠ none → w.broker.find order.clientOrderId = none) :
      Quiet sys Allowed w (w.mapOms (OMS.placeFailed order exc))
  | acked {w : Paper T} {order known : Order} (ack : BrokerAck)
      (held : w.desk.oms.orders.get? order.clientOrderId = some known)
      (placed : (w.broker.find order.clientOrderId).isSome) :
      Quiet sys Allowed w (w.mapOms (OMS.placed order ack))
  | found {w : Paper T} {order known : Order} {so : SimOrder}
      (held : w.desk.oms.orders.get? order.clientOrderId = some known)
      (placed : w.broker.find order.clientOrderId = some so) :
      Quiet sys Allowed w (w.mapOms (OMS.found order so.snapshot))
  | resolved {w : Paper T} {order known : Order} {so : SimOrder}
      (held : w.desk.oms.orders.get? order.clientOrderId = some known)
      (intent : known.intent = order.intent)
      (placed : w.broker.find order.clientOrderId = some so) :
      Quiet sys Allowed w (w.mapOms (OMS.resolved order so.snapshot))
  | absent {w : Paper T} {order : Order} (now : Instant)
      (held : w.desk.oms.orders.get? order.clientOrderId = some order)
      (free : w.broker.find order.clientOrderId = none) :
      Quiet sys Allowed w (w.mapOms (OMS.absent sys.config now order))
  /-- Events that say nothing about an order are recorded. -/
  | emitted {w : Paper T} {ps : List EventPayload} (asides : ∀ p ∈ ps, p.Aside) :
      Quiet sys Allowed w (w.mapOms fun o => { o with sink := o.sink ++ ps.map .event })

section steps

variable {sys : System T} {Allowed : Order → Prop} {w w' : Paper T}

/-- A broker that fills nothing takes steps of the desk. -/
theorem Step.of_silent
    (h : BrokerStep sys.env sys.hooks (fun _ _ => false) (fun _ _ => False) w w') :
    Step sys Allowed w w' := by
  refine .of_broker ?_
  cases h with
  | settled today => exact .settled today
  | observed quote today => exact .observed quote today
  | counted boid => exact .counted boid
  | triggered ts held pending => exact .triggered ts held pending
  | finished message ts held live ends => exact .finished message ts held live ends
  | filled _ _ _ _ _ wanted => cases wanted
  | renotified held filled => exact .renotified held filled
  | accepted _ asked _ _ _ => exact asked.elim
  | saved => exact .saved

theorem Quiet.step (h : Quiet sys Allowed w w') : Step sys Allowed w w' := by
  cases h with
  | broker h => exact .of_silent h
  | accepted now known new free pos reserves => exact .accepted now known new free pos reserves
  | registered new allowed book fresh room => exact .registered new allowed book fresh room
  | unplaced held intent live free => exact .unplaced held intent live free
  | acked ack held placed => exact .acked ack held placed
  | found held placed => exact .found held placed
  | resolved held intent placed => exact .resolved held intent placed
  | absent now held free => exact .absent now held free
  | emitted asides => exact .emitted asides

theorem Quiet.mono {Allowed' : Order → Prop} (h : Quiet sys Allowed w w')
    (hmono : ∀ order, Allowed order → Allowed' order) : Quiet sys Allowed' w w' := by
  cases h with
  | broker h => exact .broker h
  | accepted now known new free pos reserves => exact .accepted now known new free pos reserves
  | registered new allowed book fresh room => exact .registered new (hmono _ allowed) book fresh room
  | unplaced held intent live free => exact .unplaced held intent live free
  | acked ack held placed => exact .acked ack held placed
  | found held placed => exact .found held placed
  | resolved held intent placed => exact .resolved held intent placed
  | absent now held free => exact .absent now held free
  | emitted asides => exact .emitted asides

/-- A notification is work, whatever was written before it but events. -/
theorem work_notify {o : OMS} (hk : o.Keyed) (boid : String)
    (horders : w.desk.oms.orders = o.orders) (hbook : w.desk.oms.book = o.book)
    (hevents : events w.desk.oms.sink = events o.sink) :
    OMS.Work Allowed o (w.notify sys.hooks boid).desk.oms := by
  cases hso : w.broker.orders.get? boid with
  | none =>
    rw [World.notify, hso]
    exact .still horders hbook hevents
  | some so =>
    rw [World.notify_of_get _ hso]
    exact (OMS.work_onUpdate so.snapshot (OMS.keyed_of_eq hk horders)).of_events hevents horders
      hbook

/-- To the OMS a quiet step is work. -/
theorem Quiet.work (h : Quiet sys Allowed w w') (hk : w.desk.oms.Keyed) :
    OMS.Work Allowed w.desk.oms w'.desk.oms := by
  have hrows : ∀ rows : List Row, events (w.desk.oms.sink ++ [.rows rows]) =
      events w.desk.oms.sink := by
    intro rows
    rw [events_append, events_rows, List.append_nil]
  cases h with
  | broker h =>
    cases h with
    | settled | observed | counted => exact .still rfl rfl rfl
    | triggered | finished | renotified => exact work_notify hk _ rfl rfl rfl
    | filled _ _ _ _ _ wanted => cases wanted
    | accepted _ asked _ _ _ => exact asked.elim
    | saved => exact .still rfl rfl (hrows _)
  | accepted now known new free pos reserves => exact work_notify hk _ rfl rfl (hrows _)
  | registered new allowed book fresh room =>
    exact .registered new allowed book fresh room rfl rfl (events_append _ _)
  | unplaced held intent live free => exact OMS.work_placeFailed _ hk held intent live
  | acked ack held placed => exact OMS.work_placed ack hk ⟨_, held⟩
  | found held placed => exact OMS.work_found _ held
  | resolved held intent placed => exact OMS.work_resolved _ hk held intent
  | absent now held free => exact OMS.work_absent sys.config now held
  | @emitted ps asides =>
    refine .noted asides rfl rfl ?_
    show events (w.desk.oms.sink ++ ps.map .event) = _
    rw [events_append]
    exact congrArg _ (by simpa using events_map ps id)

end steps

/-- The OMS holds the order, and it has not ended. -/
def Open (order : Order) (w : Paper T) : Prop :=
  ∃ known, w.desk.oms.orders.get? order.clientOrderId = some known ∧
    known.intent = order.intent ∧ known.status.isTerminal = false

/-- The OMS holds the order, whatever became of it. -/
def Held (order : Order) (w : Paper T) : Prop :=
  ∃ known, w.desk.oms.orders.get? order.clientOrderId = some known ∧
    known.intent = order.intent

/-- No order of this id stands SUBMITTED that the broker does not hold. -/
def Recorded (coid : String) (w : Paper T) : Prop :=
  ∀ known, w.desk.oms.orders.get? coid = some known → known.status = .submitted →
    (w.broker.find coid).isSome

/-- What a submission leaves: its order recorded, or nothing done. -/
def Submitted (coid : String) (w w' : Paper T) : Prop :=
  Recorded coid w' ∨ (w'.broker = w.broker ∧ w'.desk.oms.orders = w.desk.oms.orders)

section placing

variable (sys : System T) (Allowed : Order → Prop)

/-- The first update of a new order leaves it open. -/
theorem open_after_update {o : OMS} {order : Order} {snap : BrokerOrderSnapshot} (hk : o.Keyed)
    (known : o.orders.get? order.clientOrderId = some order)
    (hid : snap.clientOrderId = order.clientOrderId)
    (live : order.status.isTerminal = false) (hsnap : snap.status.isTerminal = false) :
    ∃ known, (o.onUpdate snap).orders.get? order.clientOrderId = some known ∧
      known.intent = order.intent ∧ known.status.isTerminal = false := by
  have hget : o.orders.get? snap.clientOrderId = some order := by rw [hid, known]
  rcases (OMS.onUpdate_known hk hget).2 with ⟨-, -, -, version, heq, -⟩ | ⟨-, -, hsame | hset⟩
  · have hgot := Dict.get?_set_self o.orders snap.clientOrderId { order with
      brokerOrderId := some (order.brokerOrderId.getD snap.brokerOrderId)
      status := snap.status, version := version }
    rw [← heq, hid] at hgot
    exact ⟨_, hgot, rfl, hsnap⟩
  · exact ⟨order, by rw [hsame.2, known], rfl, live⟩
  · have hgot := Dict.get?_set_self o.orders snap.clientOrderId { order with
      brokerOrderId := some snap.brokerOrderId, version := order.version + 1 }
    rw [← hset.2, hid] at hgot
    exact ⟨_, hgot, rfl, live⟩

/-- `place_order` of a registered order: the order stays open, and the broker
holds it when the call returns, and does not when it raises. -/
theorem quiet_placeOrder (now : Instant) {order : Order} (new : order.New) :
    Effect.Moves (Quiet sys Allowed)
      (fun w => w.desk.oms.Keyed ∧ w.desk.oms.orders.get? order.clientOrderId = some order)
      (SimulatedBroker.placeOrder sys.env sys.hooks now order)
      (fun _ w => Open order w ∧ (w.broker.find order.clientOrderId).isSome)
      (fun _ w => Open order w ∧ w.broker.find order.clientOrderId = none) := by
  have hlive : order.status.isTerminal = false := by
    rw [new.status]
    rfl
  unfold SimulatedBroker.placeOrder
  refine Effect.Moves.read fun w hw => ?_
  obtain ⟨hk, hknown⟩ := hw
  -- an order whose tag the broker knows is answered with the one it has
  cases hfind : w.broker.find order.clientOrderId with
  | some existing =>
    refine Effect.Moves.pure ?_
    rintro _ rfl
    exact ⟨⟨order, hknown, rfl, hlive⟩, by rw [hfind]; rfl⟩
  | none =>
    refine Effect.Moves.read ?_
    rintro _ rfl
    refine moves_ofExcept (fun checked _ => ?_) ?_
    · refine moves_ofExcept (fun reserved hreserved => ?_) ?_
      · refine Effect.Moves.after ?_ (Effect.Moves.pure fun _ h => h)
        rintro _ rfl
        refine ⟨.single (.accepted now hknown new hfind checked.2.ltp_pos hreserved), ?_⟩
        generalize hsim : sys.env.newSimOrder order reserved now w.broker = sim
        have hcoid : sim.clientOrderId = order.clientOrderId := by rw [← hsim]; rfl
        have hstatus : sim.status.isTerminal = false := by
          rw [← hsim]
          show (if order.intent.orderType = .slM then OrderStatus.triggerPending
            else .open).isTerminal = false
          split <;> rfl
        constructor
        · have hget : (((w.mapBroker fun b => (b.accept sim).markDirty sim.brokerOrderId).save
              sys.hooks).broker.orders.get? sim.brokerOrderId) = some sim := Dict.get?_set_self _ _ _
          rw [World.notify_of_get _ hget]
          exact open_after_update hk hknown hcoid hlive hstatus
        · rw [SimulatedBroker.find, World.notify_byTag, World.notify_orders, ← hcoid]
          show ((((w.broker.byTag.set sim.clientOrderId sim.brokerOrderId).get?
            sim.clientOrderId)).bind (w.broker.orders.set sim.brokerOrderId sim).get?).isSome = true
          rw [Dict.get?_set_self, Option.bind_some, Dict.get?_set_self]
          rfl
      · rintro e _ - rfl
        exact ⟨⟨order, hknown, rfl, hlive⟩, hfind⟩
    · rintro e _ - rfl
      exact ⟨⟨order, hknown, rfl, hlive⟩, hfind⟩

/-- Placing through a connection: what raises and may have placed the order says so. -/
theorem quiet_through (now : Instant) {order : Order} (new : order.New) (delivery : Delivery) :
    Effect.Moves (Quiet sys Allowed)
      (fun w => w.desk.oms.Keyed ∧ w.desk.oms.orders.get? order.clientOrderId = some order)
      ((delivery.through (sys.adapter now)).placeOrder order)
      (fun _ w => Open order w ∧ (w.broker.find order.clientOrderId).isSome)
      (fun e w => Open order w ∧
        (e.notPlacedReason ≠ none → w.broker.find order.clientOrderId = none)) := by
  cases delivery with
  | delivered =>
    exact (quiet_placeOrder sys Allowed now new).conseq (fun _ h => h) (fun _ _ h => h)
      fun _ _ h => ⟨h.1, fun _ => h.2⟩
  | lost reached message =>
    cases reached with
    -- the broker has acted, and the error that comes back does not say that it has not
    | true =>
      refine Effect.Moves.bind
        (Effect.Moves.attempt (U := fun _ w => Open order w)
          (quiet_placeOrder sys Allowed now new) (fun _ _ h => h.1) fun _ _ h => h.1) fun _ => ?_
      exact Effect.Moves.throw fun w h => ⟨h, fun hc => absurd rfl hc⟩
    | false =>
      refine Effect.Moves.throw fun w h => ⟨⟨order, h.2, rfl, ?_⟩, fun hc => absurd rfl hc⟩
      rw [new.status]
      rfl

theorem quiet_place (now : Instant) {order : Order} (new : order.New) (delivery : Delivery)
    (allowed : Allowed order) :
    Effect.Moves (Quiet sys Allowed)
      (fun w => w.desk.oms.Keyed ∧ order.intent.bookId = w.desk.oms.bookId ∧
        w.desk.oms.orders.get? order.clientOrderId = none ∧ w.desk.oms.Room order)
      (OMS.place (delivery.through (sys.adapter now)) order)
      (fun _ => Recorded order.clientOrderId) (fun _ _ => False) := by
  unfold OMS.place
  refine Effect.Moves.after (M := fun w => w.desk.oms.Keyed ∧
    w.desk.oms.orders.get? order.clientOrderId = some order) ?_ ?_
  · rintro w ⟨hk, hbook, hfresh, hroom⟩
    refine ⟨.single (.registered new allowed hbook hfresh hroom), ?_, Dict.get?_set_self _ _ _⟩
    exact OMS.keyed_set hk (OMS.register_orders _ _) rfl
  refine Effect.Moves.bind (Effect.Moves.attempt
    (U := fun r w => Open order w ∧
      match r with
      | .ok _ => (w.broker.find order.clientOrderId).isSome
      | .error e => e.notPlacedReason ≠ none → w.broker.find order.clientOrderId = none)
    (quiet_through sys Allowed now new delivery) (fun _ _ h => h) fun _ _ h => h) fun r => ?_
  cases r with
  | ok ack =>
    refine Effect.Moves.after (M := Recorded order.clientOrderId) ?_ ?_
    · rintro w ⟨⟨known, hknown, -, -⟩, hplaced⟩
      exact ⟨.single (.acked ack hknown hplaced), fun _ _ _ => hplaced⟩
    · refine Effect.Moves.read fun w hw => Effect.Moves.pure ?_
      rintro _ rfl
      exact hw
  | error exc =>
    refine Effect.Moves.after (M := Recorded order.clientOrderId) ?_ ?_
    · rintro w ⟨⟨known, hknown, hintent, hlive⟩, hfree⟩
      refine ⟨.single (.unplaced hknown hintent hlive hfree), fun changed hchanged hs => ?_⟩
      obtain ⟨status, event, hcases, horders, -, -⟩ := OMS.placeFailed_spec exc hknown
      have hget : (w.desk.oms.placeFailed order exc).orders.get? order.clientOrderId =
          some changed := hchanged
      rw [horders, Dict.get?_set_self, Option.some.injEq] at hget
      rw [← hget] at hs
      -- it is UNKNOWN or REJECTED by now
      rcases hcases with ⟨rfl, -⟩ | ⟨rfl, -⟩ <;> cases hs
    · refine Effect.Moves.read fun w hw => ?_
      cases exc.notPlacedReason with
      | none =>
        refine Effect.Moves.pure ?_
        rintro _ rfl
        exact hw
      | some reason =>
        refine Effect.Moves.pure ?_
        rintro _ rfl
        exact hw

/-- The order of an intent is allowed whenever the gate lets it pass. -/
def Passes (config : OmsConfig) (Allowed : Order → Prop) (gate : Gate) (intent : OrderIntent) :
    Prop :=
  ∀ o qty result q now, (gate o intent qty).result = .ok result → 0 < result.quantity →
    Allowed (OMS.newOrder config intent q now)

theorem quiet_submit (now brokerNow : Instant) (intent : OrderIntent) (quantity : Option ℤ)
    {gate : Gate} (hgate : Passes sys.config Allowed gate intent) (delivery : Delivery)
    {w : Paper T} (hk : w.desk.oms.Keyed) :
    Effect.Moves (Quiet sys Allowed) (Eq w)
      (OMS.submit sys.config (delivery.through (sys.adapter brokerNow)) (some gate.asOrderGate) now
        intent quantity)
      (fun _ => Submitted (sys.config.clientOrderId intent.intentId) w)
      (fun _ => Submitted (sys.config.clientOrderId intent.intentId) w) := by
  have hnothing : Submitted (sys.config.clientOrderId intent.intentId) w w := .inr ⟨rfl, rfl⟩
  unfold OMS.submit
  refine Effect.Moves.read ?_
  rintro _ rfl
  cases hchecked : w.desk.oms.precheck sys.config (some (gate.asOrderGate (B := SimulatedBroker)
      (T := T))).isSome intent quantity with
  | error result =>
    refine Effect.Moves.pure ?_
    rintro _ rfl
    exact hnothing
  | ok qty =>
    obtain ⟨hbook, hfresh, hreduce⟩ := OMS.precheck_spec hchecked
    -- the gate records its decisions and leaves orders and book alone
    refine Effect.Moves.bind (Q := fun decision w' => w'.broker = w.broker ∧
        w'.desk.oms.orders = w.desk.oms.orders ∧ w'.desk.oms.book = w.desk.oms.book ∧
        (gate w.desk.oms intent qty).result = .ok decision) ?_ fun decision => ?_
    · unfold Gate.asOrderGate
      refine Effect.Moves.read ?_
      rintro _ rfl
      refine Effect.Moves.after (M := fun w' => w'.broker = w.broker ∧
        w'.desk.oms.orders = w.desk.oms.orders ∧ w'.desk.oms.book = w.desk.oms.book) ?_ ?_
      · rintro _ rfl
        have hasides : ∀ p ∈ (gate w.desk.oms intent qty).decisions.map EventPayload.riskDecision,
            p.Aside := by
          intro p hp
          obtain ⟨d, -, rfl⟩ := List.mem_map.mp hp
          exact trivial
        have hstep : Quiet sys Allowed w _ := .emitted hasides
        rw [List.map_map] at hstep
        exact ⟨.single hstep, rfl, rfl, rfl⟩
      · cases hres : (gate w.desk.oms intent qty).result with
        | ok result => exact Effect.Moves.pure fun _ h => ⟨h.1, h.2.1, h.2.2, rfl⟩
        | error e => exact Effect.Moves.throw fun _ h => .inr ⟨h.1, h.2.1⟩
    · cases hsized : OMS.sized qty decision with
      | error result => exact Effect.Moves.pure fun _ h => .inr ⟨h.1, h.2.1⟩
      | ok q =>
        obtain ⟨hpos, hasked⟩ := OMS.sized_spec hsized
        dsimp only
        intro w' hw'
        obtain ⟨-, horders, hbook', hdecision⟩ := hw'
        have hnew : (OMS.newOrder sys.config intent q now).New := ⟨rfl, rfl, rfl, rfl⟩
        refine (quiet_place sys Allowed brokerNow hnew delivery
          (hgate w.desk.oms qty decision q now hdecision hpos)).conseq (fun _ h => h)
          (fun _ _ h => .inl h) (fun _ _ h => absurd h id) w' ⟨?_, ?_, ?_, ?_⟩
        · exact OMS.keyed_of_eq hk horders
        · rw [OMS.bookId, hbook']
          exact hbook
        · rw [horders]
          exact hfresh
        · intro hro
          obtain ⟨clipped, rfl, hle⟩ := hreduce hro
          have hq := hasked clipped rfl
          have hreducible : w'.desk.oms.reducible intent = w.desk.oms.reducible intent := by
            rw [OMS.reducible, OMS.reducible, OMS.committed, OMS.committed, horders, hbook']
          show (OMS.newOrder sys.config intent q now).remainingQty ≤
            w'.desk.oms.reducible intent
          rw [hreducible]
          have hrem : (OMS.newOrder sys.config intent q now).remainingQty = q.1 := sub_zero _
          omega

end placing

section cancelling

variable (sys : System T) (Allowed : Order → Prop)

theorem quiet_cancel (now : Instant) (coid : String) :
    Effect.Moves (Quiet sys Allowed) (fun _ => True) (OMS.cancel (sys.adapter now) coid)
      anyEnd anyEnd := by
  unfold OMS.cancel
  refine Effect.Moves.read fun w _ => ?_
  split
  · exact Effect.Moves.pure fun _ _ => trivial
  · split
    · have hmoves := BrokerStep.moves_cancelOrder
        (BrokerStep.rules sys.env sys.hooks (fun _ _ => false) fun _ _ => False) now
      exact Effect.Moves.bind (Q := anyEnd)
        (((hmoves _).lift fun _ _ => .broker).conseq (fun _ _ => trivial) (fun _ _ h => h)
          fun _ _ h => h) fun _ => Effect.Moves.pure fun _ _ => trivial
    · exact Effect.Moves.pure fun _ _ => trivial

end cancelling

end System

end RakshaQuant
