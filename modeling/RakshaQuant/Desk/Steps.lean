import RakshaQuant.Brokers.Simulated.Steps
import RakshaQuant.Desk.System
import RakshaQuant.Oms.Changes

/-! Every operation, whether it returns or raises, is a sequence of small steps,
each with what the code has checked when it takes it. A property of all runs is
then a property that each of these steps keeps. -/

namespace RakshaQuant

namespace OMS

/-- What `precheck` lets pass: a new intent of this book, and for a reduce-only one
a quantity that is reducible. -/
theorem precheck_spec {config : OmsConfig} {hasGate : Bool} {intent : OrderIntent}
    {quantity qty : Option ℤ} {o : OMS} (h : o.precheck config hasGate intent quantity = .ok qty) :
    intent.bookId = o.bookId ∧ o.orders.get? (config.clientOrderId intent.intentId) = none ∧
      (intent.reduceOnly = true → ∃ clipped, qty = some clipped ∧ clipped ≤ o.reducible intent) := by
  unfold precheck at h
  split at h
  · cases h
  rename_i hbook
  split at h
  · cases h
  split at h
  · cases h
  rename_i hnone
  refine ⟨not_not.mp hbook, hnone, fun hro => ?_⟩
  dsimp only at h
  rw [if_pos hro] at h
  split at h
  · cases h
  cases h
  refine ⟨_, rfl, ?_⟩
  cases (quantity <|> intent.quantity) with
  | none => exact le_rfl
  | some q => exact min_le_left _ _

theorem sized_spec {qty : Option ℤ} {decision : GateResult} {q : { q : ℤ // 0 < q }}
    (h : sized qty decision = .ok q) :
    0 < decision.quantity ∧ ∀ asked, qty = some asked → q.1 ≤ asked := by
  unfold sized at h
  split at h
  · cases h
  rename_i hpos
  refine ⟨not_le.mp hpos, fun asked hasked => ?_⟩
  subst hasked
  dsimp only [Option.map_some, Option.getD_some] at h
  split at h
  · cases h
    exact min_le_right _ _
  · cases h

end OMS

namespace System

open BrokerStep (anyEnd)

variable {T : Type}

/-- A small step. `Allowed` holds of the orders the gate lets pass. -/
inductive Step (sys : System T) (Allowed : Order → Prop) : Paper T → Paper T → Prop
  | settled {w : Paper T} (today : Day) : Step sys Allowed w (w.mapBroker (.settle today))
  | observed {w : Paper T} (quote : Quote) (today : Day) :
      Step sys Allowed w (w.mapBroker (.observe quote today))
  | counted {w : Paper T} (boid : String) : Step sys Allowed w (w.mapBroker (.countQuote boid))
  /-- A resting stop is triggered. -/
  | triggered {w : Paper T} {boid : String} {so : SimOrder} (ts : Instant)
      (held : w.broker.orders.get? boid = some so) (pending : so.status = .triggerPending) :
      Step sys Allowed w ((w.mapBroker (.trigger boid ts)).notify sys.hooks boid)
  /-- A live order ends without a fill. -/
  | finished {w : Paper T} {boid : String} {so : SimOrder} {status : OrderStatus}
      (message : String) (ts : Instant) (held : w.broker.orders.get? boid = some so)
      (live : so.status.isLive = true)
      (ends : status = .cancelled ∨ status = .expired ∨
        (status = .rejected ∧ so.status = .triggerPending ∧ so.triggerPrice = none)) :
      Step sys Allowed w (w.finish sys.hooks boid status message ts)
  /-- A live order is filled and the desk is told; it may raise. -/
  | filled {w : Paper T} {boid : String} {so : SimOrder} {instrument : Instrument} {reference : ℚ}
      {qty : { q : ℤ // 0 < q }} {charges : ChargeBreakdown} {quote : Quote}
      {s : SimulatedBroker.Settlement} (dpDay : Option (String × Day))
      (held : w.broker.orders.get? boid = some so) (live : so.status.isLive = true)
      (within : qty.1 ≤ so.remaining)
      (settles : sys.env.settlement so
        (sys.env.newFill so instrument reference qty charges quote) w.broker = .ok (some s)) :
      Step sys Allowed w
        { broker := w.broker.bookFill boid so s dpDay
            (sys.env.newFill so instrument reference qty charges quote)
          desk := (Desk.onFill sys.listener
            (sys.env.newFill so instrument reference qty charges quote) w.desk).state }
  /-- The update after a fill. -/
  | renotified {w : Paper T} {boid : String} {so : SimOrder}
      (held : w.broker.orders.get? boid = some so)
      (filled : so.status = .filled ∨ so.status = .partiallyFilled) :
      Step sys Allowed w (w.notify sys.hooks boid)
  /-- The broker accepts a new order: it is saved, and the desk is told. -/
  | accepted {w : Paper T} {order : Order} {reference reserved : ℚ} (now : Instant)
      (known : w.desk.oms.orders.get? order.clientOrderId = some order) (new : order.New)
      (free : w.broker.find order.clientOrderId = none) (pos : 0 < reference)
      (reserves : sys.env.reservation order reference w.broker = .ok reserved) :
      Step sys Allowed w
        (((w.mapBroker fun b => (b.accept (sys.env.newSimOrder order reserved now w.broker)).markDirty
          (sys.env.newSimOrder order reserved now w.broker).brokerOrderId).save sys.hooks).notify
          sys.hooks (sys.env.newSimOrder order reserved now w.broker).brokerOrderId)
  | saved {w : Paper T} : Step sys Allowed w (w.save sys.hooks)
  | registered {w : Paper T} {order : Order} (new : order.New) (allowed : Allowed order)
      (book : order.intent.bookId = w.desk.oms.bookId)
      (fresh : w.desk.oms.orders.get? order.clientOrderId = none) (room : w.desk.oms.Room order) :
      Step sys Allowed w (w.mapOms (OMS.register order))
  /-- `place_order` raised. -/
  | unplaced {w : Paper T} {order known : Order} {exc : Exc}
      (held : w.desk.oms.orders.get? order.clientOrderId = some known)
      (intent : known.intent = order.intent)
      (live : known.status.isTerminal = false)
      (free : exc.notPlacedReason ≠ none → w.broker.find order.clientOrderId = none) :
      Step sys Allowed w (w.mapOms (OMS.placeFailed order exc))
  /-- `place_order` returned. -/
  | acked {w : Paper T} {order known : Order} (ack : BrokerAck)
      (held : w.desk.oms.orders.get? order.clientOrderId = some known)
      (placed : (w.broker.find order.clientOrderId).isSome) :
      Step sys Allowed w (w.mapOms (OMS.placed order ack))
  | found {w : Paper T} {order known : Order} {so : SimOrder}
      (held : w.desk.oms.orders.get? order.clientOrderId = some known)
      (placed : w.broker.find order.clientOrderId = some so) :
      Step sys Allowed w (w.mapOms (OMS.found order so.snapshot))
  /-- A fill the broker reports is applied if the book has not seen it. -/
  | adopted {w : Paper T} {fill : Fill} (reported : fill ∈ w.broker.fills) :
      Step sys Allowed w { w with desk := (Desk.onFill sys.listener fill w.desk).state }
  | resolved {w : Paper T} {order known : Order} {so : SimOrder}
      (held : w.desk.oms.orders.get? order.clientOrderId = some known)
      (intent : known.intent = order.intent)
      (placed : w.broker.find order.clientOrderId = some so) :
      Step sys Allowed w (w.mapOms (OMS.resolved order so.snapshot))
  | absent {w : Paper T} {order : Order} (now : Instant)
      (held : w.desk.oms.orders.get? order.clientOrderId = some order)
      (free : w.broker.find order.clientOrderId = none) :
      Step sys Allowed w (w.mapOms (OMS.absent sys.config now order))
  /-- Events that say nothing about an order are recorded. -/
  | emitted {w : Paper T} {ps : List EventPayload} (asides : ∀ p ∈ ps, p.Aside) :
      Step sys Allowed w (w.mapOms fun o => { o with sink := o.sink ++ ps.map .event })

/-- Any number of small steps. -/
abbrev Steps (sys : System T) (Allowed : Order → Prop) : Paper T → Paper T → Prop :=
  Relation.ReflTransGen (Step sys Allowed)

/-! ## What the broker does -/

section broker

variable (sys : System T) (Allowed : Order → Prop)

/-- A step of the broker that accepts no order. -/
theorem Step.of_broker {sys : System T} {Allowed : Order → Prop} {w w' : Paper T}
    (h : BrokerStep sys.env sys.hooks (fun _ _ => true) (fun _ _ => False) w w') :
    Step sys Allowed w w' := by
  cases h with
  | settled today => exact .settled today
  | observed quote today => exact .observed quote today
  | counted boid => exact .counted boid
  | triggered ts held pending => exact .triggered ts held pending
  | finished message ts held live ends => exact .finished message ts held live ends
  | filled dpDay held live within settles _ => exact .filled dpDay held live within settles
  | renotified held filled => exact .renotified held filled
  | accepted _ asked _ _ _ => exact asked.elim
  | saved => exact .saved

theorem moves_onQuote (quote : Quote) :
    Effect.Moves (Step sys Allowed) (fun _ => True)
      (SimulatedBroker.onQuote sys.env sys.hooks quote) anyEnd anyEnd :=
  ((BrokerStep.moves_onQuote (BrokerStep.rules sys.env sys.hooks _ _) quote).lift fun _ _ => .of_broker).conseq
    (fun w _ => BrokerOp.allowsQuote_any sys.env sys.hooks quote w) (fun _ _ h => h) fun _ _ h => h

theorem moves_expireSession (now : Instant) :
    Effect.Moves (Step sys Allowed) (fun _ => True)
      (SimulatedBroker.expireSession sys.hooks now) anyEnd anyEnd :=
  (BrokerStep.moves_expireSession (BrokerStep.rules sys.env sys.hooks _ _) now).lift fun _ _ => .of_broker

theorem moves_getFunds (now : Instant) :
    Effect.Moves (Step sys Allowed) (fun _ => True)
      (SimulatedBroker.getFunds now : EStateM Exc (Paper T) Funds) anyEnd anyEnd :=
  (BrokerStep.moves_getFunds (BrokerStep.rules sys.env sys.hooks _ _) now).lift fun _ _ => .of_broker

end broker

end System

end RakshaQuant
