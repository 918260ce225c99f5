import RakshaQuant.Brokers.Simulated.Broker
import RakshaQuant.Oms.Effects
import RakshaQuant.Risk.Engine

/-! The desk as it is wired for paper trading: an OMS subscribed to the simulated
broker, a gate before it and a listener behind it. An operation runs to its end,
or until it raises, before the next one starts; it brings along what the clocks
read, what the gate answers and what becomes of the broker's acknowledgement. -/

namespace RakshaQuant

/-- What becomes of a call of `place_order`: its answer arrives, or it is lost
after or before the call reached the broker. -/
inductive Delivery
  | delivered
  | lost (reached : Bool) (message : String)

/-- A broker behind a connection. -/
def Delivery.through {W : Type} (d : Delivery) (adapter : BrokerAdapter W) : BrokerAdapter W :=
  { adapter with
    placeOrder := fun order =>
      match d with
      | .delivered => adapter.placeOrder order
      | .lost true message => do
        let _ ← Effect.attempt (adapter.placeOrder order)
        throw (.broker .transportError message)
      | .lost false message => throw (.broker .transportError message) }

/-- The desk's subscription: rows go to the journal its events go to. -/
def Desk.hooks {T : Type} (listener : FillListener T) : Hooks (Desk T) where
  onUpdate := fun snap => mapOms (OMS.onUpdate snap)
  onFill := Desk.onFill listener
  putMany := fun rows => mapOms fun o => { o with sink := o.sink ++ [.rows rows] }

/-- A fill at the desk is the OMS's, and then alerts of the listener. -/
theorem Desk.onFill_oms {T : Type} (listener : FillListener T) (fill : Fill) (d : Desk T) :
    ∃ as : List Alert, (Desk.onFill listener fill d).state.oms =
      { (OMS.onFill fill d.oms).state with
        sink := (OMS.onFill fill d.oms).state.sink ++ as.map (.event ∘ .alert) } := by
  unfold Desk.onFill
  cases OMS.onFill fill d.oms with
  | error e o => exact ⟨[], by simp⟩
  | ok r o =>
    cases r with
    | none => exact ⟨[], by simp⟩
    | some order => exact ⟨(listener fill order o d.ext).2, rfl⟩

/-- What stays the same over a run. -/
structure System (T : Type) where
  env : SimEnv
  config : OmsConfig
  listener : FillListener T

/-- An operation on the desk. -/
inductive Op
  | submit (now brokerNow : Instant) (intent : OrderIntent) (quantity : Option ℤ) (gate : Gate)
      (delivery : Delivery)
  | cancel (now : Instant) (clientOrderId : String)
  | quote (quote : Quote)
  | expireSession (now : Instant)
  | resolveUnknown (now : Instant)
  | reconcile (now : Instant)

/-- The simulated broker and the desk on it. -/
abbrev Paper (T : Type) := World SimulatedBroker (Desk T)

namespace System

variable {T : Type} (sys : System T)

def hooks : Hooks (Desk T) := Desk.hooks sys.listener

def adapter (now : Instant) : BrokerAdapter (Paper T) := SimulatedBroker.adapter sys.env sys.hooks now

/-- One operation. -/
def exec : Op → EStateM Exc (Paper T) PUnit
  | .submit now brokerNow intent quantity gate delivery => do
    let _ ← OMS.submit sys.config (delivery.through (sys.adapter brokerNow))
      (some gate.asOrderGate) now intent quantity
  | .cancel now coid => OMS.cancel (sys.adapter now) coid
  | .quote quote => do
    let _ ← SimulatedBroker.onQuote sys.env sys.hooks quote
  | .expireSession now => SimulatedBroker.expireSession sys.hooks now
  | .resolveUnknown now => OMS.resolveUnknown sys.config (sys.adapter now) sys.listener now
  | .reconcile now => do
    let _ ← OMS.reconcile (sys.adapter now) sys.listener now

/-- The state an operation leaves behind, also when it raises. -/
def after (w : Paper T) (op : Op) : Paper T := (sys.exec op w).state

def run (w : Paper T) (ops : List Op) : Paper T := ops.foldl sys.after w

/-- A fresh broker and a fresh OMS with the same cash. -/
def init (startingCash : ℚ) (ext : T) : Paper T :=
  ⟨.init startingCash, ⟨.init (.init sys.env.bookId startingCash), ext⟩⟩

end System

end RakshaQuant
