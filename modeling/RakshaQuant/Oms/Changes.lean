import RakshaQuant.Oms.Headroom

/-! What can happen to an OMS that is in step with its broker, and what its log
says of it. Everything that is rebuilt from the log, and every bound on the
orders, is kept by each of these changes. -/

namespace RakshaQuant

/-- An order as a submission registers it. -/
structure Order.New (order : Order) : Prop where
  status : order.status = .submitted
  filledQty : order.filledQty = 0
  avgFillPrice : order.avgFillPrice = none
  brokerOrderId : order.brokerOrderId = none

/-- An event that says nothing about an order's life. -/
def EventPayload.Aside : EventPayload → Prop
  | .positionChanged _ _ | .tradeClosed _ | .reconciliationResult _ | .alert _
  | .riskDecision _ => True
  | _ => False

namespace OMS

/-- What an event says of the status and broker id an order moves to. -/
inductive Tells (known : Order) : OrderStatus → Option String → EventPayload → Prop
  | acked {status : OrderStatus} {boid : String}
      (named : known.brokerOrderId = none ∨ known.brokerOrderId = some boid)
      (ended : known.status.isTerminal = true → status = known.status)
      (stands : status = known.status ∨ (status ≠ .submitted ∧ status ≠ .unknown)) :
      Tells known status (some boid) (.orderAcked (ref known) boid status)
  | unknown (error : String) :
      Tells known .unknown known.brokerOrderId (.orderUnknown (ref known) error)
  | rejected (reason message : String) :
      Tells known .rejected known.brokerOrderId (.orderRejected (ref known) reason message)
  | cancelled (reason : String) :
      Tells known .cancelled known.brokerOrderId
        (.orderCancelled (ref known) known.filledQty reason)
  | expired : Tells known .expired known.brokerOrderId (.orderExpired (ref known) known.filledQty)

/-- One change, with the orders a gate lets pass. -/
inductive Change (Allowed : Order → Prop) (o o' : OMS) : Prop
  | noted {es : List EventPayload} (asides : ∀ p ∈ es, p.Aside) (orders : o'.orders = o.orders)
      (book : o'.book = o.book) (logged : events o'.sink = events o.sink ++ es)
  /-- An order's version is counted, and nothing else. -/
  | recounted {k : String} {known : Order} {version : ℕ} (held : o.orders.get? k = some known)
      (orders : o'.orders = o.orders.set k { known with version := version })
      (book : o'.book = o.book) (logged : events o'.sink = events o.sink)
  | registered {order : Order} (new : order.New) (allowed : Allowed order)
      (ours : order.intent.bookId = o.bookId) (fresh : o.orders.get? order.clientOrderId = none)
      (room : o.Room order) (orders : o'.orders = o.orders.set order.clientOrderId order)
      (book : o'.book = o.book) (logged : events o'.sink = events o.sink ++ [.orderSubmitted order])
  | moved {k : String} {known : Order} {status : OrderStatus} {boid : Option String}
      {version : ℕ} {event : EventPayload} (held : o.orders.get? k = some known)
      (tells : Tells known status boid event)
      (live : status.isTerminal = false → known.status.isTerminal = false)
      (orders : o'.orders = o.orders.set k
        { known with brokerOrderId := boid, status := status, version := version })
      (book : o'.book = o.book) (logged : events o'.sink = events o.sink ++ [event])
  | filled {k : String} {known : Order} {fill : Fill} {version : ℕ} {es es' : List EventPayload}
      (held : o.orders.get? k = some known) (of : fill.clientOrderId = k)
      (live : known.status.isTerminal = false) (ours : fill.bookId = o.bookId)
      (fresh : fill.fillId ∉ o.book.seen)
      (key : fill.instrumentKey = known.intent.instrument.key)
      (side : fill.side = known.intent.side) (within : fill.quantity ≤ known.remainingQty)
      (orders : o'.orders = o.orders.set k (known.afterFill fill version))
      (book : o'.book = o.book.record (known.application fill))
      (before : ∀ p ∈ es, p.Aside) (after : ∀ p ∈ es', p.Aside)
      (logged : events o'.sink = events o.sink ++ es ++
        [.fillReceived fill (statusAfter known fill) (filledAfter known fill)
          (avgAfter known fill)] ++ es')

/-- Nothing an event tells has changed. -/
theorem Change.still {Allowed : Order → Prop} {o o' : OMS} (horders : o'.orders = o.orders)
    (hbook : o'.book = o.book) (hlogged : events o'.sink = events o.sink) : Change Allowed o o' :=
  .noted (List.forall_mem_nil _) horders hbook (by rw [hlogged, List.append_nil])

/-- The log only grows. -/
theorem Change.logged {Allowed : Order → Prop} {o o' : OMS} (h : Change Allowed o o') :
    ∃ ps, events o'.sink = events o.sink ++ ps := by
  cases h with
  | noted _ _ _ logged => exact ⟨_, logged⟩
  | recounted _ _ _ logged => exact ⟨[], by rw [logged, List.append_nil]⟩
  | registered _ _ _ _ _ _ _ logged => exact ⟨_, logged⟩
  | moved _ _ _ _ _ logged => exact ⟨_, logged⟩
  | filled _ _ _ _ _ _ _ _ _ _ _ _ logged =>
    exact ⟨_, by rw [logged, List.append_assoc, List.append_assoc]⟩

/-- A change starts from the orders, the book and the events, not from the rows
between the events. -/
theorem Change.of_events {Allowed : Order → Prop} {o o' o₀ : OMS} (h : Change Allowed o o')
    (hevents : events o.sink = events o₀.sink) (horders : o.orders = o₀.orders)
    (hbook : o.book = o₀.book) : Change Allowed o₀ o' := by
  cases h with
  | noted asides orders book logged =>
    exact .noted asides (orders.trans horders) (book.trans hbook) (hevents ▸ logged)
  | recounted held orders book logged =>
    exact .recounted (horders ▸ held) (horders ▸ orders) (book.trans hbook) (logged.trans hevents)
  | registered new allowed ours fresh room orders book logged =>
    refine .registered new allowed ?_ (horders ▸ fresh) ?_ (horders ▸ orders) (book.trans hbook)
      (hevents ▸ logged)
    · rw [ours, bookId, bookId, hbook]
    · intro hro
      have hreducible := room hro
      rw [reducible, committed, hbook, horders] at hreducible
      exact hreducible
  | moved held tells live orders book logged =>
    exact .moved (horders ▸ held) tells live (horders ▸ orders) (book.trans hbook)
      (hevents ▸ logged)
  | filled held of live ours fresh key side within orders book before after logged =>
    refine .filled (horders ▸ held) of live ?_ (hbook ▸ fresh) key side within (horders ▸ orders)
      (hbook ▸ book) before after (hevents ▸ logged)
    rw [ours, bookId, bookId, hbook]

/-- No order is filled beyond its quantity, as an order's validator demands. -/
def WithinQuantity (o : OMS) : Prop :=
  ∀ coid order, o.orders.get? coid = some order → order.filledQty ≤ order.quantity

/-- Every change keeps the orders within their quantities. -/
theorem Change.withinQuantity {Allowed : Order → Prop} {o o' : OMS} (h : Change Allowed o o')
    (ho : o.WithinQuantity) : o'.WithinQuantity := by
  have hset : ∀ {k : String} {changed : Order}, o'.orders = o.orders.set k changed →
      changed.filledQty ≤ changed.quantity → o'.WithinQuantity := by
    intro k changed horders hchanged coid order hget
    rw [horders, Dict.get?_set_iff] at hget
    rcases hget with ⟨-, rfl⟩ | ⟨-, hold⟩
    · exact hchanged
    · exact ho coid order hold
  cases h with
  | noted _ orders _ _ =>
    intro coid order hget
    exact ho coid order (orders ▸ hget)
  | @recounted k known version held orders _ _ => exact hset orders (ho k known held)
  | @registered order new _ _ _ _ orders _ _ =>
    refine hset orders ?_
    rw [new.filledQty]
    exact order.quantity_pos.le
  | @moved k known _ _ _ _ held _ _ orders _ _ => exact hset orders (ho k known held)
  | filled _ _ _ _ _ _ _ _ orders _ _ _ _ => exact hset orders (min_le_right _ _)

/-- An update that the order's status may move to is taken over and told. -/
theorem onUpdate_moves (Allowed : Order → Prop) {o : OMS} {snap : BrokerOrderSnapshot}
    {known : Order} (hk : o.Keyed) (held : o.orders.get? snap.clientOrderId = some known)
    (hstatus : snap.status = .open ∨ snap.status = .triggerPending ∨ snap.status = .cancelled ∨
      snap.status = .expired)
    (hadvances : advances known.status snap.status false = true)
    (hnamed : snap.status = .open ∨ snap.status = .triggerPending → known.brokerOrderId = none ∨
      known.brokerOrderId = some snap.brokerOrderId)
    (hended : snap.status = .cancelled ∨ snap.status = .expired →
      known.brokerOrderId = some snap.brokerOrderId ∧ snap.filledQty = known.filledQty) :
    (∃ version, (o.onUpdate snap).orders = o.orders.set snap.clientOrderId
      { known with
        brokerOrderId := some snap.brokerOrderId, status := snap.status, version := version }) ∧
      Change Allowed o (o.onUpdate snap) := by
  have hlive : known.status.isTerminal = false := by
    cases hs : known.status.isTerminal with
    | false => rfl
    | true =>
      rw [advances_terminal hs] at hadvances
      cases hadvances
  have hboid : some (known.brokerOrderId.getD snap.brokerOrderId) = some snap.brokerOrderId := by
    have : known.brokerOrderId = none ∨ known.brokerOrderId = some snap.brokerOrderId := by
      rcases hstatus with h | h | h | h
      · exact hnamed (.inl h)
      · exact hnamed (.inr h)
      · exact .inr (hended (.inl h)).1
      · exact .inr (hended (.inr h)).1
    rcases this with h | h <;> rw [h] <;> rfl
  obtain ⟨hbook, ⟨-, -, -, version, horders, hsink⟩ | ⟨hnot, -⟩⟩ := onUpdate_known hk held
  · rw [hboid] at horders
    have hlogged : events (o.onUpdate snap).sink = events o.sink ++ [updateEvent known snap] := by
      rw [hsink, events_append, events_event]
    refine ⟨⟨version, horders⟩, .moved held ?_ (fun _ => hlive) horders hbook hlogged⟩
    unfold updateEvent
    rcases hstatus with h | h | h | h <;> rw [h]
    · exact .acked (hnamed (.inl h)) (fun hs => by rw [hlive] at hs; cases hs) (.inr (by decide))
    · exact .acked (hnamed (.inr h)) (fun hs => by rw [hlive] at hs; cases hs) (.inr (by decide))
    · obtain ⟨hb, hf⟩ := hended (.inl h)
      rw [hf, ← hb]
      exact .cancelled _
    · obtain ⟨hb, hf⟩ := hended (.inr h)
      rw [hf, ← hb]
      exact .expired
  · refine absurd ⟨?_, ?_, hadvances⟩ hnot <;> rcases hstatus with h | h | h | h <;> rw [h] <;> simp

end OMS

end RakshaQuant
