import RakshaQuant.Oms.Changes

/-! The orders projection: a table of rows kept from the events alone. It counts
statuses, filled quantities and average prices by rules of its own; after each
change of an OMS in step with its broker the rows agree with the orders. -/

namespace RakshaQuant

/-- An event as it is stored: its number, its time as text and its payload. -/
structure StoredEvent where
  seq : ℕ
  tsUtc : String
  payload : EventPayload

/-- Events as the store numbers them, from 1. -/
def StoredEvent.number (ts : String) (ps : List EventPayload) : List StoredEvent :=
  ps.zipIdx.map fun e => ⟨e.2 + 1, ts, e.1⟩

@[simp] theorem StoredEvent.number_payload (ts : String) (ps : List EventPayload) :
    (number ts ps).map StoredEvent.payload = ps := by
  rw [number, List.map_map]
  exact List.zipIdx_map_fst 0 ps

/-- A row of `orders`. -/
structure OrderRow where
  clientOrderId : String
  bookId : String
  decisionId : String
  intentId : String
  instrumentKey : String
  strategy : String
  side : String
  product : String
  orderType : String
  kind : String
  reason : String
  quantity : ℤ
  status : String
  filledQty : ℤ
  avgFillPrice : Option ℚ
  brokerOrderId : Option String
  lastMessage : Option String
  createdSeq : ℕ
  updatedSeq : ℕ
  updatedTs : String
deriving DecidableEq

namespace OrdersProjector

/-- The row a submitted order is inserted as. -/
def row (o : Order) (seq : ℕ) (ts : String) : OrderRow :=
  { clientOrderId := o.clientOrderId, bookId := o.intent.bookId
    decisionId := o.intent.decisionId, intentId := o.intent.intentId
    instrumentKey := o.intent.instrument.key, strategy := o.intent.strategy
    side := o.intent.side.value, product := o.intent.product.value
    orderType := o.intent.orderType.value, kind := o.intent.kind.value
    reason := o.intent.reason.value, quantity := o.quantity, status := o.status.value
    filledQty := o.filledQty, avgFillPrice := o.avgFillPrice, brokerOrderId := o.brokerOrderId
    lastMessage := none, createdSeq := seq, updatedSeq := seq, updatedTs := ts }

/-- `_update`: an event about an order without a row changes nothing. -/
def update (coid : String) (e : StoredEvent) (columns : OrderRow → OrderRow)
    (table : Dict String OrderRow) : Dict String OrderRow :=
  match table.get? coid with
  | none => table
  | some row => table.set coid { columns row with updatedSeq := e.seq, updatedTs := e.tsUtc }

/-- `text or None`. -/
def textOrNone (text : String) : Option String := if text = "" then none else some text

def apply (table : Dict String OrderRow) (e : StoredEvent) : Dict String OrderRow :=
  match e.payload with
  | .orderSubmitted order => table.set order.clientOrderId (row order e.seq e.tsUtc)
  | .orderAcked ref boid status =>
    update ref.clientOrderId e
      (fun row => { row with status := status.value, brokerOrderId := some boid }) table
  | .orderRejected ref reason message =>
    update ref.clientOrderId e
      (fun row =>
        { row with
          status := OrderStatus.rejected.value
          lastMessage := some (if message = "" then reason else reason ++ ": " ++ message) })
      table
  | .orderUnknown ref error =>
    update ref.clientOrderId e
      (fun row =>
        { row with status := OrderStatus.unknown.value, lastMessage := textOrNone error })
      table
  | .orderCancelled ref filledQty reason =>
    update ref.clientOrderId e
      (fun row =>
        { row with
          status := OrderStatus.cancelled.value, filledQty := filledQty
          lastMessage := textOrNone reason })
      table
  | .orderExpired ref filledQty =>
    update ref.clientOrderId e
      (fun row => { row with status := OrderStatus.expired.value, filledQty := filledQty }) table
  | .fillReceived fill status filledQty avgPrice =>
    update fill.clientOrderId e
      (fun row =>
        { row with status := status.value, filledQty := filledQty, avgFillPrice := some avgPrice })
      table
  | _ => table

/-- The table after more events, in order. -/
def project (table : Dict String OrderRow) (stored : List StoredEvent) : Dict String OrderRow :=
  stored.foldl apply table

theorem update_of_get {coid : String} {e : StoredEvent} {columns : OrderRow → OrderRow}
    {table : Dict String OrderRow} {row : OrderRow} (h : table.get? coid = some row) :
    update coid e columns table =
      table.set coid { columns row with updatedSeq := e.seq, updatedTs := e.tsUtc } := by
  rw [update, h]

/-- Events that say nothing about orders change no row. -/
theorem project_asides (table : Dict String OrderRow) {stored : List StoredEvent}
    (h : ∀ e ∈ stored, e.payload.Aside) : project table stored = table := by
  induction stored with
  | nil => rfl
  | cons e rest ih =>
    have hone : apply table e = table := by
      have haside := h e List.mem_cons_self
      unfold apply
      cases hp : e.payload <;> rw [hp] at haside <;> first | rfl | exact absurd haside id
    rw [project, List.foldl_cons, hone]
    exact ih fun e he => h e (List.mem_cons_of_mem _ he)

end OrdersProjector

/-- What the projection answers for of a row: status, filled quantity and average. -/
structure OrderRow.Shows (row : OrderRow) (order : Order) : Prop where
  status : row.status = order.status.value
  filledQty : row.filledQty = order.filledQty
  avgFillPrice : row.avgFillPrice = order.avgFillPrice

namespace OMS

/-- An OMS and a table of rows that shows its orders. -/
structure Projected (o : OMS) (table : Dict String OrderRow) : Prop where
  keyed : o.Keyed
  rows : ∀ coid order, o.orders.get? coid = some order →
    ∃ row, table.get? coid = some row ∧ row.Shows order

namespace Projected

variable {o o' : OMS} {table : Dict String OrderRow}

theorem set (h : Projected o table) {k : String} {changed : Order} {row : OrderRow}
    (horders : o'.orders = o.orders.set k changed) (hid : changed.clientOrderId = k)
    (hshows : row.Shows changed) : Projected o' (table.set k row) := by
  refine ⟨keyed_set h.keyed horders hid, fun coid order ho => ?_⟩
  rw [horders, Dict.get?_set_iff] at ho
  rcases ho with ⟨rfl, rfl⟩ | ⟨hne, hold⟩
  · exact ⟨row, Dict.get?_set_self _ _ _, hshows⟩
  · obtain ⟨row', hrow', hshows'⟩ := h.rows coid order hold
    exact ⟨row', by rw [Dict.get?_set_ne _ _ hne, hrow'], hshows'⟩

/-- The row after a status update. -/
theorem tells (h : Projected o table) {k : String} {known : Order} {status : OrderStatus}
    {boid : Option String} (version : ℕ) {e : StoredEvent} (hk : o.orders.get? k = some known)
    (htells : Tells known status boid e.payload) :
    ∃ row : OrderRow, OrdersProjector.apply table e = table.set k row ∧
      row.Shows { known with brokerOrderId := boid, status := status, version := version } := by
  obtain ⟨row, hrow, hshows⟩ := h.rows k known hk
  have hid : known.clientOrderId = k := h.keyed _ _ hk
  have hupdate : ∀ columns, OrdersProjector.update (ref known).clientOrderId e columns table =
      table.set k { columns row with updatedSeq := e.seq, updatedTs := e.tsUtc } := by
    intro columns
    have hget : table.get? (ref known).clientOrderId = some row :=
      (congrArg table.get? hid).trans hrow
    rw [OrdersProjector.update_of_get hget]
    exact congrArg (table.set · _) hid
  generalize hp : e.payload = payload at htells
  unfold OrdersProjector.apply
  rw [hp]
  cases htells with
  | acked => exact ⟨_, hupdate _, rfl, hshows.filledQty, hshows.avgFillPrice⟩
  | unknown error => exact ⟨_, hupdate _, rfl, hshows.filledQty, hshows.avgFillPrice⟩
  | rejected reason message => exact ⟨_, hupdate _, rfl, hshows.filledQty, hshows.avgFillPrice⟩
  | cancelled reason => exact ⟨_, hupdate _, rfl, rfl, hshows.avgFillPrice⟩
  | expired => exact ⟨_, hupdate _, rfl, rfl, hshows.avgFillPrice⟩

/-- The row after a fill. -/
theorem fill (h : Projected o table) {k : String} {known : Order} {fill : Fill} (version : ℕ)
    {e : StoredEvent} (hk : o.orders.get? k = some known) (hof : fill.clientOrderId = k)
    (he : e.payload = .fillReceived fill (statusAfter known fill) (filledAfter known fill)
      (avgAfter known fill)) :
    ∃ row : OrderRow, OrdersProjector.apply table e = table.set k row ∧
      row.Shows (known.afterFill fill version) := by
  obtain ⟨row, hrow, -⟩ := h.rows k known hk
  unfold OrdersProjector.apply
  rw [he]
  dsimp only
  rw [hof, OrdersProjector.update_of_get hrow]
  exact ⟨_, rfl, rfl, rfl, rfl⟩

/-- **The step lemma.** After a change the rows show the orders again. -/
theorem change {Allowed : Order → Prop} (h : Projected o table)
    (hchange : Change Allowed o o') :
    ∃ ps, events o'.sink = events o.sink ++ ps ∧ ∀ stored : List StoredEvent,
      stored.map StoredEvent.payload = ps →
        Projected o' (OrdersProjector.project table stored) := by
  have hone : ∀ (stored : List StoredEvent) (event : EventPayload),
      stored.map StoredEvent.payload = [event] → ∃ e, stored = [e] ∧ e.payload = event := by
    intro stored event hstored
    obtain ⟨e, rfl, he⟩ := List.map_eq_singleton_iff.mp hstored
    exact ⟨e, rfl, he⟩
  have hasides : ∀ (stored : List StoredEvent) (ps : List EventPayload), (∀ p ∈ ps, p.Aside) →
      stored.map StoredEvent.payload = ps → ∀ e ∈ stored, e.payload.Aside := by
    rintro stored _ hps rfl e he
    exact hps _ (List.mem_map_of_mem he)
  cases hchange with
  | @noted es asides orders book logged =>
    refine ⟨es, logged, fun stored hstored => ?_⟩
    rw [OrdersProjector.project_asides table (hasides stored es asides hstored)]
    exact ⟨keyed_of_eq h.keyed orders, by rw [orders]; exact h.rows⟩
  -- a version is no column of the table, and no event is written for it
  | @recounted _ known version held orders book logged =>
    refine ⟨[], by rw [logged, List.append_nil], fun stored hstored => ?_⟩
    obtain rfl := List.map_eq_nil_iff.mp hstored
    obtain ⟨row, hrow, hshows⟩ := h.rows _ _ held
    have hcounted : row.Shows { known with version := version } :=
      ⟨hshows.status, hshows.filledQty, hshows.avgFillPrice⟩
    have hset := h.set orders (h.keyed _ _ held :) hcounted
    rw [Dict.set_of_get hrow] at hset
    exact hset
  | @registered order new _ _ _ _ orders book logged =>
    refine ⟨_, logged, fun stored hstored => ?_⟩
    obtain ⟨e, rfl, he⟩ := hone _ _ hstored
    have happly : OrdersProjector.project table [e] =
        table.set order.clientOrderId (OrdersProjector.row order e.seq e.tsUtc) := by
      show OrdersProjector.apply table e = _
      unfold OrdersProjector.apply
      rw [he]
    rw [happly]
    exact h.set orders rfl ⟨rfl, rfl, rfl⟩
  | @moved k known status boid version event held tells _ orders book logged =>
    refine ⟨_, logged, fun stored hstored => ?_⟩
    obtain ⟨e, rfl, rfl⟩ := hone _ _ hstored
    obtain ⟨row, happly, hshows⟩ := h.tells version held tells
    have hproject : OrdersProjector.project table [e] = table.set k row := happly
    rw [hproject]
    exact h.set orders (h.keyed _ _ held :) hshows
  -- around the FillReceived stand events that are no concern of the orders table
  | @filled k known fill version es es' held hof _ _ _ _ _ _ orders book before after logged =>
    refine ⟨_, by rw [logged, List.append_assoc, List.append_assoc], fun stored hstored => ?_⟩
    obtain ⟨first, rest, rfl, hfirst, hrest⟩ := List.map_eq_append_iff.mp hstored
    obtain ⟨mid, last, rfl, hmid, hlast⟩ := List.map_eq_append_iff.mp hrest
    obtain ⟨e, rfl, he⟩ := hone _ _ hmid
    obtain ⟨row, happly, hshows⟩ := h.fill version held hof he
    have hproject : OrdersProjector.project table (first ++ ([e] ++ last)) = table.set k row := by
      rw [OrdersProjector.project, List.foldl_append, List.foldl_append]
      show OrdersProjector.project (OrdersProjector.apply (OrdersProjector.project table first) e)
        last = _
      rw [OrdersProjector.project_asides table (hasides _ _ before hfirst), happly,
        OrdersProjector.project_asides _ (hasides _ _ after hlast)]
    rw [hproject]
    exact h.set orders (h.keyed _ _ held :) hshows

theorem init (book : PositionBook) : Projected (OMS.init book) .empty where
  keyed _ _ h := by cases h
  rows _ _ h := by cases h

/-- The run lemma, by induction on the changes. -/
theorem changes {Allowed : Order → Prop} {book : PositionBook}
    (hchanges : Relation.ReflTransGen (Change Allowed) (OMS.init book) o)
    {stored : List StoredEvent} (hstored : stored.map StoredEvent.payload = events o.sink) :
    Projected o (OrdersProjector.project .empty stored) := by
  induction hchanges generalizing stored with
  | refl =>
    obtain rfl := List.map_eq_nil_iff.mp hstored
    exact .init book
  | tail _ hchange ih =>
    obtain ⟨ps, hlogged⟩ := hchange.logged
    rw [hlogged] at hstored
    obtain ⟨first, rest, rfl, hfirst, hrest⟩ := List.map_eq_append_iff.mp hstored
    obtain ⟨ps', hlogged', hmore⟩ := (ih hfirst).change hchange
    obtain rfl : ps' = ps := List.append_cancel_left (hlogged'.symm.trans hlogged)
    rw [OrdersProjector.project, List.foldl_append]
    exact hmore rest hrest

end Projected

end OMS

end RakshaQuant
