import RakshaQuant.Oms.Restore

/-! The lives of the orders, whatever the broker does. Between fills an OMS rewrites one
order at a time, which keeps its extent and never comes back to life, and its log tells
every status an order takes. So a restart from any part of the log brings the lives back,
even where it does not bring back the ids the orders have at the broker. -/

namespace RakshaQuant

/-- Two copies of an order that agree on its extent and its status. -/
structure Order.Twin (order copy : Order) : Prop where
  id : copy.clientOrderId = order.clientOrderId
  extent : copy.extent = order.extent
  status : copy.status = order.status

namespace Order.Twin

variable {order copy : Order}

theorem refl (order : Order) : Twin order order := ⟨rfl, rfl, rfl⟩

theorem intent (h : Twin order copy) : copy.intent = order.intent := congrArg Prod.fst h.extent

theorem quantity (h : Twin order copy) : copy.quantity = order.quantity :=
  congrArg (fun extent : OrderIntent × ℤ × ℤ => extent.2.1) h.extent

theorem filledQty (h : Twin order copy) : copy.filledQty = order.filledQty :=
  congrArg (fun extent : OrderIntent × ℤ × ℤ => extent.2.2) h.extent

theorem remainingQty (h : Twin order copy) : copy.remainingQty = order.remainingQty := by
  rw [Order.remainingQty, Order.remainingQty, h.quantity, h.filledQty]

theorem commits (h : Twin order copy) (instrumentKey : String) (product : Product) :
    copy.commits instrumentKey product = order.commits instrumentKey product := by
  rw [Order.commits, Order.commits, h.intent, h.status, h.remainingQty]

/-- Both take the same status. -/
theorem withStatus (h : Twin order copy) {changed changed' : Order}
    (hid : changed.clientOrderId = order.clientOrderId) (hextent : changed.extent = order.extent)
    (hid' : changed'.clientOrderId = copy.clientOrderId) (hextent' : changed'.extent = copy.extent)
    (hstatus : changed'.status = changed.status) : Twin changed changed' :=
  ⟨by rw [hid', hid, h.id], by rw [hextent', hextent, h.extent], hstatus⟩

end Order.Twin

namespace OMS

/-- What an event says of the status an order moves to. -/
inductive Announces (known : Order) : OrderStatus → EventPayload → Prop
  | acked (boid : String) {status : OrderStatus}
      (ended : known.status.isTerminal = true → status = known.status) :
      Announces known status (.orderAcked (ref known) boid status)
  | unknown (error : String) : Announces known .unknown (.orderUnknown (ref known) error)
  | rejected (reason message : String) :
      Announces known .rejected (.orderRejected (ref known) reason message)
  | cancelled (filledQty : ℤ) (reason : String) :
      Announces known .cancelled (.orderCancelled (ref known) filledQty reason)
  | expired (filledQty : ℤ) : Announces known .expired (.orderExpired (ref known) filledQty)

/-- What happens to an OMS between two fills, with the orders that may come. -/
inductive Work (Allowed : Order → Prop) (o o' : OMS) : Prop
  | noted {es : List EventPayload} (asides : ∀ p ∈ es, p.Aside) (orders : o'.orders = o.orders)
      (book : o'.book = o.book) (logged : events o'.sink = events o.sink ++ es)
  /-- An order is rewritten with the status it has. -/
  | rewritten {k : String} {known changed : Order} (held : o.orders.get? k = some known)
      (twin : known.Twin changed) (orders : o'.orders = o.orders.set k changed)
      (book : o'.book = o.book) (logged : events o'.sink = events o.sink)
  | moved {k : String} {known changed : Order} {event : EventPayload}
      (held : o.orders.get? k = some known) (id : changed.clientOrderId = known.clientOrderId)
      (extent : changed.extent = known.extent)
      (live : changed.status.isTerminal = false → known.status.isTerminal = false)
      (announces : Announces known changed.status event)
      (orders : o'.orders = o.orders.set k changed) (book : o'.book = o.book)
      (logged : events o'.sink = events o.sink ++ [event])
  | registered {order : Order} (new : order.New) (allowed : Allowed order)
      (ours : order.intent.bookId = o.bookId) (fresh : o.orders.get? order.clientOrderId = none)
      (room : o.Room order) (orders : o'.orders = o.orders.set order.clientOrderId order)
      (book : o'.book = o.book) (logged : events o'.sink = events o.sink ++ [.orderSubmitted order])

/-- A fill of a known order is recorded. -/
structure Booked (o o' : OMS) (known : Order) (fill : Fill) : Prop where
  held : o.orders.get? fill.clientOrderId = some known
  ours : fill.bookId = o.bookId
  fresh : fill.fillId ∉ o.book.seen
  orders : ∃ version, o'.orders = o.orders.set fill.clientOrderId (known.afterFill fill version)
  book : o'.book = o.book.record (known.application fill)
  logged : ∃ es es' : List EventPayload, (∀ p ∈ es, p.Aside) ∧ (∀ p ∈ es', p.Aside) ∧
    events o'.sink = events o.sink ++ (es ++
      .fillReceived fill (statusAfter known fill) (filledAfter known fill) (avgAfter known fill) ::
        es')

/-- Nothing an event tells has changed. -/
theorem Work.still {Allowed : Order → Prop} {o o' : OMS} (horders : o'.orders = o.orders)
    (hbook : o'.book = o.book) (hlogged : events o'.sink = events o.sink) : Work Allowed o o' :=
  .noted (List.forall_mem_nil _) horders hbook (by rw [hlogged, List.append_nil])

namespace Work

variable {Allowed : Order → Prop} {o o' : OMS}

theorem book (h : Work Allowed o o') : o'.book = o.book := by
  cases h with
  | noted _ _ book _ => exact book
  | rewritten _ _ _ book _ => exact book
  | moved _ _ _ _ _ _ book _ => exact book
  | registered _ _ _ _ _ _ book _ => exact book

theorem keyed (h : Work Allowed o o') (hk : o.Keyed) : o'.Keyed := by
  cases h with
  | noted _ orders _ _ => exact keyed_of_eq hk orders
  | rewritten held twin orders _ _ => exact keyed_set hk orders (twin.id.trans (hk _ _ held))
  | moved held id _ _ _ orders _ _ => exact keyed_set hk orders (id.trans (hk _ _ held))
  | registered _ _ _ _ _ orders _ _ => exact keyed_set hk orders rfl

theorem logged (h : Work Allowed o o') : ∃ ps, events o'.sink = events o.sink ++ ps := by
  cases h with
  | noted _ _ _ logged => exact ⟨_, logged⟩
  | rewritten _ _ _ _ logged => exact ⟨[], by rw [logged, List.append_nil]⟩
  | moved _ _ _ _ _ _ _ logged => exact ⟨_, logged⟩
  | registered _ _ _ _ _ _ _ logged => exact ⟨_, logged⟩

/-- Work starts from the orders, the book and the events, not from the rows between the
events. -/
theorem of_events {o₀ : OMS} (h : Work Allowed o o')
    (hevents : events o.sink = events o₀.sink) (horders : o.orders = o₀.orders)
    (hbook : o.book = o₀.book) : Work Allowed o₀ o' := by
  cases h with
  | noted asides orders book logged =>
    exact .noted asides (orders.trans horders) (book.trans hbook) (hevents ▸ logged)
  | rewritten held twin orders book logged =>
    exact .rewritten (horders ▸ held) twin (horders ▸ orders) (book.trans hbook)
      (logged.trans hevents)
  | moved held id extent live announces orders book logged =>
    exact .moved (horders ▸ held) id extent live announces (horders ▸ orders) (book.trans hbook)
      (hevents ▸ logged)
  | registered new allowed ours fresh room orders book logged =>
    refine .registered new allowed ?_ (horders ▸ fresh) ?_ (horders ▸ orders) (book.trans hbook)
      (hevents ▸ logged)
    · rw [ours, bookId, bookId, hbook]
    · intro hro
      have hreducible := room hro
      rw [reducible, committed, hbook, horders] at hreducible
      exact hreducible

/-- An order that is there afterwards was there with its extent, and lives only if it did;
or it is new. -/
theorem before (h : Work Allowed o o') {coid : String} {order' : Order}
    (ho' : o'.orders.get? coid = some order') :
    (∃ order, o.orders.get? coid = some order ∧ order'.extent = order.extent ∧
      (order'.status.isTerminal = false → order.status.isTerminal = false)) ∨
      (Allowed order' ∧ order'.clientOrderId = coid ∧ o.orders.get? coid = none) := by
  have hset : ∀ {k : String} {known changed : Order}, o.orders.get? k = some known →
      o'.orders = o.orders.set k changed → changed.extent = known.extent →
      (changed.status.isTerminal = false → known.status.isTerminal = false) →
      ∃ order, o.orders.get? coid = some order ∧ order'.extent = order.extent ∧
        (order'.status.isTerminal = false → order.status.isTerminal = false) := by
    intro k known changed hk horders hextent hlive
    rw [horders, Dict.get?_set_iff] at ho'
    rcases ho' with ⟨rfl, rfl⟩ | ⟨-, hold⟩
    · exact ⟨known, hk, hextent, hlive⟩
    · exact ⟨order', hold, rfl, id⟩
  cases h with
  | noted _ orders _ _ => exact .inl ⟨order', orders ▸ ho', rfl, id⟩
  | rewritten held twin orders _ _ =>
    exact .inl (hset held orders twin.extent fun hs => by rw [← twin.status, hs])
  | moved held _ extent live _ orders _ _ => exact .inl (hset held orders extent live)
  | registered _ allowed _ fresh _ orders _ _ =>
    rw [orders, Dict.get?_set_iff] at ho'
    rcases ho' with ⟨rfl, rfl⟩ | ⟨-, hold⟩
    · exact .inr ⟨allowed, rfl, fresh⟩
    · exact .inl ⟨order', hold, rfl, id⟩

/-- At most one order comes. -/
theorem new_unique (h : Work Allowed o o') {coid coid' : String} {order order' : Order}
    (ho : o'.orders.get? coid = some order) (hfresh : o.orders.get? coid = none)
    (ho' : o'.orders.get? coid' = some order') (hfresh' : o.orders.get? coid' = none) :
    coid = coid' := by
  have hkept : ∀ {k : String} {known changed : Order}, o.orders.get? k = some known →
      o'.orders = o.orders.set k changed → False := by
    intro k known changed hk horders
    rw [horders, Dict.get?_set_iff] at ho
    rcases ho with ⟨rfl, -⟩ | ⟨-, hold⟩
    · rw [hk] at hfresh
      cases hfresh
    · rw [hold] at hfresh
      cases hfresh
  cases h with
  | noted _ orders _ _ =>
    rw [orders, hfresh] at ho
    cases ho
  | rewritten held _ orders _ _ => exact (hkept held orders).elim
  | moved held _ _ _ _ orders _ _ => exact (hkept held orders).elim
  | registered _ _ _ _ _ orders _ _ =>
    rw [orders, Dict.get?_set_iff, hfresh] at ho
    rw [orders, Dict.get?_set_iff, hfresh'] at ho'
    simp only [reduceCtorEq, and_false, or_false] at ho ho'
    rw [ho.1, ho'.1]

/-- No order goes. -/
theorem held (h : Work Allowed o o') {coid : String} {order : Order}
    (ho : o.orders.get? coid = some order) : ∃ order', o'.orders.get? coid = some order' := by
  have hset : ∀ {k : String} {changed : Order}, o'.orders = o.orders.set k changed →
      ∃ order', o'.orders.get? coid = some order' := by
    intro k changed horders
    rw [horders, Dict.get?_set]
    split
    · exact ⟨changed, rfl⟩
    · exact ⟨order, ho⟩
  cases h with
  | noted _ orders _ _ => exact ⟨order, by rw [orders, ho]⟩
  | rewritten _ _ orders _ _ => exact hset orders
  | moved _ _ _ _ _ orders _ _ => exact hset orders
  | registered _ _ _ _ _ orders _ _ => exact hset orders

theorem headroom (h : Work Allowed o o') (hroom : o.Headroom) : o'.Headroom := by
  cases h with
  | noted _ orders book _ => exact hroom.same orders book
  | rewritten held twin orders book _ =>
    exact hroom.quiet held orders book twin.intent twin.quantity twin.filledQty
      fun hs => by rw [← twin.status, hs]
  | @moved k known changed _ held id extent live _ orders book _ =>
    have htwin : Order.Twin { known with status := changed.status } changed := ⟨id, extent, rfl⟩
    exact hroom.quiet held orders book htwin.intent htwin.quantity htwin.filledQty live
  | @registered order new _ _ fresh room orders book _ =>
    refine hroom.registered fresh orders book ?_ room
    rw [new.filledQty]
    exact order.quantity_pos.le

end Work

/-! ## The OMS a log restores to -/

/-- An OMS and one rebuilt from its log: the same book, and orders with the same lives. -/
structure Twins (o r : OMS) : Prop where
  keyed : o.Keyed
  ours : ∀ coid order, o.orders.get? coid = some order → order.intent.bookId = o.bookId
  book : r.book = o.book
  orders : o.orders.Related Order.Twin r.orders

namespace Twins

variable {o o' r r' : OMS}

theorem init (book : PositionBook) : Twins (OMS.init book) (OMS.init book) where
  keyed _ _ h := by cases h
  ours _ _ h := by cases h
  book := rfl
  orders := ⟨rfl, fun _ _ _ h => by cases h⟩

/-- An order of the rebuilt OMS was in the one it is rebuilt from. -/
theorem origin (h : Twins o r) {coid : String} {copy : Order}
    (hcopy : r.orders.get? coid = some copy) :
    ∃ order, o.orders.get? coid = some order ∧ order.Twin copy := by
  cases ho : o.orders.get? coid with
  | none =>
    rw [h.orders.missing ho] at hcopy
    cases hcopy
  | some order => exact ⟨order, rfl, h.orders.values coid order copy ho hcopy⟩

theorem keyed_copy (h : Twins o r) : r.Keyed := by
  intro coid copy hcopy
  obtain ⟨order, horder, htwin⟩ := h.origin hcopy
  rw [htwin.id]
  exact h.keyed _ _ horder

/-- A rebuilt OMS goes on as its own twin, with whatever journal it is given. -/
theorem again (h : Twins o r) (horders : r'.orders = r.orders) (hbook : r'.book = r.book) :
    Twins r' r where
  keyed := keyed_of_eq h.keyed_copy horders
  ours coid copy hcopy := by
    rw [horders] at hcopy
    obtain ⟨order, horder, htwin⟩ := h.origin hcopy
    rw [htwin.intent, h.ours _ _ horder, bookId, bookId, hbook, h.book]
  book := hbook.symm
  orders := by
    rw [horders]
    exact ⟨rfl, fun _ _ _ hv hv' => by
      rw [hv, Option.some.injEq] at hv'
      exact hv' ▸ .refl _⟩

/-- Only the log goes on. -/
theorem same (h : Twins o r) (horders : o'.orders = o.orders) (hbook : o'.book = o.book) :
    Twins o' r where
  keyed := keyed_of_eq h.keyed horders
  ours := by
    rw [horders, bookId, hbook]
    exact h.ours
  book := h.book.trans hbook.symm
  orders := by
    rw [horders]
    exact h.orders

/-- Both put an order into the table. -/
theorem set (h : Twins o r) {k : String} {changed copy : Order} (htwin : changed.Twin copy)
    (horders : o'.orders = o.orders.set k changed) (hrestored : r'.orders = r.orders.set k copy)
    (hid : changed.clientOrderId = k) (hours : changed.intent.bookId = o.bookId)
    (hbookId : o'.bookId = o.bookId) (hbook : r'.book = o'.book) : Twins o' r' where
  keyed := keyed_set h.keyed horders hid
  ours coid order ho := by
    rw [hbookId]
    rw [horders, Dict.get?_set_iff] at ho
    rcases ho with ⟨-, rfl⟩ | ⟨-, hold⟩
    · exact hours
    · exact h.ours coid order hold
  book := hbook
  orders := by
    rw [horders, hrestored]
    exact h.orders.set htwin

theorem headroom (h : Twins o r) (hroom : o.Headroom) : r.Headroom where
  filled coid copy hcopy := by
    obtain ⟨order, horder, htwin⟩ := h.origin hcopy
    rw [htwin.filledQty, htwin.quantity]
    exact hroom.filled coid order horder
  faces coid copy hcopy hro hs hpos := by
    obtain ⟨order, horder, htwin⟩ := h.origin hcopy
    rw [htwin.intent] at hro ⊢
    rw [htwin.status] at hs
    rw [htwin.remainingQty] at hpos
    rw [h.book]
    exact hroom.faces coid order horder hro hs hpos
  bounded instrumentKey product := by
    rw [h.book]
    refine le_trans (le_of_eq ?_) (hroom.bounded instrumentKey product)
    rw [committed_eq, committed_eq]
    exact h.orders.sum_eq fun _ _ _ htwin => htwin.commits instrumentKey product

/-- A lifecycle update of an order is restored at its copy. -/
theorem restoreStatus (h : Twins o r) {k : String} {known copy : Order}
    (hk : o.orders.get? k = some known) (hcopy : r.orders.get? k = some copy)
    (change : Order → OMS → OMS) :
    OMS.restoreStatus (ref known) change r = .ok true (change copy r) := by
  refine restoreStatus_run ((congrArg r.orders.get? (h.keyed _ _ hk)).trans hcopy) ?_ change
  rw [bookId, h.book]
  exact h.ours _ _ hk

/-- The status an event tells is restored by it. -/
theorem announced (h : Twins o r) {k : String} {known : Order} {status : OrderStatus}
    {event : EventPayload} (hk : o.orders.get? k = some known)
    (hannounces : Announces known status event) :
    ∃ copy copy' r', r.orders.get? k = some copy ∧ known.Twin copy ∧
      restoreEvent event r = .ok true r' ∧ r'.book = r.book ∧
      r'.orders = r.orders.set k copy' ∧ copy'.clientOrderId = copy.clientOrderId ∧
      copy'.extent = copy.extent ∧ copy'.status = status := by
  obtain ⟨copy, hcopy, htwin⟩ := h.orders.held hk
  have hrun := h.restoreStatus hk hcopy
  have hid : copy.clientOrderId = k := h.keyed_copy _ _ hcopy
  have hset : ∀ change : Order → Order, (r.setOrder copy change).orders =
      r.orders.set k { change copy with version := copy.version + 1 } := by
    intro change
    rw [setOrder_orders, latest_of_get (by rw [hid, hcopy] : _ = some copy), hid]
  -- rejected, cancelled and expired are restored alike
  have hended : ∀ status, ∃ copy', (restoreTerminal copy status r).orders = r.orders.set k copy' ∧
      copy'.clientOrderId = copy.clientOrderId ∧ copy'.extent = copy.extent ∧
      copy'.status = status := by
    intro status
    refine ⟨{ copy with status := status, version := copy.version + 1 }, ?_, rfl, rfl, rfl⟩
    rw [restoreTerminal, popCheck_orders, hset fun latest => { latest with status := status }]
  cases hannounces with
  | @acked boid status ended =>
    refine ⟨copy, ?_⟩
    have hevent := hrun fun order => restoreAcked order boid status
    cases hterm : known.status.isTerminal with
    | false =>
      have hlive : copy.status.isTerminal = false := by rw [htwin.status, hterm]
      refine ⟨{ copy with
        brokerOrderId := some boid, status := status, version := copy.version + 1 }, _, hcopy,
        htwin, hevent, ?_, ?_, rfl, rfl, rfl⟩ <;> unfold restoreAcked <;> dsimp only <;>
        rw [if_pos hlive]
      · rfl
      · rw [popCheck_orders, hset fun latest =>
          { latest with brokerOrderId := some boid, status := status }]
    | true =>
      -- an order that ended keeps its status
      have hlive : ¬copy.status.isTerminal = false := by simp [htwin.status, hterm]
      have hsame : copy.status = status := by rw [htwin.status, ended hterm]
      by_cases hnone : copy.brokerOrderId = none
      · refine ⟨{ copy with brokerOrderId := some boid, version := copy.version + 1 }, _, hcopy,
          htwin, hevent, ?_, ?_, rfl, rfl, hsame⟩ <;> unfold restoreAcked <;> dsimp only <;>
          rw [if_neg hlive, if_pos hnone]
        · rfl
        · rw [popCheck_orders, hset fun latest => { latest with brokerOrderId := some boid }]
      · refine ⟨copy, _, hcopy, htwin, hevent, ?_, ?_, rfl, rfl, hsame⟩ <;>
          unfold restoreAcked <;> dsimp only <;> rw [if_neg hlive, if_neg hnone]
        · rfl
        · rw [popCheck_orders]
          exact (Dict.set_of_get hcopy).symm
  | unknown error =>
    refine ⟨copy, { copy with status := .unknown, version := copy.version + 1 }, _, hcopy, htwin,
      hrun restoreUnknown, rfl, ?_, rfl, rfl, rfl⟩
    rw [restoreUnknown, hset fun latest => { latest with status := .unknown }]
  | rejected reason message =>
    obtain ⟨copy', horders, hsame⟩ := hended .rejected
    exact ⟨copy, copy', _, hcopy, htwin, hrun fun order => restoreTerminal order .rejected, rfl,
      horders, hsame⟩
  | cancelled filledQty reason =>
    obtain ⟨copy', horders, hsame⟩ := hended .cancelled
    exact ⟨copy, copy', _, hcopy, htwin, hrun fun order => restoreTerminal order .cancelled, rfl,
      horders, hsame⟩
  | expired filledQty =>
    obtain ⟨copy', horders, hsame⟩ := hended .expired
    exact ⟨copy, copy', _, hcopy, htwin, hrun fun order => restoreTerminal order .expired, rfl,
      horders, hsame⟩

/-- What is left of a step's events restores to a twin of the OMS before it or after it,
and all of them to one of the OMS after it. -/
def Cut (o o' r : OMS) (ps ps' : List EventPayload) : Prop :=
  ∃ r', Replays r ps' r' ∧ (Twins o r' ∨ Twins o' r') ∧ (ps' = ps → Twins o' r')

/-- A step that says nothing of orders. -/
theorem cut_asides (h : Twins o r) (h' : Twins o' r) {ps ps' : List EventPayload}
    (hasides : ∀ p ∈ ps', p.Aside) : Cut o o' r ps ps' :=
  ⟨r, .asides r hasides, .inl h, fun _ => h'⟩

/-- A step of one event. -/
theorem cut_single (h : Twins o r) {p : EventPayload} {ps' : List EventPayload}
    (hrun : restoreEvent p r = .ok true r') (h' : Twins o' r') (hcut : ps' <+: [p]) :
    Cut o o' r [p] ps' := by
  rcases List.prefix_cons_iff.mp hcut with rfl | ⟨rest, rfl, hrest⟩
  · exact ⟨r, .nil r, .inl h, fun heq => by cases heq⟩
  · rw [List.prefix_nil.mp hrest]
    exact ⟨r', .single hrun, .inr h', fun _ => h'⟩

/-- **The step lemma.** A log that ends anywhere in what a step writes. -/
theorem cut {Allowed : Order → Prop} (h : Twins o r) (hwork : Work Allowed o o')
    {ps ps' : List EventPayload} (hlogged : events o'.sink = events o.sink ++ ps)
    (hcut : ps' <+: ps) : Cut o o' r ps ps' := by
  cases hwork with
  | noted asides orders book logged =>
    obtain rfl := List.append_cancel_left (logged.symm.trans hlogged)
    exact h.cut_asides (h.same orders book) fun p hp => asides p (hcut.subset hp)
  | @rewritten k known changed held twin orders book logged =>
    have hnil : ps = [] := by
      rw [logged] at hlogged
      simpa using hlogged
    have hnil' : ps' = [] := List.prefix_nil.mp (hnil ▸ hcut)
    obtain ⟨copy, hcopy, htwin⟩ := h.orders.held held
    have hsame : changed.Twin copy := ⟨by rw [htwin.id, twin.id],
      by rw [htwin.extent, twin.extent], by rw [htwin.status, twin.status]⟩
    refine h.cut_asides (h.set hsame orders (Dict.set_of_get hcopy).symm ?_ ?_
      (congrArg PositionBook.bookId book) (h.book.trans book.symm)) (by simp [hnil'])
    · rw [twin.id]
      exact h.keyed _ _ held
    · rw [twin.intent]
      exact h.ours _ _ held
  | @moved k known changed event held hid extent _ announces orders book logged =>
    obtain rfl := List.append_cancel_left (logged.symm.trans hlogged)
    obtain ⟨copy, copy', r', hcopy, htwin, hrun, hbook, hset, hid', hextent', hstatus⟩ :=
      h.announced held announces
    refine h.cut_single hrun (h.set (htwin.withStatus hid extent hid' hextent' hstatus) orders hset
      ?_ ?_ (congrArg PositionBook.bookId book) (hbook.trans (h.book.trans book.symm))) hcut
    · rw [hid]
      exact h.keyed _ _ held
    · rw [show changed.intent = known.intent from congrArg Prod.fst extent]
      exact h.ours _ _ held
  | @registered order new _ ours _ _ orders book logged =>
    obtain rfl := List.append_cancel_left (logged.symm.trans hlogged)
    have hbook : order.intent.bookId = r.bookId := by
      rw [ours, bookId, bookId, h.book]
    have hrun : restoreEvent (.orderSubmitted order) r =
        .ok true { r with orders := r.orders.set order.clientOrderId order } := by
      simp only [restoreEvent, Effect.run_bind, Effect.run_get, hbook, ne_eq, not_true_eq_false,
        if_false, Effect.run_set]
      rfl
    exact h.cut_single hrun (h.set (.refl order) orders rfl rfl ours
      (congrArg PositionBook.bookId book) (h.book.trans book.symm)) hcut

/-- The event of a fill restores what was made of it. -/
theorem booked (h : Twins o r) {known : Order} {fill : Fill} (hbooked : Booked o o' known fill) :
    ∃ r', restoreEvent (.fillReceived fill (statusAfter known fill) (filledAfter known fill)
      (avgAfter known fill)) r = .ok true r' ∧ Twins o' r' := by
  obtain ⟨copy, hcopy, htwin⟩ := h.orders.held hbooked.held
  obtain ⟨version, horders⟩ := hbooked.orders
  have hid : copy.clientOrderId = fill.clientOrderId := h.keyed_copy _ _ hcopy
  have hid₀ : known.clientOrderId = fill.clientOrderId := h.keyed _ _ hbooked.held
  have hbook : fill.bookId = r.bookId := by
    rw [bookId, h.book]
    exact hbooked.ours
  have hfresh : fill.fillId ∉ r.book.seen := h.book ▸ hbooked.fresh
  have happly : applyToBook fill copy.intent.product copy.intent.strategy
      copy.intent.reason.value r = _ :=
    applyToBook_fresh (o := r) (a := copy.application fill) ⟨hbook, hfresh⟩
  have happlication : copy.application fill = known.application fill := by
    rw [Order.application, Order.application, htwin.intent]
  rw [happlication] at happly
  refine ⟨OMS.setOrder copy (fun latest => { latest with
      filledQty := filledAfter known fill, avgFillPrice := some (avgAfter known fill)
      status := statusAfter known fill, brokerOrderId := brokerIdAfter copy fill })
      { r with book := r.book.record (known.application fill) }, ?_, ?_⟩
  · simp only [restoreEvent, Effect.run_bind, Effect.run_get, hbook, ne_eq, not_true_eq_false,
      if_false, restoreFill, hcopy, happly, Effect.run_modify]
    rfl
  · have hlatest : OMS.latest { r with book := r.book.record (known.application fill) } copy =
        copy := latest_of_get (by rw [hid, hcopy])
    have hextent : (copy.intent, copy.quantity, filledAfter known fill) =
        (known.intent, known.quantity, filledAfter known fill) := by
      rw [htwin.intent, htwin.quantity]
    have hsame : (known.afterFill fill version).Twin { copy with
        filledQty := filledAfter known fill, avgFillPrice := some (avgAfter known fill)
        status := statusAfter known fill, brokerOrderId := brokerIdAfter copy fill
        version := copy.version + 1 } :=
      ⟨hid.trans hid₀.symm, hextent, rfl⟩
    refine h.set hsame horders ?_ ?_ ?_ ?_ ?_
    · rw [setOrder_orders, hlatest, hid]
    · exact hid₀
    · exact (h.ours _ _ hbooked.held :)
    · rw [bookId, hbooked.book]
      rfl
    · rw [hbooked.book, ← h.book]
      rfl

/-- A log that ends anywhere in what a fill writes. -/
theorem cut_booked (h : Twins o r) {known : Order} {fill : Fill}
    (hbooked : Booked o o' known fill) {ps ps' : List EventPayload}
    (hlogged : events o'.sink = events o.sink ++ ps) (hcut : ps' <+: ps) : Cut o o' r ps ps' := by
  obtain ⟨r', hrun, hr'⟩ := h.booked hbooked
  obtain ⟨es, es', hes, hes', hfill⟩ := hbooked.logged
  rw [hfill] at hlogged
  obtain rfl := List.append_cancel_left hlogged
  rcases prefix_append_cases hcut with hbefore | ⟨rest, hrest, rfl⟩
  · -- the log ends before the fill
    refine ⟨r, .asides r fun p hp => hes p (hbefore.subset hp), .inl h, fun heq => ?_⟩
    have hlength := hbefore.length_le
    rw [heq] at hlength
    simp at hlength
  rcases List.prefix_cons_iff.mp hrest with rfl | ⟨more, rfl, hmore⟩
  · exact ⟨r, .asides r (by simpa using hes), .inl h, fun heq => by simp at heq⟩
  · have hmore' : ∀ p ∈ more, p.Aside := fun p hp => hes' p (hmore.subset hp)
    exact ⟨r', (Replays.asides r hes).append (.cons hrun (.asides r' hmore')), .inr hr',
      fun _ => hr'⟩

end Twins

/-! ## What the OMS does between fills -/

section work

variable {Allowed : Order → Prop} {o : OMS} {order : Order}

/-- An update that is taken over is told, with the status it brings. -/
theorem announces_update {known : Order} {snap : BrokerOrderSnapshot}
    (hlive : known.status.isTerminal = false) :
    Announces known snap.status (updateEvent known snap) := by
  have hacked : Announces known snap.status
      (.orderAcked (ref known) snap.brokerOrderId snap.status) :=
    .acked _ fun hs => by rw [hlive] at hs; cases hs
  unfold updateEvent
  split
  · rename_i hs
    exact hs ▸ .cancelled _ _
  · rename_i hs
    exact hs ▸ .expired _
  · rename_i hs
    exact hs ▸ .rejected _ _
  · exact hacked

theorem live_of_advances {current status : OrderStatus}
    (h : advances current status false = true) : current.isTerminal = false := by
  cases hs : current.isTerminal with
  | false => rfl
  | true =>
    rw [advances_terminal hs] at h
    cases h

theorem work_onUpdate (snap : BrokerOrderSnapshot) (hk : o.Keyed) :
    Work Allowed o (o.onUpdate snap) := by
  cases hs : o.orders.get? snap.clientOrderId with
  | none =>
    obtain ⟨a, heq⟩ := onUpdate_unknown hs
    have hasides : ∀ p ∈ [EventPayload.alert a], p.Aside := by simp [EventPayload.Aside]
    refine .noted hasides ?_ ?_ ?_ <;> rw [heq]
    · rfl
    · rfl
    · rw [emit_sink, events_append, events_event]
  | some known =>
    obtain ⟨hbook, ⟨-, -, hadvances, version, horders, hsink⟩ | ⟨-, hsink, hrest⟩⟩ :=
      onUpdate_known hk hs
    · have hlive := live_of_advances hadvances
      have hlogged : events (o.onUpdate snap).sink = events o.sink ++ [updateEvent known snap] := by
        rw [hsink, events_append, events_event]
      refine .moved hs ?_ ?_ (fun _ => hlive) ?_ horders hbook hlogged
      · rfl
      · rfl
      · exact announces_update hlive
    · rcases hrest with ⟨-, horders⟩ | ⟨-, horders⟩
      · exact .still horders hbook (by rw [hsink])
      · refine .rewritten hs ?_ horders hbook (by rw [hsink])
        exact ⟨rfl, rfl, rfl⟩

/-- An acknowledgement of an order that waits for it is recorded with the status it leaves. -/
theorem placed_sink {known : Order} (ack : BrokerAck)
    (h : o.orders.get? order.clientOrderId = some known) (hs : known.status = .submitted) :
    (o.placed order ack).sink = o.sink ++ [.event (.orderAcked (ref known) ack.brokerOrderId
      ((o.placed order ack).latest order).status)] := by
  unfold placed
  rw [latest_of_get h]
  dsimp only
  rw [if_pos hs, emit_sink, advance_sink, setOrder_sink]
  rfl

/-- An order is acknowledged with the status it has afterwards. -/
theorem work_acked {o' : OMS} {known changed : Order} {boid : String}
    (hk : o.orders.get? order.clientOrderId = some known)
    (horders : o'.orders = o.orders.set order.clientOrderId changed)
    (hid : changed.clientOrderId = known.clientOrderId) (hextent : changed.extent = known.extent)
    (hended : known.status.isTerminal = true → changed.status = known.status)
    (hbook : o'.book = o.book)
    (hsink : o'.sink = o.sink ++
      [.event (.orderAcked (ref known) boid (o'.latest order).status)]) : Work Allowed o o' := by
  have hchanged : o'.orders.get? order.clientOrderId = some changed := by
    rw [horders, Dict.get?_set_self]
  refine .moved hk hid hextent (fun hs => ?_) (.acked boid hended) horders hbook ?_
  · cases hterm : known.status.isTerminal with
    | false => rfl
    | true =>
      rw [hended hterm, hterm] at hs
      cases hs
  · rw [hsink, events_append, events_event, latest_of_get hchanged]

theorem work_placed (ack : BrokerAck) (hk : o.Keyed) (held : o.Holds order) :
    Work Allowed o (o.placed order ack) := by
  obtain ⟨known, hknown⟩ := held
  by_cases hs : known.status = .submitted
  · have hsink := placed_sink ack hknown hs
    have hbook := placed_book order ack o
    have hended : known.status.isTerminal = true → False := by
      rw [hs]
      exact fun h => by cases h
    rcases placed_orders ack hk hknown with heq | ⟨-, version, heq⟩
    · exact work_acked hknown (heq.trans (Dict.set_of_get hknown).symm) rfl rfl (fun _ => rfl) hbook
        hsink
    · exact work_acked hknown heq rfl rfl (fun h => (hended h).elim) hbook hsink
  · exact .still (by rw [placed_of_moved ack hknown hs]) (placed_book _ _ _)
      (by rw [placed_of_moved ack hknown hs])

theorem work_resolved (snap : BrokerOrderSnapshot) (hk : o.Keyed) {known : Order}
    (hknown : o.orders.get? order.clientOrderId = some known)
    (hintent : known.intent = order.intent) : Work Allowed o (o.resolved order snap) := by
  have hid : known.clientOrderId = order.clientOrderId := hk _ _ hknown
  have href : ref order = ref known := by rw [ref, ref, hid, hintent]
  have hsink := resolved_sink order snap o
  rw [href] at hsink
  have hbook := resolved_book order snap o
  rcases resolved_orders snap hk hknown with heq | ⟨hmem, version, heq⟩
  · exact work_acked hknown (heq.trans (Dict.set_of_get hknown).symm) rfl rfl (fun _ => rfl) hbook
      hsink
  · refine work_acked hknown heq rfl rfl (fun hs => ?_) hbook hsink
    rw [next_of_terminal hs] at hmem
    cases hmem

theorem work_placeFailed (exc : Exc) {known : Order} (hk : o.Keyed)
    (hknown : o.orders.get? order.clientOrderId = some known)
    (hintent : known.intent = order.intent) (hlive : known.status.isTerminal = false) :
    Work Allowed o (o.placeFailed order exc) := by
  have hid : known.clientOrderId = order.clientOrderId := hk _ _ hknown
  have href : ref order = ref known := by rw [ref, ref, hid, hintent]
  obtain ⟨status, event, hevent, horders, hbook, hsink⟩ := placeFailed_spec exc hknown
  have hlogged : events (o.placeFailed order exc).sink = events o.sink ++ [event] := by
    rw [hsink, events_append, events_event]
  refine .moved hknown ?_ ?_ (fun _ => hlive) ?_ horders hbook hlogged
  · rfl
  · rfl
  · rcases hevent with ⟨rfl, -, e, rfl⟩ | ⟨rfl, -, r, m, rfl⟩
    · exact href ▸ .unknown e
    · exact href ▸ .rejected r m

theorem work_found (snap : BrokerOrderSnapshot) {known : Order}
    (hknown : o.orders.get? order.clientOrderId = some known) :
    Work Allowed o (o.found order snap) := by
  refine .rewritten hknown ?_ (found_orders snap hknown) rfl rfl
  exact ⟨rfl, rfl, rfl⟩

theorem work_absent (config : OmsConfig) (now : Instant)
    (h : o.orders.get? order.clientOrderId = some order) :
    Work Allowed o (o.absent config now order) := by
  have hbook := absent_book config now order o
  rcases absent_orders config now h with ⟨horders, hsink⟩ | ⟨version, reason, message, horders, hsink⟩
  · exact .still horders hbook (by rw [hsink])
  · have hlogged : events (o.absent config now order).sink =
        events o.sink ++ [.orderRejected (ref order) reason message] := by
      rw [hsink, events_append, events_event]
    refine .moved h ?_ ?_ (fun hs => ?_) ?_ horders hbook hlogged
    · rfl
    · rfl
    · cases hs
    · exact .rejected reason message

end work

end OMS

end RakshaQuant
