import RakshaQuant.Desk.Books

/-! Broker and OMS in step: every order of the OMS either was never placed, or
stands at the broker with the same quantities and, unless the OMS has lost track
of it, the same status. Each small step keeps this, and is one of the changes
the OMS's log tells. -/

namespace RakshaQuant

/-- A broker order is live with something left to fill, or it has ended. -/
structure SimOrder.Sound (so : SimOrder) : Prop where
  live : so.status.isLive = true → so.filledQty < so.quantity
  ended : so.status.isLive = false →
    so.status = .filled ∨ so.status = .cancelled ∨ so.status = .expired
  trigger : so.status = .triggerPending → so.triggerPrice ≠ none

/-- An OMS order and its broker order. -/
structure Order.Paired (order : Order) (so : SimOrder) : Prop where
  quantity : order.quantity = so.quantity
  filledQty : order.filledQty = so.filledQty
  side : order.intent.side = so.side
  brokerOrderId : order.brokerOrderId = some so.brokerOrderId
  status : order.status = so.status ∨ (order.status = .unknown ∧ so.status.isLive = true)

/-- An OMS order the broker does not hold. -/
structure Order.Unplaced (order : Order) : Prop where
  status : order.status = .submitted ∨ order.status = .rejected ∨ order.status = .unknown
  filledQty : order.filledQty = 0
  brokerOrderId : order.brokerOrderId = none

/-- What an OMS order is, given what the broker holds under its id. -/
def Order.Meets (order : Order) : Option SimOrder → Prop
  | some so => so.Sound ∧ order.Paired so
  | none => order.Unplaced

theorem ref_eq {order known : Order} (hid : known.clientOrderId = order.clientOrderId)
    (hintent : known.intent = order.intent) : OMS.ref order = OMS.ref known := by
  rw [OMS.ref, OMS.ref, hid, hintent]

/-- What stands at the broker has been sent, and is not lost track of there. -/
theorem SimOrder.Sound.placed {so : SimOrder} (h : so.Sound) :
    so.status ≠ .submitted ∧ so.status ≠ .unknown := by
  cases hs : so.status.isLive with
  | true => constructor <;> intro he <;> rw [he] at hs <;> cases hs
  | false => rcases h.ended hs with he | he | he <;> rw [he] <;> decide

namespace Order.Paired

variable {order : Order} {so : SimOrder}

/-- A live broker order's counterpart is live, and may still end or be triggered. -/
theorem of_live (h : order.Paired so) (hs : so.status.isLive = true) :
    order.status.isTerminal = false ∧
      OMS.advances order.status .cancelled false = true ∧
      OMS.advances order.status .expired false = true ∧
      (so.status = .triggerPending → OMS.advances order.status .open false = true) := by
  rcases h.status with heq | ⟨heq, -⟩
  · rw [heq]
    cases hs' : so.status <;> rw [hs'] at hs <;> simp [OrderStatus.isLive] at hs <;>
      refine ⟨rfl, by decide, by decide, fun hc => ?_⟩ <;> first | decide | cases hc
  · rw [heq]
    exact ⟨rfl, by decide, by decide, fun _ => by decide⟩

end Order.Paired

namespace System

variable {T : Type} {sys : System T} {w w' : Paper T}

/-- Broker and OMS in step. -/
structure Coupled (sys : System T) (w : Paper T) : Prop where
  agrees : Agrees sys w
  meets : ∀ coid order, w.desk.oms.orders.get? coid = some order →
    order.Meets (w.broker.find coid)

namespace Coupled

/-- A step that may change one order, at the OMS, at the broker or at both. -/
theorem only (h : Coupled sys w) (h' : Agrees sys w') {coid : String}
    (horders : ∀ c, c ≠ coid → w'.desk.oms.orders.get? c = w.desk.oms.orders.get? c)
    (hfind : ∀ c, c ≠ coid → w'.broker.find c = w.broker.find c)
    (hmeets : ∀ order, w'.desk.oms.orders.get? coid = some order →
      order.Meets (w'.broker.find coid)) : Coupled sys w' := by
  refine ⟨h', fun c order ho => ?_⟩
  by_cases hc : c = coid
  · subst hc
    exact hmeets order ho
  · rw [hfind c hc]
    exact h.meets c order ((horders c hc).symm.trans ho)

/-- A step after which one order of the OMS is another. -/
theorem set (h : Coupled sys w) (h' : Agrees sys w') (coid : String) {changed : Order}
    (horders : w'.desk.oms.orders = w.desk.oms.orders.set coid changed)
    (hfind : ∀ c, c ≠ coid → w'.broker.find c = w.broker.find c)
    (hmeets : changed.Meets (w'.broker.find coid)) : Coupled sys w' := by
  refine h.only h' (fun c (hc : c ≠ coid) => ?_) hfind fun order ho => ?_
  · rw [horders, Dict.get?_set_ne _ _ hc]
  · rw [horders, Dict.get?_set_self, Option.some.injEq] at ho
    rw [← ho]
    exact hmeets

/-- A step that changes no order. -/
theorem same (h : Coupled sys w) (h' : Agrees sys w')
    (horders : w'.desk.oms.orders = w.desk.oms.orders)
    (hfind : ∀ c, w'.broker.find c = w.broker.find c) : Coupled sys w' := by
  refine ⟨h', fun c order ho => ?_⟩
  rw [hfind c]
  exact h.meets c order (horders ▸ ho)

/-- A broker order and its counterpart. -/
theorem paired (h : Coupled sys w) {boid : String} {so : SimOrder}
    (hso : w.broker.orders.get? boid = some so) :
    ∃ order, w.desk.oms.orders.get? so.clientOrderId = some order ∧ so.Sound ∧
      order.Paired so := by
  obtain ⟨order, horder, -⟩ := h.agrees.known boid so hso
  have hmeets := h.meets _ order horder
  rw [h.agrees.find_of_get hso] at hmeets
  exact ⟨order, horder, hmeets⟩

section steps

variable {Allowed : Order → Prop}

/-- The broker rewrites one of its orders and tells the OMS its new status. -/
theorem told (h : Coupled sys w) {b : SimulatedBroker} {boid : String} {so so' : SimOrder}
    {order : Order} (h' : Agrees sys ((w.mapBroker fun _ => b).notify sys.hooks boid))
    (hso : w.broker.orders.get? boid = some so) (horders : b.orders = w.broker.orders.set boid so')
    (htags : b.byTag = w.broker.byTag)
    (hid : so'.brokerOrderId = so.brokerOrderId ∧ so'.clientOrderId = so.clientOrderId ∧
      so'.quantity = so.quantity ∧ so'.filledQty = so.filledQty ∧ so'.side = so.side)
    (horder : w.desk.oms.orders.get? so.clientOrderId = some order) (hpaired : order.Paired so)
    (hsound : so'.Sound)
    (hstatus : so'.status = .open ∨ so'.status = .triggerPending ∨ so'.status = .cancelled ∨
      so'.status = .expired)
    (hadvances : OMS.advances order.status so'.status false = true) :
    Coupled sys ((w.mapBroker fun _ => b).notify sys.hooks boid) ∧
      OMS.Change Allowed w.desk.oms ((w.mapBroker fun _ => b).notify sys.hooks boid).desk.oms := by
  obtain ⟨hboid, hcoid, hquantity, hfilled, hside⟩ := hid
  have hget : (w.mapBroker fun _ => b).broker.orders.get? boid = some so' := by
    show b.orders.get? boid = some so'
    rw [horders, Dict.get?_set_self]
  have homs : ((w.mapBroker fun _ => b).notify sys.hooks boid).desk.oms =
      w.desk.oms.onUpdate so'.snapshot := by
    rw [World.notify_of_get _ hget]
    rfl
  have hheld : w.desk.oms.orders.get? so'.snapshot.clientOrderId = some order := by
    show w.desk.oms.orders.get? so'.clientOrderId = some order
    rw [hcoid, horder]
  have hnamed : order.brokerOrderId = some so'.snapshot.brokerOrderId := by
    show order.brokerOrderId = some so'.brokerOrderId
    rw [hboid, hpaired.brokerOrderId]
  obtain ⟨⟨version, hset⟩, hchange⟩ := OMS.onUpdate_moves Allowed h.agrees.keyed hheld hstatus
    hadvances (fun _ => .inr hnamed) fun _ => ⟨hnamed, hfilled.trans hpaired.filledQty.symm⟩
  refine ⟨?_, by rw [homs]; exact hchange⟩
  have hfind : ∀ c, ((w.mapBroker fun _ => b).notify sys.hooks boid).broker.find c =
      if c = so.clientOrderId then some so' else w.broker.find c := by
    intro c
    rw [World.notify_find]
    exact h.agrees.find_set hso horders htags c
  have hsnap : so'.snapshot.clientOrderId = so.clientOrderId := hcoid
  rw [hsnap] at hset
  refine h.set h' so.clientOrderId (by rw [homs, hset]) (fun c hc => by rw [hfind, if_neg hc]) ?_
  rw [hfind, if_pos rfl]
  exact ⟨hsound, hpaired.quantity.trans hquantity.symm, hpaired.filledQty.trans hfilled.symm,
    hpaired.side.trans hside.symm, rfl, .inl rfl⟩

/-- A live order ends without a fill. -/
theorem finished (h : Coupled sys w) {boid : String} {so : SimOrder} {status : OrderStatus}
    (message : String) (ts : Instant) (hso : w.broker.orders.get? boid = some so)
    (hlive : so.status.isLive = true)
    (hends : status = .cancelled ∨ status = .expired ∨
      (status = .rejected ∧ so.status = .triggerPending ∧ so.triggerPrice = none))
    (h' : Agrees sys (w.finish sys.hooks boid status message ts)) :
    Coupled sys (w.finish sys.hooks boid status message ts) ∧
      OMS.Change Allowed w.desk.oms (w.finish sys.hooks boid status message ts).desk.oms := by
  obtain ⟨order, horder, hsound, hpaired⟩ := h.paired hso
  obtain ⟨-, hcancelled, hexpired, -⟩ := hpaired.of_live hlive
  have hstatus : status = .cancelled ∨ status = .expired := by
    rcases hends with hs | hs | ⟨-, hs, ht⟩
    · exact .inl hs
    · exact .inr hs
    · exact absurd ht (hsound.trigger hs)
  have hb : w.finish sys.hooks boid status message ts =
      (w.mapBroker fun _ => w.broker.finish boid status message ts).notify sys.hooks boid := rfl
  rw [hb, SimulatedBroker.finish_of_get status message ts hso] at h' ⊢
  refine h.told h' hso rfl rfl ⟨rfl, rfl, rfl, rfl, rfl⟩ horder hpaired ⟨?_, ?_, ?_⟩ ?_ ?_
  · intro hs
    rcases hstatus with rfl | rfl <;> cases hs
  · intro _
    exact .inr hstatus
  · intro hs
    rcases hstatus with rfl | rfl <;> cases hs
  · rcases hstatus with rfl | rfl
    · exact .inr (.inr (.inl rfl))
    · exact .inr (.inr (.inr rfl))
  · rcases hstatus with rfl | rfl
    · exact hcancelled
    · exact hexpired

/-- A resting stop is triggered. -/
theorem triggered (h : Coupled sys w) {boid : String} {so : SimOrder} (ts : Instant)
    (hso : w.broker.orders.get? boid = some so) (hpending : so.status = .triggerPending)
    (h' : Agrees sys ((w.mapBroker (.trigger boid ts)).notify sys.hooks boid)) :
    Coupled sys ((w.mapBroker (.trigger boid ts)).notify sys.hooks boid) ∧
      OMS.Change Allowed w.desk.oms
        ((w.mapBroker (.trigger boid ts)).notify sys.hooks boid).desk.oms := by
  obtain ⟨order, horder, hsound, hpaired⟩ := h.paired hso
  have hlive : so.status.isLive = true := by
    rw [hpending]
    rfl
  obtain ⟨-, -, -, hopen⟩ := hpaired.of_live hlive
  have hb : w.mapBroker (.trigger boid ts) = w.mapBroker fun _ => w.broker.trigger boid ts := rfl
  rw [hb, SimulatedBroker.trigger_of_get ts hso] at h' ⊢
  refine h.told h' hso rfl rfl ⟨rfl, rfl, rfl, rfl, rfl⟩ horder hpaired ⟨?_, ?_, ?_⟩ (.inl rfl)
    (hopen hpending)
  · exact fun _ => hsound.live hlive
  · intro hs
    cases hs
  · intro hs
    cases hs

/-- A fill is recorded on both sides. -/
theorem filled (h : Coupled sys w) {boid : String} {so : SimOrder} {instrument : Instrument}
    {reference : ℚ} {qty : { q : ℤ // 0 < q }} {charges : ChargeBreakdown} {quote : Quote}
    {s : SimulatedBroker.Settlement} (dpDay : Option (String × Day))
    (hso : w.broker.orders.get? boid = some so) (hlive : so.status.isLive = true)
    (hwithin : qty.1 ≤ so.remaining)
    (hsettles : sys.env.settlement so
      (sys.env.newFill so instrument reference qty charges quote) w.broker = .ok (some s)) :
    let w' : Paper T :=
      { broker := w.broker.bookFill boid so s dpDay
          (sys.env.newFill so instrument reference qty charges quote)
        desk := (Desk.onFill sys.listener
          (sys.env.newFill so instrument reference qty charges quote) w.desk).state }
    Coupled sys w' ∧ OMS.Change Allowed w.desk.oms w'.desk.oms := by
  have h' := h.agrees.fill dpDay hso hsettles
  obtain ⟨order, version, horder, hkey, -, horders, hbook, es, es', hes, hes', hlogged⟩ :=
    h.agrees.onFill hso instrument reference qty charges quote
  have hfresh := h.agrees.fresh_fill hso
  have hours : (sys.env.newFill so instrument reference qty charges quote).bookId =
      w.desk.oms.bookId := h.agrees.book.symm
  have hfkey : (sys.env.newFill so instrument reference qty charges quote).instrumentKey =
      so.instrumentKey := rfl
  have hfside : (sys.env.newFill so instrument reference qty charges quote).side = so.side := rfl
  have hfqty : (sys.env.newFill so instrument reference qty charges quote).quantity = qty.1 := rfl
  have hfid : (sys.env.newFill so instrument reference qty charges quote).fillId =
      fillIdOf so.brokerOrderId (so.fillCount + 1) := rfl
  have hfcoid : (sys.env.newFill so instrument reference qty charges quote).clientOrderId =
      so.clientOrderId := rfl
  have hfboid : (sys.env.newFill so instrument reference qty charges quote).brokerOrderId =
      some so.brokerOrderId := rfl
  generalize sys.env.newFill so instrument reference qty charges quote = fill at *
  -- the order at the OMS is the partner of the order at the broker
  obtain ⟨known, hknown, hsound, hpaired⟩ := h.paired hso
  obtain rfl : known = order := Option.some.inj (hknown.symm.trans horder)
  have hnonterminal := (hpaired.of_live hlive).1
  -- partners have the same quantity and the same filled quantity, so the fill fits at the OMS
  have hremaining : fill.quantity ≤ known.remainingQty := by
    rw [hfqty, Order.remainingQty, hpaired.quantity, hpaired.filledQty]
    exact hwithin
  have hpos := hsound.live hlive
  refine ⟨?_, .filled hknown hfcoid hnonterminal hours (hfid ▸ hfresh) (hfkey.trans hkey.symm)
    (hfside.trans hpaired.side.symm) hremaining horders hbook hes hes' hlogged⟩
  obtain ⟨blocked, hbooked, -⟩ := SimulatedBroker.bookFill_eq boid so s dpDay fill w.broker
  have hfind : ∀ c, (w.broker.bookFill boid so s dpDay fill).find c =
      if c = so.clientOrderId then some (so.afterFill s fill) else w.broker.find c := by
    intro c
    refine h.agrees.find_set hso ?_ ?_ c <;> rw [hbooked]
  refine h.set h' _ horders (fun c hc => by rw [hfind, if_neg hc]) ?_
  rw [hfind, if_pos rfl]
  obtain ⟨hboid', hcoid', -, hside', -, hquantity', htrigger', -⟩ := so.afterFill_same s fill
  have hfilled' := (so.afterFill_counts s fill).1
  have hstatus' := so.afterFill_status s fill
  -- the cap of the OMS at the order quantity does not bite
  have hafter : OMS.filledAfter known fill = so.filledQty + fill.quantity := by
    rw [Order.remainingQty] at hremaining
    rw [OMS.filledAfter, hpaired.filledQty]
    have := hpaired.filledQty
    omega
  refine ⟨⟨fun hs => ?_, fun hs => ?_, fun hs => ?_⟩, ?_, ?_, ?_, ?_, ?_⟩
  · rw [hstatus'] at hs
    split at hs
    · cases hs
    · rename_i hne
      have hrem : fill.quantity ≤ so.remaining := by rw [hfqty]; exact hwithin
      rw [SimOrder.remaining] at hrem
      rw [hfilled', hquantity']
      omega
  · rw [hstatus'] at hs ⊢
    split at hs
    · exact .inl (by simp_all)
    · cases hs
  · rw [hstatus'] at hs
    split at hs <;> cases hs
  · exact hpaired.quantity.trans hquantity'.symm
  · rw [hfilled']
    exact hafter
  · exact hpaired.side.trans hside'.symm
  · rw [hboid']
    show OMS.brokerIdAfter known fill = _
    rw [OMS.brokerIdAfter, hpaired.brokerOrderId, hfboid, ite_self]
  · left
    show OMS.statusAfter known fill = _
    rw [OMS.statusAfter, hafter, hstatus', hpaired.quantity]

/-- The broker accepts a new order and tells the OMS. -/
theorem accepted (h : Coupled sys w) {order : Order} {reserved : ℚ} (now : Instant)
    (hknown : w.desk.oms.orders.get? order.clientOrderId = some order) (hnew : order.New)
    (sim : SimOrder)
    (hsim : sim = sys.env.newSimOrder order reserved now w.broker)
    (h' : Agrees sys (((w.mapBroker fun b => (b.accept sim).markDirty sim.brokerOrderId).save
      sys.hooks).notify sys.hooks sim.brokerOrderId)) :
    Coupled sys (((w.mapBroker fun b => (b.accept sim).markDirty sim.brokerOrderId).save
        sys.hooks).notify sys.hooks sim.brokerOrderId) ∧
      OMS.Change Allowed w.desk.oms
        (((w.mapBroker fun b => (b.accept sim).markDirty sim.brokerOrderId).save
          sys.hooks).notify sys.hooks sim.brokerOrderId).desk.oms := by
  have hboid : sim.brokerOrderId = simId sys.env.bookId w.broker.core.nextOrder := by rw [hsim]; rfl
  have hcoid : sim.clientOrderId = order.clientOrderId := by rw [hsim]; rfl
  have hstatus : sim.status = .open ∨ (sim.status = .triggerPending ∧
      order.intent.orderType = .slM) := by
    rw [hsim]
    show (if order.intent.orderType = .slM then OrderStatus.triggerPending else .open) = _ ∨ _
    by_cases hslm : order.intent.orderType = .slM
    · exact .inr ⟨if_pos hslm, hslm⟩
    · exact .inl (if_neg hslm)
  have hfields : sim.quantity = order.quantity ∧ sim.filledQty = 0 ∧
      sim.side = order.intent.side ∧ sim.triggerPrice = order.intent.triggerPrice := by
    rw [hsim]
    exact ⟨rfl, rfl, rfl, rfl⟩
  clear hsim
  set saved : Paper T := (w.mapBroker fun b => (b.accept sim).markDirty sim.brokerOrderId).save
    sys.hooks with hsaved
  have hget : saved.broker.orders.get? sim.brokerOrderId = some sim := Dict.get?_set_self _ _ _
  have homs : (saved.notify sys.hooks sim.brokerOrderId).desk.oms =
      saved.desk.oms.onUpdate sim.snapshot := by
    rw [World.notify_of_get _ hget]
    rfl
  have hheld : saved.desk.oms.orders.get? sim.snapshot.clientOrderId = some order := by
    show w.desk.oms.orders.get? sim.clientOrderId = some order
    rw [hcoid, hknown]
  -- from SUBMITTED both first statuses of the broker are allowed
  have hadvances : OMS.advances order.status sim.snapshot.status false = true := by
    show OMS.advances order.status sim.status false = true
    rw [hnew.status]
    rcases hstatus with hs | ⟨hs, -⟩ <;> rw [hs] <;> decide
  have hopen : sim.snapshot.status = .open ∨ sim.snapshot.status = .triggerPending :=
    hstatus.imp_right And.left
  obtain ⟨⟨version, hset⟩, hchange⟩ := OMS.onUpdate_moves Allowed
    (OMS.keyed_of_eq h.agrees.keyed rfl : saved.desk.oms.Keyed) hheld
    (by rcases hopen with hs | hs <;> simp [hs]) hadvances (fun _ => .inl hnew.brokerOrderId)
    (fun hs => by rcases hopen with ho | ho <;> rw [ho] at hs <;> simp at hs)
  have hfind : ∀ c, (saved.notify sys.hooks sim.brokerOrderId).broker.find c =
      if c = sim.clientOrderId then some sim else w.broker.find c := by
    intro c
    rw [World.notify_find]
    exact h.agrees.find_accept hboid c
  constructor
  · refine h.set h' sim.clientOrderId (by rw [homs, hset]; rfl) (fun c hc => by rw [hfind, if_neg hc]) ?_
    rw [hfind, if_pos rfl]
    refine ⟨⟨fun _ => ?_, fun hs => ?_, fun hs => ?_⟩, hfields.1.symm, ?_, hfields.2.2.1.symm, rfl,
      .inl rfl⟩
    · rw [hfields.1, hfields.2.1]
      exact order.quantity_pos
    · rcases hstatus with ho | ⟨ho, -⟩ <;> rw [ho] at hs <;> cases hs
    · rcases hstatus with ho | ⟨-, hslm⟩
      · rw [ho] at hs
        cases hs
      · have htrigger := order.intent.sl_needs_trigger (.inr hslm)
        rw [hfields.2.2.2]
        exact Option.isSome_iff_ne_none.mp htrigger
    · exact hnew.filledQty.trans hfields.2.1.symm
  · -- the rows the broker saved are no events
    have hevents : events saved.desk.oms.sink = events w.desk.oms.sink := by
      show events (w.desk.oms.sink ++ [.rows _]) = _
      rw [events_append, events_rows, List.append_nil]
    rw [homs]
    exact hchange.of_events hevents rfl rfl

/-- A change of the OMS at an order the broker does not hold. -/
theorem apart (h : Coupled sys w) {o : OMS} {coid : String} {changed : Order}
    (h' : Agrees sys (w.mapOms fun _ => o)) (hfree : w.broker.find coid = none)
    (horders : o.orders = w.desk.oms.orders.set coid changed) (hchanged : changed.Unplaced) :
    Coupled sys (w.mapOms fun _ => o) := by
  refine h.set h' _ horders (fun _ _ => rfl) ?_
  show changed.Meets (w.broker.find coid)
  rw [hfree]
  exact hchanged

/-- `place_order` raised: the order is taken as rejected or as unknown. -/
theorem unplaced (h : Coupled sys w) {order known : Order} {exc : Exc}
    (hknown : w.desk.oms.orders.get? order.clientOrderId = some known)
    (hintent : known.intent = order.intent) (hlive : known.status.isTerminal = false)
    (hfree : exc.notPlacedReason ≠ none → w.broker.find order.clientOrderId = none)
    (h' : Agrees sys (w.mapOms (OMS.placeFailed order exc))) :
    Coupled sys (w.mapOms (OMS.placeFailed order exc)) ∧
      OMS.Change Allowed w.desk.oms (w.desk.oms.placeFailed order exc) := by
  have hid : known.clientOrderId = order.clientOrderId := h.agrees.keyed _ _ hknown
  obtain ⟨status, event, hcases, horders, hbook, hsink⟩ := OMS.placeFailed_spec exc hknown
  have hmeets := h.meets _ known hknown
  have hlogged : events (w.desk.oms.placeFailed order exc).sink =
      events w.desk.oms.sink ++ [event] := by rw [hsink, events_append, events_event]
  have hw : w.mapOms (OMS.placeFailed order exc) =
      w.mapOms fun _ => w.desk.oms.placeFailed order exc := rfl
  constructor
  · refine h.set h' _ horders (fun _ _ => rfl) ?_
    show Order.Meets _ (w.broker.find order.clientOrderId)
    cases hfind : w.broker.find order.clientOrderId with
    | none =>
      rw [hfind] at hmeets
      refine ⟨?_, hmeets.filledQty, hmeets.brokerOrderId⟩
      rcases hcases with ⟨hs, -⟩ | ⟨hs, -⟩
      · exact .inr (.inr hs)
      · exact .inr (.inl hs)
    | some so =>
      rw [hfind] at hmeets
      obtain ⟨hsound, hpaired⟩ := hmeets
      rcases hcases with ⟨hs, -⟩ | ⟨-, hreason, -⟩
      · refine ⟨hsound, hpaired.quantity, hpaired.filledQty, hpaired.side,
          hpaired.brokerOrderId, .inr ⟨hs, ?_⟩⟩
        -- a broker order that ended would have ended this one
        rcases hpaired.status with heq | ⟨-, hl⟩
        · by_contra hdead
          rw [heq] at hlive
          rcases hsound.ended (by simpa using hdead) with he | he | he <;> rw [he] at hlive <;>
            cases hlive
        · exact hl
      · rw [hfree hreason] at hfind
        cases hfind
  · refine .moved hknown ?_ (fun _ => hlive) horders hbook hlogged
    rw [ref_eq hid hintent] at hcases
    rcases hcases with ⟨rfl, -, e, rfl⟩ | ⟨rfl, -, r, m, rfl⟩
    · exact .unknown e
    · exact .rejected r m

/-- An order the broker holds stands SUBMITTED no longer. -/
theorem sent (h : Coupled sys w) {coid : String} {known : Order}
    (hknown : w.desk.oms.orders.get? coid = some known)
    (hplaced : (w.broker.find coid).isSome) : known.status ≠ .submitted := by
  obtain ⟨so, hso⟩ := Option.isSome_iff_exists.mp hplaced
  have hmeets := h.meets _ known hknown
  rw [hso] at hmeets
  rcases hmeets.2.status with heq | ⟨heq, -⟩
  · rw [heq]
    exact hmeets.1.placed.1
  · rw [heq]
    decide

/-- `place_order` returned: a callback came first, so nothing is left to record. -/
theorem acked (h : Coupled sys w) {order known : Order} (ack : BrokerAck)
    (hknown : w.desk.oms.orders.get? order.clientOrderId = some known)
    (hplaced : (w.broker.find order.clientOrderId).isSome) :
    w.mapOms (OMS.placed order ack) = w := by
  rw [World.mapOms, Desk.mapOms, OMS.placed_of_moved ack hknown (h.sent hknown hplaced)]

/-- An UNKNOWN order was found: its broker id is the one it has. -/
theorem found (h : Coupled sys w) {order known : Order} {so : SimOrder}
    (hknown : w.desk.oms.orders.get? order.clientOrderId = some known)
    (hplaced : w.broker.find order.clientOrderId = some so)
    (h' : Agrees sys (w.mapOms (OMS.found order so.snapshot))) :
    Coupled sys (w.mapOms (OMS.found order so.snapshot)) ∧
      OMS.Change Allowed w.desk.oms (w.desk.oms.found order so.snapshot) := by
  have hmeets := h.meets _ known hknown
  rw [hplaced] at hmeets
  have horders := OMS.found_orders so.snapshot hknown
  have hboid : some so.snapshot.brokerOrderId = known.brokerOrderId :=
    hmeets.2.brokerOrderId.symm
  rw [hboid] at horders
  refine ⟨h.set h' _ horders (fun _ _ => rfl) ?_, .recounted hknown horders rfl rfl⟩
  show Order.Meets _ (w.broker.find order.clientOrderId)
  rw [hplaced]
  exact ⟨hmeets.1, hmeets.2.quantity, hmeets.2.filledQty, hmeets.2.side, hmeets.2.brokerOrderId,
    hmeets.2.status⟩

/-- A found order takes over the broker's status where it may. -/
theorem resolved (h : Coupled sys w) {order known : Order} {so : SimOrder}
    (hknown : w.desk.oms.orders.get? order.clientOrderId = some known)
    (hintent : known.intent = order.intent)
    (hplaced : w.broker.find order.clientOrderId = some so)
    (h' : Agrees sys (w.mapOms (OMS.resolved order so.snapshot))) :
    Coupled sys (w.mapOms (OMS.resolved order so.snapshot)) ∧
      OMS.Change Allowed w.desk.oms (w.desk.oms.resolved order so.snapshot) := by
  have hid : known.clientOrderId = order.clientOrderId := h.agrees.keyed _ _ hknown
  have hmeets := h.meets _ known hknown
  rw [hplaced] at hmeets
  obtain ⟨hsound, hpaired⟩ := hmeets
  -- the order as it is, or with the broker's status
  have hspec : ∃ status version,
      (w.desk.oms.resolved order so.snapshot).orders = w.desk.oms.orders.set order.clientOrderId
        { known with
          brokerOrderId := some so.brokerOrderId, status := status, version := version } ∧
      (known.status.isTerminal = true → status = known.status) ∧
      (status = known.status ∨ status = so.status) := by
    rcases OMS.resolved_orders so.snapshot h.agrees.keyed hknown with heq | ⟨hnext, version, heq⟩
    · refine ⟨known.status, known.version, ?_, fun _ => rfl, .inl rfl⟩
      rw [heq, ← hpaired.brokerOrderId]
      exact (Dict.set_of_get hknown).symm
    · refine ⟨so.status, version, ?_, fun hs => ?_, .inr rfl⟩
      · rw [heq, ← hpaired.brokerOrderId]
        rfl
      · rw [OMS.next_of_terminal hs] at hnext
        cases hnext
  obtain ⟨status, version, horders, hended, hstatus⟩ := hspec
  have hstands : status = known.status ∨ (status ≠ .submitted ∧ status ≠ .unknown) :=
    hstatus.imp_right fun hs => by rw [hs]; exact hsound.placed
  have hlatest : ((w.desk.oms.resolved order so.snapshot).latest order).status = status := by
    rw [OMS.latest_of_get (by rw [horders]; exact Dict.get?_set_self _ _ _)]
  have hlogged : events (w.desk.oms.resolved order so.snapshot).sink =
      events w.desk.oms.sink ++ [.orderAcked (OMS.ref known) so.brokerOrderId status] := by
    rw [OMS.resolved_sink, hlatest, events_append, events_event, ref_eq hid hintent]
    rfl
  refine ⟨h.set h' _ horders (fun _ _ => rfl) ?_, .moved hknown
    (.acked (.inr hpaired.brokerOrderId) hended hstands) (fun hs => ?_) horders
    (OMS.resolved_book _ _ _) hlogged⟩
  · show Order.Meets _ (w.broker.find order.clientOrderId)
    rw [hplaced]
    refine ⟨hsound, hpaired.quantity, hpaired.filledQty, hpaired.side, rfl, ?_⟩
    rcases hstatus with rfl | rfl
    · exact hpaired.status
    · exact .inl rfl
  · cases ht : known.status.isTerminal with
    | false => rfl
    | true =>
      rw [hended ht, ht] at hs
      cases hs

/-- An order the broker does not hold is counted, or rejected. -/
theorem absent (h : Coupled sys w) {order : Order} (now : Instant)
    (hknown : w.desk.oms.orders.get? order.clientOrderId = some order)
    (hfree : w.broker.find order.clientOrderId = none)
    (h' : Agrees sys (w.mapOms (OMS.absent sys.config now order))) :
    Coupled sys (w.mapOms (OMS.absent sys.config now order)) ∧
      OMS.Change Allowed w.desk.oms (w.desk.oms.absent sys.config now order) := by
  have hmeets := h.meets _ order hknown
  rw [hfree] at hmeets
  have hbook := OMS.absent_book sys.config now order w.desk.oms
  rcases OMS.absent_orders sys.config now hknown with
    ⟨heq, hsink⟩ | ⟨version, r, m, heq, hsink⟩
  · exact ⟨h.same h' heq fun _ => rfl, .still heq hbook (congrArg events hsink)⟩
  · refine ⟨h.apart h' hfree heq ⟨.inr (.inl rfl), hmeets.filledQty, hmeets.brokerOrderId⟩,
      .moved hknown (.rejected r m) (fun hs => by cases hs) heq hbook ?_⟩
    rw [hsink, events_append, events_event]

/-- A submission registers its order. -/
theorem registered (h : Coupled sys w) {order : Order} (hnew : order.New)
    (hfresh : w.desk.oms.orders.get? order.clientOrderId = none)
    (h' : Agrees sys (w.mapOms (OMS.register order))) :
    Coupled sys (w.mapOms (OMS.register order)) := by
  have hfree : w.broker.find order.clientOrderId = none := by
    by_contra hne
    obtain ⟨so, hso⟩ := Option.ne_none_iff_exists'.mp hne
    obtain ⟨hget, hcoid⟩ := h.agrees.find_iff.mp hso
    obtain ⟨known, hknown, -⟩ := h.agrees.known _ so hget
    rw [hcoid, hfresh] at hknown
    cases hknown
  exact h.apart h' hfree rfl ⟨.inl hnew.status, hnew.filledQty, hnew.brokerOrderId⟩

/-- The update after a fill tells nothing new. -/
theorem renotified (h : Coupled sys w) {boid : String} {so : SimOrder}
    (hso : w.broker.orders.get? boid = some so)
    (hstatus : so.status = .filled ∨ so.status = .partiallyFilled) :
    (w.notify sys.hooks boid).desk.oms = w.desk.oms := by
  obtain ⟨order, horder, -, hpaired⟩ := h.paired hso
  have homs : (w.notify sys.hooks boid).desk.oms = w.desk.oms.onUpdate so.snapshot := by
    rw [World.notify_of_get _ hso]
    rfl
  rw [homs, OMS.onUpdate]
  have hheld : w.desk.oms.orders.get? so.snapshot.clientOrderId = some order := horder
  have hnamed : order.brokerOrderId ≠ none := by
    rw [hpaired.brokerOrderId]
    exact Option.some_ne_none _
  rw [hheld]
  dsimp only
  rw [if_neg hnamed]
  exact if_pos hstatus

/-- **The step lemma.** Every small step keeps broker and OMS in step, and is one
of the changes the log tells. -/
theorem step (h : Coupled sys w) (hstep : Step sys Allowed w w') :
    Coupled sys w' ∧ OMS.Change Allowed w.desk.oms w'.desk.oms := by
  have h' := h.agrees.step hstep
  have hrefl : OMS.Change Allowed w.desk.oms w.desk.oms := .still rfl rfl rfl
  cases hstep with
  | settled today =>
    obtain ⟨cash, unsettled, heq, -⟩ := w.broker.settle_spec today
    refine ⟨h.same h' rfl fun c => ?_, hrefl⟩
    show (w.broker.settle today).find c = _
    rw [heq]
    rfl
  | observed quote today => exact ⟨h.same h' rfl fun _ => rfl, hrefl⟩
  | counted boid =>
    refine ⟨?_, hrefl⟩
    cases hso : w.broker.orders.get? boid with
    | none =>
      refine h.same h' rfl fun c => ?_
      show (w.broker.countQuote boid).find c = _
      rw [SimulatedBroker.countQuote_of_none hso]
    | some so =>
      obtain ⟨order, horder, hsound, hpaired⟩ := h.paired hso
      have hfind : ∀ c, (w.mapBroker (.countQuote boid)).broker.find c =
          if c = so.clientOrderId then some { so with eligibleQuotes := so.eligibleQuotes + 1 }
          else w.broker.find c := by
        intro c
        refine h.agrees.find_set (b := w.broker.countQuote boid) hso ?_ ?_ c <;>
          rw [SimulatedBroker.countQuote_of_get hso]
      -- a count of quotes is nothing the OMS knows of
      refine h.only h' (fun _ _ => rfl) (fun c hc => by rw [hfind, if_neg hc]) fun known hknown => ?_
      obtain rfl : known = order := Option.some.inj (hknown.symm.trans horder)
      rw [hfind, if_pos rfl]
      exact ⟨⟨hsound.live, hsound.ended, hsound.trigger⟩, hpaired.quantity, hpaired.filledQty,
        hpaired.side, hpaired.brokerOrderId, hpaired.status⟩
  | triggered ts held pending => exact h.triggered ts held pending h'
  | finished message ts held live ends => exact h.finished message ts held live ends h'
  | filled dpDay held live within settles => exact h.filled dpDay held live within settles
  | renotified held filled =>
    have homs := h.renotified held filled
    exact ⟨h.same h' (by rw [homs]) fun c => World.notify_find _ _ _ c, by rw [homs]; exact hrefl⟩
  | accepted now known new _ _ _ => exact h.accepted now known new _ rfl h'
  | saved =>
    refine ⟨h.same h' rfl fun _ => rfl, .still rfl rfl ?_⟩
    show events (w.desk.oms.sink ++ [.rows _]) = _
    rw [events_append, events_rows, List.append_nil]
  -- the OMS is one order ahead of the broker until it is placed
  | registered new allowed ours fresh room =>
    exact ⟨h.registered new fresh h', .registered new allowed ours fresh room rfl rfl
      (by show events (w.desk.oms.sink ++ [_]) = _; rw [events_append]; rfl)⟩
  | unplaced held intent live free => exact h.unplaced held intent live free h'
  | acked ack held placed =>
    rw [h.acked ack held placed]
    exact ⟨h, hrefl⟩
  | found held placed => exact h.found held placed h'
  -- the OMS has seen every fill the broker reports
  | adopted reported =>
    rw [h.agrees.adopt reported]
    exact ⟨h, hrefl⟩
  | resolved held intent placed => exact h.resolved held intent placed h'
  | absent now held free => exact h.absent now held free h'
  | @emitted ps asides =>
    refine ⟨h.same h' rfl fun _ => rfl, .noted asides rfl rfl ?_⟩
    show events (w.desk.oms.sink ++ ps.map .event) = _
    rw [events_append]
    exact congrArg _ (by simpa using events_map ps id)

end steps

theorem init (startingCash : ℚ) (ext : T) : Coupled sys (sys.init startingCash ext) :=
  ⟨.init startingCash ext, fun _ _ h => by cases h⟩

end Coupled

/-! ## Runs -/

variable {Allowed : Order → Prop}

/-- What the steps keep, and what they tell. -/
theorem Coupled.steps (h : Coupled sys w) (hsteps : Steps sys Allowed w w') :
    Coupled sys w' ∧ Relation.ReflTransGen (OMS.Change Allowed) w.desk.oms w'.desk.oms := by
  refine Effect.invariant (I := fun w' => Coupled sys w' ∧
    Relation.ReflTransGen (OMS.Change Allowed) w.desk.oms w'.desk.oms) ?_ hsteps ⟨h, .refl⟩
  intro w₁ w₂ hstep hw₁
  obtain ⟨hc, hchange⟩ := hw₁.1.step hstep
  exact ⟨hc, hw₁.2.tail hchange⟩

/-- One operation whose gate lets only allowed orders pass. -/
theorem op_spec {op : Op} (hop : Op.Gated sys.config Allowed op) (h : Coupled sys w) :
    Coupled sys (sys.after w op) ∧
      Relation.ReflTransGen (OMS.Change Allowed) w.desk.oms (sys.after w op).desk.oms :=
  h.steps (after_steps hop h.agrees.keyed)

/-- A run is small steps. -/
theorem run_steps {ops : List Op} (hops : ∀ op ∈ ops, Op.Gated sys.config Allowed op)
    (h : Coupled sys w) : Steps sys Allowed w (sys.run w ops) := by
  induction ops generalizing w with
  | nil => exact .refl
  | cons op rest ih =>
    have hone := hops op List.mem_cons_self
    exact (after_steps hone h.agrees.keyed).trans
      (ih (fun op hop => hops op (List.mem_cons_of_mem _ hop)) (op_spec hone h).1)

/-- **The run lemma.** In a run whose gates let only allowed orders pass, broker
and OMS stay in step, and what each change keeps holds at the end. -/
theorem run_spec {ops : List Op} (hops : ∀ op ∈ ops, Op.Gated sys.config Allowed op)
    (h : Coupled sys w) :
    Coupled sys (sys.run w ops) ∧
      Relation.ReflTransGen (OMS.Change Allowed) w.desk.oms (sys.run w ops).desk.oms :=
  h.steps (run_steps hops h)

end System

end RakshaQuant
