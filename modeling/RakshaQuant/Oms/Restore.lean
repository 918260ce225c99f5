import RakshaQuant.Oms.Changes

/-! Restore equals live. `restore` rebuilds an OMS from its log by code of its
own; an OMS in step with its broker and the OMS rebuilt from its log so far hold
the same orders, up to their versions, and the same book. Each change appends
what redoes it. -/

namespace RakshaQuant

/-- An order without its version. -/
def Order.unversioned (order : Order) : Order := { order with version := 0 }

theorem Order.unversioned_inj {order other : Order} (h : other.unversioned = order.unversioned) :
    other = { order with version := other.version } := by
  cases order
  cases other
  simp only [unversioned, Order.mk.injEq] at h ⊢
  tauto

/-- A log tells of a fill. -/
def Logged (fill : Fill) (ps : List EventPayload) : Prop :=
  ∃ status filledQty avgPrice, .fillReceived fill status filledQty avgPrice ∈ ps

/-- A list that ends in the first of two lists, or in the second. -/
theorem prefix_append_cases {α : Type} {p l q : List α} (h : p <+: l ++ q) :
    p <+: l ∨ ∃ q', q' <+: q ∧ p = l ++ q' := by
  rcases List.prefix_or_prefix_of_prefix h (List.prefix_append l q) with hp | ⟨q', rfl⟩
  · exact .inl hp
  · exact .inr ⟨q', (List.prefix_append_right_inj l).mp h, rfl⟩

namespace OMS

/-- Restoring these events takes one OMS to the other. -/
inductive Replays : OMS → List EventPayload → OMS → Prop
  | nil (r : OMS) : Replays r [] r
  | cons {r r' r'' : OMS} {p : EventPayload} {ps : List EventPayload} {counted : Bool}
      (first : restoreEvent p r = .ok counted r') (rest : Replays r' ps r'') :
      Replays r (p :: ps) r''

namespace Replays

variable {r r' r'' : OMS} {ps ps' : List EventPayload}

theorem single {p : EventPayload} {c : Bool} (h : restoreEvent p r = .ok c r') :
    Replays r [p] r' :=
  .cons h (.nil r')

theorem append (h : Replays r ps r') (h' : Replays r' ps' r'') : Replays r (ps ++ ps') r'' := by
  induction h with
  | nil => exact h'
  | cons first _ ih => exact .cons first (ih h')

/-- Replayed events are restored without an exception. -/
theorem run (h : Replays r ps r') (n : ℕ) : ∃ n', restoreEvents ps n r = .ok n' r' := by
  induction h generalizing n with
  | nil => exact ⟨n, rfl⟩
  | cons first _ ih =>
    obtain ⟨n', hn'⟩ := ih _
    refine ⟨n', ?_⟩
    rw [restoreEvents, Effect.run_bind_ok first, hn']

/-- Events that say nothing about orders restore nothing. -/
theorem asides (r : OMS) (h : ∀ p ∈ ps, p.Aside) : Replays r ps r := by
  induction ps with
  | nil => exact .nil r
  | cons p rest ih =>
    have hp : restoreEvent p r = .ok false r := by
      have haside := h p List.mem_cons_self
      cases p <;> first | rfl | exact absurd haside id
    exact .cons hp (ih fun p hp => h p (List.mem_cons_of_mem _ hp))

end Replays

/-- A lifecycle update is restored at the order that it names. -/
theorem restoreStatus_run {ref : OrderRef} {r : OMS} {copy : Order}
    (hget : r.orders.get? ref.clientOrderId = some copy) (hbook : ref.bookId = r.bookId)
    (change : Order → OMS → OMS) : OMS.restoreStatus ref change r = .ok true (change copy r) := by
  simp only [OMS.restoreStatus, Effect.run_bind, Effect.run_get, hget, hbook, ne_eq,
    not_true_eq_false, if_false, Effect.run_modify]
  rfl

/-- An OMS and one rebuilt from its log. -/
structure Restored (o r : OMS) : Prop where
  keyed : o.Keyed
  ours : ∀ coid order, o.orders.get? coid = some order → order.intent.bookId = o.bookId
  book : r.book = o.book
  orders : ∀ coid, (r.orders.get? coid).map Order.unversioned =
    (o.orders.get? coid).map Order.unversioned

namespace Restored

variable {o o' r r' : OMS}

/-- The restored copy of an order. -/
theorem copy (h : Restored o r) {k : String} {known : Order}
    (hk : o.orders.get? k = some known) :
    ∃ copy version, r.orders.get? k = some copy ∧ copy = { known with version := version } := by
  have heq := h.orders k
  rw [hk, Option.map_some] at heq
  obtain ⟨copy, hcopy, hu⟩ := Option.map_eq_some_iff.mp heq
  exact ⟨copy, copy.version, hcopy, Order.unversioned_inj hu⟩

/-- Both rewrite an order, and the results agree up to the version. -/
theorem set (h : Restored o r) {k : String} {changed copy : Order}
    (horders : o'.orders = o.orders.set k changed) (hrestored : r'.orders = r.orders.set k copy)
    (hsame : copy.unversioned = changed.unversioned) (hid : changed.clientOrderId = k)
    (hours : changed.intent.bookId = o.bookId) (hbookId : o'.bookId = o.bookId)
    (hbook : r'.book = o'.book) : Restored o' r' := by
  refine ⟨keyed_set h.keyed horders hid, fun coid order ho => ?_, hbook, fun coid => ?_⟩
  · rw [hbookId]
    rw [horders, Dict.get?_set_iff] at ho
    rcases ho with ⟨-, rfl⟩ | ⟨-, hold⟩
    · exact hours
    · exact h.ours coid order hold
  · rw [horders, hrestored, Dict.get?_set, Dict.get?_set]
    split
    · rw [Option.map_some, Option.map_some, hsame]
    · exact h.orders coid

/-- A lifecycle update of an order is restored at its copy. -/
theorem restoreStatus (h : Restored o r) {k : String} {known copy : Order}
    (hk : o.orders.get? k = some known) (hcopy : r.orders.get? k = some copy)
    (change : Order → OMS → OMS) :
    OMS.restoreStatus (ref known) change r = .ok true (change copy r) := by
  refine restoreStatus_run ((congrArg r.orders.get? (h.keyed _ _ hk)).trans hcopy) ?_ change
  rw [bookId, h.book]
  exact h.ours _ _ hk

/-- A status update is restored by its event. -/
theorem tells (h : Restored o r) {k : String} {known : Order} {status : OrderStatus}
    {boid : Option String} {event : EventPayload} (hk : o.orders.get? k = some known)
    (htells : Tells known status boid event) :
    ∃ r' version, restoreEvent event r = .ok true r' ∧ r'.book = r.book ∧
      r'.orders = r.orders.set k
        { known with brokerOrderId := boid, status := status, version := version } := by
  obtain ⟨copy, version, hcopy, hsame⟩ := h.copy hk
  have hrun := h.restoreStatus hk hcopy
  have hid : copy.clientOrderId = k := by
    rw [hsame]
    exact (h.keyed _ _ hk :)
  have hset : ∀ change : Order → Order, (r.setOrder copy change).orders =
      r.orders.set k { change copy with version := copy.version + 1 } := by
    intro change
    rw [setOrder_orders, latest_of_get (by rw [hid, hcopy] : _ = some copy), hid]
  cases htells with
  | @acked _ boid named ended _ =>
    have hevent := hrun fun order => restoreAcked order boid status
    cases hterm : known.status.isTerminal with
    | false =>
      have hlive : copy.status.isTerminal = false := by rw [hsame, hterm]
      refine ⟨_, copy.version + 1, hevent, ?_, ?_⟩ <;> unfold restoreAcked <;> dsimp only <;>
        rw [if_pos hlive]
      · rfl
      · rw [popCheck_orders, hset fun latest =>
          { latest with brokerOrderId := some boid, status := status }, hsame]
    | true =>
      -- an order that ended keeps its status, and takes a broker id it did not have
      have hlive : ¬copy.status.isTerminal = false := by simp [hsame, hterm]
      rcases named with hnone | hsome
      · have hnone' : copy.brokerOrderId = none := by rw [hsame, hnone]
        refine ⟨_, copy.version + 1, hevent, ?_, ?_⟩ <;> unfold restoreAcked <;> dsimp only <;>
          rw [if_neg hlive, if_pos hnone']
        · rfl
        · rw [popCheck_orders, hset fun latest => { latest with brokerOrderId := some boid }, hsame,
            ended hterm]
      · have hne : ¬copy.brokerOrderId = none := by simp [hsame, hsome]
        refine ⟨_, version, hevent, ?_, ?_⟩ <;> unfold restoreAcked <;> dsimp only <;>
          rw [if_neg hlive, if_neg hne]
        · rfl
        · rw [popCheck_orders, ended hterm, ← hsome, ← hsame]
          exact (Dict.set_of_get hcopy).symm
  | unknown error =>
    refine ⟨_, copy.version + 1, hrun restoreUnknown, rfl, ?_⟩
    rw [restoreUnknown, hset fun latest => { latest with status := .unknown }, hsame]
  | rejected reason message =>
    refine ⟨_, copy.version + 1, hrun fun order => restoreTerminal order .rejected, rfl, ?_⟩
    rw [restoreTerminal, popCheck_orders, hset fun latest => { latest with status := .rejected },
      hsame]
  | cancelled reason =>
    refine ⟨_, copy.version + 1, hrun fun order => restoreTerminal order .cancelled, rfl, ?_⟩
    rw [restoreTerminal, popCheck_orders, hset fun latest => { latest with status := .cancelled },
      hsame]
  | expired =>
    refine ⟨_, copy.version + 1, hrun fun order => restoreTerminal order .expired, rfl, ?_⟩
    rw [restoreTerminal, popCheck_orders, hset fun latest => { latest with status := .expired },
      hsame]

/-- A fill is restored by its event, with the same lots and the same order. -/
theorem fill (h : Restored o r) {k : String} {known : Order} {fill : Fill}
    (hk : o.orders.get? k = some known) (hof : fill.clientOrderId = k)
    (hours : fill.bookId = o.bookId) (hfresh : fill.fillId ∉ o.book.seen) :
    ∃ r' version, restoreEvent (.fillReceived fill (statusAfter known fill)
        (filledAfter known fill) (avgAfter known fill)) r = .ok true r' ∧
      r'.book = r.book.record (known.application fill) ∧
      r'.orders = r.orders.set k (known.afterFill fill version) := by
  obtain ⟨copy, version, hcopy, hsame⟩ := h.copy hk
  have hid : copy.clientOrderId = k := by
    rw [hsame]
    exact (h.keyed _ _ hk :)
  have hget : r.orders.get? fill.clientOrderId = some copy := by rw [hof, hcopy]
  have hbook : fill.bookId = r.bookId := by
    rw [bookId, h.book]
    exact hours
  have happlication : copy.application fill = known.application fill := by
    rw [hsame]
    rfl
  have happly' : applyToBook fill copy.intent.product copy.intent.strategy
      copy.intent.reason.value r = _ :=
    applyToBook_fresh (o := r) (a := copy.application fill) ⟨hbook, h.book ▸ hfresh⟩
  rw [happlication] at happly'
  refine ⟨OMS.setOrder copy (fun latest => { latest with
      filledQty := filledAfter known fill, avgFillPrice := some (avgAfter known fill)
      status := statusAfter known fill, brokerOrderId := brokerIdAfter copy fill })
      { r with book := r.book.record (known.application fill) }, copy.version + 1, ?_, rfl, ?_⟩
  · simp only [restoreEvent, Effect.run_bind, Effect.run_get, hbook, ne_eq, not_true_eq_false,
      if_false, restoreFill, hget, happly', Effect.run_modify]
    rfl
  · have hlatest : OMS.latest { r with book := r.book.record (known.application fill) } copy = copy :=
      latest_of_get (by rw [hid, hcopy])
    rw [setOrder_orders, hlatest]
    refine (congrArg (r.orders.set · _) hid).trans ?_
    rw [hsame]
    rfl

/-- What a log that ends in a change restores to: the OMS before it, or after it. -/
structure Cut (o' r : OMS) (ps : List EventPayload) (r' : OMS) : Prop where
  replays : Replays r ps r'
  restored : r' = r ∨ Restored o' r'
  book : r'.book = r.book ∨ ∃ fill, Logged fill ps ∧ fill.fillId ∉ r.book.seen ∧
    r'.book.seen = fill.fillId :: r.book.seen

/-- **The step lemma.** What a change appends to the log redoes it, and a log that ends
anywhere in it restores too. -/
theorem cut {Allowed : Order → Prop} (h : Restored o r) (hchange : Change Allowed o o')
    {ps ps' : List EventPayload} (hlogged : events o'.sink = events o.sink ++ ps)
    (hcut : ps' <+: ps) : ∃ r', Cut o' r ps' r' ∧ (ps' = ps → Restored o' r') := by
  have hquiet : Restored o' r → (∀ p ∈ ps', p.Aside) →
      ∃ r', Cut o' r ps' r' ∧ (ps' = ps → Restored o' r') := fun hsame hasides =>
    ⟨r, ⟨.asides r hasides, .inl rfl, .inl rfl⟩, fun _ => hsame⟩
  -- a change of one event is there or not
  have hsingle : ∀ {p q}, events o'.sink = events o.sink ++ [p] → q.book = r.book →
      restoreEvent p r = .ok true q → Restored o' q →
        ∃ r', Cut o' r ps' r' ∧ (ps' = ps → Restored o' r') := by
    intro p q hp hbook hrun hrestored
    obtain rfl : [p] = ps := List.append_cancel_left (hp.symm.trans hlogged)
    rcases List.prefix_cons_iff.mp hcut with rfl | ⟨rest, rfl, hrest⟩
    · exact ⟨r, ⟨.nil r, .inl rfl, .inl rfl⟩, fun heq => by cases heq⟩
    · rw [List.prefix_nil.mp hrest]
      exact ⟨q, ⟨.single hrun, .inr hrestored, .inl hbook⟩, fun _ => hrestored⟩
  cases hchange with
  | noted asides orders book logged =>
    obtain rfl := List.append_cancel_left (logged.symm.trans hlogged)
    refine hquiet ⟨keyed_of_eq h.keyed orders, ?_, h.book.trans book.symm, ?_⟩ fun p hp =>
      asides p (hcut.subset hp)
    · rw [orders, bookId, book]
      exact h.ours
    · rw [orders]
      exact h.orders
  | recounted held orders book logged =>
    obtain ⟨copy, version, hcopy, hsame⟩ := h.copy held
    have hnil : ps = [] := by
      rw [logged] at hlogged
      simpa using hlogged
    have hnil' : ps' = [] := List.prefix_nil.mp (hnil ▸ hcut)
    refine hquiet (h.set orders (Dict.set_of_get hcopy).symm (by rw [hsame]; rfl)
      (h.keyed _ _ held :) (h.ours _ _ held :) (congrArg PositionBook.bookId book)
      (h.book.trans book.symm)) ?_
    simp [hnil']
  | @registered order new _ ours _ _ orders book logged =>
    refine hsingle (q := { r with orders := r.orders.set order.clientOrderId order }) logged rfl ?_
      (h.set orders rfl rfl rfl ours (congrArg PositionBook.bookId book)
        (h.book.trans book.symm))
    have hbook : order.intent.bookId = r.bookId := by
      rw [ours, bookId, bookId, h.book]
    simp only [restoreEvent, Effect.run_bind, Effect.run_get, hbook, ne_eq, not_true_eq_false,
      if_false, Effect.run_set]
    rfl
  | moved held tells _ orders book logged =>
    obtain ⟨r', version, hrun, hbook, hset⟩ := h.tells held tells
    exact hsingle logged hbook hrun (h.set orders hset rfl (h.keyed _ _ held :)
      (h.ours _ _ held :) (congrArg PositionBook.bookId book)
        (hbook.trans (h.book.trans book.symm)))
  | @filled k known fill version es es' held hof _ ours fresh _ _ _ orders book before after logged =>
    obtain ⟨r', version', hrun, hbook, hset⟩ := h.fill held hof ours fresh
    have hrestored : Restored o' r' := by
      refine h.set orders hset rfl (h.keyed _ _ held :) (h.ours _ _ held :) ?_ ?_
      · rw [bookId, book]
        rfl
      · rw [hbook, book, h.book]
    rw [logged, List.append_assoc, List.append_assoc] at hlogged
    obtain rfl := List.append_cancel_left hlogged
    rcases prefix_append_cases hcut with hbefore | ⟨rest, hrest, rfl⟩
    · -- the log ends before the fill
      refine ⟨r, ⟨.asides r fun p hp => before p (hbefore.subset hp), .inl rfl, .inl rfl⟩, ?_⟩
      intro heq
      have hlen := hbefore.length_le
      rw [heq] at hlen
      simp at hlen
    rcases List.prefix_cons_iff.mp hrest with rfl | ⟨more, rfl, hmore⟩
    · refine ⟨r, ⟨.asides r ?_, .inl rfl, .inl rfl⟩, fun heq => ?_⟩
      · simpa using before
      · simp at heq
    · -- the fill is in the log
      have hasides : ∀ p ∈ more, p.Aside := fun p hp => after p (hmore.subset hp)
      have hfresh : fill.fillId ∉ r.book.seen := h.book ▸ fresh
      refine ⟨r', ⟨(Replays.asides r before).append (.cons hrun (.asides r' hasides)),
        .inr hrestored, .inr ⟨fill, ?_, hfresh, ?_⟩⟩, fun _ => hrestored⟩
      · exact ⟨statusAfter known fill, filledAfter known fill, avgAfter known fill,
          List.mem_append_right _ List.mem_cons_self⟩
      · rw [hbook]
        rfl

/-- What a change appends to the log redoes it. -/
theorem change {Allowed : Order → Prop} (h : Restored o r) (hchange : Change Allowed o o') :
    ∃ ps r', events o'.sink = events o.sink ++ ps ∧ Replays r ps r' ∧ Restored o' r' := by
  obtain ⟨ps, hlogged⟩ := hchange.logged
  obtain ⟨r', hcut, hrestored⟩ := h.cut hchange hlogged (List.prefix_refl ps)
  exact ⟨ps, r', hlogged, hcut.replays, hrestored rfl⟩

theorem init (book : PositionBook) : Restored (OMS.init book) (OMS.init book) where
  keyed _ _ h := by cases h
  ours _ _ h := by cases h
  book := rfl
  orders _ := rfl

/-- The run lemma, by induction on the changes. -/
theorem changes {Allowed : Order → Prop} {book : PositionBook}
    (hchanges : Relation.ReflTransGen (Change Allowed) (OMS.init book) o) :
    ∃ r, Replays (OMS.init book) (events o.sink) r ∧ Restored o r := by
  induction hchanges with
  | refl => exact ⟨_, .nil _, .init book⟩
  | tail _ hchange ih =>
    obtain ⟨r, hreplays, hrestored⟩ := ih
    obtain ⟨ps, r', hlogged, hmore, hrestored'⟩ := hrestored.change hchange
    exact ⟨r', hlogged ▸ hreplays.append hmore, hrestored'⟩

/-- A rebuilt OMS keeps its orders within their quantities. -/
theorem withinQuantity (h : Restored o r) (ho : o.WithinQuantity) : r.WithinQuantity := by
  intro coid copy hget
  have heq := h.orders coid
  rw [hget, Option.map_some] at heq
  obtain ⟨known, hknown, hu⟩ := Option.map_eq_some_iff.mp heq.symm
  obtain ⟨hquantity, hfilled⟩ : copy.quantity = known.quantity ∧ copy.filledQty = known.filledQty := by
    simp only [Order.unversioned, Order.mk.injEq] at hu
    exact ⟨hu.2.2.1.symm, hu.2.2.2.2.2.1.symm⟩
  rw [hquantity, hfilled]
  exact ho coid known hknown

/-- So is every OMS that changes lead to, and every one rebuilt from its log. -/
theorem changes_withinQuantity {Allowed : Order → Prop} {book : PositionBook}
    (hchanges : Relation.ReflTransGen (Change Allowed) (OMS.init book) o) :
    o.WithinQuantity ∧ ∀ r, Restored o r → r.WithinQuantity := by
  have hinit : (OMS.init book).WithinQuantity := by
    intro coid order hget
    cases hget
  have ho := Effect.invariant (fun _ _ hchange h => Change.withinQuantity hchange h) hchanges hinit
  exact ⟨ho, fun r hr => hr.withinQuantity ho⟩

end Restored

end OMS

end RakshaQuant
