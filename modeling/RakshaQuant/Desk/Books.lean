import RakshaQuant.Desk.Operations

/-! What the broker and the OMS agree on, whatever the statuses of their orders
are: every order at the broker is one the OMS knows, of the same instrument and
product; a fill is applied on both sides or on neither; so money and positions
are equal. -/

namespace RakshaQuant

namespace System

variable {T : Type} {sys : System T}

/-- Broker and OMS agree on orders, fills, money and positions. -/
structure Agrees (sys : System T) (w : Paper T) : Prop where
  keyed : w.desk.oms.Keyed
  book : w.desk.oms.bookId = sys.env.bookId
  ids : ∀ boid so, w.broker.orders.get? boid = some so →
    so.brokerOrderId = boid ∧ ∃ n < w.broker.core.nextOrder, boid = simId sys.env.bookId n
  tags : ∀ coid boid, w.broker.byTag.get? coid = some boid ↔
    ∃ so, w.broker.orders.get? boid = some so ∧ so.clientOrderId = coid
  known : ∀ boid so, w.broker.orders.get? boid = some so →
    ∃ order, w.desk.oms.orders.get? so.clientOrderId = some order ∧
      order.intent.instrument.key = so.instrumentKey ∧ order.intent.product = so.product
  seen : ∀ id ∈ w.desk.oms.book.seen, ∃ boid so k, w.broker.orders.get? boid = some so ∧
    k ≤ so.fillCount ∧ id = fillIdOf boid k
  reported : ∀ f ∈ w.broker.fills, f.fillId ∈ w.desk.oms.book.seen
  money : w.desk.oms.book.cash = w.broker.core.money
  positions : ∀ instrumentKey product, w.desk.oms.book.quantity instrumentKey product =
    w.broker.core.quantity instrumentKey product

namespace Agrees

variable {w w' : Paper T}

/-- A step that registers no order at the broker and applies no fill. -/
theorem frame (h : Agrees sys w) (hkeyed : w'.desk.oms.Keyed)
    (horders : ∀ coid order, w.desk.oms.orders.get? coid = some order →
      ∃ order', w'.desk.oms.orders.get? coid = some order' ∧ order'.intent = order.intent)
    (hbook : w'.desk.oms.book = w.desk.oms.book)
    (hids : ∀ boid, (w'.broker.orders.get? boid).map SimOrder.identity =
      (w.broker.orders.get? boid).map SimOrder.identity)
    (htags : w'.broker.byTag = w.broker.byTag)
    (hnext : w'.broker.core.nextOrder = w.broker.core.nextOrder)
    (hfills : w'.broker.fills = w.broker.fills)
    (hmoney : w'.broker.core.money = w.broker.core.money)
    (hpositions : w'.broker.core.positions = w.broker.core.positions) : Agrees sys w' := by
  -- the broker has the same orders, as far as their identities go
  have hback : ∀ boid so', w'.broker.orders.get? boid = some so' →
      ∃ so, w.broker.orders.get? boid = some so ∧ so'.identity = so.identity := by
    intro boid so' hso'
    have := hids boid
    rw [hso', Option.map_some] at this
    obtain ⟨so, hso, hid⟩ := Option.map_eq_some_iff.mp this.symm
    exact ⟨so, hso, hid.symm⟩
  have hforth : ∀ boid so, w.broker.orders.get? boid = some so →
      ∃ so', w'.broker.orders.get? boid = some so' ∧ so'.identity = so.identity := by
    intro boid so hso
    have := hids boid
    rw [hso, Option.map_some] at this
    exact Option.map_eq_some_iff.mp this
  refine ⟨hkeyed, ?_, fun boid so' hso' => ?_, fun coid boid => ?_, fun boid so' hso' => ?_,
    fun id hid => ?_, fun f hf => ?_, ?_, fun ik p => ?_⟩
  · rw [OMS.bookId, hbook]
    exact h.book
  · obtain ⟨so, hso, hident⟩ := hback boid so' hso'
    rw [hnext, (SimOrder.identity_inj hident).1]
    exact h.ids boid so hso
  · rw [htags, h.tags]
    constructor
    · rintro ⟨so, hso, rfl⟩
      obtain ⟨so', hso', hident⟩ := hforth boid so hso
      exact ⟨so', hso', (SimOrder.identity_inj hident).2.1⟩
    · rintro ⟨so', hso', rfl⟩
      obtain ⟨so, hso, hident⟩ := hback boid so' hso'
      exact ⟨so, hso, (SimOrder.identity_inj hident).2.1.symm⟩
  · obtain ⟨so, hso, hident⟩ := hback boid so' hso'
    obtain ⟨-, hcoid, hkey, hproduct, -⟩ := SimOrder.identity_inj hident
    obtain ⟨order, horder, hk, hp⟩ := h.known boid so hso
    obtain ⟨order', horder', hi⟩ := horders _ _ horder
    exact ⟨order', by rw [hcoid, horder'], by rw [hi, hk, hkey], by rw [hi, hp, hproduct]⟩
  · rw [hbook] at hid
    obtain ⟨boid, so, k, hso, hk, hideq⟩ := h.seen id hid
    obtain ⟨so', hso', hident⟩ := hforth boid so hso
    exact ⟨boid, so', k, hso', (SimOrder.identity_inj hident).2.2.2.2.symm ▸ hk, hideq⟩
  · rw [hbook]
    exact h.reported f (hfills ▸ hf)
  · rw [hbook, hmoney]
    exact h.money
  · rw [hbook, SimCore.quantity, hpositions]
    exact h.positions ik p

/-- Only the OMS's orders change, and none goes or changes its intent. -/
theorem touched (h : Agrees sys w) {o : OMS} (ht : OMS.Touched w.desk.oms o)
    (hbook : o.book = w.desk.oms.book) : Agrees sys (w.mapOms fun _ => o) :=
  h.frame (ht.keyed h.keyed) (fun _ _ ho => ht.intent ho) hbook (fun _ => rfl) rfl rfl rfl
    rfl rfl

/-- Only the broker changes: orders keep their identities, money and positions stay. -/
theorem broker (h : Agrees sys w) {b : SimulatedBroker}
    (hids : ∀ boid, (b.orders.get? boid).map SimOrder.identity =
      (w.broker.orders.get? boid).map SimOrder.identity)
    (htags : b.byTag = w.broker.byTag) (hnext : b.core.nextOrder = w.broker.core.nextOrder)
    (hfills : b.fills = w.broker.fills) (hmoney : b.core.money = w.broker.core.money)
    (hpositions : b.core.positions = w.broker.core.positions) :
    Agrees sys (w.mapBroker fun _ => b) :=
  h.frame h.keyed (fun _ order ho => ⟨order, ho, rfl⟩) rfl hids htags hnext hfills hmoney hpositions

/-- A notification. -/
theorem notify (h : Agrees sys w) (boid : String) : Agrees sys (w.notify sys.hooks boid) := by
  cases hso : w.broker.orders.get? boid with
  | none =>
    rw [World.notify, hso]
    exact h
  | some so =>
    rw [World.notify_of_get _ hso]
    have ht := OMS.touched_onUpdate so.snapshot h.keyed
    exact h.frame (ht.keyed h.keyed) (fun _ _ ho => ht.intent ho)
      (OMS.onUpdate_book so.snapshot h.keyed) (fun _ => rfl) rfl rfl rfl rfl rfl

/-- The broker saves its rows. -/
theorem save (h : Agrees sys w) : Agrees sys (w.save sys.hooks) :=
  h.frame (OMS.keyed_of_eq h.keyed rfl) (fun _ order ho => ⟨order, ho, rfl⟩) rfl (fun _ => rfl) rfl
    rfl rfl rfl rfl

/-- The next id of a broker order is new. -/
theorem fresh_id (h : Agrees sys w) :
    w.broker.orders.get? (simId sys.env.bookId w.broker.core.nextOrder) = none :=
  nextId_free h.ids

/-- A tag without an order belongs to no order. -/
theorem free_tag (h : Agrees sys w) {coid : String} (hfree : w.broker.find coid = none)
    {boid : String} {so : SimOrder} (hso : w.broker.orders.get? boid = some so) :
    so.clientOrderId ≠ coid := by
  intro hc
  have htag := (h.tags coid boid).mpr ⟨so, hso, hc⟩
  rw [SimulatedBroker.find, htag, Option.bind_some, hso] at hfree
  cases hfree

theorem find_iff (h : Agrees sys w) {coid : String} {so : SimOrder} :
    w.broker.find coid = some so ↔
      w.broker.orders.get? so.brokerOrderId = some so ∧ so.clientOrderId = coid := by
  rw [SimulatedBroker.find, Option.bind_eq_some_iff]
  constructor
  · rintro ⟨boid, htag, hso⟩
    obtain ⟨so', hso', hc⟩ := (h.tags coid boid).mp htag
    obtain rfl : so' = so := Option.some.inj (hso'.symm.trans hso)
    exact ⟨(h.ids boid so' hso).1.symm ▸ hso, hc⟩
  · rintro ⟨hso, hc⟩
    exact ⟨_, (h.tags coid _).mpr ⟨so, hso, hc⟩, hso⟩

theorem find_of_get (h : Agrees sys w) {boid : String} {so : SimOrder}
    (hso : w.broker.orders.get? boid = some so) : w.broker.find so.clientOrderId = some so :=
  h.find_iff.mpr ⟨(h.ids boid so hso).1.symm ▸ hso, rfl⟩

/-- Rewriting a broker order changes what is found under its tag. -/
theorem find_set (h : Agrees sys w) {b : SimulatedBroker} {boid : String} {so so' : SimOrder}
    (hso : w.broker.orders.get? boid = some so)
    (horders : b.orders = w.broker.orders.set boid so') (htags : b.byTag = w.broker.byTag)
    (coid : String) :
    b.find coid = if coid = so.clientOrderId then some so' else w.broker.find coid := by
  have htag : w.broker.byTag.get? so.clientOrderId = some boid := (h.tags _ _).mpr ⟨so, hso, rfl⟩
  rw [SimulatedBroker.find, SimulatedBroker.find, htags, horders]
  by_cases hc : coid = so.clientOrderId
  · rw [if_pos hc, hc, htag, Option.bind_some, Dict.get?_set_self]
  · rw [if_neg hc]
    cases hb : w.broker.byTag.get? coid with
    | none => rfl
    | some boid' =>
      obtain ⟨so'', hso'', hc'⟩ := (h.tags _ _).mp hb
      have hne : boid' ≠ boid := by
        rintro rfl
        rw [hso, Option.some.injEq] at hso''
        exact hc (hso'' ▸ hc'.symm)
      rw [Option.bind_some, Option.bind_some, Dict.get?_set_ne _ _ hne]

/-- The broker accepts a new order of the OMS. -/
theorem accept (h : Agrees sys w) {order : Order} (reserved : ℚ) (now : Instant)
    (hknown : w.desk.oms.orders.get? order.clientOrderId = some order)
    (hfree : w.broker.find order.clientOrderId = none) :
    Agrees sys (w.mapBroker fun b =>
      (b.accept (sys.env.newSimOrder order reserved now w.broker)).markDirty
        (sys.env.newSimOrder order reserved now w.broker).brokerOrderId) := by
  have hboid : (sys.env.newSimOrder order reserved now w.broker).brokerOrderId =
      simId sys.env.bookId w.broker.core.nextOrder := rfl
  have hcoid : (sys.env.newSimOrder order reserved now w.broker).clientOrderId =
      order.clientOrderId := rfl
  have hkey : (sys.env.newSimOrder order reserved now w.broker).instrumentKey =
      order.intent.instrument.key ∧
      (sys.env.newSimOrder order reserved now w.broker).product = order.intent.product := ⟨rfl, rfl⟩
  generalize sys.env.newSimOrder order reserved now w.broker = sim at hboid hcoid hkey ⊢
  -- the broker counts its ids up, so the new one is free
  have hnew : w.broker.orders.get? sim.brokerOrderId = none := by
    rw [hboid]
    exact h.fresh_id
  refine ⟨h.keyed, h.book, fun boid so hso => ?_, fun coid boid => ?_, fun boid so hso => ?_,
    fun id hid => ?_, h.reported, h.money, h.positions⟩
  · rcases w.broker.orders.get?_set_iff.mp hso with ⟨rfl, rfl⟩ | ⟨-, hold⟩
    · exact ⟨rfl, _, Nat.lt_succ_self _, hboid⟩
    · obtain ⟨hid, n, hn, heq⟩ := h.ids boid so hold
      exact ⟨hid, n, Nat.lt_succ_of_lt hn, heq⟩
  · show (w.broker.byTag.set sim.clientOrderId sim.brokerOrderId).get? coid = some boid ↔
      ∃ so, (w.broker.orders.set sim.brokerOrderId sim).get? boid = some so ∧
        so.clientOrderId = coid
    rw [Dict.get?_set]
    -- no order stood under the tag before, so the new one is the only one now
    by_cases hc : coid = sim.clientOrderId
    · rw [if_pos hc, Option.some.injEq]
      constructor
      · rintro rfl
        exact ⟨sim, w.broker.orders.get?_set_iff.mpr (.inl ⟨rfl, rfl⟩), hc.symm⟩
      · rintro ⟨so, hso, hso'⟩
        rcases w.broker.orders.get?_set_iff.mp hso with ⟨hb, -⟩ | ⟨-, hold⟩
        · exact hb.symm
        · exact absurd (hso'.trans (hc.trans hcoid)) (h.free_tag hfree hold)
    · rw [if_neg hc, h.tags]
      constructor
      · rintro ⟨so, hso, hso'⟩
        refine ⟨so, w.broker.orders.get?_set_iff.mpr (.inr ⟨?_, hso⟩), hso'⟩
        rintro rfl
        rw [hnew] at hso
        cases hso
      · rintro ⟨so, hso, hso'⟩
        rcases w.broker.orders.get?_set_iff.mp hso with ⟨-, rfl⟩ | ⟨-, hold⟩
        · exact absurd hso'.symm hc
        · exact ⟨so, hold, hso'⟩
  · rcases w.broker.orders.get?_set_iff.mp hso with ⟨-, rfl⟩ | ⟨-, hold⟩
    · exact ⟨order, by rw [hcoid]; exact hknown, hkey.1.symm, hkey.2.symm⟩
    · exact h.known boid so hold
  · obtain ⟨boid, so, k, hso, hk, heq⟩ := h.seen id hid
    refine ⟨boid, so, k, w.broker.orders.get?_set_iff.mpr (.inr ⟨?_, hso⟩), hk, heq⟩
    rintro rfl
    rw [hnew] at hso
    cases hso

/-- Accepting an order changes what is found under its tag. -/
theorem find_accept (h : Agrees sys w) {sim : SimOrder}
    (hboid : sim.brokerOrderId = simId sys.env.bookId w.broker.core.nextOrder) (coid : String) :
    (w.broker.accept sim).find coid =
      if coid = sim.clientOrderId then some sim else w.broker.find coid := by
  show ((w.broker.byTag.set sim.clientOrderId sim.brokerOrderId).get? coid).bind
    (w.broker.orders.set sim.brokerOrderId sim).get? = _
  by_cases hc : coid = sim.clientOrderId
  · rw [if_pos hc, hc, Dict.get?_set_self, Option.bind_some, Dict.get?_set_self]
  · rw [if_neg hc, Dict.get?_set_ne _ _ hc, SimulatedBroker.find]
    cases hb : w.broker.byTag.get? coid with
    | none => rfl
    | some boid =>
      obtain ⟨so, hso, -⟩ := (h.tags _ _).mp hb
      have hne : boid ≠ sim.brokerOrderId := by
        rintro rfl
        rw [hboid, h.fresh_id] at hso
        cases hso
      rw [Option.bind_some, Option.bind_some, Dict.get?_set_ne _ _ hne]

/-- A fill of a broker order is one the OMS has not seen. -/
theorem fresh_fill (h : Agrees sys w) {boid : String} {so : SimOrder}
    (hso : w.broker.orders.get? boid = some so) :
    fillIdOf so.brokerOrderId (so.fillCount + 1) ∉ w.desk.oms.book.seen := by
  intro hseen
  obtain ⟨boid', so', k, hso', hk, heq⟩ := h.seen _ hseen
  obtain ⟨hb, hn⟩ := fillIdOf_injective heq
  rw [(h.ids boid so hso).1] at hb
  subst hb
  obtain rfl : so' = so := Option.some.inj (hso'.symm.trans hso)
  omega

/-- What a fill does to the OMS: it is recorded on the broker order's counterpart. -/
theorem onFill (h : Agrees sys w) {boid : String} {so : SimOrder}
    (hso : w.broker.orders.get? boid = some so) (instrument : Instrument) (reference : ℚ)
    (qty : { q : ℤ // 0 < q }) (charges : ChargeBreakdown) (quote : Quote) :
    let fill := sys.env.newFill so instrument reference qty charges quote
    let after := (Desk.onFill sys.listener fill w.desk).state.oms
    ∃ order version, w.desk.oms.orders.get? so.clientOrderId = some order ∧
      order.intent.instrument.key = so.instrumentKey ∧ order.intent.product = so.product ∧
      after.orders = w.desk.oms.orders.set so.clientOrderId (order.afterFill fill version) ∧
      after.book = w.desk.oms.book.record (order.application fill) ∧
      ∃ es es' : List EventPayload, (∀ p ∈ es, p.Aside) ∧ (∀ p ∈ es', p.Aside) ∧
        events after.sink = events w.desk.oms.sink ++ es ++
          [.fillReceived fill (OMS.statusAfter order fill) (OMS.filledAfter order fill)
            (OMS.avgAfter order fill)] ++ es' := by
  intro fill after
  obtain ⟨order, horder, hkey, hproduct⟩ := h.known boid so hso
  have hseen : fill.fillId ∉ w.desk.oms.book.seen := h.fresh_fill hso
  have hbook : fill.bookId = w.desk.oms.bookId := h.book.symm
  obtain ⟨version, as, hstate, -⟩ := OMS.onFill_known hseen h.keyed horder hbook
  obtain ⟨bs, homs⟩ := Desk.onFill_oms sys.listener fill w.desk
  have hafter : after = _ := homs
  rw [hstate] at hafter
  refine ⟨order, version, horder, hkey, hproduct, by rw [hafter]; rfl, by rw [hafter],
    as.map .alert,
    .positionChanged (w.desk.oms.book.outcome (order.application fill)).position
      (some fill.fillId) :: ((OMS.reportedTrades w.desk.oms.bookId
        (w.desk.oms.book.outcome (order.application fill)).closed).map .tradeClosed ++
          bs.map .alert),
    ?_, ?_, ?_⟩
  · intro p hp
    obtain ⟨a, -, rfl⟩ := List.mem_map.mp hp
    exact trivial
  · intro p hp
    rcases List.mem_cons.mp hp with rfl | hp
    · exact trivial
    · rcases List.mem_append.mp hp with hp | hp
      · obtain ⟨t, -, rfl⟩ := List.mem_map.mp hp
        exact trivial
      · obtain ⟨a, -, rfl⟩ := List.mem_map.mp hp
        exact trivial
  · rw [hafter]
    simp [events]

/-- Rewriting a broker order keeps what its tag means. -/
theorem tags_set (h : Agrees sys w) {boid : String} {so so' : SimOrder}
    (hso : w.broker.orders.get? boid = some so) (hcoid : so'.clientOrderId = so.clientOrderId)
    (coid b : String) : w.broker.byTag.get? coid = some b ↔
      ∃ known, (w.broker.orders.set boid so').get? b = some known ∧
        known.clientOrderId = coid := by
  rw [h.tags]
  constructor
  · rintro ⟨known, hknown, hc⟩
    by_cases hb : b = boid
    · subst hb
      obtain rfl : known = so := Option.some.inj (hknown.symm.trans hso)
      exact ⟨so', w.broker.orders.get?_set_iff.mpr (.inl ⟨rfl, rfl⟩), hcoid.trans hc⟩
    · exact ⟨known, w.broker.orders.get?_set_iff.mpr (.inr ⟨hb, hknown⟩), hc⟩
  · rintro ⟨known, hknown, hc⟩
    rcases w.broker.orders.get?_set_iff.mp hknown with ⟨rfl, rfl⟩ | ⟨-, hold⟩
    · exact ⟨so, hso, hcoid.symm.trans hc⟩
    · exact ⟨known, hold, hc⟩

/-- Rewriting a broker order keeps the ids the book has seen counted. -/
theorem seen_set (h : Agrees sys w) {boid : String} {so so' : SimOrder}
    (hso : w.broker.orders.get? boid = some so) (hcount : so.fillCount ≤ so'.fillCount)
    {id : String} (hid : id ∈ w.desk.oms.book.seen) :
    ∃ b known k, (w.broker.orders.set boid so').get? b = some known ∧ k ≤ known.fillCount ∧
      id = fillIdOf b k := by
  obtain ⟨b, known, k, hknown, hk, heq⟩ := h.seen id hid
  by_cases hb : b = boid
  · subst hb
    obtain rfl : known = so := Option.some.inj (hknown.symm.trans hso)
    exact ⟨b, so', k, w.broker.orders.get?_set_iff.mpr (.inl ⟨rfl, rfl⟩), by omega, heq⟩
  · exact ⟨b, known, k, w.broker.orders.get?_set_iff.mpr (.inr ⟨hb, hknown⟩), hk, heq⟩

/-- A fill is booked on both sides. -/
theorem fill (h : Agrees sys w) {boid : String} {so : SimOrder} {instrument : Instrument}
    {reference : ℚ} {qty : { q : ℤ // 0 < q }} {charges : ChargeBreakdown} {quote : Quote}
    {s : SimulatedBroker.Settlement} (dpDay : Option (String × Day))
    (hso : w.broker.orders.get? boid = some so)
    (hsettles : sys.env.settlement so
      (sys.env.newFill so instrument reference qty charges quote) w.broker = .ok (some s)) :
    Agrees sys
      { broker := w.broker.bookFill boid so s dpDay
          (sys.env.newFill so instrument reference qty charges quote)
        desk := (Desk.onFill sys.listener
          (sys.env.newFill so instrument reference qty charges quote) w.desk).state } := by
  obtain ⟨order, version, horder, hkey, hproduct, horders, hbook, -⟩ :=
    h.onFill hso instrument reference qty charges quote
  have hid : (sys.env.newFill so instrument reference qty charges quote).fillId =
      fillIdOf so.brokerOrderId (so.fillCount + 1) := rfl
  have hfkey : (sys.env.newFill so instrument reference qty charges quote).instrumentKey =
      so.instrumentKey := rfl
  have hside : (sys.env.newFill so instrument reference qty charges quote).side = so.side := rfl
  generalize sys.env.newFill so instrument reference qty charges quote = fill at *
  obtain ⟨hboid, n, hn, hsim⟩ := h.ids boid so hso
  obtain ⟨blocked, hbooked, -⟩ := SimulatedBroker.bookFill_eq boid so s dpDay fill w.broker
  obtain ⟨hsame, hcoid', hkey', -, hproduct', -⟩ := so.afterFill_same s fill
  have hcount := (so.afterFill_counts s fill).2
  have hocoid : order.clientOrderId = so.clientOrderId := h.keyed _ _ horder
  have hcore : (w.broker.bookFill boid so s dpDay fill).core.nextOrder =
      w.broker.core.nextOrder := by
    rw [hbooked]
    cases s <;> rfl
  rw [hbooked] at hcore ⊢
  -- every clause but the money and the positions only follows the one order that changed
  refine ⟨OMS.keyed_set h.keyed horders hocoid, ?_, fun b so' hso' => ?_, fun coid b => ?_,
    fun b so' hso' => ?_, fun id hidm => ?_, fun f hf => ?_, ?_, fun ik p => ?_⟩
  · rw [OMS.bookId, hbook]
    exact h.book
  · show so'.brokerOrderId = b ∧ ∃ n < _, _
    rw [hcore]
    rcases w.broker.orders.get?_set_iff.mp hso' with ⟨rfl, rfl⟩ | ⟨-, hold⟩
    · exact ⟨hsame.trans hboid, n, hn, hsim⟩
    · exact h.ids b so' hold
  · exact h.tags_set hso hcoid' coid b
  · have hintent : ∀ coid known, w.desk.oms.orders.get? coid = some known →
        ∃ known', (Desk.onFill sys.listener fill w.desk).state.oms.orders.get? coid =
          some known' ∧ known'.intent = known.intent := fun _ _ hknown =>
      (OMS.Touched.one horder horders hocoid rfl).intent hknown
    rcases w.broker.orders.get?_set_iff.mp hso' with ⟨rfl, rfl⟩ | ⟨-, hold⟩
    · obtain ⟨known', hknown', hi⟩ := hintent _ _ horder
      exact ⟨known', by rw [hcoid', hknown'], by rw [hi, hkey', hkey], by rw [hi, hproduct', hproduct]⟩
    · obtain ⟨known, hknown, hk, hp⟩ := h.known b so' hold
      obtain ⟨known', hknown', hi⟩ := hintent _ _ hknown
      exact ⟨known', hknown', by rw [hi, hk], by rw [hi, hp]⟩
  · rw [hbook] at hidm
    rcases List.mem_cons.mp hidm with rfl | hold
    · refine ⟨boid, _, so.fillCount + 1, w.broker.orders.get?_set_iff.mpr (.inl ⟨rfl, rfl⟩), hcount.ge, ?_⟩
      show fill.fillId = _
      rw [hid, hboid]
    · exact h.seen_set hso (by omega) hold
  · rw [hbook]
    rcases List.mem_append.mp hf with hold | hnew
    · exact List.mem_cons_of_mem _ (h.reported f hold)
    · rw [List.mem_singleton.mp hnew]
      exact List.mem_cons_self
  · rw [hbook]
    -- both sides take the same cost off the same cash
    show PositionBook.cashAfter w.desk.oms.book.cash fill =
      (SimulatedBroker.settleFill s w.broker.core).money
    rw [PositionBook.cashAfter_eq, h.money,
      SimulatedBroker.money_settleFill so fill w.broker hside hsettles]
  · rw [hbook, PositionBook.quantity_record]
    show _ = (SimulatedBroker.applyPosition so.product fill
      (SimulatedBroker.settleFill s w.broker.core)).quantity ik p
    rw [SimulatedBroker.quantity_applyPosition, h.positions]
    have hpos : (SimulatedBroker.settleFill s w.broker.core).quantity ik p =
        w.broker.core.quantity ik p := by cases s <;> rfl
    rw [hpos]
    show _ + (if fill.instrumentKey = ik ∧ order.intent.product = p then fill.signedQty else 0) = _
    rw [hproduct]

/-- Adopting a fill the broker reports changes nothing: the OMS has seen it. -/
theorem adopt (h : Agrees sys w) {fill : Fill} (hf : fill ∈ w.broker.fills) :
    ({ w with desk := (Desk.onFill sys.listener fill w.desk).state } : Paper T) = w := by
  unfold Desk.onFill
  rw [OMS.onFill_seen (h.reported fill hf)]
  rfl

/-- Every step keeps the agreement. -/
theorem step {Allowed : Order → Prop} (h : Agrees sys w) (hstep : Step sys Allowed w w') :
    Agrees sys w' := by
  cases hstep with
  | settled today =>
    obtain ⟨cash, unsettled, heq, hmoney, -⟩ := w.broker.settle_spec today
    show Agrees sys (w.mapBroker fun _ => w.broker.settle today)
    rw [heq]
    exact h.broker (fun _ => rfl) rfl rfl rfl hmoney rfl
  | observed quote today =>
    show Agrees sys (w.mapBroker fun _ => w.broker.observe quote today)
    exact h.broker (fun _ => rfl) rfl rfl rfl rfl rfl
  | counted boid =>
    show Agrees sys (w.mapBroker fun _ => w.broker.countQuote boid)
    cases hso : w.broker.orders.get? boid with
    | none =>
      rw [SimulatedBroker.countQuote_of_none hso]
      exact h
    | some so =>
      rw [SimulatedBroker.countQuote_of_get hso]
      exact h.broker (identity_set hso rfl) rfl rfl rfl rfl rfl
  -- a trigger or an end changes no identity of an order, no fill and no money
  | @triggered boid so ts held _ =>
    refine Agrees.notify (w := w.mapBroker fun _ => w.broker.trigger boid ts) ?_ boid
    rw [SimulatedBroker.trigger_of_get ts held]
    exact h.broker (identity_set held rfl) rfl rfl rfl rfl rfl
  | @finished boid so status message ts held _ _ =>
    refine Agrees.notify (w := w.mapBroker fun _ => w.broker.finish boid status message ts) ?_ boid
    rw [SimulatedBroker.finish_of_get status message ts held]
    exact h.broker (identity_set held rfl) rfl rfl rfl rfl rfl
  | filled dpDay held _ _ settles => exact h.fill dpDay held settles
  | @renotified boid _ _ _ => exact h.notify boid
  | accepted now known _ free _ _ => exact ((h.accept _ now known free).save).notify _
  | saved => exact h.save
  | @registered order _ _ _ fresh _ =>
    -- the new order is under an id of its own
    refine h.frame (OMS.keyed_set h.keyed (OMS.register_orders _ _) rfl) (fun coid known hknown => ?_)
      rfl (fun _ => rfl) rfl rfl rfl rfl rfl
    show ∃ order', (w.desk.oms.orders.set order.clientOrderId order).get? coid = some order' ∧ _
    have hne : coid ≠ order.clientOrderId := by
      rintro rfl
      rw [fresh] at hknown
      cases hknown
    exact ⟨known, by rw [Dict.get?_set_ne _ _ hne, hknown], rfl⟩
  | @unplaced order known exc held _ _ _ =>
    obtain ⟨_, _, -, -, hbook, -⟩ := OMS.placeFailed_spec exc held
    exact h.touched (OMS.touched_placeFailed exc h.keyed ⟨known, held⟩) hbook
  | @acked order known ack held _ =>
    exact h.touched (OMS.touched_placed ack h.keyed ⟨known, held⟩) (OMS.placed_book _ _ _)
  | @found order known so held _ =>
    exact h.touched (OMS.touched_found so.snapshot h.keyed ⟨known, held⟩) rfl
  | adopted reported =>
    rw [h.adopt reported]
    exact h
  | @resolved order known so held _ _ =>
    exact h.touched (OMS.touched_resolved so.snapshot h.keyed ⟨known, held⟩)
      (OMS.resolved_book _ _ _)
  | @absent order now held _ =>
    exact h.touched (OMS.touched_absent sys.config now h.keyed ⟨order, held⟩) (OMS.absent_book _ _ _ _)
  | emitted _ =>
    exact h.frame (OMS.keyed_of_eq h.keyed rfl) (fun _ order ho => ⟨order, ho, rfl⟩) rfl
      (fun _ => rfl) rfl rfl rfl rfl rfl

theorem init (startingCash : ℚ) (ext : T) : Agrees sys (sys.init startingCash ext) where
  keyed _ _ h := by cases h
  book := rfl
  ids _ _ h := by cases h
  tags coid boid := by
    constructor
    · intro h
      cases h
    · rintro ⟨so, h, -⟩
      cases h
  known _ _ h := by cases h
  seen _ h := by cases h
  reported _ h := by cases h
  money := (add_zero _).symm
  positions _ _ := rfl

end Agrees

end System

end RakshaQuant
