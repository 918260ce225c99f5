import RakshaQuant.Brokers.Simulated.Rows
import RakshaQuant.Desk.InSync
import RakshaQuant.Oms.Restore

/-! Recovery after a crash. A crash leaves a prefix of the journal; from it the broker
loads its rows and the OMS restores its events. The OMS logs a fill inside the broker's
callback, before the broker saves the order and the cash it came from. So both sides
come back in agreement exactly where every fill that was logged was saved too. -/

namespace RakshaQuant

/-- What identifies a broker order, besides its fills. -/
def SimOrder.origin (o : SimOrder) : String × String × String × Product :=
  (o.brokerOrderId, o.clientOrderId, o.instrumentKey, o.product)

theorem SimOrder.origin_inj {o o' : SimOrder} (h : o'.origin = o.origin) :
    o'.brokerOrderId = o.brokerOrderId ∧ o'.clientOrderId = o.clientOrderId ∧
      o'.instrumentKey = o.instrumentKey ∧ o'.product = o.product := by
  simpa [origin] using h

namespace OMS

/-- Between two states only events are written. -/
def Logs (o o' : OMS) : Prop := ∃ ps : List EventPayload, o'.sink = o.sink ++ ps.map .event

namespace Logs

variable {o o' : OMS}

theorem of_eq (h : o'.sink = o.sink) : Logs o o' := ⟨[], by simp [h]⟩

theorem of_event {p : EventPayload} (h : o'.sink = o.sink ++ [.event p]) : Logs o o' := ⟨[p], h⟩

theorem onUpdate (snap : BrokerOrderSnapshot) (hk : o.Keyed) : Logs o (o.onUpdate snap) := by
  cases hs : o.orders.get? snap.clientOrderId with
  | none =>
    obtain ⟨a, heq⟩ := onUpdate_unknown hs
    exact of_event (congrArg OMS.sink heq)
  | some order =>
    obtain ⟨-, ⟨-, -, -, -, -, hsink⟩ | ⟨-, hsink, -⟩⟩ := onUpdate_known hk hs
    · exact of_event hsink
    · exact of_eq hsink

theorem placed (order : Order) (ack : BrokerAck) : Logs o (o.placed order ack) := by
  unfold OMS.placed
  dsimp only
  split
  · exact of_event (emit_sink ..|>.trans (by rw [advance_sink, setOrder_sink]))
  · exact of_eq rfl

theorem absent (config : OmsConfig) (now : Instant) {order : Order}
    (h : o.orders.get? order.clientOrderId = some order) : Logs o (o.absent config now order) := by
  rcases absent_orders config now h with ⟨-, hsink⟩ | ⟨version, r, m, -, hsink⟩
  · exact of_eq hsink
  · exact of_event hsink

/-- A fill at the desk. -/
theorem onFill {T : Type} {listener : FillListener T} {fill : Fill} {d : Desk T} {order : Order}
    (hseen : fill.fillId ∉ d.oms.book.seen) (hk : d.oms.Keyed)
    (h : d.oms.orders.get? fill.clientOrderId = some order) (hbook : fill.bookId = d.oms.bookId) :
    Logs d.oms (Desk.onFill listener fill d).state.oms := by
  obtain ⟨version, as, hstate, -⟩ := onFill_known hseen hk h hbook
  obtain ⟨bs, homs⟩ := Desk.onFill_oms listener fill d
  refine ⟨as.map .alert ++ [.fillReceived fill (statusAfter order fill) (filledAfter order fill)
    (avgAfter order fill), .positionChanged
      (d.oms.book.outcome (order.application fill)).position (some fill.fillId)] ++
    (reportedTrades d.oms.bookId (d.oms.book.outcome (order.application fill)).closed).map
      .tradeClosed ++ bs.map .alert, ?_⟩
  rw [homs, hstate]
  simp

end Logs

/-- No order goes, and none changes its intent. -/
theorem Change.intent {Allowed : Order → Prop} {o o' : OMS} (h : Change Allowed o o')
    {coid : String} {order : Order} (ho : o.orders.get? coid = some order) :
    ∃ order', o'.orders.get? coid = some order' ∧ order'.intent = order.intent := by
  have hset : ∀ {k : String} {known changed : Order}, o.orders.get? k = some known →
      o'.orders = o.orders.set k changed → changed.intent = known.intent →
      ∃ order', o'.orders.get? coid = some order' ∧ order'.intent = order.intent := by
    intro k known changed hk horders hsame
    rw [horders, Dict.get?_set]
    by_cases hc : coid = k
    · subst hc
      obtain rfl : known = order := Option.some.inj (hk.symm.trans ho)
      exact ⟨changed, if_pos rfl, hsame⟩
    · exact ⟨order, by rw [if_neg hc, ho], rfl⟩
  cases h with
  | noted _ orders _ _ => exact ⟨order, by rw [orders, ho], rfl⟩
  | recounted held orders _ _ => exact hset held orders rfl
  | @registered new _ _ _ fresh _ orders _ _ =>
    have hne : coid ≠ new.clientOrderId := by
      rintro rfl
      rw [fresh] at ho
      cases ho
    exact ⟨order, by rw [orders, Dict.get?_set_ne _ _ hne, ho], rfl⟩
  | moved held _ _ orders _ _ => exact hset held orders rfl
  | filled held _ _ _ _ _ _ _ orders _ _ _ _ => exact hset held orders rfl

/-- The rebuilt copy of an order has its intent, and the other way round. -/
theorem Restored.intent {o r : OMS} (h : Restored o r) (coid : String) :
    (r.orders.get? coid).map Order.intent = (o.orders.get? coid).map Order.intent := by
  have heq := congrArg (Option.map Order.intent) (h.orders coid)
  rw [Option.map_map, Option.map_map] at heq
  exact heq

theorem Restored.keyed_copy {o r : OMS} (h : Restored o r) : r.Keyed := by
  intro coid copy hcopy
  have heq := h.orders coid
  rw [hcopy, Option.map_some] at heq
  obtain ⟨known, hknown, hu⟩ := Option.map_eq_some_iff.mp heq.symm
  have hid : known.clientOrderId = copy.clientOrderId :=
    (congrArg Order.clientOrderId (Order.unversioned_inj hu) :)
  rw [← hid]
  exact h.keyed coid known hknown

end OMS

namespace System

variable {T : Type}

/-- The process starts on what a crash left: the broker loads its rows, and the OMS
restores its events. -/
def restart (sys : System T) (startingCash : ℚ) (ext : T) (journal : List Write) :
    Option (Paper T) :=
  match OMS.restore (events journal) (.init (.init sys.env.bookId startingCash)) with
  | .ok _ o => some ⟨.load startingCash (saved journal), ⟨{ o with sink := journal }, ext⟩⟩
  | .error _ _ => none

/-- Every fill the event log tells of is in the record store, and counted there by the row
of its order. -/
def Counted (startingCash : ℚ) (journal : List Write) : Prop :=
  ∀ fill, Logged fill (events journal) →
    fill ∈ (SimulatedBroker.load startingCash (saved journal)).fills ∧
      ∃ boid so k, (SimulatedBroker.load startingCash (saved journal)).orders.get? boid = some so ∧
        k ≤ so.fillCount ∧ fill.fillId = fillIdOf boid k

/-- The book and the broker's core row agree on money and positions. -/
def Even (book : PositionBook) (core : SimCore) : Prop :=
  book.cash = core.money ∧
    ∀ instrumentKey product, book.quantity instrumentKey product = core.quantity instrumentKey product

/-- What the stores hold at a crash, and the OMS the log restores to. -/
structure Durable (sys : System T) (startingCash : ℚ) (rows : List Row)
    (log : List EventPayload) (r : OMS) : Prop where
  replays : OMS.Replays (.init (.init sys.env.bookId startingCash)) log r
  keyed : r.Keyed
  book : r.bookId = sys.env.bookId
  ids : ∀ so, .order so ∈ rows → ∃ n < (SimulatedBroker.load startingCash rows).core.nextOrder,
    so.brokerOrderId = simId sys.env.bookId n
  tags : ∀ so so', .order so ∈ rows → .order so' ∈ rows → so.clientOrderId = so'.clientOrderId →
    so.brokerOrderId = so'.brokerOrderId
  known : ∀ so, .order so ∈ rows → ∃ order, r.orders.get? so.clientOrderId = some order ∧
    order.intent.instrument.key = so.instrumentKey ∧ order.intent.product = so.product
  reported : ∀ f, .fill f ∈ rows → f.fillId ∈ r.book.seen
  logged : ∀ id ∈ r.book.seen, ∃ fill, Logged fill log ∧ fill.fillId = id
  even : Even r.book (SimulatedBroker.load startingCash rows).core ∨
    ∃ fill, Logged fill log ∧ .fill fill ∉ rows

variable {sys : System T} {startingCash : ℚ} {w w' : Paper T}

namespace Durable

variable {rows : List Row} {log : List EventPayload} {r : OMS}

theorem init : Durable sys startingCash [] [] (.init (.init sys.env.bookId startingCash)) where
  replays := .nil _
  keyed _ _ h := by cases h
  book := rfl
  ids _ h := by cases h
  tags _ _ h := by cases h
  known _ h := by cases h
  reported _ h := by cases h
  logged _ h := by cases h
  even := .inl ⟨(add_zero _).symm, fun _ _ => rfl⟩

/-- Where every logged fill was saved, broker and OMS come back in agreement. -/
theorem agrees {journal : List Write}
    (h : Durable sys startingCash (saved journal) (events journal) r)
    (hcounted : Counted startingCash journal) (ext : T) :
    Agrees sys ⟨.load startingCash (saved journal), ⟨{ r with sink := journal }, ext⟩⟩ := by
  have heven : Even r.book (SimulatedBroker.load startingCash (saved journal)).core := by
    rcases h.even with heven | ⟨fill, hlogged, hunsaved⟩
    · exact heven
    · exact absurd (SimulatedBroker.loaded_fill (hcounted fill hlogged).1) hunsaved
  refine ⟨OMS.keyed_of_eq h.keyed rfl, h.book, fun boid so hso => ?_, ?_, fun boid so hso => ?_,
    fun id hid => ?_, fun f hf => ?_, heven.1, heven.2⟩
  · obtain ⟨hmem, rfl⟩ := SimulatedBroker.loaded_order hso
    exact ⟨rfl, h.ids so hmem⟩
  · apply SimulatedBroker.loaded_tag
    intro boid so boid' so' hso hso' hc
    obtain ⟨hmem, rfl⟩ := SimulatedBroker.loaded_order hso
    obtain ⟨hmem', rfl⟩ := SimulatedBroker.loaded_order hso'
    exact h.tags so so' hmem hmem' hc
  · exact h.known so (SimulatedBroker.loaded_order hso).1
  · obtain ⟨fill, hlogged, rfl⟩ := h.logged id hid
    exact (hcounted fill hlogged).2
  · exact h.reported f (SimulatedBroker.loaded_fill hf)

/-- A log that ends in a change. -/
theorem extend {Allowed : Order → Prop} {o o' r' : OMS} {ps : List EventPayload}
    (h : Durable sys startingCash rows log r) (hrestored : OMS.Restored o r)
    (hchange : OMS.Change Allowed o o') (hours : o'.bookId = sys.env.bookId)
    (hcut : OMS.Restored.Cut o' r ps r') : Durable sys startingCash rows (log ++ ps) r' := by
  have hmore : ∀ {fill}, Logged fill log → Logged fill (log ++ ps) := by
    rintro fill ⟨status, qty, avg, hm⟩
    exact ⟨status, qty, avg, List.mem_append_left _ hm⟩
  refine ⟨h.replays.append hcut.replays, ?_, ?_, h.ids, h.tags, fun so hso => ?_, fun f hf => ?_,
    fun id hid => ?_, ?_⟩
  · rcases hcut.restored with rfl | hr
    · exact h.keyed
    · exact hr.keyed_copy
  · rcases hcut.restored with rfl | hr
    · exact h.book
    · rw [← hours, OMS.bookId, hr.book]
      rfl
  · obtain ⟨copy, hcopy, hkey⟩ := h.known so hso
    rcases hcut.restored with rfl | hr
    · exact ⟨copy, hcopy, hkey⟩
    · -- the copy, its order before and after the change, and that one's copy
      have hbefore := hrestored.intent so.clientOrderId
      rw [hcopy, Option.map_some] at hbefore
      obtain ⟨order, horder, hi⟩ := Option.map_eq_some_iff.mp hbefore.symm
      obtain ⟨order', horder', hi'⟩ := hchange.intent horder
      have hafter := hr.intent so.clientOrderId
      rw [horder', Option.map_some] at hafter
      obtain ⟨copy', hcopy', hi''⟩ := Option.map_eq_some_iff.mp hafter
      have hsame : copy'.intent = copy.intent := hi''.trans (hi'.trans hi)
      exact ⟨copy', hcopy', by rw [hsame]; exact hkey⟩
  · have hold := h.reported f hf
    rcases hcut.book with heq | ⟨fill, -, -, hseen⟩
    · rw [heq]
      exact hold
    · rw [hseen]
      exact List.mem_cons_of_mem _ hold
  · rcases hcut.book with heq | ⟨fill, hfill, -, hseen⟩
    · obtain ⟨known, hknown, hid'⟩ := h.logged id (heq ▸ hid)
      exact ⟨known, hmore hknown, hid'⟩
    · rw [hseen] at hid
      rcases List.mem_cons.mp hid with rfl | hold
      · obtain ⟨status, qty, avg, hm⟩ := hfill
        exact ⟨fill, ⟨status, qty, avg, List.mem_append_right _ hm⟩, rfl⟩
      · obtain ⟨known, hknown, hid'⟩ := h.logged id hold
        exact ⟨known, hmore hknown, hid'⟩
  · rcases hcut.book with heq | ⟨fill, ⟨status, qty, avg, hm⟩, hfresh, -⟩
    · rw [heq]
      rcases h.even with heven | ⟨known, hknown, hunsaved⟩
      · exact .inl heven
      · exact .inr ⟨known, hmore hknown, hunsaved⟩
    · -- a fill the log tells of for the first time was not saved yet
      exact .inr ⟨fill, ⟨status, qty, avg, List.mem_append_right _ hm⟩, fun hf =>
        hfresh (h.reported fill hf)⟩

end Durable

/-- Orders keep their origins when one is rewritten. -/
theorem kept_set {orders : Dict String SimOrder} {boid : String} {so so' : SimOrder}
    (hso : orders.get? boid = some so) (hsame : so'.origin = so.origin) (k : String)
    (known : SimOrder) (hknown : orders.get? k = some known) :
    ∃ live, (orders.set boid so').get? k = some live ∧ live.origin = known.origin := by
  rw [Dict.get?_set]
  by_cases hk : k = boid
  · subst hk
    obtain rfl : known = so := Option.some.inj (hknown.symm.trans hso)
    exact ⟨so', if_pos rfl, hsame⟩
  · exact ⟨known, by rw [if_neg hk, hknown], rfl⟩

/-- A run that can crash: what was saved is the broker's, the log restores to the OMS, and
wherever the journal is cut, broker and OMS can be started from it. -/
structure Recoverable (sys : System T) (startingCash : ℚ) (w : Paper T) : Prop where
  agrees : Agrees sys w
  rows : ∀ so, .order so ∈ saved w.desk.oms.sink →
    ∃ live, w.broker.orders.get? so.brokerOrderId = some live ∧ live.origin = so.origin
  new : ∀ f ∈ w.broker.newFills, f ∈ w.broker.fills
  now : ∃ r, OMS.Restored w.desk.oms r ∧
    Durable sys startingCash (saved w.desk.oms.sink) (events w.desk.oms.sink) r
  crash : ∀ journal, journal <+: w.desk.oms.sink →
    ∃ r, Durable sys startingCash (saved journal) (events journal) r

namespace Recoverable

variable {Allowed : Order → Prop}

theorem init (ext : T) : Recoverable sys startingCash (sys.init startingCash ext) where
  agrees := .init startingCash ext
  rows _ h := by cases h
  new _ h := by cases h
  now := ⟨_, .init _, .init⟩
  crash journal h := by
    obtain rfl : journal = [] := List.prefix_nil.mp h
    exact ⟨_, .init⟩

/-- A step that writes events and nothing else. -/
theorem logs (h : Recoverable sys startingCash w) (hagrees : Agrees sys w')
    (hchange : OMS.Change Allowed w.desk.oms w'.desk.oms)
    (hlogs : OMS.Logs w.desk.oms w'.desk.oms)
    (hkept : ∀ boid so, w.broker.orders.get? boid = some so →
      ∃ live, w'.broker.orders.get? boid = some live ∧ live.origin = so.origin)
    (hnew : ∀ f ∈ w'.broker.newFills, f ∈ w'.broker.fills) :
    Recoverable sys startingCash w' := by
  obtain ⟨ps, hsink⟩ := hlogs
  obtain ⟨r, hrestored, hdurable⟩ := h.now
  have hevents : ∀ l : List EventPayload, events (l.map Write.event) = l := fun l => by
    simpa using events_map l id
  have hrows : ∀ l : List EventPayload, saved (l.map Write.event) = [] := fun l =>
    saved_map l id
  have hlogged : events w'.desk.oms.sink = events w.desk.oms.sink ++ ps := by
    rw [hsink, events_append, hevents]
  have hsaved : saved w'.desk.oms.sink = saved w.desk.oms.sink := by
    rw [hsink, saved_append, hrows, List.append_nil]
  -- the log ends anywhere in what the step appends
  have hcut : ∀ ps', ps' <+: ps → ∃ r', (ps' = ps → OMS.Restored w'.desk.oms r') ∧
      Durable sys startingCash (saved w.desk.oms.sink) (events w.desk.oms.sink ++ ps') r' := by
    intro ps' hps'
    obtain ⟨r', hr', hwhole⟩ := hrestored.cut hchange hlogged hps'
    exact ⟨r', hwhole, hdurable.extend hrestored hchange hagrees.book hr'⟩
  refine ⟨hagrees, fun so hso => ?_, hnew, ?_, fun journal hjournal => ?_⟩
  · rw [hsaved] at hso
    obtain ⟨live, hlive, horigin⟩ := h.rows so hso
    obtain ⟨live', hlive', horigin'⟩ := hkept _ live hlive
    exact ⟨live', hlive', horigin'.trans horigin⟩
  · obtain ⟨r', hwhole, hr'⟩ := hcut ps (List.prefix_refl ps)
    exact ⟨r', hwhole rfl, by rw [hsaved, hlogged]; exact hr'⟩
  · rw [hsink] at hjournal
    rcases prefix_append_cases hjournal with hbefore | ⟨rest, hrest, rfl⟩
    · exact h.crash journal hbefore
    · obtain ⟨ps', hps', rfl⟩ := List.prefix_map_iff.mp hrest
      obtain ⟨r', -, hr'⟩ := hcut ps' hps'
      refine ⟨r', ?_⟩
      rw [saved_append, events_append, hevents, hrows, List.append_nil]
      exact hr'

/-- A step of the broker alone. -/
theorem broker (h : Recoverable sys startingCash w) {b : SimulatedBroker}
    (hagrees : Agrees sys (w.mapBroker fun _ => b))
    (hkept : ∀ boid so, w.broker.orders.get? boid = some so →
      ∃ live, b.orders.get? boid = some live ∧ live.origin = so.origin)
    (hnew : ∀ f ∈ b.newFills, f ∈ b.fills) :
    Recoverable sys startingCash (w.mapBroker fun _ => b) :=
  h.logs hagrees (.still rfl rfl rfl : OMS.Change (fun _ => True) _ _) (.of_eq rfl) hkept hnew

/-- The order rows after a save are of orders the broker holds. -/
theorem rows_save (h : Recoverable sys startingCash w) {so : SimOrder}
    (hso : .order so ∈ saved w.desk.oms.sink ++ w.broker.rows) :
    ∃ live, w.broker.orders.get? so.brokerOrderId = some live ∧ live.origin = so.origin := by
  rcases List.mem_append.mp hso with hold | hnew
  · exact h.rows so hold
  · rcases SimulatedBroker.mem_rows hnew with hc | ⟨boid, so', hso', heq⟩ | ⟨f, -, hf⟩
    · cases hc
    · cases heq
      exact ⟨so, by rw [(h.agrees.ids boid so hso').1]; exact hso', rfl⟩
    · cases hf

/-- After a save the core row is the broker's, and every fill that was logged was saved. -/
theorem durable_save (h : Recoverable sys startingCash w) {r : OMS}
    (hrestored : OMS.Restored w.desk.oms r)
    (hdurable : Durable sys startingCash (saved w.desk.oms.sink) (events w.desk.oms.sink) r) :
    Durable sys startingCash (saved w.desk.oms.sink ++ w.broker.rows)
      (events w.desk.oms.sink) r := by
  have hcore : (SimulatedBroker.load startingCash (saved w.desk.oms.sink ++ w.broker.rows)).core =
      w.broker.core := SimulatedBroker.load_core_rows w.broker
  refine ⟨hdurable.replays, hdurable.keyed, hdurable.book, fun so hso => ?_,
    fun so so' hso hso' hc => ?_, fun so hso => ?_, fun f hf => ?_, hdurable.logged, .inl ?_⟩
  · obtain ⟨live, hlive, -⟩ := h.rows_save hso
    rw [hcore]
    exact (h.agrees.ids _ live hlive).2
  · obtain ⟨live, hlive, horigin⟩ := h.rows_save hso
    obtain ⟨live', hlive', horigin'⟩ := h.rows_save hso'
    have hfind := h.agrees.find_of_get hlive
    have hfind' := h.agrees.find_of_get hlive'
    rw [(SimOrder.origin_inj horigin).2.1, hc] at hfind
    rw [(SimOrder.origin_inj horigin').2.1, hfind, Option.some.injEq] at hfind'
    rw [← (SimOrder.origin_inj horigin).1, hfind', (SimOrder.origin_inj horigin').1]
  · obtain ⟨live, hlive, horigin⟩ := h.rows_save hso
    obtain ⟨-, hcoid, hkey, hproduct⟩ := SimOrder.origin_inj horigin
    obtain ⟨order, horder, hk, hp⟩ := h.agrees.known _ live hlive
    rw [hcoid] at horder
    have hcopy := hrestored.intent so.clientOrderId
    rw [horder, Option.map_some] at hcopy
    obtain ⟨copy, hget, hi⟩ := Option.map_eq_some_iff.mp hcopy
    exact ⟨copy, hget, by rw [hi, hk, hkey], by rw [hi, hp, hproduct]⟩
  · rcases List.mem_append.mp hf with hold | hnew
    · exact hdurable.reported f hold
    · rcases SimulatedBroker.mem_rows hnew with hc | ⟨boid, so', hso', heq⟩ | ⟨g, hg, heq⟩
      · cases hc
      · cases heq
      · cases heq
        rw [hrestored.book]
        exact h.agrees.reported f (h.new f hg)
  · rw [hcore, hrestored.book]
    exact ⟨h.agrees.money, h.agrees.positions⟩

/-- The broker saves: a crash comes before the rows, or after them. -/
theorem save (h : Recoverable sys startingCash w) :
    Recoverable sys startingCash (w.save sys.hooks) := by
  have hagrees := h.agrees.save
  have hsink : (w.save sys.hooks).desk.oms.sink = w.desk.oms.sink ++ [.rows w.broker.rows] := rfl
  obtain ⟨r, hrestored, hdurable⟩ := h.now
  have hevents : events (w.save sys.hooks).desk.oms.sink = events w.desk.oms.sink := by
    rw [hsink, events_append, events_rows, List.append_nil]
  have hsaved : saved (w.save sys.hooks).desk.oms.sink =
      saved w.desk.oms.sink ++ w.broker.rows := by
    rw [hsink, saved_append, saved_rows]
  have hdurable' := h.durable_save hrestored hdurable
  rw [← hsaved, ← hevents] at hdurable'
  refine ⟨hagrees, fun so hso => h.rows_save (hsaved ▸ hso), List.forall_mem_nil _,
    ⟨r, ⟨hagrees.keyed, hrestored.ours, hrestored.book, hrestored.orders⟩, hdurable'⟩,
    fun journal hjournal => ?_⟩
  rw [hsink] at hjournal
  rcases prefix_append_cases hjournal with hbefore | ⟨rest, hrest, rfl⟩
  · exact h.crash journal hbefore
  · rcases List.prefix_cons_iff.mp hrest with rfl | ⟨more, rfl, hmore⟩
    · rw [List.append_nil]
      exact ⟨r, hdurable⟩
    · obtain rfl := List.prefix_nil.mp hmore
      exact ⟨r, hdurable'⟩

/-- The broker rewrites one of its orders. -/
theorem rewrites (h : Recoverable sys startingCash w) {b : SimulatedBroker} {boid : String}
    {so so' : SimOrder} (hagrees : Agrees sys (w.mapBroker fun _ => b))
    (hso : w.broker.orders.get? boid = some so) (horders : b.orders = w.broker.orders.set boid so')
    (hsame : so'.origin = so.origin) (hfills : b.fills = w.broker.fills)
    (hnew : b.newFills = w.broker.newFills) :
    Recoverable sys startingCash (w.mapBroker fun _ => b) := by
  refine h.broker hagrees (fun k known hknown => ?_) fun f hf => ?_
  · rw [horders]
    exact kept_set hso hsame k known hknown
  · rw [hfills]
    exact h.new f (hnew ▸ hf)

/-- A notification. -/
theorem notify (h : Recoverable sys startingCash w) (boid : String)
    (hchange : OMS.Change Allowed w.desk.oms (w.notify sys.hooks boid).desk.oms) :
    Recoverable sys startingCash (w.notify sys.hooks boid) := by
  refine h.logs (h.agrees.notify boid) hchange ?_ (fun k known hknown => ?_) fun f hf => ?_
  · cases hso : w.broker.orders.get? boid with
    | none =>
      rw [World.notify, hso]
      exact .of_eq rfl
    | some so =>
      rw [World.notify_of_get _ hso]
      exact .onUpdate so.snapshot h.agrees.keyed
  · rw [World.notify_orders]
    exact ⟨known, hknown, rfl⟩
  · rw [World.notify_fills]
    rw [World.notify_newFills] at hf
    exact h.new f hf

/-- A fill is booked, and the desk logs it before the broker saves. -/
theorem filled (h : Recoverable sys startingCash w) {boid : String} {so : SimOrder}
    {instrument : Instrument} {reference : ℚ} {qty : { q : ℤ // 0 < q }}
    {charges : ChargeBreakdown} {quote : Quote} {s : SimulatedBroker.Settlement}
    (dpDay : Option (String × Day)) (hso : w.broker.orders.get? boid = some so)
    (hagrees : Agrees sys
      { broker := w.broker.bookFill boid so s dpDay
          (sys.env.newFill so instrument reference qty charges quote)
        desk := (Desk.onFill sys.listener
          (sys.env.newFill so instrument reference qty charges quote) w.desk).state })
    (hchange : OMS.Change Allowed w.desk.oms (Desk.onFill sys.listener
      (sys.env.newFill so instrument reference qty charges quote) w.desk).state.oms) :
    Recoverable sys startingCash
      { broker := w.broker.bookFill boid so s dpDay
          (sys.env.newFill so instrument reference qty charges quote)
        desk := (Desk.onFill sys.listener
          (sys.env.newFill so instrument reference qty charges quote) w.desk).state } := by
  obtain ⟨order, horder, -⟩ := h.agrees.known boid so hso
  have hlogs : OMS.Logs w.desk.oms (Desk.onFill sys.listener
      (sys.env.newFill so instrument reference qty charges quote) w.desk).state.oms :=
    .onFill (h.agrees.fresh_fill hso) h.agrees.keyed horder h.agrees.book.symm
  generalize sys.env.newFill so instrument reference qty charges quote = fill at *
  obtain ⟨blocked, hbooked, -⟩ := SimulatedBroker.bookFill_eq boid so s dpDay fill w.broker
  obtain ⟨hboid, hcoid, hkey, -, hproduct, -⟩ := so.afterFill_same s fill
  refine h.logs hagrees hchange hlogs (fun k known hknown => ?_) fun f hf => ?_
  · show ∃ live, (w.broker.bookFill boid so s dpDay fill).orders.get? k = some live ∧ _
    rw [hbooked]
    exact kept_set hso (by rw [SimOrder.origin, hboid, hcoid, hkey, hproduct]; rfl) k known hknown
  · show f ∈ (w.broker.bookFill boid so s dpDay fill).fills
    have hf' : f ∈ (w.broker.bookFill boid so s dpDay fill).newFills := hf
    rw [hbooked] at hf' ⊢
    rcases List.mem_append.mp hf' with hold | hlast
    · exact List.mem_append_left _ (h.new f hold)
    · exact List.mem_append_right _ hlast

/-- **The step lemma.** After every small step the run can crash anywhere. -/
theorem step (h : Recoverable sys startingCash w) (hcoupled : Coupled sys w)
    (hstep : Step sys Allowed w w') : Recoverable sys startingCash w' := by
  obtain ⟨⟨h', -⟩, hchange⟩ := hcoupled.step hstep
  have hkept : ∀ boid so, w.broker.orders.get? boid = some so →
      ∃ live, w.broker.orders.get? boid = some live ∧ live.origin = so.origin :=
    fun _ so hso => ⟨so, hso, rfl⟩
  cases hstep with
  | settled today =>
    obtain ⟨cash, unsettled, heq, -⟩ := w.broker.settle_spec today
    refine h.broker (b := w.broker.settle today) h' ?_ ?_ <;> rw [heq]
    · exact hkept
    · exact h.new
  | observed quote today =>
    exact h.broker (b := w.broker.observe quote today) h' hkept h.new
  | counted boid =>
    cases hso : w.broker.orders.get? boid with
    | none =>
      refine h.broker (b := w.broker.countQuote boid) h' ?_ ?_ <;>
        rw [SimulatedBroker.countQuote_of_none hso]
      · exact hkept
      · exact h.new
    | some so =>
      have heq := SimulatedBroker.countQuote_of_get hso
      exact h.rewrites (b := w.broker.countQuote boid) h' hso
        (congrArg SimulatedBroker.orders heq) rfl (by rw [heq]) (by rw [heq])
  | @triggered boid so ts held _ =>
    have heq := SimulatedBroker.trigger_of_get ts held
    refine Recoverable.notify (w := w.mapBroker fun _ => w.broker.trigger boid ts) ?_ boid hchange
    refine h.rewrites ?_ held (congrArg SimulatedBroker.orders heq) rfl (by rw [heq]) (by rw [heq])
    rw [heq]
    exact h.agrees.broker (identity_set held rfl) rfl rfl rfl rfl rfl
  | @finished boid so status message ts held _ _ =>
    have heq := SimulatedBroker.finish_of_get status message ts held
    refine Recoverable.notify (w := w.mapBroker fun _ => w.broker.finish boid status message ts) ?_
      boid hchange
    refine h.rewrites ?_ held (congrArg SimulatedBroker.orders heq) rfl (by rw [heq]) (by rw [heq])
    rw [heq]
    exact h.agrees.broker (identity_set held rfl) rfl rfl rfl rfl rfl
  | filled dpDay held _ _ _ => exact h.filled dpDay held h' hchange
  | renotified held _ => exact h.notify _ hchange
  | @accepted order _ reserved now known _ free _ _ =>
    have hagrees := h.agrees.accept reserved now known free
    generalize hsim : sys.env.newSimOrder order reserved now w.broker = sim at hagrees hchange ⊢
    have haccepted : Recoverable sys startingCash
        (w.mapBroker fun b => (b.accept sim).markDirty sim.brokerOrderId) := by
      refine h.broker (b := (w.broker.accept sim).markDirty sim.brokerOrderId) hagrees
        (fun boid so hso => ⟨so, ?_, rfl⟩) h.new
      refine w.broker.orders.get?_set_iff.mpr (.inr ⟨?_, hso⟩)
      rintro rfl
      rw [← hsim] at hso
      cases h.agrees.fresh_id.symm.trans hso
    -- the order is saved before the desk hears of it
    refine haccepted.save.notify _ (hchange.of_events ?_ rfl rfl)
    show _ = events (w.desk.oms.sink ++ [.rows _])
    rw [events_append, events_rows, List.append_nil]
  | saved => exact h.save
  | registered _ _ _ _ _ =>
    exact h.logs h' hchange (.of_event rfl) hkept h.new
  | @unplaced order known exc held _ _ _ =>
    obtain ⟨_, _, -, -, -, hsink⟩ := OMS.placeFailed_spec exc held
    exact h.logs h' hchange (.of_event hsink) hkept h.new
  | acked ack held placed => exact h.logs h' hchange (.placed _ ack) hkept h.new
  | found held placed => exact h.logs h' hchange (.of_eq rfl) hkept h.new
  | adopted reported =>
    rw [hcoupled.agrees.adopt reported]
    exact h
  | resolved held _ placed => exact h.logs h' hchange (.of_event (OMS.resolved_sink _ _ _)) hkept h.new
  | absent now held free => exact h.logs h' hchange (.absent sys.config now held) hkept h.new
  | @emitted ps asides => exact h.logs h' hchange ⟨ps, rfl⟩ hkept h.new

end Recoverable

/-- A run can crash anywhere. -/
theorem recoverable_run (sys : System T) (startingCash : ℚ) (ext : T) (ops : List Op) :
    Recoverable sys startingCash (sys.run (sys.init startingCash ext) ops) := by
  have hinit : Coupled sys (sys.init startingCash ext) := .init startingCash ext
  have hsteps := run_steps (fun op (_ : op ∈ ops) => Op.gated_any sys.config op) hinit
  have hinv := Effect.invariant (I := fun w => Coupled sys w ∧ Recoverable sys startingCash w)
    (fun _ _ hstep h => ⟨(h.1.step hstep).1, h.2.step h.1 hstep⟩) hsteps ⟨hinit, .init ext⟩
  exact hinv.2

/-! ## After the restart -/

section agreeing

variable {Allowed : Order → Prop}

/-- A notification leaves the book as it is. -/
theorem book_notify (hk : w.desk.oms.Keyed) (boid : String) :
    (w.notify sys.hooks boid).desk.oms.book = w.desk.oms.book := by
  cases hso : w.broker.orders.get? boid with
  | none => rw [World.notify, hso]
  | some so =>
    rw [World.notify_of_get _ hso]
    exact OMS.onUpdate_book so.snapshot hk

/-- The book counts the fill of the step, if it has one, and no other. -/
theorem book_step (h : Agrees sys w) (hstep : Step sys Allowed w w') :
    w'.desk.oms.book = w.desk.oms.book ∨
      ∃ f ∈ w'.broker.fills, w'.desk.oms.book.seen = f.fillId :: w.desk.oms.book.seen := by
  cases hstep with
  | @triggered boid _ ts _ _ =>
    exact .inl (book_notify (w := w.mapBroker (.trigger boid ts)) h.keyed boid)
  | @finished boid _ status message ts _ _ _ =>
    exact .inl (book_notify (w := w.mapBroker (.finish boid status message ts)) h.keyed boid)
  | @filled boid so instrument reference qty charges quote s dpDay held _ _ _ =>
    obtain ⟨order, -, -, -, -, -, hbook, -⟩ :=
      h.onFill held instrument reference qty charges quote
    obtain ⟨blocked, heq, -⟩ := SimulatedBroker.bookFill_eq boid so s dpDay
      (sys.env.newFill so instrument reference qty charges quote) w.broker
    refine .inr ⟨sys.env.newFill so instrument reference qty charges quote, ?_, ?_⟩
    · rw [heq]
      exact List.mem_append_right _ (List.mem_singleton.mpr rfl)
    · rw [hbook]
      rfl
  | renotified held _ => exact .inl (book_notify h.keyed _)
  | accepted _ _ _ _ _ _ =>
    refine .inl (book_notify (w := World.save sys.hooks _) ?_ _)
    exact OMS.keyed_of_eq h.keyed rfl
  | unplaced held _ _ _ =>
    obtain ⟨_, _, -, -, hbook, -⟩ := OMS.placeFailed_spec _ held
    exact .inl hbook
  | acked ack _ _ => exact .inl (OMS.placed_book _ ack _)
  | adopted reported =>
    rw [h.adopt reported]
    exact .inl rfl
  | resolved _ _ _ => exact .inl (OMS.resolved_book _ _ _)
  | absent now _ _ => exact .inl (OMS.absent_book sys.config now _ _)
  | _ => exact .inl rfl

/-- Broker and OMS have counted the same fills. -/
structure Consistent (w : Paper T) : Prop where
  money : w.desk.oms.book.cash = w.broker.core.money
  positions : ∀ instrumentKey product, w.desk.oms.book.quantity instrumentKey product =
    w.broker.core.quantity instrumentKey product
  fills : ∀ id, id ∈ w.desk.oms.book.seen ↔ ∃ f ∈ w.broker.fills, f.fillId = id

/-- Every fill the book has counted is one the broker reports. -/
def Told (w : Paper T) : Prop := ∀ id ∈ w.desk.oms.book.seen, ∃ f ∈ w.broker.fills, f.fillId = id

theorem Agrees.consistent (h : Agrees sys w) (htold : Told w) : Consistent w where
  money := h.money
  positions := h.positions
  fills id := by
    refine ⟨htold id, ?_⟩
    rintro ⟨f, hf, rfl⟩
    exact h.reported f hf

theorem Told.step (htold : Told w) (h : Agrees sys w) (hstep : Step sys Allowed w w') :
    Told w' := by
  have hkept := fills_kept hstep
  intro id hid
  rcases book_step h hstep with hbook | ⟨f, hf, hseen⟩
  · obtain ⟨f, hf, rfl⟩ := htold id (hbook ▸ hid)
    exact ⟨f, hkept f hf, rfl⟩
  · rw [hseen] at hid
    rcases List.mem_cons.mp hid with rfl | hold
    · exact ⟨f, hf, rfl⟩
    · obtain ⟨g, hg, rfl⟩ := htold id hold
      exact ⟨g, hkept g hg, rfl⟩

/-- A broker and an OMS that agree stay so, whatever comes. -/
theorem agrees_run (h : Agrees sys w) (htold : Told w) (ops : List Op) :
    Agrees sys (sys.run w ops) ∧ Told (sys.run w ops) := by
  induction ops generalizing w with
  | nil => exact ⟨h, htold⟩
  | cons op rest ih =>
    have hsteps := after_steps (Op.gated_any sys.config op) h.keyed
    have hinv := Effect.invariant (I := fun w => Agrees sys w ∧ Told w)
      (fun _ _ hstep hi => ⟨hi.1.step hstep, hi.2.step hi.1 hstep⟩) hsteps ⟨h, htold⟩
    exact ih hinv.1 hinv.2

end agreeing

/-- **Crash consistency.** Let a run crash between any two writes, where every fill the
event log tells of is in the record store and counted there by its order's row. Then the
process restarts, and after any operations that follow, money, positions and the fills
counted are the same on both sides. -/
theorem crash_consistent (sys : System T) (startingCash : ℚ) (ext ext' : T) (ops : List Op)
    (journal : List Write)
    (hcrash : journal <+: (sys.run (sys.init startingCash ext) ops).desk.oms.sink)
    (hcounted : Counted startingCash journal) (more : List Op) :
    ∃ start, sys.restart startingCash ext' journal = some start ∧
      Consistent (sys.run start more) := by
  obtain ⟨r, hdurable⟩ := (recoverable_run sys startingCash ext ops).crash journal hcrash
  obtain ⟨applied, hrun⟩ := hdurable.replays.run 0
  have hrestore : OMS.restore (events journal) (.init (.init sys.env.bookId startingCash)) =
      .ok applied r := hrun
  have hagrees := hdurable.agrees hcounted ext'
  have htold : Told (⟨.load startingCash (saved journal), ⟨{ r with sink := journal }, ext'⟩⟩ :
      Paper T) := by
    intro id hid
    obtain ⟨fill, hlogged, rfl⟩ := hdurable.logged id hid
    exact ⟨fill, (hcounted fill hlogged).1, rfl⟩
  obtain ⟨hafter, htold'⟩ := agrees_run hagrees htold more
  refine ⟨_, ?_, hafter.consistent htold'⟩
  rw [restart, hrestore]

end System

/-! ## A crash around a fill -/

namespace Sample

theorem five_nonneg : (0 : ℤ) ≤ 5 := by decide

/-- Ten shares are asked for, and the second quote trades five of them. -/
def bought : List Op :=
  [.quote (quote 0 0 zero_nonneg), submit 1 entry .delivered, .quote (quote 2 5 five_nonneg)]

/-- What is written by then: the decision, the order, the broker's rows, the
acknowledgement, the fill, the position, and the broker's rows again. -/
def journal : List Write := (system.run (system.init 100000 ()) bought).desk.oms.sink

/-- What follows a restart: orders are looked up and reconciled, and five more shares trade. -/
def resumed : List Op :=
  [.resolveUnknown (clock 3), .reconcile (clock 3), .quote (quote 4 10 ten_nonneg)]

end Sample

namespace System

/-- A crash after the broker's last save. -/
theorem crash_consistent_after_save :
    ∃ start, Sample.system.restart 100000 () Sample.journal = some start ∧
      Consistent (Sample.system.run start Sample.resumed) := by
  refine crash_consistent Sample.system 100000 () () Sample.bought Sample.journal
    (List.prefix_refl _) ?_ Sample.resumed
  have hall : (events Sample.journal).all (fun p => match p with
      | .fillReceived fill _ _ _ =>
        (SimulatedBroker.load 100000 (saved Sample.journal)).fills.contains fill &&
          fill.fillId == fillIdOf "SIM-main-000001" 1
      | _ => true) = true := by decide +kernel
  have horder : ((SimulatedBroker.load 100000 (saved Sample.journal)).orders.get?
      "SIM-main-000001").map SimOrder.fillCount = some 1 := by decide +kernel
  obtain ⟨so, hso, hcount⟩ := Option.map_eq_some_iff.mp horder
  rintro fill ⟨status, qty, avg, hm⟩
  have hfill := List.all_eq_true.mp hall _ hm
  simp only [Bool.and_eq_true, List.contains_iff_mem, beq_iff_eq] at hfill
  exact ⟨hfill.1, "SIM-main-000001", so, 1, hso, hcount.ge, hfill.2⟩

/-- A crash after the fill was logged and before the broker saved it: the restarted broker
fills the order again under the same id, with more shares, and the OMS passes it over. -/
theorem crash_inconsistent_before_save :
    Sample.journal.take 5 <+: (Sample.system.run (Sample.system.init 100000 ())
      Sample.bought).desk.oms.sink ∧
    ∃ start, Sample.system.restart 100000 () (Sample.journal.take 5) = some start ∧
      let w := Sample.system.run start Sample.resumed
      w.desk.oms.book.cash ≠ w.broker.core.money ∧
        w.desk.oms.book.quantity Sample.infy.key .cnc ≠
          w.broker.core.quantity Sample.infy.key .cnc := by
  refine ⟨List.take_prefix _ _, ?_⟩
  have hrun : ((Sample.system.restart 100000 () (Sample.journal.take 5)).map fun start =>
      let w := Sample.system.run start Sample.resumed
      decide (w.desk.oms.book.cash ≠ w.broker.core.money ∧
        w.desk.oms.book.quantity Sample.infy.key .cnc ≠
          w.broker.core.quantity Sample.infy.key .cnc)) = some true := by decide +kernel
  obtain ⟨start, hstart, hdiffer⟩ := Option.map_eq_some_iff.mp hrun
  exact ⟨start, hstart, of_decide_eq_true hdiffer⟩

end System

end RakshaQuant
