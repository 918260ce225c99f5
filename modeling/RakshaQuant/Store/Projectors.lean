import RakshaQuant.Oms.Lifecycle
import RakshaQuant.Store.Ledger
import RakshaQuant.Store.Tables

/-! The projectors of orders, positions and trades as the event store runs them. Each works on one
table and reads no other, so a store they are registered with shows a ledger; and what stands in
their tables is what the projections make of the log's events, one by one. -/

namespace RakshaQuant

/-- `event_type` of a payload's class. -/
def EventPayload.eventType : EventPayload → String
  | .orderSubmitted .. => "OrderSubmitted"
  | .orderAcked .. => "OrderAcked"
  | .orderRejected .. => "OrderRejected"
  | .orderUnknown .. => "OrderUnknown"
  | .orderCancelled .. => "OrderCancelled"
  | .orderExpired .. => "OrderExpired"
  | .fillReceived .. => "FillReceived"
  | .positionChanged .. => "PositionChanged"
  | .tradeClosed .. => "TradeClosed"
  | .reconciliationResult .. => "ReconciliationResult"
  | .alert .. => "Alert"
  | .riskDecision .. => "RiskDecision"
  | .dailyRiskStateRolled .. => "DailyRiskStateRolled"
  | .limitBreached .. => "LimitBreached"
  | .killSwitchChanged .. => "KillSwitchChanged"

namespace Store

open EventStore (Event Projector numbered isoformat)

/-- The tables of the projectors. -/
inductive Table
  | orders
  | positions
  | trades
deriving DecidableEq

namespace Table

def name : Table → String
  | orders => "orders"
  | positions => "positions"
  | trades => "trades"

/-- What a table holds: its rows by their primary keys. -/
abbrev Rows : Table → Type
  | orders => Dict String OrderRow
  | positions => PositionsProjector.Table
  | trades => TradesProjector.Table

instance : ∀ t, Inhabited (Rows t)
  | orders => ⟨.empty⟩
  | positions => ⟨.empty⟩
  | trades => ⟨.empty⟩

end Table

/-- `_seq`. -/
def seqOf {α : Type} (e : Event α) : Except Exc ℕ :=
  match e.seq with
  | none => .error (.valueError "projectors only see stored events (seq is None)")
  | some seq => .ok seq

/-- An event under its number, as the projections read it. -/
def numberedAs (e : Event EventPayload) (seq : ℕ) : StoredEvent :=
  ⟨seq, isoformat e.tsUtc, e.payload⟩

/-- `OrdersProjector`: the number is read before the payload. -/
def ordersProjector : Projector Table.Rows EventPayload where
  handles := ["OrderSubmitted", "OrderAcked", "OrderRejected", "OrderUnknown", "OrderCancelled",
    "OrderExpired", "FillReceived"]
  view := .ofTable .orders fun table e => do
    return OrdersProjector.apply table (numberedAs e (← seqOf e))

/-- `PositionsProjector`. -/
def positionsProjector : Projector Table.Rows EventPayload where
  handles := ["PositionChanged"]
  view := .ofTable .positions fun table e =>
    match e.payload with
    | .positionChanged .. => do
      return PositionsProjector.apply table (numberedAs e (← seqOf e))
    | _ => .ok table

/-- `TradesProjector`. -/
def tradesProjector : Projector Table.Rows EventPayload where
  handles := ["TradeClosed"]
  view := .ofTable .trades fun table e =>
    match e.payload with
    | .tradeClosed .. => do
      return TradesProjector.apply table (numberedAs e (← seqOf e))
    | _ => .ok table

/-! ## What their tables hold -/

/-- An event whose type is that of its payload, as `make_event` makes it. -/
def Typed (e : Event EventPayload) : Prop := e.type = e.payload.eventType

/-- A stored event as the projections read it. -/
def record (e : Event EventPayload) : StoredEvent := numberedAs e (e.seq.getD 0)

/-- A projector that makes of a stored event in its one table what a projection makes of it. -/
def Makes (p : Projector Table.Rows EventPayload) (t : Table)
    (apply : t.Rows → StoredEvent → t.Rows) : Prop :=
  ∀ (a : ∀ t, Table.Rows t) (e : Event EventPayload), e.seq.isSome → Typed e →
    p.takes a e = .ok (Function.update a t (apply (a t) (record e)))

/-- Nothing changes where the projection leaves its table as it is. -/
theorem takes_other {p : Projector Table.Rows EventPayload} {t : Table} {rows : t.Rows}
    {a : ∀ t, Table.Rows t} {e : Event EventPayload} (hother : e.type ∉ p.handles)
    (hsame : rows = a t) : p.takes a e = .ok (Function.update a t rows) := by
  rw [hsame, Function.update_eq_self]
  exact if_neg hother

theorem orders_makes : Makes ordersProjector .orders OrdersProjector.apply := by
  intro a e hstored htyped
  obtain ⟨seq, hseq⟩ := Option.isSome_iff_exists.mp hstored
  by_cases hhandled : e.type ∈ ordersProjector.handles
  · have hview : ordersProjector.view.apply a e =
        (do return OrdersProjector.apply (a .orders) (numberedAs e (← seqOf e))).map
          (Function.update a .orders) := rfl
    rw [Projector.takes, if_pos hhandled, hview, seqOf, record, hseq]
    rfl
  · refine takes_other hhandled ?_
    rw [htyped] at hhandled
    unfold OrdersProjector.apply record numberedAs
    cases hpayload : e.payload <;> rw [hpayload] at hhandled <;>
      first | rfl | exact absurd (by simp [EventPayload.eventType, ordersProjector]) hhandled

theorem positions_makes : Makes positionsProjector .positions PositionsProjector.apply := by
  intro a e hstored htyped
  obtain ⟨seq, hseq⟩ := Option.isSome_iff_exists.mp hstored
  cases hpayload : e.payload with
  | positionChanged position fillId =>
    have hhandled : e.type ∈ positionsProjector.handles := by
      rw [htyped, hpayload]
      exact List.mem_singleton_self _
    have hview : positionsProjector.view.apply a e =
        (do return PositionsProjector.apply (a .positions) (numberedAs e (← seqOf e))).map
          (Function.update a .positions) := by
      simp only [positionsProjector, View.ofTable, hpayload]
    rw [Projector.takes, if_pos hhandled, hview, seqOf, record, hseq]
    rfl
  | _ =>
    refine takes_other ?_ ?_
    · rw [htyped, hpayload]
      simp [EventPayload.eventType, positionsProjector]
    · unfold PositionsProjector.apply record numberedAs
      rw [hpayload]

theorem trades_makes : Makes tradesProjector .trades TradesProjector.apply := by
  intro a e hstored htyped
  obtain ⟨seq, hseq⟩ := Option.isSome_iff_exists.mp hstored
  cases hpayload : e.payload with
  | tradeClosed trade =>
    have hhandled : e.type ∈ tradesProjector.handles := by
      rw [htyped, hpayload]
      exact List.mem_singleton_self _
    have hview : tradesProjector.view.apply a e =
        (do return TradesProjector.apply (a .trades) (numberedAs e (← seqOf e))).map
          (Function.update a .trades) := by
      simp only [tradesProjector, View.ofTable, hpayload]
    rw [Projector.takes, if_pos hhandled, hview, seqOf, record, hseq]
    rfl
  | _ =>
    refine takes_other ?_ ?_
    · rw [htyped, hpayload]
      simp [EventPayload.eventType, tradesProjector]
    · unfold TradesProjector.apply record numberedAs
      rw [hpayload]

/-- In a store that shows a ledger, the table of a projector is its projection of the stored
events, from where the projector goes back to. -/
theorem EventStore.Shows.table {s : EventStore Table.Rows EventPayload}
    {l : Ledger Table.Rows EventPayload} (h : s.Shows l)
    {p : Projector Table.Rows EventPayload} {t : Table} {apply : t.Rows → StoredEvent → t.Rows} (hmakes : Makes p t apply) (howns : t ∈ p.tables)
    {since : ℕ} (hview : (p, since) ∈ l.views) (htyped : ∀ e ∈ l.log, Typed e) :
    s.db.tables t = ((s.db.events.drop since).map record).foldl apply default := by
  have hagree := h.tables _ hview
  have hevents : ∀ (a : ∀ t, Table.Rows t), ∀ e ∈ (Ledger.stored l.log).drop since,
      p.stored.apply a e = .ok (Function.update a t (apply (a t) (record e))) := by
    intro a e he
    obtain ⟨e₀, he₀, seq, rfl⟩ := EventStore.mem_numbered (List.mem_of_mem_drop he)
    exact hmakes a _ rfl (htyped e₀ he₀)
  have hproject : p.stored.project (fun _ => default) ((Ledger.stored l.log).drop since) =
      .ok (Function.update (fun _ => default) t (((Ledger.stored l.log).drop since).foldl
        (fun rows e => apply rows (record e)) default)) := View.project_update hevents _
  rw [Ledger.view, hproject] at hagree
  cases hagree with
  | ok same =>
    have htable := same t howns
    rw [Function.update_self] at htable
    rw [h.events, List.foldl_map, ← htable]

/-- The orders table holds what the orders projection makes of the events, and so for the
positions and the trades. -/
theorem EventStore.Shows.tables_project {s : EventStore Table.Rows EventPayload}
    {l : Ledger Table.Rows EventPayload} (h : s.Shows l) (htyped : ∀ e ∈ l.log, Typed e)
    {since : ℕ} :
    ((ordersProjector, since) ∈ l.views → s.db.tables .orders =
      OrdersProjector.project .empty ((s.db.events.drop since).map record)) ∧
    ((positionsProjector, since) ∈ l.views → s.db.tables .positions =
      PositionsProjector.project .empty ((s.db.events.drop since).map record)) ∧
    ((tradesProjector, since) ∈ l.views → s.db.tables .trades =
      TradesProjector.project .empty ((s.db.events.drop since).map record)) :=
  ⟨fun hview => h.table orders_makes (List.mem_singleton_self _) hview htyped,
    fun hview => h.table positions_makes (List.mem_singleton_self _) hview htyped,
    fun hview => h.table trades_makes (List.mem_singleton_self _) hview htyped⟩

/-! ## A store with the three projectors -/

namespace StoredOrder

open EventStore (Call)

def event (payload : EventPayload) : Event EventPayload :=
  { type := payload.eventType, payload := payload, tsUtc := 0, istDate := 0, source := "oms"
    schemaVersion := 1, seq := none, decisionId := none, cycleId := none, bookId := some "main"
    symbol := none }

def acked : Event EventPayload := event (.orderAcked (OMS.ref Sample.order) "SIM-1" .open)

/-- An order is submitted, acknowledged and filled. The orders projector is registered twice, and a
batch has an event that is stored already. -/
def calls : List (Call Table.Rows EventPayload) :=
  [.register ordersProjector, .one (event (.orderSubmitted Sample.order)),
    .register positionsProjector, .register ordersProjector,
    .append [acked, (event (.orderExpired (OMS.ref Sample.order) 0)).withSeq 1],
    .put "oms" "day" "2026-10-02" 0,
    .append [acked, event (.fillReceived (Sample.fill 1 10 Sample.ten_pos) .filled 10 100)],
    .register tradesProjector, .rebuild]

def store : EventStore Table.Rows EventPayload := EventStore.run Table.name calls

theorem orders_view : (Ledger.run calls).views.head? = some (ordersProjector, 0) := rfl

theorem calls_typed : ∀ e ∈ (Ledger.run calls).log, Typed e := by
  unfold Typed
  decide +kernel

/-- The order is filled, and once more the clash is refused. -/
theorem refines_ledger_order :
    store.lastSeq = 3 ∧ store.kvGet "oms" "day" = some "2026-10-02" ∧
      store.db.tables .orders = OrdersProjector.project .empty (store.db.events.map record) ∧
      (store.db.tables .orders).values.map OrderRow.status = ["FILLED"] ∧
      ∃ e, EventStore.call Table.name (.register ordersProjector) store = .error e store := by
  obtain ⟨hshows, hreads, hfollows⟩ := EventStore.refines_ledger Table.name calls
  refine ⟨hreads.last.trans (by decide +kernel), (hreads.value _ _).trans (by decide +kernel), ?_,
    by decide +kernel, ?_⟩
  · exact (hshows.tables_project calls_typed).1 (List.mem_of_mem_head? orders_view)
  · have hrefused : ((Ledger.run calls).call (.register ordersProjector)).isNone = true := by
      decide +kernel
    have hcall := hfollows (.register ordersProjector)
    rw [Option.isNone_iff_eq_none.mp hrefused] at hcall
    generalize hresult : EventStore.call Table.name (.register ordersProjector)
      (EventStore.run Table.name calls) = r at hcall
    cases hcall with
    | refused e => exact ⟨e, hresult⟩

end StoredOrder

end Store

end RakshaQuant
