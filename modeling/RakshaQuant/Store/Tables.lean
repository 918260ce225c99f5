import RakshaQuant.Store.Projections

/-! The positions and trades projections. Each row is written whole by one event, over the
row its primary key names. -/

namespace RakshaQuant

/-- A row of `positions`; its key is the book, the instrument and the product. -/
structure PositionRow where
  bookId : String
  instrumentKey : String
  product : String
  quantity : ℤ
  avgPrice : Option ℚ
  realizedPnl : ℚ
  updatedTs : String
  updatedSeq : ℕ
deriving DecidableEq

/-- A row of `trades`; its key is the trade id. -/
structure TradeRow where
  tradeId : String
  bookId : String
  decisionId : String
  exitDecisionId : String
  instrumentKey : String
  strategy : String
  side : String
  quantity : ℤ
  entryPrice : ℚ
  exitPrice : ℚ
  entryTs : Instant
  exitTs : Instant
  grossPnl : ℚ
  charges : ℚ
  netPnl : ℚ
  exitReason : String
  seq : ℕ
deriving DecidableEq

/-- An event that writes neither a position nor a trade. -/
def EventPayload.Untabled (p : EventPayload) : Prop :=
  (∀ position fillId, p ≠ .positionChanged position fillId) ∧ ∀ trade, p ≠ .tradeClosed trade

/-- An event that writes one. -/
def EventPayload.tabled : EventPayload → Bool
  | positionChanged .. | tradeClosed .. => true
  | _ => false

theorem EventPayload.untabled_iff (p : EventPayload) : p.Untabled ↔ p.tabled = false := by
  cases p <;> simp [Untabled, tabled]

instance : DecidablePred EventPayload.Untabled := fun p =>
  decidable_of_iff _ p.untabled_iff.symm

theorem Product.value_injective : Function.Injective Product.value := by
  intro p q h
  cases p <;> cases q <;> simp_all [Product.value]

@[simp] theorem EventPayload.untabled_submitted (order : Order) :
    (EventPayload.orderSubmitted order).Untabled :=
  ⟨by simp, by simp⟩

@[simp] theorem EventPayload.untabled_filled (fill : Fill) (status : OrderStatus) (filledQty : ℤ)
    (avgPrice : ℚ) : (EventPayload.fillReceived fill status filledQty avgPrice).Untabled :=
  ⟨by simp, by simp⟩

/-- A fold over items that change nothing. -/
theorem foldl_same {σ α : Type*} {step : σ → α → σ} {s : σ} {l : List α}
    (h : ∀ a ∈ l, step s a = s) : l.foldl step s = s := by
  induction l with
  | nil => rfl
  | cons a rest ih =>
    rw [List.foldl_cons, h a List.mem_cons_self]
    exact ih fun a' ha' => h a' (List.mem_cons_of_mem _ ha')

namespace PositionsProjector

abbrev Table := Dict (String × String × String) PositionRow

def key (p : Position) : String × String × String := (p.bookId, p.instrumentKey, p.product.value)

def row (p : Position) (e : StoredEvent) : PositionRow :=
  ⟨p.bookId, p.instrumentKey, p.product.value, p.quantity, p.avgPrice, p.realizedPnl, e.tsUtc,
    e.seq⟩

def apply (table : Table) (e : StoredEvent) : Table :=
  match e.payload with
  | .positionChanged p _ => table.set (key p) (row p e)
  | _ => table

def project (table : Table) (stored : List StoredEvent) : Table := stored.foldl apply table

/-- The quantity the table shows, none being flat. -/
def quantity (table : Table) (bookId instrumentKey : String) (product : Product) : ℤ :=
  ((table.get? (bookId, instrumentKey, product.value)).map PositionRow.quantity).getD 0

/-- Events that change no position leave the table as it is. -/
theorem project_none (table : Table) {stored : List StoredEvent}
    (h : ∀ e ∈ stored, ∀ position fillId, e.payload ≠ .positionChanged position fillId) :
    project table stored = table := by
  refine foldl_same fun e he => ?_
  unfold apply
  split
  · rename_i position fillId hp
    exact absurd hp (h e he position fillId)
  · rfl

theorem project_append (table : Table) (stored more : List StoredEvent) :
    project table (stored ++ more) = project (project table stored) more :=
  List.foldl_append

/-- Writing a position shows it at its own key. -/
theorem quantity_set (table : Table) (p : Position) (e : StoredEvent) (instrumentKey : String)
    (product : Product) :
    quantity (table.set (key p) (row p e)) p.bookId instrumentKey product =
      if instrumentKey = p.instrumentKey ∧ product = p.product then p.quantity
      else quantity table p.bookId instrumentKey product := by
  have hkey : (p.bookId, instrumentKey, product.value) = key p ↔
      instrumentKey = p.instrumentKey ∧ product = p.product := by
    simp [key, Product.value_injective.eq_iff]
  unfold quantity
  rw [Dict.get?_set]
  by_cases h : instrumentKey = p.instrumentKey ∧ product = p.product
  · rw [if_pos (hkey.mpr h), if_pos h]
    rfl
  · rw [if_neg fun hc => h (hkey.mp hc), if_neg h]

end PositionsProjector

namespace TradesProjector

abbrev Table := Dict String TradeRow

def row (t : TradeClosed) (e : StoredEvent) : TradeRow :=
  ⟨t.tradeId, t.bookId, t.decisionId, t.exitDecisionId, t.instrumentKey, t.strategy, t.side.value,
    t.quantity, t.entryPrice, t.exitPrice, t.entryTs, t.exitTs, t.grossPnl, t.charges, t.netPnl,
    t.exitReason, e.seq⟩

def apply (table : Table) (e : StoredEvent) : Table :=
  match e.payload with
  | .tradeClosed t => table.set t.tradeId (row t e)
  | _ => table

def project (table : Table) (stored : List StoredEvent) : Table := stored.foldl apply table

/-- The net P&L of all trades in the table. -/
def total (table : Table) : ℚ := table.sum fun _ row => row.netPnl

theorem project_append (table : Table) (stored more : List StoredEvent) :
    project table (stored ++ more) = project (project table stored) more :=
  List.foldl_append

/-- Events that close no trade leave the table as it is. -/
theorem project_none (table : Table) {stored : List StoredEvent}
    (h : ∀ e ∈ stored, ∀ trade, e.payload ≠ .tradeClosed trade) : project table stored = table := by
  refine foldl_same fun e he => ?_
  unfold apply
  split
  · rename_i trade hp
    exact absurd hp (h e he trade)
  · rfl

/-- New trades with ids of their own add their net P&L. -/
theorem project_trades {table : Table} {stored : List StoredEvent} {trades : List TradeClosed}
    (hstored : stored.map StoredEvent.payload = trades.map .tradeClosed)
    (hids : (trades.map TradeClosed.tradeId).Nodup)
    (hnew : ∀ t ∈ trades, table.get? t.tradeId = none) :
    total (project table stored) = total table + (trades.map TradeClosed.netPnl).sum ∧
      ∀ id row, (project table stored).get? id = some row →
        table.get? id = some row ∨ ∃ t ∈ trades, t.tradeId = id := by
  induction trades generalizing table stored with
  | nil =>
    obtain rfl : stored = [] := List.map_eq_nil_iff.mp hstored
    exact ⟨(add_zero _).symm, fun id row h => .inl h⟩
  | cons t rest ih =>
    obtain ⟨e, stored, rfl, he, hrest⟩ := List.map_eq_cons_iff.mp hstored
    obtain ⟨hfirst, hids⟩ := List.nodup_cons.mp hids
    have happly : apply table e = table.set t.tradeId (row t e) := by
      rw [apply, he]
    have hnew' : ∀ t' ∈ rest, (table.set t.tradeId (row t e)).get? t'.tradeId = none := by
      intro t' ht'
      have hne : t'.tradeId ≠ t.tradeId := by
        intro hc
        exact hfirst (hc ▸ List.mem_map_of_mem ht')
      rw [Dict.get?_set_ne _ _ hne]
      exact hnew t' (List.mem_cons_of_mem _ ht')
    obtain ⟨htotal, hrows⟩ := ih hrest hids hnew'
    have hone : total (table.set t.tradeId (row t e)) = total table + t.netPnl :=
      Dict.sum_set_new _ _ (hnew t List.mem_cons_self)
    rw [project, List.foldl_cons, happly]
    refine ⟨?_, fun id r h => ?_⟩
    · rw [List.map_cons, List.sum_cons, ← add_assoc, ← hone]
      exact htotal
    · rcases hrows id r h with h | ⟨t', ht', hid⟩
      · rcases (Dict.get?_set_iff _).mp h with ⟨hid, -⟩ | ⟨-, h⟩
        · exact .inr ⟨t, List.mem_cons_self, hid.symm⟩
        · exact .inl h
      · exact .inr ⟨t', List.mem_cons_of_mem _ ht', hid⟩

end TradesProjector

end RakshaQuant
