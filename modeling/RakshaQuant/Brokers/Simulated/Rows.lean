import RakshaQuant.Brokers.Simulated.Effects

/-! What a broker finds in its record store after a restart: the core row written last,
and orders and fills that were written. -/

namespace RakshaQuant

namespace SimulatedBroker

/-! ## One row -/

def withCore (core : SimCore) : Row → SimCore
  | .core c => c
  | _ => core

def withOrder (orders : Dict String SimOrder) : Row → Dict String SimOrder
  | .order o => orders.set o.brokerOrderId o
  | _ => orders

def withFill (fills : Dict String Fill) : Row → Dict String Fill
  | .fill f => fills.set f.fillId f
  | _ => fills

variable (startingCash : ℚ) (rows : List Row)

theorem load_core : (load startingCash rows).core = rows.foldl withCore (.init startingCash) := rfl

theorem load_orders : (load startingCash rows).orders = rows.foldl withOrder .empty := rfl

theorem load_fills : (load startingCash rows).fills =
    (rows.foldl withFill .empty).values.insertionSort fun f g =>
      f.ts < g.ts ∨ (f.ts = g.ts ∧ f.fillId ≤ g.fillId) := rfl

/-! ## What is loaded was written -/

theorem written_order {orders : Dict String SimOrder} {boid : String} {so : SimOrder}
    (h : (rows.foldl withOrder orders).get? boid = some so) :
    orders.get? boid = some so ∨ (.order so ∈ rows ∧ so.brokerOrderId = boid) := by
  induction rows generalizing orders with
  | nil => exact .inl h
  | cons row rest ih =>
    rcases ih h with hrow | ⟨hmem, hid⟩
    · cases row with
      | core c => exact .inl hrow
      | fill f => exact .inl hrow
      | order o =>
        rcases orders.get?_set_iff.mp hrow with ⟨rfl, rfl⟩ | ⟨-, hold⟩
        · exact .inr ⟨List.mem_cons_self, rfl⟩
        · exact .inl hold
    · exact .inr ⟨List.mem_cons_of_mem _ hmem, hid⟩

theorem written_fill {fills : Dict String Fill} {id : String} {f : Fill}
    (h : (rows.foldl withFill fills).get? id = some f) : fills.get? id = some f ∨ .fill f ∈ rows := by
  induction rows generalizing fills with
  | nil => exact .inl h
  | cons row rest ih =>
    rcases ih h with hrow | hmem
    · cases row with
      | core c => exact .inl hrow
      | order o => exact .inl hrow
      | fill g =>
        rcases fills.get?_set_iff.mp hrow with ⟨rfl, rfl⟩ | ⟨-, hold⟩
        · exact .inr List.mem_cons_self
        · exact .inl hold
    · exact .inr (List.mem_cons_of_mem _ hmem)

variable {startingCash rows}

theorem loaded_order {boid : String} {so : SimOrder}
    (h : (load startingCash rows).orders.get? boid = some so) :
    .order so ∈ rows ∧ so.brokerOrderId = boid := by
  rw [load_orders] at h
  rcases written_order rows h with hempty | hmem
  · cases hempty
  · exact hmem

theorem loaded_fill {f : Fill} (h : f ∈ (load startingCash rows).fills) : .fill f ∈ rows := by
  rw [load_fills, List.mem_insertionSort, Dict.mem_values_iff] at h
  obtain ⟨id, hid⟩ := h
  rcases written_fill rows hid with hempty | hmem
  · cases hempty
  · exact hmem

/-- The tags are those of the orders, where no two orders have one tag. -/
theorem loaded_tag (hunique : ∀ boid so boid' so',
      (load startingCash rows).orders.get? boid = some so →
      (load startingCash rows).orders.get? boid' = some so' →
      so.clientOrderId = so'.clientOrderId → boid = boid') (coid boid : String) :
    (load startingCash rows).byTag.get? coid = some boid ↔
      ∃ so, (load startingCash rows).orders.get? boid = some so ∧ so.clientOrderId = coid := by
  have hentry : ∀ {c b}, (c, b) ∈ (load startingCash rows).orders.entries.map (fun e =>
      (e.2.clientOrderId, e.1)) ↔
      ∃ so, (load startingCash rows).orders.get? b = some so ∧ so.clientOrderId = c := by
    intro c b
    rw [List.mem_map]
    constructor
    · rintro ⟨e, he, heq⟩
      cases heq
      exact ⟨e.2, (Dict.mem_entries_iff _).mp he, rfl⟩
    · rintro ⟨so, hso, rfl⟩
      exact ⟨(b, so), (Dict.mem_entries_iff _).mpr hso, rfl⟩
  have htag : (load startingCash rows).byTag =
      .ofList ((load startingCash rows).orders.entries.map fun e => (e.2.clientOrderId, e.1)) := rfl
  rw [htag]
  constructor
  · intro h
    exact hentry.mp (Dict.mem_of_ofList h)
  · intro h
    refine (Dict.get?_ofList_iff fun b hb => ?_).mpr (hentry.mpr h)
    obtain ⟨so, hso, hc⟩ := h
    obtain ⟨so', hso', hc'⟩ := hentry.mp hb
    exact hunique b so' boid so hso' hso (hc'.trans hc.symm)

/-! ## What a save writes -/

/-- After a save the core row is the broker's. -/
theorem load_core_rows (b : SimulatedBroker) : (load startingCash (rows ++ b.rows)).core = b.core := by
  have horders : ∀ (l : List SimOrder) (core : SimCore), (l.map Row.order).foldl withCore core = core := by
    intro l core
    induction l with
    | nil => rfl
    | cons o rest ih => exact ih
  have hfills : ∀ (l : List Fill) (core : SimCore), (l.map Row.fill).foldl withCore core = core := by
    intro l core
    induction l with
    | nil => rfl
    | cons f rest ih => exact ih
  rw [load_core, List.foldl_append, SimulatedBroker.rows, List.foldl_append, List.foldl_append,
    horders, hfills]
  rfl

/-- A save writes orders the broker holds, and its new fills. -/
theorem mem_rows {b : SimulatedBroker} {row : Row} (h : row ∈ b.rows) :
    row = .core b.core ∨ (∃ boid so, b.orders.get? boid = some so ∧ row = .order so) ∨
      ∃ f ∈ b.newFills, row = .fill f := by
  rw [SimulatedBroker.rows, List.mem_append, List.mem_append, List.mem_singleton] at h
  rcases h with (h | h) | h
  · exact .inl h
  · obtain ⟨so, hso, rfl⟩ := List.mem_map.mp h
    obtain ⟨boid, -, hget⟩ := List.mem_filterMap.mp hso
    exact .inr (.inl ⟨boid, so, hget, rfl⟩)
  · obtain ⟨f, hf, rfl⟩ := List.mem_map.mp h
    exact .inr (.inr ⟨f, hf, rfl⟩)

end SimulatedBroker

end RakshaQuant
