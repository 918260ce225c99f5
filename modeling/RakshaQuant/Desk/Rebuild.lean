import RakshaQuant.Desk.ReduceOnly
import RakshaQuant.Oms.Restore
import RakshaQuant.Store.Projections

/-! What is rebuilt from the log of a desk: the OMS, and the orders projection. -/

namespace RakshaQuant

namespace System

variable {T : Type}

/-- **Restore equals live.** In every run, restoring a fresh OMS from the events
the run emitted returns, and gives the same orders, up to their versions, and the
same book. -/
theorem restore_equals_live (sys : System T) (startingCash : ℚ) (ext : T) (ops : List Op) :
    let live := (sys.run (sys.init startingCash ext) ops).desk.oms
    ∃ applied restored,
      OMS.restore (events live.sink) (.init (.init sys.env.bookId startingCash)) =
        .ok applied restored ∧
      (∀ coid, (restored.orders.get? coid).map Order.unversioned =
        (live.orders.get? coid).map Order.unversioned) ∧
      restored.book = live.book := by
  intro live
  obtain ⟨-, hchanges⟩ := run_spec (fun op (_ : op ∈ ops) => Op.gated_any _ op)
    (Coupled.init startingCash ext : Coupled sys _)
  obtain ⟨restored, hreplays, hrestored⟩ := OMS.Restored.changes hchanges
  obtain ⟨applied, hrun⟩ := hreplays.run 0
  exact ⟨applied, restored, hrun, hrestored.orders, hrestored.book⟩

/-- **The orders projection agrees.** In every run, projecting the events the run
emitted, however they are numbered and timed, gives every order of the OMS a row
with its status, its filled quantity and its average fill price. -/
theorem projection_agrees (sys : System T) (startingCash : ℚ) (ext : T) (ops : List Op)
    (stored : List StoredEvent)
    (hstored : stored.map StoredEvent.payload =
      events (sys.run (sys.init startingCash ext) ops).desk.oms.sink)
    (coid : String) (order : Order)
    (horder : (sys.run (sys.init startingCash ext) ops).desk.oms.orders.get? coid = some order) :
    ∃ row, (OrdersProjector.project .empty stored).get? coid = some row ∧
      row.status = order.status.value ∧ row.filledQty = order.filledQty ∧
      row.avgFillPrice = order.avgFillPrice := by
  obtain ⟨-, hchanges⟩ := run_spec (fun op (_ : op ∈ ops) => Op.gated_any _ op)
    (Coupled.init startingCash ext : Coupled sys _)
  have hprojected := OMS.Projected.changes hchanges hstored
  obtain ⟨row, hrow, hshows⟩ := hprojected.rows coid order horder
  exact ⟨row, hrow, hshows.status, hshows.filledQty, hshows.avgFillPrice⟩

/-- The run with a lost acknowledgement, numbered from 1: the row of its second order. -/
theorem projection_agrees_two_exits :
    let live := (Sample.system.run (Sample.system.init 100000 ()) Sample.twoExits).desk.oms
    let stored := (events live.sink).zipIdx.map fun e => ⟨e.2 + 1, "2026-10-02", e.1⟩
    ∃ order row, live.orders.get? "X1" = some order ∧
      (OrdersProjector.project .empty stored).get? "X1" = some row ∧
      row.status = order.status.value ∧ row.filledQty = order.filledQty ∧
      row.avgFillPrice = order.avgFillPrice := by
  intro live stored
  have hsome : (live.orders.get? "X1").isSome := by decide +kernel
  obtain ⟨order, horder⟩ := Option.isSome_iff_exists.mp hsome
  have hstored : stored.map StoredEvent.payload = events live.sink := by
    rw [List.map_map]
    exact List.zipIdx_map_fst 0 _
  obtain ⟨row, hrow⟩ := projection_agrees Sample.system 100000 () Sample.twoExits stored hstored
    "X1" order horder
  exact ⟨order, row, horder, hrow⟩

end System

end RakshaQuant
