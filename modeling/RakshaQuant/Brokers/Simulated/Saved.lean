import RakshaQuant.Brokers.Simulated.Changes
import RakshaQuant.Brokers.Simulated.Lockstep
import RakshaQuant.Brokers.Simulated.Rows

/-! What the rows of a record store say of the broker that wrote them. Every order has a
row; a row is behind its order only while the order is marked, and the core row only while
the broker is dirty, but for what a change does not mark: the cash that is settled, the
volumes that are seen, the quotes an order has counted, and its trigger. -/

namespace RakshaQuant

/-- A subscriber beside the record store of its broker. -/
structure Stored (T : Type) where
  rows : List Row
  desk : T

/-- The subscription, where the rows also reach the store. -/
def Hooks.storing {T : Type} (hooks : Hooks T) : Hooks (Stored T) where
  onUpdate := fun snapshot s => { s with desk := hooks.onUpdate snapshot s.desk }
  onFill := fun fill s =>
    match hooks.onFill fill s.desk with
    | .ok a d => .ok a { s with desk := d }
    | .error e d => .error e { s with desk := d }
  putMany := fun rows s => { rows := s.rows ++ rows, desk := hooks.putMany rows s.desk }

theorem Hooks.Quiet.takes {T : Type} {hooks : Hooks T} (h : hooks.Quiet) (fill : Fill)
    (s : Stored T) : ∃ d, hooks.storing.onFill fill s = .ok ⟨⟩ { s with desk := d } := by
  obtain ⟨d, hd⟩ := h fill s.desk
  refine ⟨d, ?_⟩
  unfold Hooks.storing
  dsimp only
  rw [hd]

theorem Hooks.Quiet.storing {T : Type} {hooks : Hooks T} (h : hooks.Quiet) :
    hooks.storing.Quiet := by
  intro fill s
  obtain ⟨d, hd⟩ := h.takes fill s
  exact ⟨_, hd⟩

namespace SimOrder.KeptAs

variable {o o' o'' : SimOrder}

theorem symm (h : o.KeptAs o') : o'.KeptAs o := by
  obtain ⟨_, _, rfl⟩ := h
  exact ⟨o.eligibleQuotes, o.triggerPrice, rfl⟩

theorem trans (h : o.KeptAs o') (h' : o'.KeptAs o'') : o.KeptAs o'' := by
  obtain ⟨_, _, rfl⟩ := h
  obtain ⟨_, _, rfl⟩ := h'
  exact ⟨_, _, rfl⟩

theorem ids (h : o.KeptAs o') :
    o'.brokerOrderId = o.brokerOrderId ∧ o'.clientOrderId = o.clientOrderId := by
  obtain ⟨_, _, rfl⟩ := h
  exact ⟨rfl, rfl⟩

end SimOrder.KeptAs

namespace SimulatedBroker

/-! ## What a save writes to the orders -/

theorem load_orders_rows (startingCash : ℚ) (rows : List Row) (b : SimulatedBroker) :
    (load startingCash (rows ++ b.rows)).orders =
      (b.dirtyOrders.filterMap b.orders.get?).foldl (fun d o => d.set o.brokerOrderId o)
        (load startingCash rows).orders := by
  have horders : ∀ (l : List SimOrder) (d : Dict String SimOrder),
      (l.map Row.order).foldl withOrder d = l.foldl (fun d o => d.set o.brokerOrderId o) d := by
    intro l
    induction l with
    | nil => exact fun _ => rfl
    | cons o rest ih => exact fun d => ih _
  have hfills : ∀ (l : List Fill) (d : Dict String SimOrder),
      (l.map Row.fill).foldl withOrder d = d := by
    intro l d
    induction l with
    | nil => rfl
    | cons f rest ih => exact ih
  rw [load_orders, load_orders, List.foldl_append, SimulatedBroker.rows, List.foldl_append,
    List.foldl_append, hfills, horders]
  rfl

/-- Writing the rows of known orders adds no key. -/
theorem keys_written {l : List SimOrder} {d : Dict String SimOrder}
    (h : ∀ o ∈ l, o.brokerOrderId ∈ d.keys) :
    (l.foldl (fun d o => d.set o.brokerOrderId o) d).keys = d.keys := by
  induction l generalizing d with
  | nil => rfl
  | cons o rest ih =>
    have hkeys : (d.set o.brokerOrderId o).keys = d.keys := by
      rw [Dict.keys_set, if_pos (h o List.mem_cons_self)]
    rw [List.foldl_cons, ih, hkeys]
    intro o' ho'
    rw [hkeys]
    exact h o' (List.mem_cons_of_mem _ ho')

/-- A key has the last row that was written of it, or what it had. -/
theorem get?_written (l : List SimOrder) (d : Dict String SimOrder) (boid : String) :
    ((∀ o ∈ l, o.brokerOrderId ≠ boid) ∧
      (l.foldl (fun d o => d.set o.brokerOrderId o) d).get? boid = d.get? boid) ∨
      ∃ o ∈ l, o.brokerOrderId = boid ∧
        (l.foldl (fun d o => d.set o.brokerOrderId o) d).get? boid = some o := by
  induction l generalizing d with
  | nil => exact .inl ⟨(fun _ h => nomatch h), rfl⟩
  | cons o rest ih =>
    rw [List.foldl_cons]
    rcases ih (d.set o.brokerOrderId o) with ⟨hnone, hsame⟩ | ⟨o', ho', hid, hget⟩
    · rw [hsame, Dict.get?_set]
      by_cases hk : boid = o.brokerOrderId
      · exact .inr ⟨o, List.mem_cons_self, hk.symm, by rw [if_pos hk]⟩
      · refine .inl ⟨fun o' ho' => ?_, if_neg hk⟩
        rcases List.mem_cons.mp ho' with rfl | hrest
        · exact Ne.symm hk
        · exact hnone o' hrest
    · exact .inr ⟨o', List.mem_cons_of_mem _ ho', hid, hget⟩

theorem mem_markDirty (b : SimulatedBroker) (boid : String) :
    boid ∈ (b.markDirty boid).dirtyOrders := by
  unfold markDirty
  by_cases h : boid ∈ b.dirtyOrders
  · simp [h]
  · simp [h]

theorem subset_markDirty (b : SimulatedBroker) (boid : String) :
    b.dirtyOrders ⊆ (b.markDirty boid).dirtyOrders := by
  unfold markDirty
  by_cases h : boid ∈ b.dirtyOrders
  · simp [h]
  · simp [h]

theorem markDirty_subset (b : SimulatedBroker) (boid : String) :
    (b.markDirty boid).dirtyOrders ⊆ boid :: b.dirtyOrders := by
  unfold markDirty
  by_cases h : boid ∈ b.dirtyOrders
  · simp [h]
  · simp [h]

/-! ## The rows of a broker -/

/-- What the rows say of the broker. -/
structure Tracked (env : SimEnv) (startingCash : ℚ) (rows : List Row) (b : SimulatedBroker) :
    Prop where
  ids : ∀ boid so, b.orders.get? boid = some so →
    so.brokerOrderId = boid ∧ ∃ n < b.core.nextOrder, boid = simId env.bookId n
  tags : ∀ coid boid, b.byTag.get? coid = some boid ↔
    ∃ so, b.orders.get? boid = some so ∧ so.clientOrderId = coid
  marks : ∀ boid ∈ b.dirtyOrders, ∃ so, b.orders.get? boid = some so
  keys : (load startingCash rows).orders.keys = b.orders.keys
  written : ∀ boid so row, b.orders.get? boid = some so →
    (load startingCash rows).orders.get? boid = some row →
    boid ∉ b.dirtyOrders ∨ b.dirty = false → so.KeptAs row
  core : b.dirty = false → ∃ cash unsettled volume, (load startingCash rows).core =
    { b.core with cash := cash, unsettled := unsettled, volume := volume }

namespace Tracked

variable {env : SimEnv} {startingCash : ℚ} {rows : List Row} {b b' : SimulatedBroker}

theorem init (env : SimEnv) (startingCash : ℚ) :
    Tracked env startingCash [] (.init startingCash) where
  ids _ _ h := nomatch h
  tags _ _ := ⟨(fun h => nomatch h), fun ⟨_, h, _⟩ => nomatch h⟩
  marks _ h := nomatch h
  keys := rfl
  written _ _ _ h := nomatch h
  core _ := ⟨_, _, _, rfl⟩

/-- The purse and the volumes may move. -/
theorem purse (h : Tracked env startingCash rows b) (horders : b'.orders = b.orders)
    (hbyTag : b'.byTag = b.byTag) (hdirty : b'.dirty = b.dirty)
    (hmarks : b'.dirtyOrders = b.dirtyOrders) {cash : ℚ} {unsettled : List Unsettled}
    {volume : Dict String (Day × ℤ)}
    (hcore : b'.core = { b.core with cash := cash, unsettled := unsettled, volume := volume }) :
    Tracked env startingCash rows b' where
  ids := by
    rw [horders, hcore]
    exact h.ids
  tags := by
    rw [horders, hbyTag]
    exact h.tags
  marks := by
    rw [horders, hmarks]
    exact h.marks
  keys := by
    rw [horders]
    exact h.keys
  written := by
    rw [horders, hmarks, hdirty]
    exact h.written
  core hclean := by
    obtain ⟨_, _, _, hrow⟩ := h.core (hdirty ▸ hclean)
    rw [hrow, hcore]
    exact ⟨_, _, _, rfl⟩

/-- An order is rewritten, and marked or changed where no mark is needed. -/
theorem rewrite (h : Tracked env startingCash rows b) {boid : String} {so c : SimOrder}
    (hso : b.orders.get? boid = some so)
    (hids : c.brokerOrderId = so.brokerOrderId ∧ c.clientOrderId = so.clientOrderId)
    (horders : b'.orders = b.orders.set boid c) (hbyTag : b'.byTag = b.byTag)
    (hnext : b'.core.nextOrder = b.core.nextOrder)
    (hmarks : b.dirtyOrders ⊆ b'.dirtyOrders) (hmarked : b'.dirtyOrders ⊆ boid :: b.dirtyOrders)
    (hchange : (b'.dirty = true ∧ boid ∈ b'.dirtyOrders) ∨
      (so.KeptAs c ∧ b'.dirty = b.dirty ∧ b'.core = b.core)) :
    Tracked env startingCash rows b' where
  ids k o ho := by
    rw [horders, Dict.get?_set_iff] at ho
    rw [hnext]
    rcases ho with ⟨rfl, rfl⟩ | ⟨-, hold⟩
    · rw [hids.1]
      exact h.ids _ so hso
    · exact h.ids k o hold
  tags coid k := by
    rw [hbyTag, h.tags, horders, Dict.get?_set]
    by_cases hk : k = boid
    · rw [if_pos hk, hk, hso]
      simp [hids.2]
    · rw [if_neg hk]
  marks k hk := by
    rw [horders, Dict.get?_set]
    by_cases hboid : k = boid
    · exact ⟨c, if_pos hboid⟩
    · rw [if_neg hboid]
      rcases List.mem_cons.mp (hmarked hk) with heq | hold
      · exact absurd heq hboid
      · exact h.marks k hold
  keys := by
    rw [horders, Dict.keys_set, if_pos (b.orders.mem_keys_iff.mpr ⟨so, hso⟩), h.keys]
  written k o row ho hrow hclean := by
    rw [horders, Dict.get?_set_iff] at ho
    have hold : k ∉ b'.dirtyOrders ∨ b'.dirty = false → b'.dirty = b.dirty →
        k ∉ b.dirtyOrders ∨ b.dirty = false := by
      rintro (hk | hk) heq
      · exact .inl fun hc => hk (hmarks hc)
      · exact .inr (heq ▸ hk)
    -- either the order is marked, or its row says the same as before
    rcases hchange with ⟨hdirty, hboid⟩ | ⟨hkept, heq, -⟩
    · have hunmarked : k ∉ b'.dirtyOrders := by
        rcases hclean with hk | hk
        · exact hk
        · rw [hdirty] at hk
          cases hk
      rcases ho with ⟨rfl, rfl⟩ | ⟨-, ho⟩
      · exact absurd hboid hunmarked
      · exact h.written k o row ho hrow (.inl fun hc => hunmarked (hmarks hc))
    · rcases ho with ⟨rfl, rfl⟩ | ⟨-, ho⟩
      · exact hkept.symm.trans (h.written _ so row hso hrow (hold hclean heq))
      · exact h.written k o row ho hrow (hold hclean heq)
  core hclean := by
    rcases hchange with ⟨hdirty, -⟩ | ⟨-, heq, hcore⟩
    · rw [hdirty] at hclean
      cases hclean
    · rw [hcore]
      exact h.core (heq ▸ hclean)

/-- What needs no mark: the count of quotes and the trigger. -/
theorem touched (h : Tracked env startingCash rows b) {boid : String} {so c : SimOrder}
    (hso : b.orders.get? boid = some so) (hkept : so.KeptAs c) :
    Tracked env startingCash rows { b with orders := b.orders.set boid c } :=
  h.rewrite hso hkept.ids rfl rfl rfl (List.Subset.refl _) (List.subset_cons_self _ _)
    (.inr ⟨hkept, rfl, rfl⟩)

/-- Of a dirty broker less is said. -/
theorem soiled (h : Tracked env startingCash rows b) :
    Tracked env startingCash rows { b with dirty := true } :=
  ⟨h.ids, h.tags, h.marks, h.keys,
    fun boid so row hso hrow hclean =>
      h.written boid so row hso hrow (.inl (hclean.resolve_right (by simp))),
    fun hclean => nomatch hclean⟩

/-- Marks and dirt only weaken what is said. -/
theorem dirtied (h : Tracked env startingCash rows b) {boid : String} {so : SimOrder}
    (hso : b.orders.get? boid = some so) :
    Tracked env startingCash rows { b.markDirty boid with dirty := true } :=
  h.rewrite hso ⟨rfl, rfl⟩ (Dict.set_of_get hso).symm rfl rfl (subset_markDirty b boid)
    (markDirty_subset b boid) (.inl ⟨rfl, mem_markDirty b boid⟩)

theorem marked (h : Tracked env startingCash rows b) {boid : String} {so : SimOrder}
    (hso : b.orders.get? boid = some so) : Tracked env startingCash rows (b.markDirty boid) :=
  h.rewrite hso ⟨rfl, rfl⟩ (Dict.set_of_get hso).symm rfl rfl (subset_markDirty b boid)
    (markDirty_subset b boid) (.inr ⟨.refl so, rfl, rfl⟩)

/-- What a save leaves under the key of an order: the order itself where it is marked,
and else the row it had. -/
theorem row_saved (hids : ∀ boid so, b.orders.get? boid = some so → so.brokerOrderId = boid)
    {boid : String} {so row : SimOrder} (hso : b.orders.get? boid = some so)
    (hrow : (load startingCash (rows ++ b.rows)).orders.get? boid = some row) :
    row = so ∨ (boid ∉ b.dirtyOrders ∧ (load startingCash rows).orders.get? boid = some row) := by
  rw [load_orders_rows] at hrow
  rcases get?_written (b.dirtyOrders.filterMap b.orders.get?) (load startingCash rows).orders boid
    with ⟨hnone, hsame⟩ | ⟨o, ho, hid, hget⟩
  · refine .inr ⟨fun hmarked => ?_, hsame ▸ hrow⟩
    exact hnone so (List.mem_filterMap.mpr ⟨boid, hmarked, hso⟩) (hids boid so hso)
  · obtain ⟨k, -, hk⟩ := List.mem_filterMap.mp ho
    obtain rfl : k = boid := (hids k o hk).symm.trans hid
    rw [hrow, Option.some.injEq] at hget
    exact .inl (hget.trans (Option.some.inj (hk.symm.trans hso)))

/-- After a save every row is current. -/
theorem saved (h : Tracked env startingCash rows { b with dirty := true }) :
    Tracked env startingCash (rows ++ b.rows) b.saved where
  ids := h.ids
  tags := h.tags
  marks _ hk := nomatch hk
  keys := by
    rw [load_orders_rows, keys_written]
    · exact h.keys
    · intro o ho
      obtain ⟨boid, -, hget⟩ := List.mem_filterMap.mp ho
      rw [h.keys, (h.ids boid o hget).1]
      exact b.orders.mem_keys_iff.mpr ⟨o, hget⟩
  written boid so row hso hrow _ := by
    rcases row_saved (fun k o ho => (h.ids k o ho).1) hso hrow with rfl | ⟨hunmarked, hold⟩
    · exact .refl row
    · exact h.written boid so row hso hold (.inl hunmarked)
  core _ := ⟨_, _, _, load_core_rows b⟩

/-- The next id is free. -/
theorem fresh (h : Tracked env startingCash rows b) :
    b.orders.get? (simId env.bookId b.core.nextOrder) = none :=
  nextId_free h.ids

/-- A tag that finds no order is free. -/
theorem untagged (h : Tracked env startingCash rows b) {coid : String}
    (hfree : b.find coid = none) : b.byTag.get? coid = none := by
  cases hget : b.byTag.get? coid with
  | none => rfl
  | some boid =>
    obtain ⟨so, hso, -⟩ := (h.tags _ boid).mp hget
    unfold SimulatedBroker.find at hfree
    rw [hget, Option.bind_some, hso] at hfree
    cases hfree

section accept

variable {sim : SimOrder} (h : Tracked env startingCash rows b)
  (hfresh : b.orders.get? sim.brokerOrderId = none)

include h hfresh

theorem accepted_tags (hnotag : b.byTag.get? sim.clientOrderId = none) (coid boid : String) :
    (b.byTag.set sim.clientOrderId sim.brokerOrderId).get? coid = some boid ↔
      ∃ so, (b.orders.set sim.brokerOrderId sim).get? boid = some so ∧ so.clientOrderId = coid := by
  rw [Dict.get?_set, Dict.get?_set]
  by_cases hcoid : coid = sim.clientOrderId
  · subst hcoid
    rw [if_pos rfl, Option.some.injEq]
    constructor
    · rintro rfl
      exact ⟨sim, if_pos rfl, rfl⟩
    · rintro ⟨so, hso, htag⟩
      by_cases hboid : boid = sim.brokerOrderId
      · exact hboid.symm
      · rw [if_neg hboid] at hso
        have hold := (h.tags _ boid).mpr ⟨so, hso, htag⟩
        rw [hnotag] at hold
        cases hold
  · rw [if_neg hcoid, h.tags]
    by_cases hboid : boid = sim.brokerOrderId
    · rw [if_pos hboid, hboid, hfresh]
      constructor
      · rintro ⟨so, hso, -⟩
        cases hso
      · rintro ⟨so, hso, htag⟩
        cases hso
        exact absurd htag.symm hcoid
    · rw [if_neg hboid]

theorem accepted_marks : ((b.accept sim).markDirty sim.brokerOrderId).dirtyOrders =
    b.dirtyOrders ++ [sim.brokerOrderId] := by
  refine if_neg fun hmem => ?_
  obtain ⟨so, hso⟩ := h.marks _ hmem
  rw [hfresh] at hso
  cases hso

/-- The rows of the old marks bring no key, and the new order's brings its own. -/
theorem accepted_keys :
    (load startingCash
      (rows ++ ((b.accept sim).markDirty sim.brokerOrderId).rows)).orders.keys =
      (b.orders.set sim.brokerOrderId sim).keys := by
  have horders : ((b.accept sim).markDirty sim.brokerOrderId).orders =
      b.orders.set sim.brokerOrderId sim := rfl
  have hold : b.dirtyOrders.filterMap (b.orders.set sim.brokerOrderId sim).get? =
      b.dirtyOrders.filterMap b.orders.get? := by
    refine List.filterMap_congr fun k hk => ?_
    obtain ⟨so, hso⟩ := h.marks k hk
    rw [Dict.get?_set, if_neg ?_]
    rintro rfl
    rw [hfresh] at hso
    cases hso
  have hself : [sim.brokerOrderId].filterMap (b.orders.set sim.brokerOrderId sim).get? = [sim] := by
    simp
  have hknown : ∀ o ∈ b.dirtyOrders.filterMap b.orders.get?,
      o.brokerOrderId ∈ (load startingCash rows).orders.keys := by
    intro o ho
    obtain ⟨k, -, hget⟩ := List.mem_filterMap.mp ho
    rw [h.keys, (h.ids k o hget).1]
    exact b.orders.mem_keys_iff.mpr ⟨o, hget⟩
  rw [load_orders_rows, h.accepted_marks hfresh, horders, List.filterMap_append, hold, hself,
    List.foldl_append, Dict.keys_set, ← h.keys, ← keys_written hknown]
  exact Dict.keys_set _ _ _

end accept

/-- A new order is saved before it is acknowledged. -/
theorem accepted (h : Tracked env startingCash rows b) {order : Order}
    (hfree : b.find order.clientOrderId = none) (reserved : ℚ) (now : Instant) :
    let sim := env.newSimOrder order reserved now b
    let placed := (b.accept sim).markDirty sim.brokerOrderId
    Tracked env startingCash (rows ++ placed.rows) placed.saved := by
  intro sim placed
  have hfresh : b.orders.get? sim.brokerOrderId = none := h.fresh
  have hids : ∀ boid so, placed.orders.get? boid = some so →
      so.brokerOrderId = boid ∧ ∃ n < placed.core.nextOrder, boid = simId env.bookId n := by
    intro boid so hso
    rcases (b.orders.get?_set_iff).mp hso with ⟨rfl, rfl⟩ | ⟨-, hold⟩
    · exact ⟨rfl, b.core.nextOrder, Nat.lt_succ_self _, rfl⟩
    · obtain ⟨hid, n, hn, heq⟩ := h.ids boid so hold
      exact ⟨hid, n, hn.trans (Nat.lt_succ_self _), heq⟩
  refine ⟨hids, h.accepted_tags hfresh (h.untagged hfree), (fun _ hk => nomatch hk),
    h.accepted_keys hfresh, fun boid so row hso hrow _ => ?_,
    fun _ => ⟨_, _, _, load_core_rows placed⟩⟩
  rcases row_saved (fun k o ho => (hids k o ho).1) hso hrow with rfl | ⟨hunmarked, hold⟩
  · exact .refl row
  · rw [h.accepted_marks hfresh, List.mem_append, List.mem_singleton, not_or] at hunmarked
    have hheld : (b.orders.set sim.brokerOrderId sim).get? boid = some so := hso
    rw [Dict.get?_set_ne _ _ hunmarked.2] at hheld
    exact h.written boid so row hheld hold (.inl hunmarked.1)

end Tracked

/-! ## What the calls keep -/

section calls

variable {T : Type} (env : SimEnv) (startingCash : ℚ) (hooks : Hooks T)

/-- What the store of a world says of its broker. -/
abbrev Kept (w : World SimulatedBroker (Stored T)) : Prop :=
  Tracked env startingCash w.desk.rows w.broker

variable {env startingCash hooks}

/-- An order is changed, the broker is dirty, and the subscriber is told. -/
theorem kept_told {w w' : World SimulatedBroker (Stored T)} (h : Kept env startingCash w)
    {boid : String} {so c : SimOrder} (hso : w.broker.orders.get? boid = some so)
    (hrows : w'.desk.rows = w.desk.rows) {core : SimCore} {fills newFills : List Fill}
    (hbroker : w'.broker = { w.broker with
      core := core, orders := w.broker.orders.set boid c, dirty := true, fills := fills
      newFills := newFills })
    (hnext : core.nextOrder = w.broker.core.nextOrder)
    (hids : c.brokerOrderId = so.brokerOrderId ∧ c.clientOrderId = so.clientOrderId) :
    Kept env startingCash (w'.notify hooks.storing boid) := by
  have hheld : w'.broker.orders.get? boid = some c := by
    rw [hbroker]
    exact Dict.get?_set_self _ _ _
  rw [World.notify_of_get hooks.storing hheld]
  show Tracked env startingCash w'.desk.rows (w'.broker.markDirty boid)
  rw [hrows, hbroker]
  exact h.rewrite hso hids rfl rfl hnext (subset_markDirty _ _) (markDirty_subset _ _)
    (.inl ⟨rfl, mem_markDirty _ _⟩)

theorem kept_notify {w : World SimulatedBroker (Stored T)} (h : Kept env startingCash w)
    (boid : String) : Kept env startingCash (w.notify hooks.storing boid) := by
  cases hso : w.broker.orders.get? boid with
  | none =>
    unfold World.notify
    rw [hso]
    exact h
  | some so =>
    rw [World.notify_of_get hooks.storing hso]
    exact h.marked hso

/-- Each stretch of an operation keeps the rows behind the broker. -/
theorem kept_rules (hquiet : hooks.Quiet) :
    BrokerStep.Rules env hooks.storing (fun _ _ => true) (fun _ _ => True)
      fun w w' => Kept env startingCash w → Kept env startingCash w' where
  settled w today h := by
    obtain ⟨cash, unsettled, heq, -⟩ := w.broker.settle_spec today
    show Tracked env startingCash w.desk.rows (w.broker.settle today)
    rw [heq]
    exact h.purse rfl rfl rfl rfl rfl
  observed w quote today h := Tracked.purse h rfl rfl rfl rfl rfl
  counted w boid h := by
    show Tracked env startingCash w.desk.rows (w.broker.countQuote boid)
    cases hso : w.broker.orders.get? boid with
    | none =>
      rw [countQuote_of_none hso]
      exact h
    | some so =>
      rw [countQuote_of_get hso]
      exact h.touched hso ⟨so.eligibleQuotes + 1, so.triggerPrice, rfl⟩
  triggered ts hso _ h := kept_told h hso rfl (trigger_of_get ts hso) rfl ⟨rfl, rfl⟩
  finished message ts hso _ _ h :=
    kept_told h hso rfl (finish_of_get _ message ts hso) rfl ⟨rfl, rfl⟩
  filled {w boid so _ _ _ _ s _} dpDay hso _ _ _ _ := by
    rintro w rfl
    generalize env.newFill _ _ _ _ _ _ = fill
    obtain ⟨d, hd⟩ := hquiet.takes fill w.desk
    have htold : (World.onDesk (hooks.storing.onFill fill) :
        EStateM Exc (World SimulatedBroker (Stored T)) PUnit)
          (w.mapBroker (bookFill boid so s dpDay fill)) =
        .ok ⟨⟩ { broker := w.broker.bookFill boid so s dpDay fill, desk := { w.desk with desk := d } } := by
      unfold World.onDesk World.mapBroker
      dsimp only
      rw [hd]
    rw [Effect.run_bind_ok (Effect.run_modify _ _), Effect.run_bind_ok htold]
    refine ⟨.single fun h => ?_, trivial⟩
    obtain ⟨blocked, hbooked, -⟩ := bookFill_eq boid so s dpDay fill w.broker
    exact kept_told h hso rfl hbooked (settleFill_same s w.broker.core).2
      ⟨(so.afterFill_same s fill).1, (so.afterFill_same s fill).2.1⟩
  accepted now _ free _ _ h := kept_notify (Tracked.accepted h free _ now) _
  saved w h := Tracked.saved (Tracked.soiled h)

/-! ### Modifying an order -/

/-- An order is changed and not yet marked. -/
def Pending (env : SimEnv) (startingCash : ℚ) (boid : String)
    (w : World SimulatedBroker (Stored T)) : Prop :=
  ∃ so, w.broker.orders.get? boid = some so ∧
    Tracked env startingCash w.desk.rows { w.broker.markDirty boid with dirty := true }

theorem pending_mapOrder {w : World SimulatedBroker (Stored T)} {boid : String}
    (h : Pending env startingCash boid w) {f : SimOrder → SimOrder}
    (hf : ∀ o, (f o).brokerOrderId = o.brokerOrderId ∧ (f o).clientOrderId = o.clientOrderId) :
    Pending env startingCash boid (w.mapBroker (mapOrder boid f)) := by
  obtain ⟨so, hso, htracked⟩ := h
  have hmap : w.broker.mapOrder boid f =
      { w.broker with orders := w.broker.orders.set boid (f so) } := by
    rw [mapOrder, hso]
  refine ⟨f so, ?_, ?_⟩
  · show (w.broker.mapOrder boid f).orders.get? boid = some (f so)
    rw [hmap]
    exact Dict.get?_set_self _ _ _
  · show Tracked env startingCash w.desk.rows
      { (w.broker.mapOrder boid f).markDirty boid with dirty := true }
    rw [hmap]
    exact htracked.rewrite hso (hf so) rfl rfl rfl (List.Subset.refl _)
      (List.subset_cons_self _ _) (.inl ⟨rfl, mem_markDirty _ _⟩)

theorem pending_finish {w : World SimulatedBroker (Stored T)} {boid : String}
    (h : Pending env startingCash boid w) (status : OrderStatus) (message : String) (ts : Instant) :
    Pending env startingCash boid (w.finish hooks.storing boid status message ts) := by
  obtain ⟨so, hso, htracked⟩ := h
  have hfinish := finish_of_get status message ts hso
  have hheld : (w.broker.finish boid status message ts).orders.get? boid =
      some { so with status := status, message := message, updatedAt := ts, reserved := 0 } := by
    rw [hfinish]
    exact Dict.get?_set_self _ _ _
  unfold World.finish
  rw [World.notify_of_get (w := w.mapBroker (.finish boid status message ts)) hooks.storing hheld]
  refine ⟨_, hheld, ?_⟩
  show Tracked env startingCash w.desk.rows
    { ((w.broker.finish boid status message ts).markDirty boid).markDirty boid with dirty := true }
  rw [hfinish]
  have hmarks : (({ w.broker with
      core := { w.broker.core with blocked := w.broker.core.blocked - so.reserved }
      orders := w.broker.orders.set boid
        { so with status := status, message := message, updatedAt := ts, reserved := 0 }
      dirty := true } : SimulatedBroker).markDirty boid |>.markDirty boid).dirtyOrders =
      (w.broker.markDirty boid).dirtyOrders :=
    if_pos (mem_markDirty w.broker boid)
  refine htracked.rewrite hso (c := { so with
      status := status, message := message, updatedAt := ts, reserved := 0 }) ⟨rfl, rfl⟩ rfl rfl rfl
    ?_ ?_ (.inl ⟨rfl, mem_markDirty _ _⟩)
  · exact hmarks.symm ▸ List.Subset.refl _
  · exact hmarks.symm ▸ List.subset_cons_self _ _

/-- Nothing is asked of the moves themselves. -/
abbrev anyMove (_ _ : World SimulatedBroker (Stored T)) : Prop := True

variable (env startingCash) in
theorem keeps_change (boid : String) (o : SimOrder) (instrument : Instrument) (qty : Option ℤ)
    (trigger : Option ℚ) :
    Effect.Moves anyMove
      (fun w => Kept env startingCash w ∧ ∃ so, w.broker.orders.get? boid = some so)
      (SimulatedBroker.change boid o instrument qty trigger :
        EStateM Exc (World SimulatedBroker (Stored T)) PUnit)
      (fun _ => Pending env startingCash boid) (fun _ => Kept env startingCash) := by
  have hqty : Effect.Moves anyMove
      (fun w => Kept env startingCash w ∧ ∃ so, w.broker.orders.get? boid = some so)
      (SimulatedBroker.change boid o instrument qty none :
        EStateM Exc (World SimulatedBroker (Stored T)) PUnit)
      (fun _ => Pending env startingCash boid) (fun _ => Kept env startingCash) := by
    unfold SimulatedBroker.change
    cases qty with
    | none =>
      apply Effect.Moves.pure
      rintro w ⟨h, so, hso⟩
      exact ⟨so, hso, h.dirtied hso⟩
    | some q =>
      dsimp only
      split
      · exact Effect.Moves.bind (Q := fun _ _ => False) (Effect.Moves.throw fun _ h => h.1)
          fun _ _ h => h.elim
      · apply Effect.Moves.change
        rintro w ⟨h, so, hso⟩
        exact ⟨.single trivial, pending_mapOrder ⟨so, hso, h.dirtied hso⟩ fun _ => ⟨rfl, rfl⟩⟩
  unfold SimulatedBroker.change
  cases trigger with
  | none => exact hqty
  | some t =>
    dsimp only
    split
    · exact Effect.Moves.bind (Q := fun _ _ => False) (Effect.Moves.throw fun _ h => h.1)
        fun _ _ h => h.elim
    split
    · exact Effect.Moves.bind (Q := fun _ _ => False) (Effect.Moves.throw fun _ h => h.1)
        fun _ _ h => h.elim
    -- the trigger is one of the fields that need no mark
    refine Effect.Moves.after ?_ hqty
    rintro w ⟨h, so, hso⟩
    refine ⟨.single trivial, ?_⟩
    have hmap : w.broker.mapOrder boid (fun o => { o with triggerPrice := some t }) =
        { w.broker with
          orders := w.broker.orders.set boid { so with triggerPrice := some t } } := by
      rw [mapOrder, hso]
    refine ⟨?_, { so with triggerPrice := some t }, ?_⟩
    · show Tracked env startingCash w.desk.rows (w.broker.mapOrder boid _)
      rw [hmap]
      exact h.touched hso ⟨so.eligibleQuotes, some t, rfl⟩
    · show (w.broker.mapOrder boid _).orders.get? boid = _
      rw [hmap]
      exact Dict.get?_set_self _ _ _

theorem keeps_modifyOrder (now : Instant) (boid : String) (qty : Option ℤ)
    (price trigger : Option ℚ) :
    Effect.Moves anyMove (Kept env startingCash)
      (SimulatedBroker.modifyOrder env hooks.storing now boid qty price trigger)
      (fun _ => Kept env startingCash) (fun _ => Kept env startingCash) := by
  unfold SimulatedBroker.modifyOrder
  refine BrokerStep.moves_order (fun w o hw ho => ?_) fun _ h => h
  -- what is refused before the order is touched leaves everything written
  have hrefused : ∀ {α : Type} {e : Exc} {f : α → EStateM Exc (World SimulatedBroker (Stored T)) BrokerAck},
      Effect.Moves anyMove (Eq w) (throw e >>= f) (fun _ => Kept env startingCash)
        (fun _ => Kept env startingCash) := by
    intro α e f
    refine Effect.Moves.bind (Q := fun _ _ => False) (Effect.Moves.throw ?_) fun _ _ h => h.elim
    rintro _ rfl
    exact hw
  dsimp only
  split
  · exact hrefused
  split
  · exact hrefused
  cases env.instruments.get? o.instrumentKey with
  | none =>
    refine Effect.Moves.throw ?_
    rintro _ rfl
    exact hw
  | some instrument =>
    dsimp only
    have hchange := keeps_change (T := T) env startingCash boid o instrument qty trigger
    refine Effect.Moves.bind (hchange.conseq ?_ (fun _ _ h => h) fun _ _ h => h) fun _ => ?_
    · rintro _ rfl
      exact ⟨hw, o, ho⟩
    refine Effect.Moves.after (M := Pending env startingCash boid)
      (fun w h => ⟨.single trivial, pending_mapOrder h fun _ => ⟨rfl, rfl⟩⟩) ?_
    -- the order is changed in memory until this save
    have hlast : Effect.Moves anyMove (Pending env startingCash boid)
        (do
          modify fun w => ((w.mapBroker (markDirty boid)).save hooks.storing).notify hooks.storing boid
          return ack (← order boid) "modified" :
          EStateM Exc (World SimulatedBroker (Stored T)) BrokerAck)
        (fun _ => Kept env startingCash) (fun _ => Kept env startingCash) := by
      refine Effect.Moves.after (M := Kept env startingCash) ?_ ?_
      · rintro w ⟨so, hso, h⟩
        exact ⟨.single trivial, kept_notify h.saved boid⟩
      · exact BrokerStep.moves_order
          (fun w o hw _ => Effect.Moves.pure fun _ h => h ▸ hw) fun _ h => h
    have hheld : ∀ w : World SimulatedBroker (Stored T), Pending env startingCash boid w →
        ∃ so, w.broker.orders.get? boid = some so := by
      rintro w ⟨so, hso, -⟩
      exact ⟨so, hso⟩
    refine BrokerStep.moves_held hheld fun w o hw _ => ?_
    split
    · refine Effect.Moves.after (M := Pending env startingCash boid) ?_ hlast
      rintro _ rfl
      exact ⟨.single trivial, pending_finish hw _ _ _⟩
    · refine hlast.conseq ?_ (fun _ _ h => h) fun _ _ h => h
      rintro _ rfl
      exact hw

end calls

end SimulatedBroker

end RakshaQuant
