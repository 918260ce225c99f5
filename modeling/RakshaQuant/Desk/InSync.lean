import RakshaQuant.Brokers.Simulated.Accounts
import RakshaQuant.Desk.ReduceOnly

/-! OMS and broker agree between operations: no order is left without an outcome,
and while no outcome is open every order the broker accepted has the broker's
status and quantity; with positions and cash equal a reconciliation finds nothing. -/

namespace RakshaQuant

namespace OMS

section change

variable {Allowed : Order → Prop} {o o' : OMS}

/-- No change takes an order back to SUBMITTED. -/
theorem Change.sent {coid : String} (hchange : Change (fun order => order.clientOrderId ≠ coid) o o')
    (h : ∀ known, o.orders.get? coid = some known → known.status ≠ .submitted) :
    ∀ known, o'.orders.get? coid = some known → known.status ≠ .submitted := by
  have hset : ∀ {k : String} {changed : Order}, o'.orders = o.orders.set k changed →
      (k = coid → changed.status ≠ .submitted) →
      ∀ known, o'.orders.get? coid = some known → known.status ≠ .submitted := by
    intro k changed horders hchanged known hknown
    rw [horders, Dict.get?_set_iff] at hknown
    rcases hknown with ⟨hk, rfl⟩ | ⟨-, hold⟩
    · exact hchanged hk.symm
    · exact h known hold
  cases hchange with
  | noted _ orders _ _ =>
    rw [orders]
    exact h
  | recounted held orders _ _ =>
    refine hset orders ?_
    rintro rfl
    exact (h _ held :)
  | registered _ allowed _ _ _ orders _ _ => exact hset orders fun hk => absurd hk allowed
  | moved held tells _ orders _ _ =>
    refine hset orders ?_
    rintro rfl
    cases tells with
    | acked _ _ stands =>
      rcases stands with rfl | ⟨hs, -⟩
      · exact (h _ held :)
      · exact hs
    | _ => exact fun hs => by cases hs
  | @filled _ known fill _ _ _ _ _ _ _ _ _ _ _ orders _ _ _ _ =>
    refine hset orders fun _ => ?_
    rcases statusAfter_cases known fill with hs | hs
    · exact fun hc => by cases hs.symm.trans hc
    · exact fun hc => by cases hs.symm.trans hc

/-- No outcome was recorded as open: no acknowledgement was lost, and `place_order`
raised nothing but broker errors that say the order was not placed. -/
def Acknowledged (o : OMS) : Prop := ∀ ref error, .orderUnknown ref error ∉ events o.sink

/-- An order is UNKNOWN only when an event says so. -/
theorem Change.known (hchange : Change Allowed o o')
    (h : o.Acknowledged → ∀ coid order, o.orders.get? coid = some order → order.status ≠ .unknown)
    (hack : o'.Acknowledged) :
    ∀ coid order, o'.orders.get? coid = some order → order.status ≠ .unknown := by
  obtain ⟨ps, hlogged⟩ := hchange.logged
  have hbefore := h fun ref error hm => hack ref error (by
    rw [hlogged]
    exact List.mem_append_left _ hm)
  have hset : ∀ {k : String} {changed : Order}, o'.orders = o.orders.set k changed →
      changed.status ≠ .unknown →
      ∀ coid order, o'.orders.get? coid = some order → order.status ≠ .unknown := by
    intro k changed horders hchanged coid order ho
    rw [horders, Dict.get?_set_iff] at ho
    rcases ho with ⟨-, rfl⟩ | ⟨-, hold⟩
    · exact hchanged
    · exact hbefore coid order hold
  cases hchange with
  | noted _ orders _ _ =>
    rw [orders]
    exact hbefore
  | recounted held orders _ _ => exact hset orders (hbefore _ _ held :)
  | registered new _ _ _ _ orders _ _ =>
    refine hset orders ?_
    rw [new.status]
    decide
  | @moved _ known _ _ _ _ held tells _ orders _ logged =>
    refine hset orders ?_
    cases tells with
    | acked _ _ stands =>
      rcases stands with rfl | ⟨-, hs⟩
      · exact (hbefore _ _ held :)
      · exact hs
    | unknown error =>
      refine absurd ?_ (hack (ref known) error)
      rw [logged]
      exact List.mem_append_right _ (List.mem_singleton.mpr rfl)
    | _ => exact fun hs => by cases hs
  | @filled _ known fill _ _ _ _ _ _ _ _ _ _ _ orders _ _ _ _ =>
    refine hset orders ?_
    rcases statusAfter_cases known fill with hs | hs
    · exact fun hc => by cases hs.symm.trans hc
    · exact fun hc => by cases hs.symm.trans hc

end change

end OMS

namespace Sample

/-- Ten shares are bought, half in each of two quotes, and an exit sells them. -/
def roundTrip : List Op :=
  [.quote (quote 0 0 zero_nonneg), submit 1 entry .delivered, .quote (quote 2 5 (by decide)),
    .quote (quote 3 10 ten_nonneg), submit 4 (exit "X1") .delivered,
    .quote (quote 5 20 (by decide))]

end Sample

namespace System

variable {T : Type} {sys : System T} {w w' : Paper T}

/-! ## Outcomes -/

/-- An operation leaves no order without an outcome. -/
theorem recorded_after (h : Coupled sys w) (hrecorded : ∀ coid, Recorded coid w) (op : Op)
    (coid : String) : Recorded coid (sys.after w op) := by
  -- an operation that registers no order of this id
  have hother : Op.Gated sys.config (fun order => order.clientOrderId ≠ coid) op →
      Recorded coid (sys.after w op) := by
    intro hgated known hknown hsubmitted
    obtain ⟨-, hchanges⟩ := op_spec hgated h
    have hsent := Effect.invariant
      (I := fun o => ∀ known, o.orders.get? coid = some known → known.status ≠ .submitted)
      (fun _ _ hchange hs => OMS.Change.sent hchange hs) hchanges fun known hk hs =>
        h.sent hk (hrecorded coid known hk hs) hs
    exact absurd hsubmitted (hsent known hknown)
  cases op with
  | submit now brokerNow intent quantity gate delivery =>
    by_cases hc : coid = sys.config.clientOrderId intent.intentId
    · subst hc
      have hpasses : Passes sys.config (fun _ => True) gate intent := fun _ _ _ _ _ _ _ => trivial
      have hmoves := moves_submit sys _ now brokerNow intent quantity hpasses delivery
        h.agrees.keyed
      have hsubmitted : Submitted (sys.config.clientOrderId intent.intentId) w
          (sys.after w (.submit now brokerNow intent quantity gate delivery)) := by
        unfold System.after System.exec
        rw [Effect.state_bind_pure]
        have hend := (hmoves w rfl).2
        generalize OMS.submit sys.config (delivery.through (sys.adapter brokerNow))
          (some gate.asOrderGate) now intent quantity w = r at hend
        cases r <;> exact hend
      rcases hsubmitted with hdone | ⟨hbroker, horders⟩
      · exact hdone
      · intro known hknown hs
        rw [hbroker]
        exact hrecorded _ known (horders ▸ hknown) hs
    · exact hother fun _ _ _ _ _ _ _ he => hc he.symm
  | cancel => exact hother trivial
  | quote => exact hother trivial
  | expireSession => exact hother trivial
  | resolveUnknown => exact hother trivial
  | reconcile => exact hother trivial

/-- No run leaves an order without an outcome. -/
theorem recorded_run (h : Coupled sys w) (hrecorded : ∀ coid, Recorded coid w) (ops : List Op) :
    ∀ coid, Recorded coid (sys.run w ops) := by
  induction ops generalizing w with
  | nil => exact hrecorded
  | cons op rest ih =>
    exact ih (op_spec (Op.gated_any sys.config op) h).1 (recorded_after h hrecorded op)

/-! ## Money -/

/-- Every sale brought in at least its charges. -/
def Worth (b : SimulatedBroker) : Prop := ∀ f ∈ b.fills, f.side = .sell → f.charges ≤ f.notional

section steps

variable {Allowed : Order → Prop}

/-- A broker forgets no fill. -/
theorem fills_kept (hstep : Step sys Allowed w w') : ∀ f ∈ w.broker.fills, f ∈ w'.broker.fills := by
  intro f hf
  cases hstep with
  | settled today =>
    obtain ⟨cash, unsettled, heq, -⟩ := w.broker.settle_spec today
    show f ∈ (w.broker.settle today).fills
    rw [heq]
    exact hf
  | counted boid =>
    show f ∈ (w.broker.countQuote boid).fills
    unfold SimulatedBroker.countQuote SimulatedBroker.mapOrder
    split <;> exact hf
  | triggered ts held _ =>
    rw [World.notify_fills]
    show f ∈ (w.broker.trigger _ ts).fills
    rw [SimulatedBroker.trigger_of_get ts held]
    exact hf
  | @finished boid _ status message ts held _ _ =>
    rw [World.finish, World.notify_fills]
    show f ∈ (w.broker.finish boid status message ts).fills
    rw [SimulatedBroker.finish_of_get status message ts held]
    exact hf
  | @filled boid so _ _ _ _ _ s dpDay _ _ _ _ =>
    obtain ⟨blocked, heq, -⟩ := SimulatedBroker.bookFill_eq boid so s dpDay
      (sys.env.newFill so _ _ _ _ _) w.broker
    rw [heq]
    exact List.mem_append_left _ hf
  | renotified _ _ =>
    rw [World.notify_fills]
    exact hf
  | accepted _ _ _ _ _ _ =>
    rw [World.notify_fills]
    exact hf
  | _ => exact hf

/-- As long as every sale is worth its charges, the accounts stay in order. -/
theorem accounts_step (h : Coupled sys w) (hacc : w.broker.Accounts) (hstep : Step sys Allowed w w')
    (hworth : Worth w'.broker) : w'.broker.Accounts := by
  have hnotify : ∀ {w : Paper T} (boid : String), w.broker.Accounts →
      (w.notify sys.hooks boid).broker.Accounts := fun boid ha =>
    ha.same (World.notify_orders _ _ _) (by rw [World.notify_core]) (by rw [World.notify_core])
      (by rw [World.notify_core])
  cases hstep with
  | settled today => exact hacc.settle today
  | observed => exact hacc.same rfl rfl rfl rfl
  | counted boid => exact hacc.countQuote boid
  | @triggered boid _ ts held _ => exact hnotify boid (hacc.trigger ts held)
  | @finished boid _ status message ts held _ _ =>
    exact hnotify boid (hacc.finish status message ts held)
  | filled dpDay held live within settles =>
    refine hacc.fill dpDay held rfl settles fun hsell => ?_
    have hfree : 0 ≤ if sys.env.sellProceeds = .sameDay then w.broker.available else 0 := by
      split
      · exact sub_nonneg.mpr hacc.solvent
      · exact le_rfl
    refine (hworth _ ?_ hsell).trans (le_add_of_nonneg_right hfree)
    obtain ⟨blocked, heq, -⟩ := SimulatedBroker.bookFill_eq _ _ _ dpDay _ w.broker
    rw [heq]
    exact List.mem_append_right _ (List.mem_singleton.mpr rfl)
  | @renotified boid _ _ _ => exact hnotify boid hacc
  | @accepted order reference reserved now known new free pos reserves =>
    obtain ⟨hreserved, havailable⟩ := SimulatedBroker.reservation_spec pos hacc.solvent reserves
    exact hnotify _ ((hacc.accept h.agrees.fresh_id hreserved havailable).same rfl rfl rfl rfl)
  | _ => exact hacc.same rfl rfl rfl rfl

/-- The accounts of a run in which every sale was worth its charges. -/
theorem accounts_steps (h : Coupled sys w) (hacc : w.broker.Accounts)
    (hsteps : Steps sys Allowed w w') (hworth : Worth w'.broker) : w'.broker.Accounts := by
  have hinv := Effect.invariant
    (I := fun w' => Coupled sys w' ∧ (Worth w'.broker → w'.broker.Accounts))
    (fun _ _ hstep hi => ⟨(hi.1.step hstep).1, fun hw => accounts_step hi.1
      (hi.2 fun f hf => hw f (fills_kept hstep f hf)) hstep hw⟩)
    hsteps ⟨h, fun _ => hacc⟩
  exact hinv.2 hworth

end steps

/-! ## Reconciling -/

section reconcile

/-- Positions listed from a table of positions, looked up by key. -/
theorem quantities_get {ν : Type} {d : Dict (String × Product) ν} (q : ν → ℤ) {ps : List Position}
    (hlist : ∀ p ∈ ps, ∃ v, d.get? (p.instrumentKey, p.product) = some v ∧ p.quantity = q v)
    (hall : ∀ k v, d.get? k = some v → ∃ p ∈ ps, (p.instrumentKey, p.product) = k)
    (k : String × Product) : (OMS.quantities ps).get? k = (d.get? k).map q := by
  have hentry : ∀ {k' n}, (k', n) ∈ ps.map (fun p => ((p.instrumentKey, p.product), p.quantity)) →
      ∃ v, d.get? k' = some v ∧ n = q v := by
    intro k' n hm
    obtain ⟨p, hp, heq⟩ := List.mem_map.mp hm
    cases heq
    exact hlist p hp
  cases hd : d.get? k with
  | none =>
    cases hq : (OMS.quantities ps).get? k with
    | none => rfl
    | some n =>
      obtain ⟨v, hv, -⟩ := hentry (Dict.mem_of_ofList hq)
      rw [hd] at hv
      cases hv
  | some v =>
    refine (Dict.get?_ofList_iff fun n hn => ?_).mpr ?_
    · obtain ⟨v', hv', rfl⟩ := hentry hn
      rw [hd, Option.some.injEq] at hv'
      rw [hv']
    · obtain ⟨p, hp, hkey⟩ := hall k v hd
      obtain ⟨v', hv', hquantity⟩ := hlist p hp
      rw [hkey, hd, Option.some.injEq] at hv'
      exact List.mem_map.mpr ⟨p, hp, by rw [hkey, hquantity, hv']⟩

theorem quantities_book (o : OMS) (now : Instant) (k : String × Product) :
    ((OMS.quantities (o.book.positions now)).get? k).getD 0 = o.book.quantity k.1 k.2 := by
  rw [quantities_get Book.quantity (d := o.book.books)]
  · rw [PositionBook.quantity, PositionBook.bookAt]
    cases o.book.books.get? k <;> rfl
  · intro p hp
    obtain ⟨e, he, rfl⟩ := List.mem_map.mp hp
    rw [List.mem_insertionSort] at he
    exact ⟨e.2, o.book.books.mem_entries_iff.mp he, rfl⟩
  · intro k' b hb
    have hm := o.book.books.mem_entries_iff.mpr hb
    exact ⟨_, List.mem_map.mpr ⟨(k', b), by rwa [List.mem_insertionSort], rfl⟩, rfl⟩

theorem quantities_broker (env : SimEnv) (now : Instant) (b : SimulatedBroker)
    (k : String × Product) :
    ((OMS.quantities (b.core.positions.entries.map fun e =>
        SimulatedBroker.positionView env now e.1 e.2)).get? k).getD 0 = b.core.quantity k.1 k.2 := by
  rw [quantities_get SimPosition.quantity (d := b.core.positions)]
  · rw [SimCore.quantity]
    cases b.core.positions.get? k <;> rfl
  · intro p hp
    obtain ⟨e, he, rfl⟩ := List.mem_map.mp hp
    exact ⟨e.2, b.core.positions.mem_entries_iff.mp he, rfl⟩
  · intro k' p hp
    exact ⟨_, List.mem_map.mpr ⟨(k', p), b.core.positions.mem_entries_iff.mpr hp, rfl⟩, rfl⟩

/-- Positions agree. -/
theorem positionDiffs_nil (h : Agrees sys w) (now brokerNow : Instant) :
    w.desk.oms.positionDiffs now (w.broker.core.positions.entries.map fun e =>
      SimulatedBroker.positionView sys.env brokerNow e.1 e.2) = [] := by
  unfold OMS.positionDiffs
  rw [List.flatMap_eq_nil_iff]
  intro k _
  dsimp only
  rw [quantities_book, quantities_broker, h.positions, if_neg (not_not.mpr rfl)]

/-- The broker's snapshots by tag. -/
theorem snapshots_get (h : Agrees sys w) (coid : String) :
    (Dict.ofList ((w.broker.orders.values.map SimOrder.snapshot).map fun s =>
      (s.clientOrderId, s))).get? coid = (w.broker.find coid).map SimOrder.snapshot := by
  have hentry : ∀ {s}, (coid, s) ∈ ((w.broker.orders.values.map SimOrder.snapshot).map fun s =>
      (s.clientOrderId, s)) → ∃ so, w.broker.find coid = some so ∧ s = so.snapshot := by
    intro s hm
    obtain ⟨s', hs', heq⟩ := List.mem_map.mp hm
    obtain ⟨so, hso, rfl⟩ := List.mem_map.mp hs'
    cases heq
    obtain ⟨boid, hget⟩ := w.broker.orders.mem_values_iff.mp hso
    exact ⟨so, h.find_of_get hget, rfl⟩
  cases hfind : w.broker.find coid with
  | none =>
    cases hq : (Dict.ofList _).get? coid with
    | none => rfl
    | some s =>
      obtain ⟨so, hso, -⟩ := hentry (Dict.mem_of_ofList hq)
      rw [hfind] at hso
      cases hso
  | some so =>
    refine (Dict.get?_ofList_iff fun s hs => ?_).mpr ?_
    · obtain ⟨so', hso', rfl⟩ := hentry hs
      rw [hfind, Option.some.injEq] at hso'
      rw [hso']
    · obtain ⟨hget, rfl⟩ := h.find_iff.mp hfind
      exact List.mem_map.mpr ⟨so.snapshot, List.mem_map.mpr
        ⟨so, w.broker.orders.mem_values_iff.mpr ⟨_, hget⟩, rfl⟩, rfl⟩

end reconcile

/-- Every order has the broker's status and filled quantity, or was rejected. -/
def Settled (w : Paper T) : Prop :=
  ∀ coid order, w.desk.oms.orders.get? coid = some order →
    match w.broker.find coid with
    | some so => order.status = so.status ∧ order.filledQty = so.filledQty
    | none => order.status = .rejected

/-- With no outcome open, the orders agree. -/
theorem Coupled.settled (h : Coupled sys w) (hrecorded : ∀ coid, Recorded coid w)
    (hknown : ∀ coid order, w.desk.oms.orders.get? coid = some order → order.status ≠ .unknown) :
    Settled w := by
  intro coid order ho
  have hmeets := h.meets coid order ho
  cases hfind : w.broker.find coid with
  | some so =>
    rw [hfind] at hmeets
    obtain ⟨-, hpaired⟩ := hmeets
    refine ⟨?_, hpaired.filledQty⟩
    rcases hpaired.status with hs | ⟨hs, -⟩
    · exact hs
    · exact absurd hs (hknown coid order ho)
  | none =>
    rw [hfind] at hmeets
    rcases hmeets.status with hs | hs | hs
    · have := hrecorded coid order ho hs
      rw [hfind] at this
      cases this
    · exact hs
    · exact absurd hs (hknown coid order ho)

theorem orderDiffs_nil (h : Agrees sys w) (hsettled : Settled w) :
    w.desk.oms.orderDiffs (.ofList ((w.broker.orders.values.map SimOrder.snapshot).map fun s =>
      (s.clientOrderId, s))) = [] := by
  unfold OMS.orderDiffs
  rw [List.append_eq_nil_iff, List.flatMap_eq_nil_iff, List.map_eq_nil_iff, List.filter_eq_nil_iff]
  constructor
  · intro e he
    have horder := w.desk.oms.orders.mem_entries_iff.mp he
    have hs := hsettled e.1 e.2 horder
    rw [snapshots_get h]
    cases hfind : w.broker.find e.1 with
    | none =>
      rw [hfind] at hs
      exact if_neg fun hc => hc.1 hs
    | some so =>
      rw [hfind] at hs
      exact if_neg fun hc => hc hs.1.symm
  · intro coid hk
    obtain ⟨s, hs⟩ := (Dict.mem_keys_iff _).mp hk
    rw [snapshots_get h] at hs
    obtain ⟨so, hso, -⟩ := Option.map_eq_some_iff.mp hs
    obtain ⟨hget, rfl⟩ := h.find_iff.mp hso
    obtain ⟨order, horder, -⟩ := h.known _ so hget
    rw [horder]
    exact Bool.false_ne_true

/-- The funds the broker reports are the book's cash. -/
theorem funds_agree (h : Agrees sys w) (hacc : w.broker.Accounts) (now : Instant) :
    ∃ funds, (sys.adapter now).getFunds w = .ok funds (w.mapBroker (.settle now.istDate)) ∧
      funds.availableCash + funds.blocked + funds.unsettledCredit = w.desk.oms.book.cash := by
  obtain ⟨funds, hfunds, hmoney⟩ := SimulatedBroker.getFunds_spec hacc now
  exact ⟨funds, hfunds, hmoney.trans h.money.symm⟩

/-- With orders, positions and money in order a reconciliation finds nothing. -/
theorem reconcile_inSync (h : Agrees sys w) (hsettled : Settled w) (hacc : w.broker.Accounts)
    (now : Instant) :
    ∃ result w', OMS.reconcile (sys.adapter now) sys.listener now w = .ok result w' ∧
      result.inSync = true ∧ result.diffs = [] := by
  have hadopt : OMS.adoptFills (sys.adapter now) sys.listener none w = .ok [] w := by
    unfold OMS.adoptFills
    have htrades : (sys.adapter now).getTrades none w =
        .ok (w.broker.fills.filter fun _ => true) w := rfl
    have hmissing : ((w.broker.fills.filter fun _ => true).filter fun f =>
        !w.desk.oms.book.hasSeen f.fillId) = [] := by
      rw [List.filter_eq_nil_iff]
      intro f hf
      simpa [PositionBook.hasSeen] using h.reported f (List.mem_filter.mp hf).1
    rw [Effect.run_bind_ok htrades, Effect.run_bind_ok (Effect.run_get _), hmissing]
    rfl
  obtain ⟨funds, hfunds, hcash⟩ := funds_agree h hacc now
  have horders : (sys.adapter now).getOrders w =
      .ok (w.broker.orders.values.map SimOrder.snapshot) w := rfl
  have hpositions : (sys.adapter now).getPositions w =
      .ok (w.broker.core.positions.entries.map fun e =>
        SimulatedBroker.positionView sys.env now e.1 e.2) w := rfl
  have hcashDiffs : (w.mapBroker (.settle now.istDate)).desk.oms.cashDiffs funds = [] :=
    if_neg (not_not.mpr hcash)
  unfold OMS.reconcile
  rw [Effect.run_bind_ok hadopt, Effect.run_bind_ok horders, Effect.run_bind_ok (Effect.run_get _),
    Effect.run_bind_ok (Effect.run_get _), Effect.run_bind_ok hpositions]
  dsimp only
  rw [Effect.run_bind_ok hfunds, Effect.run_bind_ok (Effect.run_get _), hcashDiffs,
    orderDiffs_nil h hsettled, positionDiffs_nil h]
  exact ⟨_, _, rfl, rfl, rfl⟩

/-! ## Every run -/

/-- **Broker and OMS agree.** In every run in which no submission's outcome was
left open and every sale was worth its charges: each order has the broker's
status and filled quantity, or was rejected; the positions are equal; the cash
that is compared is equal; and a reconciliation reports no difference. -/
theorem books_in_sync (sys : System T) (startingCash : ℚ) (hcash : 0 ≤ startingCash) (ext : T)
    (ops : List Op) (hacked : (sys.run (sys.init startingCash ext) ops).desk.oms.Acknowledged)
    (hworth : Worth (sys.run (sys.init startingCash ext) ops).broker) (now : Instant) :
    let w := sys.run (sys.init startingCash ext) ops
    Settled w ∧
      (∀ instrumentKey product, w.desk.oms.book.quantity instrumentKey product =
        w.broker.core.quantity instrumentKey product) ∧
      (∃ funds w', (sys.adapter now).getFunds w = .ok funds w' ∧
        funds.availableCash + funds.blocked + funds.unsettledCredit = w.desk.oms.book.cash) ∧
      ∃ result w', OMS.reconcile (sys.adapter now) sys.listener now w = .ok result w' ∧
        result.inSync = true ∧ result.diffs = [] := by
  intro w
  have hinit : Coupled sys (sys.init startingCash ext) := .init startingCash ext
  have hsteps := run_steps (fun op (_ : op ∈ ops) => Op.gated_any sys.config op) hinit
  obtain ⟨hcoupled, hchanges⟩ := hinit.steps hsteps
  have hknown := Effect.invariant (I := fun o : OMS => o.Acknowledged →
      ∀ coid order, o.orders.get? coid = some order → order.status ≠ .unknown)
    (fun _ _ hchange hk hacked => hchange.known hk hacked) hchanges (fun _ _ _ h => by cases h)
    hacked
  have hrecorded := recorded_run hinit (fun _ _ h => by cases h) ops
  have hsettled := hcoupled.settled hrecorded hknown
  have hacc := accounts_steps hinit (.init hcash) hsteps hworth
  obtain ⟨funds, hfunds, hmoney⟩ := funds_agree hcoupled.agrees hacc now
  exact ⟨hsettled, hcoupled.agrees.positions, ⟨funds, _, hfunds, hmoney⟩,
    reconcile_inSync hcoupled.agrees hsettled hacc now⟩

/-! ## A desk in step -/

/-- Ten shares are bought, and an exit for them is filled. -/
theorem books_in_sync_round_trip :
    let w := Sample.system.run (Sample.system.init 100000 ()) Sample.roundTrip
    Settled w ∧
      (∀ instrumentKey product, w.desk.oms.book.quantity instrumentKey product =
        w.broker.core.quantity instrumentKey product) ∧
      (∃ funds w', (Sample.system.adapter (Sample.clock 9)).getFunds w = .ok funds w' ∧
        funds.availableCash + funds.blocked + funds.unsettledCredit = w.desk.oms.book.cash) ∧
      ∃ result w', OMS.reconcile (Sample.system.adapter (Sample.clock 9)) Sample.system.listener
        (Sample.clock 9) w = .ok result w' ∧ result.inSync = true ∧ result.diffs = [] := by
  refine books_in_sync Sample.system 100000 (by norm_num) () Sample.roundTrip ?_ ?_ (Sample.clock 9)
  · intro ref error hm
    have hall : (events (Sample.system.run (Sample.system.init 100000 ())
        Sample.roundTrip).desk.oms.sink).all (fun p => match p with
          | .orderUnknown _ _ => false
          | _ => true) = true := by decide +kernel
    exact absurd (List.all_eq_true.mp hall _ hm) Bool.false_ne_true
  · show ∀ f ∈ (Sample.system.run (Sample.system.init 100000 ()) Sample.roundTrip).broker.fills,
      f.side = .sell → f.charges ≤ f.notional
    decide +kernel

end System

end RakshaQuant
