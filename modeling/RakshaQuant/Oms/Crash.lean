import RakshaQuant.Oms.Reported
import RakshaQuant.Oms.Restore

/-! A crash may cut the log anywhere, and `restore` rebuilds the book from the fills that
are left; it writes no event again. So the tables show the restored book exactly where the
cut does not separate a fill from its position and its trades. -/

namespace RakshaQuant

/-- A log cut short, but not between a fill and what is told of it. -/
structure CleanCut (ps log : List EventPayload) : Prop where
  cut : ps <+: log
  clean : ∀ p rest, log = ps ++ p :: rest → p.Untabled

theorem CleanCut.shorten {ps log more : List EventPayload} (h : CleanCut ps (log ++ more))
    (hcut : ps <+: log) : CleanCut ps log where
  cut := hcut
  clean p rest hlog := h.clean p (rest ++ more) (by rw [hlog, List.append_assoc, List.cons_append])

namespace OMS

variable {o o' r : OMS}

theorem Touched.intents (h : Touched o o') (coid : String) :
    (o'.orders.get? coid).map Order.intent = (o.orders.get? coid).map Order.intent := by
  cases h with
  | same horders => rw [horders]
  | @one k known changed hk horders _ hi =>
    rw [horders, Dict.get?_set]
    by_cases hc : coid = k
    · rw [if_pos hc, hc, hk, Option.map_some, Option.map_some, hi]
    · rw [if_neg hc]

/-- The call of `apply` depends on the order's intent only. -/
theorem application_congr {fill : Fill} (h : (r.orders.get? fill.clientOrderId).map Order.intent =
    (o.orders.get? fill.clientOrderId).map Order.intent) :
    r.application fill = o.application fill := by
  unfold application
  cases hr : r.orders.get? fill.clientOrderId with
  | none =>
    rw [hr] at h
    rw [Option.map_eq_none_iff.mp h.symm]
  | some copy =>
    rw [hr] at h
    obtain ⟨order, horder, hi⟩ := Option.map_eq_some_iff.mp h.symm
    simp only [horder, Order.application, hi]

/-! ## What restoring an event does to the book -/

theorem touched_setOrder {r' : OMS} {order : Order} (change : Order → Order)
    (held : r.orders.get? order.clientOrderId = some order)
    (hid : (change order).clientOrderId = order.clientOrderId)
    (hi : (change order).intent = order.intent)
    (horders : r'.orders = (r.setOrder order change).orders) : Touched r r' := by
  rw [setOrder_orders, latest_of_get held] at horders
  exact .one held horders hid hi

/-- A lifecycle update that changes an order but neither its id nor its intent. -/
theorem restoreStatus_touched (ref : OrderRef) {change : Order → OMS → OMS} (hk : r.Keyed)
    (hchange : ∀ order, r.orders.get? order.clientOrderId = some order →
      (change order r).book = r.book ∧ Touched r (change order r)) :
    ∃ c r', restoreStatus ref change r = .ok c r' ∧ r'.book = r.book ∧ Touched r r' := by
  unfold restoreStatus
  simp only [Effect.run_bind, Effect.run_get]
  cases h : r.orders.get? ref.clientOrderId with
  | none => exact ⟨false, r, rfl, rfl, .same rfl⟩
  | some order =>
    by_cases hbook : ref.bookId = r.bookId
    · have hheld : r.orders.get? order.clientOrderId = some order := by rw [hk _ _ h, h]
      obtain ⟨hsame, htouched⟩ := hchange order hheld
      simp only [hbook, ne_eq, not_true_eq_false, if_false]
      exact ⟨true, change order r, rfl, hsame, htouched⟩
    · simp only [hbook, ne_eq, not_false_eq_true, if_true]
      exact ⟨false, r, rfl, rfl, .same rfl⟩

/-- Events that come from no fill and register nothing leave the book and the intents. -/
theorem restoreEvent_unbooked {p : EventPayload} (hk : r.Keyed) (hp : p.Unbooked) :
    ∃ c r', restoreEvent p r = .ok c r' ∧ r'.book = r.book ∧ Touched r r' := by
  have hterminal : ∀ ref status, ∃ c r',
      restoreStatus ref (fun order => restoreTerminal order status) r = .ok c r' ∧
        r'.book = r.book ∧ Touched r r' := fun ref status =>
    restoreStatus_touched ref hk fun order held =>
      ⟨rfl, touched_setOrder (fun latest => { latest with status := status }) held rfl rfl rfl⟩
  cases p with
  | orderSubmitted | fillReceived | positionChanged | tradeClosed => exact absurd hp id
  | orderRejected ref => exact hterminal ref .rejected
  | orderCancelled ref => exact hterminal ref .cancelled
  | orderExpired ref => exact hterminal ref .expired
  | orderUnknown ref =>
    exact restoreStatus_touched ref hk fun order held =>
      ⟨rfl, touched_setOrder (fun latest => { latest with status := .unknown }) held rfl rfl rfl⟩
  | orderAcked ref boid status =>
    refine restoreStatus_touched ref hk fun order held => ?_
    unfold restoreAcked
    dsimp only
    split
    · exact ⟨rfl, touched_setOrder (fun latest =>
        { latest with brokerOrderId := some boid, status := status }) held rfl rfl rfl⟩
    · split
      · exact ⟨rfl, touched_setOrder (fun latest =>
          { latest with brokerOrderId := some boid }) held rfl rfl rfl⟩
      · exact ⟨rfl, .same rfl⟩
  | reconciliationResult | alert | riskDecision | dailyRiskStateRolled | limitBreached
  | killSwitchChanged => exact ⟨false, r, rfl, rfl, .same rfl⟩

/-- A new fill is restored into the book as it was applied. -/
theorem restoreEvent_fill {fill : Fill} {status : OrderStatus} {filledQty : ℤ} {avgPrice : ℚ}
    (hk : r.Keyed) (hfresh : r.book.Fresh (r.application fill)) :
    ∃ r', restoreEvent (.fillReceived fill status filledQty avgPrice) r = .ok true r' ∧
      r'.book = r.book.record (r.application fill) ∧ Touched r r' := by
  have hbook : fill.bookId = r.bookId := by
    have := hfresh.1
    rwa [application_fill] at this
  cases h : r.orders.get? fill.clientOrderId with
  | none =>
    rw [application_of_none h] at hfresh ⊢
    have happly : applyToBook fill .cnc "unknown" "" r = _ :=
      applyToBook_fresh (a := .unheld fill) hfresh
    refine ⟨{ r with book := r.book.record (.unheld fill) }, ?_, rfl, .same rfl⟩
    simp only [restoreEvent, Effect.run_bind, Effect.run_get, hbook, ne_eq, not_true_eq_false,
      if_false, restoreFill, h, happly]
    rfl
  | some order =>
    rw [application_of_get h] at hfresh ⊢
    have hid : order.clientOrderId = fill.clientOrderId := hk _ _ h
    have happly : applyToBook fill order.intent.product order.intent.strategy
        order.intent.reason.value r = _ := applyToBook_fresh (a := order.application fill) hfresh
    have hheld : OMS.latest { r with book := r.book.record (order.application fill) } order =
        order := latest_of_get (by rw [hid, h])
    refine ⟨OMS.setOrder order (fun latest =>
        { latest with
          filledQty := filledQty, avgFillPrice := some avgPrice, status := status
          brokerOrderId := brokerIdAfter order fill })
        { r with book := r.book.record (order.application fill) }, ?_, rfl, ?_⟩
    · simp only [restoreEvent, Effect.run_bind, Effect.run_get, hbook, ne_eq, not_true_eq_false,
        if_false, restoreFill, h, happly, Effect.run_modify]
      rfl
    · refine touched_setOrder (fun latest =>
        { latest with
          filledQty := filledQty, avgFillPrice := some avgPrice, status := status
          brokerOrderId := brokerIdAfter order fill }) (by rw [hid, h]) rfl rfl ?_
      rw [setOrder_orders, setOrder_orders, hheld, latest_of_get (by rw [hid, h])]

/-! ## The OMS rebuilt so far -/

/-- A rebuilt OMS has the same book and knows the same intents. -/
structure Rebuilt (o r : OMS) : Prop where
  keyed : r.Keyed
  book : r.book = o.book
  intents : ∀ coid, (r.orders.get? coid).map Order.intent = (o.orders.get? coid).map Order.intent

namespace Rebuilt

variable {r' : OMS}

theorem init (book : PositionBook) : Rebuilt (OMS.init book) (OMS.init book) where
  keyed := keyed_init book
  book := rfl
  intents _ := rfl

/-- Both sides keep their intents. -/
theorem touched (h : Rebuilt o r) (ho : Touched o o') (hr : Touched r r')
    (hbook : r'.book = o'.book) : Rebuilt o' r' where
  keyed := hr.keyed h.keyed
  book := hbook
  intents coid := by rw [hr.intents, ho.intents, h.intents]

theorem application (h : Rebuilt o r) (fill : Fill) : r.application fill = o.application fill :=
  application_congr (h.intents _)

/-- Quiet events rebuild the OMS they left as it was. -/
theorem quiet (h : Rebuilt o r) {ps : List EventPayload} (hquiet : ∀ p ∈ ps, p.Unbooked) :
    ∃ r', Replays r ps r' ∧ Rebuilt o r' := by
  induction ps generalizing r with
  | nil => exact ⟨r, .nil r, h⟩
  | cons p rest ih =>
    obtain ⟨c, r₁, hrun, hbook, htouched⟩ :=
      restoreEvent_unbooked h.keyed (hquiet p List.mem_cons_self)
    have h₁ : Rebuilt o r₁ := h.touched (.same rfl) htouched (hbook.trans h.book)
    obtain ⟨r', hmore, h'⟩ := ih h₁ fun q hq => hquiet q (List.mem_cons_of_mem _ hq)
    exact ⟨r', .cons hrun hmore, h'⟩

/-- A registered order of this book is rebuilt. -/
theorem registered (h : Rebuilt o r) {order : Order} (hours : order.intent.bookId = o.bookId)
    (horders : o'.orders = o.orders.set order.clientOrderId order) (hbook : o'.book = o.book) :
    ∃ r', Replays r [.orderSubmitted order] r' ∧ Rebuilt o' r' := by
  have hbookId : order.intent.bookId = r.bookId := by
    rw [hours, bookId, bookId, h.book]
  refine ⟨{ r with orders := r.orders.set order.clientOrderId order }, .single (c := true) ?_,
    keyed_set h.keyed rfl rfl, h.book.trans hbook.symm, fun coid => ?_⟩
  · simp only [restoreEvent, Effect.run_bind, Effect.run_get, hbookId, ne_eq,
      not_true_eq_false, if_false]
    rfl
  · rw [horders, Dict.get?_set, Dict.get?_set]
    split
    · rfl
    · exact h.intents coid

/-- A fill and what is told of it rebuild the book it was recorded in. -/
theorem filled (h : Rebuilt o r) {fill : Fill} {status : OrderStatus} {filledQty : ℤ}
    {avgPrice : ℚ} (hfresh : o.book.Fresh (o.application fill)) (htouched : Touched o o')
    (hbook : o'.book = o.book.record (o.application fill)) :
    ∃ r', Replays r (.fillReceived fill status filledQty avgPrice :: o.derived fill) r' ∧
      Rebuilt o' r' := by
  have hfresh' : r.book.Fresh (r.application fill) := by
    rw [h.application, h.book]
    exact hfresh
  obtain ⟨r', hrun, hrecorded, htouched'⟩ := restoreEvent_fill h.keyed hfresh'
  refine ⟨r', .cons hrun (.asides r' ?_), h.touched htouched htouched' ?_⟩
  · intro p hp
    rcases List.mem_cons.mp hp with rfl | hp
    · trivial
    · obtain ⟨t, -, rfl⟩ := List.mem_map.mp hp
      trivial
  · rw [hrecorded, h.application, h.book, hbook]

end Rebuilt

/-! ## Cuts of a run's log -/

/-- The order a step registers is of this book, as `_submit` checks first. -/
def OwnStep (o : OMS) : Cause → Prop
  | .registered order => order.intent.bookId = o.bookId
  | _ => True

/-- A run as `ReportedRun`, submitting to this book only. -/
def OwnRun (config : OmsConfig) : OMS → OMS → Prop :=
  Relation.ReflTransGen fun o o' => ∃ cause, Lifecycle config cause o o' ∧ o.ReportsStep cause ∧
    o.OwnStep cause

/-- The OMS a restart goes on with: restored, its log the events that were left. -/
def withLog (r : OMS) (ps : List EventPayload) : OMS := { r with sink := ps.map .event }

/-- From where a run stands, every clean cut of its log restores to an OMS the tables show. -/
structure Recovers (start o : OMS) : Prop where
  shown : Shown o
  rebuilt : ∃ r, Replays start (events o.sink) r ∧ Rebuilt o r
  cuts : ∀ ps, CleanCut ps (events o.sink) → ∃ r, Replays start ps r ∧ Shown (r.withLog ps)

/-- A rebuilt OMS is shown where the log says nothing more of the tables. -/
theorem Shown.rebuilt (h : Shown o) (hr : Rebuilt o r) {ps es : List EventPayload}
    (hps : ps = events o.sink ++ es) (hquiet : ∀ p ∈ es, p.Untabled) : Shown (r.withLog ps) := by
  refine h.quiet hquiet hr.keyed hr.book ?_
  rw [← hps]
  exact (events_map ps id).trans (List.map_id ps)

namespace Recovers

variable {start : OMS}

theorem init (bookId : String) (cash : ℚ) :
    Recovers (OMS.init (.init bookId cash)) (OMS.init (.init bookId cash)) where
  shown := .init bookId cash
  rebuilt := ⟨_, .nil _, .init _⟩
  cuts ps hcut := by
    obtain rfl : ps = [] := List.prefix_nil.mp hcut.cut
    exact ⟨_, .nil _, .init bookId cash⟩

/-- What the log grows by, cut anywhere clean. -/
theorem grown (h : Recovers start o) (hshown : Shown o') {es : List EventPayload}
    (hlogged : events o'.sink = events o.sink ++ es)
    (hwhole : ∀ r, Rebuilt o r → ∃ r', Replays r es r' ∧ Rebuilt o' r')
    (hcut : ∀ r q, Rebuilt o r → CleanCut q es → q ≠ es →
      (∀ p ∈ q, p.Untabled) ∧ ∃ r', Replays r q r' ∧ Rebuilt o r') : Recovers start o' := by
  obtain ⟨r, hreplays, hr⟩ := h.rebuilt
  obtain ⟨r', hmore, hr'⟩ := hwhole r hr
  have hall : Replays start (events o'.sink) r' := hlogged ▸ hreplays.append hmore
  refine ⟨hshown, ⟨r', hall, hr'⟩, fun ps hps => ?_⟩
  rw [hlogged] at hps
  rcases prefix_append_cases hps.cut with hold | ⟨q, hq, rfl⟩
  · exact h.cuts ps (hps.shorten hold)
  · by_cases hfull : q = es
    · rw [hfull, ← hlogged]
      exact ⟨r', hall, hshown.rebuilt hr' (List.append_nil _).symm (List.forall_mem_nil _)⟩
    · have hclean : CleanCut q es := ⟨hq, fun p rest hes => hps.clean p rest (by
        rw [hes, List.append_assoc])⟩
      obtain ⟨hquiet, r₁, hpart, hr₁⟩ := hcut r q hr hclean hfull
      exact ⟨r₁, hreplays.append hpart, h.shown.rebuilt hr₁ rfl hquiet⟩

/-- **The step lemma.** -/
theorem step {config : OmsConfig} {cause : Cause} (h : Recovers start o)
    (step : Lifecycle config cause o o') (hreports : o.ReportsStep cause)
    (hown : o.OwnStep cause) : Recovers start o' := by
  have hshown := h.shown.step step hreports
  cases step.booking h.shown.keyed with
  | registered orders book logged =>
    refine h.grown hshown logged (fun r hr => hr.registered hown orders book) ?_
    intro r q hr hq hne
    rcases List.prefix_cons_iff.mp hq.cut with rfl | ⟨rest, rfl, hrest⟩
    · exact ⟨List.forall_mem_nil _, r, .nil r, hr⟩
    · rw [List.prefix_nil.mp hrest] at hne
      exact absurd rfl hne
  -- these events book nothing, so a log that ends among them loses nothing
  | told es quiet touched book logged =>
    refine h.grown hshown logged (fun r hr => ?_) ?_
    · obtain ⟨r', hreplays, hr'⟩ := hr.quiet quiet
      exact ⟨r', hreplays, hr'.touched touched (.same rfl) (hr'.book.trans book.symm)⟩
    · intro r q hr hq _
      have hquiet : ∀ p ∈ q, p.Unbooked := fun p hp => quiet p (hq.cut.subset hp)
      exact ⟨fun p hp => (hquiet p hp).untabled, hr.quiet hquiet⟩
  | @filled fill _ es status filledQty avgPrice fresh quiet touched book logged =>
    rw [List.append_assoc] at logged
    refine h.grown hshown logged (fun r hr => ?_) ?_
    · obtain ⟨r₁, hbefore, hr₁⟩ := hr.quiet quiet
      obtain ⟨r', hfill, hr'⟩ := hr₁.filled fresh touched book
      exact ⟨r', hbefore.append hfill, hr'⟩
    · intro r q hr hq hne
      rcases prefix_append_cases hq.cut with hbefore | ⟨told, htold, rfl⟩
      · -- the log ends before the fill
        have hquiet : ∀ p ∈ q, p.Unbooked := fun p hp => quiet p (hbefore.subset hp)
        exact ⟨fun p hp => (hquiet p hp).untabled, hr.quiet hquiet⟩
      rcases List.prefix_cons_iff.mp htold with rfl | ⟨more, rfl, hmore⟩
      · rw [List.append_nil]
        exact ⟨fun p hp => (quiet p hp).untabled, hr.quiet quiet⟩
      · -- the fill is in the log, so what is told of it is too
        obtain ⟨left, hleft⟩ := hmore
        cases left with
        | nil =>
          rw [← hleft, List.append_nil] at hne
          exact absurd rfl hne
        | cons p rest =>
          have hp : p ∈ o.derived fill := by
            rw [← hleft]
            simp
          have hnot := hq.clean p rest (by rw [← hleft]; simp)
          rcases List.mem_cons.mp hp with rfl | hp
          · exact absurd rfl (hnot.1 _ _)
          · obtain ⟨t, -, rfl⟩ := List.mem_map.mp hp
            exact absurd rfl (hnot.2 t)

theorem run {config : OmsConfig} (h : Recovers start o) (run : OwnRun config o o') :
    Recovers start o' :=
  Effect.invariant (fun _ _ ⟨_, hstep, hreports, hown⟩ h => h.step hstep hreports hown) run h

end Recovers

/-- **Log-prefix consistency.** A run whose fills are told in full, and whose log a crash
cuts between no fill and what is told of it: `restore` takes what is left, and from there on
the tables show the book after any such run. -/
theorem crash_recovered (config : OmsConfig) (bookId : String) (cash : ℚ) (o : OMS)
    (run : OwnRun config (init (.init bookId cash)) o) (ps : List EventPayload)
    (hcut : CleanCut ps (events o.sink)) :
    ∃ n r, restore ps (init (.init bookId cash)) = .ok n r ∧
      ∀ o', ReportedRun config (r.withLog ps) o' → ∀ stored : List StoredEvent,
        stored.map StoredEvent.payload = events o'.sink →
        (∀ instrumentKey product, PositionsProjector.quantity
          (PositionsProjector.project .empty stored) o'.bookId instrumentKey product =
            o'.book.quantity instrumentKey product) ∧
        TradesProjector.total (TradesProjector.project .empty stored) = o'.book.realizedPnl := by
  obtain ⟨r, hreplays, hshown⟩ := ((Recovers.init bookId cash).run run).cuts ps hcut
  obtain ⟨n, hrun⟩ := hreplays.run 0
  refine ⟨n, r, ?_, fun o' more stored hstored => ?_⟩
  · have hfresh : ¬((init (.init bookId cash)).orders.keys ≠ [] ∨
        (init (.init bookId cash)).book.books.keys ≠ []) := by
      simp [init, PositionBook.init, Dict.keys, Dict.empty]
    simp only [restore, Effect.run_bind, Effect.run_get, if_neg hfresh]
    exact hrun
  · have htabled := (hshown.run more).tabled stored hstored
    exact ⟨htabled.quantity, htabled.total⟩

end OMS

/-! ## A cut between a fill and its position -/

namespace Sample

theorem sold_ownRun : OMS.OwnRun config (OMS.init book) sold := by
  have registered : OMS.OwnRun config (OMS.init book) ((OMS.init book).register order) :=
    .single ⟨_, .registered rfl, trivial, rfl⟩
  have held := registered.tail ⟨_, .filled (fill 1 10 ten_pos), fun _ => .inl (.inl rfl), trivial⟩
  have fresh : heldTen.orders.get? sellOrder.clientOrderId = none := by decide +kernel
  have reports : (heldTen.register sellOrder).Reports (soldFill "I2") := by decide +kernel
  exact (held.tail ⟨_, .registered fresh, trivial, rfl⟩).tail ⟨_, .filled (soldFill "I2"),
    fun _ => reports, trivial⟩

/-- The log up to the fill that sells, without its position and its trade. -/
def cutLog : List EventPayload := (events sold.sink).take 5

/-- The log up to the order that sells. -/
def openLog : List EventPayload := (events sold.sink).take 4

/-- What `restore` makes of it. -/
def reopened : OMS := (OMS.restore openLog (OMS.init book)).state

/-- The fill comes to the restored OMS. -/
def soldAfter : OMS := (OMS.onFill (soldFill "I2") (reopened.withLog openLog)).state

theorem cutLog_tables :
    PositionsProjector.quantity (PositionsProjector.project .empty (StoredEvent.number "" cutLog))
        "main" infy.key .cnc = 10 ∧
      (OMS.restore cutLog (OMS.init book)).state.book.quantity infy.key .cnc = 0 ∧
      TradesProjector.total (TradesProjector.project .empty (StoredEvent.number "" cutLog)) = 0 ∧
      (OMS.restore cutLog (OMS.init book)).state.book.realizedPnl = 98 := by
  decide +kernel

end Sample

namespace OMS

/-- A crash between a fill and its position: the restored book is flat and has realized 98,
the tables show ten shares and no trade. -/
theorem cut_fill_not_shown :
    ¬ ∀ (config : OmsConfig) (bookId : String) (cash : ℚ) (o : OMS) (ps : List EventPayload),
      Run config (init (.init bookId cash)) o → ps <+: events o.sink →
      ∀ stored : List StoredEvent, stored.map StoredEvent.payload = ps →
        (∀ instrumentKey product, PositionsProjector.quantity
          (PositionsProjector.project .empty stored) bookId instrumentKey product =
            (restore ps (init (.init bookId cash))).state.book.quantity instrumentKey product) ∧
        TradesProjector.total (TradesProjector.project .empty stored) =
          (restore ps (init (.init bookId cash))).state.book.realizedPnl := by
  intro h
  have hrun : Run Sample.config (init (.init "main" 100000)) Sample.sold :=
    Sample.sold_ownRun.lift id fun _ _ ⟨cause, step, _⟩ => ⟨cause, step⟩
  have hsame := (h _ _ _ _ Sample.cutLog hrun (List.take_prefix _ _)
    (StoredEvent.number "" Sample.cutLog) (StoredEvent.number_payload _ _)).1 Sample.infy.key .cnc
  obtain ⟨hshown, hheld, -, -⟩ := Sample.cutLog_tables
  rw [hshown] at hsame
  exact absurd (hsame.trans hheld) (by norm_num)

/-- The log is cut before the fill that sells, and that fill comes after `restore`. -/
theorem crash_recovered_sold :
    TradesProjector.total (TradesProjector.project .empty
        (StoredEvent.number "" (events Sample.soldAfter.sink))) = Sample.soldAfter.book.realizedPnl ∧
      Sample.soldAfter.book.realizedPnl = 98 ∧
      PositionsProjector.quantity (PositionsProjector.project .empty
        (StoredEvent.number "" (events Sample.soldAfter.sink))) "main" Sample.infy.key .cnc = 0 := by
  have hcut : CleanCut Sample.openLog (events Sample.sold.sink) := by
    refine ⟨List.take_prefix _ _, fun p rest hlog => ?_⟩
    have hnext : Sample.openLog.length = 4 ∧ ∀ q ∈ (events Sample.sold.sink)[4]?, q.Untabled := by
      decide +kernel
    rw [hlog, List.getElem?_append_right hnext.1.le, hnext.1] at hnext
    exact hnext.2 p rfl
  obtain ⟨n, r, hrestore, hshows⟩ := crash_recovered Sample.config "main" 100000 Sample.sold
    Sample.sold_ownRun Sample.openLog hcut
  have hr : r = Sample.reopened := by
    have hstate := congrArg EStateM.Result.state hrestore
    exact hstate.symm
  subst hr
  have hreports : (Sample.reopened.withLog Sample.openLog).Reports (Sample.soldFill "I2") := by
    decide +kernel
  have hmore : ReportedRun Sample.config (Sample.reopened.withLog Sample.openLog)
      Sample.soldAfter :=
    .single ⟨_, .filled (Sample.soldFill "I2"), fun _ => hreports⟩
  obtain ⟨hquantity, htotal⟩ := hshows _ hmore _ (StoredEvent.number_payload _ _)
  have hended : Sample.soldAfter.book.realizedPnl = 98 ∧ Sample.soldAfter.bookId = "main" ∧
      Sample.soldAfter.book.quantity Sample.infy.key .cnc = 0 := by
    decide +kernel
  obtain ⟨hrealized, hbook, hflat⟩ := hended
  refine ⟨htotal, hrealized, ?_⟩
  have hshown := hquantity Sample.infy.key .cnc
  rw [hbook, hflat] at hshown
  exact hshown

end OMS

end RakshaQuant
