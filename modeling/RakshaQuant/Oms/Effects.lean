import RakshaQuant.Oms.Accounting
import RakshaQuant.Oms.Oms

/-! What each stretch of the OMS does, said once: which orders it rewrites, what
it does to the book and which events it appends. Later proofs use these and do
not open the definitions again. -/

namespace RakshaQuant

/-- The order table is keyed by the orders' own ids. -/
def OMS.Keyed (o : OMS) : Prop :=
  ∀ coid order, o.orders.get? coid = some order → order.clientOrderId = coid

/-- The order after a fill, up to its version. -/
def Order.afterFill (order : Order) (fill : Fill) (version : ℕ) : Order :=
  { order with
    filledQty := OMS.filledAfter order fill
    avgFillPrice := some (OMS.avgAfter order fill)
    brokerOrderId := OMS.brokerIdAfter order fill
    status := OMS.statusAfter order fill
    version := version }

/-- What a status update leaves of an order: its intent, and how much of it is filled. -/
def Order.extent (order : Order) : OrderIntent × ℤ × ℤ :=
  (order.intent, order.quantity, order.filledQty)

/-- The call of `apply` a fill of a known order makes. -/
def Order.application (order : Order) (fill : Fill) : Application :=
  ⟨fill, order.intent.product, order.intent.strategy, order.intent.reason.value⟩

/-- The call of `apply` a fill of an order the table does not hold makes. -/
def Application.unheld (fill : Fill) : Application := ⟨fill, .cnc, "unknown", ""⟩

namespace OMS

/-- The alert a fill of an order the table does not hold raises. -/
def unheldAlert (fill : Fill) : Alert :=
  ⟨"WARNING", "oms_unknown_fill", "fill " ++ fill.fillId ++ " for unknown order; applied"⟩

section helpers

variable (o : OMS) (order : Order) (change : Order → Order) (payload : EventPayload)

@[simp] theorem emit_orders : (o.emit payload).orders = o.orders := rfl

@[simp] theorem emit_book : (o.emit payload).book = o.book := rfl

@[simp] theorem emit_sink : (o.emit payload).sink = o.sink ++ [.event payload] := rfl

@[simp] theorem setOrder_book : (o.setOrder order change).book = o.book := rfl

@[simp] theorem setOrder_sink : (o.setOrder order change).sink = o.sink := rfl

@[simp] theorem setOrder_unknownChecks :
    (o.setOrder order change).unknownChecks = o.unknownChecks := rfl

theorem latest_of_get {o : OMS} {order known : Order}
    (h : o.orders.get? order.clientOrderId = some known) : o.latest order = known := by
  simp [latest, h]

theorem setOrder_orders :
    (o.setOrder order change).orders = o.orders.set order.clientOrderId
      { change (o.latest order) with version := (o.latest order).version + 1 } := rfl

theorem advance_book (status : OrderStatus) (force : Bool) :
    (o.advance order status force).book = o.book := by
  unfold advance
  split <;> rfl

theorem advance_sink (status : OrderStatus) (force : Bool) :
    (o.advance order status force).sink = o.sink := by
  unfold advance
  split <;> rfl

theorem advance_unknownChecks (status : OrderStatus) (force : Bool) :
    (o.advance order status force).unknownChecks = o.unknownChecks := by
  unfold advance
  split <;> rfl

@[simp] theorem popCheck_orders (coid : String) : (o.popCheck coid).orders = o.orders := rfl

@[simp] theorem popCheck_book (coid : String) : (o.popCheck coid).book = o.book := rfl

@[simp] theorem popCheck_sink (coid : String) : (o.popCheck coid).sink = o.sink := rfl

end helpers

theorem keyed_set {o o' : OMS} (hk : o.Keyed) {k : String} {changed : Order}
    (hset : o'.orders = o.orders.set k changed) (hid : changed.clientOrderId = k) : o'.Keyed := by
  intro coid order h
  rw [hset, Dict.get?_set] at h
  split at h
  · rename_i hc
    rw [Option.some.injEq] at h
    rw [← h, hid, hc]
  · exact hk coid order h

theorem keyed_of_eq {o o' : OMS} (hk : o.Keyed) (heq : o'.orders = o.orders) : o'.Keyed := by
  intro coid order h
  exact hk coid order (heq ▸ h)

/-- A status the order already has, or one `_NEXT` refuses, changes nothing;
otherwise the order gets the status. -/
theorem advance_orders {o : OMS} {order known : Order} {status : OrderStatus} {force : Bool}
    (h : o.orders.get? order.clientOrderId = some known) :
    (o.advance order status force).orders =
      if advances order.status status force then
        o.orders.set order.clientOrderId
          { known with status := status, version := known.version + 1 }
      else o.orders := by
  unfold advance
  split
  · rw [setOrder_orders, latest_of_get h]
  · rfl

theorem next_of_terminal {s : OrderStatus} (h : s.isTerminal = true) : next s = [] := by
  cases s <;> simp_all [OrderStatus.isTerminal, next]

theorem advances_terminal {current status : OrderStatus} (h : current.isTerminal = true) :
    advances current status false = false := by
  simp [advances, next_of_terminal h]

theorem mem_next_of_advances {current status : OrderStatus}
    (h : advances current status false = true) : status ∈ next current := by
  simp only [advances, Bool.and_eq_true, Bool.false_or, decide_eq_true_eq] at h
  exact h.2

/-! ## Submission -/

theorem register_orders (order : Order) (o : OMS) :
    (o.register order).orders = o.orders.set order.clientOrderId order := rfl

theorem register_book (order : Order) (o : OMS) : (o.register order).book = o.book := rfl

theorem register_sink (order : Order) (o : OMS) :
    (o.register order).sink = o.sink ++ [.event (.orderSubmitted order)] := rfl

/-- A failed placement rewrites only the status of the order it was for. -/
theorem placeFailed_spec {o : OMS} {order known : Order} (exc : Exc)
    (h : o.orders.get? order.clientOrderId = some known) :
    ∃ status event,
      ((status = .unknown ∧ exc.notPlacedReason = none ∧ ∃ e, event = .orderUnknown (ref order) e) ∨
        (status = .rejected ∧ exc.notPlacedReason ≠ none ∧
          ∃ r m, event = .orderRejected (ref order) r m)) ∧
      (o.placeFailed order exc).orders = o.orders.set order.clientOrderId
        { known with status := status, version := known.version + 1 } ∧
      (o.placeFailed order exc).book = o.book ∧
      (o.placeFailed order exc).sink = o.sink ++ [.event event] := by
  unfold placeFailed
  cases hr : exc.notPlacedReason with
  | none =>
    refine ⟨.unknown, _, .inl ⟨rfl, rfl, _, rfl⟩, ?_, rfl, rfl⟩
    simp only [markUnknown, emit_orders, setOrder_orders, latest_of_get h]
  | some reason =>
    refine ⟨.rejected, _, .inr ⟨rfl, by simp, _, _, rfl⟩, ?_, rfl, rfl⟩
    simp only [emit_orders, setOrder_orders, latest_of_get h]

/-! ## Updates -/

/-- An update for an order the table does not hold leaves orders and book alone. -/
theorem onUpdate_unknown {o : OMS} {snap : BrokerOrderSnapshot}
    (h : o.orders.get? snap.clientOrderId = none) :
    ∃ a, o.onUpdate snap = o.emit (.alert a) := by
  rw [onUpdate, h]
  exact ⟨_, rfl⟩

/-- An update never touches the book. It notes the broker's id where there was
none; a status `_NEXT` allows is taken over and recorded; anything else, and
every fill status, is ignored. -/
theorem onUpdate_known {o : OMS} {snap : BrokerOrderSnapshot} {order : Order} (hk : o.Keyed)
    (h : o.orders.get? snap.clientOrderId = some order) :
    (o.onUpdate snap).book = o.book ∧
    ((snap.status ≠ .filled ∧ snap.status ≠ .partiallyFilled ∧
        advances order.status snap.status false = true ∧
        ∃ version, (o.onUpdate snap).orders = o.orders.set snap.clientOrderId
          { order with
            brokerOrderId := some (order.brokerOrderId.getD snap.brokerOrderId)
            status := snap.status
            version := version } ∧
        (o.onUpdate snap).sink = o.sink ++ [.event (updateEvent order snap)]) ∨
      (¬(snap.status ≠ .filled ∧ snap.status ≠ .partiallyFilled ∧
          advances order.status snap.status false = true) ∧
        (o.onUpdate snap).sink = o.sink ∧
        ((order.brokerOrderId ≠ none ∧ (o.onUpdate snap).orders = o.orders) ∨
          (order.brokerOrderId = none ∧
            (o.onUpdate snap).orders = o.orders.set snap.clientOrderId
              { order with
                brokerOrderId := some snap.brokerOrderId
                version := order.version + 1 })))) := by
  have hid : order.clientOrderId = snap.clientOrderId := hk _ _ h
  have hget : o.orders.get? order.clientOrderId = some order := hid ▸ h
  unfold onUpdate
  simp only [h]
  by_cases hb : order.brokerOrderId = none
  · -- the broker's id is noted first
    have hset : (o.setOrder order fun latest =>
        { latest with brokerOrderId := some snap.brokerOrderId }).orders =
          o.orders.set snap.clientOrderId
            { order with
              brokerOrderId := some snap.brokerOrderId, version := order.version + 1 } := by
      rw [setOrder_orders, latest_of_get hget, hid]
    rw [if_pos hb]
    by_cases hf : snap.status = .filled ∨ snap.status = .partiallyFilled
    · rw [if_pos hf]
      refine ⟨rfl, .inr ⟨fun hc => ?_, rfl, .inr ⟨hb, hset⟩⟩⟩
      rcases hf with hf | hf
      · exact hc.1 hf
      · exact hc.2.1 hf
    · rw [if_neg hf]
      obtain ⟨hf1, hf2⟩ := not_or.mp hf
      by_cases ha : advances order.status snap.status false = true
      · rw [if_pos ha]
        refine ⟨?_, .inl ⟨hf1, hf2, ha, order.version + 2, ?_, ?_⟩⟩
        · rw [emit_book, advance_book]
          rfl
        · rw [emit_orders, advance_orders (by rw [hset, hid, Dict.get?_set_self] : _ =
            some { order with
              brokerOrderId := some snap.brokerOrderId, version := order.version + 1 }),
            if_pos ha, hset, hid, Dict.set_set]
          simp [hb]
        · rw [emit_sink, advance_sink]
          rfl
      · rw [if_neg ha]
        exact ⟨rfl, .inr ⟨fun hc => ha hc.2.2, rfl, .inr ⟨hb, hset⟩⟩⟩
  -- the id is known: nothing is noted, the rest is as before
  · rw [if_neg hb]
    by_cases hf : snap.status = .filled ∨ snap.status = .partiallyFilled
    · rw [if_pos hf]
      refine ⟨rfl, .inr ⟨fun hc => ?_, rfl, .inl ⟨hb, rfl⟩⟩⟩
      rcases hf with hf | hf
      · exact hc.1 hf
      · exact hc.2.1 hf
    · rw [if_neg hf]
      obtain ⟨hf1, hf2⟩ := not_or.mp hf
      by_cases ha : advances order.status snap.status false = true
      · rw [if_pos ha]
        obtain ⟨boid, hboid⟩ := Option.ne_none_iff_exists'.mp hb
        refine ⟨?_, .inl ⟨hf1, hf2, ha, order.version + 1, ?_, ?_⟩⟩
        · rw [emit_book, advance_book]
        · rw [emit_orders, advance_orders hget, if_pos ha, hid]
          simp [hboid]
        · rw [emit_sink, advance_sink]
      · rw [if_neg ha]
        exact ⟨rfl, .inr ⟨fun hc => ha hc.2.2, rfl, .inl ⟨hb, rfl⟩⟩⟩

/-- No update touches the book. -/
theorem onUpdate_book {o : OMS} (snap : BrokerOrderSnapshot) (hk : o.Keyed) :
    (o.onUpdate snap).book = o.book := by
  cases hs : o.orders.get? snap.clientOrderId with
  | none =>
    obtain ⟨a, heq⟩ := onUpdate_unknown hs
    rw [heq, emit_book]
  | some order => exact (onUpdate_known hk hs).1

/-! ## Fills -/

theorem fillOrder_book (order : Order) (fill : Fill) (o : OMS) :
    (o.fillOrder order fill).book = o.book := by
  unfold fillOrder
  rw [advance_book, setOrder_book]
  split <;> rfl

theorem fillOrder_unknownChecks (order : Order) (fill : Fill) (o : OMS) :
    (o.fillOrder order fill).unknownChecks = o.unknownChecks := by
  unfold fillOrder
  rw [advance_unknownChecks, setOrder_unknownChecks]
  split <;> rfl

/-- Recording a fill on its order may raise one alert and emits nothing else. -/
theorem fillOrder_sink (order : Order) (fill : Fill) (o : OMS) :
    ∃ as : List Alert, (o.fillOrder order fill).sink = o.sink ++ as.map (.event ∘ .alert) := by
  unfold fillOrder
  rw [advance_sink, setOrder_sink]
  split
  · exact ⟨[⟨_, _, _⟩], rfl⟩
  · exact ⟨[], by simp⟩

/-- A forced move always ends at the new status. -/
theorem advances_forced {current status : OrderStatus}
    (h : advances current status true = false) : current = status := by
  simp only [advances, Bool.true_or, Bool.and_true, Bool.not_eq_false', decide_eq_true_eq] at h
  exact h.1.symm

theorem fillOrder_orders {o : OMS} {order : Order} (fill : Fill)
    (h : o.orders.get? order.clientOrderId = some order) :
    ∃ version, (o.fillOrder order fill).orders =
      o.orders.set order.clientOrderId (order.afterFill fill version) := by
  unfold fillOrder
  generalize hw : (if order.quantity < order.filledQty + fill.quantity then
    o.alert "WARNING" "oms_overfill" (fill.fillId ++ " overfills " ++ order.clientOrderId)
    else o) = w
  have hworders : w.orders = o.orders := by
    rw [← hw]
    split <;> rfl
  have hlatest : w.latest order = order := latest_of_get (hworders ▸ h)
  set filled : Order :=
    { order with
      filledQty := filledAfter order fill
      avgFillPrice := some (avgAfter order fill)
      brokerOrderId := brokerIdAfter order fill
      version := order.version + 1 } with hfilled
  have hset : (w.setOrder order fun latest =>
      { latest with
        filledQty := filledAfter order fill
        avgFillPrice := some (avgAfter order fill)
        brokerOrderId := brokerIdAfter order fill }).orders =
        o.orders.set order.clientOrderId filled := by
    rw [setOrder_orders, hlatest, hworders]
  have hgot : (w.setOrder order fun latest =>
      { latest with
        filledQty := filledAfter order fill
        avgFillPrice := some (avgAfter order fill)
        brokerOrderId := brokerIdAfter order fill }).latest order = filled := by
    apply latest_of_get
    rw [hset, Dict.get?_set_self]
  simp only [hgot]
  rw [advance_orders (by rw [hset]; exact Dict.get?_set_self _ _ _ : _ = some filled), hset]
  by_cases ha : advances filled.status (statusAfter order fill) true = true
  · refine ⟨order.version + 2, ?_⟩
    rw [if_pos ha, hfilled, Dict.set_set]
    rfl
  · refine ⟨order.version + 1, ?_⟩
    have hstatus : order.status = statusAfter order fill :=
      advances_forced (by simpa using ha)
    rw [if_neg ha, hfilled, Order.afterFill, ← hstatus]

/-- The trades of the closed pieces, up to the first that does not validate. -/
def reportedTrades (bookId : String) : List ClosedPiece → List TradeClosed
  | [] => []
  | p :: rest =>
    match tradeClosed bookId p with
    | .error _ => []
    | .ok trade => trade :: reportedTrades bookId rest

/-- Emitting the closed pieces appends their trades and changes nothing else. -/
theorem emitTrades_spec (ps : List ClosedPiece) (o : OMS) : (emitTrades ps o).state =
    { o with sink := o.sink ++ (reportedTrades o.bookId ps).map (.event ∘ .tradeClosed) } := by
  induction ps generalizing o with
  | nil => simp [emitTrades, reportedTrades]
  | cons p rest ih =>
    rw [emitTrades, Effect.run_bind_ok (Effect.run_get o), reportedTrades]
    cases tradeClosed o.bookId p with
    | error e => simp
    | ok trade =>
      have hbook : (o.emit (.tradeClosed trade)).bookId = o.bookId := rfl
      simp only [Effect.run_bind_ok (Effect.run_modify _ _), ih, hbook]
      simp [emit]

/-- Emitting pieces that all validate does not raise. -/
theorem emitTrades_ok {ps : List ClosedPiece} (o : OMS)
    (hvalid : ∀ p ∈ ps, ∃ trade, tradeClosed o.bookId p = .ok trade) :
    ∃ o', emitTrades ps o = .ok ⟨⟩ o' := by
  induction ps generalizing o with
  | nil => exact ⟨o, rfl⟩
  | cons p rest ih =>
    obtain ⟨trade, htrade⟩ := hvalid p List.mem_cons_self
    obtain ⟨o', ho'⟩ := ih (o.emit (.tradeClosed trade))
      fun q hq => hvalid q (List.mem_cons_of_mem _ hq)
    refine ⟨o', ?_⟩
    rw [emitTrades, Effect.run_bind_ok (Effect.run_get o)]
    simp only [htrade]
    rw [Effect.run_bind_ok (Effect.run_modify _ _), ho']

/-- A fill already applied changes nothing. -/
theorem onFill_seen {o : OMS} {fill : Fill} (h : fill.fillId ∈ o.book.seen) :
    onFill fill o = .ok none o := by
  simp [onFill, Effect.run_bind, PositionBook.hasSeen, h]

/-- Applying a new fill to the book records it there and changes nothing else. -/
theorem applyToBook_fresh {o : OMS} {a : Application} (h : o.book.Fresh a) :
    applyToBook a.fill a.product a.strategy a.exitReason o =
      .ok (o.book.outcome a) { o with book := o.book.record a } := by
  simp only [applyToBook, Effect.run_bind, Effect.run_get, PositionBook.apply_of_fresh h]
  rfl

/-- A new fill of a known order is recorded on the order, in the book and in the
log, and what is left of `_on_fill` is to emit the trades it closed. -/
theorem onFill_run {o : OMS} {fill : Fill} {order : Order}
    (hseen : fill.fillId ∉ o.book.seen) (hk : o.Keyed)
    (h : o.orders.get? fill.clientOrderId = some order) (hbook : fill.bookId = o.bookId) :
    ∃ version, ∃ as : List Alert, ∃ logged : OMS,
      logged = { o with
        orders := o.orders.set fill.clientOrderId (order.afterFill fill version)
        book := o.book.record (order.application fill)
        sink := o.sink ++ as.map (.event ∘ .alert) ++
          [.event (.fillReceived fill (statusAfter order fill) (filledAfter order fill)
            (avgAfter order fill)), .event (.positionChanged
              (o.book.outcome (order.application fill)).position (some fill.fillId))] } ∧
      onFill fill o = (do
        emitTrades (o.book.outcome (order.application fill)).closed
        return some (order.afterFill fill version) : EStateM Exc OMS (Option Order)) logged := by
  have hid : order.clientOrderId = fill.clientOrderId := hk _ _ h
  have hget : o.orders.get? order.clientOrderId = some order := hid ▸ h
  obtain ⟨version, horders⟩ := fillOrder_orders fill hget
  obtain ⟨as, hsink⟩ := fillOrder_sink order fill o
  have hfresh : (o.fillOrder order fill).book.Fresh (order.application fill) := by
    rw [fillOrder_book]
    exact ⟨hbook, hseen⟩
  have happly' : applyToBook fill order.intent.product order.intent.strategy
      order.intent.reason.value (o.fillOrder order fill) = _ := applyToBook_fresh hfresh
  rw [fillOrder_book] at happly'
  set o' : OMS :=
    { o.fillOrder order fill with book := o.book.record (order.application fill) } with ho'
  have hlatest : o'.latest order = order.afterFill fill version := by
    apply latest_of_get
    rw [ho']
    show (o.fillOrder order fill).orders.get? _ = _
    rw [horders, Dict.get?_set_self]
  have hs : o.book.hasSeen fill.fillId = false := by simp [PositionBook.hasSeen, hseen]
  refine ⟨version, as, (o'.emit (.fillReceived fill (statusAfter order fill)
    (filledAfter order fill) (avgAfter order fill))).emit (.positionChanged
      (o.book.outcome (order.application fill)).position (some fill.fillId)), ?_, ?_⟩
  · simp [emit, ho', horders, hid, hsink, fillOrder_unknownChecks]
  · simp only [onFill, Effect.run_bind, Effect.run_get, hs, Bool.false_eq_true, if_false, h,
      Effect.run_modify, happly', hlatest]
    rfl

/-- A new fill of a known order is recorded on the order, in the book and in the
log, and then its closed trades are emitted, as far as they validate. It raises
where a trade does not. -/
theorem onFill_known {o : OMS} {fill : Fill} {order : Order}
    (hseen : fill.fillId ∉ o.book.seen) (hk : o.Keyed)
    (h : o.orders.get? fill.clientOrderId = some order) (hbook : fill.bookId = o.bookId) :
    ∃ version, ∃ as : List Alert,
      (onFill fill o).state =
        { o with
          orders := o.orders.set fill.clientOrderId (order.afterFill fill version)
          book := o.book.record (order.application fill)
          sink := o.sink ++ as.map (.event ∘ .alert) ++
            [.event (.fillReceived fill (statusAfter order fill) (filledAfter order fill)
              (avgAfter order fill)), .event (.positionChanged
                (o.book.outcome (order.application fill)).position (some fill.fillId))] ++
            (reportedTrades o.bookId (o.book.outcome (order.application fill)).closed).map
              (.event ∘ .tradeClosed) } ∧
      ∀ r o', onFill fill o = .ok r o' → r = some (order.afterFill fill version) := by
  obtain ⟨version, as, logged, hlogged, hrun⟩ := onFill_run hseen hk h hbook
  refine ⟨version, as, ?_, ?_⟩
  · rw [hrun, Effect.state_bind_pure, emitTrades_spec, hlogged]
    rfl
  · intro r o'' hr
    rw [hrun, Effect.run_bind] at hr
    split at hr
    · cases hr
      rfl
    · cases hr

/-- It does not raise when every trade validates. -/
theorem onFill_ok {o : OMS} {fill : Fill} {order : Order}
    (hseen : fill.fillId ∉ o.book.seen) (hk : o.Keyed)
    (h : o.orders.get? fill.clientOrderId = some order) (hbook : fill.bookId = o.bookId)
    (hvalid : ∀ p ∈ (o.book.outcome (order.application fill)).closed,
      ∃ trade, tradeClosed o.bookId p = .ok trade) :
    ∃ r o', onFill fill o = .ok r o' := by
  obtain ⟨version, as, logged, hlogged, hrun⟩ := onFill_run hseen hk h hbook
  have hid : logged.bookId = o.bookId := by
    rw [hlogged]
    rfl
  obtain ⟨o', ho'⟩ := emitTrades_ok logged (hid ▸ hvalid)
  exact ⟨_, o', by rw [hrun, Effect.run_bind_ok ho', Effect.run_pure]⟩

/-- A fill of a known order but of another book raises after the order was
changed; the book stays. -/
theorem onFill_foreign {o : OMS} {fill : Fill} {order : Order}
    (hseen : fill.fillId ∉ o.book.seen) (h : o.orders.get? fill.clientOrderId = some order)
    (hbook : fill.bookId ≠ o.bookId) :
    ∃ e, onFill fill o = .error e (o.fillOrder order fill) := by
  have hs : o.book.hasSeen fill.fillId = false := by simp [PositionBook.hasSeen, hseen]
  have hb : fill.bookId ≠ (o.fillOrder order fill).book.bookId := by
    rw [fillOrder_book]
    exact hbook
  have happly : ∃ e, applyToBook fill order.intent.product order.intent.strategy
      order.intent.reason.value (o.fillOrder order fill) = .error e (o.fillOrder order fill) := by
    simp only [applyToBook, Effect.run_bind, Effect.run_get, PositionBook.apply, if_pos hb]
    exact ⟨_, rfl⟩
  obtain ⟨e, he⟩ := happly
  refine ⟨e, ?_⟩
  simp only [onFill, Effect.run_bind, Effect.run_get, hs, Bool.false_eq_true, if_false, h,
    Effect.run_modify, he]

/-- A new fill of an order the table does not hold is recorded in the book, for
delivery, and in the log; the trades it closes are not emitted. -/
theorem onFill_unheld {o : OMS} {fill : Fill} (hseen : fill.fillId ∉ o.book.seen)
    (h : o.orders.get? fill.clientOrderId = none) (hbook : fill.bookId = o.bookId) :
    onFill fill o = .ok none
      { o with
        book := o.book.record (.unheld fill)
        sink := o.sink ++ [.event (.alert (unheldAlert fill)),
          .event (.fillReceived fill .filled fill.quantity fill.price),
          .event (.positionChanged (o.book.outcome (.unheld fill)).position
            (some fill.fillId))] } := by
  have hs : o.book.hasSeen fill.fillId = false := by simp [PositionBook.hasSeen, hseen]
  have happly : applyToBook fill .cnc "unknown" "" (o.emit (.alert (unheldAlert fill))) = _ :=
    applyToBook_fresh (a := .unheld fill) ⟨hbook, hseen⟩
  unfold unheldAlert at happly ⊢
  simp only [onFill, Effect.run_bind, Effect.run_get, hs, Bool.false_eq_true, if_false, h,
    Effect.run_modify, alert, happly, Effect.run_pure]
  simp [emit]

/-- A fill of another book and of no order here raises after one alert. -/
theorem onFill_stray {o : OMS} {fill : Fill} (hseen : fill.fillId ∉ o.book.seen)
    (h : o.orders.get? fill.clientOrderId = none) (hbook : fill.bookId ≠ o.bookId) :
    ∃ e, onFill fill o = .error e (o.emit (.alert (unheldAlert fill))) := by
  have hs : o.book.hasSeen fill.fillId = false := by simp [PositionBook.hasSeen, hseen]
  have hb : fill.bookId ≠ (o.emit (.alert (unheldAlert fill))).book.bookId := hbook
  have happly : ∃ e, applyToBook fill .cnc "unknown" "" (o.emit (.alert (unheldAlert fill))) =
      .error e (o.emit (.alert (unheldAlert fill))) := by
    simp only [applyToBook, Effect.run_bind, Effect.run_get, PositionBook.apply, if_pos hb]
    exact ⟨_, rfl⟩
  obtain ⟨e, he⟩ := happly
  unfold unheldAlert at he ⊢
  refine ⟨e, ?_⟩
  simp only [onFill, Effect.run_bind, Effect.run_get, hs, Bool.false_eq_true, if_false, h,
    Effect.run_modify, alert, he]

/-- A fill of an order the table does not hold changes no order. -/
theorem onFill_unknown {o : OMS} {fill : Fill} (h : o.orders.get? fill.clientOrderId = none) :
    (onFill fill o).state.orders = o.orders ∧
      ∃ es : List EventPayload, (onFill fill o).state.sink = o.sink ++ es.map .event ∧
        ∀ order, EventPayload.orderSubmitted order ∉ es := by
  by_cases hseen : fill.fillId ∈ o.book.seen
  · rw [onFill_seen hseen]
    exact ⟨rfl, [], by simp, by simp⟩
  · by_cases hbook : fill.bookId = o.bookId
    · rw [onFill_unheld hseen h hbook]
      exact ⟨rfl, [.alert (unheldAlert fill), .fillReceived fill .filled fill.quantity fill.price,
        .positionChanged (o.book.outcome (.unheld fill)).position (some fill.fillId)], rfl, by simp⟩
    · obtain ⟨e, hrun⟩ := onFill_stray hseen h hbook
      rw [hrun]
      exact ⟨rfl, [.alert (unheldAlert fill)], rfl, by simp⟩

/-- A fill changes at most its own order, and that one only by recording it. -/
theorem onFill_orders {o : OMS} (fill : Fill) (hk : o.Keyed) :
    (onFill fill o).state.orders = o.orders ∨
      ∃ order version, fill.fillId ∉ o.book.seen ∧
        o.orders.get? fill.clientOrderId = some order ∧
        (onFill fill o).state.orders =
          o.orders.set fill.clientOrderId (order.afterFill fill version) := by
  by_cases hseen : fill.fillId ∈ o.book.seen
  · rw [onFill_seen hseen]
    exact .inl rfl
  · cases h : o.orders.get? fill.clientOrderId with
    | none => exact .inl (onFill_unknown h).1
    | some order =>
      by_cases hbook : fill.bookId = o.bookId
      · obtain ⟨version, as, hstate, -⟩ := onFill_known hseen hk h hbook
        exact .inr ⟨order, version, hseen, rfl, by rw [hstate]⟩
      · have hid : order.clientOrderId = fill.clientOrderId := hk _ _ h
        obtain ⟨e, he⟩ := onFill_foreign hseen h hbook
        obtain ⟨version, horders⟩ := fillOrder_orders fill (hid ▸ h)
        refine .inr ⟨order, version, hseen, rfl, ?_⟩
        rw [he, EStateM.Result.state_error, horders, hid]

/-! ## Acknowledgements and resolution -/

/-- The status an order ends at when it may only advance. -/
def advanced (current status : OrderStatus) : OrderStatus :=
  if advances current status false then status else current

/-- An acknowledgement counts only for an order no callback has moved. -/
theorem placed_orders {o : OMS} {order known : Order} (ack : BrokerAck)
    (hk : o.Keyed) (h : o.orders.get? order.clientOrderId = some known) :
    (o.placed order ack).orders = o.orders ∨
      (known.status = .submitted ∧ ∃ version, (o.placed order ack).orders =
        o.orders.set order.clientOrderId
          { known with
            brokerOrderId := some ack.brokerOrderId
            status := advanced known.status ack.status
            version := version }) := by
  have hid : known.clientOrderId = order.clientOrderId := hk _ _ h
  unfold placed
  rw [latest_of_get h]
  by_cases hs : known.status = .submitted
  · right
    rw [if_pos hs]
    refine ⟨hs, ?_⟩
    have hset : (o.setOrder known fun latest =>
        { latest with brokerOrderId := some ack.brokerOrderId }).orders =
        o.orders.set order.clientOrderId
          { known with
            brokerOrderId := some ack.brokerOrderId, version := known.version + 1 } := by
      rw [setOrder_orders, latest_of_get (hid ▸ h), hid]
    rw [emit_orders, advance_orders (by rw [hset, hid]; exact Dict.get?_set_self _ _ _ : _ =
      some { known with
        brokerOrderId := some ack.brokerOrderId, version := known.version + 1 }), hset]
    unfold advanced
    split
    · exact ⟨known.version + 2, by rw [hid, Dict.set_set]⟩
    · exact ⟨known.version + 1, rfl⟩
  · left
    rw [if_neg hs]

/-- An acknowledgement that comes after a callback changes nothing. -/
theorem placed_of_moved {o : OMS} {order known : Order} (ack : BrokerAck)
    (h : o.orders.get? order.clientOrderId = some known) (hs : known.status ≠ .submitted) :
    o.placed order ack = o := by
  unfold placed
  rw [latest_of_get h]
  exact if_neg hs

theorem placed_book (order : Order) (ack : BrokerAck) (o : OMS) :
    (o.placed order ack).book = o.book := by
  unfold placed
  dsimp only
  split
  · rw [emit_book, advance_book, setOrder_book]
  · rfl

theorem found_orders {o : OMS} {order known : Order} (snap : BrokerOrderSnapshot)
    (h : o.orders.get? order.clientOrderId = some known) :
    (o.found order snap).orders = o.orders.set order.clientOrderId
      { known with
        brokerOrderId := some snap.brokerOrderId, version := known.version + 1 } := by
  rw [found, setOrder_orders, latest_of_get h]

/-- A found order takes over the broker's status only where `_NEXT` allows it. -/
theorem resolved_orders {o : OMS} {order known : Order} (snap : BrokerOrderSnapshot)
    (hk : o.Keyed) (h : o.orders.get? order.clientOrderId = some known) :
    (o.resolved order snap).orders = o.orders ∨
      (snap.status ∈ next known.status ∧ ∃ version, (o.resolved order snap).orders =
        o.orders.set order.clientOrderId
          { known with status := snap.status, version := version }) := by
  have hid : known.clientOrderId = order.clientOrderId := hk _ _ h
  unfold resolved
  rw [latest_of_get h, popCheck_orders, emit_orders]
  split
  · rw [advance_orders (hid ▸ h)]
    split
    · rename_i ha
      exact .inr ⟨mem_next_of_advances ha, known.version + 1, by rw [hid]⟩
    · exact .inl rfl
  · exact .inl rfl

theorem resolved_sink (order : Order) (snap : BrokerOrderSnapshot) (o : OMS) :
    (o.resolved order snap).sink = o.sink ++ [.event (.orderAcked (ref order) snap.brokerOrderId
      ((o.resolved order snap).latest order).status)] := by
  unfold resolved
  dsimp only
  rw [popCheck_sink, emit_sink]
  split
  · rw [advance_sink]
    rfl
  · rfl

theorem resolved_book (order : Order) (snap : BrokerOrderSnapshot) (o : OMS) :
    (o.resolved order snap).book = o.book := by
  unfold resolved
  dsimp only
  rw [popCheck_book, emit_book]
  split
  · exact advance_book _ _ _ _
  · rfl

/-- An absent order is counted, or rejected whatever its status is by then. -/
theorem absent_orders (config : OmsConfig) (now : Instant) {o : OMS} {order known : Order}
    (h : o.orders.get? order.clientOrderId = some known) :
    ((o.absent config now order).orders = o.orders ∧ (o.absent config now order).sink = o.sink) ∨
      ∃ version reason message,
        (o.absent config now order).orders = o.orders.set order.clientOrderId
          { known with status := .rejected, version := version } ∧
        (o.absent config now order).sink =
          o.sink ++ [.event (.orderRejected (ref order) reason message)] := by
  unfold absent
  dsimp only
  split
  · right
    have hlatest : ∀ checks, OMS.latest { o with unknownChecks := checks } order = known :=
      fun _ => latest_of_get h
    refine ⟨known.version + 1, _, _, ?_, rfl⟩
    rw [popCheck_orders, emit_orders, setOrder_orders, hlatest]
  · exact .inl ⟨rfl, rfl⟩

theorem absent_book (config : OmsConfig) (now : Instant) (order : Order) (o : OMS) :
    (o.absent config now order).book = o.book := by
  unfold absent
  dsimp only
  split <;> rfl

theorem recordReconciliation_orders (diffs : List Diff) (o : OMS) :
    (o.recordReconciliation diffs).1.orders = o.orders := by
  unfold recordReconciliation
  dsimp only
  split <;> rfl

/-! ## Orders touched -/

/-- The table holds an order under this order's id. -/
def Holds (o : OMS) (order : Order) : Prop :=
  ∃ known, o.orders.get? order.clientOrderId = some known

/-- What registers nothing leaves the table alone, or rewrites one of its orders,
keeping its id and intent. -/
inductive Touched (o o' : OMS) : Prop
  | same (horders : o'.orders = o.orders)
  | one {k : String} {known changed : Order} (hk : o.orders.get? k = some known)
      (horders : o'.orders = o.orders.set k changed) (hid : changed.clientOrderId = k)
      (hi : changed.intent = known.intent)

theorem Touched.holds {o o' : OMS} (h : Touched o o') {order : Order} (hold : o.Holds order) :
    o'.Holds order := by
  obtain ⟨known, hknown⟩ := hold
  cases h with
  | same horders => exact ⟨known, by rw [horders, hknown]⟩
  | @one k _ changed _ horders =>
    by_cases hc : order.clientOrderId = k
    · exact ⟨changed, by rw [horders, hc, Dict.get?_set_self]⟩
    · exact ⟨known, by rw [horders, Dict.get?_set_ne _ _ hc, hknown]⟩

/-- No order goes, and none changes its intent. -/
theorem Touched.intent {o o' : OMS} (h : Touched o o') {coid : String} {order : Order}
    (ho : o.orders.get? coid = some order) :
    ∃ order', o'.orders.get? coid = some order' ∧ order'.intent = order.intent := by
  cases h with
  | same horders => exact ⟨order, by rw [horders, ho], rfl⟩
  | @one k known changed hk horders _ hi =>
    by_cases hc : coid = k
    · subst hc
      rw [hk, Option.some.injEq] at ho
      exact ⟨changed, by rw [horders, Dict.get?_set_self], by rw [hi, ho]⟩
    · exact ⟨order, by rw [horders, Dict.get?_set_ne _ _ hc, ho], rfl⟩

theorem Touched.keyed {o o' : OMS} (h : Touched o o') (hk : o.Keyed) : o'.Keyed := by
  cases h with
  | same horders => exact keyed_of_eq hk horders
  | one _ horders hid _ => exact keyed_set hk horders hid

/-- What is no fill leaves the table alone, or rewrites one of its orders, keeping its
id, its intent and how much of it is filled. -/
inductive Updated (o o' : OMS) : Prop
  | same (horders : o'.orders = o.orders)
  | one {k : String} {known changed : Order} (hk : o.orders.get? k = some known)
      (horders : o'.orders = o.orders.set k changed) (hid : changed.clientOrderId = k)
      (hextent : changed.extent = known.extent)

theorem Updated.touched {o o' : OMS} (h : Updated o o') : Touched o o' := by
  cases h with
  | same horders => exact .same horders
  | one hk horders hid hextent => exact .one hk horders hid (congrArg Prod.fst hextent)

section touched

variable {o : OMS} {order : Order}

theorem updated_placed (ack : BrokerAck) (hk : o.Keyed) (held : o.Holds order) :
    Updated o (o.placed order ack) := by
  obtain ⟨known, hknown⟩ := held
  have hid : known.clientOrderId = order.clientOrderId := hk _ _ hknown
  rcases placed_orders ack hk hknown with heq | ⟨-, version, heq⟩
  · exact .same heq
  · exact .one hknown heq hid rfl

theorem updated_placeFailed (exc : Exc) (hk : o.Keyed) (held : o.Holds order) :
    Updated o (o.placeFailed order exc) := by
  obtain ⟨known, hknown⟩ := held
  have hid : known.clientOrderId = order.clientOrderId := hk _ _ hknown
  obtain ⟨status, event, -, horders, -, -⟩ := placeFailed_spec exc hknown
  exact .one hknown horders hid rfl

theorem updated_onUpdate (snap : BrokerOrderSnapshot) (hk : o.Keyed) :
    Updated o (o.onUpdate snap) := by
  cases hs : o.orders.get? snap.clientOrderId with
  | none =>
    obtain ⟨a, heq⟩ := onUpdate_unknown hs
    exact .same (by rw [heq, emit_orders])
  | some known =>
    have hid : known.clientOrderId = snap.clientOrderId := hk _ _ hs
    rcases (onUpdate_known hk hs).2 with ⟨-, -, -, version, heq, -⟩ | ⟨-, -, hsame | hset⟩
    · exact .one hs heq hid rfl
    · exact .same hsame.2
    · exact .one hs hset.2 hid rfl

theorem touched_onFill (fill : Fill) (hk : o.Keyed) : Touched o (onFill fill o).state := by
  rcases onFill_orders fill hk with heq | ⟨known, version, -, hknown, heq⟩
  · exact .same heq
  · have hid : known.clientOrderId = fill.clientOrderId := hk _ _ hknown
    exact .one hknown heq hid rfl

theorem updated_found (snap : BrokerOrderSnapshot) (hk : o.Keyed) (held : o.Holds order) :
    Updated o (o.found order snap) := by
  obtain ⟨known, hknown⟩ := held
  have hid : known.clientOrderId = order.clientOrderId := hk _ _ hknown
  exact .one hknown (found_orders snap hknown) hid rfl

theorem updated_resolved (snap : BrokerOrderSnapshot) (hk : o.Keyed) (held : o.Holds order) :
    Updated o (o.resolved order snap) := by
  obtain ⟨known, hknown⟩ := held
  have hid : known.clientOrderId = order.clientOrderId := hk _ _ hknown
  rcases resolved_orders snap hk hknown with heq | ⟨-, version, heq⟩
  · exact .same heq
  · exact .one hknown heq hid rfl

theorem updated_absent (config : OmsConfig) (now : Instant) (hk : o.Keyed)
    (held : o.Holds order) : Updated o (o.absent config now order) := by
  obtain ⟨known, hknown⟩ := held
  have hid : known.clientOrderId = order.clientOrderId := hk _ _ hknown
  rcases absent_orders config now hknown with ⟨heq, -⟩ | ⟨version, -, -, heq, -⟩
  · exact .same heq
  · exact .one hknown heq hid rfl

theorem touched_placed (ack : BrokerAck) (hk : o.Keyed) (held : o.Holds order) :
    Touched o (o.placed order ack) :=
  (updated_placed ack hk held).touched

theorem touched_placeFailed (exc : Exc) (hk : o.Keyed) (held : o.Holds order) :
    Touched o (o.placeFailed order exc) :=
  (updated_placeFailed exc hk held).touched

theorem touched_onUpdate (snap : BrokerOrderSnapshot) (hk : o.Keyed) :
    Touched o (o.onUpdate snap) :=
  (updated_onUpdate snap hk).touched

theorem touched_found (snap : BrokerOrderSnapshot) (hk : o.Keyed) (held : o.Holds order) :
    Touched o (o.found order snap) :=
  (updated_found snap hk held).touched

theorem touched_resolved (snap : BrokerOrderSnapshot) (hk : o.Keyed) (held : o.Holds order) :
    Touched o (o.resolved order snap) :=
  (updated_resolved snap hk held).touched

theorem touched_absent (config : OmsConfig) (now : Instant) (hk : o.Keyed)
    (held : o.Holds order) : Touched o (o.absent config now order) :=
  (updated_absent config now hk held).touched

end touched

end OMS

end RakshaQuant
