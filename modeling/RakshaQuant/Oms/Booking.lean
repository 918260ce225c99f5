import RakshaQuant.Oms.Lifecycle
import RakshaQuant.Lib.Numeral

/-! What each step of an OMS does to its book, and what it tells of it. A new fill is
recorded in the book, then told, then its position, then the trades it closed; the trades
are told only for a fill of a known order, and only up to the first that does not validate. -/

namespace RakshaQuant

/-- The id of the `n`-th trade a fill closes. -/
def tradeIdOf (fillId : String) (n : ℕ) : String := fillId ++ "#" ++ toString n

theorem tradeIdOf_injective {fillId fillId' : String} {m n : ℕ}
    (h : tradeIdOf fillId m = tradeIdOf fillId' n) : fillId = fillId' ∧ m = n :=
  Numeral.tagged_injective [] '#' (by decide) (by decide) h

/-! ## What the closing loop gives -/

section pieces

variable (fill : Fill) (product : Product) (exitReason : String) (direction : ℤ)

/-- The pieces a fill closes are numbered one after the other. -/
theorem closeLots_tradeIds (lots : List Lot) (remaining : ℤ) (exitCharges : ℚ) (n : ℕ)
    (h0 : 0 ≤ remaining) : ∃ k,
      (closeLots fill product exitReason direction lots remaining exitCharges n).closed.map
        ClosedPiece.tradeId = (List.range' (n + 1) k).map (tradeIdOf fill.fillId) := by
  induction lots generalizing remaining exitCharges n with
  | nil => exact ⟨0, rfl⟩
  | cons lot rest ih =>
    rcases h0.eq_or_lt with rfl | h0
    · exact ⟨0, by rw [closeLots_zero]; rfl⟩
    · rcases lt_or_ge remaining lot.quantity with h | h
      · exact ⟨1, by rw [closeLots_part _ _ _ _ _ _ h0 h]; rfl⟩
      · obtain ⟨k, hk⟩ := ih (remaining - lot.quantity)
          (exitCharges - fill.exitAlloc remaining exitCharges lot.quantity) (n + 1) (by omega)
        refine ⟨k + 1, ?_⟩
        rw [closeLots_whole _ _ _ _ _ _ h0 h, List.range'_succ, List.map_cons, List.map_cons, hk]
        rfl

/-- A piece closes shares of a lot at the fill's price. -/
theorem closeLots_piece (lots : List Lot) (remaining : ℤ) (exitCharges : ℚ) (n : ℕ)
    (h0 : 0 ≤ remaining) (p : ClosedPiece)
    (hp : p ∈ (closeLots fill product exitReason direction lots remaining exitCharges n).closed) :
    0 ≤ p.quantity ∧ p.exitPrice = fill.price ∧ ∃ lot ∈ lots, p.entryPrice = lot.price := by
  induction lots generalizing remaining exitCharges n with
  | nil => cases hp
  | cons lot rest ih =>
    rcases h0.eq_or_lt with rfl | h0
    · rw [closeLots_zero] at hp
      cases hp
    · rcases lt_or_ge remaining lot.quantity with h | h
      · rw [closeLots_part _ _ _ _ _ _ h0 h, List.mem_singleton] at hp
        rw [hp]
        exact ⟨h0.le, rfl, lot, List.mem_cons_self, rfl⟩
      · rw [closeLots_whole _ _ _ _ _ _ h0 h] at hp
        rcases List.mem_cons.mp hp with rfl | hp
        · exact ⟨lot.quantity_pos.le, rfl, lot, List.mem_cons_self, rfl⟩
        · obtain ⟨hq, hx, l, hl, he⟩ := ih _ _ _ (by omega) hp
          exact ⟨hq, hx, l, List.mem_cons_of_mem _ hl, he⟩

/-- The lots left were there before, at the same price. -/
theorem closeLots_left (lots : List Lot) (remaining : ℤ) (exitCharges : ℚ) (n : ℕ)
    (h0 : 0 ≤ remaining) (l : Lot)
    (hl : l ∈ (closeLots fill product exitReason direction lots remaining exitCharges n).lots) :
    ∃ lot ∈ lots, l.price = lot.price := by
  induction lots generalizing remaining exitCharges n with
  | nil => cases hl
  | cons lot rest ih =>
    rcases h0.eq_or_lt with rfl | h0
    · rw [closeLots_zero] at hl
      exact ⟨l, hl, rfl⟩
    · rcases lt_or_ge remaining lot.quantity with h | h
      · rw [closeLots_part _ _ _ _ _ _ h0 h] at hl
        rcases List.mem_cons.mp hl with rfl | hl
        · exact ⟨lot, List.mem_cons_self, rfl⟩
        · exact ⟨l, List.mem_cons_of_mem _ hl, rfl⟩
      · rw [closeLots_whole _ _ _ _ _ _ h0 h] at hl
        obtain ⟨lot', hlot', he⟩ := ih _ _ _ (by omega) hl
        exact ⟨lot', List.mem_cons_of_mem _ hlot', he⟩

end pieces

namespace Book

variable (b : Book) (fill : Fill) (product : Product) (strategy exitReason : String)

/-- A fill that goes with the position closes nothing. -/
theorem closing_of_adds (h : b.adds fill) : (b.closing fill product exitReason).closed = [] := by
  rw [closing, if_pos h]

/-- The realized P&L moves by the net P&L of the pieces closed. -/
theorem realized_applyFill : (b.applyFill fill product strategy exitReason).realized =
    b.realized + ((b.closing fill product exitReason).closed.map ClosedPiece.netPnl).sum := by
  unfold applyFill
  by_cases ha : b.adds fill
  · rw [dif_pos ha, closing_of_adds b fill product exitReason ha]
    simp [push]
  · rw [dif_neg ha]
    dsimp only
    split <;> rfl

theorem closing_tradeIds : ∃ k,
    (b.closing fill product exitReason).closed.map ClosedPiece.tradeId =
      (List.range' 1 k).map (tradeIdOf fill.fillId) := by
  unfold closing
  split
  · exact ⟨0, rfl⟩
  · exact closeLots_tradeIds fill product exitReason _ _ _ _ 0 fill.quantity_pos.le

/-- Every lot was bought or sold at a positive price. -/
def Priced : Prop := ∀ lot ∈ b.lots, 0 < lot.price

theorem priced_empty : Book.empty.Priced := by
  intro lot h
  cases h

variable {b}

theorem Priced.applyFill (h : b.Priced) :
    (b.applyFill fill product strategy exitReason).Priced := by
  have hpush : ∀ (lots : List Lot) (realized charges : ℚ) (quantity : ℤ) (hq : 0 < quantity),
      (∀ lot ∈ lots, 0 < lot.price) →
        (push lots realized fill strategy quantity charges hq).Priced := by
    intro lots realized charges quantity hq hlots lot hm
    rcases List.mem_append.mp hm with hold | hnew
    · exact hlots lot hold
    · rw [List.mem_singleton.mp hnew]
      exact fill.price_pos
  have hleft : ¬b.adds fill → ∀ lot ∈ (b.closing fill product exitReason).lots, 0 < lot.price := by
    intro ha lot hm
    rw [closing, if_neg ha] at hm
    obtain ⟨lot', hlot', he⟩ := closeLots_left _ _ _ _ _ _ _ _ fill.quantity_pos.le lot hm
    rw [he]
    exact h lot' hlot'
  unfold Book.applyFill
  by_cases ha : b.adds fill
  · rw [dif_pos ha]
    exact hpush _ _ _ _ _ h
  · rw [dif_neg ha]
    dsimp only
    split
    · exact hpush _ _ _ _ _ (hleft ha)
    · exact hleft ha

/-- A piece fails to validate only where it was given negative charges. -/
theorem Priced.tradeClosed (h : b.Priced) (bookId : String) {p : ClosedPiece}
    (hp : p ∈ (b.closing fill product exitReason).closed) (hcharges : 0 ≤ p.charges) :
    ∃ trade, OMS.tradeClosed bookId p = .ok trade ∧ trade.tradeId = p.tradeId ∧
      trade.netPnl = p.netPnl := by
  unfold Book.closing at hp
  split at hp
  · cases hp
  · obtain ⟨hq, hexit, lot, hlot, hentry⟩ :=
      closeLots_piece _ _ _ _ _ _ _ _ fill.quantity_pos.le p hp
    have hall : 0 ≤ p.quantity ∧ 0 < p.entryPrice ∧ 0 < p.exitPrice ∧ 0 ≤ p.charges :=
      ⟨hq, by rw [hentry]; exact h lot hlot, by rw [hexit]; exact fill.price_pos, hcharges⟩
    unfold OMS.tradeClosed
    rw [dif_pos hall]
    exact ⟨_, rfl, rfl, rfl⟩

end Book

/-! ## What a step tells -/

/-- An event that neither registers an order nor comes from a fill. -/
def EventPayload.Unbooked : EventPayload → Prop
  | .orderSubmitted _ | .fillReceived _ _ _ _ | .positionChanged _ _ | .tradeClosed _ => False
  | _ => True

namespace OMS

/-- The call of `apply` that `_on_fill` makes. -/
def application (o : OMS) (fill : Fill) : Application :=
  match o.orders.get? fill.clientOrderId with
  | some order => order.application fill
  | none => .unheld fill

/-- The pieces a fill closes. -/
def closes (o : OMS) (fill : Fill) : List ClosedPiece := (o.book.outcome (o.application fill)).closed

/-- The trades `_on_fill` reports of the pieces a fill closes. -/
def tradesTold (o : OMS) (fill : Fill) : List TradeClosed :=
  if (o.orders.get? fill.clientOrderId).isSome then reportedTrades o.bookId (o.closes fill) else []

/-- What `_on_fill` emits after `FillReceived`. -/
def derived (o : OMS) (fill : Fill) : List EventPayload :=
  .positionChanged (o.book.outcome (o.application fill)).position (some fill.fillId) ::
    (o.tradesTold fill).map .tradeClosed

theorem application_of_get {o : OMS} {fill : Fill} {order : Order}
    (h : o.orders.get? fill.clientOrderId = some order) :
    o.application fill = order.application fill := by
  rw [application, h]

theorem application_of_none {o : OMS} {fill : Fill}
    (h : o.orders.get? fill.clientOrderId = none) : o.application fill = .unheld fill := by
  rw [application, h]

@[simp] theorem application_fill (o : OMS) (fill : Fill) : (o.application fill).fill = fill := by
  unfold application
  split <;> rfl

/-- What a step does to the book and the log. -/
inductive Booking (o : OMS) : Cause → OMS → Prop
  | registered {order : Order} {o' : OMS}
      (orders : o'.orders = o.orders.set order.clientOrderId order) (book : o'.book = o.book)
      (logged : events o'.sink = events o.sink ++ [.orderSubmitted order]) :
      Booking o (.registered order) o'
  | told {cause : Cause} {o' : OMS} (es : List EventPayload) (quiet : ∀ p ∈ es, p.Unbooked)
      (touched : Touched o o') (book : o'.book = o.book)
      (logged : events o'.sink = events o.sink ++ es) : Booking o cause o'
  | filled {fill : Fill} {o' : OMS} (es : List EventPayload) (status : OrderStatus)
      (filledQty : ℤ) (avgPrice : ℚ) (fresh : o.book.Fresh (o.application fill))
      (quiet : ∀ p ∈ es, p.Unbooked) (touched : Touched o o')
      (book : o'.book = o.book.record (o.application fill))
      (logged : events o'.sink = events o.sink ++ es ++
        .fillReceived fill status filledQty avgPrice :: o.derived fill) :
      Booking o (.filled fill) o'

namespace Booking

variable {o o' : OMS} {cause : Cause}

theorem still (htouched : Touched o o') (hbook : o'.book = o.book) (hsink : o'.sink = o.sink) :
    Booking o cause o' :=
  .told [] (List.forall_mem_nil _) htouched hbook (by rw [hsink, List.append_nil])

theorem one {p : EventPayload} (htouched : Touched o o') (hbook : o'.book = o.book)
    (hsink : o'.sink = o.sink ++ [.event p]) (hp : p.Unbooked) : Booking o cause o' :=
  .told [p] (by simpa using hp) htouched hbook (by rw [hsink, events_append, events_event])

theorem placed (order : Order) (ack : BrokerAck) (hk : o.Keyed) (held : o.Holds order) :
    Booking o cause (o.placed order ack) := by
  have htouched := touched_placed ack hk held
  have hbook := placed_book order ack o
  unfold OMS.placed at htouched hbook ⊢
  dsimp only at htouched hbook ⊢
  split
  · rename_i hs
    rw [if_pos hs] at htouched hbook
    exact .one htouched hbook (by rw [emit_sink, advance_sink, setOrder_sink]) (by trivial)
  · exact .still (.same rfl) rfl rfl

theorem updated (snap : BrokerOrderSnapshot) (hk : o.Keyed) :
    Booking o cause (o.onUpdate snap) := by
  have htouched := touched_onUpdate snap hk
  cases hs : o.orders.get? snap.clientOrderId with
  | none =>
    obtain ⟨a, heq⟩ := onUpdate_unknown hs
    rw [heq] at htouched ⊢
    exact .one htouched rfl rfl trivial
  | some known =>
    obtain ⟨hbook, ⟨-, -, -, version, -, hsink⟩ | ⟨-, hsink, -⟩⟩ := onUpdate_known hk hs
    · have hquiet : (updateEvent known snap).Unbooked := by
        unfold updateEvent
        split <;> trivial
      exact .one htouched hbook hsink hquiet
    · exact .still htouched hbook hsink

/-- A fill is seen, or of another book, or recorded and told. -/
theorem fill (fill : Fill) (hk : o.Keyed) : Booking o (.filled fill) (onFill fill o).state := by
  have htouched := touched_onFill fill hk
  by_cases hseen : fill.fillId ∈ o.book.seen
  · rw [onFill_seen hseen]
    exact .still (.same rfl) rfl rfl
  cases h : o.orders.get? fill.clientOrderId with
  | none =>
    by_cases hbook : fill.bookId = o.bookId
    · rw [onFill_unheld hseen h hbook] at htouched ⊢
      have happlication := application_of_none h
      refine .filled [.alert (unheldAlert fill)] .filled fill.quantity fill.price ?_
        (by simp [EventPayload.Unbooked]) htouched ?_ ?_
      · rw [happlication]
        exact ⟨hbook, hseen⟩
      · rw [happlication]
        rfl
      · simp [events, derived, tradesTold, h, happlication]
    · obtain ⟨e, hrun⟩ := onFill_stray hseen h hbook
      rw [hrun] at htouched ⊢
      exact .one htouched rfl rfl trivial
  | some order =>
    by_cases hbook : fill.bookId = o.bookId
    · obtain ⟨version, as, hstate, -⟩ := onFill_known hseen hk h hbook
      have happlication := application_of_get h
      rw [hstate] at htouched ⊢
      refine .filled (as.map .alert) (statusAfter order fill) (filledAfter order fill)
        (avgAfter order fill) ?_ (by simp [EventPayload.Unbooked]) htouched ?_ ?_
      · rw [happlication]
        exact ⟨hbook, hseen⟩
      · rw [happlication]
      · simp [derived, tradesTold, closes, h, happlication]
        simp [events]
    · obtain ⟨e, hrun⟩ := onFill_foreign hseen h hbook
      obtain ⟨as, hsink⟩ := fillOrder_sink order fill o
      rw [hrun] at htouched ⊢
      refine .told (as.map .alert) (by simp [EventPayload.Unbooked]) htouched
        (fillOrder_book order fill o) ?_
      simp [hsink]

end Booking

/-- **The step lemma.** -/
theorem Lifecycle.booking {config : OmsConfig} {cause : Cause} {o o' : OMS}
    (step : Lifecycle config cause o o') (hk : o.Keyed) : Booking o cause o' := by
  cases step with
  | registered fresh => exact .registered rfl rfl (by simp [register])
  | placed ack held => exact .placed _ ack hk held
  | placeFailed exc held =>
    have htouched := touched_placeFailed exc hk held
    obtain ⟨known, hknown⟩ := held
    obtain ⟨status, event, hstatus, -, hbook, hsink⟩ := placeFailed_spec exc hknown
    refine .one htouched hbook hsink ?_
    rcases hstatus with ⟨-, -, e, rfl⟩ | ⟨-, -, r, m, rfl⟩ <;> trivial
  | updated snap => exact .updated snap hk
  | filled fill => exact .fill fill hk
  | found snap held => exact .still (touched_found snap hk held) rfl rfl
  | resolved snap held =>
    exact .one (touched_resolved snap hk held) (resolved_book _ snap o) (resolved_sink _ snap o)
      trivial
  | @absent _ order now held =>
    have htouched := touched_absent config now hk held
    obtain ⟨known, hknown⟩ := held
    have hbook := absent_book config now order o
    rcases absent_orders config now hknown with ⟨-, hsink⟩ | ⟨version, r, m, -, hsink⟩
    · exact .still htouched hbook hsink
    · exact .one htouched hbook hsink trivial
  | reconciled diffs =>
    have htouched : Touched o (o.recordReconciliation diffs).1 :=
      .same (recordReconciliation_orders diffs o)
    unfold recordReconciliation at htouched ⊢
    dsimp only at htouched ⊢
    split
    · exact .one (.same rfl) rfl rfl trivial
    · refine .told [.reconciliationResult ⟨o.bookId, "oms_broker", diffs.all Diff.isAdopted,
        diffs.map Diff.text⟩, .alert ⟨"CRITICAL", "SYS_RECON_DRIFT",
        "; ".intercalate (diffs.map Diff.text)⟩] ?_ (.same rfl) rfl ?_
      · intro p hp
        rcases List.mem_cons.mp hp with rfl | hp
        · trivial
        · rw [List.mem_singleton.mp hp]
          trivial
      · simp [alert, events]

end OMS

end RakshaQuant
