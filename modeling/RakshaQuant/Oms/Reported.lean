import RakshaQuant.Oms.Booking
import RakshaQuant.Store.Tables

/-! Realized P&L and what is told of it. Over a run the tables show the book's positions
and its realized P&L, as long as every fill that closes lots is of a known order and its
charges split over the lots without a negative part. -/

namespace RakshaQuant

/-- The charges of the lots and of the fill split over the lots the fill closes, no piece
being given negative charges. -/
def Fill.Splits (fill : Fill) : List Lot → ℤ → ℚ → Prop
  | [], _, _ => True
  | lot :: rest, remaining, exitCharges =>
    let take := min remaining lot.quantity
    let exitAlloc := fill.exitAlloc remaining exitCharges take
    remaining = 0 ∨ (0 ≤ lot.entryAlloc take + exitAlloc ∧
      fill.Splits rest (remaining - take) (exitCharges - exitAlloc))

instance Fill.decidableSplits (fill : Fill) : ∀ (lots : List Lot) (remaining : ℤ)
    (exitCharges : ℚ), Decidable (fill.Splits lots remaining exitCharges)
  | [], _, _ => .isTrue trivial
  | lot :: rest, remaining, exitCharges =>
    have := decidableSplits fill rest (remaining - min remaining lot.quantity)
      (exitCharges - fill.exitAlloc remaining exitCharges (min remaining lot.quantity))
    inferInstanceAs (Decidable (_ ∨ (_ ∧ _)))

theorem Fill.Splits.charges (fill : Fill) (product : Product) (exitReason : String)
    (direction : ℤ) {lots : List Lot} {remaining : ℤ} {exitCharges : ℚ} (n : ℕ)
    (h0 : 0 ≤ remaining) (h : fill.Splits lots remaining exitCharges) :
    ∀ p ∈ (closeLots fill product exitReason direction lots remaining exitCharges n).closed,
      0 ≤ p.charges := by
  induction lots generalizing remaining exitCharges n with
  | nil =>
    intro p hp
    cases hp
  | cons lot rest ih =>
    intro p hp
    rcases h0.eq_or_lt with rfl | h0
    · rw [closeLots_zero] at hp
      cases hp
    obtain ⟨hfirst, hrest⟩ := h.resolve_left h0.ne'
    rcases lt_or_ge remaining lot.quantity with hlt | hge
    · rw [closeLots_part _ _ _ _ _ _ h0 hlt, List.mem_singleton] at hp
      rw [min_eq_left hlt.le, Fill.exitAlloc, if_pos rfl] at hfirst
      rw [hp]
      exact hfirst
    · rw [min_eq_right hge] at hfirst hrest
      rw [closeLots_whole _ _ _ _ _ _ h0 hge] at hp
      rcases List.mem_cons.mp hp with rfl | hp
      · rwa [Lot.entryAlloc, if_pos rfl] at hfirst
      · exact ih (n + 1) (by omega) hrest p hp

/-- The trades an event log tells of, in order. -/
def tradesOf (ps : List EventPayload) : List TradeClosed :=
  ps.filterMap fun
    | .tradeClosed t => some t
    | _ => none

@[simp] theorem tradesOf_append (ps qs : List EventPayload) :
    tradesOf (ps ++ qs) = tradesOf ps ++ tradesOf qs :=
  List.filterMap_append

@[simp] theorem tradesOf_map (trades : List TradeClosed) :
    tradesOf (trades.map .tradeClosed) = trades := by
  induction trades with
  | nil => rfl
  | cons t rest ih => exact congrArg (t :: ·) ih

theorem tradesOf_untabled {ps : List EventPayload} (h : ∀ p ∈ ps, p.Untabled) :
    tradesOf ps = [] := by
  rw [tradesOf, List.filterMap_eq_nil_iff]
  intro p hp
  have hquiet := (h p hp).2
  cases p <;> first | rfl | exact absurd rfl (hquiet _)

theorem EventPayload.Unbooked.untabled {p : EventPayload} (h : p.Unbooked) : p.Untabled := by
  constructor
  · rintro position fillId rfl
    exact h
  · rintro trade rfl
    exact h

namespace PositionBook

variable (b : PositionBook) (a : Application)

theorem outcome_closed : (b.outcome a).closed =
    ((b.bookAt a.key).closing a.fill a.product a.exitReason).closed := rfl

/-- The realized P&L moves by the net P&L of the pieces closed. -/
theorem realizedPnl_record : (b.record a).realizedPnl =
    b.realizedPnl + ((b.outcome a).closed.map ClosedPiece.netPnl).sum := by
  have hsum := sum_record (fun _ book => book.realized) (fun _ => rfl) b a
  rw [Book.realized_applyFill] at hsum
  have : (b.record a).realizedPnl + (b.bookAt a.key).realized = b.realizedPnl +
      ((b.bookAt a.key).realized + ((b.outcome a).closed.map ClosedPiece.netPnl).sum) := hsum
  linarith

end PositionBook

namespace OMS

/-- What a fill closes is told in full: it closes nothing, or its order is known and the
charges split. -/
def Reports (o : OMS) (fill : Fill) : Prop :=
  (o.book.bookAt (o.application fill).key).adds fill ∨
    ((o.orders.get? fill.clientOrderId).isSome ∧
      fill.Splits (o.book.bookAt (o.application fill).key).lots fill.quantity fill.charges)

instance (o : OMS) (fill : Fill) : Decidable (o.Reports fill) :=
  inferInstanceAs (Decidable (_ ∨ (_ ∧ _)))

/-- Pieces that all validate are all reported. -/
theorem reportedTrades_all {bookId : String} {ps : List ClosedPiece}
    (h : ∀ p ∈ ps, ∃ trade, tradeClosed bookId p = .ok trade ∧ trade.tradeId = p.tradeId ∧
      trade.netPnl = p.netPnl) :
    (reportedTrades bookId ps).map TradeClosed.tradeId = ps.map ClosedPiece.tradeId ∧
      (reportedTrades bookId ps).map TradeClosed.netPnl = ps.map ClosedPiece.netPnl := by
  induction ps with
  | nil => exact ⟨rfl, rfl⟩
  | cons p rest ih =>
    obtain ⟨trade, hok, hid, hnet⟩ := h p List.mem_cons_self
    obtain ⟨hids, hnets⟩ := ih fun q hq => h q (List.mem_cons_of_mem _ hq)
    simp [reportedTrades, hok, hid, hnet, hids, hnets]

/-- A fill that is told in full is told piece by piece. -/
theorem tradesTold_of_reports {o : OMS} {fill : Fill}
    (hpriced : (o.book.bookAt (o.application fill).key).Priced) (h : o.Reports fill) :
    (o.tradesTold fill).map TradeClosed.tradeId = (o.closes fill).map ClosedPiece.tradeId ∧
      (o.tradesTold fill).map TradeClosed.netPnl = (o.closes fill).map ClosedPiece.netPnl := by
  have hcloses : o.closes fill = ((o.book.bookAt (o.application fill).key).closing fill
      (o.application fill).product (o.application fill).exitReason).closed := by
    rw [closes, PositionBook.outcome_closed, application_fill]
  rcases h with hadds | ⟨hknown, hsplits⟩
  · rw [Book.closing_of_adds _ fill _ _ hadds] at hcloses
    unfold tradesTold
    rw [hcloses]
    split <;> simp [reportedTrades]
  · rw [tradesTold, if_pos hknown]
    refine reportedTrades_all fun p hp => ?_
    rw [hcloses] at hp
    refine hpriced.tradeClosed fill _ _ o.bookId hp ?_
    unfold Book.closing at hp
    split at hp
    · cases hp
    · exact Fill.Splits.charges fill _ _ _ 0 fill.quantity_pos.le hsplits p hp

/-- The two tables and the book they show. -/
structure Tabled (book : PositionBook) (positions : PositionsProjector.Table)
    (trades : TradesProjector.Table) : Prop where
  quantity : ∀ instrumentKey product,
    PositionsProjector.quantity positions book.bookId instrumentKey product =
      book.quantity instrumentKey product
  total : TradesProjector.total trades = book.realizedPnl
  /-- A trade's id names a fill the book has seen. -/
  source : ∀ id row, trades.get? id = some row → ∃ fillId ∈ book.seen, ∃ n, id = tradeIdOf fillId n

theorem Tabled.init (bookId : String) (cash : ℚ) : Tabled (.init bookId cash) .empty .empty where
  quantity _ _ := rfl
  total := rfl
  source _ _ h := by cases h

/-- The tables follow a fill that is told in full. -/
theorem Tabled.derived {o : OMS} {fill : Fill} {positions : PositionsProjector.Table}
    {trades : TradesProjector.Table} (h : Tabled o.book positions trades)
    (hfresh : o.book.Fresh (o.application fill))
    (hids : (o.tradesTold fill).map TradeClosed.tradeId =
      (o.closes fill).map ClosedPiece.tradeId)
    (hnets : (o.tradesTold fill).map TradeClosed.netPnl =
      (o.closes fill).map ClosedPiece.netPnl)
    {stored : List StoredEvent} (hstored : stored.map StoredEvent.payload = o.derived fill) :
    Tabled (o.book.record (o.application fill)) (PositionsProjector.project positions stored)
      (TradesProjector.project trades stored) := by
  obtain ⟨e, told, rfl, he, htold⟩ := List.map_eq_cons_iff.mp hstored
  -- the ids of the new trades are numbered, and name a fill not seen before
  obtain ⟨k, hk⟩ : ∃ k, (o.tradesTold fill).map TradeClosed.tradeId =
      (List.range' 1 k).map (tradeIdOf fill.fillId) := by
    rw [hids, closes, PositionBook.outcome_closed, application_fill]
    exact Book.closing_tradeIds _ fill _ _
  have hnodup : ((o.tradesTold fill).map TradeClosed.tradeId).Nodup := by
    rw [hk]
    exact (List.nodup_range' ..).map fun m n hmn => (tradeIdOf_injective hmn).2
  have hnumbered : ∀ t ∈ o.tradesTold fill, ∃ n, t.tradeId = tradeIdOf fill.fillId n := by
    intro t ht
    have hmem := List.mem_map_of_mem (f := TradeClosed.tradeId) ht
    rw [hk] at hmem
    obtain ⟨n, -, hn⟩ := List.mem_map.mp hmem
    exact ⟨n, hn.symm⟩
  have hnew : ∀ t ∈ o.tradesTold fill, trades.get? t.tradeId = none := by
    intro t ht
    obtain ⟨n, hn⟩ := hnumbered t ht
    cases hrow : trades.get? t.tradeId with
    | none => rfl
    | some row =>
      obtain ⟨fillId, hseen, m, hm⟩ := h.source _ _ hrow
      have hsame := (tradeIdOf_injective (hn.symm.trans hm)).1
      have hnot : fill.fillId ∉ o.book.seen := by
        simpa using hfresh.2
      exact absurd (hsame ▸ hseen) hnot
  obtain ⟨htotal, hrows⟩ := TradesProjector.project_trades htold hnodup hnew
  have hhead : PositionsProjector.project positions (e :: told) = positions.set
      (PositionsProjector.key (o.book.outcome (o.application fill)).position)
      (PositionsProjector.row (o.book.outcome (o.application fill)).position e) := by
    have hrest : ∀ e' ∈ told, ∀ position fillId, e'.payload ≠ .positionChanged position fillId := by
      intro e' he' position fillId hc
      have hmem := List.mem_map_of_mem (f := StoredEvent.payload) he'
      rw [htold, hc] at hmem
      obtain ⟨t, -, ht⟩ := List.mem_map.mp hmem
      cases ht
    rw [PositionsProjector.project, List.foldl_cons, PositionsProjector.apply, he]
    exact PositionsProjector.project_none _ hrest
  have htrades : TradesProjector.project trades (e :: told) =
      TradesProjector.project trades told := by
    rw [TradesProjector.project, List.foldl_cons, TradesProjector.apply, he]
    rfl
  refine ⟨fun instrumentKey product => ?_, ?_, fun id row hrow => ?_⟩
  · rw [hhead]
    refine (PositionsProjector.quantity_set _ _ e instrumentKey product).trans ?_
    rw [PositionBook.quantity, PositionBook.bookAt_record]
    by_cases hkey : (instrumentKey, product) = (o.application fill).key
    · rw [if_pos hkey, if_pos ⟨congrArg Prod.fst hkey, congrArg Prod.snd hkey⟩]
      rfl
    · rw [if_neg hkey, if_neg fun hc => hkey (Prod.ext hc.1 hc.2)]
      exact h.quantity instrumentKey product
  · rw [htrades, htotal, h.total, hnets, PositionBook.realizedPnl_record]
    rfl
  · rw [htrades] at hrow
    rcases hrows id row hrow with hold | ⟨t, ht, rfl⟩
    · obtain ⟨fillId, hseen, hn⟩ := h.source id row hold
      exact ⟨fillId, List.mem_cons_of_mem _ hseen, hn⟩
    · obtain ⟨n, hn⟩ := hnumbered t ht
      exact ⟨fill.fillId, by simp [PositionBook.record], n, hn⟩

/-- The log tells the book's realized P&L, and the tables kept from it show the book. -/
structure Shown (o : OMS) : Prop where
  keyed : o.Keyed
  priced : ∀ key, (o.book.bookAt key).Priced
  told : ((tradesOf (events o.sink)).map TradeClosed.netPnl).sum = o.book.realizedPnl
  tabled : ∀ stored : List StoredEvent, stored.map StoredEvent.payload = events o.sink →
    Tabled o.book (PositionsProjector.project .empty stored) (TradesProjector.project .empty stored)

namespace Shown

variable {o o' : OMS}

theorem init (bookId : String) (cash : ℚ) : Shown (OMS.init (.init bookId cash)) where
  keyed := keyed_init _
  priced _ := Book.priced_empty
  told := rfl
  tabled stored hstored := by
    obtain rfl : stored = [] := List.map_eq_nil_iff.mp hstored
    exact .init bookId cash

/-- The tables after more events that write no table. -/
theorem tabled_quiet (h : Shown o) {es : List EventPayload} (hquiet : ∀ p ∈ es, p.Untabled)
    {stored : List StoredEvent}
    (hstored : stored.map StoredEvent.payload = events o.sink ++ es) :
    Tabled o.book (PositionsProjector.project .empty stored)
      (TradesProjector.project .empty stored) := by
  obtain ⟨before, after, rfl, hbefore, hafter⟩ := List.map_eq_append_iff.mp hstored
  have hnone : ∀ e ∈ after, e.payload.Untabled := fun e he =>
    hquiet _ (hafter ▸ List.mem_map_of_mem he)
  rw [PositionsProjector.project_append, TradesProjector.project_append,
    PositionsProjector.project_none _ fun e he => (hnone e he).1,
    TradesProjector.project_none _ fun e he => (hnone e he).2]
  exact h.tabled before hbefore

theorem quiet (h : Shown o) {es : List EventPayload} (hquiet : ∀ p ∈ es, p.Untabled)
    (hk : o'.Keyed) (hbook : o'.book = o.book) (hlogged : events o'.sink = events o.sink ++ es) :
    Shown o' where
  keyed := hk
  priced := hbook ▸ h.priced
  told := by
    rw [hlogged, tradesOf_append, tradesOf_untabled hquiet, List.append_nil, hbook]
    exact h.told
  tabled stored hstored := hbook ▸ h.tabled_quiet hquiet (hstored.trans hlogged)

/-- A fill that is told in full keeps the log and the tables in step with the book. -/
theorem filled (h : Shown o) {fill : Fill} {es : List EventPayload}
    (hreports : o.Reports fill) (hfresh : o.book.Fresh (o.application fill))
    (hquiet : ∀ p ∈ es, p.Untabled) (hk : o'.Keyed)
    (hbook : o'.book = o.book.record (o.application fill))
    (hlogged : events o'.sink = events o.sink ++ es ++ o.derived fill) : Shown o' := by
  obtain ⟨hids, hnets⟩ := tradesTold_of_reports (h.priced _) hreports
  refine ⟨hk, fun key => ?_, ?_, fun stored hstored => ?_⟩
  · rw [hbook, PositionBook.bookAt_record]
    split
    · exact (h.priced _).applyFill _ _ _ _
    · exact h.priced key
  · have htold : tradesOf (o.derived fill) = o.tradesTold fill := tradesOf_map _
    rw [hlogged, tradesOf_append, tradesOf_append, tradesOf_untabled hquiet, htold,
      List.append_nil, List.map_append, List.sum_append, h.told, hnets, hbook,
      PositionBook.realizedPnl_record]
    rfl
  · rw [hlogged] at hstored
    obtain ⟨before, after, rfl, hbefore, hafter⟩ := List.map_eq_append_iff.mp hstored
    rw [PositionsProjector.project_append, TradesProjector.project_append, hbook]
    exact (h.tabled_quiet hquiet hbefore).derived hfresh hids hnets hafter

end Shown

/-! ## Runs -/

/-- The step is not a new fill of this book, or it is told in full. -/
def ReportsStep (o : OMS) : Cause → Prop
  | .filled fill => o.book.Fresh (o.application fill) → o.Reports fill
  | _ => True

/-- A run whose steps tell in full what they close. -/
def ReportedRun (config : OmsConfig) : OMS → OMS → Prop :=
  Relation.ReflTransGen fun o o' => ∃ cause, Lifecycle config cause o o' ∧ o.ReportsStep cause

theorem Shown.step {config : OmsConfig} {cause : Cause} {o o' : OMS} (h : Shown o)
    (step : Lifecycle config cause o o') (hreports : o.ReportsStep cause) : Shown o' := by
  have hk := step.keyed h.keyed
  cases step.booking h.keyed with
  | registered orders book logged =>
    exact h.quiet (by simp) hk book logged
  | told es quiet _ book logged => exact h.quiet (fun p hp => (quiet p hp).untabled) hk book logged
  | @filled fill _ es status filledQty avgPrice fresh quiet _ book logged =>
    have hlogged : events o'.sink = events o.sink ++
        (es ++ [.fillReceived fill status filledQty avgPrice]) ++ o.derived fill := by
      rw [logged]
      simp
    refine h.filled (hreports fresh) fresh ?_ hk book hlogged
    intro p hp
    rcases List.mem_append.mp hp with hp | hp
    · exact (quiet p hp).untabled
    · rw [List.mem_singleton.mp hp]
      exact EventPayload.untabled_filled ..

theorem Shown.run {config : OmsConfig} {o o' : OMS} (h : Shown o)
    (run : ReportedRun config o o') : Shown o' :=
  Effect.invariant (fun _ _ ⟨_, step, hreports⟩ h => h.step step hreports) run h

/-- **Realized P&L is reported.** In every run in which each new fill that closes lots is of
a known order, and its charges split without a negative part, the net P&L of the trades told
is the book's realized P&L, and so is the net P&L of the rows of the trades projection. -/
theorem realized_reported (config : OmsConfig) (bookId : String) (cash : ℚ) (o : OMS)
    (run : ReportedRun config (init (.init bookId cash)) o) (stored : List StoredEvent)
    (hstored : stored.map StoredEvent.payload = events o.sink) :
    ((tradesOf (events o.sink)).map TradeClosed.netPnl).sum = o.book.realizedPnl ∧
      TradesProjector.total (TradesProjector.project .empty stored) = o.book.realizedPnl := by
  have h := (Shown.init bookId cash).run run
  exact ⟨h.told, (h.tabled stored hstored).total⟩

end OMS

/-! ## A fill of an order the OMS does not know -/

namespace Sample

theorem hundred_ten_pos : (0 : ℚ) < 110 := by norm_num

theorem one_charge_nonneg : (0 : ℚ) ≤ 1 := by norm_num

/-- Ten shares bought by an order of the OMS. -/
def heldTen : OMS := (OMS.onFill (fill 1 10 ten_pos) ((OMS.init book).register order)).state

/-- The ten shares sold at 110, for the order of some tag. -/
def soldFill (tag : String) : Fill :=
  { fillId := "SIM-2-F1", clientOrderId := tag, brokerOrderId := some "SIM-2", bookId := "main"
    decisionId := "D2", instrumentKey := infy.key, side := .sell, quantity := 10, price := 110
    ts := 60000000, charges := 1, chargesBreakdown := []
    quantity_pos := ten_pos, price_pos := hundred_ten_pos, charges_nonneg := one_charge_nonneg }

/-- Sold by an order the OMS does not know. -/
def soldOutside : OMS := (OMS.onFill (soldFill "manual") heldTen).state

theorem soldOutside_run : OMS.Run config (OMS.init book) soldOutside := by
  have registered : OMS.Run config (OMS.init book) ((OMS.init book).register order) :=
    .single ⟨_, .registered rfl⟩
  exact (registered.tail ⟨_, .filled (fill 1 10 ten_pos)⟩).tail ⟨_, .filled (soldFill "manual")⟩

theorem soldOutside_pnl :
    ((tradesOf (events soldOutside.sink)).map TradeClosed.netPnl).sum = 0 ∧
      soldOutside.book.realizedPnl = 98 := by
  decide +kernel

/-- The order that sells the ten shares. -/
def sellOrder : Order :=
  OMS.newOrder config { entry with intentId := "I2", decisionId := "D2", side := .sell }
    ⟨10, ten_pos⟩ 60000000

def sold : OMS := (OMS.onFill (soldFill "I2") (heldTen.register sellOrder)).state

theorem sold_run : OMS.ReportedRun config (OMS.init book) sold := by
  have registered : OMS.ReportedRun config (OMS.init book) ((OMS.init book).register order) :=
    .single ⟨_, .registered rfl, trivial⟩
  have held := registered.tail ⟨_, .filled (fill 1 10 ten_pos), fun _ => .inl (.inl rfl)⟩
  have fresh : heldTen.orders.get? sellOrder.clientOrderId = none := by decide +kernel
  have reports : (heldTen.register sellOrder).Reports (soldFill "I2") := by decide +kernel
  exact (held.tail ⟨_, .registered fresh, trivial⟩).tail ⟨_, .filled (soldFill "I2"),
    fun _ => reports⟩

theorem sold_pnl : sold.book.realizedPnl = 98 := by decide +kernel

end Sample

namespace OMS

/-- A fill of an unknown order closes lots and no trade is told: the shares bought at 100 are
sold at 110, the book realizes 98 and the log says 0. -/
theorem stray_fill_not_reported :
    ¬ ∀ (config : OmsConfig) (bookId : String) (cash : ℚ) (o : OMS),
      Run config (init (.init bookId cash)) o →
      ((tradesOf (events o.sink)).map TradeClosed.netPnl).sum = o.book.realizedPnl := by
  intro h
  have hsame := h _ _ _ _ Sample.soldOutside_run
  rw [Sample.soldOutside_pnl.1, Sample.soldOutside_pnl.2] at hsame
  norm_num at hsame

/-- Sold by an order of the OMS, the same shares are told. -/
theorem realized_reported_sold :
    ((tradesOf (events Sample.sold.sink)).map TradeClosed.netPnl).sum = 98 := by
  rw [(realized_reported Sample.config "main" 100000 Sample.sold Sample.sold_run
    (StoredEvent.number "" (events Sample.sold.sink)) (StoredEvent.number_payload _ _)).1]
  exact Sample.sold_pnl

end OMS

end RakshaQuant
