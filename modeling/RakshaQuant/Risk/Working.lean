import RakshaQuant.Oms.Restore
import RakshaQuant.Risk.Gate
import RakshaQuant.Risk.Soundness

/-! Orders that still work hold capacity: what the gate reserves for them when it
evaluates an entry. An order without a quote reserves nothing, so the reservation is
complete exactly when every entry that has something left to fill is quoted. -/

namespace RakshaQuant

/-! ## Snapshots of the gate -/

namespace PositionBook

/-- Equity is there when every open position has a mark. -/
theorem marketValue_ok (marks : String → Option ℚ) (entries : List ((String × Product) × Book))
    (h : ∀ e ∈ entries, e.2.quantity ≠ 0 → (marks e.1.1).isSome) :
    ∃ value, marketValue marks entries = .ok value := by
  induction entries with
  | nil => exact ⟨0, rfl⟩
  | cons e rest ih =>
    obtain ⟨⟨key, product⟩, book⟩ := e
    obtain ⟨value, hvalue⟩ := ih fun e he => h e (List.mem_cons_of_mem _ he)
    by_cases hq : book.quantity = 0
    · exact ⟨value, by simp [marketValue, hq, hvalue]⟩
    · obtain ⟨mark, hmark⟩ := Option.isSome_iff_exists.mp (h _ List.mem_cons_self hq)
      exact ⟨_, by simp [marketValue, hq, hmark, hvalue, Except.map]; rfl⟩

end PositionBook

namespace RiskGate

variable (gate : RiskGate) (o : OMS) (intent : OrderIntent) (now : Instant)

/-- Every open position is marked. -/
theorem marksBy_isSome {e : (String × Product) × Book} (he : e ∈ o.book.books.entries)
    (hq : e.2.quantity ≠ 0) : ((marksBy gate o (some intent) now).get? e.1.1).isSome := by
  have hopen : PositionBook.positionOf o.book.bookId e.1 e.2 now ∈ openPositions o.book now := by
    refine List.mem_filter.mpr ⟨?_, decide_eq_true hq⟩
    exact List.mem_map.mpr ⟨e, (List.perm_insertionSort _ _).mem_iff.mpr he, rfl⟩
  obtain ⟨mark, hmark⟩ := Dict.ofList_of_mem (List.mem_map.mpr ⟨_, hopen, rfl⟩ :
    (e.1.1, markOf gate o (some intent) (PositionBook.positionOf o.book.bookId e.1 e.2 now)) ∈
      (openPositions o.book now).map fun p => (p.instrumentKey, markOf gate o (some intent) p))
  exact Option.isSome_iff_exists.mpr ⟨mark, hmark⟩

/-- The snapshot is always there, with the market facts of every key it wants and the
session flags of its instant. -/
theorem snapshot_ok : ∃ s, gate.snapshot o (some intent) now = .ok s ∧
    s.market = marketBy gate o (some intent) now ∧
    (s.isWeekend = true ↔ 5 ≤ Day.weekday now.istDate) ∧
    s.isTradingDay = (sessionFlags gate.calendar gate.lifecycle now).tradingDay ∧
    s.sessionOpen = (sessionFlags gate.calendar gate.lifecycle now).sessionOpen := by
  obtain ⟨value, hvalue⟩ := PositionBook.marketValue_ok
    (marksBy gate o (some intent) now).get? o.book.books.entries
    fun e he hq => marksBy_isSome gate o intent now he hq
  have hequity : o.book.equity (marksBy gate o (some intent) now).get? =
      .ok (o.book.cash + value) := by
    simp [PositionBook.equity, hvalue, Except.map]
  unfold snapshot
  simp only [hequity]
  exact ⟨_, rfl, rfl, decide_eq_true_iff, rfl, rfl⟩

theorem marketBy_get {key : String} (h : key ∈ wanted o (some intent) now) :
    (marketBy gate o (some intent) now).get? key = some (factsOf gate o (some intent) key) := by
  refine (Dict.get?_ofList_iff ?_).mpr (List.mem_map.mpr ⟨key, h, rfl⟩)
  intro facts hfacts
  obtain ⟨key', -, heq⟩ := List.mem_map.mp hfacts
  obtain ⟨rfl, rfl⟩ := Prod.mk.inj heq
  rfl

/-! ## What an entry holds -/

/-- The fresh price of a key: the quote of the instrument the gate knows by it. -/
def priceOf (key : String) : Option ℚ := (factsOf gate o (some intent) key).quote.map Quote.ltp

/-- The orders that hold capacity. -/
def entries (o : OMS) : List Order := o.orders.values.filter holds

/-- What is left of an order, at the fresh price or else at a recorded one. -/
def worth (recorded : Order → { p : ℚ // 0 < p }) (order : Order) : ℚ :=
  ((priceOf gate o intent order.intent.instrument.key).getD (recorded order).1) *
    order.remainingQty

/-- Every entry that has something left to fill is quoted. -/
def Quoted : Prop :=
  ∀ order ∈ entries o, order.remainingQty ≠ 0 →
    (priceOf gate o intent order.intent.instrument.key).isSome

/-- What the code reserves for an order. -/
def reservedFor (order : Order) : ℚ :=
  ((priceOf gate o intent order.intent.instrument.key).getD 0) * order.remainingQty

variable {gate o intent now} in
/-- An order's context on the snapshot sees the fresh price. -/
theorem context_price {snapshot : RiskSnapshot} (hmarket : snapshot.market =
      marketBy gate o (some intent) now) {order : Order} (hmem : order ∈ entries o)
    (limits : RiskLimits) (reserved : Reservations) :
    (RiskFacts.context ⟨snapshot, limits, reserved⟩ order.intent none).price =
      priceOf gate o intent order.intent.instrument.key := by
  obtain ⟨hvalue, hholds⟩ := List.mem_filter.mp hmem
  have hwanted : order.intent.instrument.key ∈ wanted o (some intent) now := by
    refine List.mem_append_right _ (List.mem_map.mpr ⟨order, ?_, rfl⟩)
    refine List.mem_filter.mpr ⟨hvalue, ?_⟩
    simp only [holds, Bool.and_eq_true] at hholds
    exact hholds.1
  unfold RiskContext.price RiskContext.market RiskContext.key priceOf
  simp only [RiskFacts.context, hmarket, marketBy_get gate o intent now hwanted, Option.getD_some]

/-- A measure that each round of a fold moves by its own amount. -/
theorem foldl_measure {α β : Type} {f : α → β → α} (m : α → ℚ) (c : β → ℚ) {l : List β}
    (h : ∀ a, ∀ b ∈ l, m (f a b) = m a + c b) (a : α) :
    m (l.foldl f a) = m a + (l.map c).sum := by
  induction l generalizing a with
  | nil => simp
  | cons b rest ih =>
    rw [List.foldl_cons, ih fun a b hb => h a b (List.mem_cons_of_mem _ hb),
      h a b List.mem_cons_self, List.map_cons, List.sum_cons, add_assoc]

/-- What a reservation holds for some orders, each worth an amount. -/
structure Reserves (r : Reservations) (worth : Order → ℚ) (orders : List Order) : Prop where
  gross : r.gross = (orders.map worth).sum
  cash : r.cash = (orders.map worth).sum
  sector : ∀ name, Reservations.amount r.bySector name =
    (orders.map fun order =>
      if sectorName order.intent.instrument.sector = name then worth order else 0).sum
  strategy : ∀ name, Reservations.amount r.byStrategy name =
    (orders.map fun order => if order.intent.strategy = name then worth order else 0).sum

/-- What one round adds: nothing without a price. -/
theorem add_uncounted (r : Reservations) (ctx : RiskContext RiskFacts)
    (hopens : ctx.intent.kind.reducesRisk = false) (quantity : ℤ) :
    let r' := r.add ctx quantity false
    let value := ctx.price.getD 0 * quantity
    r'.gross = r.gross + value ∧ r'.cash = r.cash + value ∧
      (∀ name, Reservations.amount r'.bySector name =
        Reservations.amount r.bySector name + if ctx.sector = name then value else 0) ∧
      ∀ name, Reservations.amount r'.byStrategy name =
        Reservations.amount r.byStrategy name +
          if ctx.intent.strategy = name then value else 0 := by
  intro r' value
  cases hprice : ctx.price with
  | none =>
    have hr : r' = r := by simp [r', Reservations.add, hopens, hprice]
    have hvalue : value = 0 := by simp [value, hprice]
    simp [hr, hvalue]
  | some price =>
    have hvalue : value = price * quantity := by simp [value, hprice]
    rw [hvalue]
    simp [r', Reservations.add, hopens, hprice, Reservations.amount_addTo]

/-- What the gate reserves. -/
theorem working_reserves {snapshot : RiskSnapshot}
    (hmarket : snapshot.market = marketBy gate o (some intent) now) :
    Reserves (working gate.limits o snapshot) (reservedFor gate o intent) (entries o) := by
  have hfold : working gate.limits o snapshot = (entries o).foldl (fun r order =>
      r.add (RiskFacts.context ⟨snapshot, gate.limits, r⟩ order.intent none) order.remainingQty
        false) .empty := by
    rw [entries, List.foldl_filter]
    rfl
  have hround : ∀ (r : Reservations), ∀ order ∈ entries o,
      let r' := r.add (RiskFacts.context ⟨snapshot, gate.limits, r⟩ order.intent none)
        order.remainingQty false
      let value := reservedFor gate o intent order
      r'.gross = r.gross + value ∧ r'.cash = r.cash + value ∧
        (∀ name, Reservations.amount r'.bySector name = Reservations.amount r.bySector name +
          if sectorName order.intent.instrument.sector = name then value else 0) ∧
        ∀ name, Reservations.amount r'.byStrategy name = Reservations.amount r.byStrategy name +
          if order.intent.strategy = name then value else 0 := by
    intro r order hmem
    have hopens : order.intent.kind.reducesRisk = false := by
      have hholds := (List.mem_filter.mp hmem).2
      simp only [holds, Bool.and_eq_true, Bool.not_eq_true'] at hholds
      exact hholds.2
    have hadd := add_uncounted r (RiskFacts.context ⟨snapshot, gate.limits, r⟩ order.intent none)
      hopens order.remainingQty
    rw [context_price hmarket hmem] at hadd
    exact hadd
  rw [hfold]
  exact
    { gross := by
        rw [foldl_measure Reservations.gross _ fun r order hm => (hround r order hm).1]
        exact zero_add _
      cash := by
        rw [foldl_measure Reservations.cash _ fun r order hm => (hround r order hm).2.1]
        exact zero_add _
      sector := fun name => by
        rw [foldl_measure (fun r => Reservations.amount r.bySector name) _
          fun r order hm => (hround r order hm).2.2.1 name]
        exact zero_add _
      strategy := fun name => by
        rw [foldl_measure (fun r => Reservations.amount r.byStrategy name) _
          fun r order hm => (hround r order hm).2.2.2 name]
        exact zero_add _ }

/-- For a quoted entry the code reserves what it is worth. -/
theorem reservedFor_eq {recorded : Order → { p : ℚ // 0 < p }} {order : Order}
    (h : order.remainingQty ≠ 0 →
      (priceOf gate o intent order.intent.instrument.key).isSome) :
    reservedFor gate o intent order = worth gate o intent recorded order := by
  unfold reservedFor worth
  by_cases hleft : order.remainingQty = 0
  · simp [hleft]
  · obtain ⟨price, hprice⟩ := Option.isSome_iff_exists.mp (h hleft)
    simp [hprice]

/-- The totals agree exactly when every entry with something left is quoted: each one
that is not leaves its worth out. -/
theorem sum_worth_iff (recorded : Order → { p : ℚ // 0 < p }) (hwithin : o.WithinQuantity) :
    ((entries o).map (reservedFor gate o intent)).sum =
      ((entries o).map (worth gate o intent recorded)).sum ↔ Quoted gate o intent := by
  have hleft : ∀ order ∈ entries o, (0 : ℚ) ≤ order.remainingQty := by
    intro order hmem
    obtain ⟨coid, hget⟩ := o.orders.mem_values_iff.mp (List.mem_filter.mp hmem).1
    have := hwithin coid order hget
    rw [Order.remainingQty]
    exact_mod_cast sub_nonneg.mpr this
  have hle : ∀ order ∈ entries o,
      reservedFor gate o intent order ≤ worth gate o intent recorded order := by
    intro order hmem
    unfold reservedFor worth
    refine mul_le_mul_of_nonneg_right ?_ (hleft order hmem)
    cases priceOf gate o intent order.intent.instrument.key with
    | none => exact (recorded order).2.le
    | some price => exact le_rfl
  constructor
  · intro hsum order hmem hne
    by_contra hnone
    have hprice : priceOf gate o intent order.intent.instrument.key = none :=
      Option.not_isSome_iff_eq_none.mp hnone
    have hlt : reservedFor gate o intent order < worth gate o intent recorded order := by
      unfold reservedFor worth
      rw [hprice, Option.getD_none, Option.getD_none, zero_mul]
      have hpos : (0 : ℚ) < order.remainingQty :=
        lt_of_le_of_ne (hleft order hmem) (by exact_mod_cast Ne.symm hne)
      exact mul_pos (recorded order).2 hpos
    exact absurd hsum (List.sum_lt_sum _ _ hle ⟨order, hmem, hlt⟩).ne
  · intro hquoted
    exact congrArg List.sum (List.map_congr_left fun order hmem =>
      reservedFor_eq gate o intent (hquoted order hmem))

/-- The gate evaluates on a snapshot with the market facts it wants, against what it
reserves there. -/
theorem decide_ok (quantity : Option ℤ) : ∃ snapshot,
    gate.decide o now intent quantity =
        .ok (gate.limits.evaluate intent snapshot quantity (working gate.limits o snapshot)) ∧
      Reserves (working gate.limits o snapshot) (reservedFor gate o intent) (entries o) := by
  obtain ⟨snapshot, hsnapshot, hmarket, -⟩ := snapshot_ok gate o intent now
  refine ⟨snapshot, ?_, working_reserves gate o intent now hmarket⟩
  unfold RiskGate.decide
  rw [hsnapshot]
  rfl

/-- Working entries hold their capacity in an evaluation: each has what is left of it in
every total, and the room of an approval leaves all of that out. -/
structure HoldsCapacity (recorded : Order → { p : ℚ // 0 < p }) (e : Evaluation) : Prop where
  reserves : Reserves e.context.facts.reserved (worth gate o intent recorded) (entries o)
  room : 0 < e.approvedQty → ∃ price, e.context.price = some price ∧
    e.context.facts.snapshot.grossExposure + ((entries o).map (worth gate o intent recorded)).sum +
        e.approvedQty * price ≤ e.context.facts.snapshot.equity * gate.limits.maxGrossExposurePct ∧
    e.context.facts.snapshot.sectorExposure e.context.sector + ((entries o).map fun order =>
          if sectorName order.intent.instrument.sector = e.context.sector then
            worth gate o intent recorded order else 0).sum +
        e.approvedQty * price ≤ e.context.facts.snapshot.equity * gate.limits.maxSectorPct ∧
    e.context.facts.snapshot.deployed intent.strategy + ((entries o).map fun order =>
          if order.intent.strategy = intent.strategy then
            worth gate o intent recorded order else 0).sum +
        e.approvedQty * price ≤ e.context.facts.snapshot.equity * gate.limits.strategyCapitalPct ∧
    (intent.side = .buy → ((entries o).map (worth gate o intent recorded)).sum +
        e.approvedQty * (price * PortfolioChecks.buyCostBuffer) ≤ e.context.facts.snapshot.cash)

/-- **Working entries.** The gate always evaluates an opening intent, and working entries
hold their capacity in the evaluation exactly when every entry that has something left
to fill is quoted. -/
theorem working_holds (quantity : Option ℤ) (recorded : Order → { p : ℚ // 0 < p })
    (hopens : intent.kind.reducesRisk = false) (hwithin : o.WithinQuantity) :
    ∃ e, gate.decide o now intent quantity = .ok e ∧
      (HoldsCapacity gate o intent recorded e ↔ Quoted gate o intent) := by
  obtain ⟨snapshot, hdecide, hreserves⟩ := decide_ok gate o intent now quantity
  refine ⟨_, hdecide, ?_⟩
  rw [← sum_worth_iff gate o intent recorded hwithin]
  constructor
  · intro h
    rw [← hreserves.gross, ← h.reserves.gross]
    rfl
  · intro hsum
    have hquoted := (sum_worth_iff gate o intent recorded hwithin).mp hsum
    have hworth : ∀ order ∈ entries o,
        reservedFor gate o intent order = worth gate o intent recorded order :=
      fun order hmem => reservedFor_eq gate o intent (hquoted order hmem)
    have hholds : Reserves (working gate.limits o snapshot) (worth gate o intent recorded)
        (entries o) :=
      { gross := hreserves.gross.trans hsum
        cash := hreserves.cash.trans hsum
        sector := fun name => (hreserves.sector name).trans
          (congrArg List.sum (List.map_congr_left fun order hm => by rw [hworth order hm]))
        strategy := fun name => (hreserves.strategy name).trans
          (congrArg List.sum (List.map_congr_left fun order hm => by rw [hworth order hm])) }
    refine ⟨hholds, fun hq => ?_⟩
    obtain ⟨price, distance, hprice, -, -, hlimits⟩ :=
      (RiskLimits.evaluate_passes hopens hq).2.2.sizeLimits hq
    refine ⟨price, hprice, ?_, ?_, ?_, ?_⟩
    · rw [← hholds.gross]
      exact hlimits.gross
    · rw [← hholds.sector]
      exact hlimits.sector
    · rw [← hholds.strategy]
      exact hlimits.capital
    · rw [← hholds.cash]
      exact hlimits.cash

end RiskGate

/-! ## An entry that works across a restart -/

namespace Sample

theorem opens_after_preopen : (32400000000 : ℤ) ≤ 33300000000 := by decide

theorem closes_after_open : (33300000000 : ℤ) < 55800000000 := by decide

def hours : SessionTimes :=
  ⟨32400000000, 33300000000, 55800000000, opens_after_preopen, closes_after_open⟩

/-- The weekdays of 2026, and a session on Sunday 2026-02-01. -/
def nse : NSECalendar :=
  { default := hours, years := [2026], holidays := []
    specials := .ofList [(20485, some hours)] }

/-- 09:30 on Monday 2026-10-05. -/
def monday : Instant := Day.at 20731 34200000000

/-- A live quote at 100, of that instant. -/
def quoted : MarketFacts :=
  { facts with
    quote := some
      { instrumentKey := infy.key, ltp := 100, prevClose := none, volumeCum := 0
        exchangeTs := monday, receiptTs := monday, ltp_pos := hundred_pos
        prevClose_pos := no_price_pos, volumeCum_nonneg := none_traded } }

/-- A gate before an empty book, with a market source. -/
def riskGate (market : Instrument → MarketFacts) : RiskGate :=
  { limits := limits, tracker := none, switches := .initial, calendar := nse, market := market
    environment := "paper", lifecycle := .default, instruments := []
    flags := ⟨false, true, false⟩, events := none }

/-- The OMS of a process that starts with a submitted entry of ten shares in its log. -/
def restarted : OMS := (OMS.restore [.orderSubmitted order] (OMS.init book)).state

/-- An entry in another instrument. -/
def other : OrderIntent :=
  { stopped with intentId := "I2", instrument := { infy with symbol := "TCS" } }

/-- It is rebuilt from a run, as every restarted OMS is. -/
theorem restarted_within : restarted.WithinQuantity := by
  have hchange : OMS.Change (fun _ => True) (OMS.init book) ((OMS.init book).register order) :=
    .registered ⟨rfl, rfl, rfl, rfl⟩ trivial rfl rfl (fun h => absurd h (by decide)) rfl rfl rfl
  obtain ⟨r, hreplays, hrestored⟩ := OMS.Restored.changes (.single hchange)
  obtain ⟨n, hrun⟩ := hreplays.run 0
  have hr : r = restarted := (congrArg EStateM.Result.state hrun).symm
  rw [← hr]
  exact (OMS.Restored.changes_withinQuantity (.single hchange)).2 r hrestored

theorem restarted_entries : RiskGate.entries restarted = [order] := by
  rfl

end Sample

namespace RiskGate

/-- With quotes of both instruments the ten shares are reserved. -/
theorem working_holds_quoted : ∃ e, (Sample.riskGate fun _ => Sample.quoted).decide
      Sample.restarted Sample.monday Sample.other none = .ok e ∧
    HoldsCapacity (Sample.riskGate fun _ => Sample.quoted) Sample.restarted Sample.other
      (fun _ => ⟨100, Sample.hundred_pos⟩) e := by
  obtain ⟨e, hdecide, hiff⟩ := working_holds (Sample.riskGate fun _ => Sample.quoted)
    Sample.restarted Sample.other Sample.monday none (fun _ => ⟨100, Sample.hundred_pos⟩) rfl
    Sample.restarted_within
  refine ⟨e, hdecide, hiff.mpr ?_⟩
  intro order hmem _
  rw [Sample.restarted_entries, List.mem_singleton] at hmem
  rw [hmem]
  decide +kernel

/-- After a restart only the other instrument is quoted: at no recorded price the working
entry's capacity is held, and ten shares of the other are approved. -/
theorem working_unquoted :
    let gate := Sample.riskGate fun i => if i.symbol = "TCS" then Sample.quoted else .empty
    (¬ ∃ recorded e, gate.decide Sample.restarted Sample.monday Sample.other none = .ok e ∧
        HoldsCapacity gate Sample.restarted Sample.other recorded e) ∧
      (gate.decide Sample.restarted Sample.monday Sample.other none).toOption.map
        Evaluation.approvedQty = some 10 := by
  intro gate
  refine ⟨?_, by decide +kernel⟩
  rintro ⟨recorded, e, hdecide, hholds⟩
  obtain ⟨snapshot, hok, hreserves⟩ := decide_ok gate Sample.restarted Sample.other Sample.monday
    none
  rw [hok] at hdecide
  obtain rfl := Except.ok.inj hdecide
  have hquoted := (sum_worth_iff gate Sample.restarted Sample.other recorded
    Sample.restarted_within).mp (hreserves.gross.symm.trans hholds.reserves.gross)
  have hsome := hquoted Sample.order (by rw [Sample.restarted_entries]; exact List.mem_singleton_self _)
    (by decide)
  revert hsome
  decide +kernel

end RiskGate

end RakshaQuant
