import Mathlib.Logic.Relation
import RakshaQuant.Oms.Effects

/-! Order statuses over any interleaving. The stretches of the OMS between two
awaits are the steps; the broker may call back before, between and after them,
so a step may find the order anywhere, and the order object a coroutine read
before an await only names the order it is about.

Every move of a status is one `_NEXT` allows, with three exceptions the code
makes: a new fill counts wherever the order stands, `place_order` raising is
recorded wherever the callbacks have taken the order, and so is the rejection of
an order `resolve_unknown` did not find. -/

namespace RakshaQuant

/-- What a step of the OMS is. -/
inductive Cause
  | registered (order : Order)
  | placed (order : Order) (ack : BrokerAck)
  | placeFailed (order : Order) (exc : Exc)
  | updated (snap : BrokerOrderSnapshot)
  | filled (fill : Fill)
  | found (order : Order) (snap : BrokerOrderSnapshot)
  | resolved (order : Order) (snap : BrokerOrderSnapshot)
  | absent (now : Instant) (order : Order)
  | reconciled (diffs : List OMS.Diff)

namespace OMS

/-- One step. A submission registers a new id; the outcome of `place_order` and
the stretches of `resolve_unknown` are about an order the table holds; the
broker calls back with anything. -/
inductive Lifecycle (config : OmsConfig) : Cause → OMS → OMS → Prop
  | registered {o : OMS} {order : Order} (fresh : o.orders.get? order.clientOrderId = none) :
      Lifecycle config (.registered order) o (o.register order)
  | placed {o : OMS} {order : Order} (ack : BrokerAck) (held : o.Holds order) :
      Lifecycle config (.placed order ack) o (o.placed order ack)
  | placeFailed {o : OMS} {order : Order} (exc : Exc) (held : o.Holds order) :
      Lifecycle config (.placeFailed order exc) o (o.placeFailed order exc)
  | updated {o : OMS} (snap : BrokerOrderSnapshot) :
      Lifecycle config (.updated snap) o (o.onUpdate snap)
  | filled {o : OMS} (fill : Fill) :
      Lifecycle config (.filled fill) o (onFill fill o).state
  | found {o : OMS} {order : Order} (snap : BrokerOrderSnapshot) (held : o.Holds order) :
      Lifecycle config (.found order snap) o (o.found order snap)
  | resolved {o : OMS} {order : Order} (snap : BrokerOrderSnapshot) (held : o.Holds order) :
      Lifecycle config (.resolved order snap) o (o.resolved order snap)
  | absent {o : OMS} {order : Order} (now : Instant) (held : o.Holds order) :
      Lifecycle config (.absent now order) o (o.absent config now order)
  | reconciled {o : OMS} (diffs : List Diff) :
      Lifecycle config (.reconciled diffs) o (o.recordReconciliation diffs).1

/-- Any number of steps, in any order. -/
def Run (config : OmsConfig) : OMS → OMS → Prop :=
  Relation.ReflTransGen fun o o' => ∃ cause, Lifecycle config cause o o'

/-! ## What a step does to one order -/

/-- The moves of a status a step may make. -/
inductive StatusMove (o : OMS) (coid : String) : Cause → OrderStatus → OrderStatus → Prop
  /-- The status stays. -/
  | same {cause : Cause} (s : OrderStatus) : StatusMove o coid cause s s
  /-- The table allows the move. -/
  | allowed {cause : Cause} {s s' : OrderStatus} (h : s' ∈ next s) : StatusMove o coid cause s s'
  /-- A fill the book has not seen counts wherever the order stands. -/
  | filled {fill : Fill} {s s' : OrderStatus} (hid : fill.clientOrderId = coid)
      (hnew : fill.fillId ∉ o.book.seen) (h : s' = .filled ∨ s' = .partiallyFilled) :
      StatusMove o coid (.filled fill) s s'
  /-- An outcome that may be a placed order is recorded as UNKNOWN. -/
  | unknown {order : Order} {exc : Exc} {s : OrderStatus} (hid : order.clientOrderId = coid)
      (h : exc.notPlacedReason = none) : StatusMove o coid (.placeFailed order exc) s .unknown
  /-- An outcome that placed nothing is recorded as REJECTED. -/
  | notPlaced {order : Order} {exc : Exc} {s : OrderStatus} (hid : order.clientOrderId = coid)
      (h : exc.notPlacedReason ≠ none) : StatusMove o coid (.placeFailed order exc) s .rejected
  /-- An order the broker does not hold is rejected after the timeout. -/
  | notFound {now : Instant} {order : Order} {s : OrderStatus}
      (hid : order.clientOrderId = coid) : StatusMove o coid (.absent now order) s .rejected

/-- A step that rewrites one order, read at any key. -/
theorem statusMove_of_set {o o' : OMS} {cause : Cause} {coid k : String}
    {before after known changed : Order} (hk : o.orders.get? k = some known)
    (hset : o'.orders = o.orders.set k changed)
    (hmove : StatusMove o k cause known.status changed.status)
    (hb : o.orders.get? coid = some before) (ha : o'.orders.get? coid = some after) :
    StatusMove o coid cause before.status after.status := by
  rw [hset, Dict.get?_set] at ha
  by_cases hc : coid = k
  · subst hc
    rw [if_pos rfl, Option.some.injEq] at ha
    rw [hk, Option.some.injEq] at hb
    rw [← ha, ← hb]
    exact hmove
  · rw [if_neg hc, hb, Option.some.injEq] at ha
    rw [ha]
    exact .same _

theorem statusMove_of_eq {o o' : OMS} {cause : Cause} {coid : String} {before after : Order}
    (heq : o'.orders = o.orders) (hb : o.orders.get? coid = some before)
    (ha : o'.orders.get? coid = some after) :
    StatusMove o coid cause before.status after.status := by
  rw [heq, hb, Option.some.injEq] at ha
  rw [ha]
  exact .same _

theorem statusAfter_cases (order : Order) (fill : Fill) :
    statusAfter order fill = .filled ∨ statusAfter order fill = .partiallyFilled := by
  unfold statusAfter
  split
  · exact .inl rfl
  · exact .inr rfl

/-- The step lemma: whatever the step, an order's status makes a listed move. -/
theorem Lifecycle.statusMove {config : OmsConfig} {cause : Cause} {o o' : OMS}
    (step : Lifecycle config cause o o') (hk : o.Keyed) {coid : String} {before after : Order}
    (hb : o.orders.get? coid = some before) (ha : o'.orders.get? coid = some after) :
    StatusMove o coid cause before.status after.status := by
  cases step with
  | @registered _ order fresh =>
    -- a new order is under a free id, so the order looked at is another
    have hc : coid ≠ order.clientOrderId := by
      rintro rfl
      rw [fresh] at hb
      cases hb
    rw [register_orders, Dict.get?_set_ne _ _ hc, hb, Option.some.injEq] at ha
    rw [ha]
    exact .same _
  | placed ack held =>
    obtain ⟨known, hknown⟩ := held
    rcases placed_orders ack hk hknown with heq | ⟨hs, version, heq⟩
    · exact statusMove_of_eq heq hb ha
    · refine statusMove_of_set hknown heq ?_ hb ha
      show StatusMove o _ _ known.status (advanced known.status ack.status)
      unfold advanced
      split
      · rename_i hadv
        exact .allowed (mem_next_of_advances hadv)
      · exact .same _
  | placeFailed exc held =>
    obtain ⟨known, hknown⟩ := held
    obtain ⟨status, event, hstatus, horders, -, -⟩ := placeFailed_spec exc hknown
    refine statusMove_of_set hknown horders ?_ hb ha
    rcases hstatus with ⟨rfl, hr, -⟩ | ⟨rfl, hr, -⟩
    · exact .unknown rfl hr
    · exact .notPlaced rfl hr
  | updated snap =>
    cases hs : o.orders.get? snap.clientOrderId with
    | none =>
      obtain ⟨a, heq⟩ := onUpdate_unknown hs
      exact statusMove_of_eq (by rw [heq, emit_orders]) hb ha
    | some order =>
      rcases (onUpdate_known hk hs).2 with ⟨-, -, hadv, version, heq, -⟩ | ⟨-, -, hsame | hset⟩
      · exact statusMove_of_set hs heq (.allowed (mem_next_of_advances hadv)) hb ha
      · exact statusMove_of_eq hsame.2 hb ha
      · exact statusMove_of_set hs hset.2 (.same _) hb ha
  | filled fill =>
    rcases onFill_orders fill hk with heq | ⟨order, version, hnew, hord, heq⟩
    · exact statusMove_of_eq heq hb ha
    · exact statusMove_of_set hord heq (.filled rfl hnew (statusAfter_cases order fill)) hb ha
  | found snap held =>
    obtain ⟨known, hknown⟩ := held
    exact statusMove_of_set hknown (found_orders snap hknown) (.same _) hb ha
  | resolved snap held =>
    obtain ⟨known, hknown⟩ := held
    rcases resolved_orders snap hk hknown with heq | ⟨hnext, version, heq⟩
    · exact statusMove_of_eq heq hb ha
    · exact statusMove_of_set hknown heq (.allowed hnext) hb ha
  | absent now held =>
    obtain ⟨known, hknown⟩ := held
    rcases absent_orders _ _ hknown with ⟨heq, -⟩ | ⟨version, -, -, heq, -⟩
    · exact statusMove_of_eq heq hb ha
    · exact statusMove_of_set hknown heq (.notFound rfl) hb ha
  | reconciled diffs => exact statusMove_of_eq (recordReconciliation_orders diffs o) hb ha

/-! ## Runs -/

theorem Lifecycle.keyed {config : OmsConfig} {cause : Cause} {o o' : OMS}
    (step : Lifecycle config cause o o') (hk : o.Keyed) : o'.Keyed := by
  cases step with
  | registered fresh => exact keyed_set hk (register_orders _ o) rfl
  | placed ack held => exact (touched_placed ack hk held).keyed hk
  | placeFailed exc held => exact (touched_placeFailed exc hk held).keyed hk
  | updated snap => exact (touched_onUpdate snap hk).keyed hk
  | filled fill => exact (touched_onFill fill hk).keyed hk
  | found snap held => exact (touched_found snap hk held).keyed hk
  | resolved snap held => exact (touched_resolved snap hk held).keyed hk
  | absent now held => exact (touched_absent config now hk held).keyed hk
  | reconciled diffs => exact keyed_of_eq hk (recordReconciliation_orders diffs o)

theorem keyed_init (book : PositionBook) : (init book).Keyed := by
  intro coid order h
  cases h

theorem Run.keyed {config : OmsConfig} {o o' : OMS} (run : Run config o o') (hk : o.Keyed) :
    o'.Keyed :=
  Effect.invariant (fun _ _ ⟨_, step⟩ hk => step.keyed hk) run hk

/-- **Status moves over runs.** In every run, every step moves every order's
status as the table allows, except that a newly delivered fill moves its order
to a fill status, `place_order` raising moves its order to UNKNOWN or REJECTED,
and an order `resolve_unknown` did not find becomes REJECTED. So an order in a
terminal status keeps it unless one of these three happens to it. -/
theorem status_moves (config : OmsConfig) (book : PositionBook) (o o' : OMS) (cause : Cause)
    (run : Run config (init book) o) (step : Lifecycle config cause o o') (coid : String)
    (before after : Order) (hb : o.orders.get? coid = some before)
    (ha : o'.orders.get? coid = some after) :
    StatusMove o coid cause before.status after.status ∧
    (before.status.isTerminal = true → after.status ≠ before.status →
      (∃ fill, cause = .filled fill ∧ fill.clientOrderId = coid ∧
          (after.status = .filled ∨ after.status = .partiallyFilled)) ∨
      (∃ order exc, cause = .placeFailed order exc ∧ order.clientOrderId = coid ∧
          (after.status = .unknown ∨ after.status = .rejected)) ∨
      ∃ now order, cause = .absent now order ∧ order.clientOrderId = coid ∧
          after.status = .rejected) := by
  have hmove := step.statusMove (run.keyed (keyed_init book)) hb ha
  refine ⟨hmove, fun hterm hne => ?_⟩
  generalize hs : before.status = s at hmove hterm hne
  generalize hs' : after.status = s' at hmove hne ⊢
  cases hmove with
  | same => exact absurd rfl hne
  | allowed h =>
    rw [next_of_terminal hterm] at h
    cases h
  | filled hid hnew h => exact .inl ⟨_, rfl, hid, h⟩
  | unknown hid h => exact .inr (.inl ⟨_, _, rfl, hid, .inl rfl⟩)
  | notPlaced hid h => exact .inr (.inl ⟨_, _, rfl, hid, .inr rfl⟩)
  | notFound hid => exact .inr (.inr ⟨_, _, rfl, hid, rfl⟩)

end OMS

/-! ## A late fill -/

namespace Sample

theorem ten_pos : (0 : ℤ) < 10 := by decide

theorem hundred_pos : (0 : ℚ) < 100 := by norm_num

theorem no_price_pos : ∀ p ∈ (none : Option ℚ), 0 < p := by simp

def infy : Instrument :=
  { exchange := "NSE", series := "EQ", symbol := "INFY", sector := none, tickSize := 1 / 20
    lotSize := 1, misAllowed := true, bandPct := none
    tickSize_pos := by decide +kernel, lotSize_pos := by decide, bandPct_pos := no_price_pos }

/-- Buy ten shares for delivery. -/
def entry : OrderIntent :=
  { intentId := "I1", decisionId := "D1", parentDecisionId := none, bookId := "main"
    strategy := "momentum", signalId := none, instrument := infy, side := .buy, kind := .open
    quantity := some 10, orderType := .market, product := .cnc, validity := .day
    limitPrice := none, triggerPrice := none, stopPrice := none, targetPrice := none
    reduceOnly := false, decisionPrice := 100, decisionTs := 0, reason := .entry
    source := .signalEngine
    quantity_pos := by simp, limitPrice_pos := no_price_pos, triggerPrice_pos := no_price_pos
    decisionPrice_pos := hundred_pos, reduceOnly_eq := rfl, limit_needs_price := by simp
    sl_needs_trigger := by simp, sl_needs_price := by simp }

def config : OmsConfig := ⟨id, 30000000⟩

def order : Order := OMS.newOrder config entry ⟨10, ten_pos⟩ 0

/-- The broker's view of the order, nothing filled. -/
def snap (status : OrderStatus) : BrokerOrderSnapshot :=
  { brokerOrderId := "SIM-1", clientOrderId := "I1", instrumentKey := infy.key, side := .buy
    product := .cnc, orderType := .market, quantity := 10, filledQty := 0, avgFillPrice := none
    triggerPrice := none, status := status, updatedAt := 0, message := "" }

/-- The order's `n`-th fill: `qty` shares at 100. -/
def fill (n : ℕ) (qty : ℤ) (h : 0 < qty) : Fill :=
  { fillId := "SIM-1-F" ++ toString n, clientOrderId := "I1", brokerOrderId := some "SIM-1"
    bookId := "main", decisionId := "D1", instrumentKey := infy.key, side := .buy, quantity := qty
    price := 100, ts := 0, charges := 1, chargesBreakdown := []
    quantity_pos := h, price_pos := hundred_pos, charges_nonneg := by decide +kernel }

def book : PositionBook := .init "main" 100000

/-- Submitted, acknowledged by the broker, cancelled there. -/
def cancelled : OMS :=
  (((OMS.init book).register order).onUpdate (snap .open)).onUpdate (snap .cancelled)

/-- A fill of four of the ten shares, reported after the cancel. -/
def lateFill : Fill := fill 1 4 (by decide)

theorem cancelled_run : OMS.Run config (OMS.init book) cancelled := by
  have registered : OMS.Run config (OMS.init book) ((OMS.init book).register order) :=
    .single ⟨_, .registered rfl⟩
  exact (registered.tail ⟨_, .updated (snap .open)⟩).tail ⟨_, .updated (snap .cancelled)⟩

theorem cancelled_order :
    ∃ before, cancelled.orders.get? "I1" = some before ∧ before.status = .cancelled := by
  refine ⟨_, rfl, ?_⟩
  decide +kernel

theorem late_filled_order :
    ∃ after, (OMS.onFill lateFill cancelled).state.orders.get? "I1" = some after ∧
      after.status = .partiallyFilled := by
  refine ⟨_, rfl, ?_⟩
  decide +kernel

end Sample

namespace OMS

/-- Terminal statuses are not absorbing: a fill reported after the cancel takes
the order to PARTIALLY_FILLED, which is neither terminal nor in the table. -/
theorem terminal_not_absorbing :
    ¬ ∀ (config : OmsConfig) (book : PositionBook) (o o' : OMS) (cause : Cause),
      Run config (init book) o → Lifecycle config cause o o' →
      ∀ (coid : String) (before after : Order), o.orders.get? coid = some before →
        o'.orders.get? coid = some after →
        (before.status.isTerminal = true → after.status.isTerminal = true) ∧
        (after.status ≠ before.status → after.status ∈ next before.status) := by
  intro h
  obtain ⟨before, hbefore, hcancelled⟩ := Sample.cancelled_order
  obtain ⟨after, hafter, hpartially⟩ := Sample.late_filled_order
  have habs := (h _ _ _ _ _ Sample.cancelled_run (.filled Sample.lateFill) "I1" before after
    hbefore hafter).1
  rw [hcancelled, hpartially] at habs
  exact absurd (habs rfl) (by decide)

/-- The late fill is the move `status_moves` lists for it. -/
theorem status_moves_late_fill :
    StatusMove Sample.cancelled "I1" (.filled Sample.lateFill) .cancelled .partiallyFilled := by
  obtain ⟨before, hbefore, hcancelled⟩ := Sample.cancelled_order
  obtain ⟨after, hafter, hpartially⟩ := Sample.late_filled_order
  have hmove := (status_moves Sample.config Sample.book Sample.cancelled _ _ Sample.cancelled_run
    (.filled Sample.lateFill) "I1" before after hbefore hafter).1
  rwa [hcancelled, hpartially] at hmove

end OMS

end RakshaQuant
