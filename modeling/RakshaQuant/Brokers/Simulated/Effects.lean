import RakshaQuant.Brokers.Simulated.Broker

/-! What each stretch of the broker does, said once: which order it rewrites, and
what it does to the cash, the positions, the tags and the fills. -/

namespace RakshaQuant

theorem simId_injective {bookId : String} {m n : ℕ} (h : simId bookId m = simId bookId n) :
    m = n := by
  have hlists := congrArg String.toList h
  simp only [simId, String.toList_append, List.append_cancel_left_eq] at hlists
  exact Numeral.padded_injective (String.toList_inj.mp hlists)

/-- Where the ids in use are counted up, the next one is free. -/
theorem nextId_free {bookId : String} {next : ℕ} {orders : Dict String SimOrder}
    (h : ∀ boid so, orders.get? boid = some so →
      so.brokerOrderId = boid ∧ ∃ n < next, boid = simId bookId n) :
    orders.get? (simId bookId next) = none := by
  cases hget : orders.get? (simId bookId next) with
  | none => rfl
  | some so =>
    obtain ⟨-, n, hn, heq⟩ := h _ so hget
    have hsame : next = n := simId_injective heq
    omega

theorem fillIdOf_injective {boid boid' : String} {m n : ℕ}
    (h : fillIdOf boid m = fillIdOf boid' n) : boid = boid' ∧ m = n :=
  Numeral.tagged_injective ['-'] 'F' (by decide) (by decide) h

/-- What identifies a broker order and its next fill. -/
def SimOrder.identity (o : SimOrder) : String × String × String × Product × ℕ :=
  (o.brokerOrderId, o.clientOrderId, o.instrumentKey, o.product, o.fillCount)

theorem SimOrder.identity_inj {o o' : SimOrder} (h : o'.identity = o.identity) :
    o'.brokerOrderId = o.brokerOrderId ∧ o'.clientOrderId = o.clientOrderId ∧
      o'.instrumentKey = o.instrumentKey ∧ o'.product = o.product ∧ o'.fillCount = o.fillCount := by
  simpa [identity] using h

/-- A broker's orders keep their identities when one is rewritten. -/
theorem identity_set {orders : Dict String SimOrder} {boid : String} {so so' : SimOrder}
    (h : orders.get? boid = some so) (hid : so'.identity = so.identity) (k : String) :
    ((orders.set boid so').get? k).map SimOrder.identity =
      (orders.get? k).map SimOrder.identity := by
  rw [Dict.get?_set]
  split
  · rename_i hk
    rw [hk, h, Option.map_some, Option.map_some, hid]
  · rfl

/-- All of the broker's money: settled cash, reserved or not, and sale proceeds
still to come. -/
def SimCore.money (core : SimCore) : ℚ := core.cash + (core.unsettled.map Unsettled.amount).sum

/-- The position the broker holds at a key. -/
def SimCore.quantity (core : SimCore) (instrumentKey : String) (product : Product) : ℤ :=
  ((core.positions.get? (instrumentKey, product)).getD .empty).quantity

/-- An order after a fill. -/
def SimOrder.afterFill (o : SimOrder) (s : SimulatedBroker.Settlement) (fill : Fill) : SimOrder :=
  let filled := SimulatedBroker.fillOrder o s fill
  if filled.remaining = 0 then
    { filled with status := .filled, message := "", updatedAt := fill.ts, reserved := 0 }
  else { filled with status := .partiallyFilled }

namespace SimOrder

variable (o : SimOrder) (s : SimulatedBroker.Settlement) (fill : Fill)

theorem afterFill_status : (o.afterFill s fill).status =
    if o.filledQty + fill.quantity = o.quantity then .filled else .partiallyFilled := by
  unfold afterFill
  dsimp only
  have hiff : (SimulatedBroker.fillOrder o s fill).remaining = 0 ↔
      o.filledQty + fill.quantity = o.quantity := by
    show o.quantity - (o.filledQty + fill.quantity) = 0 ↔ _
    omega
  by_cases h : o.filledQty + fill.quantity = o.quantity
  · rw [if_pos (hiff.mpr h), if_pos h]
  · rw [if_neg (hiff.not.mpr h), if_neg h]

/-- What a fill leaves of an order. -/
theorem afterFill_same : (o.afterFill s fill).brokerOrderId = o.brokerOrderId ∧
    (o.afterFill s fill).clientOrderId = o.clientOrderId ∧
    (o.afterFill s fill).instrumentKey = o.instrumentKey ∧ (o.afterFill s fill).side = o.side ∧
    (o.afterFill s fill).product = o.product ∧ (o.afterFill s fill).quantity = o.quantity ∧
    (o.afterFill s fill).triggerPrice = o.triggerPrice ∧
    (o.afterFill s fill).orderType = o.orderType := by
  unfold afterFill
  dsimp only
  split <;> exact ⟨rfl, rfl, rfl, rfl, rfl, rfl, rfl, rfl⟩

theorem afterFill_counts : (o.afterFill s fill).filledQty = o.filledQty + fill.quantity ∧
    (o.afterFill s fill).fillCount = o.fillCount + 1 := by
  unfold afterFill
  dsimp only
  split <;> exact ⟨rfl, rfl⟩

/-- What stays reserved for an order: nothing when it is filled. -/
theorem afterFill_reserved : (o.afterFill s fill).reserved =
    if (SimulatedBroker.fillOrder o s fill).remaining = 0 then 0 else o.reserved - s.release := by
  unfold afterFill
  dsimp only
  split <;> rfl

end SimOrder

namespace SimulatedBroker

section settle

variable (today : Day) (b : SimulatedBroker)

/-- Settling moves money from one purse to the other. -/
theorem settle_spec : ∃ cash unsettled,
    b.settle today = { b with core := { b.core with cash := cash, unsettled := unsettled } } ∧
      cash + (unsettled.map Unsettled.amount).sum = b.core.money ∧
      (unsettled = b.core.unsettled ∧ cash = b.core.cash ∨
        unsettled = b.core.unsettled.filter (fun u => today < u.availableOn) ∧
        cash = b.core.cash +
          ((b.core.unsettled.filter fun u => u.availableOn ≤ today).map Unsettled.amount).sum) := by
  unfold settle
  dsimp only
  split
  · exact ⟨_, _, rfl, rfl, .inl ⟨rfl, rfl⟩⟩
  · refine ⟨_, _, rfl, ?_, .inr ⟨rfl, rfl⟩⟩
    have hsplit : ∀ l : List Unsettled,
        ((l.filter fun u => u.availableOn ≤ today).map Unsettled.amount).sum +
          ((l.filter fun u => today < u.availableOn).map Unsettled.amount).sum =
        (l.map Unsettled.amount).sum := by
      intro l
      induction l with
      | nil => simp
      | cons u rest ih =>
        by_cases h : u.availableOn ≤ today
        · have h' : ¬today < u.availableOn := not_lt.mpr h
          simp only [List.filter_cons, h, h', decide_true, decide_false, if_true,
            Bool.false_eq_true, if_false, List.map_cons, List.sum_cons, ← ih]
          ring
        · have h' : today < u.availableOn := not_le.mp h
          simp only [List.filter_cons, h, h', decide_true, decide_false, if_true,
            Bool.false_eq_true, if_false, List.map_cons, List.sum_cons, ← ih]
          ring
    rw [SimCore.money, ← hsplit b.core.unsettled]
    ring

end settle

section orders

variable {boid : String} {o : SimOrder} {b : SimulatedBroker}

theorem countQuote_of_get (h : b.orders.get? boid = some o) : b.countQuote boid =
    { b with orders := b.orders.set boid { o with eligibleQuotes := o.eligibleQuotes + 1 } } := by
  rw [countQuote, mapOrder, h]

theorem countQuote_of_none (h : b.orders.get? boid = none) : b.countQuote boid = b := by
  rw [countQuote, mapOrder, h]

theorem trigger_of_get (ts : Instant) (h : b.orders.get? boid = some o) : b.trigger boid ts =
    { b with
      orders := b.orders.set boid { o with status := .open, updatedAt := ts }, dirty := true } := by
  rw [trigger, mapOrder, h]

theorem finish_of_get (status : OrderStatus) (message : String) (ts : Instant)
    (h : b.orders.get? boid = some o) : b.finish boid status message ts =
    { b with
      core := { b.core with blocked := b.core.blocked - o.reserved }
      orders := b.orders.set boid
        { o with status := status, message := message, updatedAt := ts, reserved := 0 }
      dirty := true } := by
  rw [finish, h]

end orders

section fills

variable (boid : String) (o : SimOrder) (s : Settlement) (dpDay : Option (String × Day))
  (fill : Fill) (b : SimulatedBroker)

/-- A fill in one record: what it does to the order, the money and the position. -/
theorem bookFill_eq : ∃ blocked,
    b.bookFill boid o s dpDay fill =
      { b with
        core := { applyPosition o.product fill (settleFill s b.core) with
          dpDays := b.core.dpDays ++ dpDay.toList, blocked := blocked }
        orders := b.orders.set boid (o.afterFill s fill)
        dirty := true
        fills := b.fills ++ [fill]
        newFills := b.newFills ++ [fill] } ∧
    blocked = (settleFill s b.core).blocked -
      (if (fillOrder o s fill).remaining = 0 then o.reserved - s.release else 0) := by
  have hcore : ∀ c : SimCore,
      applyPosition o.product fill { c with dpDays := b.core.dpDays ++ dpDay.toList } =
      { applyPosition o.product fill c with dpDays := b.core.dpDays ++ dpDay.toList } :=
    fun _ => rfl
  have hdp : (settleFill s b.core).dpDays = b.core.dpDays := by cases s <;> rfl
  unfold bookFill SimOrder.afterFill
  dsimp only
  rw [hdp, hcore]
  split
  · rw [finish_of_get _ _ _ (Dict.get?_set_self _ _ _)]
    refine ⟨_, ?_, rfl⟩
    simp only [Dict.set_set]
    rfl
  · refine ⟨_, ?_, (sub_zero _).symm⟩
    simp only [mapOrder, Dict.get?_set_self, Dict.set_set]
    rfl

theorem movePosition_quantity (p : SimPosition) : (movePosition p fill).quantity =
    p.quantity + fill.signedQty := by
  have hq := fill.quantity_pos
  unfold movePosition
  dsimp only
  by_cases h : p.quantity = 0 ∨ (0 < p.quantity ↔ 0 < fill.signedQty)
  · rw [if_pos h]
  · rw [if_neg h]
    dsimp only
    unfold Fill.signedQty at h ⊢
    rw [abs_eq_max_neg]
    cases hs : fill.side <;> rw [hs] at h <;> simp only [Side.sign_buy, Side.sign_sell] at h ⊢ <;>
      split <;> split <;> omega

theorem quantity_applyPosition (core : SimCore) (product product' : Product)
    (instrumentKey : String) :
    (applyPosition product fill core).quantity instrumentKey product' =
      core.quantity instrumentKey product' +
        if fill.instrumentKey = instrumentKey ∧ product = product' then fill.signedQty else 0 := by
  unfold SimCore.quantity applyPosition
  dsimp only
  rw [Dict.get?_set]
  by_cases h : fill.instrumentKey = instrumentKey ∧ product = product'
  · obtain ⟨rfl, rfl⟩ := h
    rw [if_pos rfl, if_pos ⟨rfl, rfl⟩, Option.getD_some, movePosition_quantity]
  · have hne : (instrumentKey, product') ≠ (fill.instrumentKey, product) := by
      intro he
      exact h ⟨(congrArg Prod.fst he).symm, (congrArg Prod.snd he).symm⟩
    rw [if_neg hne, if_neg h, add_zero]

/-- A fill moves the money as it moves the book's cash, whatever its settlement. -/
theorem money_settleFill {env : SimEnv} {s : Settlement} (hside : fill.side = o.side)
    (h : env.settlement o fill b = .ok (some s)) :
    (settleFill s b.core).money = b.core.money - fill.signedQty * fill.price - fill.charges := by
  unfold SimEnv.settlement at h
  unfold Fill.signedQty
  rw [hside]
  cases hs : o.side with
  | buy =>
    rw [hs] at h
    dsimp only at h
    split at h
    · cases h
    · cases h
      simp only [settleFill, SimCore.money, Fill.notional, Side.sign_buy]
      push_cast
      ring
  | sell =>
    rw [hs] at h
    dsimp only at h
    cases hp : env.sellProceeds with
    | sameDay =>
      rw [hp] at h
      cases h
      simp only [settleFill, SimCore.money, Fill.notional, Side.sign_sell]
      push_cast
      ring
    | tPlus1 =>
      rw [hp] at h
      cases hday : env.calendar.nextTradingDay fill.ts.istDate with
      | error e =>
        rw [hday] at h
        cases h
      | ok day =>
        rw [hday] at h
        cases h
        simp only [settleFill, SimCore.money, Fill.notional, Side.sign_sell, List.map_append,
          List.sum_append, List.map_cons, List.map_nil, List.sum_cons, List.sum_nil]
        push_cast
        ring

end fills

section placing

/-- What a buy reserves is not negative. -/
theorem buyReservation_nonneg {env : SimEnv} {product : Product} {reference reserved : ℚ} {qty : ℤ}
    (hr : 0 < reference) (hq : 0 < qty)
    (h : env.buyReservation product reference qty = .ok reserved) : 0 ≤ reserved := by
  unfold SimEnv.buyReservation at h
  dsimp only at h
  cases hc : env.costs.charges product .buy (reference * qty * (1 + fundsBuffer)) false with
  | error e =>
    rw [hc] at h
    cases h
  | ok charges =>
    rw [hc] at h
    cases h
    have hqty : (0 : ℚ) < qty := by exact_mod_cast hq
    have hbuffer : (0 : ℚ) < 1 + fundsBuffer := by unfold fundsBuffer; norm_num
    have htotal : (0 : ℚ) ≤ charges.total := charges.total.2
    exact Decimal.quantize_nonneg (by norm_num) (by positivity)

/-- A sale reserves nothing, and a buy what is available, and not less than nothing. -/
theorem reservation_cases {env : SimEnv} {order : Order} {reference reserved : ℚ}
    {b : SimulatedBroker} (hr : 0 < reference)
    (h : env.reservation order reference b = .ok reserved) :
    (order.intent.side = .sell ∧ reserved = 0) ∨
      (order.intent.side = .buy ∧ 0 ≤ reserved ∧ reserved ≤ b.available) := by
  unfold SimEnv.reservation at h
  cases hside : order.intent.side with
  | sell =>
    rw [hside] at h
    cases h
    exact .inl ⟨rfl, rfl⟩
  | buy =>
    rw [hside] at h
    dsimp only at h
    cases hres : env.buyReservation order.intent.product reference order.quantity with
    | error e =>
      rw [hres] at h
      cases h
    | ok amount =>
      rw [hres] at h
      have hamount := buyReservation_nonneg hr order.quantity_pos hres
      simp only [bind, Except.bind] at h
      split at h
      · cases h
      · rename_i hle
        cases h
        exact .inr ⟨rfl, hamount, not_lt.mp hle⟩

end placing

end SimulatedBroker

/-! ## Callbacks -/

namespace World

variable {S : Type} (hooks : Hooks S) (boid : String) (w : World SimulatedBroker S)

theorem notify_of_get {boid : String} {w : World SimulatedBroker S} {o : SimOrder}
    (h : w.broker.orders.get? boid = some o) : w.notify hooks boid =
      { broker := w.broker.markDirty boid, desk := hooks.onUpdate o.snapshot w.desk } := by
  rw [notify, h]

@[simp] theorem notify_core : (w.notify hooks boid).broker.core = w.broker.core := by
  unfold notify
  split <;> rfl

@[simp] theorem notify_orders : (w.notify hooks boid).broker.orders = w.broker.orders := by
  unfold notify
  split <;> rfl

@[simp] theorem notify_byTag : (w.notify hooks boid).broker.byTag = w.broker.byTag := by
  unfold notify
  split <;> rfl

@[simp] theorem notify_fills : (w.notify hooks boid).broker.fills = w.broker.fills := by
  unfold notify
  split <;> rfl

@[simp] theorem notify_newFills : (w.notify hooks boid).broker.newFills = w.broker.newFills := by
  unfold notify
  split <;> rfl

@[simp] theorem notify_find (coid : String) :
    (w.notify hooks boid).broker.find coid = w.broker.find coid := by
  simp only [SimulatedBroker.find, notify_byTag, notify_orders]

end World

end RakshaQuant
