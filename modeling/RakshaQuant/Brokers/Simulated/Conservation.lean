import RakshaQuant.Brokers.Simulated.Changes

/-! The conservation laws of the simulated broker. Blocked cash is what the orders reserve;
cash, with the credits still to come, is the starting cash and what the fills paid; orders
and positions add up from the fills; and what was paid for the positions is their realized
result. They hold wherever a run leads, also when a subscriber raises in the middle. -/

namespace RakshaQuant

/-- What a position cost, negative where it is short. -/
def SimPosition.signedCost (p : SimPosition) : ℚ := p.quantity.sign * p.cost

namespace SimulatedBroker

/-- The product of the order a fill is of. -/
def productOf (b : SimulatedBroker) (fill : Fill) : Option Product :=
  (fill.brokerOrderId.bind b.orders.get?).map SimOrder.product

def fillsOf (b : SimulatedBroker) (boid : String) : List Fill :=
  b.fills.filter fun f => f.brokerOrderId = some boid

/-- The fills of an instrument's orders of one product. -/
def fillsAt (b : SimulatedBroker) (instrumentKey : String) (product : Product) : List Fill :=
  b.fills.filter fun f => f.instrumentKey = instrumentKey ∧ b.productOf f = some product

/-- Orders are kept under their ids, which are counted up; fills are of kept orders. -/
structure Registered (env : SimEnv) (b : SimulatedBroker) : Prop where
  ids : ∀ boid so, b.orders.get? boid = some so →
    so.brokerOrderId = boid ∧ ∃ n < b.core.nextOrder, boid = simId env.bookId n
  made : ∀ f ∈ b.fills, ∃ boid so, b.orders.get? boid = some so ∧ f.brokerOrderId = some boid ∧
    f.instrumentKey = so.instrumentKey

/-- The conservation laws. -/
structure Conserves (startingCash : ℚ) (b : SimulatedBroker) : Prop where
  blocked : b.core.blocked = b.orders.sum fun _ o => o.reserved
  reserved_nonneg : ∀ boid so, b.orders.get? boid = some so → 0 ≤ so.reserved
  reserved_ended : ∀ boid so, b.orders.get? boid = some so → so.status.isLive = false →
    so.reserved = 0
  money : b.core.money = startingCash -
    ((b.fills.filter fun f => f.side = .buy).map fun f => f.notional + f.charges).sum +
    ((b.fills.filter fun f => f.side = .sell).map fun f => f.notional - f.charges).sum
  filledQty : ∀ boid so, b.orders.get? boid = some so →
    so.filledQty = ((b.fillsOf boid).map Fill.quantity).sum
  filledNotional : ∀ boid so, b.orders.get? boid = some so →
    so.filledNotional = ((b.fillsOf boid).map Fill.notional).sum
  within : ∀ boid so, b.orders.get? boid = some so → so.filledQty ≤ so.quantity
  position : ∀ instrumentKey product, b.core.quantity instrumentKey product =
    ((b.fillsAt instrumentKey product).map Fill.signedQty).sum
  equity : b.core.money + b.core.positions.sum (fun _ p => p.signedCost) =
    startingCash + b.core.positions.sum fun _ p => p.realized

/-! ## Positions -/

/-- A position of nothing cost nothing. -/
def Flat (core : SimCore) : Prop :=
  ∀ key p, core.positions.get? key = some p → p.quantity = 0 → p.cost = 0

theorem movePosition_flat (p : SimPosition) (fill : Fill)
    (h : (movePosition p fill).quantity = 0) : (movePosition p fill).cost = 0 := by
  unfold movePosition at h ⊢
  dsimp only at h ⊢
  rw [if_pos h]

/-- A fill in the position's own direction. -/
theorem movePosition_added {p : SimPosition} {fill : Fill}
    (h : p.quantity = 0 ∨ (0 < p.quantity ↔ 0 < fill.signedQty)) :
    (movePosition p fill).quantity = p.quantity + fill.signedQty ∧
      (movePosition p fill).realized = p.realized - fill.charges ∧
      (movePosition p fill).cost =
        if p.quantity + fill.signedQty = 0 then 0 else p.cost + fill.price * fill.quantity := by
  unfold movePosition
  dsimp only
  rw [if_pos h]
  exact ⟨rfl, rfl, rfl⟩

/-- A fill against the position closes it, and may open the other side. -/
theorem movePosition_closed {p : SimPosition} {fill : Fill}
    (h : ¬(p.quantity = 0 ∨ (0 < p.quantity ↔ 0 < fill.signedQty))) :
    (movePosition p fill).realized = p.realized - fill.charges +
        (fill.price - p.cost / |p.quantity|) * (min fill.quantity |p.quantity| : ℤ) *
          p.quantity.sign ∧
      (movePosition p fill).cost = if p.quantity + fill.signedQty = 0 then 0
        else if fill.quantity ≤ |p.quantity| then p.cost - p.cost / |p.quantity| * fill.quantity
        else fill.price * (fill.quantity - |p.quantity| : ℤ) := by
  have hquantity := movePosition_quantity fill p
  have hdirection : (if 0 < p.quantity then 1 else -1 : ℤ) = p.quantity.sign := by
    rcases lt_trichotomy p.quantity 0 with hneg | hzero | hpos
    · rw [if_neg (by omega), Int.sign_eq_neg_one_of_neg hneg]
    · exact absurd (.inl hzero) h
    · rw [if_pos hpos, Int.sign_eq_one_of_pos hpos]
  unfold movePosition at hquantity ⊢
  dsimp only at hquantity ⊢
  rw [if_neg h] at hquantity ⊢
  dsimp only at hquantity ⊢
  rw [hquantity, hdirection]
  refine ⟨rfl, ?_⟩
  by_cases hle : fill.quantity ≤ |p.quantity|
  · rw [min_eq_left hle, sub_self, if_pos rfl, if_pos hle]
  · have hrest : fill.quantity - |p.quantity| ≠ 0 := by omega
    rw [min_eq_right (by omega), if_neg hrest, if_neg hle]

theorem movePosition_equity_closed {p : SimPosition} {fill : Fill}
    (h : ¬(p.quantity = 0 ∨ (0 < p.quantity ↔ 0 < fill.signedQty)))
    (hsigned : fill.signedQty = -(p.quantity.sign * fill.quantity)) :
    (movePosition p fill).signedCost - (movePosition p fill).realized =
      p.signedCost - p.realized + fill.signedQty * fill.price + fill.charges := by
  have hq := fill.quantity_pos
  have hne : p.quantity ≠ 0 := fun hzero => h (.inl hzero)
  have habs : 0 < |p.quantity| := abs_pos.mpr hne
  have hcast : ((|p.quantity| : ℤ) : ℚ) ≠ 0 := by exact_mod_cast habs.ne'
  obtain ⟨hrealized, hcost⟩ := movePosition_closed h
  have hafter : p.quantity + fill.signedQty =
      p.quantity.sign * (|p.quantity| - fill.quantity) := by
    rw [hsigned, mul_sub, Int.sign_mul_abs]
    ring
  have hunit : p.quantity.sign ≠ 0 := by simpa using hne
  have hsign : (p.quantity + fill.signedQty).sign =
      p.quantity.sign * (|p.quantity| - fill.quantity).sign := by
    rw [hafter, Int.sign_mul, Int.sign_sign]
  have hzero : p.quantity + fill.signedQty = 0 ↔ fill.quantity = |p.quantity| := by
    rw [hafter, mul_eq_zero]
    omega
  unfold SimPosition.signedCost
  rw [movePosition_quantity, hrealized, hcost, hsign, hsigned]
  rw [hsigned] at hzero
  generalize |p.quantity| = n at *
  rcases lt_trichotomy fill.quantity n with hlt | rfl | hgt
  · -- a part of the position is closed
    have hpart : (n - fill.quantity).sign = 1 := Int.sign_eq_one_of_pos (by omega)
    rw [min_eq_left hlt.le, if_neg (by omega), if_pos hlt.le, hpart]
    push_cast
    ring
  · -- all of it
    rw [min_self, if_pos (hzero.mpr rfl), sub_self, Int.sign_zero]
    push_cast
    field_simp
    ring
  · -- it flips
    have hflip : (n - fill.quantity).sign = -1 := Int.sign_eq_neg_one_of_neg (by omega)
    rw [min_eq_right hgt.le, if_neg (by omega), if_neg (by omega), hflip]
    push_cast
    field_simp
    ring

/-- What a position cost and what it realized move by what the fill paid. -/
theorem movePosition_equity {p : SimPosition} (hflat : p.quantity = 0 → p.cost = 0) (fill : Fill) :
    (movePosition p fill).signedCost - (movePosition p fill).realized =
      p.signedCost - p.realized + fill.signedQty * fill.price + fill.charges := by
  have hq := fill.quantity_pos
  have hsigned : fill.signedQty = fill.quantity ∨ fill.signedQty = -fill.quantity := by
    unfold Fill.signedQty
    cases fill.side
    · exact .inl (one_mul _)
    · exact .inr (neg_one_mul _)
  unfold SimPosition.signedCost
  by_cases h : p.quantity = 0 ∨ (0 < p.quantity ↔ 0 < fill.signedQty)
  · obtain ⟨hquantity, hrealized, hcost⟩ := movePosition_added h
    have hne : p.quantity + fill.signedQty ≠ 0 := by omega
    rw [hquantity, hrealized, hcost, if_neg hne]
    rcases lt_trichotomy p.quantity 0 with hneg | hzero | hpos
    · have hs : fill.signedQty = -fill.quantity := by omega
      rw [hs, Int.sign_eq_neg_one_of_neg hneg, Int.sign_eq_neg_one_of_neg (by omega)]
      push_cast
      ring
    · rw [hzero, hflat hzero, zero_add]
      rcases hsigned with hs | hs
      · rw [hs, Int.sign_eq_one_of_pos hq]
        push_cast
        ring
      · rw [hs, Int.sign_eq_neg_one_of_neg (by omega)]
        push_cast
        ring
    · have hs : fill.signedQty = fill.quantity := by omega
      rw [hs, Int.sign_eq_one_of_pos hpos, Int.sign_eq_one_of_pos (by omega)]
      push_cast
      ring
  · have hs : fill.signedQty = -(p.quantity.sign * fill.quantity) := by
      rcases lt_trichotomy p.quantity 0 with hneg | hzero | hpos
      · rw [Int.sign_eq_neg_one_of_neg hneg]
        omega
      · exact absurd (.inl hzero) h
      · rw [Int.sign_eq_one_of_pos hpos]
        omega
    exact movePosition_equity_closed h hs

/-! ## What a change keeps -/

variable {env : SimEnv} {good : SimCore → Fill → Bool} {b b' : SimulatedBroker}

namespace Registered

/-- The next id is free. -/
theorem fresh (h : Registered env b) :
    b.orders.get? (simId env.bookId b.core.nextOrder) = none :=
  nextId_free h.ids

end Registered

namespace Change

/-- An order is kept, for what it was. -/
theorem order_kept (h : Change env good b b') (hb : Registered env b) {k : String} {o : SimOrder}
    (ho : b.orders.get? k = some o) : ∃ o', b'.orders.get? k = some o' ∧ o.SameTerms o' := by
  have hset : ∀ {boid : String} {so c : SimOrder}, b.orders.get? boid = some so →
      b'.orders = b.orders.set boid c → so.SameTerms c →
      ∃ o', b'.orders.get? k = some o' ∧ o.SameTerms o' := by
    intro boid so c hso horders hsame
    rw [horders, Dict.get?_set]
    by_cases hk : k = boid
    · rw [if_pos hk]
      obtain rfl : o = so := Option.some.inj (ho.symm.trans (hk ▸ hso))
      exact ⟨c, rfl, hsame⟩
    · rw [if_neg hk]
      exact ⟨o, ho, rfl, rfl, rfl, rfl, rfl, rfl⟩
  cases h with
  | noted orders =>
    rw [orders]
    exact ⟨o, ho, rfl, rfl, rfl, rfl, rfl, rfl⟩
  | moved held same _ _ orders => exact hset held orders same.toSameTerms
  | ended held _ same _ _ orders => exact hset held orders same.toSameTerms
  | filled held _ _ _ _ _ _ _ orders => exact hset held orders (SimOrder.afterFill_terms ..)
  | accepted now free valid new _ orders =>
    refine ⟨o, ?_, rfl, rfl, rfl, rfl, rfl, rfl⟩
    rw [orders, Dict.get?_set, if_neg ?_]
    · exact ho
    · rintro rfl
      rw [new] at ho
      exact absurd (ho.symm.trans hb.fresh) (by simp)

/-- So the product a fill is of stays. -/
theorem productOf_kept (h : Change env good b b') (hb : Registered env b) {f : Fill}
    (hf : f ∈ b.fills) : b'.productOf f = b.productOf f := by
  obtain ⟨boid, so, hso, hboid, -⟩ := hb.made f hf
  obtain ⟨so', hso', hsame⟩ := h.order_kept hb hso
  simp [productOf, hboid, hso, hso', hsame.product]

/-- An order was there for the same, or is new. -/
theorem order_was (h : Change env good b b') {k : String} {o' : SimOrder}
    (ho' : b'.orders.get? k = some o') :
    (∃ o, b.orders.get? k = some o ∧ o.SameTerms o') ∨
      (k = simId env.bookId b.core.nextOrder ∧ o'.brokerOrderId = k ∧
        b'.core.nextOrder = b.core.nextOrder + 1) := by
  have hset : ∀ {boid : String} {so c : SimOrder}, b.orders.get? boid = some so →
      b'.orders = b.orders.set boid c → so.SameTerms c →
      ∃ o, b.orders.get? k = some o ∧ o.SameTerms o' := by
    intro boid so c hso horders hsame
    rw [horders, Dict.get?_set_iff] at ho'
    rcases ho' with ⟨rfl, rfl⟩ | ⟨-, hold⟩
    · exact ⟨so, hso, hsame⟩
    · exact ⟨o', hold, rfl, rfl, rfl, rfl, rfl, rfl⟩
  cases h with
  | noted orders =>
    rw [orders] at ho'
    exact .inl ⟨o', ho', rfl, rfl, rfl, rfl, rfl, rfl⟩
  | moved held same _ _ orders => exact .inl (hset held orders same.toSameTerms)
  | ended held _ same _ _ orders => exact .inl (hset held orders same.toSameTerms)
  | filled held _ _ _ _ _ _ _ orders => exact .inl (hset held orders (SimOrder.afterFill_terms ..))
  | accepted now free valid new _ orders _ _ core =>
    rw [orders, Dict.get?_set_iff] at ho'
    rcases ho' with ⟨rfl, rfl⟩ | ⟨-, hold⟩
    · refine .inr ⟨?_, rfl, by rw [core]⟩
      rw [new]
      rfl
    · exact .inl ⟨o', hold, rfl, rfl, rfl, rfl, rfl, rfl⟩

theorem nextOrder_le (h : Change env good b b') : b.core.nextOrder ≤ b'.core.nextOrder := by
  cases h with
  | noted _ _ _ nextOrder => exact nextOrder.ge
  | moved _ _ _ _ _ _ _ core => exact (congrArg SimCore.nextOrder core).ge
  | ended _ _ _ _ _ _ _ _ core => exact (congrArg SimCore.nextOrder core).ge
  | filled _ _ _ _ _ _ _ _ _ _ _ nextOrder => exact nextOrder.ge
  | accepted _ _ _ _ _ _ _ _ core =>
    rw [core]
    exact Nat.le_succ _

/-- A fill was there, or is of a held order. -/
theorem fill_was (h : Change env good b b') {f : Fill} (hf : f ∈ b'.fills) :
    f ∈ b.fills ∨ ∃ boid so, b.orders.get? boid = some so ∧
      f.brokerOrderId = some so.brokerOrderId ∧ f.instrumentKey = so.instrumentKey := by
  cases h with
  | noted _ fills => exact .inl (fills ▸ hf)
  | moved _ _ _ _ _ fills => exact .inl (fills ▸ hf)
  | ended _ _ _ _ _ _ fills => exact .inl (fills ▸ hf)
  | @filled boid so s fill held _ ofOrder key _ _ _ _ _ fills =>
    rw [fills, List.mem_append, List.mem_singleton] at hf
    rcases hf with hold | rfl
    · exact .inl hold
    · exact .inr ⟨boid, so, held, ofOrder, key⟩
  | accepted _ _ _ _ _ _ fills => exact .inl (fills ▸ hf)

theorem registered (h : Change env good b b') (hb : Registered env b) : Registered env b' where
  ids boid so' hso' := by
    rcases h.order_was hso' with ⟨so, hso, hsame⟩ | ⟨hnew, hid, hnext⟩
    · obtain ⟨hid, n, hn, heq⟩ := hb.ids boid so hso
      exact ⟨hsame.brokerOrderId.trans hid, n, hn.trans_le h.nextOrder_le, heq⟩
    · exact ⟨hid, b.core.nextOrder, by omega, hnew⟩
  made f hf := by
    rcases h.fill_was hf with hold | ⟨boid, so, hso, hof, hkey⟩
    · obtain ⟨boid, so, hso, hof, hkey⟩ := hb.made f hold
      obtain ⟨so', hso', hsame⟩ := h.order_kept hb hso
      exact ⟨boid, so', hso', hof, hkey.trans hsame.instrumentKey.symm⟩
    · obtain ⟨so', hso', hsame⟩ := h.order_kept hb hso
      exact ⟨boid, so', hso', (hb.ids boid so hso).1 ▸ hof, hkey.trans hsame.instrumentKey.symm⟩

end Change

/-! ## The laws -/

namespace Conserves

variable {startingCash : ℚ}

/-- Where fills and products stay, so do the fills of a position. -/
theorem fillsAt_same (hfills : b'.fills = b.fills)
    (hproducts : ∀ f ∈ b.fills, b'.productOf f = b.productOf f) (instrumentKey : String)
    (product : Product) : b'.fillsAt instrumentKey product = b.fillsAt instrumentKey product := by
  unfold fillsAt
  rw [hfills]
  exact List.filter_congr fun f hf => by rw [hproducts f hf]

/-- One order is rewritten, and no fill made. -/
theorem rewrite (h : Conserves startingCash b)
    (hproducts : ∀ f ∈ b.fills, b'.productOf f = b.productOf f) {boid : String} {so c : SimOrder}
    (hso : b.orders.get? boid = some so) (hfilled : c.filledQty = so.filledQty)
    (hnotional : c.filledNotional = so.filledNotional) (hwithin : c.filledQty ≤ c.quantity)
    (hreserved : 0 ≤ c.reserved) (hended : c.status.isLive = false → c.reserved = 0)
    (horders : b'.orders = b.orders.set boid c) (hfills : b'.fills = b.fills)
    (hblocked : b'.core.blocked = b.core.blocked - so.reserved + c.reserved)
    (hmoney : b'.core.money = b.core.money) (hpositions : b'.core.positions = b.core.positions) :
    Conserves startingCash b' := by
  -- what holds of each order holds of the rewritten one
  have hall : ∀ P : String → SimOrder → Prop, (∀ k o, b.orders.get? k = some o → P k o) →
      P boid c → ∀ k o, b'.orders.get? k = some o → P k o := by
    intro P hP hc k o ho
    rw [horders, Dict.get?_set_iff] at ho
    rcases ho with ⟨rfl, rfl⟩ | ⟨-, hold⟩
    · exact hc
    · exact hP k o hold
  have hof : ∀ k, b'.fillsOf k = b.fillsOf k := fun k => by rw [fillsOf, hfills]; rfl
  have hat := fillsAt_same hfills hproducts
  constructor
  · have hsum := Dict.sum_set (fun _ (o : SimOrder) => o.reserved) b.orders boid c
      { c with reserved := 0 } rfl
    rw [hso, Option.getD_some] at hsum
    rw [horders, hblocked, h.blocked]
    linarith
  · exact hall (fun _ o => 0 ≤ o.reserved) h.reserved_nonneg hreserved
  · exact hall (fun _ o => o.status.isLive = false → o.reserved = 0) h.reserved_ended hended
  · rw [hmoney, hfills]
    exact h.money
  · refine hall (fun k o => o.filledQty = ((b'.fillsOf k).map Fill.quantity).sum) ?_ ?_
    · exact fun k o ho => (h.filledQty k o ho).trans (by rw [hof])
    · rw [hfilled, hof]
      exact h.filledQty boid so hso
  · refine hall (fun k o => o.filledNotional = ((b'.fillsOf k).map Fill.notional).sum) ?_ ?_
    · exact fun k o ho => (h.filledNotional k o ho).trans (by rw [hof])
    · rw [hnotional, hof]
      exact h.filledNotional boid so hso
  · exact hall (fun _ o => o.filledQty ≤ o.quantity) h.within hwithin
  · intro instrumentKey product
    rw [SimCore.quantity, hpositions, hat]
    exact h.position instrumentKey product
  · rw [hmoney, hpositions]
    exact h.equity

/-- What a sum over one side gains from a fill. -/
theorem sum_side (fills : List Fill) (fill : Fill) (side : Side) (amount : Fill → ℚ) :
    (((fills ++ [fill]).filter fun f => f.side = side).map amount).sum =
      ((fills.filter fun f => f.side = side).map amount).sum +
        if fill.side = side then amount fill else 0 := by
  rw [List.filter_append, List.map_append, List.sum_append]
  congr 1
  by_cases hs : fill.side = side <;> simp [hs]

/-- What fills leave of the cash, after one more. -/
theorem money_append (startingCash : ℚ) (fills : List Fill) (fill : Fill) :
    startingCash -
        (((fills ++ [fill]).filter fun f => f.side = .buy).map fun f =>
          f.notional + f.charges).sum +
        (((fills ++ [fill]).filter fun f => f.side = .sell).map fun f =>
          f.notional - f.charges).sum =
      startingCash -
        ((fills.filter fun f => f.side = .buy).map fun f => f.notional + f.charges).sum +
        ((fills.filter fun f => f.side = .sell).map fun f => f.notional - f.charges).sum -
        fill.signedQty * fill.price - fill.charges := by
  rw [sum_side, sum_side, Fill.signedQty]
  cases fill.side with
  | buy =>
    rw [if_pos rfl, if_neg (by simp), Fill.notional, Side.sign_buy]
    push_cast
    ring
  | sell =>
    rw [if_neg (by simp), if_pos rfl, Fill.notional, Side.sign_sell]
    push_cast
    ring

/-- A fill is one more of its position. -/
theorem fillsAt_append {fill : Fill} {filled : Product} (hfills : b'.fills = b.fills ++ [fill])
    (hproducts : ∀ f ∈ b.fills, b'.productOf f = b.productOf f)
    (hproduct : b'.productOf fill = some filled) (instrumentKey : String) (product : Product) :
    b'.fillsAt instrumentKey product = b.fillsAt instrumentKey product ++
      if fill.instrumentKey = instrumentKey ∧ filled = product then [fill] else [] := by
  unfold fillsAt
  rw [hfills, List.filter_append]
  congr 1
  · exact List.filter_congr fun f hf => by rw [hproducts f hf]
  · by_cases hkey : fill.instrumentKey = instrumentKey ∧ filled = product
    · simp [hproduct, hkey]
    · rw [if_neg hkey]
      simp only [List.filter_cons, hproduct, Option.some.injEq, hkey, decide_false,
        Bool.false_eq_true, if_false, List.filter_nil]

/-- What the positions cost and have made, after a fill. -/
theorem equity_applyPosition {core : SimCore} (hflat : Flat core) (product : Product)
    (fill : Fill) :
    (applyPosition product fill core).positions.sum (fun _ p => p.signedCost) -
        (applyPosition product fill core).positions.sum (fun _ p => p.realized) =
      core.positions.sum (fun _ p => p.signedCost) - core.positions.sum (fun _ p => p.realized) +
        fill.signedQty * fill.price + fill.charges := by
  have hzero : SimPosition.empty.signedCost = 0 := mul_zero _
  have hcost := Dict.sum_set (fun _ (p : SimPosition) => p.signedCost) core.positions
    (fill.instrumentKey, product)
    (movePosition ((core.positions.get? (fill.instrumentKey, product)).getD .empty) fill)
    .empty hzero
  have hrealized := Dict.sum_set (fun _ (p : SimPosition) => p.realized) core.positions
    (fill.instrumentKey, product)
    (movePosition ((core.positions.get? (fill.instrumentKey, product)).getD .empty) fill)
    .empty rfl
  have hmove := movePosition_equity (p := (core.positions.get?
    (fill.instrumentKey, product)).getD .empty) ?_ fill
  · show (core.positions.set _ _).sum _ - (core.positions.set _ _).sum _ = _
    linarith
  · intro hq
    cases hp : core.positions.get? (fill.instrumentKey, product) with
    | none => rfl
    | some p =>
      rw [hp] at hq
      exact hflat _ p hp hq

/-- A fill of a live order. -/
theorem fill (h : Conserves startingCash b) (hb : Registered env b) (hflat : Flat b.core)
    (hchange : Change env good b b') {boid : String} {so : SimOrder} {s : Settlement} {fill : Fill}
    (hso : b.orders.get? boid = some so) (hof : fill.brokerOrderId = some so.brokerOrderId)
    (hwithin : fill.quantity ≤ so.remaining) (hsettles : env.settlement so fill b = .ok (some s))
    (horders : b'.orders = b.orders.set boid (so.afterFill s fill))
    (hfills : b'.fills = b.fills ++ [fill])
    (hblocked : b'.core.blocked = b.core.blocked - so.reserved + (so.afterFill s fill).reserved)
    (hmoney : b'.core.money = b.core.money - fill.signedQty * fill.price - fill.charges)
    (hpositions : b'.core.positions = (applyPosition so.product fill b.core).positions) :
    Conserves startingCash b' := by
  have hreserved := h.reserved_nonneg boid so hso
  obtain ⟨hrelease, -⟩ := release_le hreserved hsettles
  have hid : fill.brokerOrderId = some boid := hof.trans (by rw [(hb.ids boid so hso).1])
  have hset : ∀ k o, b'.orders.get? k = some o →
      (k = boid ∧ o = so.afterFill s fill) ∨ (k ≠ boid ∧ b.orders.get? k = some o) := by
    intro k o ho
    rw [horders, Dict.get?_set_iff] at ho
    rcases ho with ⟨hk, ho⟩ | ⟨hk, ho⟩
    · exact .inl ⟨hk, ho⟩
    · exact .inr ⟨hk, ho⟩
  have hofOrder : ∀ k, b'.fillsOf k = b.fillsOf k ++ if k = boid then [fill] else [] := by
    intro k
    rw [fillsOf, hfills, List.filter_append]
    congr 1
    by_cases hk : k = boid
    · simp [hk, hid]
    · simp [hk, hid, Ne.symm hk]
  have hrest := so.afterFill_reserved s fill
  constructor
  · have hsum := Dict.sum_set (fun _ (o : SimOrder) => o.reserved) b.orders boid
      (so.afterFill s fill) { so with reserved := 0 } rfl
    rw [hso, Option.getD_some] at hsum
    rw [horders, hblocked, h.blocked]
    linarith
  · intro k o ho
    rcases hset k o ho with ⟨-, rfl⟩ | ⟨-, hold⟩
    · rw [hrest]
      split
      · exact le_rfl
      · linarith
    · exact h.reserved_nonneg k o hold
  · intro k o ho hlive
    rcases hset k o ho with ⟨-, rfl⟩ | ⟨-, hold⟩
    · rw [hrest, if_pos]
      -- an order that is over after a fill is filled
      rw [so.afterFill_status s fill] at hlive
      split at hlive
      · rename_i hall
        show so.quantity - (so.filledQty + fill.quantity) = 0
        omega
      · cases hlive
    · exact h.reserved_ended k o hold hlive
  · rw [hmoney, h.money, hfills]
    exact (money_append startingCash b.fills fill).symm
  · intro k o ho
    rcases hset k o ho with ⟨rfl, rfl⟩ | ⟨hk, hold⟩
    · rw [(so.afterFill_counts s fill).1, hofOrder, if_pos rfl, List.map_append, List.sum_append,
        ← h.filledQty k so hso]
      simp
    · rw [hofOrder, if_neg hk, List.append_nil]
      exact h.filledQty k o hold
  · intro k o ho
    rcases hset k o ho with ⟨rfl, rfl⟩ | ⟨hk, hold⟩
    · rw [so.afterFill_notional s fill, hofOrder, if_pos rfl, List.map_append, List.sum_append,
        ← h.filledNotional k so hso]
      simp
    · rw [hofOrder, if_neg hk, List.append_nil]
      exact h.filledNotional k o hold
  · intro k o ho
    rcases hset k o ho with ⟨-, rfl⟩ | ⟨-, hold⟩
    · rw [(so.afterFill_counts s fill).1, (so.afterFill_terms s fill).quantity]
      unfold SimOrder.remaining at hwithin
      omega
    · exact h.within k o hold
  · intro instrumentKey product
    have hproduct : b'.productOf fill = some so.product := by
      rw [productOf, hid, Option.bind_some, horders, Dict.get?_set_self, Option.map_some,
        (so.afterFill_terms s fill).product]
    have hat := fillsAt_append hfills (fun f hf => hchange.productOf_kept hb hf) hproduct
      instrumentKey product
    have hquantity := quantity_applyPosition fill b.core so.product product instrumentKey
    rw [hat, List.map_append, List.sum_append, ← h.position instrumentKey product,
      SimCore.quantity, hpositions]
    rw [SimCore.quantity] at hquantity
    rw [hquantity]
    split <;> simp
  · -- the position pays what the money pays
    have hequity := h.equity
    have hpays := equity_applyPosition hflat so.product fill
    rw [hpositions, hmoney]
    linarith

/-- A new order. -/
theorem accept (h : Conserves startingCash b) (hb : Registered env b)
    (hchange : Change env good b b') {order : Order} {sim : SimOrder} {now : Instant}
    (hnew : sim = env.newSimOrder order sim.reserved now b) (hreserved : 0 ≤ sim.reserved)
    (horders : b'.orders = b.orders.set sim.brokerOrderId sim) (hfills : b'.fills = b.fills)
    (hcore : b'.core = { b.core with
      nextOrder := b.core.nextOrder + 1, blocked := b.core.blocked + sim.reserved }) :
    Conserves startingCash b' := by
  have hid : sim.brokerOrderId = simId env.bookId b.core.nextOrder := by rw [hnew]; rfl
  have hfree : b.orders.get? sim.brokerOrderId = none := by rw [hid, hb.fresh]
  -- what holds of every order is to be shown of the new one alone
  have hall : ∀ P : String → SimOrder → Prop, (∀ k o, b.orders.get? k = some o → P k o) →
      P sim.brokerOrderId sim → ∀ k o, b'.orders.get? k = some o → P k o := by
    intro P hP hc k o ho
    rw [horders, Dict.get?_set_iff] at ho
    rcases ho with ⟨rfl, rfl⟩ | ⟨-, hold⟩
    · exact hc
    · exact hP k o hold
  have hof : ∀ k, b'.fillsOf k = b.fillsOf k := fun k => by rw [fillsOf, hfills]; rfl
  have hat := fillsAt_same hfills fun f hf => hchange.productOf_kept hb hf
  -- the new id is free, so no fill is of it
  have hnone : b.fillsOf sim.brokerOrderId = [] := by
    refine List.filter_eq_nil_iff.mpr fun f hf hof => ?_
    obtain ⟨boid, so, hso, hboid, -⟩ := hb.made f hf
    rw [decide_eq_true_eq, hboid, Option.some.injEq] at hof
    rw [hof, hfree] at hso
    cases hso
  have hmoney : b'.core.money = b.core.money := by rw [hcore]; rfl
  have hpositions : b'.core.positions = b.core.positions := by rw [hcore]
  constructor
  · rw [hcore, horders, Dict.sum_set_new _ _ hfree, ← h.blocked]
  · exact hall (fun _ o => 0 ≤ o.reserved) h.reserved_nonneg hreserved
  · refine hall (fun _ o => o.status.isLive = false → o.reserved = 0) h.reserved_ended ?_
    intro hlive
    rw [hnew] at hlive
    have hstatus : (if order.intent.orderType = .slM then OrderStatus.triggerPending
        else .open).isLive = false := hlive
    split at hstatus <;> cases hstatus
  · rw [hmoney, hfills]
    exact h.money
  · refine hall (fun k o => o.filledQty = ((b'.fillsOf k).map Fill.quantity).sum) ?_ ?_
    · exact fun k o ho => (h.filledQty k o ho).trans (by rw [hof])
    · rw [hof, hnone, hnew]
      rfl
  · refine hall (fun k o => o.filledNotional = ((b'.fillsOf k).map Fill.notional).sum) ?_ ?_
    · exact fun k o ho => (h.filledNotional k o ho).trans (by rw [hof])
    · rw [hof, hnone, hnew]
      rfl
  · refine hall (fun _ o => o.filledQty ≤ o.quantity) h.within ?_
    rw [hnew]
    exact order.quantity_pos.le
  · intro instrumentKey product
    rw [SimCore.quantity, hpositions, hat]
    exact h.position instrumentKey product
  · rw [hmoney, hpositions]
    exact h.equity

end Conserves

/-- What the laws rest on: orders under their ids, and no cost without a position. -/
structure Sound (env : SimEnv) (startingCash : ℚ) (b : SimulatedBroker) : Prop where
  registered : Registered env b
  flat : Flat b.core
  conserves : Conserves startingCash b

namespace Change

variable {startingCash : ℚ}

theorem flat (h : Change env good b b') (hb : Flat b.core) : Flat b'.core := by
  intro key p hp
  cases h with
  | noted _ _ _ _ _ _ positions =>
    rw [positions] at hp
    exact hb key p hp
  | moved _ _ _ _ _ _ _ core =>
    rw [core] at hp
    exact hb key p hp
  | ended _ _ _ _ _ _ _ _ core =>
    rw [core] at hp
    exact hb key p hp
  | filled _ _ _ _ _ _ _ _ _ _ _ _ _ _ positions =>
    rw [positions] at hp
    rcases Dict.get?_set_iff _ |>.mp hp with ⟨-, rfl⟩ | ⟨-, hold⟩
    · exact movePosition_flat _ _
    · exact hb key p hold
  | accepted _ _ _ _ _ _ _ _ core =>
    rw [core] at hp
    exact hb key p hp

/-- **The step lemma.** -/
theorem sound (h : Change env good b b') (hb : Sound env startingCash b) :
    Sound env startingCash b' := by
  refine ⟨h.registered hb.registered, h.flat hb.flat, ?_⟩
  have hc := hb.conserves
  have hchange := h
  have hproducts : ∀ f ∈ b.fills, b'.productOf f = b.productOf f :=
    fun f hf => hchange.productOf_kept hb.registered hf
  have hwithin : ∀ {boid so c}, b.orders.get? boid = some so → so.SameFills c →
      c.filledQty ≤ c.quantity := by
    intro boid so c hso hsame
    rw [hsame.filledQty, hsame.quantity]
    exact hc.within boid so hso
  cases h with
  | noted orders fills _ _ blocked money positions =>
    have hof : ∀ k, b'.fillsOf k = b.fillsOf k := fun k => by rw [fillsOf, fills]; rfl
    refine ⟨?_, ?_, ?_, ?_, ?_, ?_, ?_, ?_, ?_⟩
    · rw [blocked, orders]
      exact hc.blocked
    · rw [orders]
      exact hc.reserved_nonneg
    · rw [orders]
      exact hc.reserved_ended
    · rw [money, fills]
      exact hc.money
    · simpa only [orders, hof] using hc.filledQty
    · simpa only [orders, hof] using hc.filledNotional
    · rw [orders]
      exact hc.within
    · intro instrumentKey product
      rw [SimCore.quantity, positions, Conserves.fillsAt_same fills hproducts]
      exact hc.position instrumentKey product
    · rw [money, positions]
      exact hc.equity
  -- an order that moves keeps what it filled, so only its reservation is to be shown
  | @moved boid so c held same reserved live orders fills _ core =>
    refine hc.rewrite hproducts held same.filledQty same.filledNotional (hwithin held same) ?_ ?_
      orders fills ?_ ?_ ?_
    · rw [reserved]
      exact hc.reserved_nonneg boid so held
    · rw [live, reserved]
      exact hc.reserved_ended boid so held
    · rw [core, reserved]
      ring
    · rw [core]
    · rw [core]
  | ended held _ same reserved _ orders fills _ core =>
    refine hc.rewrite hproducts held same.filledQty same.filledNotional (hwithin held same)
      reserved.ge (fun _ => reserved) orders fills ?_ ?_ ?_
    · rw [core, reserved, add_zero]
    · rw [core]
      rfl
    · rw [core]
  | filled held _ ofOrder _ _ within settles _ orders fills _ _ blocked money positions =>
    exact hc.fill hb.registered hb.flat hchange held ofOrder within settles orders fills blocked
      money positions
  | accepted now _ _ new reserved orders fills _ core =>
    exact hc.accept hb.registered hchange new reserved orders fills core

end Change

theorem Sound.init (env : SimEnv) (startingCash : ℚ) : Sound env startingCash (init startingCash) where
  registered :=
    { ids := fun _ _ h => by cases h
      made := fun _ h => by cases h }
  flat _ _ h := by cases h
  conserves :=
    { blocked := rfl
      reserved_nonneg := fun _ _ h => by cases h
      reserved_ended := fun _ _ h => by cases h
      money := by simp [SimulatedBroker.init, SimCore.init, SimCore.money]
      filledQty := fun _ _ h => by cases h
      filledNotional := fun _ _ h => by cases h
      within := fun _ _ h => by cases h
      position := fun _ _ => rfl
      equity := by simp [SimulatedBroker.init, SimCore.init, SimCore.money] }

end SimulatedBroker

namespace BrokerOp

open SimulatedBroker

variable {S : Type} (env : SimEnv) (hooks : Hooks S)

/-- **The run lemma.** -/
theorem run_sound (startingCash : ℚ) (desk : S) (ops : List BrokerOp) :
    Sound env startingCash (run env hooks ⟨.init startingCash, desk⟩ ops).broker := by
  refine run_invariant env hooks (I := fun w => Sound env startingCash w.broker) ?_ (.init _ _) ops
    (allowsRun_any env hooks _ ops)
  intro w w' hstep hw
  exact (hstep.change hw.conserves.reserved_nonneg).sound hw

/-- **The broker conserves.** After any calls, whatever the subscriber does with what it is
told, the broker's blocked cash, its money, its orders and its positions add up. -/
theorem broker_conserves (startingCash : ℚ) (desk : S) (ops : List BrokerOp) :
    Conserves startingCash (run env hooks ⟨.init startingCash, desk⟩ ops).broker :=
  (run_sound env hooks startingCash desk ops).conserves

end BrokerOp

end RakshaQuant
