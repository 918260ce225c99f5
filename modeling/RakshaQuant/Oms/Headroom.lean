import RakshaQuant.Oms.Effects

/-! Reduce-only headroom: what live reduce-only orders may still take off a
position never exceeds it. The bound alone is not kept by a fill: a fill of an
opening order may move the position either way, and a fill of a reduce-only
order must move it towards zero. So it is carried with the two facts that decide
the direction. -/

namespace RakshaQuant

/-- What an order counts for in `committed` at a key: its remaining quantity
while it is live and reduce-only. -/
def Order.commits (instrumentKey : String) (product : Product) (order : Order) : ℤ :=
  if order.intent.reduceOnly ∧ order.intent.instrument.key = instrumentKey ∧
      order.intent.product = product ∧ order.status.isTerminal = false then
    order.remainingQty
  else 0

namespace Order

variable {instrumentKey : String} {product : Product} {order changed : Order}

theorem commits_of_terminal (h : order.status.isTerminal = true) :
    order.commits instrumentKey product = 0 := by
  simp [commits, h]

theorem commits_of_opening (order : Order) (instrumentKey : String) (product : Product)
    (h : order.intent.reduceOnly = false) : order.commits instrumentKey product = 0 := by
  simp [commits, h]

theorem commits_nonneg (h : order.filledQty ≤ order.quantity) :
    0 ≤ order.commits instrumentKey product := by
  unfold commits remainingQty
  split <;> omega

/-- A change that keeps the intent and the remaining quantity, and does not
bring the order back to life, commits no more than before. -/
theorem commits_le (instrumentKey : String) (product : Product)
    (h : order.filledQty ≤ order.quantity) (hi : changed.intent = order.intent)
    (hr : changed.remainingQty = order.remainingQty)
    (hlive : changed.status.isTerminal = false → order.status.isTerminal = false) :
    changed.commits instrumentKey product ≤ order.commits instrumentKey product := by
  cases hs : changed.status.isTerminal with
  | true =>
    rw [commits_of_terminal hs]
    exact commits_nonneg h
  | false => simp [commits, hi, hr, hs, hlive hs]

theorem remainingQty_afterFill {fill : Fill} (version : ℕ)
    (h : fill.quantity ≤ order.remainingQty) :
    (order.afterFill fill version).remainingQty = order.remainingQty - fill.quantity := by
  rw [remainingQty] at h
  show order.quantity - OMS.filledAfter order fill = order.quantity - order.filledQty - fill.quantity
  rw [OMS.filledAfter]
  omega

/-- A fill within the remaining quantity takes itself off what an order commits,
whether the order lives on or ends with it. -/
theorem commits_afterFill {fill : Fill} (instrumentKey : String) (product : Product) (version : ℕ)
    (h : fill.quantity ≤ order.remainingQty) :
    (order.afterFill fill version).commits instrumentKey product =
      if order.intent.reduceOnly ∧ order.intent.instrument.key = instrumentKey ∧
          order.intent.product = product then order.remainingQty - fill.quantity else 0 := by
  have hafter : OMS.filledAfter order fill = order.filledQty + fill.quantity := by
    rw [OMS.filledAfter]
    rw [remainingQty] at h
    omega
  rw [commits, remainingQty_afterFill version h]
  show (if order.intent.reduceOnly ∧ order.intent.instrument.key = instrumentKey ∧
      order.intent.product = product ∧ (OMS.statusAfter order fill).isTerminal = false then _
    else _) = _
  rw [OMS.statusAfter, hafter]
  by_cases hf : order.filledQty + fill.quantity = order.quantity
  · have h0 : order.remainingQty - fill.quantity = 0 := by
      rw [remainingQty]
      omega
    simp [hf, OrderStatus.isTerminal, h0]
  · simp [hf, OrderStatus.isTerminal]

end Order

/-! ## Moving a position -/

section position

variable {position q : ℤ} {side : Side}

theorem abs_towards (h : position * side.sign < 0) (hq : q ≤ |position|) :
    |position + side.sign * q| = |position| - q := by
  rw [abs_eq_max_neg] at hq ⊢
  rw [abs_eq_max_neg]
  cases side <;> simp only [Side.sign_buy, Side.sign_sell] at h ⊢ <;> omega

theorem abs_away (h : 0 ≤ position * side.sign) (hq : 0 < q) :
    |position + side.sign * q| = |position| + q := by
  rw [abs_eq_max_neg, abs_eq_max_neg]
  cases side <;> simp only [Side.sign_buy, Side.sign_sell] at h ⊢ <;> omega

/-- A position that is not crossed and not closed keeps facing what it faced. -/
theorem faces_after {other : Side} (h : position * other.sign < 0)
    (hne : position + side.sign * q ≠ 0) (hmove : 0 ≤ position * side.sign ∨ q ≤ |position|)
    (hq : 0 < q) : (position + side.sign * q) * other.sign < 0 := by
  rw [abs_eq_max_neg] at hmove
  cases side <;> cases other <;>
    simp only [Side.sign_buy, Side.sign_sell] at h hne hmove ⊢ <;> omega

end position

namespace OMS

theorem committed_eq (o : OMS) (instrumentKey : String) (product : Product) :
    o.committed instrumentKey product =
      o.orders.sum fun _ order => order.commits instrumentKey product := rfl

section committed

variable {o o' : OMS} {k : String} {known changed : Order}
  (instrumentKey : String) (product : Product)

theorem committed_set (hk : o.orders.get? k = some known)
    (hset : o'.orders = o.orders.set k changed) :
    o'.committed instrumentKey product + known.commits instrumentKey product =
      o.committed instrumentKey product + changed.commits instrumentKey product := by
  have h := Dict.sum_set (fun _ order => Order.commits instrumentKey product order) o.orders k
    changed { known with status := .rejected } (Order.commits_of_terminal rfl)
  rw [hk, Option.getD_some] at h
  rw [committed_eq, committed_eq, hset, h]

theorem committed_register (hk : o.orders.get? k = none)
    (hset : o'.orders = o.orders.set k changed) :
    o'.committed instrumentKey product =
      o.committed instrumentKey product + changed.commits instrumentKey product := by
  have h := Dict.sum_set (fun _ order => Order.commits instrumentKey product order) o.orders k
    changed { changed with status := .rejected } (Order.commits_of_terminal rfl)
  have h₀ : Order.commits instrumentKey product { changed with status := .rejected } = 0 :=
    Order.commits_of_terminal rfl
  rw [hk, Option.getD_none, h₀, add_zero] at h
  rw [committed_eq, committed_eq, hset, h]

end committed

/-- Where no order is filled beyond its quantity, each commits at most the whole. -/
theorem commits_le_committed {o : OMS} {k : String} {known : Order}
    (hf : ∀ coid order, o.orders.get? coid = some order → order.filledQty ≤ order.quantity)
    (hk : o.orders.get? k = some known) (instrumentKey : String) (product : Product) :
    known.commits instrumentKey product ≤ o.committed instrumentKey product := by
  rw [committed_eq]
  exact Dict.le_sum (fun coid order ho => Order.commits_nonneg (hf coid order ho)) hk

/-- The bound with what keeps it: no order is filled beyond its quantity, and a
live reduce-only order that still has something to fill faces the position. -/
structure Headroom (o : OMS) : Prop where
  filled : ∀ coid order, o.orders.get? coid = some order → order.filledQty ≤ order.quantity
  faces : ∀ coid order, o.orders.get? coid = some order → order.intent.reduceOnly = true →
    order.status.isTerminal = false → 0 < order.remainingQty →
    o.book.quantity order.intent.instrument.key order.intent.product * order.intent.side.sign < 0
  bounded : ∀ instrumentKey product,
    o.committed instrumentKey product ≤ |o.book.quantity instrumentKey product|

/-- What an order needs to become live: as long as it is reduce-only, its
remaining quantity is still reducible. -/
def Room (o : OMS) (order : Order) : Prop :=
  order.intent.reduceOnly = true → order.remainingQty ≤ o.reducible order.intent

instance (o : OMS) (order : Order) : Decidable (o.Room order) :=
  inferInstanceAs (Decidable (order.intent.reduceOnly = true → _))

/-- What a fill of an order needs: it is within the order, an order that ended
has room for it, and a fill of an opening order either goes with the position or
leaves the position large enough for what is committed. -/
structure Fits (o : OMS) (order : Order) (fill : Fill) : Prop where
  key : fill.instrumentKey = order.intent.instrument.key
  side : fill.side = order.intent.side
  within : fill.quantity ≤ order.remainingQty
  room : order.status.isTerminal = true → o.Room order
  opening : order.intent.reduceOnly = false →
    0 ≤ o.book.quantity order.intent.instrument.key order.intent.product *
        order.intent.side.sign ∨
      fill.quantity + o.committed order.intent.instrument.key order.intent.product ≤
        |o.book.quantity order.intent.instrument.key order.intent.product|

instance (o : OMS) (order : Order) (fill : Fill) : Decidable (Fits o order fill) :=
  decidable_of_iff
    (fill.instrumentKey = order.intent.instrument.key ∧ fill.side = order.intent.side ∧
      fill.quantity ≤ order.remainingQty ∧
      (order.status.isTerminal = true → o.Room order) ∧
      (order.intent.reduceOnly = false →
        0 ≤ o.book.quantity order.intent.instrument.key order.intent.product *
            order.intent.side.sign ∨
          fill.quantity + o.committed order.intent.instrument.key order.intent.product ≤
            |o.book.quantity order.intent.instrument.key order.intent.product|))
    ⟨fun ⟨key, side, within, room, opening⟩ => ⟨key, side, within, room, opening⟩,
      fun h => ⟨h.key, h.side, h.within, h.room, h.opening⟩⟩

/-- What is reducible faces the position and fits beside what is committed. -/
theorem reducible_spec {o : OMS} {intent : OrderIntent} {q : ℤ} (hq : 0 < q)
    (h : q ≤ o.reducible intent) :
    o.book.quantity intent.instrument.key intent.product * intent.side.sign < 0 ∧
      o.committed intent.instrument.key intent.product + q ≤
        |o.book.quantity intent.instrument.key intent.product| := by
  unfold reducible at h
  dsimp only at h
  split at h
  · omega
  · rename_i hpos
    obtain ⟨h0, hside⟩ := not_or.mp hpos
    refine ⟨?_, by omega⟩
    cases hs : intent.side with
    | buy =>
      have : ¬0 < o.book.quantity intent.instrument.key intent.product := by simpa [hs] using hside
      simp only [Side.sign_buy]
      omega
    | sell =>
      have : 0 < o.book.quantity intent.instrument.key intent.product := by
        simpa [hs] using hside
      simp only [Side.sign_sell]
      omega

namespace Headroom

variable {o o' : OMS} {k : String} {known changed order : Order}

/-- A step that leaves orders and book alone. -/
theorem same (h : o.Headroom) (horders : o'.orders = o.orders) (hbook : o'.book = o.book) :
    o'.Headroom where
  filled coid order ho := h.filled coid order (horders ▸ ho)
  faces coid order ho := by
    rw [hbook]
    exact h.faces coid order (horders ▸ ho)
  bounded instrumentKey product := by
    rw [committed_eq, horders, hbook]
    exact h.bounded instrumentKey product

/-- A step that rewrites one order without bringing it to life. -/
theorem quiet (h : o.Headroom) (hk : o.orders.get? k = some known)
    (horders : o'.orders = o.orders.set k changed) (hbook : o'.book = o.book)
    (hi : changed.intent = known.intent) (hq : changed.quantity = known.quantity)
    (hf : changed.filledQty = known.filledQty)
    (hlive : changed.status.isTerminal = false → known.status.isTerminal = false) :
    o'.Headroom := by
  have hr : changed.remainingQty = known.remainingQty := by
    rw [Order.remainingQty, Order.remainingQty, hq, hf]
  have hfilled := h.filled k known hk
  refine ⟨fun coid order ho => ?_, fun coid order ho hro hs hpos => ?_,
    fun instrumentKey product => ?_⟩
  · rw [horders, Dict.get?_set] at ho
    split at ho
    · cases ho
      rw [hq, hf]
      exact hfilled
    · exact h.filled coid order ho
  · rw [horders, Dict.get?_set] at ho
    rw [hbook]
    split at ho
    · cases ho
      rw [hi]
      exact h.faces k known hk (hi ▸ hro) (hlive hs) (hr ▸ hpos)
    · exact h.faces coid order ho hro hs hpos
  · have hset := committed_set instrumentKey product hk horders
    have hle := Order.commits_le instrumentKey product hfilled hi hr hlive
    have hb := h.bounded instrumentKey product
    rw [hbook]
    omega

/-- A step that puts an order into the table that committed nothing before, and
that has room. -/
theorem joined (h : o.Headroom) (horders : o'.orders = o.orders.set k changed)
    (hbook : o'.book = o.book) (hfilled : changed.filledQty ≤ changed.quantity)
    (hroom : o.Room changed)
    (hcommitted : ∀ instrumentKey product, o'.committed instrumentKey product =
      o.committed instrumentKey product + changed.commits instrumentKey product) :
    o'.Headroom := by
  refine ⟨fun coid order ho => ?_, fun coid order ho hro hs hpos => ?_,
    fun instrumentKey product => ?_⟩
  · rw [horders, Dict.get?_set] at ho
    split at ho
    · cases ho
      exact hfilled
    · exact h.filled coid order ho
  · rw [horders, Dict.get?_set] at ho
    rw [hbook]
    split at ho
    · cases ho
      exact (reducible_spec hpos (hroom hro)).1
    · exact h.faces coid order ho hro hs hpos
  · have hb := h.bounded instrumentKey product
    rw [hbook, hcommitted]
    unfold Order.commits
    split
    · rename_i hc
      obtain ⟨hro, rfl, rfl, -⟩ := hc
      rcases lt_or_ge 0 changed.remainingQty with hpos | hpos
      · exact (reducible_spec hpos (hroom hro)).2
      · omega
    · omega

/-- A step that registers an order with room. -/
theorem registered (h : o.Headroom) (hk : o.orders.get? k = none)
    (horders : o'.orders = o.orders.set k changed) (hbook : o'.book = o.book)
    (hfilled : changed.filledQty ≤ changed.quantity) (hroom : o.Room changed) : o'.Headroom :=
  h.joined horders hbook hfilled hroom fun _ _ => committed_register _ _ hk horders

/-- A step that may bring an order back to life, but only with room for it. -/
theorem revived (h : o.Headroom) (hk : o.orders.get? k = some known)
    (horders : o'.orders = o.orders.set k changed) (hbook : o'.book = o.book)
    (hi : changed.intent = known.intent) (hq : changed.quantity = known.quantity)
    (hf : changed.filledQty = known.filledQty)
    (hroom : known.status.isTerminal = true → o.Room known) : o'.Headroom := by
  cases hs : known.status.isTerminal with
  | false => exact h.quiet hk horders hbook hi hq hf fun _ => hs
  | true =>
    have hr : changed.remainingQty = known.remainingQty := by
      rw [Order.remainingQty, Order.remainingQty, hq, hf]
    have hfilled := h.filled k known hk
    refine h.joined horders hbook (by omega) ?_ fun instrumentKey product => ?_
    · rw [Room, hi, hr]
      exact hroom hs
    · have hset := committed_set instrumentKey product hk horders
      rw [Order.commits_of_terminal hs, add_zero] at hset
      exact hset

/-- A reduce-only order with something to fill faces the position, and fits
beside what the others commit. -/
theorem reduces (h : o.Headroom) (hk : o.orders.get? k = some known)
    (hro : known.intent.reduceOnly = true) (hpos : 0 < known.remainingQty)
    (hroom : known.status.isTerminal = true → o.Room known) :
    o.book.quantity known.intent.instrument.key known.intent.product *
        known.intent.side.sign < 0 ∧
      o.committed known.intent.instrument.key known.intent.product -
          known.commits known.intent.instrument.key known.intent.product + known.remainingQty ≤
        |o.book.quantity known.intent.instrument.key known.intent.product| := by
  cases hs : known.status.isTerminal with
  | true =>
    have hspec := reducible_spec hpos (hroom hs hro)
    rw [Order.commits_of_terminal hs, sub_zero]
    exact hspec
  | false =>
    have hown : known.commits known.intent.instrument.key known.intent.product =
        known.remainingQty := by
      simp [Order.commits, hro, hs]
    have hb := h.bounded known.intent.instrument.key known.intent.product
    exact ⟨h.faces k known hk hro hs hpos, by omega⟩

/-- A fill that fits goes with the position, or towards zero with what is
committed after it still inside. -/
theorem moves {fill : Fill} (version : ℕ) (h : o.Headroom) (hk : o.orders.get? k = some known)
    (hfits : Fits o known fill) :
    0 ≤ o.book.quantity known.intent.instrument.key known.intent.product *
        known.intent.side.sign ∨
      (o.book.quantity known.intent.instrument.key known.intent.product *
          known.intent.side.sign < 0 ∧
        fill.quantity ≤ |o.book.quantity known.intent.instrument.key known.intent.product| ∧
        o.committed known.intent.instrument.key known.intent.product -
            known.commits known.intent.instrument.key known.intent.product +
            (known.afterFill fill version).commits known.intent.instrument.key
              known.intent.product ≤
          |o.book.quantity known.intent.instrument.key known.intent.product| - fill.quantity) := by
  have hq := fill.quantity_pos
  have hwithin := hfits.within
  have hle := commits_le_committed h.filled hk known.intent.instrument.key known.intent.product
  have hafter := Order.commits_afterFill known.intent.instrument.key known.intent.product version
    hwithin
  rcases lt_or_ge (o.book.quantity known.intent.instrument.key known.intent.product *
    known.intent.side.sign) 0 with hneg | hneg
  · right
    cases hro : known.intent.reduceOnly with
    | true =>
      have hreduces := (h.reduces hk hro (by omega) hfits.room).2
      rw [if_pos ⟨hro, rfl, rfl⟩] at hafter
      exact ⟨hneg, by omega, by omega⟩
    | false =>
      rw [known.commits_of_opening _ _ hro] at hle
      rw [if_neg (by simp [hro])] at hafter
      rw [known.commits_of_opening _ _ hro, hafter]
      rcases hfits.opening hro with hwith | hroom
      · omega
      · exact ⟨hneg, by omega, by omega⟩
  · exact .inl hneg

/-- The position after a fill that fits. -/
theorem quantity_after {fill : Fill} (hbook : o'.book = o.book.record (known.application fill))
    (hfits : Fits o known fill) (instrumentKey : String) (product : Product) :
    o'.book.quantity instrumentKey product = o.book.quantity instrumentKey product +
      if known.intent.instrument.key = instrumentKey ∧ known.intent.product = product then
        known.intent.side.sign * fill.quantity else 0 := by
  rw [hbook, PositionBook.quantity_record, ← hfits.key, ← hfits.side]
  rfl

theorem bounded_after {fill : Fill} (version : ℕ) (h : o.Headroom)
    (hk : o.orders.get? k = some known)
    (horders : o'.orders = o.orders.set k (known.afterFill fill version))
    (hbook : o'.book = o.book.record (known.application fill)) (hfits : Fits o known fill)
    (instrumentKey : String) (product : Product) :
    o'.committed instrumentKey product ≤ |o'.book.quantity instrumentKey product| := by
  have hq := fill.quantity_pos
  have hset := committed_set instrumentKey product hk horders
  have hrem := Order.remainingQty_afterFill version hfits.within
  have hle := Order.commits_afterFill instrumentKey product version hfits.within
  have hb := h.bounded instrumentKey product
  rw [quantity_after hbook hfits]
  by_cases hc : known.intent.instrument.key = instrumentKey ∧ known.intent.product = product
  · obtain ⟨rfl, rfl⟩ := hc
    rw [if_pos ⟨rfl, rfl⟩]
    rcases h.moves version hk hfits with haway | ⟨htowards, hqle, hrest⟩
    · -- a reduce-only order faces the position, so this one is opening
      have hwithin := hfits.within
      cases hro : known.intent.reduceOnly with
      | true =>
        have hreduces := (h.reduces hk hro (by omega) hfits.room).1
        omega
      | false =>
        rw [known.commits_of_opening _ _ hro,
          (known.afterFill fill version).commits_of_opening _ _ hro] at hset
        rw [abs_away haway hq]
        omega
    · rw [abs_towards htowards hqle]
      omega
  · have hsame : ∀ order : Order, order.intent = known.intent →
        order.commits instrumentKey product = 0 := by
      intro order hi
      rw [Order.commits, hi, if_neg fun hcond => hc ⟨hcond.2.1, hcond.2.2.1⟩]
    have h1 := hsame known rfl
    have h2 := hsame (known.afterFill fill version) rfl
    rw [if_neg hc, add_zero]
    omega

/-- A step that records a fill that fits. -/
theorem fills {fill : Fill} (version : ℕ) (h : o.Headroom) (hk : o.orders.get? k = some known)
    (horders : o'.orders = o.orders.set k (known.afterFill fill version))
    (hbook : o'.book = o.book.record (known.application fill)) (hfits : Fits o known fill) :
    o'.Headroom := by
  have hq := fill.quantity_pos
  have hfilled : ∀ coid order, o'.orders.get? coid = some order →
      order.filledQty ≤ order.quantity := by
    intro coid order ho
    rw [horders, Dict.get?_set] at ho
    split at ho
    · cases ho
      exact min_le_right _ _
    · exact h.filled coid order ho
  have hbounded := h.bounded_after version hk horders hbook hfits
  refine ⟨hfilled, fun coid order ho hro hs hpos => ?_, hbounded⟩
  -- what the order commits keeps the position open, so it was not crossed
  have hcommits : order.commits order.intent.instrument.key order.intent.product =
      order.remainingQty := by
    simp [Order.commits, hro, hs]
  have hne : o'.book.quantity order.intent.instrument.key order.intent.product ≠ 0 := by
    intro h0
    have hb := hbounded order.intent.instrument.key order.intent.product
    have hle := commits_le_committed hfilled ho order.intent.instrument.key order.intent.product
    rw [h0, abs_zero] at hb
    omega
  have hfaced : o.book.quantity order.intent.instrument.key order.intent.product *
      order.intent.side.sign < 0 := by
    rw [horders, Dict.get?_set] at ho
    split at ho
    · cases ho
      have hrem := Order.remainingQty_afterFill version hfits.within
      exact (h.reduces hk hro (by omega) hfits.room).1
    · exact h.faces coid order ho hro hs hpos
  rw [quantity_after hbook hfits] at hne ⊢
  by_cases hc : known.intent.instrument.key = order.intent.instrument.key ∧
      known.intent.product = order.intent.product
  · rw [if_pos hc] at hne ⊢
    refine faces_after hfaced hne ?_ hq
    have hmoves := (h.moves version hk hfits).imp_right fun hm => hm.2.1
    rwa [hc.1, hc.2] at hmoves
  · rw [if_neg hc, add_zero]
    exact hfaced

end Headroom

end OMS

end RakshaQuant
