import RakshaQuant.Brokers.Simulated.Conservation

/-! Delivery positions are never short. A delivery sale is checked once, when it is placed,
against the shares held that no live sale claims. After that every fill of a sale takes the
same shares from the position and from what the sales claim, so the claims stay covered; and
no sale is ever filled beyond the position. -/

namespace RakshaQuant

/-- The shares a live delivery sale of an instrument still claims. -/
def SimOrder.claims (o : SimOrder) (instrumentKey : String) : ℤ :=
  if o.instrumentKey = instrumentKey ∧ o.product = .cnc ∧ o.side = .sell ∧ o.status.isLive then
    o.remaining
  else 0

namespace SimulatedBroker

/-- The remaining shares of the live delivery sales. -/
def pendingSales (b : SimulatedBroker) (instrumentKey : String) : ℤ :=
  b.orders.sum fun _ o => o.claims instrumentKey

/-- What is pending is held. -/
def Covered (b : SimulatedBroker) : Prop :=
  ∀ instrumentKey, b.pendingSales instrumentKey ≤ b.core.quantity instrumentKey .cnc

/-- A fill takes the branch of `_apply_position` that turns a position round. -/
def flips (held : ℤ) (fill : Fill) : Prop :=
  ¬(held = 0 ∨ (0 < held ↔ 0 < fill.signedQty)) ∧ fill.quantity - min fill.quantity |held| ≠ 0

/-- No delivery fill turned round what the fills before it had left. -/
def NeverFlipped (b : SimulatedBroker) : Prop :=
  ∀ xs f ys, b.fills = xs ++ f :: ys → b.productOf f = some .cnc →
    ¬flips ((xs.filter fun g => g.instrumentKey = f.instrumentKey ∧
      b.productOf g = some .cnc).map Fill.signedQty).sum f

variable {env : SimEnv} {good : SimCore → Fill → Bool} {b b' : SimulatedBroker}
  {startingCash : ℚ}

/-- A delivery sale that is placed is of shares that are held and not for sale yet. -/
theorem validate_sale {order : Order} {now : Instant} {checked : Instrument × Quote}
    (h : env.validate order now b = .ok checked) (hproduct : order.intent.product = .cnc)
    (hside : order.intent.side = .sell) :
    order.quantity ≤ b.availableToSell order.intent.instrument.key := by
  unfold SimEnv.validate at h
  dsimp only at h
  obtain ⟨-, h⟩ := Effect.passes h
  obtain ⟨-, h⟩ := Effect.passes h
  cases hi : env.instruments.get? order.intent.instrument.key with
  | none =>
    rw [hi] at h
    cases h
  | some instrument =>
    have hkey := env.instruments_keyed _ instrument hi
    rw [hi] at h
    obtain ⟨-, h⟩ := Effect.passes h
    have hlast : ∀ {quote : Quote} {raised : PUnit → Except Exc (Instrument × Quote)} {e : Exc},
        (if order.intent.product = .cnc ∧ order.intent.side = .sell ∧
          b.availableToSell instrument.key < order.quantity then
          throw e >>= raised else pure (instrument, quote)) = Except.ok checked →
        order.quantity ≤ b.availableToSell order.intent.instrument.key := by
      intro quote raised e h
      obtain ⟨hcovered, -⟩ := Effect.passes h
      rw [← hkey]
      exact not_lt.mp fun hlt => hcovered ⟨hproduct, hside, hlt⟩
    split at h
    case h_3 => cases h
    all_goals
      rw [pure_bind] at h
      obtain ⟨-, h⟩ := Effect.passes h
      obtain ⟨-, h⟩ := Effect.passes h
      cases hq : b.quotes.get? instrument.key with
      | none =>
        rw [hq] at h
        cases h
      | some quote =>
        rw [hq] at h
        obtain ⟨-, h⟩ := Effect.passes h
        split at h
        · obtain ⟨-, h⟩ := Effect.passes h
          obtain ⟨-, h⟩ := Effect.passes h
          exact hlast h
        · exact hlast h
theorem claims_nonneg {o : SimOrder} (h : o.filledQty ≤ o.quantity) (instrumentKey : String) :
    0 ≤ o.claims instrumentKey := by
  unfold SimOrder.claims SimOrder.remaining
  split <;> omega

theorem claims_ended {o : SimOrder} (h : o.status.isLive = false) (instrumentKey : String) :
    o.claims instrumentKey = 0 := by
  unfold SimOrder.claims
  rw [if_neg]
  simp [h]

theorem SameFills.claims {o o' : SimOrder} (h : o.SameFills o')
    (hlive : o'.status.isLive = o.status.isLive) (instrumentKey : String) :
    o'.claims instrumentKey = o.claims instrumentKey := by
  unfold SimOrder.claims SimOrder.remaining
  rw [h.instrumentKey, h.product, h.side, hlive, h.quantity, h.filledQty]

/-- A fill takes its shares from what a live sale claims, and a buy claims nothing. -/
theorem claims_afterFill {o : SimOrder} (s : Settlement) {fill : Fill} (hlive : o.status.isLive = true)
    (hkey : fill.instrumentKey = o.instrumentKey) (hside : fill.side = o.side)
    (instrumentKey : String) : (o.afterFill s fill).claims instrumentKey ≤
      o.claims instrumentKey +
        if fill.instrumentKey = instrumentKey ∧ o.product = .cnc then fill.signedQty else 0 := by
  have hq := fill.quantity_pos
  have hterms := o.afterFill_terms s fill
  have hcounts := (o.afterFill_counts s fill).1
  have hstatus := o.afterFill_status s fill
  unfold SimOrder.claims SimOrder.remaining Fill.signedQty
  rw [hterms.instrumentKey, hterms.product, hterms.side, hterms.quantity, hcounts, hstatus, hkey,
    hside]
  by_cases hall : o.filledQty + fill.quantity = o.quantity
  · -- the order is filled: what it claimed was the fill
    rw [if_pos hall, if_neg (by simp [OrderStatus.isLive])]
    cases o.side with
    | buy =>
      rw [if_neg (by simp), Side.sign_buy]
      split <;> omega
    | sell =>
      simp only [hlive, and_true, Side.sign_sell]
      split <;> omega
  · rw [if_neg hall]
    have hpartially : OrderStatus.isLive .partiallyFilled = true := rfl
    cases o.side with
    | buy =>
      rw [if_neg (by simp), if_neg (by simp), Side.sign_buy]
      split <;> omega
    | sell =>
      simp only [hpartially, hlive, and_true, Side.sign_sell]
      split <;> omega

/-! ## What a change keeps -/

/-- What is pending is the claims of all orders, none of which is negative. -/
theorem claims_le_pendingSales (hb : Sound env startingCash b) {boid : String} {so : SimOrder}
    (hso : b.orders.get? boid = some so) (instrumentKey : String) :
    so.claims instrumentKey ≤ b.pendingSales instrumentKey :=
  Dict.le_sum (fun k o ho => claims_nonneg (hb.conserves.within k o ho) instrumentKey) hso

theorem pendingSales_nonneg (hb : Sound env startingCash b) (instrumentKey : String) :
    0 ≤ b.pendingSales instrumentKey :=
  Dict.sum_nonneg fun k o ho => claims_nonneg (hb.conserves.within k o ho) instrumentKey

/-- Rewriting one order moves what is pending by its claims. -/
theorem pendingSales_set {boid : String} {so c : SimOrder} (hso : b.orders.get? boid = some so)
    (horders : b'.orders = b.orders.set boid c) (instrumentKey : String) :
    b'.pendingSales instrumentKey + so.claims instrumentKey =
      b.pendingSales instrumentKey + c.claims instrumentKey := by
  have hsum := Dict.sum_set (fun _ (o : SimOrder) => o.claims instrumentKey) b.orders boid c
    { c with status := .cancelled } (claims_ended rfl instrumentKey)
  rw [hso, Option.getD_some] at hsum
  rw [pendingSales, horders]
  exact hsum

namespace Change

/-- **The step lemma.** -/
theorem covered (h : Change env good b b') (hb : Sound env startingCash b) (hc : Covered b) :
    Covered b' := by
  intro instrumentKey
  have hheld := hc instrumentKey
  cases h with
  | noted orders _ _ _ _ _ positions =>
    rw [pendingSales, orders, SimCore.quantity, positions]
    exact hheld
  | moved held same _ live orders _ _ core =>
    have hsum := pendingSales_set held orders instrumentKey
    rw [SameFills.claims same live] at hsum
    rw [core]
    omega
  -- an order that ends gives up its claim
  | @ended boid so c held _ _ _ closed orders _ _ core =>
    have hsum := pendingSales_set held orders instrumentKey
    have hclaims := claims_nonneg (hb.conserves.within boid so held) instrumentKey
    rw [claims_ended closed] at hsum
    have hquantity : b'.core.quantity instrumentKey .cnc = b.core.quantity instrumentKey .cnc := by
      rw [core]
      rfl
    omega
  -- a sale takes as much off the holding as off its own claim
  | @filled boid so s fill held live _ key side _ _ _ orders _ _ _ _ _ positions =>
    have hsum := pendingSales_set held orders instrumentKey
    have hclaims := claims_afterFill s live key side instrumentKey
    have hquantity := quantity_applyPosition fill b.core so.product .cnc instrumentKey
    rw [SimCore.quantity, ← positions] at hquantity
    rw [SimCore.quantity]
    omega
  | @accepted order checked sim now _ valid new _ orders _ _ core =>
    have hid : b.orders.get? sim.brokerOrderId = none := by
      rw [new]
      exact hb.registered.fresh
    have hsum : b'.pendingSales instrumentKey =
        b.pendingSales instrumentKey + sim.claims instrumentKey := by
      rw [pendingSales, orders, Dict.sum_set_new _ _ hid]
      rfl
    have hquantity : b'.core.quantity instrumentKey .cnc = b.core.quantity instrumentKey .cnc := by
      rw [core]
      rfl
    rw [hsum, hquantity]
    -- a new delivery sale is checked against the holding less the sales that are pending
    by_cases hsale : sim.instrumentKey = instrumentKey ∧ sim.product = .cnc ∧ sim.side = .sell
    · obtain ⟨hkey, hproduct, hside⟩ := hsale
      have hclaims : sim.claims instrumentKey ≤ order.quantity := by
        have hremaining : sim.remaining = order.quantity := by
          rw [new]
          exact sub_zero _
        have hpos := order.quantity_pos
        unfold SimOrder.claims
        split <;> omega
      rw [new] at hkey hproduct hside
      have hplaced : order.quantity ≤
          max 0 (b.core.quantity instrumentKey .cnc) - b.pendingSales instrumentKey := by
        rw [← hkey]
        exact validate_sale valid hproduct hside
      have hpending := pendingSales_nonneg hb instrumentKey
      rw [max_eq_right (hpending.trans hheld)] at hplaced
      omega
    · have hzero : sim.claims instrumentKey = 0 :=
        if_neg fun hall => hsale ⟨hall.1, hall.2.1, hall.2.2.1⟩
      omega

/-- Splitting a list with one more element at its end. -/
theorem split_concat {α : Type} {l xs ys : List α} {a x : α} (h : l ++ [a] = xs ++ x :: ys) :
    (xs = l ∧ x = a) ∨ ∃ zs, l = xs ++ x :: zs := by
  rcases ys.eq_nil_or_concat with rfl | ⟨zs, z, rfl⟩
  · obtain ⟨hl, ha⟩ := List.append_inj' h rfl
    exact .inl ⟨hl.symm, (List.cons.inj ha).1.symm⟩
  · right
    rw [List.concat_eq_append, ← List.cons_append, ← List.append_assoc] at h
    exact ⟨zs, (List.append_inj' h rfl).1⟩

theorem neverFlipped (h : Change env good b b') (hb : Sound env startingCash b) (hc : Covered b)
    (hn : NeverFlipped b) : NeverFlipped b' := by
  have hproduct : ∀ g ∈ b.fills, b'.productOf g = b.productOf g := fun g hg =>
    h.productOf_kept hb.registered hg
  -- the fills that were there keep their past
  have hold : ∀ xs f ys, b.fills = xs ++ f :: ys → b'.productOf f = some .cnc →
      ¬flips ((xs.filter fun g => g.instrumentKey = f.instrumentKey ∧
        b'.productOf g = some .cnc).map Fill.signedQty).sum f := by
    intro xs f ys hsplit hcnc
    have hmem : ∀ g ∈ xs, g ∈ b.fills := fun g hg => by
      rw [hsplit]
      exact List.mem_append_left _ hg
    have hf : f ∈ b.fills := by
      rw [hsplit]
      exact List.mem_append_right _ List.mem_cons_self
    rw [List.filter_congr fun g hg => by rw [hproduct g (hmem g hg)]]
    exact hn xs f ys hsplit ((hproduct f hf).symm.trans hcnc)
  intro xs f ys hsplit hcnc
  cases h with
  | noted _ fills => exact hold xs f ys (fills ▸ hsplit) hcnc
  | moved _ _ _ _ _ fills => exact hold xs f ys (fills ▸ hsplit) hcnc
  | ended _ _ _ _ _ _ fills => exact hold xs f ys (fills ▸ hsplit) hcnc
  | accepted _ _ _ _ _ _ fills => exact hold xs f ys (fills ▸ hsplit) hcnc
  | @filled boid so s fill held live ofOrder key side within _ _ orders fills =>
    rw [fills] at hsplit
    rcases split_concat hsplit with ⟨rfl, rfl⟩ | ⟨zs, hzs⟩
    · have hsum : (b.fills.filter fun g => g.instrumentKey = f.instrumentKey ∧
          b'.productOf g = some .cnc) = b.fillsAt f.instrumentKey .cnc :=
        List.filter_congr fun g hg => by rw [hproduct g hg]
      have hid : f.brokerOrderId = some boid := by
        rw [ofOrder, (hb.registered.ids boid so held).1]
      rw [productOf, hid, Option.bind_some, orders, Dict.get?_set_self, Option.map_some,
        (so.afterFill_terms s f).product, Option.some.injEq] at hcnc
      have hle := claims_le_pendingSales hb held f.instrumentKey
      have hheld := hc f.instrumentKey
      have hpending := pendingSales_nonneg hb f.instrumentKey
      have hq := f.quantity_pos
      rw [hsum, ← hb.conserves.position]
      rintro ⟨hagainst, hrest⟩
      cases hside : f.side with
      | buy =>
        -- a position that is not negative is not closed by a buy
        have hsigned : f.signedQty = f.quantity := by rw [Fill.signedQty, hside, Side.sign_buy, one_mul]
        omega
      | sell =>
        have hclaims : so.claims f.instrumentKey = so.remaining :=
          if_pos ⟨key.symm, hcnc, side.symm.trans hside, live⟩
        have hall : min f.quantity |b.core.quantity f.instrumentKey .cnc| = f.quantity := by
          refine min_eq_left (le_trans ?_ (le_abs_self _))
          omega
        rw [hall, sub_self] at hrest
        exact hrest rfl
    · exact hold xs f zs hzs hcnc

end Change

end SimulatedBroker

namespace BrokerOp

open SimulatedBroker

variable {S : Type} (env : SimEnv) (hooks : Hooks S)

/-- **The run lemma.** -/
theorem run_covered (startingCash : ℚ) (desk : S) (ops : List BrokerOp) :
    let b := (run env hooks ⟨.init startingCash, desk⟩ ops).broker
    Sound env startingCash b ∧ Covered b ∧ NeverFlipped b := by
  have hkeeps : ∀ w w', BrokerStep env hooks (fun _ _ => true) (fun _ _ => True) w w' →
      (Sound env startingCash w.broker ∧ Covered w.broker ∧ NeverFlipped w.broker) →
      Sound env startingCash w'.broker ∧ Covered w'.broker ∧ NeverFlipped w'.broker := by
    intro w w' hstep hw
    have hchange := hstep.change hw.1.conserves.reserved_nonneg
    exact ⟨hchange.sound hw.1, hchange.covered hw.1 hw.2.1, hchange.neverFlipped hw.1 hw.2.1 hw.2.2⟩
  refine run_invariant env hooks hkeeps ⟨.init _ _, fun _ => le_rfl, ?_⟩ ops
    (allowsRun_any env hooks _ ops)
  intro xs f ys hsplit
  exact absurd hsplit (by simp [SimulatedBroker.init])

/-- **Delivery positions are never short.** After any calls, what the live delivery sales of
an instrument still claim is held; so no delivery position is negative, and no fill turned
one round. -/
theorem delivery_never_short (startingCash : ℚ) (desk : S) (ops : List BrokerOp) :
    let b := (run env hooks ⟨.init startingCash, desk⟩ ops).broker
    (∀ instrumentKey, b.pendingSales instrumentKey ≤ max (b.core.quantity instrumentKey .cnc) 0 ∧
        0 ≤ b.core.quantity instrumentKey .cnc) ∧ NeverFlipped b := by
  intro b
  obtain ⟨hsound, hcovered, hnever⟩ := run_covered env hooks startingCash desk ops
  refine ⟨fun instrumentKey => ?_, hnever⟩
  have hheld := hcovered instrumentKey
  exact ⟨le_max_of_le_left hheld, (pendingSales_nonneg hsound instrumentKey).trans hheld⟩

end BrokerOp

end RakshaQuant
