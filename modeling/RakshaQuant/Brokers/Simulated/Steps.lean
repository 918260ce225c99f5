import RakshaQuant.Brokers.Simulated.Effects

/-! The broker's operations as small steps, whoever is subscribed to it. Each operation,
whether it returns or raises, is a sequence of them, and each step says what the code has
checked when it takes it. A property of all runs is then a property each step keeps. -/

namespace RakshaQuant

namespace SimOrder

/-- The price an order is matched at, if the quote reaches it. -/
def reference (o : SimOrder) (quote : Quote) : Option ℚ :=
  if quote.receiptTs < o.eligibleAt then none
  else if o.status = .triggerPending then
    (o.triggerPrice.filter fun trigger => SimulatedBroker.crossed o.side trigger quote.ltp).map
      fun trigger => SimulatedBroker.gapPrice o.side trigger quote.ltp
  else some quote.ltp

/-- The shares the liquidity allows an order, in whole lots. -/
def lots (o : SimOrder) (instrument : Instrument) (liquidity : ℤ) : ℤ :=
  let most := min o.remaining (max 0 liquidity)
  most - most % instrument.lotSize

theorem lots_le (o : SimOrder) (instrument : Instrument) (liquidity : ℤ) :
    o.lots instrument liquidity ≤ o.remaining := by
  have hle : min o.remaining (max 0 liquidity) ≤ o.remaining := min_le_left _ _
  have hmod := Int.emod_nonneg (min o.remaining (max 0 liquidity)) instrument.lotSize_pos.ne'
  show min o.remaining (max 0 liquidity) - min o.remaining (max 0 liquidity) % instrument.lotSize ≤
    o.remaining
  omega

end SimOrder

/-! ## Fills that are as wanted

A condition on fills, as a condition on the state before the quote that makes them. -/

section allows

variable (env : SimEnv) (good : SimCore → Fill → Bool)

namespace SimEnv

/-- The fill `_execute` would make is as wanted. -/
def allowsFill (o : SimOrder) (instrument : Instrument) (reference : ℚ) (qty : { q : ℤ // 0 < q })
    (quote : Quote) (core : SimCore) : Bool :=
  let dpKey := (o.instrumentKey, quote.receiptTs.istDate)
  let dpApplies := o.side = .sell ∧ o.product = .cnc ∧ dpKey ∉ core.dpDays
  let price := (env.newFill o instrument reference qty .zero quote).price
  match env.costs.charges o.product o.side (price * qty.1) dpApplies with
  | .error _ => true
  | .ok charges => good core (env.newFill o instrument reference qty charges quote)

/-- The same of the fill of an order at a reference price, if there is one. -/
def allowsLots (o : SimOrder) (reference : ℚ) (quote : Quote) (liquidity : ℤ) (core : SimCore) :
    Bool :=
  match env.instruments.get? o.instrumentKey with
  | none => true
  | some instrument =>
    if h : 0 < o.lots instrument liquidity then
      env.allowsFill good o instrument reference ⟨o.lots instrument liquidity, h⟩ quote core
    else true

/-- The same of the fill `_match` would make. -/
def allowsMatch (o : SimOrder) (quote : Quote) (liquidity : ℤ) (core : SimCore) : Bool :=
  match o.reference quote with
  | none => true
  | some reference => env.allowsLots good o reference quote liquidity core

variable {S : Type} (hooks : Hooks S)

/-- Every fill the loop of `on_quote` makes is as wanted. -/
def allowsAll (quote : Quote) (today : Day) : List String → ℤ → World SimulatedBroker S → Bool
  | [], _, _ => true
  | boid :: rest, liquidity, w =>
    match w.broker.orders.get? boid with
    | none => true
    | some o =>
      if !o.status.isLive then allowsAll quote today rest liquidity w
      else if o.sessionDay < today then
        allowsAll quote today rest liquidity
          (w.finish hooks boid .expired "day order expired" quote.receiptTs)
      else
        env.allowsMatch good o quote liquidity w.broker.core &&
          match SimulatedBroker.matchOrder env hooks boid quote liquidity w with
          | .error .. => true
          | .ok filled w' =>
            allowsAll quote today rest (liquidity - (filled.map Fill.quantity).getD 0) w'

/-- Every fill a quote makes is as wanted. -/
def allowsQuote (quote : Quote) (w : World SimulatedBroker S) : Bool :=
  let today := quote.receiptTs.istDate
  let settled := w.mapBroker (SimulatedBroker.settle today)
  let observed := settled.mapBroker (SimulatedBroker.observe quote today)
  let liquidity := ⌊env.config.participation * settled.broker.intervalVolume quote today⌋
  env.allowsAll good hooks quote today (observed.broker.ordersOf quote.instrumentKey) liquidity
    observed

end SimEnv

end allows

/-- A small step of the broker. Fills are `good`, and orders are `Asked` for. -/
inductive BrokerStep {S : Type} (env : SimEnv) (hooks : Hooks S) (good : SimCore → Fill → Bool)
    (Asked : World SimulatedBroker S → Order → Prop) :
    World SimulatedBroker S → World SimulatedBroker S → Prop
  | settled {w : World SimulatedBroker S} (today : Day) :
      BrokerStep env hooks good Asked w (w.mapBroker (.settle today))
  | observed {w : World SimulatedBroker S} (quote : Quote) (today : Day) :
      BrokerStep env hooks good Asked w (w.mapBroker (.observe quote today))
  | counted {w : World SimulatedBroker S} (boid : String) :
      BrokerStep env hooks good Asked w (w.mapBroker (.countQuote boid))
  /-- A resting stop is triggered. -/
  | triggered {w : World SimulatedBroker S} {boid : String} {so : SimOrder} (ts : Instant)
      (held : w.broker.orders.get? boid = some so) (pending : so.status = .triggerPending) :
      BrokerStep env hooks good Asked w ((w.mapBroker (.trigger boid ts)).notify hooks boid)
  /-- A live order ends without a fill. -/
  | finished {w : World SimulatedBroker S} {boid : String} {so : SimOrder} {status : OrderStatus}
      (message : String) (ts : Instant) (held : w.broker.orders.get? boid = some so)
      (live : so.status.isLive = true)
      (ends : status = .cancelled ∨ status = .expired ∨
        (status = .rejected ∧ so.status = .triggerPending ∧ so.triggerPrice = none)) :
      BrokerStep env hooks good Asked w (w.finish hooks boid status message ts)
  /-- A live order is filled and the subscriber is told; it may raise. -/
  | filled {w : World SimulatedBroker S} {boid : String} {so : SimOrder} {instrument : Instrument}
      {reference : ℚ} {qty : { q : ℤ // 0 < q }} {charges : ChargeBreakdown} {quote : Quote}
      {s : SimulatedBroker.Settlement} (dpDay : Option (String × Day))
      (held : w.broker.orders.get? boid = some so) (live : so.status.isLive = true)
      (within : qty.1 ≤ so.remaining)
      (settles : env.settlement so (env.newFill so instrument reference qty charges quote)
        w.broker = .ok (some s))
      (wanted : good w.broker.core (env.newFill so instrument reference qty charges quote) = true) :
      BrokerStep env hooks good Asked w
        { broker := w.broker.bookFill boid so s dpDay
            (env.newFill so instrument reference qty charges quote)
          desk := (hooks.onFill (env.newFill so instrument reference qty charges quote)
            w.desk).state }
  /-- The update after a fill. -/
  | renotified {w : World SimulatedBroker S} {boid : String} {so : SimOrder}
      (held : w.broker.orders.get? boid = some so)
      (filled : so.status = .filled ∨ so.status = .partiallyFilled) :
      BrokerStep env hooks good Asked w (w.notify hooks boid)
  /-- A new order is accepted: it is saved, and the subscriber is told. -/
  | accepted {w : World SimulatedBroker S} {order : Order} {checked : Instrument × Quote}
      {reserved : ℚ} (now : Instant) (asked : Asked w order)
      (free : w.broker.find order.clientOrderId = none)
      (valid : env.validate order now w.broker = .ok checked)
      (reserves : env.reservation order checked.2.ltp w.broker = .ok reserved) :
      BrokerStep env hooks good Asked w
        (((w.mapBroker fun b => (b.accept (env.newSimOrder order reserved now w.broker)).markDirty
          (env.newSimOrder order reserved now w.broker).brokerOrderId).save hooks).notify
          hooks (env.newSimOrder order reserved now w.broker).brokerOrderId)
  | saved {w : World SimulatedBroker S} : BrokerStep env hooks good Asked w (w.save hooks)

namespace BrokerStep

variable {S α : Type}

/-- Nothing is claimed of where a computation ends. -/
abbrev anyEnd {α : Type} : α → World SimulatedBroker S → Prop := fun _ _ => True

section orders

variable {R : World SimulatedBroker S → World SimulatedBroker S → Prop}
  {P : World SimulatedBroker S → Prop} {Q : α → World SimulatedBroker S → Prop}
  {E : Exc → World SimulatedBroker S → Prop}

theorem heldOrder_some {boid : String} {missing : Exc} {w : World SimulatedBroker S} {o : SimOrder}
    (ho : w.broker.orders.get? boid = some o) :
    SimulatedBroker.heldOrder boid missing w = .ok o w := by
  simp only [SimulatedBroker.heldOrder, Effect.run_bind, Effect.run_get, ho]
  rfl

theorem heldOrder_none {boid : String} {missing : Exc} {w : World SimulatedBroker S}
    (ho : w.broker.orders.get? boid = none) :
    SimulatedBroker.heldOrder boid missing w = .error missing w := by
  simp only [SimulatedBroker.heldOrder, Effect.run_bind, Effect.run_get, ho]
  rfl

/-- Continue with an order the broker holds. -/
theorem moves_order {boid : String} {missing : Exc}
    {f : SimOrder → EStateM Exc (World SimulatedBroker S) α}
    (h : ∀ w o, P w → w.broker.orders.get? boid = some o → Effect.Moves R (Eq w) (f o) Q E)
    (he : ∀ w, P w → E missing w) :
    Effect.Moves R P (SimulatedBroker.heldOrder boid missing >>= f) Q E := by
  intro w hw
  cases ho : w.broker.orders.get? boid with
  | none =>
    rw [Effect.run_bind_error (heldOrder_none ho)]
    exact ⟨.refl, he w hw⟩
  | some o =>
    rw [Effect.run_bind_ok (heldOrder_some ho)]
    exact h w o hw ho w rfl

/-- The same where it is known to hold it. -/
theorem moves_held {boid : String} {missing : Exc}
    {f : SimOrder → EStateM Exc (World SimulatedBroker S) α}
    (hheld : ∀ w, P w → ∃ o, w.broker.orders.get? boid = some o)
    (h : ∀ w o, P w → w.broker.orders.get? boid = some o → Effect.Moves R (Eq w) (f o) Q E) :
    Effect.Moves R P (SimulatedBroker.heldOrder boid missing >>= f) Q E := by
  intro w hw
  obtain ⟨o, ho⟩ := hheld w hw
  rw [Effect.run_bind_ok (heldOrder_some ho)]
  exact h w o hw ho w rfl

/-- Continue with the value of a pure computation that may raise. -/
theorem moves_ofExcept {β : Type} {r : Except Exc β}
    {f : β → EStateM Exc (World SimulatedBroker S) α}
    (h : ∀ b, r = .ok b → Effect.Moves R P (f b) Q E) (he : ∀ e w, r = .error e → P w → E e w) :
    Effect.Moves R P (SimulatedBroker.ofExcept r >>= f) Q E := by
  cases r with
  | ok b => exact h b rfl
  | error e => exact fun w hw => ⟨.refl, he e w rfl hw⟩

end orders

section rules

open SimulatedBroker

/-- What a relation must allow for every operation to be moves of it. A fill is booked,
the subscriber is told of it and then of the order, and it may raise in between. -/
structure Rules (env : SimEnv) (hooks : Hooks S) (good : SimCore → Fill → Bool)
    (Asked : World SimulatedBroker S → Order → Prop)
    (R : World SimulatedBroker S → World SimulatedBroker S → Prop) : Prop where
  settled : ∀ w today, R w (w.mapBroker (settle today))
  observed : ∀ w quote today, R w (w.mapBroker (observe quote today))
  counted : ∀ w boid, R w (w.mapBroker (countQuote boid))
  triggered : ∀ {w boid so} (ts : Instant), w.broker.orders.get? boid = some so →
    so.status = .triggerPending → R w ((w.mapBroker (trigger boid ts)).notify hooks boid)
  finished : ∀ {w boid so status} (message : String) (ts : Instant),
    w.broker.orders.get? boid = some so → so.status.isLive = true →
    (status = .cancelled ∨ status = .expired ∨
      (status = .rejected ∧ so.status = .triggerPending ∧ so.triggerPrice = none)) →
    R w (w.finish hooks boid status message ts)
  filled : ∀ {w boid so instrument reference charges quote s} {qty : { q : ℤ // 0 < q }}
    (dpDay : Option (String × Day)), w.broker.orders.get? boid = some so →
    so.status.isLive = true → qty.1 ≤ so.remaining →
    env.settlement so (env.newFill so instrument reference qty charges quote) w.broker =
      .ok (some s) →
    good w.broker.core (env.newFill so instrument reference qty charges quote) = true →
    Effect.Moves R (Eq w)
      (do
        modify (World.mapBroker (bookFill boid so s dpDay
          (env.newFill so instrument reference qty charges quote)))
        World.onDesk (hooks.onFill (env.newFill so instrument reference qty charges quote))
        modify (World.notify hooks boid)
        return some (env.newFill so instrument reference qty charges quote))
      anyEnd anyEnd
  accepted : ∀ {w order checked reserved} (now : Instant), Asked w order →
    w.broker.find order.clientOrderId = none → env.validate order now w.broker = .ok checked →
    env.reservation order checked.2.ltp w.broker = .ok reserved →
    R w (((w.mapBroker fun b => (b.accept (env.newSimOrder order reserved now w.broker)).markDirty
      (env.newSimOrder order reserved now w.broker).brokerOrderId).save hooks).notify hooks
      (env.newSimOrder order reserved now w.broker).brokerOrderId)
  saved : ∀ w, R w (w.save hooks)

variable (env : SimEnv) (hooks : Hooks S) (good : SimCore → Fill → Bool)
  (Asked : World SimulatedBroker S → Order → Prop)

/-- A fill is booked and the subscriber is told, in one step. -/
theorem moves_fill {boid : String} {so : SimOrder} {instrument : Instrument} {reference : ℚ}
    {qty : { q : ℤ // 0 < q }} {charges : ChargeBreakdown} {quote : Quote}
    {s : SimulatedBroker.Settlement} (dpDay : Option (String × Day)) {w : World SimulatedBroker S}
    (held : w.broker.orders.get? boid = some so) (live : so.status.isLive = true)
    (within : qty.1 ≤ so.remaining)
    (settles : env.settlement so
      (env.newFill so instrument reference qty charges quote) w.broker = .ok (some s))
    (wanted : good w.broker.core (env.newFill so instrument reference qty charges quote) = true) :
    Effect.Moves (BrokerStep env hooks good Asked) (Eq w)
      (do
        modify (World.mapBroker (SimulatedBroker.bookFill boid so s dpDay
          (env.newFill so instrument reference qty charges quote)))
        World.onDesk (hooks.onFill (env.newFill so instrument reference qty charges quote)))
      (fun _ w' => w'.broker.orders.get? boid = some (so.afterFill s
        (env.newFill so instrument reference qty charges quote)))
      anyEnd := by
  rintro _ rfl
  have hstep : BrokerStep env hooks good Asked w _ :=
    .filled dpDay held live within settles wanted
  generalize env.newFill so instrument reference qty charges quote = fill at hstep ⊢
  have horder : (w.broker.bookFill boid so s dpDay fill).orders.get? boid =
      some (so.afterFill s fill) := by
    obtain ⟨blocked, heq, -⟩ := SimulatedBroker.bookFill_eq boid so s dpDay fill w.broker
    rw [heq]
    exact Dict.get?_set_self _ _ _
  rw [Effect.run_bind_ok (Effect.run_modify _ _)]
  unfold World.onDesk
  cases hd : hooks.onFill fill w.desk with
  | ok a d =>
    simp only [World.mapBroker, hd]
    rw [hd] at hstep
    exact ⟨.single hstep, horder⟩
  | error e d =>
    simp only [World.mapBroker, hd]
    rw [hd] at hstep
    exact ⟨.single hstep, trivial⟩

/-- The small steps: a fill and the update after it are two of them. -/
theorem rules : Rules env hooks good Asked (BrokerStep env hooks good Asked) where
  settled _ today := .settled today
  observed _ quote today := .observed quote today
  counted _ boid := .counted boid
  triggered ts held pending := .triggered ts held pending
  finished message ts held live ends := .finished message ts held live ends
  filled dpDay held live within settles wanted := by
    rw [← bind_assoc]
    refine Effect.Moves.bind
      (moves_fill env hooks good Asked dpDay held live within settles wanted) fun _ => ?_
    refine Effect.Moves.after (M := fun _ => True) (fun w' hw' => ?_)
      (Effect.Moves.pure fun _ _ => trivial)
    refine ⟨.single (.renotified hw' ?_), trivial⟩
    rw [SimOrder.afterFill_status]
    split
    · exact .inl rfl
    · exact .inr rfl
  accepted now asked free valid reserves := .accepted now asked free valid reserves
  saved _ := .saved

end rules

section quotes

variable {env : SimEnv} {hooks : Hooks S} {good : SimCore → Fill → Bool}
  {Asked : World SimulatedBroker S → Order → Prop}
  {R : World SimulatedBroker S → World SimulatedBroker S → Prop}
  (hrules : Rules env hooks good Asked R)

include hrules

theorem moves_execute (boid : String) (instrument : Instrument) (reference : ℚ)
    (qty : { q : ℤ // 0 < q }) (quote : Quote) :
    Effect.Moves R
      (fun w => ∃ so, w.broker.orders.get? boid = some so ∧ so.status.isLive = true ∧
        qty.1 ≤ so.remaining ∧
        env.allowsFill good so instrument reference qty quote w.broker.core = true)
      (SimulatedBroker.execute env hooks boid instrument reference qty quote) anyEnd anyEnd := by
  unfold SimulatedBroker.execute
  refine moves_order (fun w o hw ho => ?_) fun _ _ => trivial
  obtain ⟨so, hso, hlive, hwithin, hallows⟩ := hw
  obtain rfl : o = so := Option.some.inj (ho.symm.trans hso)
  refine Effect.Moves.read ?_
  rintro _ rfl
  refine moves_ofExcept (fun charges hcharges => ?_) fun _ _ _ _ => trivial
  unfold SimEnv.allowsFill at hallows
  dsimp only at hallows
  rw [hcharges] at hallows
  refine Effect.Moves.read ?_
  rintro _ rfl
  refine moves_ofExcept (fun settlement hsettles => ?_) fun _ _ _ _ => trivial
  cases settlement with
  | none =>
    refine Effect.Moves.after (M := fun _ => True) ?_ (Effect.Moves.pure fun _ _ => trivial)
    rintro _ rfl
    exact ⟨.single (hrules.finished _ _ ho hlive (.inl rfl)), trivial⟩
  | some s => exact hrules.filled _ ho hlive hwithin hsettles hallows

theorem moves_cancelRest (boid : String) (quote : Quote) :
    Effect.Moves R (fun _ => True)
      (SimulatedBroker.cancelRest env hooks boid quote) anyEnd anyEnd := by
  unfold SimulatedBroker.cancelRest
  refine moves_order (fun w o _ ho => ?_) fun _ _ => trivial
  split
  · rename_i hcancel
    refine Effect.Moves.change ?_
    rintro _ rfl
    exact ⟨.single (hrules.finished _ _ ho hcancel.2.2.1 (.inl rfl)), trivial⟩
  · exact Effect.Moves.pure fun _ _ => trivial

theorem moves_fillOrCancel (boid : String) (reference : ℚ) (quote : Quote) (liquidity : ℤ) :
    Effect.Moves R
      (fun w => ∃ so, w.broker.orders.get? boid = some so ∧ so.status.isLive = true ∧
        env.allowsLots good so reference quote liquidity w.broker.core = true)
      (SimulatedBroker.fillOrCancel env hooks boid reference quote liquidity) anyEnd anyEnd := by
  unfold SimulatedBroker.fillOrCancel
  refine Effect.Moves.after
    (M := fun w => ∃ so, w.broker.orders.get? boid = some so ∧ so.status.isLive = true ∧
      env.allowsLots good so reference quote liquidity w.broker.core = true) ?_ ?_
  · rintro w ⟨so, hso, hlive, hallows⟩
    have hcount := SimulatedBroker.countQuote_of_get hso
    refine ⟨.single (hrules.counted _ boid),
      { so with eligibleQuotes := so.eligibleQuotes + 1 }, ?_, hlive, ?_⟩
    · show (w.broker.countQuote boid).orders.get? boid = _
      rw [hcount]
      exact Dict.get?_set_self _ _ _
    · show env.allowsLots good _ reference quote liquidity (w.broker.countQuote boid).core = true
      rw [hcount]
      exact hallows
  refine moves_order (fun w o hw ho => ?_) fun _ _ => trivial
  obtain ⟨so, hso, hlive, hallows⟩ := hw
  obtain rfl : o = so := Option.some.inj (ho.symm.trans hso)
  unfold SimEnv.allowsLots at hallows
  cases hi : env.instruments.get? o.instrumentKey with
  | none => exact Effect.Moves.throw fun _ _ => trivial
  | some instrument =>
    rw [hi] at hallows
    have hlots : min o.remaining (max 0 liquidity) -
        min o.remaining (max 0 liquidity) % instrument.lotSize = o.lots instrument liquidity := rfl
    dsimp only at hallows ⊢
    rw [hlots]
    by_cases h : 0 < o.lots instrument liquidity
    · rw [dif_pos h] at hallows
      rw [dif_pos h]
      refine Effect.Moves.bind (Q := anyEnd)
        ((moves_execute hrules boid instrument reference ⟨_, h⟩ quote).conseq ?_
          (fun _ _ h => h) fun _ _ h => h)
        fun _ => Effect.Moves.bind (moves_cancelRest hrules boid quote) fun _ =>
          Effect.Moves.pure fun _ _ => trivial
      rintro _ rfl
      exact ⟨o, ho, hlive, o.lots_le instrument liquidity, hallows⟩
    · rw [dif_neg h]
      exact Effect.Moves.bind (Q := anyEnd) (Effect.Moves.pure fun _ _ => trivial) fun _ =>
        Effect.Moves.bind (moves_cancelRest hrules boid quote) fun _ =>
          Effect.Moves.pure fun _ _ => trivial

theorem moves_matchOrder (boid : String) (quote : Quote) (liquidity : ℤ) :
    Effect.Moves R
      (fun w => ∃ so, w.broker.orders.get? boid = some so ∧ so.status.isLive = true ∧
        env.allowsMatch good so quote liquidity w.broker.core = true)
      (SimulatedBroker.matchOrder env hooks boid quote liquidity) anyEnd anyEnd := by
  unfold SimulatedBroker.matchOrder
  refine moves_order (fun w o hw ho => ?_) fun _ _ => trivial
  obtain ⟨so, hso, hlive, hallows⟩ := hw
  obtain rfl : o = so := Option.some.inj (ho.symm.trans hso)
  unfold SimEnv.allowsMatch SimOrder.reference at hallows
  by_cases hearly : quote.receiptTs < o.eligibleAt
  · rw [if_pos hearly]
    exact Effect.Moves.pure fun _ _ => trivial
  rw [if_neg hearly] at hallows ⊢
  by_cases hpending : o.status = .triggerPending
  · rw [if_pos hpending] at hallows ⊢
    cases htrigger : o.triggerPrice with
    | none =>
      refine Effect.Moves.after (M := fun _ => True) ?_ (Effect.Moves.pure fun _ _ => trivial)
      rintro _ rfl
      exact ⟨.single (hrules.finished _ _ ho hlive (.inr (.inr ⟨rfl, hpending, htrigger⟩))), trivial⟩
    | some trigger =>
      rw [htrigger] at hallows
      dsimp only
      -- what the quote is allowed was reckoned at the gap price of the trigger
      by_cases hcrossed : SimulatedBroker.crossed o.side trigger quote.ltp = true
      · have hreached : (some trigger).filter (fun t => SimulatedBroker.crossed o.side t quote.ltp) =
            some trigger := Option.filter_some_pos hcrossed
        rw [hreached] at hallows
        rw [hcrossed, if_neg (by simp)]
        refine Effect.Moves.after ?_ (moves_fillOrCancel hrules boid _ quote liquidity)
        rintro _ rfl
        refine ⟨.single (hrules.triggered _ ho hpending), ?_⟩
        refine ⟨{ o with status := .open, updatedAt := quote.receiptTs }, ?_, rfl, ?_⟩
        · rw [World.notify_orders]
          show (w.broker.trigger boid quote.receiptTs).orders.get? boid = _
          rw [SimulatedBroker.trigger_of_get _ ho]
          exact Dict.get?_set_self _ _ _
        · rw [World.notify_core]
          show env.allowsLots good _ _ quote liquidity
            (w.broker.trigger boid quote.receiptTs).core = true
          rw [SimulatedBroker.trigger_of_get _ ho]
          exact hallows
      · rw [if_pos (by simpa using hcrossed)]
        exact Effect.Moves.pure fun _ _ => trivial
  · rw [if_neg hpending] at hallows ⊢
    refine (moves_fillOrCancel hrules boid _ quote liquidity).conseq ?_
      (fun _ _ h => h) fun _ _ h => h
    rintro _ rfl
    exact ⟨o, ho, hlive, hallows⟩

theorem moves_matchAll (quote : Quote) (today : Day) (boids : List String) (liquidity : ℤ) :
    Effect.Moves R
      (fun w => env.allowsAll good hooks quote today boids liquidity w = true)
      (SimulatedBroker.matchAll env hooks quote today boids liquidity) anyEnd anyEnd := by
  induction boids generalizing liquidity with
  | nil => exact Effect.Moves.pure fun _ _ => trivial
  | cons boid rest ih =>
    unfold SimulatedBroker.matchAll
    refine moves_order (fun w o hallows ho => ?_) fun _ _ => trivial
    unfold SimEnv.allowsAll at hallows
    rw [ho] at hallows
    dsimp only at hallows
    by_cases hlive : o.status.isLive = true
    · rw [if_neg (by simp [hlive])] at hallows ⊢
      by_cases hold : o.sessionDay < today
      · rw [if_pos hold] at hallows ⊢
        refine Effect.Moves.after ?_ (ih liquidity)
        rintro _ rfl
        exact ⟨.single (hrules.finished _ _ ho hlive (.inr (.inl rfl))), hallows⟩
      · rw [if_neg hold, Bool.and_eq_true] at hallows
        rw [if_neg hold]
        have hmatch : Effect.Moves R (Eq w)
            (SimulatedBroker.matchOrder env hooks boid quote liquidity) anyEnd anyEnd :=
          (moves_matchOrder hrules boid quote liquidity).conseq
            (by rintro _ rfl; exact ⟨o, ho, hlive, hallows.1⟩) (fun _ _ h => h) fun _ _ h => h
        refine Effect.Moves.bind hmatch.run fun filled => ?_
        refine Effect.Moves.bind (Q := anyEnd) ?_ fun _ => Effect.Moves.pure fun _ _ => trivial
        refine (ih _).conseq (fun w' hw' => ?_) (fun _ _ h => h) fun _ _ h => h
        have hrest := hallows.2
        rw [hw'.2] at hrest
        exact hrest
    · rw [if_pos (by simp [hlive])] at hallows ⊢
      refine (ih liquidity).conseq ?_ (fun _ _ h => h) fun _ _ h => h
      rintro _ rfl
      exact hallows

theorem moves_onQuote (quote : Quote) :
    Effect.Moves R
      (fun w => env.allowsQuote good hooks quote w = true)
      (SimulatedBroker.onQuote env hooks quote) anyEnd anyEnd := by
  unfold SimulatedBroker.onQuote
  intro w hallows
  refine Effect.Moves.after (P := Eq w)
    (M := Eq (w.mapBroker (SimulatedBroker.settle quote.receiptTs.istDate))) ?_ ?_ w rfl
  · rintro _ rfl
    exact ⟨.single (hrules.settled _ _), rfl⟩
  refine Effect.Moves.read ?_
  rintro _ rfl
  refine Effect.Moves.after ?_ (Effect.Moves.read fun w' hw' => ?_) (M := Eq
    ((w.mapBroker (SimulatedBroker.settle quote.receiptTs.istDate)).mapBroker
      (SimulatedBroker.observe quote quote.receiptTs.istDate)))
  · rintro _ rfl
    exact ⟨.single (hrules.observed _ _ _), rfl⟩
  subst hw'
  refine Effect.Moves.bind (Q := anyEnd)
    ((moves_matchAll hrules quote _ _ _).conseq (by rintro _ rfl; exact hallows)
      (fun _ _ h => h) fun _ _ h => h) fun fills => ?_
  refine Effect.Moves.read fun w'' _ => ?_
  split
  · refine Effect.Moves.after (M := fun _ => True) ?_ (Effect.Moves.pure fun _ _ => trivial)
    rintro _ rfl
    exact ⟨.single (hrules.saved _), trivial⟩
  · exact Effect.Moves.pure fun _ _ => trivial

end quotes

/-! ## The other calls -/

section others

variable {env : SimEnv} {hooks : Hooks S} {good : SimCore → Fill → Bool}
  {Asked : World SimulatedBroker S → Order → Prop}
  {R : World SimulatedBroker S → World SimulatedBroker S → Prop}
  (hrules : Rules env hooks good Asked R)

include hrules

theorem moves_expireAll (now : Instant) (boids : List String) :
    Effect.Moves R (fun _ => True)
      (SimulatedBroker.expireAll hooks now boids) anyEnd anyEnd := by
  induction boids with
  | nil => exact Effect.Moves.pure fun _ _ => trivial
  | cons boid rest ih =>
    unfold SimulatedBroker.expireAll
    refine moves_order (fun w o _ ho => ?_) fun _ _ => trivial
    split
    · rename_i hlive
      refine Effect.Moves.after (M := fun _ => True) ?_
        (Effect.Moves.bind (Q := anyEnd) ih fun _ => Effect.Moves.pure fun _ _ => trivial)
      rintro _ rfl
      exact ⟨.single (hrules.finished _ _ ho hlive (.inr (.inl rfl))), trivial⟩
    · exact ih.conseq (fun _ _ => trivial) (fun _ _ h => h) fun _ _ h => h

theorem moves_expireSession (now : Instant) :
    Effect.Moves R (fun _ => True)
      (SimulatedBroker.expireSession hooks now) anyEnd anyEnd := by
  unfold SimulatedBroker.expireSession
  refine Effect.Moves.read fun w _ => ?_
  refine Effect.Moves.bind (Q := anyEnd)
    ((moves_expireAll hrules now _).conseq (fun _ _ => trivial) (fun _ _ h => h)
      fun _ _ h => h) fun expired => ?_
  split
  · exact Effect.Moves.change fun w _ => ⟨.single (hrules.saved _), trivial⟩
  · exact Effect.Moves.pure fun _ _ => trivial

theorem moves_cancelOrder (now : Instant) (boid : String) :
    Effect.Moves R (fun _ => True)
      (SimulatedBroker.cancelOrder hooks now boid) anyEnd anyEnd := by
  unfold SimulatedBroker.cancelOrder
  refine moves_order (fun w o _ ho => ?_) fun _ _ => trivial
  have hrest : ∀ P : World SimulatedBroker S → Prop, Effect.Moves R P
      (SimulatedBroker.getOrder boid >>= fun o => pure (SimulatedBroker.ack o "") :
        EStateM Exc (World SimulatedBroker S) BrokerAck) anyEnd anyEnd := fun _ =>
    moves_order (fun _ _ _ _ => Effect.Moves.pure fun _ _ => trivial) fun _ _ => trivial
  split
  · rename_i hlive
    refine Effect.Moves.after (M := fun _ => True) ?_
      (Effect.Moves.after (M := fun _ => True) (fun _ _ => ⟨.single (hrules.saved _), trivial⟩) (hrest _))
    rintro _ rfl
    exact ⟨.single (hrules.finished _ _ ho hlive (.inl rfl)), trivial⟩
  · exact hrest _

/-- Asking for the funds settles what is due. -/
theorem moves_getFunds (now : Instant) :
    Effect.Moves R (fun _ => True)
      (SimulatedBroker.getFunds now : EStateM Exc (World SimulatedBroker S) Funds)
      anyEnd anyEnd := by
  unfold SimulatedBroker.getFunds
  refine Effect.Moves.after (M := fun _ => True) (fun _ _ => ⟨.single (hrules.settled _ _), trivial⟩) ?_
  refine Effect.Moves.read fun w _ => ?_
  dsimp only
  split
  · exact Effect.Moves.pure fun _ _ => trivial
  · exact Effect.Moves.throw fun _ _ => trivial

theorem moves_placeOrder (now : Instant) (order : Order) :
    Effect.Moves R (fun w => Asked w order)
      (SimulatedBroker.placeOrder env hooks now order) anyEnd anyEnd := by
  unfold SimulatedBroker.placeOrder
  refine Effect.Moves.read fun w hasked => ?_
  cases hfind : w.broker.find order.clientOrderId with
  | some existing => exact Effect.Moves.pure fun _ _ => trivial
  | none =>
    refine Effect.Moves.read ?_
    rintro _ rfl
    refine moves_ofExcept (fun checked hvalid => ?_) fun _ _ _ _ => trivial
    refine moves_ofExcept (fun reserved hreserved => ?_) fun _ _ _ _ => trivial
    refine Effect.Moves.after (M := fun _ => True) ?_ (Effect.Moves.pure fun _ _ => trivial)
    rintro _ rfl
    exact ⟨.single (hrules.accepted now hasked hfind hvalid hreserved), trivial⟩

end others

end BrokerStep

/-! ## Runs -/

/-- What is called on a broker, at the time its clock reads. -/
inductive BrokerOp
  | placeOrder (now : Instant) (order : Order)
  | cancelOrder (now : Instant) (brokerOrderId : String)
  | onQuote (quote : Quote)
  | expireSession (now : Instant)
  | getFunds (now : Instant)

namespace BrokerOp

variable {S : Type} (env : SimEnv) (hooks : Hooks S)

def exec : BrokerOp → EStateM Exc (World SimulatedBroker S) PUnit
  | placeOrder now order => do
    let _ ← SimulatedBroker.placeOrder env hooks now order
  | cancelOrder now boid => do
    let _ ← SimulatedBroker.cancelOrder hooks now boid
  | onQuote quote => do
    let _ ← SimulatedBroker.onQuote env hooks quote
  | expireSession now => SimulatedBroker.expireSession hooks now
  | getFunds now => do
    let _ ← SimulatedBroker.getFunds now

/-- The world a call leaves behind, also when it raises. -/
def after (w : World SimulatedBroker S) (op : BrokerOp) : World SimulatedBroker S :=
  (op.exec env hooks w).state

def run (w : World SimulatedBroker S) (ops : List BrokerOp) : World SimulatedBroker S :=
  ops.foldl (after env hooks) w

/-- Every fill the call makes is as wanted. -/
def allows (good : SimCore → Fill → Bool) (w : World SimulatedBroker S) : BrokerOp → Bool
  | onQuote quote => env.allowsQuote good hooks quote w
  | placeOrder .. | cancelOrder .. | expireSession _ | getFunds _ => true

/-- The same of every call of a run. -/
def allowsRun (good : SimCore → Fill → Bool) :
    World SimulatedBroker S → List BrokerOp → Bool
  | _, [] => true
  | w, op :: rest => op.allows env hooks good w && allowsRun good (op.after env hooks w) rest

/-- Any fill may be wanted. -/
theorem allowsAll_any (quote : Quote) (today : Day) (boids : List String) (liquidity : ℤ)
    (w : World SimulatedBroker S) :
    env.allowsAll (fun _ _ => true) hooks quote today boids liquidity w = true := by
  have hlots : ∀ o reference quote liquidity core,
      env.allowsLots (fun _ _ => true) o reference quote liquidity core = true := by
    intro o reference quote liquidity core
    unfold SimEnv.allowsLots SimEnv.allowsFill
    cases env.instruments.get? o.instrumentKey with
    | none => rfl
    | some instrument =>
      dsimp only
      split
      · split <;> rfl
      · rfl
  induction boids generalizing liquidity w with
  | nil => rfl
  | cons boid rest ih =>
    unfold SimEnv.allowsAll
    cases w.broker.orders.get? boid with
    | none => rfl
    | some o =>
      dsimp only
      split
      · exact ih _ _
      · split
        · exact ih _ _
        · rw [Bool.and_eq_true]
          constructor
          · unfold SimEnv.allowsMatch
            split
            · rfl
            · exact hlots _ _ _ _ _
          · split
            · rfl
            · exact ih _ _

theorem allowsQuote_any (quote : Quote) (w : World SimulatedBroker S) :
    env.allowsQuote (fun _ _ => true) hooks quote w = true :=
  allowsAll_any env hooks _ _ _ _ _

theorem allows_any (op : BrokerOp) (w : World SimulatedBroker S) :
    op.allows env hooks (fun _ _ => true) w = true := by
  cases op with
  | onQuote quote => exact allowsQuote_any env hooks quote w
  | _ => rfl

/-- Every call is moves of any relation that allows its stretches. -/
theorem after_moves {good : SimCore → Fill → Bool}
    {R : World SimulatedBroker S → World SimulatedBroker S → Prop}
    (hrules : BrokerStep.Rules env hooks good (fun _ _ => True) R) {w : World SimulatedBroker S}
    (op : BrokerOp) (h : op.allows env hooks good w = true) :
    Relation.ReflTransGen R w (op.after env hooks w) := by
  have hends : ∀ {α : Type} {m : EStateM Exc (World SimulatedBroker S) α}
      {P : World SimulatedBroker S → Prop},
      Effect.Moves R P m BrokerStep.anyEnd BrokerStep.anyEnd → P w →
      Relation.ReflTransGen R w
        ((m >>= fun _ => pure ⟨⟩ : EStateM Exc (World SimulatedBroker S) PUnit) w).state := by
    intro α m P hm hp
    rw [Effect.state_bind_pure]
    exact (hm w hp).1
  cases op with
  | placeOrder now order => exact hends (BrokerStep.moves_placeOrder hrules now order) trivial
  | cancelOrder now boid => exact hends (BrokerStep.moves_cancelOrder hrules now boid) trivial
  | onQuote quote => exact hends (BrokerStep.moves_onQuote hrules quote) h
  | expireSession now => exact (BrokerStep.moves_expireSession hrules now w trivial).1
  | getFunds now => exact hends (BrokerStep.moves_getFunds hrules now) trivial

/-- Every call is small steps, whether it returns or raises. -/
theorem after_steps {good : SimCore → Fill → Bool} {w : World SimulatedBroker S} (op : BrokerOp)
    (h : op.allows env hooks good w = true) :
    Relation.ReflTransGen (BrokerStep env hooks good fun _ _ => True) w (op.after env hooks w) :=
  op.after_moves env hooks (BrokerStep.rules env hooks good _) h

/-- **The run lemma.** What every step keeps holds after a run whose fills are as wanted. -/
theorem run_invariant {good : SimCore → Fill → Bool} {I : World SimulatedBroker S → Prop}
    (keeps : ∀ w w', BrokerStep env hooks good (fun _ _ => True) w w' → I w → I w')
    {w : World SimulatedBroker S} (hw : I w) (ops : List BrokerOp)
    (h : allowsRun env hooks good w ops = true) : I (run env hooks w ops) := by
  induction ops generalizing w with
  | nil => exact hw
  | cons op rest ih =>
    rw [allowsRun, Bool.and_eq_true] at h
    exact ih (Effect.invariant keeps (op.after_steps env hooks h.1) hw) h.2

theorem allowsRun_any (w : World SimulatedBroker S) (ops : List BrokerOp) :
    allowsRun env hooks (fun _ _ => true) w ops = true := by
  induction ops generalizing w with
  | nil => rfl
  | cons op rest ih =>
    rw [allowsRun, Bool.and_eq_true]
    exact ⟨op.allows_any env hooks w, ih _⟩

end BrokerOp

end RakshaQuant
