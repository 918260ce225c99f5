import RakshaQuant.Brokers.Simulated.Alike

/-! Two alike brokers are called the same way. While no subscriber raises, they return the
same or raise the same, and stay alike: each computation is walked through on both sides. -/

namespace RakshaQuant

/-- A subscriber that never raises. -/
def Hooks.Quiet {S : Type} (hooks : Hooks S) : Prop :=
  ∀ fill s, ∃ s', hooks.onFill fill s = .ok ⟨⟩ s'

/-- The instruments and days of the quotes of a run. -/
def BrokerOp.Quoted (ops : List BrokerOp) (instrumentKey : String) (day : Day) : Prop :=
  ∃ quote, .onQuote quote ∈ ops ∧ quote.instrumentKey = instrumentKey ∧
    quote.receiptTs.istDate = day

namespace Lockstep

open Effect SimulatedBroker

variable {S S' α β : Type} {Quoted : String → Day → Prop} {fills fills' : List Fill}

/-- Worlds whose brokers are alike. -/
abbrev Together (Quoted : String → Day → Prop) (fills fills' : List Fill)
    (w : World SimulatedBroker S) (w' : World SimulatedBroker S') : Prop :=
  SimulatedBroker.Alike Quoted fills fills' w.broker w'.broker

/-- The same is returned, in worlds whose brokers are alike. -/
abbrev Same (Quoted : String → Day → Prop) (fills fills' : List Fill) (a a' : α)
    (w : World SimulatedBroker S) (w' : World SimulatedBroker S') : Prop :=
  a = a' ∧ Together Quoted fills fills' w w'

theorem reached {w s : World SimulatedBroker S} {w' t : World SimulatedBroker S'}
    (h : Together Quoted fills fills' w w') (hst : s = w ∧ t = w') :
    Together Quoted fills fills' s t := by
  rw [hst.1, hst.2]
  exact h

section worlds

variable {w : World SimulatedBroker S} {w' : World SimulatedBroker S'} (hooks : Hooks S)
  (hooks' : Hooks S')

theorem notify (h : Together Quoted fills fills' w w') (boid : String) :
    Together Quoted fills fills' (w.notify hooks boid) (w'.notify hooks' boid) := by
  unfold World.notify
  cases ho : w.broker.orders.get? boid with
  | none =>
    rw [h.orders.missing ho]
    exact h
  | some o =>
    obtain ⟨o', ho', -⟩ := h.orders.held ho
    rw [ho']
    exact h.markDirty boid

theorem saved (h : Together Quoted fills fills' w w') :
    Together Quoted fills fills' (w.save hooks) w' ∧
      Together Quoted fills fills' w (w'.save hooks') ∧
      Together Quoted fills fills' (w.save hooks) (w'.save hooks') :=
  ⟨⟨h.core, h.seen, h.orders, h.byTag, h.quotes, h.fills⟩,
    ⟨h.core, h.seen, h.orders, h.byTag, h.quotes, h.fills⟩,
    ⟨h.core, h.seen, h.orders, h.byTag, h.quotes, h.fills⟩⟩

theorem finish (h : Together Quoted fills fills' w w') (boid : String) {status : OrderStatus}
    (hstatus : status ≠ .triggerPending) (message : String) (ts : Instant) :
    Together Quoted fills fills' (w.finish hooks boid status message ts)
      (w'.finish hooks' boid status message ts) := by
  have hfinished : Together Quoted fills fills' (w.mapBroker (.finish boid status message ts))
      (w'.mapBroker (.finish boid status message ts)) :=
    Alike.finish h boid hstatus message ts
  exact notify hooks hooks' hfinished boid

end worlds

section rules

variable {P : World SimulatedBroker S → World SimulatedBroker S' → Prop}
  {V : α → β → World SimulatedBroker S → World SimulatedBroker S' → Prop}
  {E : World SimulatedBroker S → World SimulatedBroker S' → Prop}

/-- Continue with the order both brokers hold. -/
theorem order {boid : String} {missing : Exc}
    {f : SimOrder → EStateM Exc (World SimulatedBroker S) α}
    {g : SimOrder → EStateM Exc (World SimulatedBroker S') β}
    (hp : ∀ w w', P w w' → Together Quoted fills fills' w w')
    (h : ∀ w w' o o', P w w' → w.broker.orders.get? boid = some o → o.Alike o' →
      Relates (fun s t => s = w ∧ t = w') (f o) (g o') V E)
    (he : ∀ w w', P w w' → E w w') :
    Relates P (heldOrder boid missing >>= f) (heldOrder boid missing >>= g) V E := by
  intro w w' hw
  cases ho : w.broker.orders.get? boid with
  | none =>
    rw [run_bind_error (BrokerStep.heldOrder_none ho),
      run_bind_error (BrokerStep.heldOrder_none ((hp w w' hw).orders.missing ho))]
    exact ⟨rfl, he w w' hw⟩
  | some o =>
    obtain ⟨o', ho', halike⟩ := (hp w w' hw).orders.held ho
    rw [run_bind_ok (BrokerStep.heldOrder_some ho), run_bind_ok (BrokerStep.heldOrder_some ho')]
    exact h w w' o o' hw ho halike w w' ⟨rfl, rfl⟩

/-- Continue with a value both computed. -/
theorem computed {γ : Type} {r r' : Except Exc γ}
    {f : γ → EStateM Exc (World SimulatedBroker S) α}
    {g : γ → EStateM Exc (World SimulatedBroker S') β} (hr : r' = r)
    (h : ∀ c, r = .ok c → Relates P (f c) (g c) V E) (he : ∀ w w', P w w' → E w w') :
    Relates P (SimulatedBroker.ofExcept r >>= f) (SimulatedBroker.ofExcept r' >>= g) V E := by
  subst hr
  cases r' with
  | ok c => exact h c rfl
  | error e => exact fun w w' hw => ⟨rfl, he w w' hw⟩

end rules

section quotes

variable (env : SimEnv) (hooks : Hooks S) (hooks' : Hooks S') (hquiet : hooks.Quiet)
  (hquiet' : hooks'.Quiet)

include hquiet hquiet'

/-- Both subscribers take the fill. -/
theorem told (fill : Fill) :
    Relates (Together Quoted fills fills')
      (World.onDesk (hooks.onFill fill) : EStateM Exc (World SimulatedBroker S) PUnit)
      (World.onDesk (hooks'.onFill fill) : EStateM Exc (World SimulatedBroker S') PUnit)
      (fun _ _ => Together Quoted fills fills') (Together Quoted fills fills') := by
  intro w w' hw
  obtain ⟨s, hs⟩ := hquiet fill w.desk
  obtain ⟨s', hs'⟩ := hquiet' fill w'.desk
  unfold World.onDesk
  rw [hs, hs']
  exact hw

theorem execute (boid : String) (instrument : Instrument) (reference : ℚ)
    (qty : { q : ℤ // 0 < q }) (quote : Quote) :
    Relates (Together Quoted fills fills')
      (SimulatedBroker.execute env hooks boid instrument reference qty quote)
      (SimulatedBroker.execute env hooks' boid instrument reference qty quote)
      (Same Quoted fills fills') (Together Quoted fills fills') := by
  unfold SimulatedBroker.execute
  refine order (fun _ _ h => h) (fun w w' o o' hw ho halike => ?_) fun _ _ h => h
  refine Relates.read ?_
  rintro w w' ⟨rfl, rfl⟩
  have hdp : w'.broker.core.dpDays = w.broker.core.dpDays := by rw [hw.core]
  rw [hdp]
  have hterms : o'.side = o.side ∧ o'.product = o.product ∧ o'.instrumentKey = o.instrumentKey := by
    obtain ⟨_, _, rfl⟩ := halike.kept
    exact ⟨rfl, rfl, rfl⟩
  have hfill : ∀ charges, env.newFill o' instrument reference qty charges quote =
      env.newFill o instrument reference qty charges quote := by
    intro charges
    obtain ⟨_, _, rfl⟩ := halike.kept
    rfl
  rw [hterms.1, hterms.2.1, hterms.2.2]
  simp only [hfill]
  refine computed rfl (fun charges _ => ?_) fun _ _ h => reached hw h
  refine Relates.read ?_
  rintro w w' ⟨rfl, rfl⟩
  refine computed (hw.settlement env halike _) (fun settlement _ => ?_) fun _ _ h => reached hw h
  cases settlement with
  | none =>
    refine Relates.after (M := Together Quoted fills fills') (fun s t h => ?_)
      (Relates.pure fun _ _ h => ⟨rfl, h⟩)
    exact finish hooks hooks' (reached hw h) boid (by simp) _ _
  | some s =>
    refine Relates.after (M := Together Quoted fills fills') (fun s t h => ?_) ?_
    · exact (reached hw h).bookFill boid halike _ _ _
    refine Relates.bind (told hooks hooks' hquiet hquiet' _) fun _ _ => ?_
    exact Relates.after (M := Together Quoted fills fills') (fun s t h => notify hooks hooks' h boid)
      (Relates.pure fun _ _ h => ⟨rfl, h⟩)

omit hquiet hquiet' in
theorem cancelRest (boid : String) (quote : Quote) :
    Relates (Together Quoted fills fills')
      (SimulatedBroker.cancelRest env hooks boid quote)
      (SimulatedBroker.cancelRest env hooks' boid quote)
      (Same Quoted fills fills') (Together Quoted fills fills') := by
  unfold SimulatedBroker.cancelRest
  refine order (fun _ _ h => h) (fun w w' o o' hw ho halike => ?_) fun _ _ h => h
  have hterms : o'.orderType = o.orderType ∧ o'.remaining = o.remaining ∧ o'.status = o.status := by
    obtain ⟨_, _, rfl⟩ := halike.kept
    exact ⟨rfl, rfl, rfl⟩
  rw [hterms.1, hterms.2.1, hterms.2.2]
  by_cases hmarket : o.orderType = .market
  · rw [halike.quotes hmarket]
    split
    · exact Relates.change fun s t h =>
        ⟨rfl, finish hooks hooks' (reached hw h) boid (by simp) _ _⟩
    · exact Relates.pure fun _ _ h => ⟨rfl, reached hw h⟩
  · rw [if_neg fun h => hmarket h.1, if_neg fun h => hmarket h.1]
    exact Relates.pure fun _ _ h => ⟨rfl, reached hw h⟩

theorem fillOrCancel (boid : String) (reference : ℚ) (quote : Quote) (liquidity : ℤ) :
    Relates (Together Quoted fills fills')
      (SimulatedBroker.fillOrCancel env hooks boid reference quote liquidity)
      (SimulatedBroker.fillOrCancel env hooks' boid reference quote liquidity)
      (Same Quoted fills fills') (Together Quoted fills fills') := by
  unfold SimulatedBroker.fillOrCancel
  refine Relates.after (M := Together Quoted fills fills') (fun _ _ h => h.countQuote boid) ?_
  refine order (fun _ _ h => h) (fun w w' o o' hw ho halike => ?_) fun _ _ h => h
  have hterms : o'.instrumentKey = o.instrumentKey ∧ o'.remaining = o.remaining := by
    obtain ⟨_, _, rfl⟩ := halike.kept
    exact ⟨rfl, rfl⟩
  rw [hterms.1]
  cases env.instruments.get? o.instrumentKey with
  | none => exact Relates.throw fun _ _ h => reached hw h
  | some instrument =>
    dsimp only
    rw [hterms.2]
    have hrest : ∀ fill fill' : Option Fill, Relates (Same Quoted fills fills' fill fill')
        (do
          SimulatedBroker.cancelRest env hooks boid quote
          return fill)
        (do
          SimulatedBroker.cancelRest env hooks' boid quote
          return fill')
        (Same Quoted fills fills') (Together Quoted fills fills') := by
      intro fill fill' s t h
      exact Relates.bind (cancelRest env hooks hooks' boid quote)
        (fun _ _ => Relates.pure fun _ _ hst => ⟨h.1, hst.2⟩) s t h.2
    split
    · exact Relates.bind ((execute env hooks hooks' hquiet hquiet' boid instrument reference _
        quote).conseq (fun _ _ h => reached hw h) fun _ _ _ _ h => h) hrest
    · exact Relates.bind (Relates.pure fun _ _ h => ⟨rfl, reached hw h⟩) hrest

theorem matchOrder (boid : String) (quote : Quote) (liquidity : ℤ) :
    Relates (Together Quoted fills fills')
      (SimulatedBroker.matchOrder env hooks boid quote liquidity)
      (SimulatedBroker.matchOrder env hooks' boid quote liquidity)
      (Same Quoted fills fills') (Together Quoted fills fills') := by
  unfold SimulatedBroker.matchOrder
  refine order (fun _ _ h => h) (fun w w' o o' hw ho halike => ?_) fun _ _ h => h
  have hterms : o'.eligibleAt = o.eligibleAt ∧ o'.status = o.status ∧ o'.side = o.side := by
    obtain ⟨_, _, rfl⟩ := halike.kept
    exact ⟨rfl, rfl, rfl⟩
  rw [hterms.1, hterms.2.1, hterms.2.2]
  split
  · exact Relates.pure fun _ _ h => ⟨rfl, reached hw h⟩
  split
  · rename_i hpending
    rw [halike.trigger hpending]
    cases o.triggerPrice with
    | none =>
      refine Relates.after (M := Together Quoted fills fills') (fun s t h => ?_)
        (Relates.pure fun _ _ h => ⟨rfl, h⟩)
      exact finish hooks hooks' (reached hw h) boid (by simp) _ _
    | some trigger =>
      dsimp only
      split
      · exact Relates.pure fun _ _ h => ⟨rfl, reached hw h⟩
      · refine Relates.after (M := Together Quoted fills fills') (fun s t h => ?_)
          (fillOrCancel env hooks hooks' hquiet hquiet' boid _ quote liquidity)
        have htriggered : Together Quoted fills fills' (s.mapBroker (.trigger boid quote.receiptTs))
            (t.mapBroker (.trigger boid quote.receiptTs)) :=
          (reached hw h).trigger boid quote.receiptTs
        exact notify hooks hooks' htriggered boid
  · exact (fillOrCancel env hooks hooks' hquiet hquiet' boid _ quote liquidity).conseq
      (fun _ _ h => reached hw h) fun _ _ _ _ h => h

theorem matchAll (quote : Quote) (today : Day) (boids : List String) (liquidity : ℤ) :
    Relates (Together Quoted fills fills')
      (SimulatedBroker.matchAll env hooks quote today boids liquidity)
      (SimulatedBroker.matchAll env hooks' quote today boids liquidity)
      (Same Quoted fills fills') (Together Quoted fills fills') := by
  induction boids generalizing liquidity with
  | nil => exact Relates.pure fun _ _ h => ⟨rfl, h⟩
  | cons boid rest ih =>
    unfold SimulatedBroker.matchAll
    refine order (fun _ _ h => h) (fun w w' o o' hw ho halike => ?_) fun _ _ h => h
    have hterms : o'.status = o.status ∧ o'.sessionDay = o.sessionDay := by
      obtain ⟨_, _, rfl⟩ := halike.kept
      exact ⟨rfl, rfl⟩
    rw [hterms.1, hterms.2]
    split
    · exact (ih liquidity).conseq (fun _ _ h => reached hw h) fun _ _ _ _ h => h
    split
    · refine Relates.after (M := Together Quoted fills fills') (fun s t h => ?_) (ih liquidity)
      exact finish hooks hooks' (reached hw h) boid (by simp) _ _
    · refine Relates.bind ((matchOrder env hooks hooks' hquiet hquiet' boid quote
        liquidity).conseq (fun _ _ h => reached hw h) fun _ _ _ _ h => h) ?_
      rintro filled filled' s t ⟨rfl, hst⟩
      refine Relates.bind (ih (liquidity - (filled.map Fill.quantity).getD 0)) ?_ s t hst
      exact fun made made' => Relates.pure fun _ _ h => ⟨by rw [h.1], h.2⟩

theorem onQuote {quote : Quote} (hquoted : Quoted quote.instrumentKey quote.receiptTs.istDate) :
    Relates (Together Quoted fills fills')
      (SimulatedBroker.onQuote env hooks quote) (SimulatedBroker.onQuote env hooks' quote)
      (Same Quoted fills fills') (Together Quoted fills fills') := by
  unfold SimulatedBroker.onQuote
  refine Relates.after (M := Together Quoted fills fills') (fun _ _ h => h.settle _) ?_
  refine Relates.read fun w w' hw => ?_
  rw [hw.intervalVolume hquoted]
  refine Relates.after (M := Together Quoted fills fills') ?_ ?_
  · rintro _ _ ⟨rfl, rfl⟩
    exact hw.observe _ _
  refine Relates.read fun w w' hw => ?_
  rw [hw.ordersOf]
  refine Relates.bind ((matchAll env hooks hooks' hquiet hquiet' quote _ _ _).conseq ?_
    fun _ _ _ _ h => h) fun made made' => ?_
  · rintro _ _ ⟨rfl, rfl⟩
    exact hw
  -- a save is seen by neither broker
  rintro w w' ⟨rfl, hw⟩
  obtain ⟨hleft, hright, hboth⟩ := saved hooks hooks' hw
  rw [run_bind_ok (run_get w), run_bind_ok (run_get w')]
  cases hdirty : w.broker.dirty <;> cases hdirty' : w'.broker.dirty
  · exact ⟨rfl, hw⟩
  · exact ⟨rfl, hright⟩
  · exact ⟨rfl, hleft⟩
  · exact ⟨rfl, hboth⟩

end quotes

section others

variable (env : SimEnv) (hooks : Hooks S) (hooks' : Hooks S')

theorem ack_eq {o o' : SimOrder} (h : o.Alike o') (message : String) :
    ack o message = ack o' message := by
  obtain ⟨_, _, rfl⟩ := h.kept
  rfl

theorem placeOrder (now : Instant) (request : Order) :
    Relates (Together Quoted fills fills')
      (SimulatedBroker.placeOrder env hooks now request)
      (SimulatedBroker.placeOrder env hooks' now request)
      (Same Quoted fills fills') (Together Quoted fills fills') := by
  unfold SimulatedBroker.placeOrder
  refine Relates.read fun w w' hw => ?_
  rcases hw.find request.clientOrderId with ⟨hnone, hnone'⟩ | ⟨o, o', ho, ho', halike⟩
  · rw [hnone, hnone']
    refine Relates.read ?_
    rintro w w' ⟨rfl, rfl⟩
    refine computed (hw.validate env request now) (fun checked _ => ?_) fun _ _ h => reached hw h
    refine computed (hw.reservation env request _) (fun reserved _ => ?_) fun _ _ h => reached hw h
    dsimp only
    rw [hw.newSimOrder]
    refine Relates.after (M := Together Quoted fills fills') (fun s t h => ?_)
      (Relates.pure fun _ _ h => ⟨rfl, h⟩)
    generalize env.newSimOrder request reserved now w.broker = sim
    have hmarked : Together Quoted fills fills'
        (s.mapBroker fun b => (b.accept sim).markDirty sim.brokerOrderId)
        (t.mapBroker fun b => (b.accept sim).markDirty sim.brokerOrderId) :=
      ((reached hw h).accept sim).markDirty sim.brokerOrderId
    exact notify hooks hooks' (saved hooks hooks' hmarked).2.2 _
  · rw [ho, ho']
    exact Relates.pure fun _ _ h => ⟨ack_eq halike _, reached hw h⟩

theorem cancelOrder (now : Instant) (boid : String) :
    Relates (Together Quoted fills fills')
      (SimulatedBroker.cancelOrder hooks now boid) (SimulatedBroker.cancelOrder hooks' now boid)
      (Same Quoted fills fills') (Together Quoted fills fills') := by
  unfold SimulatedBroker.cancelOrder
  refine order (fun _ _ h => h) (fun w w' o o' hw ho halike => ?_) fun _ _ h => h
  have hstatus : o'.status = o.status := by
    obtain ⟨_, _, rfl⟩ := halike.kept
    rfl
  rw [hstatus]
  have hrest : ∀ {P : World SimulatedBroker S → World SimulatedBroker S' → Prop},
      (∀ s t, P s t → Together Quoted fills fills' s t) →
      Relates P (getOrder boid >>= fun o => pure (ack o ""))
        (getOrder boid >>= fun o => pure (ack o ""))
        (Same Quoted fills fills') (Together Quoted fills fills') := by
    intro P hp
    refine order hp (fun w w' o o' hw _ halike => ?_) hp
    exact Relates.pure fun _ _ h => ⟨ack_eq halike _, reached (hp _ _ hw) h⟩
  split
  · refine Relates.after (M := Together Quoted fills fills') (fun s t h => ?_)
      (Relates.after (M := Together Quoted fills fills')
        (fun _ _ h => (saved hooks hooks' h).2.2) (hrest fun _ _ h => h))
    exact finish hooks hooks' (reached hw h) boid (by simp) _ _
  · exact hrest fun _ _ h => reached hw h

theorem expireAll (now : Instant) (boids : List String) :
    Relates (Together Quoted fills fills')
      (SimulatedBroker.expireAll hooks now boids) (SimulatedBroker.expireAll hooks' now boids)
      (Same Quoted fills fills') (Together Quoted fills fills') := by
  induction boids with
  | nil => exact Relates.pure fun _ _ h => ⟨rfl, h⟩
  | cons boid rest ih =>
    unfold SimulatedBroker.expireAll
    refine order (fun _ _ h => h) (fun w w' o o' hw ho halike => ?_) fun _ _ h => h
    have hstatus : o'.status = o.status := by
      obtain ⟨_, _, rfl⟩ := halike.kept
      rfl
    rw [hstatus]
    split
    · refine Relates.after (M := Together Quoted fills fills') (fun s t h => ?_)
        (Relates.bind ih fun _ _ => Relates.pure fun _ _ h => ⟨rfl, h.2⟩)
      exact finish hooks hooks' (reached hw h) boid (by simp) _ _
    · exact ih.conseq (fun _ _ h => reached hw h) fun _ _ _ _ h => h

theorem expireSession (now : Instant) :
    Relates (Together Quoted fills fills')
      (SimulatedBroker.expireSession hooks now) (SimulatedBroker.expireSession hooks' now)
      (Same Quoted fills fills') (Together Quoted fills fills') := by
  unfold SimulatedBroker.expireSession
  refine Relates.read fun w w' hw => ?_
  rw [hw.orders.keys]
  refine Relates.bind ((expireAll hooks hooks' now _).conseq (fun _ _ h => reached hw h)
    fun _ _ _ _ h => h) ?_
  rintro expired expired' s t ⟨rfl, hst⟩
  cases expired with
  | true => exact ⟨rfl, (saved hooks hooks' hst).2.2⟩
  | false => exact ⟨rfl, hst⟩

theorem getFunds (now : Instant) :
    Relates (Together Quoted fills fills')
      (SimulatedBroker.getFunds now : EStateM Exc (World SimulatedBroker S) Funds)
      (SimulatedBroker.getFunds now : EStateM Exc (World SimulatedBroker S') Funds)
      (Same Quoted fills fills') (Together Quoted fills fills') := by
  unfold SimulatedBroker.getFunds
  refine Relates.after (M := Together Quoted fills fills') (fun _ _ h => h.settle _) ?_
  refine Relates.read fun w w' hw => ?_
  have hterms : w'.broker.core.blocked = w.broker.core.blocked ∧
      w'.broker.core.unsettled = w.broker.core.unsettled := by
    rw [hw.core]
    exact ⟨rfl, rfl⟩
  simp only [hterms.1, hterms.2, hw.available]
  split
  · exact Relates.pure fun _ _ h => ⟨rfl, reached hw h⟩
  · exact Relates.throw fun _ _ h => reached hw h

end others

section runs

variable (env : SimEnv) (hooks : Hooks S) (hooks' : Hooks S')

variable (hquiet : hooks.Quiet) (hquiet' : hooks'.Quiet)

include hquiet hquiet'

/-- One call, on both. -/
theorem after {op : BrokerOp}
    (hquoted : ∀ quote, op = .onQuote quote → Quoted quote.instrumentKey quote.receiptTs.istDate)
    {w : World SimulatedBroker S} {w' : World SimulatedBroker S'}
    (h : Together Quoted fills fills' w w') :
    Together Quoted fills fills' (op.after env hooks w) (op.after env hooks' w') := by
  have hforget : ∀ {α : Type} {m : EStateM Exc (World SimulatedBroker S) α}
      {m' : EStateM Exc (World SimulatedBroker S') α},
      Relates (Together Quoted fills fills') m m' (Same Quoted fills fills')
        (Together Quoted fills fills') →
      Together Quoted fills fills' (m w).state (m' w').state := fun hm =>
    (hm.conseq (fun _ _ h => h) fun _ _ _ _ h => h.2).states h
  unfold BrokerOp.after BrokerOp.exec
  cases op with
  | placeOrder now request =>
    dsimp only
    rw [state_bind_pure, state_bind_pure]
    exact hforget (placeOrder env hooks hooks' now request)
  | cancelOrder now boid =>
    dsimp only
    rw [state_bind_pure, state_bind_pure]
    exact hforget (cancelOrder hooks hooks' now boid)
  | onQuote quote =>
    dsimp only
    rw [state_bind_pure, state_bind_pure]
    exact hforget (onQuote env hooks hooks' hquiet hquiet' (hquoted quote rfl))
  | expireSession now => exact hforget (expireSession hooks hooks' now)
  | getFunds now =>
    dsimp only
    rw [state_bind_pure, state_bind_pure]
    exact hforget (getFunds now)

/-- **The run lemma.** -/
theorem run (ops : List BrokerOp) {w : World SimulatedBroker S} {w' : World SimulatedBroker S'}
    (h : Together (BrokerOp.Quoted ops) fills fills' w w') :
    Together (BrokerOp.Quoted ops) fills fills' (BrokerOp.run env hooks w ops)
      (BrokerOp.run env hooks' w' ops) := by
  have hrun : ∀ rest, rest ⊆ ops → ∀ w w', Together (BrokerOp.Quoted ops) fills fills' w w' →
      Together (BrokerOp.Quoted ops) fills fills' (BrokerOp.run env hooks w rest)
        (BrokerOp.run env hooks' w' rest) := by
    intro rest hrest
    induction rest with
    | nil => exact fun _ _ h => h
    | cons op rest ih =>
      intro w w' h
      rw [List.cons_subset] at hrest
      refine ih hrest.2 _ _ (after env hooks hooks' hquiet hquiet' ?_ h)
      rintro quote rfl
      exact ⟨quote, hrest.1, rfl, rfl⟩
  exact hrun ops (List.Subset.refl ops) w w' h

end runs

end Lockstep

end RakshaQuant
