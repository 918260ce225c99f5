import RakshaQuant.Brokers.Simulated.Steps
import RakshaQuant.Lib.Relate

/-! Two brokers that no later call can tell apart, though their subscribers differ and one
of them may have counted other quotes for its stops. Every operation leaves such brokers
alike, returns the same from both, and makes the same fills in both. -/

namespace RakshaQuant

/-- The volume of a day that quotes have shown so far. -/
def SimCore.seen (core : SimCore) (instrumentKey : String) (day : Day) : ℤ :=
  match core.volume.get? instrumentKey with
  | some (seenDay, volume) => if seenDay = day then volume else 0
  | none => 0

namespace SimOrder

/-- An order but for its count of quotes and its trigger. -/
def KeptAs (o o' : SimOrder) : Prop :=
  ∃ quotes price, o' = { o with eligibleQuotes := quotes, triggerPrice := price }

/-- The count matters for a market order, and the trigger while it is pending. -/
structure Alike (o o' : SimOrder) : Prop where
  kept : o.KeptAs o'
  trigger : o.status = .triggerPending → o'.triggerPrice = o.triggerPrice
  quotes : o.orderType = .market → o'.eligibleQuotes = o.eligibleQuotes

theorem KeptAs.refl (o : SimOrder) : o.KeptAs o := ⟨o.eligibleQuotes, o.triggerPrice, rfl⟩

theorem Alike.refl (o : SimOrder) : o.Alike o := ⟨.refl o, fun _ => rfl, fun _ => rfl⟩

end SimOrder

namespace SimulatedBroker

theorem intervalVolume_eq (quote : Quote) (today : Day) (b : SimulatedBroker) :
    b.intervalVolume quote today = max 0 (quote.volumeCum - b.core.seen quote.instrumentKey today) := by
  have hcum := quote.volumeCum_nonneg
  have hall : max 0 (quote.volumeCum - 0) = quote.volumeCum := by omega
  unfold intervalVolume SimCore.seen
  cases b.core.volume.get? quote.instrumentKey with
  | none => exact hall.symm
  | some entry =>
    dsimp only
    split
    · rfl
    · exact hall.symm

/-- Brokers that are alike for the days and instruments that are quoted; the fills since
they were compared are the same. -/
structure Alike (Quoted : String → Day → Prop) (fills fills' : List Fill)
    (b b' : SimulatedBroker) : Prop where
  core : b'.core = { b.core with volume := b'.core.volume }
  seen : ∀ key day, Quoted key day → b'.core.seen key day = b.core.seen key day
  orders : b.orders.Related SimOrder.Alike b'.orders
  byTag : ∀ coid, b'.byTag.get? coid = b.byTag.get? coid
  quotes : b'.quotes = b.quotes
  fills : ∃ news, b.fills = fills ++ news ∧ b'.fills = fills' ++ news

namespace Alike

variable {Quoted : String → Day → Prop} {fills fills' : List Fill} {b b' : SimulatedBroker}

/-! ## What is read from them -/

theorem available (h : Alike Quoted fills fills' b b') : b'.available = b.available := by
  unfold SimulatedBroker.available
  rw [h.core]

theorem find (h : Alike Quoted fills fills' b b') (coid : String) :
    (b.find coid = none ∧ b'.find coid = none) ∨
      ∃ o o', b.find coid = some o ∧ b'.find coid = some o' ∧ o.Alike o' := by
  unfold SimulatedBroker.find
  rw [h.byTag]
  cases b.byTag.get? coid with
  | none => exact .inl ⟨rfl, rfl⟩
  | some boid =>
    cases ho : b.orders.get? boid with
    | none => exact .inl ⟨ho, h.orders.missing ho⟩
    | some o =>
      obtain ⟨o', ho', halike⟩ := h.orders.held ho
      exact .inr ⟨o, o', ho, ho', halike⟩

theorem availableToSell (h : Alike Quoted fills fills' b b') (key : String) :
    b'.availableToSell key = b.availableToSell key := by
  unfold SimulatedBroker.availableToSell
  rw [h.core]
  dsimp only
  congr 1
  refine h.orders.sum_eq fun _ o o' ho => ?_
  obtain ⟨_, _, rfl⟩ := ho.kept
  rfl

theorem ordersOf (h : Alike Quoted fills fills' b b') (key : String) :
    b'.ordersOf key = b.ordersOf key := by
  unfold SimulatedBroker.ordersOf
  congr 1
  have hsame : ∀ o o' : SimOrder, o.Alike o' →
      decide (o'.instrumentKey = key) = decide (o.instrumentKey = key) := by
    intro o o' ho
    obtain ⟨_, _, rfl⟩ := ho.kept
    rfl
  exact h.orders.filter_keys (p := fun o => o.instrumentKey = key)
    (q := fun o => o.instrumentKey = key) hsame

theorem intervalVolume (h : Alike Quoted fills fills' b b') {quote : Quote} {today : Day}
    (hquoted : Quoted quote.instrumentKey today) :
    b'.intervalVolume quote today = b.intervalVolume quote today := by
  rw [intervalVolume_eq, intervalVolume_eq, h.seen _ _ hquoted]

theorem validate (h : Alike Quoted fills fills' b b') (env : SimEnv) (order : Order)
    (now : Instant) : env.validate order now b' = env.validate order now b := by
  unfold SimEnv.validate
  simp only [h.quotes, h.availableToSell]

theorem reservation (h : Alike Quoted fills fills' b b') (env : SimEnv) (order : Order)
    (reference : ℚ) : env.reservation order reference b' = env.reservation order reference b := by
  unfold SimEnv.reservation
  simp only [h.available]

theorem newSimOrder (h : Alike Quoted fills fills' b b') (env : SimEnv) (order : Order)
    (reserved : ℚ) (now : Instant) :
    env.newSimOrder order reserved now b' = env.newSimOrder order reserved now b := by
  unfold SimEnv.newSimOrder
  rw [h.core]

theorem settlement (h : Alike Quoted fills fills' b b') (env : SimEnv) {o o' : SimOrder}
    (ho : o.Alike o') (fill : Fill) : env.settlement o' fill b' = env.settlement o fill b := by
  obtain ⟨_, _, rfl⟩ := ho.kept
  unfold SimEnv.settlement
  simp only [h.available]

/-! ## What is done to them -/

/-- A change of the core that leaves the volumes. -/
theorem mapCore (h : Alike Quoted fills fills' b b') (f : SimCore → SimCore)
    (hf : ∀ c v, f { c with volume := v } = { f c with volume := v }) :
    Alike Quoted fills fills' { b with core := f b.core } { b' with core := f b'.core } := by
  have hvolume : ∀ c, (f c).volume = c.volume := by
    intro c
    have hself : f c = { f c with volume := c.volume } := hf c c.volume
    have hread := congrArg SimCore.volume hself
    exact hread
  have hseen : ∀ c key day, (f c).seen key day = c.seen key day := by
    intro c key day
    unfold SimCore.seen
    rw [hvolume]
  refine ⟨?_, fun key day hq => ?_, h.orders, h.byTag, h.quotes, h.fills⟩
  · show f b'.core = { f b.core with volume := (f b'.core).volume }
    rw [hvolume, ← hf, ← h.core]
  · show (f b'.core).seen key day = (f b.core).seen key day
    rw [hseen, hseen, h.seen key day hq]

theorem setOrder (h : Alike Quoted fills fills' b b') (boid : String) {o o' : SimOrder}
    (ho : o.Alike o') :
    Alike Quoted fills fills' { b with orders := b.orders.set boid o }
      { b' with orders := b'.orders.set boid o' } :=
  ⟨h.core, h.seen, h.orders.set ho, h.byTag, h.quotes, h.fills⟩

theorem settle (h : Alike Quoted fills fills' b b') (today : Day) :
    Alike Quoted fills fills' (b.settle today) (b'.settle today) := by
  have hdue : b'.core.unsettled = b.core.unsettled := by rw [h.core]
  unfold SimulatedBroker.settle
  dsimp only
  rw [hdue]
  split
  · exact h
  · have hsettled := h.mapCore (fun core =>
      { core with
        cash := core.cash +
          ((core.unsettled.filter fun u => u.availableOn ≤ today).map Unsettled.amount).sum
        unsettled := core.unsettled.filter fun u => today < u.availableOn }) fun _ _ => rfl
    rw [hdue] at hsettled
    exact hsettled

/-- A quote shows both the same volume. -/
theorem observe (h : Alike Quoted fills fills' b b') (quote : Quote) (today : Day) :
    Alike Quoted fills fills' (b.observe quote today) (b'.observe quote today) := by
  refine ⟨?_, fun key day hq => ?_, h.orders, h.byTag, ?_, h.fills⟩
  · show { b'.core with volume := b'.core.volume.set quote.instrumentKey (today, quote.volumeCum) } =
      { b.core with volume := b'.core.volume.set quote.instrumentKey (today, quote.volumeCum) }
    rw [h.core]
  · have hold := h.seen key day hq
    unfold SimCore.seen at hold ⊢
    show (match (b'.core.volume.set quote.instrumentKey (today, quote.volumeCum)).get? key with
        | some (seenDay, volume) => if seenDay = day then volume else 0
        | none => 0) =
      match (b.core.volume.set quote.instrumentKey (today, quote.volumeCum)).get? key with
        | some (seenDay, volume) => if seenDay = day then volume else 0
        | none => 0
    rw [Dict.get?_set, Dict.get?_set]
    by_cases hkey : key = quote.instrumentKey
    · rw [if_pos hkey, if_pos hkey]
    · rw [if_neg hkey, if_neg hkey]
      exact hold
  · show b'.quotes.set _ _ = b.quotes.set _ _
    rw [h.quotes]

theorem mapOrder (h : Alike Quoted fills fills' b b') (boid : String) {f : SimOrder → SimOrder}
    (hf : ∀ o o', b.orders.get? boid = some o → o.Alike o' → (f o).Alike (f o')) :
    Alike Quoted fills fills' (b.mapOrder boid f) (b'.mapOrder boid f) := by
  unfold SimulatedBroker.mapOrder
  cases ho : b.orders.get? boid with
  | none =>
    rw [h.orders.missing ho]
    exact h
  | some o =>
    obtain ⟨o', ho', halike⟩ := h.orders.held ho
    rw [ho']
    exact h.setOrder boid (hf o o' ho halike)

theorem countQuote (h : Alike Quoted fills fills' b b') (boid : String) :
    Alike Quoted fills fills' (b.countQuote boid) (b'.countQuote boid) := by
  refine h.mapOrder boid fun o o' _ ho => ?_
  have hquotes := ho.quotes
  obtain ⟨_, _, rfl⟩ := ho.kept
  exact ⟨⟨_, _, rfl⟩, ho.trigger, fun hmarket => by rw [hquotes hmarket]⟩

/-- An order that is triggered or ends does not wait for its trigger any more. -/
theorem resolved {o o' : SimOrder} (ho : o.Alike o') {status : OrderStatus}
    (hstatus : status ≠ .triggerPending) (message : String) (ts : Instant) (reserved : ℚ) :
    SimOrder.Alike
      { o with status := status, message := message, updatedAt := ts, reserved := reserved }
      { o' with status := status, message := message, updatedAt := ts, reserved := reserved } := by
  have hquotes := ho.quotes
  obtain ⟨_, _, rfl⟩ := ho.kept
  exact ⟨⟨_, _, rfl⟩, fun h => absurd h hstatus, hquotes⟩

theorem trigger (h : Alike Quoted fills fills' b b') (boid : String) (ts : Instant) :
    Alike Quoted fills fills' (b.trigger boid ts) (b'.trigger boid ts) := by
  have hmap : Alike Quoted fills fills'
      (b.mapOrder boid fun o => { o with status := .open, updatedAt := ts })
      (b'.mapOrder boid fun o => { o with status := .open, updatedAt := ts }) := by
    refine h.mapOrder boid fun o o' _ ho => ?_
    have hopen : OrderStatus.open ≠ .triggerPending := by simp
    have hresolved := resolved ho hopen o.message ts o.reserved
    obtain ⟨_, _, rfl⟩ := ho.kept
    exact hresolved
  exact ⟨hmap.core, hmap.seen, hmap.orders, hmap.byTag, hmap.quotes, hmap.fills⟩

theorem finish (h : Alike Quoted fills fills' b b') (boid : String) {status : OrderStatus}
    (hstatus : status ≠ .triggerPending) (message : String) (ts : Instant) :
    Alike Quoted fills fills' (b.finish boid status message ts)
      (b'.finish boid status message ts) := by
  unfold SimulatedBroker.finish
  cases ho : b.orders.get? boid with
  | none =>
    rw [h.orders.missing ho]
    exact h
  | some o =>
    obtain ⟨o', ho', halike⟩ := h.orders.held ho
    rw [ho']
    have hreserved : o'.reserved = o.reserved := by
      obtain ⟨_, _, rfl⟩ := halike.kept
      rfl
    have hcore := h.mapCore (fun core => { core with blocked := core.blocked - o.reserved })
      fun _ _ => rfl
    have hset := hcore.setOrder boid (resolved halike hstatus message ts 0)
    dsimp only
    rw [hreserved]
    exact ⟨hset.core, hset.seen, hset.orders, hset.byTag, hset.quotes, hset.fills⟩

theorem markDirty (h : Alike Quoted fills fills' b b') (boid : String) :
    Alike Quoted fills fills' (b.markDirty boid) (b'.markDirty boid) :=
  ⟨h.core, h.seen, h.orders, h.byTag, h.quotes, h.fills⟩

theorem accept (h : Alike Quoted fills fills' b b') (sim : SimOrder) :
    Alike Quoted fills fills' (b.accept sim) (b'.accept sim) := by
  have hcore := h.mapCore (fun core =>
    { core with nextOrder := core.nextOrder + 1, blocked := core.blocked + sim.reserved })
    fun _ _ => rfl
  have hset := hcore.setOrder sim.brokerOrderId (.refl sim)
  refine ⟨hset.core, hset.seen, hset.orders, fun coid => ?_, hset.quotes, hset.fills⟩
  show (b'.byTag.set _ _).get? coid = (b.byTag.set _ _).get? coid
  rw [Dict.get?_set, Dict.get?_set, h.byTag]

theorem afterFill {o o' : SimOrder} (ho : o.Alike o') (s : Settlement) (fill : Fill) :
    (o.afterFill s fill).Alike (o'.afterFill s fill) := by
  have hquotes := ho.quotes
  obtain ⟨quotes, price, rfl⟩ := ho.kept
  unfold SimOrder.afterFill
  dsimp only
  by_cases hrest : (fillOrder o s fill).remaining = 0
  · have hrest' : (fillOrder { o with eligibleQuotes := quotes, triggerPrice := price }
        s fill).remaining = 0 := hrest
    rw [if_pos hrest, if_pos hrest']
    exact ⟨⟨_, _, rfl⟩, (fun h => nomatch h), hquotes⟩
  · have hrest' : ¬(fillOrder { o with eligibleQuotes := quotes, triggerPrice := price }
        s fill).remaining = 0 := hrest
    rw [if_neg hrest, if_neg hrest']
    exact ⟨⟨_, _, rfl⟩, (fun h => nomatch h), hquotes⟩

/-- The same fill is booked in both. -/
theorem bookFill (h : Alike Quoted fills fills' b b') (boid : String) {o o' : SimOrder}
    (ho : o.Alike o') (s : Settlement) (dpDay : Option (String × Day)) (fill : Fill) :
    Alike Quoted fills fills' (b.bookFill boid o s dpDay fill) (b'.bookFill boid o' s dpDay fill) := by
  obtain ⟨blocked, hbooked, hblocked⟩ := bookFill_eq boid o s dpDay fill b
  obtain ⟨blocked', hbooked', hblocked'⟩ := bookFill_eq boid o' s dpDay fill b'
  have hsame : blocked' = (settleFill s b'.core).blocked -
      (if (fillOrder o s fill).remaining = 0 then o.reserved - s.release else 0) := by
    rw [hblocked']
    obtain ⟨_, _, rfl⟩ := ho.kept
    rfl
  have hproduct : o'.product = o.product := by
    obtain ⟨_, _, rfl⟩ := ho.kept
    rfl
  have hcore := h.mapCore (fun core =>
    { applyPosition o.product fill (settleFill s core) with
      dpDays := core.dpDays ++ dpDay.toList
      blocked := (settleFill s core).blocked -
        (if (fillOrder o s fill).remaining = 0 then o.reserved - s.release else 0) }) ?_
  · have hset := hcore.setOrder boid (afterFill ho s fill)
    rw [hbooked, hbooked', hblocked, hsame, hproduct]
    refine ⟨hset.core, hset.seen, hset.orders, hset.byTag, hset.quotes, ?_⟩
    obtain ⟨news, hnews, hnews'⟩ := h.fills
    exact ⟨news ++ [fill], by rw [hnews, List.append_assoc], by rw [hnews', List.append_assoc]⟩
  · intro core volume
    cases s <;> rfl

end Alike

end SimulatedBroker

end RakshaQuant
