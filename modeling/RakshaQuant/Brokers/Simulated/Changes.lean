import RakshaQuant.Brokers.Simulated.Steps

/-! What a step of the broker does to its records, said once: the orders, the fills, the
blocked cash, the money and the positions. Every law of the broker's books is kept because
each of these changes keeps it. -/

namespace RakshaQuant

namespace SimOrder

/-- The order is for what it was for. -/
structure SameTerms (o o' : SimOrder) : Prop where
  brokerOrderId : o'.brokerOrderId = o.brokerOrderId
  clientOrderId : o'.clientOrderId = o.clientOrderId
  instrumentKey : o'.instrumentKey = o.instrumentKey
  side : o'.side = o.side
  product : o'.product = o.product
  quantity : o'.quantity = o.quantity

/-- The same order, filled as it was. -/
structure SameFills (o o' : SimOrder) : Prop extends SameTerms o o' where
  filledQty : o'.filledQty = o.filledQty
  filledNotional : o'.filledNotional = o.filledNotional
  fillCount : o'.fillCount = o.fillCount

theorem afterFill_terms (o : SimOrder) (s : SimulatedBroker.Settlement) (fill : Fill) :
    o.SameTerms (o.afterFill s fill) := by
  obtain ⟨hboid, hcoid, hkey, hside, hproduct, hquantity, -⟩ := o.afterFill_same s fill
  exact ⟨hboid, hcoid, hkey, hside, hproduct, hquantity⟩

theorem afterFill_notional (o : SimOrder) (s : SimulatedBroker.Settlement) (fill : Fill) :
    (o.afterFill s fill).filledNotional = o.filledNotional + fill.notional := by
  unfold afterFill
  dsimp only
  split <;> rfl

end SimOrder

namespace SimulatedBroker

inductive Change (env : SimEnv) (good : SimCore → Fill → Bool) (b b' : SimulatedBroker) : Prop
  /-- At most what is due becomes cash. -/
  | noted (orders : b'.orders = b.orders) (fills : b'.fills = b.fills)
      (byTag : b'.byTag = b.byTag) (nextOrder : b'.core.nextOrder = b.core.nextOrder)
      (blocked : b'.core.blocked = b.core.blocked) (money : b'.core.money = b.core.money)
      (positions : b'.core.positions = b.core.positions)
  /-- An order goes on, without a fill. -/
  | moved {boid : String} {so c : SimOrder} (held : b.orders.get? boid = some so)
      (same : so.SameFills c) (reserved : c.reserved = so.reserved)
      (live : c.status.isLive = so.status.isLive) (orders : b'.orders = b.orders.set boid c)
      (fills : b'.fills = b.fills) (byTag : b'.byTag = b.byTag) (core : b'.core = b.core)
  /-- A live order ends without a fill. -/
  | ended {boid : String} {so c : SimOrder} (held : b.orders.get? boid = some so)
      (live : so.status.isLive = true) (same : so.SameFills c) (reserved : c.reserved = 0)
      (closed : c.status.isLive = false) (orders : b'.orders = b.orders.set boid c)
      (fills : b'.fills = b.fills) (byTag : b'.byTag = b.byTag)
      (core : b'.core = { b.core with blocked := b.core.blocked - so.reserved })
  | filled {boid : String} {so : SimOrder} {s : Settlement} {fill : Fill}
      (held : b.orders.get? boid = some so) (live : so.status.isLive = true)
      (ofOrder : fill.brokerOrderId = some so.brokerOrderId)
      (instrumentKey : fill.instrumentKey = so.instrumentKey) (side : fill.side = so.side)
      (within : fill.quantity ≤ so.remaining) (settles : env.settlement so fill b = .ok (some s))
      (wanted : good b.core fill = true)
      (orders : b'.orders = b.orders.set boid (so.afterFill s fill))
      (fills : b'.fills = b.fills ++ [fill]) (byTag : b'.byTag = b.byTag)
      (nextOrder : b'.core.nextOrder = b.core.nextOrder)
      (blocked : b'.core.blocked = b.core.blocked - so.reserved + (so.afterFill s fill).reserved)
      (money : b'.core.money = b.core.money - fill.signedQty * fill.price - fill.charges)
      (positions : b'.core.positions = (applyPosition so.product fill b.core).positions)
  | accepted {order : Order} {checked : Instrument × Quote} {sim : SimOrder} (now : Instant)
      (free : b.find order.clientOrderId = none)
      (valid : env.validate order now b = .ok checked)
      (new : sim = env.newSimOrder order sim.reserved now b) (reserved : 0 ≤ sim.reserved)
      (orders : b'.orders = b.orders.set sim.brokerOrderId sim) (fills : b'.fills = b.fills)
      (byTag : b'.byTag = b.byTag.set sim.clientOrderId sim.brokerOrderId)
      (core : b'.core = { b.core with
        nextOrder := b.core.nextOrder + 1, blocked := b.core.blocked + sim.reserved })

/-- What is paid comes from the reserve, and the rest stays in it. -/
theorem release_le {env : SimEnv} {so : SimOrder} {fill : Fill} {b : SimulatedBroker}
    {s : Settlement} (hreserved : 0 ≤ so.reserved)
    (h : env.settlement so fill b = .ok (some s)) :
    s.release ≤ so.reserved ∧ (settleFill s b.core).blocked = b.core.blocked - s.release := by
  unfold SimEnv.settlement at h
  cases hs : so.side with
  | buy =>
    rw [hs] at h
    dsimp only at h
    split at h
    · cases h
    · cases h
      exact ⟨min_le_left _ _, rfl⟩
  | sell =>
    rw [hs] at h
    dsimp only at h
    cases hp : env.sellProceeds with
    | sameDay =>
      rw [hp] at h
      cases h
      exact ⟨hreserved, (sub_zero _).symm⟩
    | tPlus1 =>
      rw [hp] at h
      cases hday : env.calendar.nextTradingDay fill.ts.istDate with
      | error e =>
        rw [hday] at h
        cases h
      | ok day =>
        rw [hday] at h
        cases h
        exact ⟨hreserved, (sub_zero _).symm⟩

theorem settleFill_same (s : Settlement) (core : SimCore) :
    (settleFill s core).positions = core.positions ∧
      (settleFill s core).nextOrder = core.nextOrder := by
  cases s <;> exact ⟨rfl, rfl⟩

end SimulatedBroker

namespace BrokerStep

open SimulatedBroker

variable {S : Type} {env : SimEnv} {hooks : Hooks S} {good : SimCore → Fill → Bool}
  {Asked : World SimulatedBroker S → Order → Prop} {w w' : World SimulatedBroker S}

/-- What each step does. -/
theorem change (h : BrokerStep env hooks good Asked w w')
    (hreserved : ∀ boid so, w.broker.orders.get? boid = some so → 0 ≤ so.reserved) :
    Change env good w.broker w'.broker := by
  cases h with
  | settled today =>
    obtain ⟨cash, unsettled, heq, hmoney, -⟩ := w.broker.settle_spec today
    show Change env good w.broker (w.broker.settle today)
    rw [heq]
    exact .noted rfl rfl rfl rfl rfl hmoney rfl
  | observed quote today => exact .noted rfl rfl rfl rfl rfl rfl rfl
  | counted boid =>
    show Change env good w.broker (w.broker.countQuote boid)
    cases hso : w.broker.orders.get? boid with
    | none =>
      rw [countQuote_of_none hso]
      exact .noted rfl rfl rfl rfl rfl rfl rfl
    | some so =>
      rw [countQuote_of_get hso]
      exact .moved hso (c := { so with eligibleQuotes := so.eligibleQuotes + 1 })
        ⟨⟨rfl, rfl, rfl, rfl, rfl, rfl⟩, rfl, rfl, rfl⟩ rfl rfl rfl rfl rfl rfl
  | @triggered boid so ts held pending =>
    -- a trigger changes the status and the time of the order alone
    have horders := trigger_of_get ts held
    refine .moved held (c := { so with status := .open, updatedAt := ts })
      ⟨⟨rfl, rfl, rfl, rfl, rfl, rfl⟩, rfl, rfl, rfl⟩ rfl ?_ ?_ ?_ ?_ ?_
    · rw [pending]
      rfl
    · rw [World.notify_orders]
      show (w.broker.trigger boid ts).orders = _
      rw [horders]
    · rw [World.notify_fills]
      show (w.broker.trigger boid ts).fills = _
      rw [horders]
    · rw [World.notify_byTag]
      show (w.broker.trigger boid ts).byTag = _
      rw [horders]
    · rw [World.notify_core]
      show (w.broker.trigger boid ts).core = _
      rw [horders]
  | @finished boid so status message ts held live ends =>
    -- an order that ends gives back what it reserved
    have hfinish := finish_of_get status message ts held
    unfold World.finish
    refine .ended held live (c := { so with
        status := status, message := message, updatedAt := ts, reserved := 0 })
      ⟨⟨rfl, rfl, rfl, rfl, rfl, rfl⟩, rfl, rfl, rfl⟩ rfl ?_ ?_ ?_ ?_ ?_
    · rcases ends with rfl | rfl | ⟨rfl, -⟩ <;> rfl
    · rw [World.notify_orders]
      show (w.broker.finish boid status message ts).orders = _
      rw [hfinish]
    · rw [World.notify_fills]
      show (w.broker.finish boid status message ts).fills = _
      rw [hfinish]
    · rw [World.notify_byTag]
      show (w.broker.finish boid status message ts).byTag = _
      rw [hfinish]
    · rw [World.notify_core]
      show (w.broker.finish boid status message ts).core = _
      rw [hfinish]
  | @filled boid so instrument reference qty charges quote s dpDay held live within settles wanted =>
    generalize hfill : env.newFill so instrument reference qty charges quote = fill at settles wanted
    have hside : fill.side = so.side := by rw [← hfill]; rfl
    -- no more is released than the order reserved
    obtain ⟨blocked, hbooked, hblocked⟩ := bookFill_eq boid so s dpDay fill w.broker
    obtain ⟨hrelease, hsettled⟩ := release_le (hreserved boid so held) settles
    obtain ⟨hpositions, hnext⟩ := settleFill_same s w.broker.core
    show Change env good w.broker (w.broker.bookFill boid so s dpDay fill)
    rw [hbooked]
    refine .filled held live (by rw [← hfill]; rfl) (by rw [← hfill]; rfl) hside
      (by rw [← hfill]; exact within) settles wanted rfl rfl rfl hnext ?_
      (money_settleFill so fill w.broker hside settles) ?_
    · show blocked = _
      rw [hblocked, hsettled, so.afterFill_reserved s fill]
      split <;> ring
    · show (applyPosition so.product fill (settleFill s w.broker.core)).positions = _
      unfold applyPosition
      dsimp only
      rw [hpositions]
  | @renotified boid so held filled =>
    exact .noted (World.notify_orders ..) (World.notify_fills ..) (World.notify_byTag ..)
      (by rw [World.notify_core]) (by rw [World.notify_core]) (by rw [World.notify_core])
      (by rw [World.notify_core])
  | @accepted order checked reserved now asked free valid reserves =>
    -- only a buy reserves cash
    have hnonneg : 0 ≤ reserved := by
      rcases reservation_cases checked.2.ltp_pos reserves with ⟨-, rfl⟩ | ⟨-, h, -⟩
      · exact le_rfl
      · exact h
    exact .accepted now free valid rfl hnonneg (World.notify_orders ..) (World.notify_fills ..)
      (World.notify_byTag ..) (World.notify_core ..)
  | saved => exact .noted rfl rfl rfl rfl rfl rfl rfl

end BrokerStep

end RakshaQuant
