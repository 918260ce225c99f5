import RakshaQuant.Decision.Policy
import RakshaQuant.Oms.Crash

/-! The duplicate check. An order stands in the table under the tag of its intent's id, over any
submissions, callbacks and restarts; so what `_submit` calls a duplicate has the id of an order it
holds, as long as no two ids in use have one tag, and an id says the intent it was made for. -/

namespace RakshaQuant

/-- The arguments of `intent_id`. -/
structure IntentArgs where
  bookId : String
  strategy : String
  instrumentKey : String
  signalBarDate : Day
  leg : String
deriving DecidableEq

def IntentArgs.id (a : IntentArgs) : Except Exc String :=
  intentId a.bookId a.strategy a.instrumentKey a.signalBarDate a.leg

theorem IntentArgs.id_injective {a b : IntentArgs} {id : String} (ha : a.id = .ok id)
    (hb : b.id = .ok id) : a = b := by
  obtain ⟨hbook, hstrategy, hkey, hday, hleg⟩ := intentId_injective ha hb
  cases a
  cases b
  simp_all

/-- An order is of an intent in use and has the tag of its id. -/
structure Order.Tagged (config : OmsConfig) (ids : Set String) (order : Order) : Prop where
  used : order.intent.intentId ∈ ids
  tag : order.clientOrderId = config.clientOrderId order.intent.intentId

namespace OMS

/-- An OMS, and what the processes before it wrote to the store. -/
structure Stored where
  written : List EventPayload
  oms : OMS

def Stored.log (s : Stored) : List EventPayload := s.written ++ events s.oms.sink

/-- One step: a submission of an intent in use that passed the gate, whatever happened meanwhile;
a step of the OMS that registers nothing; or a restart, which reads events of the store, among them
those of other books. -/
inductive Submitting (config : OmsConfig) (ids : Set String) : Stored → Stored → Prop
  | submitted {s : Stored} {intent : OrderIntent} (used : intent.intentId ∈ ids)
      (qty : { q : ℤ // 0 < q }) (now : Instant) :
      Submitting config ids s ⟨s.written, s.oms.register (newOrder config intent qty now)⟩
  | worked {s : Stored} {o' : OMS} {cause : Cause} (step : Lifecycle config cause s.oms o')
      (quiet : ∀ order, cause ≠ .registered order) : Submitting config ids s ⟨s.written, o'⟩
  | restarted {s : Stored} {ps : List EventPayload} {book : PositionBook} {n : ℕ} {o' : OMS}
      (own : book.bookId = s.oms.bookId)
      (read : ∀ order, .orderSubmitted order ∈ ps → order.intent.bookId = book.bookId →
        .orderSubmitted order ∈ s.log)
      (restored : restoreEvents ps 0 (init book) = .ok n o') :
      Submitting config ids s ⟨s.log, o'⟩

/-- Every order of the table, and every one of this book the store tells of, has its tag. -/
structure AllTagged (config : OmsConfig) (ids : Set String) (s : Stored) : Prop where
  keyed : s.oms.Keyed
  orders : ∀ coid order, s.oms.orders.get? coid = some order → order.Tagged config ids
  told : ∀ order, .orderSubmitted order ∈ s.log → order.Tagged config ids

variable {config : OmsConfig} {ids : Set String} {o o' : OMS}

/-- Orders keep their tags where none is registered. -/
theorem Touched.tagged (h : Touched o o') (hk : o.Keyed)
    (ho : ∀ coid order, o.orders.get? coid = some order → order.Tagged config ids) :
    ∀ coid order, o'.orders.get? coid = some order → order.Tagged config ids := by
  intro coid order hget
  have hk' := h.keyed hk
  have hintents := h.intents coid
  rw [hget, Option.map_some] at hintents
  obtain ⟨before, hbefore, hintent⟩ := Option.map_eq_some_iff.mp hintents.symm
  obtain ⟨hused, htag⟩ := ho coid before hbefore
  rw [hintent] at hused htag
  exact ⟨hused, by rw [hk' coid order hget, ← htag, hk coid before hbefore]⟩

/-- What a step that registers nothing writes tells of no submission. -/
theorem Booking.silent {cause : Cause} (h : Booking o cause o')
    (quiet : ∀ order, cause ≠ .registered order) {order : Order}
    (hm : .orderSubmitted order ∈ events o'.sink) : .orderSubmitted order ∈ events o.sink := by
  have hunbooked : ∀ es : List EventPayload, (∀ p ∈ es, p.Unbooked) → .orderSubmitted order ∉ es :=
    fun es hes hmem => hes _ hmem
  cases h with
  | registered => exact absurd rfl (quiet _)
  | told es hquiet _ _ logged =>
    rw [logged, List.mem_append] at hm
    exact hm.resolve_right (hunbooked es hquiet)
  | filled es _ _ _ _ hquiet _ _ logged =>
    rw [logged, List.append_assoc, List.mem_append, List.mem_append] at hm
    refine hm.resolve_right fun hnew => ?_
    rcases hnew with hes | hfill
    · exact hunbooked es hquiet hes
    · simp [derived] at hfill

/-- Restoring tells nothing, and stays with its book. -/
structure Silent (r r' : OMS) : Prop where
  sink : r'.sink = r.sink
  bookId : r'.bookId = r.bookId

/-- Applying a fill to the book touches no order. -/
theorem applyToBook_orders {r r' : OMS} {fill : Fill} {product : Product}
    {strategy exitReason : String} {outcome : FillOutcome}
    (h : applyToBook fill product strategy exitReason r = .ok outcome r') :
    r'.orders = r.orders ∧ Silent r r' := by
  simp only [applyToBook, Effect.run_bind, Effect.run_get] at h
  cases happly : r.book.apply fill product strategy exitReason with
  | error e =>
    rw [happly] at h
    cases h
  | ok applied =>
    rw [happly] at h
    cases h
    refine ⟨rfl, rfl, ?_⟩
    unfold PositionBook.apply at happly
    split at happly
    · cases happly
    · dsimp only at happly
      split at happly <;> cases happly <;> rfl

/-- Restoring a fill changes no order's id or intent. -/
theorem restoreFill_touched {r r' : OMS} {fill : Fill} {status : OrderStatus} {filledQty : ℤ}
    {avgPrice : ℚ} (hk : r.Keyed)
    (h : restoreFill fill status filledQty avgPrice r = .ok ⟨⟩ r') :
    Touched r r' ∧ Silent r r' := by
  simp only [restoreFill, Effect.run_bind, Effect.run_get] at h
  cases hget : r.orders.get? fill.clientOrderId with
  | none =>
    rw [hget] at h
    simp only [Effect.run_bind] at h
    cases happly : applyToBook fill .cnc "unknown" "" r with
    | error e r₁ =>
      rw [happly] at h
      cases h
    | ok outcome r₁ =>
      rw [happly] at h
      cases h
      obtain ⟨horders, hsilent⟩ := applyToBook_orders happly
      exact ⟨.same horders, hsilent⟩
  | some order =>
    rw [hget] at h
    simp only [Effect.run_bind] at h
    cases happly : applyToBook fill order.intent.product order.intent.strategy
        order.intent.reason.value r with
    | error e r₁ =>
      rw [happly] at h
      cases h
    | ok outcome r₁ =>
      rw [happly] at h
      cases h
      obtain ⟨horders, hsilent⟩ := applyToBook_orders happly
      have hid : order.clientOrderId = fill.clientOrderId := hk _ _ hget
      refine ⟨?_, hsilent.sink, hsilent.bookId⟩
      refine touched_setOrder (fun latest =>
        { latest with
          filledQty := filledQty, avgFillPrice := some avgPrice, status := status
          brokerOrderId := brokerIdAfter order fill }) (by rw [hid, hget]) rfl rfl ?_
      rw [setOrder_orders, setOrder_orders, horders, latest_of_get (by rw [horders, hid, hget]),
        latest_of_get (by rw [hid, hget])]

theorem restoreStatus_silent {r r' : OMS} {ref : OrderRef} {change : Order → OMS → OMS} {c : Bool}
    (hchange : ∀ order, Silent r (change order r)) (h : restoreStatus ref change r = .ok c r') :
    Silent r r' := by
  simp only [restoreStatus, Effect.run_bind, Effect.run_get] at h
  cases hget : r.orders.get? ref.clientOrderId with
  | none =>
    rw [hget] at h
    cases h
    exact ⟨rfl, rfl⟩
  | some order =>
    simp only [hget] at h
    split at h
    · cases h
      exact ⟨rfl, rfl⟩
    · cases h
      exact hchange order

/-- Restoring an event touches orders, unless it tells of a submission in this book. -/
theorem restoreEvent_cases {r r' : OMS} {p : EventPayload} {counted : Bool} (hk : r.Keyed)
    (h : restoreEvent p r = .ok counted r') : Silent r r' ∧ (Touched r r' ∨
      ∃ order, p = .orderSubmitted order ∧ order.intent.bookId = r.bookId ∧
        r'.orders = r.orders.set order.clientOrderId order) := by
  have hquiet : p.Unbooked → Touched r r' := by
    intro hp
    obtain ⟨c, r₁, hrun, -, ht⟩ := restoreEvent_unbooked hk hp
    rw [h] at hrun
    cases hrun
    exact ht
  cases p with
  | orderSubmitted order =>
    simp only [restoreEvent, Effect.run_bind, Effect.run_get] at h
    split at h
    · cases h
      exact ⟨⟨rfl, rfl⟩, .inl (.same rfl)⟩
    · rename_i hbook
      cases h
      exact ⟨⟨rfl, rfl⟩, .inr ⟨order, rfl, not_not.mp hbook, rfl⟩⟩
  | fillReceived fill status filledQty avgPrice =>
    simp only [restoreEvent, Effect.run_bind, Effect.run_get] at h
    split at h
    · cases h
      exact ⟨⟨rfl, rfl⟩, .inl (.same rfl)⟩
    · cases hfill : restoreFill fill status filledQty avgPrice r with
      | error e r₁ =>
        simp only [Effect.run_bind, hfill] at h
        cases h
      | ok u r₁ =>
        simp only [Effect.run_bind, hfill] at h
        cases h
        obtain ⟨htouched, hsilent⟩ := restoreFill_touched hk hfill
        exact ⟨hsilent, .inl htouched⟩
  | orderAcked ref boid status =>
    -- an acknowledgement of an order that has moved on only fills in the broker's id
    refine ⟨restoreStatus_silent (fun order => ?_) h, .inl (hquiet trivial)⟩
    unfold restoreAcked
    dsimp only
    split
    · exact ⟨rfl, rfl⟩
    · split <;> exact ⟨rfl, rfl⟩
  | orderUnknown | orderRejected | orderCancelled | orderExpired =>
    exact ⟨restoreStatus_silent (fun order => ⟨rfl, rfl⟩) h, .inl (hquiet trivial)⟩
  | _ =>
    cases h
    exact ⟨⟨rfl, rfl⟩, .inl (.same rfl)⟩

/-- Restoring events keeps the tags, if the submissions they tell of in this book have theirs. -/
theorem restoreEvents_tagged (config : OmsConfig) (ids : Set String) {ps : List EventPayload}
    {r r' : OMS} {m n : ℕ} (hk : r.Keyed)
    (ho : ∀ coid order, r.orders.get? coid = some order → order.Tagged config ids)
    (hp : ∀ order, .orderSubmitted order ∈ ps → order.intent.bookId = r.bookId →
      order.Tagged config ids)
    (h : restoreEvents ps m r = .ok n r') :
    Silent r r' ∧ r'.Keyed ∧
      ∀ coid order, r'.orders.get? coid = some order → order.Tagged config ids := by
  induction ps generalizing m r with
  | nil =>
    cases h
    exact ⟨⟨rfl, rfl⟩, hk, ho⟩
  | cons p rest ih =>
    rw [restoreEvents, Effect.run_bind] at h
    cases hfirst : restoreEvent p r with
    | error e r₁ =>
      rw [hfirst] at h
      cases h
    | ok counted r₁ =>
      rw [hfirst] at h
      obtain ⟨hsilent, hcases⟩ := restoreEvent_cases hk hfirst
      have hstep : r₁.Keyed ∧
          ∀ coid order, r₁.orders.get? coid = some order → order.Tagged config ids := by
        rcases hcases with htouched | ⟨order, rfl, hbook, horders⟩
        · exact ⟨htouched.keyed hk, htouched.tagged hk ho⟩
        · refine ⟨keyed_set hk horders rfl, fun coid known hget => ?_⟩
          rw [horders, Dict.get?_set_iff] at hget
          rcases hget with ⟨-, rfl⟩ | ⟨-, hold⟩
          · exact hp _ List.mem_cons_self hbook
          · exact ho coid known hold
      obtain ⟨hrest, hkeyed, horders⟩ := ih hstep.1 hstep.2
        (fun order hm hbook => hp order (List.mem_cons_of_mem _ hm) (hbook.trans hsilent.bookId)) h
      exact ⟨⟨hrest.sink.trans hsilent.sink, hrest.bookId.trans hsilent.bookId⟩, hkeyed, horders⟩

namespace AllTagged

/-- An OMS that has just started, before anything is in the store. -/
theorem start (book : PositionBook) : AllTagged config ids ⟨[], init book⟩ where
  keyed := keyed_init book
  orders coid order h := by cases h
  told order h := by cases h

/-- **The step lemma.** -/
theorem step {s s' : Stored} (h : AllTagged config ids s) (hs : Submitting config ids s s') :
    AllTagged config ids s' := by
  cases hs with
  | @submitted intent used qty now =>
    have hnew : (newOrder config intent qty now).Tagged config ids := ⟨used, rfl⟩
    refine ⟨keyed_set h.keyed (register_orders _ _) rfl, fun coid order hget => ?_,
      fun order hm => ?_⟩
    · rw [register_orders, Dict.get?_set_iff] at hget
      rcases hget with ⟨-, rfl⟩ | ⟨-, hold⟩
      · exact hnew
      · exact h.orders coid order hold
    · rw [Stored.log, register_sink, events_append, ← List.append_assoc, List.mem_append] at hm
      rcases hm with hold | hlast
      · exact h.told order hold
      · obtain rfl : order = newOrder config intent qty now := by simpa using hlast
        exact hnew
  | @worked o' cause step quiet =>
    have hbooking := step.booking h.keyed
    have htouched : Touched s.oms o' := by
      cases hbooking with
      | registered => exact absurd rfl (quiet _)
      | told _ _ touched => exact touched
      | filled _ _ _ _ _ _ touched => exact touched
    refine ⟨htouched.keyed h.keyed, htouched.tagged h.keyed h.orders, fun order hm => ?_⟩
    rcases List.mem_append.mp hm with hold | hnew
    · exact h.told order (List.mem_append_left _ hold)
    · exact h.told order (List.mem_append_right _ (hbooking.silent quiet hnew))
  | @restarted ps book n o' own read restored =>
    obtain ⟨hsilent, hkeyed, horders⟩ := restoreEvents_tagged config ids
      (keyed_init book) (fun coid order hget => by cases hget)
      (fun order hm hbook => h.told order (read order hm hbook)) restored
    refine ⟨hkeyed, horders, fun order hm => ?_⟩
    rw [Stored.log, hsilent.sink] at hm
    rcases List.mem_append.mp hm with hold | hnew
    · exact h.told order hold
    · cases hnew

theorem run {s s' : Stored} (h : AllTagged config ids s)
    (hs : Relation.ReflTransGen (Submitting config ids) s s') : AllTagged config ids s' :=
  Effect.invariant (fun _ _ hstep h => h.step hstep) hs h

end AllTagged

/-- **Intent ids are unambiguous.** Equal ids are of equal arguments; so where no two ids in use
have one tag, orders of different intents have different tags, and over any submissions, callbacks
and restarts what `_submit` calls a duplicate is of the intent whose order it gives back. -/
theorem intent_ids_unambiguous :
    (∀ (a b : IntentArgs) (id : String), a.id = .ok id → b.id = .ok id → a = b) ∧
    ∀ (config : OmsConfig) (ids : Set String), Set.InjOn config.clientOrderId ids →
      (∀ (a b : IntentArgs) (id id' : String), a.id = .ok id → b.id = .ok id' → id ∈ ids →
        id' ∈ ids → config.clientOrderId id = config.clientOrderId id' → a = b) ∧
      ∀ (book : PositionBook) (s : Stored),
        Relation.ReflTransGen (Submitting config ids) ⟨[], init book⟩ s →
        ∀ (hasGate : Bool) (intent : OrderIntent) (quantity : Option ℤ) (result : SubmitResult),
          intent.intentId ∈ ids → s.oms.precheck config hasGate intent quantity = .error result →
          result.status = .duplicate →
          ∃ existing, result.order = some existing ∧
            existing.intent.intentId = intent.intentId ∧
            ∀ a b : IntentArgs, a.id = .ok intent.intentId → b.id = .ok existing.intent.intentId →
              a = b := by
  refine ⟨fun a b id => IntentArgs.id_injective, fun config ids hash => ⟨?_, ?_⟩⟩
  · intro a b id id' ha hb hm hm' htag
    obtain rfl := hash hm hm' htag
    exact IntentArgs.id_injective ha hb
  · intro book s run hasGate intent quantity result used hcheck hdup
    have htags := (AllTagged.start book).run run
    unfold precheck at hcheck
    split at hcheck
    · cases hcheck
      cases hdup
    split at hcheck
    · cases hcheck
      cases hdup
    cases hget : s.oms.orders.get? (config.clientOrderId intent.intentId) with
    | none =>
      rw [hget] at hcheck
      dsimp only at hcheck
      split at hcheck
      · split at hcheck
        · cases hcheck
          cases hdup
        · cases hcheck
      · cases hcheck
    | some existing =>
      rw [hget] at hcheck
      cases hcheck
      obtain ⟨hused, htag⟩ := htags.orders _ _ hget
      -- the order held is of an id in use, and no two of these have one tag
      have hsame : existing.intent.intentId = intent.intentId := by
        apply hash hused used
        rw [← htag, htags.keyed _ _ hget]
      refine ⟨existing, rfl, hsame, fun a b ha hb => ?_⟩
      rw [hsame] at hb
      exact IntentArgs.id_injective ha hb

end OMS

/-! ## An intent submitted twice -/

namespace Resubmission

def args : IntentArgs := ⟨"A", "momentum", "NSE:EQ:INFY", 20728, "entry"⟩

def id : String := "A:momentum:NSE:EQ:INFY:2026-10-02:entry"

/-- The same signal in another book. -/
def other : String := "B:momentum:NSE:EQ:INFY:2026-10-02:entry"

/-- The tags of the two ids. -/
def config : OmsConfig :=
  ⟨fun text => if text = id then "02cacca7a1468c75" else "f6752815c78f83a9", 30000000⟩

def intent : OrderIntent := { Sample.entry with intentId := id, bookId := "A" }

def book : PositionBook := .init "A" 100000

/-- The intent is registered. -/
def once : OMS.Stored :=
  ⟨[], (OMS.init book).register (OMS.newOrder config intent ⟨10, Sample.ten_pos⟩ 0)⟩

def result : SubmitResult :=
  ⟨.duplicate, some (OMS.newOrder config intent ⟨10, Sample.ten_pos⟩ 0), "intent already submitted"⟩

theorem args_id : args.id = .ok id := by
  have h : args.id.toOption = some id := by decide +kernel
  cases hid : args.id with
  | error e =>
    rw [hid] at h
    cases h
  | ok text =>
    rw [hid] at h
    cases h
    rfl

theorem hash : Set.InjOn config.clientOrderId {id, other} := by
  have hid : config.clientOrderId id = "02cacca7a1468c75" := by decide
  have hother : config.clientOrderId other = "f6752815c78f83a9" := by decide
  have hne : config.clientOrderId id ≠ config.clientOrderId other := by
    rw [hid, hother]
    decide
  rintro a (rfl | rfl) b (rfl | rfl) htag
  · rfl
  · exact absurd htag hne
  · exact absurd htag.symm hne
  · rfl

theorem twice : once.oms.precheck config true intent none = .error result := by
  rfl

/-- The second submission is a duplicate, of an order with its id, and of its arguments. -/
theorem intent_ids_unambiguous_twice :
    (∀ b : IntentArgs, b.id = .ok id → args = b) ∧
    (∀ b : IntentArgs, b.id = .ok id → config.clientOrderId id = config.clientOrderId id →
      args = b) ∧
    ∃ existing, result.order = some existing ∧ existing.intent.intentId = intent.intentId ∧
      ∀ a b : IntentArgs, a.id = .ok intent.intentId → b.id = .ok existing.intent.intentId →
        a = b := by
  obtain ⟨hids, hrest⟩ := OMS.intent_ids_unambiguous
  obtain ⟨htags, hruns⟩ := hrest config {id, other} hash
  have hused : id ∈ ({id, other} : Set String) := .inl rfl
  have hstep : OMS.Submitting config {id, other} ⟨[], OMS.init book⟩ once := by
    have hentry : intent.intentId ∈ ({id, other} : Set String) := hused
    exact .submitted hentry ⟨10, Sample.ten_pos⟩ 0
  refine ⟨fun b hb => hids args b id args_id hb, fun b hb htag =>
    htags args b id id args_id hb hused hused htag, ?_⟩
  exact hruns book once (.single hstep) true intent none result hused twice rfl

end Resubmission

end RakshaQuant
