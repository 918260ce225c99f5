import RakshaQuant.Oms.Headroom
import RakshaQuant.Oms.Lifecycle

/-! Concurrent submissions. `_submit` awaits the gate and then the broker; in
between other submissions and the broker's callbacks run. What `_submit` read
before the gate, that the intent is new and how much is reducible, is not read
again after it, so both may have been overtaken when the order is registered.

The runs here are over any number of submissions and any callbacks. The
submissions are safe as long as what was read still holds when the gate answers,
no order that ended is revived without room, and fills are of known orders. -/

namespace RakshaQuant

/-- The order an event submits, if it is one. -/
def EventPayload.submission : EventPayload → Option Order
  | .orderSubmitted order => some order
  | _ => none

/-- The orders a journal says were submitted. -/
def submissions (journal : List Write) : List Order :=
  (events journal).filterMap EventPayload.submission

@[simp] theorem submissions_append (l r : List Write) :
    submissions (l ++ r) = submissions l ++ submissions r := by
  rw [submissions, events_append, List.filterMap_append]
  rfl

/-- A journal of one kind of event that submits nothing. -/
theorem submissions_map {α : Type} (l : List α) (f : α → EventPayload)
    (h : ∀ a, (f a).submission = none) : submissions (l.map fun a => .event (f a)) = [] := by
  induction l with
  | nil => rfl
  | cons a rest ih =>
    have hcons : submissions (.event (f a) :: rest.map fun a => .event (f a)) =
        submissions [.event (f a)] ++ submissions (rest.map fun a => .event (f a)) :=
      submissions_append [_] _
    rw [List.map_cons, hcons, ih]
    simp [submissions, h]

/-- Among elements with distinct names at most one satisfies what fixes the name. -/
theorem length_filter_le_one {α β : Type} {l : List α} {name : α → β} (h : (l.map name).Nodup)
    {p : α → Prop} [DecidablePred p] (b : β) (hp : ∀ a ∈ l, p a → name a = b) :
    (l.filter fun a => p a).length ≤ 1 := by
  have hsub : ((l.filter fun a => p a).map name).Nodup := h.sublist (List.filter_sublist.map _)
  have hall : ∀ c ∈ (l.filter fun a => p a).map name, c = b := by
    intro c hc
    obtain ⟨a, ha, rfl⟩ := List.mem_map.mp hc
    obtain ⟨hm, hpa⟩ := List.mem_filter.mp ha
    exact hp a hm (by simpa using hpa)
  rw [List.eq_replicate_of_mem hall, List.nodup_replicate, List.length_map] at hsub
  exact hsub

namespace OMS

/-- A submission between its steps: waiting for the gate with the quantity asked
for, or waiting for the broker with the order it registered. -/
inductive Task
  | gating (intent : OrderIntent) (qty : Option ℤ)
  | placing (order : Order)
deriving DecidableEq

/-- The OMS and the submissions under way. -/
structure Sys where
  oms : OMS
  tasks : List Task

/-- What happens next. -/
inductive Act
  | called (intent : OrderIntent) (quantity : Option ℤ)
  | gated (intent : OrderIntent) (qty : Option ℤ) (decision : GateResult) (now : Instant)
  | acked (order : Order) (ack : BrokerAck)
  | raised (order : Order) (exc : Exc)
  | updated (snap : BrokerOrderSnapshot)
  | filled (fill : Fill)

/-- One step: a submission runs from one await to the next, or the broker calls
back. None when the submission the act is about does not wait there. -/
def step (config : OmsConfig) (hasGate : Bool) (s : Sys) : Act → Option Sys
  | .called intent quantity =>
    match s.oms.precheck config hasGate intent quantity with
    | .error _ => some s
    | .ok qty => some { s with tasks := s.tasks ++ [.gating intent qty] }
  | .gated intent qty decision now =>
    if .gating intent qty ∈ s.tasks then
      let tasks := s.tasks.erase (.gating intent qty)
      match sized qty decision with
      | .error _ => some { s with tasks := tasks }
      | .ok q =>
        let order := newOrder config intent q now
        some { oms := s.oms.register order, tasks := tasks ++ [.placing order] }
    else none
  | .acked order ack =>
    if .placing order ∈ s.tasks then
      some { oms := s.oms.placed order ack, tasks := s.tasks.erase (.placing order) }
    else none
  | .raised order exc =>
    if .placing order ∈ s.tasks then
      some { oms := s.oms.placeFailed order exc, tasks := s.tasks.erase (.placing order) }
    else none
  | .updated snap => some { s with oms := s.oms.onUpdate snap }
  | .filled fill => some { s with oms := (onFill fill s.oms).state }

/-- A run; none when one of the acts could not happen. -/
def run (config : OmsConfig) (hasGate : Bool) : Sys → List Act → Option Sys
  | s, [] => some s
  | s, act :: rest => (step config hasGate s act).bind fun s' => run config hasGate s' rest

def Sys.init (book : PositionBook) : Sys := ⟨OMS.init book, []⟩

/-- What the claimants of `submit` rely on: one order and one `OrderSubmitted`
per intent id, and no more reduce-only quantity live than there is position. -/
structure Safe (o : OMS) : Prop where
  oneOrder : ∀ intentId,
    (o.orders.values.filter fun order => order.intent.intentId = intentId).length ≤ 1
  oneSubmission : ∀ intentId,
    ((submissions o.sink).filter fun order => order.intent.intentId = intentId).length ≤ 1
  bounded : ∀ instrumentKey product,
    o.committed instrumentKey product ≤ |o.book.quantity instrumentKey product|

/-- When a step is safe. What `_submit` read before the gate still holds after
it: the intent has no order, and a reduce-only quantity is still reducible. An
order that ended meanwhile is taken as UNKNOWN only with room for it. A new fill
is of an order the table holds and fits there. -/
def Act.Guarded (config : OmsConfig) (s : Sys) : Act → Prop
  | .gated intent qty decision _ =>
    ∀ q, sized qty decision = .ok q →
      s.oms.orders.get? (config.clientOrderId intent.intentId) = none ∧
        (intent.reduceOnly = true → q.1 ≤ s.oms.reducible intent)
  | .raised order exc =>
    exc.notPlacedReason = none → (s.oms.latest order).status.isTerminal = true →
      s.oms.Room (s.oms.latest order)
  | .filled fill =>
    fill.fillId ∉ s.oms.book.seen →
      fill.bookId = s.oms.bookId ∧
        ∃ order, s.oms.orders.get? fill.clientOrderId = some order ∧
          Fits s.oms order fill
  | _ => True

instance Act.decidableGuarded (config : OmsConfig) (s : Sys) :
    (act : Act) → Decidable (act.Guarded config s)
  | .called _ _ | .acked _ _ | .updated _ => isTrue trivial
  | .gated intent qty decision _ =>
    match h : sized qty decision with
    | .error _ => isTrue fun q hq => by rw [h] at hq; cases hq
    | .ok q =>
      decidable_of_iff
        (s.oms.orders.get? (config.clientOrderId intent.intentId) = none ∧
          (intent.reduceOnly = true → q.1 ≤ s.oms.reducible intent))
        ⟨fun hg q' hq' => by rw [h] at hq'; cases hq'; exact hg, fun hg => hg q h⟩
  | .raised order exc =>
    inferInstanceAs (Decidable (exc.notPlacedReason = none → _))
  | .filled fill =>
    match h : s.oms.orders.get? fill.clientOrderId with
    | none =>
      decidable_of_iff (fill.fillId ∈ s.oms.book.seen)
        ⟨fun hseen hnew => absurd hseen hnew, fun hg => by
          by_contra hnew
          obtain ⟨-, order, horder, -⟩ := hg hnew
          rw [h] at horder
          cases horder⟩
    | some order =>
      decidable_of_iff
        (fill.fillId ∉ s.oms.book.seen → fill.bookId = s.oms.bookId ∧ Fits s.oms order fill)
        ⟨fun hg hnew => ⟨(hg hnew).1, order, h, (hg hnew).2⟩, fun hg hnew => by
          obtain ⟨hbook, order', horder', hfits⟩ := hg hnew
          rw [h, Option.some.injEq] at horder'
          exact ⟨hbook, horder' ▸ hfits⟩⟩

/-- Every step of a run is guarded where it happens. -/
def Guarded (config : OmsConfig) (hasGate : Bool) : Sys → List Act → Prop
  | _, [] => True
  | s, act :: rest =>
    act.Guarded config s ∧
      ∀ s', step config hasGate s act = some s' → Guarded config hasGate s' rest

instance decidableGuarded (config : OmsConfig) (hasGate : Bool) :
    (s : Sys) → (acts : List Act) → Decidable (Guarded config hasGate s acts)
  | _, [] => isTrue trivial
  | s, act :: rest =>
    match h : step config hasGate s act with
    | none =>
      decidable_of_iff (act.Guarded config s)
        ⟨fun hg => ⟨hg, fun s' hs' => by rw [h] at hs'; cases hs'⟩, fun hg => hg.1⟩
    | some s' =>
      have := decidableGuarded config hasGate s' rest
      decidable_of_iff (act.Guarded config s ∧ Guarded config hasGate s' rest)
        ⟨fun hg => ⟨hg.1, fun s'' hs'' => by rw [h] at hs''; cases hs''; exact hg.2⟩,
          fun hg => ⟨hg.1, hg.2 s' h⟩⟩

/-! ## Orders and their submissions -/

/-- The table and the log agree: an order stands under the tag of its intent,
and every submission in the log, each of another tag, is of an order it holds. -/
structure Ledger (config : OmsConfig) (o : OMS) : Prop where
  keyed : o.Keyed
  tagged : ∀ coid order, o.orders.get? coid = some order →
    config.clientOrderId order.intent.intentId = coid
  listed : ∀ order ∈ submissions o.sink,
    config.clientOrderId order.intent.intentId = order.clientOrderId ∧
      (o.orders.get? order.clientOrderId).isSome
  once : ((submissions o.sink).map Order.clientOrderId).Nodup

namespace Ledger

variable {config : OmsConfig} {o o' : OMS} {k : String} {known changed order : Order}

theorem same (h : Ledger config o) (horders : o'.orders = o.orders)
    (hsink : submissions o'.sink = submissions o.sink) : Ledger config o' where
  keyed := keyed_of_eq h.keyed horders
  tagged coid order ho := h.tagged coid order (horders ▸ ho)
  listed order ho := by
    rw [horders]
    exact h.listed order (hsink ▸ ho)
  once := by
    rw [hsink]
    exact h.once

/-- A step that rewrites one order, keeping its id and intent. -/
theorem rewritten (h : Ledger config o) (hk : o.orders.get? k = some known)
    (horders : o'.orders = o.orders.set k changed) (hid : changed.clientOrderId = k)
    (hi : changed.intent = known.intent) (hsink : submissions o'.sink = submissions o.sink) :
    Ledger config o' where
  keyed := keyed_set h.keyed horders hid
  tagged coid order ho := by
    rw [horders, Dict.get?_set] at ho
    split at ho
    · rename_i hc
      cases ho
      rw [hi, h.tagged k known hk, hc]
    · exact h.tagged coid order ho
  listed order ho := by
    obtain ⟨htag, hsome⟩ := h.listed order (hsink ▸ ho)
    refine ⟨htag, ?_⟩
    rw [horders, Dict.get?_set]
    split
    · rfl
    · exact hsome
  once := by
    rw [hsink]
    exact h.once

/-- A step that registers a new order and records it. -/
theorem registered (h : Ledger config o) (hk : o.orders.get? order.clientOrderId = none)
    (htag : config.clientOrderId order.intent.intentId = order.clientOrderId)
    (horders : o'.orders = o.orders.set order.clientOrderId order)
    (hsink : submissions o'.sink = submissions o.sink ++ [order]) : Ledger config o' where
  keyed := keyed_set h.keyed horders rfl
  tagged coid order' ho := by
    rw [horders, Dict.get?_set] at ho
    split at ho
    · rename_i hc
      cases ho
      rw [htag, hc]
    · exact h.tagged coid order' ho
  listed order' ho := by
    rw [horders, Dict.get?_set]
    rcases List.mem_append.mp (hsink ▸ ho) with hold | hnew
    · obtain ⟨htag', hsome⟩ := h.listed order' hold
      refine ⟨htag', ?_⟩
      split
      · rfl
      · exact hsome
    · obtain rfl := List.mem_singleton.mp hnew
      rw [if_pos rfl]
      exact ⟨htag, rfl⟩
  once := by
    rw [hsink, List.map_append, List.map_singleton, List.nodup_append]
    refine ⟨h.once, List.nodup_singleton _, ?_⟩
    rintro coid hold coid' hnew rfl
    obtain ⟨order', hmem, rfl⟩ := List.mem_map.mp hold
    -- a submission of this tag in the log would be of an order the table holds
    have hsome := (h.listed order' hmem).2
    rw [List.mem_singleton.mp hnew, hk] at hsome
    cases hsome

/-- With the table's ids and the log's distinct, an intent id names one order. -/
theorem safe (h : Ledger config o) (hroom : o.Headroom) : Safe o := by
  refine ⟨fun intentId => ?_, fun intentId => ?_, hroom.bounded⟩
  · have hnodup : (o.orders.values.map Order.clientOrderId).Nodup := by
      have hkeys : o.orders.values.map Order.clientOrderId = o.orders.keys := by
        rw [Dict.values, Dict.keys, List.map_map]
        refine List.map_congr_left fun e he => ?_
        exact h.keyed e.1 e.2 (o.orders.mem_entries_iff.mp he)
      rw [hkeys]
      exact o.orders.nodup_keys
    refine length_filter_le_one hnodup (config.clientOrderId intentId) fun order hm hi => ?_
    obtain ⟨coid, hget⟩ := o.orders.mem_values_iff.mp hm
    rw [h.keyed coid order hget, ← h.tagged coid order hget, hi]
  · refine length_filter_le_one h.once (config.clientOrderId intentId) fun order hm hi => ?_
    rw [← (h.listed order hm).1, hi]

end Ledger

/-! ## What the steps keep and submit -/

theorem Touched.ledger {config : OmsConfig} {o o' : OMS} (h : Touched o o')
    (hl : Ledger config o) (hsink : submissions o'.sink = submissions o.sink) :
    Ledger config o' := by
  cases h with
  | same horders => exact hl.same horders hsink
  | one hk horders hid hi => exact hl.rewritten hk horders hid hi hsink

section silent

variable {o : OMS} {order : Order}

theorem submissions_emit {payload : EventPayload} (h : payload.submission = none) :
    submissions (o.emit payload).sink = submissions o.sink := by
  rw [emit_sink, submissions_append]
  simp [submissions, h]

theorem placed_silent (ack : BrokerAck) :
    submissions (o.placed order ack).sink = submissions o.sink := by
  unfold placed
  dsimp only
  split
  · rw [submissions_emit rfl, advance_sink, setOrder_sink]
  · rfl

theorem placeFailed_silent (exc : Exc) (held : o.Holds order) :
    submissions (o.placeFailed order exc).sink = submissions o.sink := by
  obtain ⟨known, hknown⟩ := held
  obtain ⟨status, event, hstatus, -, -, hsink⟩ := placeFailed_spec exc hknown
  have hevent : event.submission = none := by
    rcases hstatus with ⟨-, -, e, rfl⟩ | ⟨-, -, r, m, rfl⟩ <;> rfl
  rw [hsink, ← emit_sink, submissions_emit hevent]

theorem updateEvent_submission (order : Order) (snap : BrokerOrderSnapshot) :
    (updateEvent order snap).submission = none := by
  unfold updateEvent
  split <;> rfl

theorem onUpdate_silent (snap : BrokerOrderSnapshot) (hk : o.Keyed) :
    submissions (o.onUpdate snap).sink = submissions o.sink := by
  cases hs : o.orders.get? snap.clientOrderId with
  | none =>
    obtain ⟨a, heq⟩ := onUpdate_unknown hs
    rw [heq, submissions_emit rfl]
  | some known =>
    rcases (onUpdate_known hk hs).2 with ⟨-, -, -, version, -, heq⟩ | ⟨-, heq, -⟩
    · rw [heq, ← emit_sink, submissions_emit (updateEvent_submission known snap)]
    · rw [heq]

theorem onFill_silent {fill : Fill} {known : Order} (hseen : fill.fillId ∉ o.book.seen)
    (hk : o.Keyed) (h : o.orders.get? fill.clientOrderId = some known)
    (hbook : fill.bookId = o.bookId) :
    submissions (onFill fill o).state.sink = submissions o.sink := by
  obtain ⟨version, as, hstate, -⟩ := onFill_known hseen hk h hbook
  have halerts : submissions (as.map (Write.event ∘ EventPayload.alert)) = [] :=
    submissions_map as EventPayload.alert fun _ => rfl
  have htrades : ∀ trades : List TradeClosed,
      submissions (trades.map (Write.event ∘ EventPayload.tradeClosed)) = [] :=
    fun trades => submissions_map trades EventPayload.tradeClosed fun _ => rfl
  rw [hstate]
  simp only [submissions_append, halerts, htrades, List.append_nil]
  exact List.append_nil _

end silent

/-! ## Runs -/

/-- What a guarded run keeps: table and log agree, reduce-only orders have
headroom, and a submission waits for the broker only with a registered order. -/
structure Sound (config : OmsConfig) (s : Sys) : Prop where
  ledger : Ledger config s.oms
  headroom : s.oms.Headroom
  held : ∀ order, .placing order ∈ s.tasks → s.oms.Holds order

theorem sound_init (config : OmsConfig) (book : PositionBook) : Sound config (.init book) where
  ledger :=
    { keyed := keyed_init book
      tagged := by
        intro coid order h
        cases h
      listed := by
        intro order h
        cases h
      once := List.nodup_nil }
  headroom :=
    { filled := by
        intro coid order h
        cases h
      faces := by
        intro coid order h
        cases h
      bounded := fun _ _ => abs_nonneg _ }
  held := by
    intro order h
    cases h

namespace Sound

variable {config : OmsConfig} {s : Sys}

/-- A submission whose gate answered registers its order. -/
theorem registered (h : Sound config s) {intent : OrderIntent} {q : { q : ℤ // 0 < q }}
    {now : Instant} {tasks : List Task}
    (hfresh : s.oms.orders.get? (config.clientOrderId intent.intentId) = none)
    (hreduce : intent.reduceOnly = true → q.1 ≤ s.oms.reducible intent)
    (hheld : ∀ order, .placing order ∈ tasks → s.oms.Holds order) :
    Sound config
      { oms := s.oms.register (newOrder config intent q now)
        tasks := tasks ++ [.placing (newOrder config intent q now)] } := by
  have hsubmitted : submissions (s.oms.register (newOrder config intent q now)).sink =
      submissions s.oms.sink ++ [newOrder config intent q now] := by
    rw [register_sink, submissions_append]
    rfl
  have hremaining : (newOrder config intent q now).remainingQty = q.1 := sub_zero _
  refine ⟨h.ledger.registered hfresh rfl (register_orders _ _) hsubmitted,
    h.headroom.registered hfresh (register_orders _ _) (register_book _ _) q.2.le ?_, ?_⟩
  · intro hro
    rw [hremaining]
    exact hreduce hro
  · intro order hm
    rw [Holds, register_orders]
    rcases List.mem_append.mp hm with hold | hnew
    · obtain ⟨known, hknown⟩ := hheld order hold
      by_cases hc : order.clientOrderId = (newOrder config intent q now).clientOrderId
      · exact ⟨_, by rw [hc, Dict.get?_set_self]⟩
      · exact ⟨known, by rw [Dict.get?_set_ne _ _ hc, hknown]⟩
    · cases List.mem_singleton.mp hnew
      exact ⟨_, Dict.get?_set_self _ _ _⟩

/-- `place_order` returned. -/
theorem acked (h : Sound config s) {order : Order} (ack : BrokerAck)
    (hmem : .placing order ∈ s.tasks) :
    Sound config
      { oms := s.oms.placed order ack, tasks := s.tasks.erase (.placing order) } := by
  have hk := h.ledger.keyed
  have htouched := touched_placed ack hk (h.held order hmem)
  refine ⟨htouched.ledger h.ledger (placed_silent ack), ?_,
    fun other hm => htouched.holds (h.held other (List.mem_of_mem_erase hm))⟩
  obtain ⟨known, hknown⟩ := h.held order hmem
  rcases placed_orders ack hk hknown with heq | ⟨hsub, version, heq⟩
  · exact h.headroom.same heq (placed_book order ack s.oms)
  · refine h.headroom.quiet hknown heq (placed_book order ack s.oms) rfl rfl rfl fun _ => ?_
    rw [hsub]
    rfl

/-- `place_order` raised: an order that ended meanwhile is live again only with room. -/
theorem raised (h : Sound config s) {order : Order} {exc : Exc}
    (hmem : .placing order ∈ s.tasks)
    (hguard : exc.notPlacedReason = none → (s.oms.latest order).status.isTerminal = true →
      s.oms.Room (s.oms.latest order)) :
    Sound config
      { oms := s.oms.placeFailed order exc, tasks := s.tasks.erase (.placing order) } := by
  have htouched := touched_placeFailed exc h.ledger.keyed (h.held order hmem)
  refine ⟨htouched.ledger h.ledger (placeFailed_silent exc (h.held order hmem)), ?_,
    fun other hm => htouched.holds (h.held other (List.mem_of_mem_erase hm))⟩
  obtain ⟨known, hknown⟩ := h.held order hmem
  obtain ⟨status, event, hstatus, horders, hbook, -⟩ := placeFailed_spec exc hknown
  rcases hstatus with ⟨rfl, hreason, -⟩ | ⟨rfl, -, -⟩
  · refine h.headroom.revived hknown horders hbook rfl rfl rfl fun hterm => ?_
    have hg := hguard hreason
    rw [latest_of_get hknown] at hg
    exact hg hterm
  · refine h.headroom.quiet hknown horders hbook rfl rfl rfl fun hlive => ?_
    cases hlive

/-- A broker update moves a known order forward, or changes nothing that counts. -/
theorem updated (h : Sound config s) (snap : BrokerOrderSnapshot) :
    Sound config { s with oms := s.oms.onUpdate snap } := by
  have hk := h.ledger.keyed
  have htouched := touched_onUpdate snap hk
  refine ⟨htouched.ledger h.ledger (onUpdate_silent snap hk), ?_,
    fun other hm => htouched.holds (h.held other hm)⟩
  cases hs : s.oms.orders.get? snap.clientOrderId with
  | none =>
    obtain ⟨a, heq⟩ := onUpdate_unknown hs
    exact h.headroom.same (by rw [heq, emit_orders]) (by rw [heq, emit_book])
  | some known =>
    obtain ⟨hbook, ⟨-, -, hadv, version, heq, -⟩ | ⟨-, -, hsame | hset⟩⟩ := onUpdate_known hk hs
    · refine h.headroom.quiet hs heq hbook rfl rfl rfl fun _ => ?_
      by_contra hterm
      rw [advances_terminal (by simpa using hterm)] at hadv
      cases hadv
    · exact h.headroom.same hsame.2 hbook
    · exact h.headroom.quiet hs hset.2 hbook rfl rfl rfl id

/-- A new fill is of an order the table holds, and fits there. -/
theorem filled (h : Sound config s) {fill : Fill}
    (hguard : fill.fillId ∉ s.oms.book.seen → fill.bookId = s.oms.bookId ∧
      ∃ order, s.oms.orders.get? fill.clientOrderId = some order ∧ Fits s.oms order fill) :
    Sound config { s with oms := (onFill fill s.oms).state } := by
  have hk := h.ledger.keyed
  have htouched := touched_onFill fill hk
  by_cases hseen : fill.fillId ∈ s.oms.book.seen
  · rw [onFill_seen hseen]
    exact h
  · obtain ⟨hbook, order, horder, hfits⟩ := hguard hseen
    refine ⟨htouched.ledger h.ledger (onFill_silent hseen hk horder hbook), ?_,
      fun other hm => htouched.holds (h.held other hm)⟩
    obtain ⟨version, as, hstate, -⟩ := onFill_known hseen hk horder hbook
    exact h.headroom.fills version horder (by rw [hstate]) (by rw [hstate]) hfits

end Sound

/-- The step lemma: a guarded step keeps the system sound. -/
theorem step_sound {config : OmsConfig} {hasGate : Bool} {s s' : Sys} {act : Act}
    (hstep : step config hasGate s act = some s') (hguard : act.Guarded config s)
    (h : Sound config s) : Sound config s' := by
  cases act with
  | called intent quantity =>
    simp only [step] at hstep
    split at hstep
    · cases hstep
      exact h
    · cases hstep
      refine ⟨h.ledger, h.headroom, fun order hm => h.held order ?_⟩
      simpa using hm
  | gated intent qty decision now =>
    simp only [step] at hstep
    split at hstep
    · have hheld : ∀ order, .placing order ∈ s.tasks.erase (.gating intent qty) →
          s.oms.Holds order := fun order hm => h.held order (List.mem_of_mem_erase hm)
      cases hsized : sized qty decision with
      | error result =>
        rw [hsized] at hstep
        cases hstep
        exact ⟨h.ledger, h.headroom, hheld⟩
      | ok q =>
        rw [hsized] at hstep
        cases hstep
        -- the guard is what the code does not look at again after the gate has answered
        obtain ⟨hfresh, hreduce⟩ := hguard q hsized
        exact h.registered hfresh hreduce hheld
    · cases hstep
  | acked order ack =>
    simp only [step] at hstep
    split at hstep
    · rename_i hmem
      cases hstep
      exact h.acked ack hmem
    · cases hstep
  | raised order exc =>
    simp only [step] at hstep
    split at hstep
    · rename_i hmem
      cases hstep
      exact h.raised hmem hguard
    · cases hstep
  | updated snap =>
    cases hstep
    exact h.updated snap
  | filled fill =>
    cases hstep
    exact h.filled hguard

/-- The run lemma, by induction on the acts. -/
theorem run_sound {config : OmsConfig} {hasGate : Bool} {s s' : Sys} {acts : List Act}
    (hrun : run config hasGate s acts = some s') (hguard : Guarded config hasGate s acts)
    (h : Sound config s) : Sound config s' := by
  induction acts generalizing s with
  | nil =>
    cases hrun
    exact h
  | cons act rest ih =>
    obtain ⟨next, hstep, hrest⟩ := Option.bind_eq_some_iff.mp hrun
    exact ih hrest (hguard.2 next hstep) (step_sound hstep hguard.1 h)

/-- **Concurrent submissions.** In every run of any number of submissions,
interleaved with each other and with the broker's callbacks in any order, whose
steps are all guarded, every state reached is safe. -/
theorem guarded_runs_safe (config : OmsConfig) (hasGate : Bool) (book : PositionBook)
    (acts : List Act) (s : Sys) (hrun : run config hasGate (.init book) acts = some s)
    (hguard : Guarded config hasGate (.init book) acts) : Safe s.oms := by
  have hsound := run_sound hrun hguard (sound_init config book)
  exact hsound.ledger.safe hsound.headroom

end OMS

/-! ## Two submissions that overtake each other -/

namespace Sample

theorem no_quantity_pos : ∀ q ∈ (none : Option ℤ), 0 < q := by simp

theorem close_reduces : true = IntentKind.close.reducesRisk := rfl

/-- Sell the whole position, reduce-only. -/
def exit (intentId : String) : OrderIntent :=
  { entry with
    intentId := intentId, side := .sell, kind := .close, quantity := none, reduceOnly := true
    reason := .target, source := .exitManager
    quantity_pos := no_quantity_pos, reduceOnly_eq := close_reduces }

/-- The gate lets ten shares pass. -/
def ten : GateResult := ⟨10, ""⟩

/-- One submission, up to its order. -/
def submitted : List OMS.Act := [.called entry none, .gated entry (some 10) ten 0]

/-- Six shares of the first exit are sold. -/
def exitFill : Fill :=
  { fill 1 6 (by decide) with
    fillId := "SIM-3-F1", clientOrderId := "X1", brokerOrderId := some "SIM-3", side := .sell }

/-- Two entries called before the gate answers either, one of them filled; then exits of
six and of four called likewise, and the six are sold. -/
def enteredAndExited : List OMS.Act :=
  let again := { entry with intentId := "I2" }
  [.called entry none, .called again none, .gated again (some 10) ten 0,
    .gated entry (some 10) ten 0, .acked order ⟨"I1", "SIM-1", .open, 0, ""⟩,
    .filled (fill 1 10 ten_pos), .called (exit "X1") (some 6), .called (exit "X2") (some 4),
    .gated (exit "X2") (some 4) ten 0, .gated (exit "X1") (some 6) ten 0,
    .acked (OMS.newOrder config (exit "X1") ⟨6, by decide⟩ 0) ⟨"X1", "SIM-3", .open, 0, ""⟩,
    .filled exitFill]

/-- The same intent submitted twice before the gate answers. -/
def submittedTwice : List OMS.Act :=
  [.called entry none, .called entry none, .gated entry (some 10) ten 0,
    .gated entry (some 10) ten 0]

/-- A position of ten, and two exits called before the gate answers the first. -/
def exitedTwice : List OMS.Act :=
  submitted ++ [.acked order ⟨"I1", "SIM-1", .open, 0, ""⟩, .filled (fill 1 10 ten_pos),
    .called (exit "X1") none, .called (exit "X2") none, .gated (exit "X1") (some 10) ten 0,
    .gated (exit "X2") (some 10) ten 0]

end Sample

namespace OMS

/-- Two entries that overlap, and then two exits: what each read is still so when its
gate answers. -/
theorem guarded_runs_safe_two_exits :
    ∃ s, run Sample.config true (.init Sample.book) Sample.enteredAndExited = some s ∧
      Safe s.oms ∧ s.oms.committed Sample.infy.key .cnc = 4 ∧
      s.oms.book.quantity Sample.infy.key .cnc = 4 := by
  have hrun : (run Sample.config true (.init Sample.book) Sample.enteredAndExited).map (fun s =>
      (s.oms.committed Sample.infy.key .cnc, s.oms.book.quantity Sample.infy.key .cnc)) =
      some (4, 4) := by
    decide +kernel
  obtain ⟨s, hs, hvalues⟩ := Option.map_eq_some_iff.mp hrun
  obtain ⟨hcommitted, hquantity⟩ := Prod.mk.inj hvalues
  refine ⟨s, hs, ?_, hcommitted, hquantity⟩
  exact guarded_runs_safe Sample.config true Sample.book Sample.enteredAndExited s hs
    (by decide +kernel)

/-- Submissions may overtake each other between the gate and the registration:
one intent is submitted twice, and two exits are live over one position. -/
theorem concurrent_submits_unsafe :
    ¬ (∀ (config : OmsConfig) (hasGate : Bool) (book : PositionBook) (acts : List Act) (s : Sys),
      run config hasGate (.init book) acts = some s →
      ∀ intentId, ((submissions s.oms.sink).filter fun order =>
        order.intent.intentId = intentId).length ≤ 1) ∧
    ¬ (∀ (config : OmsConfig) (hasGate : Bool) (book : PositionBook) (acts : List Act) (s : Sys),
      run config hasGate (.init book) acts = some s →
      ∀ instrumentKey product,
        s.oms.committed instrumentKey product ≤ |s.oms.book.quantity instrumentKey product|) := by
  constructor
  · intro h
    have hrun : (run Sample.config true (.init Sample.book) Sample.submittedTwice).map (fun s =>
        ((submissions s.oms.sink).filter fun order => order.intent.intentId = "I1").length) =
        some 2 := by
      decide +kernel
    obtain ⟨s, hs, htwo⟩ := Option.map_eq_some_iff.mp hrun
    have hone := h _ _ _ _ s hs "I1"
    omega
  · intro h
    have hrun : (run Sample.config true (.init Sample.book) Sample.exitedTwice).map (fun s =>
        (s.oms.committed Sample.infy.key .cnc, s.oms.book.quantity Sample.infy.key .cnc)) =
        some (20, 10) := by
      decide +kernel
    obtain ⟨s, hs, hvalues⟩ := Option.map_eq_some_iff.mp hrun
    have hbound := h _ _ _ _ s hs Sample.infy.key .cnc
    rw [Prod.mk.injEq] at hvalues
    rw [hvalues.1, hvalues.2] at hbound
    exact absurd hbound (by decide)

end OMS

end RakshaQuant
