import RakshaQuant.Brokers.Simulated.Saved
import RakshaQuant.Brokers.Simulated.Solvency

/-! A broker restarted from its rows, beside the one that went on. What the code does not
save is the purse and the volumes of quotes that changed no order, the count of quotes, and
a trigger whose change was refused halfway. Where these happen to be current in the rows,
no later call tells the two apart. -/

namespace RakshaQuant

/-- What is called on a broker, modifications included. -/
inductive PublicOp
  | call (op : BrokerOp)
  | modifyOrder (now : Instant) (brokerOrderId : String) (qty : Option ℤ) (price trigger : Option ℚ)

namespace PublicOp

variable {S : Type} (env : SimEnv) (hooks : Hooks S)

/-- The world a call leaves behind, also when it raises. -/
def after (w : World SimulatedBroker S) : PublicOp → World SimulatedBroker S
  | call op => op.after env hooks w
  | modifyOrder now boid qty price trigger =>
    (SimulatedBroker.modifyOrder env hooks now boid qty price trigger w).state

def run (w : World SimulatedBroker S) (ops : List PublicOp) : World SimulatedBroker S :=
  ops.foldl (after env hooks) w

end PublicOp

namespace SimulatedBroker

variable {T T' : Type}

/-- A new broker loaded from the store, fed the latest quotes, with a desk of its own. -/
def restart (startingCash : ℚ) (w : World SimulatedBroker (Stored T)) (desk : T') :
    World SimulatedBroker (Stored T') :=
  { broker := { load startingCash w.desk.rows with quotes := w.broker.quotes }
    desk := ⟨w.desk.rows, desk⟩ }

/-- What a call shows of an order. -/
def progress (o : SimOrder) : OrderStatus × ℤ := (o.status, o.filledQty)

/-- Since they held `fills` and `fills'` two brokers made the same fills, and their orders
and their cash are the same. -/
structure Agree (fills fills' : List Fill) (b b' : SimulatedBroker) : Prop where
  fills : ∃ news, b.fills = fills ++ news ∧ b'.fills = fills' ++ news
  orders : ∀ boid, (b'.orders.get? boid).map progress = (b.orders.get? boid).map progress
  cash : b'.core.cash = b.core.cash

/-- The rows are current where the code does not see to it: nothing is left unsaved; the
purse, and the volumes of the days that are quoted later, are those of the last save; and
so are the triggers that are pending and the counts of the market orders. -/
structure Durable (startingCash : ℚ) (later : List BrokerOp)
    (w : World SimulatedBroker (Stored T)) : Prop where
  clean : w.broker.dirty = false
  cash : (load startingCash w.desk.rows).core.cash = w.broker.core.cash
  unsettled : (load startingCash w.desk.rows).core.unsettled = w.broker.core.unsettled
  seen : ∀ key day, BrokerOp.Quoted later key day →
    (load startingCash w.desk.rows).core.seen key day = w.broker.core.seen key day
  trigger : ∀ boid so row, w.broker.orders.get? boid = some so →
    (load startingCash w.desk.rows).orders.get? boid = some row →
    so.status = .triggerPending → row.triggerPrice = so.triggerPrice
  quotes : ∀ boid so row, w.broker.orders.get? boid = some so →
    (load startingCash w.desk.rows).orders.get? boid = some row →
    so.orderType = .market → row.eligibleQuotes = so.eligibleQuotes

variable {env : SimEnv} {startingCash : ℚ} {hooks : Hooks T}

theorem kept_after (hquiet : hooks.Quiet) {w : World SimulatedBroker (Stored T)}
    (h : Kept env startingCash w) (op : PublicOp) :
    Kept env startingCash (op.after env hooks.storing w) := by
  cases op with
  | call op =>
    exact Effect.invariant (fun _ _ hmove => hmove)
      (op.after_moves env hooks.storing (kept_rules hquiet) (op.allows_any env hooks.storing w)) h
  | modifyOrder now boid qty price trigger =>
    exact (keeps_modifyOrder now boid qty price trigger).holds h

/-- **The run lemma.** -/
theorem kept_run (hquiet : hooks.Quiet) (ops : List PublicOp)
    {w : World SimulatedBroker (Stored T)} (h : Kept env startingCash w) :
    Kept env startingCash (PublicOp.run env hooks.storing w ops) := by
  induction ops generalizing w with
  | nil => exact h
  | cons op rest ih => exact ih (kept_after hquiet h op)

/-- The tags are found again in the rows. -/
theorem Tracked.loaded_tags {rows : List Row} {b : SimulatedBroker}
    (h : Tracked env startingCash rows b) (hclean : b.dirty = false) (coid : String) :
    (load startingCash rows).byTag.get? coid = b.byTag.get? coid := by
  have horder : ∀ boid row, (load startingCash rows).orders.get? boid = some row →
      ∃ so, b.orders.get? boid = some so ∧ so.KeptAs row := by
    intro boid row hrow
    obtain ⟨so, hso⟩ := b.orders.mem_keys_iff.mp
      (h.keys ▸ (load startingCash rows).orders.mem_keys_iff.mpr ⟨row, hrow⟩)
    exact ⟨so, hso, h.written boid so row hso hrow (.inr hclean)⟩
  have hunique : ∀ boid row boid' row', (load startingCash rows).orders.get? boid = some row →
      (load startingCash rows).orders.get? boid' = some row' →
      row.clientOrderId = row'.clientOrderId → boid = boid' := by
    intro boid row boid' row' hrow hrow' hsame
    obtain ⟨so, hso, hkept⟩ := horder boid row hrow
    obtain ⟨so', hso', hkept'⟩ := horder boid' row' hrow'
    have htag := (h.tags _ boid).mpr ⟨so, hso, rfl⟩
    have htag' := (h.tags _ boid').mpr ⟨so', hso', rfl⟩
    rw [← hkept.ids.2, hsame, hkept'.ids.2, htag', Option.some.injEq] at htag
    exact htag.symm
  have hiff : ∀ boid, (load startingCash rows).byTag.get? coid = some boid ↔
      b.byTag.get? coid = some boid := by
    intro boid
    rw [loaded_tag hunique, h.tags]
    constructor
    · rintro ⟨row, hrow, rfl⟩
      obtain ⟨so, hso, hkept⟩ := horder boid row hrow
      exact ⟨so, hso, hkept.ids.2.symm⟩
    · rintro ⟨so, hso, rfl⟩
      obtain ⟨row, hrow⟩ := (load startingCash rows).orders.mem_keys_iff.mp
        (h.keys ▸ b.orders.mem_keys_iff.mpr ⟨so, hso⟩)
      exact ⟨row, hrow, (h.written boid so row hso hrow (.inr hclean)).ids.2⟩
  exact Option.ext hiff

/-- Where the rows are current the restarted broker is like the one that went on. -/
theorem Tracked.alike {later : List BrokerOp} {w : World SimulatedBroker (Stored T)}
    (h : Kept env startingCash w) (hdurable : Durable startingCash later w) (desk : T') :
    Alike (BrokerOp.Quoted later) w.broker.fills (restart startingCash w desk).broker.fills
      w.broker (restart startingCash w desk).broker where
  core := by
    obtain ⟨cash, unsettled, volume, hrow⟩ := h.core hdurable.clean
    have hcash := hdurable.cash
    have hunsettled := hdurable.unsettled
    rw [hrow] at hcash hunsettled
    dsimp only at hcash hunsettled
    rw [hcash, hunsettled] at hrow
    show (load startingCash w.desk.rows).core =
      { w.broker.core with volume := (load startingCash w.desk.rows).core.volume }
    rw [hrow]
  seen := hdurable.seen
  orders := ⟨h.keys, fun boid so row hso hrow =>
    ⟨h.written boid so row hso hrow (.inr hdurable.clean), hdurable.trigger boid so row hso hrow,
      hdurable.quotes boid so row hso hrow⟩⟩
  byTag := h.loaded_tags hdurable.clean
  quotes := rfl
  fills := ⟨[], (List.append_nil _).symm, (List.append_nil _).symm⟩

/-- **A restart is not seen** where the rows are current, and no subscriber raises: whatever
is called later, the restarted broker makes the same fills, and its orders and its cash are
those of the broker that went on. -/
theorem restart_transparent (env : SimEnv) (startingCash : ℚ) {hooks : Hooks T}
    {hooks' : Hooks T'} (hquiet : hooks.Quiet) (hquiet' : hooks'.Quiet) (desk : T) (desk' : T')
    (before : List PublicOp) (later : List BrokerOp)
    (hdurable : Durable startingCash later
      (PublicOp.run env hooks.storing ⟨.init startingCash, [], desk⟩ before)) :
    let w := PublicOp.run env hooks.storing ⟨.init startingCash, [], desk⟩ before
    let restarted := restart startingCash w desk'
    Agree w.broker.fills restarted.broker.fills
      (BrokerOp.run env hooks.storing w later).broker
      (BrokerOp.run env hooks'.storing restarted later).broker := by
  intro w restarted
  have hkept : Kept env startingCash w := kept_run hquiet before (.init env startingCash)
  have halike := Lockstep.run env hooks.storing hooks'.storing hquiet.storing hquiet'.storing later
    (Tracked.alike hkept hdurable desk')
  refine ⟨halike.fills, fun boid => ?_, by rw [halike.core]⟩
  cases ho : (BrokerOp.run env hooks.storing w later).broker.orders.get? boid with
  | none =>
    rw [halike.orders.missing ho]
  | some so =>
    obtain ⟨so', ho', hsame⟩ := halike.orders.held ho
    obtain ⟨_, _, rfl⟩ := hsame.kept
    rw [ho']
    rfl

end SimulatedBroker

/-! ## Volumes that are saved, and volumes that are not -/

namespace Sample

theorem fifty_pos : (0 : ℤ) < 50 := by decide

theorem thousand_nonneg : (0 : ℤ) ≤ 1000 := by decide

theorem busy_nonneg : (0 : ℤ) ≤ 1010 := by decide

theorem unheard_quiet : unheard.Quiet := fun _ _ => ⟨(), rfl⟩

/-- A thousand shares are traded before the restart. -/
def busyMorning : List PublicOp := [.call (.onQuote (quote 0 1000 thousand_nonneg))]

/-- The same, and ten are bought: what changes an order is saved. -/
def savedMorning : List PublicOp :=
  [.call (.onQuote (quote 0 0 zero_nonneg)),
    .call (.placeOrder (clock 1) (shares "I1" .buy ⟨10, ten_pos⟩ 1)),
    .call (.onQuote (quote 2 1000 thousand_nonneg))]

/-- Fifty shares are wanted, and ten more are traded. -/
def afterwards : List BrokerOp :=
  [.placeOrder (clock 3) (shares "I2" .buy ⟨50, fifty_pos⟩ 3),
    .onQuote (quote 4 1010 busy_nonneg)]

def onwards (ops : List PublicOp) : World SimulatedBroker (Stored Unit) :=
  PublicOp.run market unheard.storing ⟨.init 100000, [], ()⟩ ops

theorem savedMorning_rows :
    (SimulatedBroker.load 100000 (onwards savedMorning).desk.rows).core =
        (onwards savedMorning).broker.core ∧
      (SimulatedBroker.load 100000 (onwards savedMorning).desk.rows).orders =
        (onwards savedMorning).broker.orders ∧
      (onwards savedMorning).broker.dirty = false := by
  decide +kernel

theorem savedMorning_durable :
    SimulatedBroker.Durable 100000 afterwards (onwards savedMorning) := by
  obtain ⟨hcore, horders, hclean⟩ := savedMorning_rows
  refine ⟨hclean, by rw [hcore], by rw [hcore], fun _ _ _ => by rw [hcore], ?_, ?_⟩
  · intro boid so row hso hrow _
    rw [horders, hso, Option.some.injEq] at hrow
    rw [hrow]
  · intro boid so row hso hrow _
    rw [horders, hso, Option.some.injEq] at hrow
    rw [hrow]

/-- The broker that went on may fill ten; the restarted one takes all for new volume. -/
theorem busyMorning_forgotten :
    (BrokerOp.run market unheard.storing (onwards busyMorning) afterwards).broker.core.cash ≠
      (BrokerOp.run market unheard.storing
        (SimulatedBroker.restart 100000 (onwards busyMorning) ()) afterwards).broker.core.cash := by
  decide +kernel

end Sample

namespace SimulatedBroker

/-- Saved volumes are seen again after a restart. -/
theorem restart_transparent_saved :
    (BrokerOp.run Sample.market Sample.unheard.storing
      (restart 100000 (Sample.onwards Sample.savedMorning) ()) Sample.afterwards).broker.core.cash =
    (BrokerOp.run Sample.market Sample.unheard.storing (Sample.onwards Sample.savedMorning)
      Sample.afterwards).broker.core.cash :=
  (restart_transparent Sample.market 100000 Sample.unheard_quiet Sample.unheard_quiet () ()
    Sample.savedMorning Sample.afterwards Sample.savedMorning_durable).cash

/-- Volumes of quotes that changed nothing are not. -/
theorem restart_forgets_volume :
    ¬∀ (T T' : Type) (env : SimEnv) (startingCash : ℚ) (hooks : Hooks T) (hooks' : Hooks T'),
      hooks.Quiet → hooks'.Quiet →
      ∀ (desk : T) (desk' : T') (before : List PublicOp) (later : List BrokerOp),
      let w := PublicOp.run env hooks.storing ⟨.init startingCash, [], desk⟩ before
      let restarted := restart startingCash w desk'
      Agree w.broker.fills restarted.broker.fills
        (BrokerOp.run env hooks.storing w later).broker
        (BrokerOp.run env hooks'.storing restarted later).broker := by
  intro h
  have hcash := (h Unit Unit Sample.market 100000 Sample.unheard Sample.unheard Sample.unheard_quiet
    Sample.unheard_quiet () () Sample.busyMorning Sample.afterwards).cash
  exact Sample.busyMorning_forgotten hcash.symm

end SimulatedBroker

end RakshaQuant
