import RakshaQuant.Desk.Quiet

/-! The operations of the desk as small steps: the coroutines of the OMS over the
simulated broker, and from them every run. -/

namespace RakshaQuant

namespace System

open BrokerStep (anyEnd moves_order moves_ofExcept)

variable {T : Type}

section others

variable (sys : System T) (Allowed : Order → Prop)

theorem moves_submit (now brokerNow : Instant) (intent : OrderIntent) (quantity : Option ℤ)
    {gate : Gate} (hgate : Passes sys.config Allowed gate intent) (delivery : Delivery)
    {w : Paper T} (hk : w.desk.oms.Keyed) :
    Effect.Moves (Step sys Allowed) (Eq w)
      (OMS.submit sys.config (delivery.through (sys.adapter brokerNow)) (some gate.asOrderGate) now
        intent quantity)
      (fun _ => Submitted (sys.config.clientOrderId intent.intentId) w)
      (fun _ => Submitted (sys.config.clientOrderId intent.intentId) w) :=
  (quiet_submit sys Allowed now brokerNow intent quantity hgate delivery hk).lift fun _ _ h => h.step

theorem moves_cancel (now : Instant) (coid : String) :
    Effect.Moves (Step sys Allowed) (fun _ => True) (OMS.cancel (sys.adapter now) coid)
      anyEnd anyEnd :=
  (quiet_cancel sys Allowed now coid).lift fun _ _ h => h.step

/-- Adopting fills the broker reports: the broker and the ids the OMS holds stay. -/
theorem moves_applyFills (fills : List Fill) (b : SimulatedBroker) (held : List Order) :
    Effect.Moves (Step sys Allowed)
      (fun w => w.desk.oms.Keyed ∧ w.broker = b ∧ (∀ f ∈ fills, f ∈ b.fills) ∧
        ∀ order ∈ held, Held order w)
      (OMS.applyFills sys.listener fills)
      (fun _ w => w.desk.oms.Keyed ∧ w.broker = b ∧
        ∀ order ∈ held, Held order w)
      anyEnd := by
  induction fills with
  | nil => exact Effect.Moves.pure fun w h => ⟨h.1, h.2.1, h.2.2.2⟩
  | cons fill rest ih =>
    unfold OMS.applyFills
    refine Effect.Moves.bind (Q := fun _ w => w.desk.oms.Keyed ∧ w.broker = b ∧
      (∀ f ∈ rest, f ∈ b.fills) ∧
      ∀ order ∈ held, Held order w) ?_ fun _ => ih
    rintro w ⟨hk, rfl, hreported, hheld⟩
    have hstep : Step sys Allowed w _ := .adopted (hreported fill List.mem_cons_self)
    obtain ⟨as, homs⟩ := Desk.onFill_oms sys.listener fill w.desk
    have htouched := OMS.touched_onFill fill hk
    have horders : (Desk.onFill sys.listener fill w.desk).state.oms.orders =
        (OMS.onFill fill w.desk.oms).state.orders := by rw [homs]
    have hafter : (Desk.onFill sys.listener fill w.desk).state.oms.Keyed ∧
        ∀ order ∈ held,
          Held order { w with desk := (Desk.onFill sys.listener fill w.desk).state } := by
      refine ⟨OMS.keyed_of_eq (htouched.keyed hk) horders, fun order ho => ?_⟩
      obtain ⟨known, hknown, hi⟩ := hheld order ho
      obtain ⟨known', hknown', hi'⟩ := htouched.intent hknown
      exact ⟨known', by rw [horders, hknown'], hi'.trans hi⟩
    unfold World.onDesk
    cases hd : Desk.onFill sys.listener fill w.desk with
    | ok a d =>
      rw [hd] at hstep hafter
      exact ⟨.single hstep, hafter.1, rfl, fun f hf => hreported f (List.mem_cons_of_mem _ hf),
        hafter.2⟩
    | error e d =>
      rw [hd] at hstep
      exact ⟨.single hstep, trivial⟩

theorem moves_adoptFills (now : Instant) (since : Option Instant) (b : SimulatedBroker)
    (held : List Order) :
    Effect.Moves (Step sys Allowed)
      (fun w => w.desk.oms.Keyed ∧ w.broker = b ∧
        ∀ order ∈ held, Held order w)
      (OMS.adoptFills (sys.adapter now) sys.listener since)
      (fun _ w => w.desk.oms.Keyed ∧ w.broker = b ∧
        ∀ order ∈ held, Held order w)
      anyEnd := by
  unfold OMS.adoptFills
  rintro w ⟨hk, rfl, hheld⟩
  have htrades : (sys.adapter now).getTrades since w =
      .ok (w.broker.fills.filter fun f => since.all (· ≤ f.ts)) w := rfl
  rw [Effect.run_bind_ok htrades, Effect.run_bind_ok (Effect.run_get _)]
  refine Effect.Moves.bind (moves_applyFills sys Allowed _ w.broker held)
    (fun _ => Effect.Moves.pure fun _ h => h) w ⟨hk, rfl, fun f hf => ?_, hheld⟩
  exact (List.mem_filter.mp (List.mem_filter.mp hf).1).1

theorem moves_resolveOne (now : Instant) (coid : String) :
    Effect.Moves (Step sys Allowed) (fun w => w.desk.oms.Keyed)
      (OMS.resolveOne sys.config (sys.adapter now) sys.listener now coid)
      (fun _ w => w.desk.oms.Keyed) anyEnd := by
  unfold OMS.resolveOne
  refine Effect.Moves.read fun w hk => ?_
  cases hget : w.desk.oms.orders.get? coid with
  | none => exact Effect.Moves.throw fun _ _ => trivial
  | some order =>
    have hid : order.clientOrderId = coid := hk _ _ hget
    have hheld : w.desk.oms.orders.get? order.clientOrderId = some order := hid ▸ hget
    dsimp only
    rintro _ rfl
    have hfind : (sys.adapter now).findOrderByTag coid w =
        .ok ((w.broker.find coid).map SimOrder.snapshot) w := rfl
    rw [Effect.run_bind_ok hfind]
    cases hso : w.broker.find coid with
    | none =>
      rw [Option.map_none]
      dsimp only
      have htouched := OMS.touched_absent sys.config now hk ⟨order, hheld⟩
      exact ⟨.single (.absent now hheld (hid ▸ hso)), htouched.keyed hk⟩
    | some so =>
      rw [Option.map_some]
      dsimp only
      refine Effect.Moves.after (M := fun w' => w'.desk.oms.Keyed ∧ w'.broker = w.broker ∧
        ∀ known ∈ [order], Held known w') (P := Eq w) ?_ ?_ w rfl
      · rintro _ rfl
        have htouched := OMS.touched_found so.snapshot hk ⟨order, hheld⟩
        refine ⟨.single (.found hheld (hid ▸ hso)), htouched.keyed hk, rfl, fun c hc => ?_⟩
        obtain rfl := List.mem_singleton.mp hc
        exact htouched.intent hheld
      · refine Effect.Moves.bind (moves_adoptFills sys Allowed now _ w.broker [order]) fun _ => ?_
        refine Effect.Moves.change fun w' hw' => ?_
        obtain ⟨hk', hbroker, hheld'⟩ := hw'
        obtain ⟨known, hknown, hintent⟩ := hheld' order (List.mem_singleton.mpr rfl)
        have htouched := OMS.touched_resolved so.snapshot hk' (⟨known, hknown⟩ : w'.desk.oms.Holds order)
        refine ⟨.single (.resolved hknown hintent ?_), htouched.keyed hk'⟩
        rw [hbroker, hid, hso]

theorem moves_resolveAll (now : Instant) (coids : List String) :
    Effect.Moves (Step sys Allowed) (fun w => w.desk.oms.Keyed)
      (OMS.resolveAll sys.config (sys.adapter now) sys.listener now coids) anyEnd anyEnd := by
  induction coids with
  | nil => exact Effect.Moves.pure fun _ _ => trivial
  | cons coid rest ih =>
    exact Effect.Moves.bind (moves_resolveOne sys Allowed now coid) fun _ => ih

theorem moves_resolveUnknown (now : Instant) :
    Effect.Moves (Step sys Allowed) (fun w => w.desk.oms.Keyed)
      (OMS.resolveUnknown sys.config (sys.adapter now) sys.listener now) anyEnd anyEnd := by
  unfold OMS.resolveUnknown
  refine Effect.Moves.read fun w hk => (moves_resolveAll sys Allowed now _).conseq ?_
    (fun _ _ h => h) fun _ _ h => h
  rintro _ rfl
  exact hk

/-- A reconciliation records its result and maybe an alert. -/
theorem recordReconciliation_spec (diffs : List OMS.Diff) (o : OMS) :
    ∃ ps : List EventPayload, (∀ p ∈ ps, p.Aside) ∧
      (o.recordReconciliation diffs).1 = { o with sink := o.sink ++ ps.map .event } := by
  unfold OMS.recordReconciliation
  dsimp only
  generalize (⟨o.bookId, "oms_broker", diffs.all OMS.Diff.isAdopted, diffs.map OMS.Diff.text⟩ :
    ReconciliationResult) = result
  split
  · exact ⟨[.reconciliationResult result], by simp [EventPayload.Aside], rfl⟩
  · generalize "; ".intercalate (diffs.map OMS.Diff.text) = message
    refine ⟨[.reconciliationResult result, .alert ⟨"CRITICAL", "SYS_RECON_DRIFT", message⟩],
      by simp [EventPayload.Aside], ?_⟩
    simp [OMS.alert, OMS.emit]

theorem moves_record (diffs : List OMS.Diff) (P : Paper T → Prop) :
    Effect.Moves (Step sys Allowed) P
      (modify (World.mapOms fun o => (o.recordReconciliation diffs).1) : EStateM Exc (Paper T) PUnit)
      anyEnd anyEnd := by
  refine Effect.Moves.change fun w _ => ⟨.single ?_, trivial⟩
  obtain ⟨ps, hps, heq⟩ := recordReconciliation_spec diffs w.desk.oms
  have hstep : Step sys Allowed w _ := .emitted hps
  simp only [World.mapOms, Desk.mapOms, heq] at hstep ⊢
  exact hstep

theorem moves_reconcile (now : Instant) :
    Effect.Moves (Step sys Allowed) (fun w => w.desk.oms.Keyed)
      (OMS.reconcile (sys.adapter now) sys.listener now) anyEnd anyEnd := by
  unfold OMS.reconcile
  intro w hk
  refine Effect.Moves.bind (moves_adoptFills sys Allowed now none w.broker []) (fun adopted => ?_)
    w ⟨hk, rfl, by simp⟩
  refine Effect.Moves.bind (Q := anyEnd) (fun w _ => ⟨.refl, trivial⟩) fun snaps => ?_
  refine Effect.Moves.read fun w₁ _ => Effect.Moves.read fun w₂ _ => ?_
  refine Effect.Moves.bind (Q := anyEnd) (fun w _ => ⟨.refl, trivial⟩) fun theirs => ?_
  refine Effect.Moves.bind (Q := anyEnd)
    ((moves_getFunds sys Allowed now).conseq (fun _ _ => trivial) (fun _ _ h => h)
      fun _ _ h => h) fun funds => ?_
  refine Effect.Moves.read fun w₃ _ => Effect.Moves.read fun w₄ _ => ?_
  exact Effect.Moves.bind (moves_record sys Allowed _ _) fun _ =>
    Effect.Moves.pure fun _ _ => trivial

end others

/-! ## Runs -/

/-- The gate of an operation lets only allowed orders pass. -/
def Op.Gated (config : OmsConfig) (Allowed : Order → Prop) : Op → Prop
  | .submit _ _ intent _ gate _ => Passes config Allowed gate intent
  | _ => True

/-- Any intent may pass the gate. -/
theorem Op.gated_any (config : OmsConfig) (op : Op) : Op.Gated config (fun _ => True) op := by
  cases op with
  | submit => exact fun _ _ _ _ _ _ _ => trivial
  | _ => exact trivial

variable {sys : System T} {Allowed : Order → Prop}

/-- Every operation is small steps, whether it returns or raises. -/
theorem after_steps {op : Op} (hop : Op.Gated sys.config Allowed op) {w : Paper T} (hk : w.desk.oms.Keyed) :
    Steps sys Allowed w (sys.after w op) := by
  have hforget : ∀ {α : Type} {m : EStateM Exc (Paper T) α} {P : Paper T → Prop},
      Effect.Moves (Step sys Allowed) P m anyEnd anyEnd → P w → Steps sys Allowed w (m w).state :=
    fun hm hp => (hm w hp).1
  unfold System.after
  cases op with
  | submit now brokerNow intent quantity gate delivery =>
    have hmoves := (moves_submit sys Allowed now brokerNow intent quantity hop delivery hk).conseq
      (fun _ h => h) (V := anyEnd) (F := anyEnd) (fun _ _ _ => trivial) fun _ _ _ => trivial
    exact hforget (Effect.Moves.bind hmoves fun _ => Effect.Moves.pure fun _ _ => trivial) rfl
  | cancel now coid => exact hforget (moves_cancel sys Allowed now coid) trivial
  | quote quote =>
    exact hforget (Effect.Moves.bind (moves_onQuote sys Allowed quote) fun _ =>
      Effect.Moves.pure fun _ _ => trivial) trivial
  | expireSession now => exact hforget (moves_expireSession sys Allowed now) trivial
  | resolveUnknown now => exact hforget (moves_resolveUnknown sys Allowed now) hk
  | reconcile now =>
    exact hforget (Effect.Moves.bind (moves_reconcile sys Allowed now) fun _ =>
      Effect.Moves.pure fun _ _ => trivial) hk

end System

end RakshaQuant
