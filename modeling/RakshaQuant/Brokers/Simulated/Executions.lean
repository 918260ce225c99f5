import RakshaQuant.Brokers.Simulated.Amendments

/-! The fills a quote makes. The loop of `on_quote` touches the orders one by one and hands
the volume that is left from each to the next, so what is known of a fill is the order as it
was before the quote, the price the quote gives it, and the volume the earlier orders left.
It is known however the loop ends, also when a subscriber raises in it. No other call fills. -/

namespace RakshaQuant

namespace SimulatedBroker

variable {S : Type} {env : SimEnv} {hooks : Hooks S} {w : World SimulatedBroker S}
  {b b' b'' : SimulatedBroker} {boid : String} {so : SimOrder} {quote : Quote} {liquidity : ℤ}

/-- The fill that `_execute` makes of an order at a reference price. -/
def Charged (env : SimEnv) (so : SimOrder) (instrument : Instrument) (reference : ℚ)
    (qty : { q : ℤ // 0 < q }) (quote : Quote) (f : Fill) : Prop :=
  ∃ dpApplies charges, env.costs.charges so.product so.side
      ((env.newFill so instrument reference qty .zero quote).price * qty.1) dpApplies = .ok charges ∧
    f = env.newFill so instrument reference qty charges quote

/-- The fill that `_match` makes of an order, with the volume that is left. -/
inductive Execution (env : SimEnv) (so : SimOrder) (quote : Quote) (liquidity : ℤ) (f : Fill) : Prop
  | made {instrument : Instrument} {reference : ℚ} {qty : { q : ℤ // 0 < q }}
      (known : env.instruments.get? so.instrumentKey = some instrument)
      (reached : so.reference quote = some reference)
      (lots : qty.1 = so.lots instrument liquidity)
      (charged : Charged env so instrument reference qty quote f)

/-- One order is touched, and filled at most once. -/
structure Touched (boid : String) (Made : Fill → Prop) (b : SimulatedBroker) (filled : Option Fill)
    (b' : SimulatedBroker) : Prop where
  fills : b'.fills = b.fills ++ filled.toList
  volume : b'.core.volume = b.core.volume
  others : ∀ k, k ≠ boid → b'.orders.get? k = b.orders.get? k
  made : ∀ f ∈ filled, Made f

namespace Touched

variable {Made : Fill → Prop} {filled : Option Fill}

theorem refl (boid : String) (Made : Fill → Prop) (b : SimulatedBroker) :
    Touched boid Made b none b :=
  ⟨(List.append_nil _).symm, rfl, fun _ _ => rfl, fun _ h => by cases h⟩

/-- An order is rewritten and nothing filled. -/
theorem set {c : SimOrder} (orders : b'.orders = b.orders.set boid c) (fills : b'.fills = b.fills)
    (volume : b'.core.volume = b.core.volume) : Touched boid Made b none b' where
  fills := fills.trans (List.append_nil _).symm
  volume := volume
  others k hk := by rw [orders, Dict.get?_set_ne _ _ hk]
  made _ h := by cases h

theorem before (h : Touched boid Made b none b') (h' : Touched boid Made b' filled b'') :
    Touched boid Made b filled b'' where
  fills := by
    rw [h'.fills, h.fills]
    simp
  volume := h'.volume.trans h.volume
  others k hk := (h'.others k hk).trans (h.others k hk)
  made := h'.made

theorem after (h : Touched boid Made b filled b') (h' : Touched boid Made b' none b'') :
    Touched boid Made b filled b'' where
  fills := by
    rw [h'.fills, h.fills]
    simp
  volume := h'.volume.trans h.volume
  others k hk := (h'.others k hk).trans (h.others k hk)
  made := h.made

theorem weaken {Made' : Fill → Prop} (h : Touched boid Made b filled b')
    (hmade : ∀ f, Made f → Made' f) : Touched boid Made' b filled b' :=
  ⟨h.fills, h.volume, h.others, fun f hf => hmade f (h.made f hf)⟩

theorem notify (hooks : Hooks S) (boid : String) (w : World SimulatedBroker S) :
    Touched boid Made w.broker none (w.notify hooks boid).broker where
  fills := by simp
  volume := by simp
  others k _ := by simp
  made _ h := by cases h

theorem finish (hooks : Hooks S) (status : OrderStatus) (message : String) (ts : Instant)
    (ho : w.broker.orders.get? boid = some so) :
    Touched boid Made w.broker none (w.finish hooks boid status message ts).broker := by
  have hset : Touched boid Made w.broker none
      (w.mapBroker (SimulatedBroker.finish boid status message ts)).broker := by
    show Touched boid Made w.broker none (w.broker.finish boid status message ts)
    rw [finish_of_get status message ts ho]
    exact set rfl rfl rfl
  exact hset.before (notify hooks boid _)

theorem booked {fill : Fill} (so : SimOrder) (s : Settlement) (dpDay : Option (String × Day))
    (b : SimulatedBroker) (h : Made fill) :
    Touched boid Made b (some fill) (b.bookFill boid so s dpDay fill) := by
  obtain ⟨blocked, hbook, -⟩ := bookFill_eq boid so s dpDay fill b
  rw [hbook]
  refine ⟨rfl, ?_, fun k hk => Dict.get?_set_ne _ _ hk, fun f hf => ?_⟩
  · cases s <;> rfl
  · cases hf
    exact h

end Touched

/-! ## What `_match` makes -/

/-- However it ends, one order was touched. -/
def Touches (boid : String) (Made : Fill → Prop) (w : World SimulatedBroker S)
    (m : EStateM Exc (World SimulatedBroker S) (Option Fill)) : Prop :=
  Effect.Moves (fun _ _ => True) (Eq w) m
    (fun filled w' => Touched boid Made w.broker filled w'.broker)
    (fun _ w' => ∃ filled, Touched boid Made w.broker filled w'.broker)

variable {Made : Fill → Prop}

theorem touches_pure (boid : String) (Made : Fill → Prop) (w : World SimulatedBroker S) :
    Touches boid Made w (pure none) := by
  rintro _ rfl
  exact ⟨.refl, .refl boid Made _⟩

/-- A subscriber changes its desk only, also when it raises. -/
theorem moves_onDesk (m : EStateM Exc S PUnit) (I : SimulatedBroker → Prop) :
    Effect.Moves (fun _ _ => True) (fun w => I w.broker) (World.onDesk m) (fun _ w' => I w'.broker)
      (fun _ w' => I w'.broker) := by
  intro w hw
  refine ⟨.single trivial, ?_⟩
  unfold World.onDesk
  cases m w.desk with
  | ok a d => exact hw
  | error e d => exact hw

theorem touches_execute (ho : w.broker.orders.get? boid = some so) (instrument : Instrument)
    (reference : ℚ) (qty : { q : ℤ // 0 < q }) (quote : Quote) :
    Touches boid (Charged env so instrument reference qty quote) w
      (execute env hooks boid instrument reference qty quote) := by
  unfold execute Touches
  refine BrokerStep.moves_order ?_ ?_
  · rintro _ o rfl ho'
    obtain rfl : so = o := Option.some.inj (ho.symm.trans ho')
    refine Effect.Moves.read ?_
    rintro _ rfl
    refine BrokerStep.moves_ofExcept ?_ ?_
    · intro charges hcharges
      refine Effect.Moves.read ?_
      rintro _ rfl
      refine BrokerStep.moves_ofExcept ?_ ?_
      · intro settlement _
        cases settlement with
        | none =>
          refine Effect.Moves.after ?_ (Effect.Moves.pure fun _ h => h)
          rintro _ rfl
          exact ⟨.single trivial, .finish hooks .cancelled _ quote.receiptTs ho⟩
        | some s =>
          -- the fill is in the books before the subscriber is told
          refine Effect.Moves.after (M := fun w' => Touched boid
            (Charged env so instrument reference qty quote) w.broker
            (some (env.newFill so instrument reference qty charges quote)) w'.broker) ?_ ?_
          · rintro _ rfl
            refine ⟨.single trivial, ?_⟩
            exact .booked so s _ w.broker ⟨_, charges, hcharges, rfl⟩
          · refine Effect.Moves.bind ((moves_onDesk _ _).conseq (fun _ h => h) (fun _ _ h => h)
              fun _ w' hw' => ⟨_, hw'⟩) fun _ => ?_
            refine Effect.Moves.after ?_ (Effect.Moves.pure fun _ h => h)
            intro w' hw'
            exact ⟨.single trivial, hw'.after (.notify hooks boid w')⟩
      · rintro _ _ - rfl
        exact ⟨none, .refl ..⟩
    · rintro _ _ - rfl
      exact ⟨none, .refl ..⟩
  · rintro _ rfl
    exact ⟨none, .refl ..⟩

theorem touches_cancelRest {filled : Option Fill} (boid : String) (quote : Quote)
    (b : SimulatedBroker) :
    Effect.Moves (fun _ _ => True) (fun w => Touched boid Made b filled w.broker)
      (cancelRest env hooks boid quote) (fun _ w => Touched boid Made b filled w.broker)
      (fun _ w => Touched boid Made b filled w.broker) := by
  unfold cancelRest
  refine BrokerStep.moves_order ?_ fun _ h => h
  intro w o hw ho
  split
  · refine Effect.Moves.change ?_
    rintro _ rfl
    exact ⟨.single trivial, hw.after (.finish hooks .cancelled _ quote.receiptTs ho)⟩
  · refine Effect.Moves.pure ?_
    rintro _ rfl
    exact hw

theorem touches_fillOrCancel (ho : w.broker.orders.get? boid = some so) (reference : ℚ)
    (quote : Quote) (liquidity : ℤ) :
    Touches boid (fun f => ∃ instrument, ∃ qty : { q : ℤ // 0 < q },
        env.instruments.get? so.instrumentKey = some instrument ∧
        qty.1 = so.lots instrument liquidity ∧ Charged env so instrument reference qty quote f) w
      (fillOrCancel env hooks boid reference quote liquidity) := by
  have hcount := countQuote_of_get ho
  have hcounted : ∀ Made, Touched boid Made w.broker none (w.mapBroker (countQuote boid)).broker := by
    intro Made
    show Touched boid Made w.broker none (w.broker.countQuote boid)
    rw [hcount]
    exact .set rfl rfl rfl
  have hsame : (w.mapBroker (countQuote boid)).broker.orders.get? boid =
      some { so with eligibleQuotes := so.eligibleQuotes + 1 } := by
    show (w.broker.countQuote boid).orders.get? boid = _
    rw [hcount]
    exact Dict.get?_set_self _ _ _
  unfold fillOrCancel Touches
  refine Effect.Moves.after (M := Eq (w.mapBroker (countQuote boid))) ?_ ?_
  · rintro _ rfl
    exact ⟨.single trivial, rfl⟩
  refine BrokerStep.moves_order ?_ ?_
  · rintro _ o rfl ho'
    obtain rfl := Option.some.inj (hsame.symm.trans ho')
    cases hi : env.instruments.get? so.instrumentKey with
    | none =>
      refine Effect.Moves.throw ?_
      rintro _ rfl
      exact ⟨none, hcounted _⟩
    | some instrument =>
      dsimp only
      -- at the end a market order that has met too little volume too often gives up the rest
      have hend : ∀ Made filled, Effect.Moves (fun _ _ => True)
          (fun w' : World SimulatedBroker S => Touched boid Made w.broker filled w'.broker)
          (do cancelRest env hooks boid quote; return filled)
          (fun filled w' => Touched boid Made w.broker filled w'.broker)
          (fun _ w' => ∃ filled, Touched boid Made w.broker filled w'.broker) := by
        intro Made filled
        refine Effect.Moves.bind ((touches_cancelRest boid quote w.broker).conseq
          (fun _ h => h) (fun _ _ h => h) fun _ _ h => ⟨filled, h⟩) fun _ => ?_
        exact Effect.Moves.pure fun _ h => h
      split
      · rename_i hpos
        refine Effect.Moves.bind
          ((touches_execute hsame instrument reference ⟨_, hpos⟩ quote).conseq
            (fun _ h => h) ?_ ?_) fun filled => hend _ filled
        · intro filled w' hw'
          exact (hcounted _).before (hw'.weaken fun f hf => ⟨instrument, ⟨_, hpos⟩, rfl, rfl, hf⟩)
        · rintro _ w' ⟨filled, hw'⟩
          exact ⟨filled, (hcounted _).before
            (hw'.weaken fun f hf => ⟨instrument, ⟨_, hpos⟩, rfl, rfl, hf⟩)⟩
      · refine Effect.Moves.bind (Effect.Moves.pure ?_) fun filled => hend _ filled
        rintro _ rfl
        exact hcounted _
  · rintro _ rfl
    exact ⟨none, hcounted _⟩

/-- **A fill is what the order and the quote say**, with the volume that is left. -/
theorem touches_matchOrder (ho : w.broker.orders.get? boid = some so) (quote : Quote)
    (liquidity : ℤ) :
    Touches boid (Execution env so quote liquidity) w
      (matchOrder env hooks boid quote liquidity) := by
  unfold matchOrder Touches
  refine BrokerStep.moves_order ?_ ?_
  · rintro _ o rfl ho'
    obtain rfl : so = o := Option.some.inj (ho.symm.trans ho')
    by_cases hearly : quote.receiptTs < so.eligibleAt
    · rw [if_pos hearly]
      exact touches_pure boid _ w
    rw [if_neg hearly]
    -- the quote that triggers an SL-M order fills it at the gap price, any other order at its own
    by_cases hpending : so.status = .triggerPending
    · rw [if_pos hpending]
      cases htrigger : so.triggerPrice with
      | none =>
        refine Effect.Moves.after ?_ (Effect.Moves.pure fun _ h => h)
        rintro _ rfl
        exact ⟨.single trivial, .finish hooks .rejected _ quote.receiptTs ho⟩
      | some trigger =>
        dsimp only
        by_cases hcrossed : crossed so.side trigger quote.ltp = true
        · have hreached : so.reference quote = some (gapPrice so.side trigger quote.ltp) := by
            have hkept : (some trigger).filter (fun t => crossed so.side t quote.ltp) =
                some trigger := Option.filter_some_pos hcrossed
            unfold SimOrder.reference
            rw [if_neg hearly, if_pos hpending, htrigger, hkept]
            rfl
          have hset := trigger_of_get quote.receiptTs ho
          have horder : ((w.mapBroker (SimulatedBroker.trigger boid quote.receiptTs)).notify hooks
              boid).broker.orders.get? boid =
                some { so with status := .open, updatedAt := quote.receiptTs } := by
            rw [World.notify_orders]
            show (w.broker.trigger boid quote.receiptTs).orders.get? boid = _
            rw [hset]
            exact Dict.get?_set_self _ _ _
          have htriggered : ∀ Made, Touched boid Made w.broker none ((w.mapBroker
              (SimulatedBroker.trigger boid quote.receiptTs)).notify hooks boid).broker := by
            intro Made
            have hmoved : Touched boid Made w.broker none
                (w.mapBroker (SimulatedBroker.trigger boid quote.receiptTs)).broker := by
              show Touched boid Made w.broker none (w.broker.trigger boid quote.receiptTs)
              rw [hset]
              exact .set rfl rfl rfl
            exact hmoved.before (.notify hooks boid _)
          rw [hcrossed, if_neg (by simp)]
          refine Effect.Moves.after (M := Eq ((w.mapBroker
            (SimulatedBroker.trigger boid quote.receiptTs)).notify hooks boid)) ?_ ?_
          · rintro _ rfl
            exact ⟨.single trivial, rfl⟩
          · refine (touches_fillOrCancel horder _ quote liquidity).conseq (fun _ h => h) ?_ ?_
            · intro filled w' hw'
              exact (htriggered _).before (hw'.weaken fun f ⟨i, qty, hi, hlots, hcharged⟩ =>
                .made hi hreached hlots hcharged)
            · rintro _ w' ⟨filled, hw'⟩
              exact ⟨filled, (htriggered _).before (hw'.weaken
                fun f ⟨i, qty, hi, hlots, hcharged⟩ => .made hi hreached hlots hcharged)⟩
        -- the trigger is not reached: the order waits
        · rw [if_pos (by simpa using hcrossed)]
          exact touches_pure boid _ w
    · rw [if_neg hpending]
      have hreached : so.reference quote = some quote.ltp := by
        unfold SimOrder.reference
        rw [if_neg hearly, if_neg hpending]
      refine (touches_fillOrCancel ho _ quote liquidity).conseq (fun _ h => h) ?_ ?_
      · intro filled w' hw'
        exact hw'.weaken fun f ⟨i, qty, hi, hlots, hcharged⟩ => .made hi hreached hlots hcharged
      · rintro _ w' ⟨filled, hw'⟩
        exact ⟨filled, hw'.weaken
          fun f ⟨i, qty, hi, hlots, hcharged⟩ => .made hi hreached hlots hcharged⟩
  · rintro _ rfl
    exact ⟨none, .refl ..⟩

/-! ## The loop over the orders -/

/-- The fills of a pass over orders: each with the volume that the ones before it left. -/
inductive Taken (env : SimEnv) (quote : Quote) (b : SimulatedBroker) :
    List String → ℤ → List Fill → Prop
  | stopped (boids : List String) (liquidity : ℤ) : Taken env quote b boids liquidity []
  | passed {boid : String} {rest : List String} {liquidity : ℤ} {fills : List Fill}
      (later : Taken env quote b rest liquidity fills) :
      Taken env quote b (boid :: rest) liquidity fills
  | took {boid : String} {rest : List String} {liquidity : ℤ} {so : SimOrder} {f : Fill}
      {fills : List Fill} (held : b.orders.get? boid = some so) (live : so.status.isLive = true)
      (current : ¬so.sessionDay < quote.receiptTs.istDate)
      (made : Execution env so quote liquidity f)
      (later : Taken env quote b rest (liquidity - f.quantity) fills) :
      Taken env quote b (boid :: rest) liquidity (f :: fills)

/-- A fill of a pass is of an order as it was before. -/
theorem Taken.execution {boids : List String} {fills : List Fill}
    (h : Taken env quote b boids liquidity fills) {f : Fill} (hf : f ∈ fills) :
    ∃ boid ∈ boids, ∃ so left, b.orders.get? boid = some so ∧ so.status.isLive = true ∧
      Execution env so quote left f := by
  induction h with
  | stopped => cases hf
  | passed _ ih =>
    obtain ⟨boid, hmem, hmade⟩ := ih hf
    exact ⟨boid, List.mem_cons_of_mem _ hmem, hmade⟩
  | @took boid rest left so g fills held live current made later ih =>
    rcases List.mem_cons.mp hf with rfl | hlater
    · exact ⟨boid, List.mem_cons_self, so, left, held, live, made⟩
    · obtain ⟨boid', hmem, hmade⟩ := ih hlater
      exact ⟨boid', List.mem_cons_of_mem _ hmem, hmade⟩

/-- What a pass over the orders adds. -/
def Adds (env : SimEnv) (quote : Quote) (b : SimulatedBroker) (boids : List String) (liquidity : ℤ)
    (before after : SimulatedBroker) : Prop :=
  ∃ fills, after.fills = before.fills ++ fills ∧ after.core.volume = before.core.volume ∧
    Taken env quote b boids liquidity fills

/-- An order that is touched and not filled is passed by. -/
theorem Adds.passed {Made : Fill → Prop} {rest : List String} {v : SimulatedBroker}
    (h : Touched boid Made v none b') (hrest : Adds env quote b rest liquidity b' b'') :
    Adds env quote b (boid :: rest) liquidity v b'' := by
  obtain ⟨fills, hfills, hvolume, htaken⟩ := hrest
  refine ⟨fills, ?_, hvolume.trans h.volume, .passed htaken⟩
  rw [hfills, h.fills]
  simp

theorem adds_matchAll (quote : Quote) (boids : List String) (liquidity : ℤ) (hnodup : boids.Nodup)
    (w : World SimulatedBroker S)
    (hsame : ∀ k ∈ boids, w.broker.orders.get? k = b.orders.get? k) :
    Effect.Moves (fun _ _ => True) (Eq w)
      (matchAll env hooks quote quote.receiptTs.istDate boids liquidity)
      (fun _ w' => Adds env quote b boids liquidity w.broker w'.broker)
      (fun _ w' => Adds env quote b boids liquidity w.broker w'.broker) := by
  induction boids generalizing liquidity w with
  | nil =>
    refine Effect.Moves.pure ?_
    rintro _ rfl
    exact ⟨[], (List.append_nil _).symm, rfl, .stopped _ _⟩
  | cons boid rest ih =>
    obtain ⟨hnew, hrest⟩ := List.nodup_cons.mp hnodup
    -- what touches this order leaves the later ones
    have hlater : ∀ {Made filled} {w' : World SimulatedBroker S},
        Touched boid Made w.broker filled w'.broker →
        ∀ k ∈ rest, w'.broker.orders.get? k = b.orders.get? k := by
      intro Made filled w' h k hk
      have hne : k ≠ boid := by
        rintro rfl
        exact hnew hk
      exact (h.others k hne).trans (hsame k (List.mem_cons_of_mem _ hk))
    have hrefl := Touched.refl boid (fun _ => True) w.broker
    unfold matchAll
    refine BrokerStep.moves_order ?_ ?_
    · rintro _ so rfl ho
      have hb : b.orders.get? boid = some so := (hsame boid List.mem_cons_self).symm.trans ho
      by_cases hlive : so.status.isLive = true
      · rw [if_neg (by simp [hlive])]
        by_cases hold : so.sessionDay < quote.receiptTs.istDate
        · have hfinish : Touched boid (fun _ => True) w.broker none
              (w.finish hooks boid .expired "day order expired" quote.receiptTs).broker :=
            .finish hooks .expired _ quote.receiptTs ho
          rw [if_pos hold]
          refine Effect.Moves.after (M := Eq (w.finish hooks boid .expired "day order expired"
            quote.receiptTs)) ?_ ?_
          · rintro _ rfl
            exact ⟨.single trivial, rfl⟩
          · exact (ih liquidity hrest _ (hlater hfinish)).conseq (fun _ h => h)
              (fun _ _ h => .passed hfinish h) fun _ _ h => .passed hfinish h
        · rw [if_neg hold]
          have hafter : ∀ {filled : Option Fill} {w' w'' : World SimulatedBroker S},
              Touched boid (Execution env so quote liquidity) w.broker filled w'.broker →
              Adds env quote b rest (liquidity - (filled.map Fill.quantity).getD 0) w'.broker
                w''.broker → Adds env quote b (boid :: rest) liquidity w.broker w''.broker := by
            rintro filled w' w'' htouched hadds
            cases filled with
            | none => exact .passed htouched (by simpa using hadds)
            | some f =>
              obtain ⟨fills, hfills, hvolume, htaken⟩ := hadds
              refine ⟨f :: fills, ?_, hvolume.trans htouched.volume,
                .took hb hlive hold (htouched.made f rfl) htaken⟩
              rw [hfills, htouched.fills]
              simp
          refine Effect.Moves.bind ((touches_matchOrder ho quote liquidity).conseq
            (fun _ h => h) (fun _ _ h => h) ?_) fun filled => ?_
          · rintro _ w' ⟨filled, htouched⟩
            exact hafter htouched ⟨[], (List.append_nil _).symm, rfl, .stopped _ _⟩
          · intro w' htouched
            refine Effect.Moves.bind (Q := fun _ (w'' : World SimulatedBroker S) =>
              Adds env quote b (boid :: rest) liquidity w.broker w''.broker)
              ((ih _ hrest w' (hlater htouched)).conseq (fun _ h => h)
                (fun _ _ h => hafter htouched h) fun _ _ h => hafter htouched h)
              (fun _ => Effect.Moves.pure fun _ h => h) w' rfl
      · rw [if_pos (by simp [hlive])]
        exact (ih liquidity hrest w fun k hk => hsame k (List.mem_cons_of_mem _ hk)).conseq
          (fun _ h => h) (fun _ _ h => .passed hrefl h) fun _ _ h => .passed hrefl h
    · rintro _ rfl
      exact ⟨[], (List.append_nil _).symm, rfl, .stopped _ _⟩

/-! ## A quote -/

theorem nodup_ordersOf (b : SimulatedBroker) (instrumentKey : String) :
    (b.ordersOf instrumentKey).Nodup := by
  unfold ordersOf
  rw [(List.perm_insertionSort _ _).nodup_iff]
  exact b.orders.nodup_keys.sublist (List.filter_sublist.map _)

theorem mem_ordersOf (b : SimulatedBroker) (instrumentKey boid : String) :
    boid ∈ b.ordersOf instrumentKey ↔
      ∃ so, b.orders.get? boid = some so ∧ so.instrumentKey = instrumentKey := by
  unfold ordersOf
  rw [List.mem_insertionSort, List.mem_map]
  constructor
  · rintro ⟨⟨k, so⟩, hmem, rfl⟩
    obtain ⟨hentry, hkey⟩ := List.mem_filter.mp hmem
    exact ⟨so, (Dict.mem_entries_iff ..).mp hentry, of_decide_eq_true hkey⟩
  · rintro ⟨so, hso, hkey⟩
    exact ⟨(boid, so), List.mem_filter.mpr ⟨(Dict.mem_entries_iff ..).mpr hso,
      decide_eq_true hkey⟩, rfl⟩

/-- The shares a quote may fill. -/
def liquidityAt (env : SimEnv) (b : SimulatedBroker) (quote : Quote) : ℤ :=
  ⌊env.config.participation * b.intervalVolume quote quote.receiptTs.istDate⌋

/-- **What a quote does**, however it ends: it fills in the order of the ids, and it is what
the next quote's volume is counted from. -/
theorem onQuote_spec (env : SimEnv) (hooks : Hooks S) (quote : Quote)
    (w : World SimulatedBroker S) :
    let b' := (onQuote env hooks quote w).state.broker
    ∃ fills, b'.fills = w.broker.fills ++ fills ∧
      b'.core.volume =
        w.broker.core.volume.set quote.instrumentKey (quote.receiptTs.istDate, quote.volumeCum) ∧
      Taken env quote w.broker (w.broker.ordersOf quote.instrumentKey)
        (liquidityAt env w.broker quote) fills := by
  let settled := w.mapBroker (settle quote.receiptTs.istDate)
  let observed := settled.mapBroker (observe quote quote.receiptTs.istDate)
  obtain ⟨cash, unsettled, hsettle, -⟩ := w.broker.settle_spec quote.receiptTs.istDate
  have hsettled : settled.broker = { w.broker with
      core := { w.broker.core with cash := cash, unsettled := unsettled } } := hsettle
  have hobserved : observed.broker.orders = w.broker.orders ∧
      observed.broker.fills = w.broker.fills ∧ observed.broker.core.volume =
        w.broker.core.volume.set quote.instrumentKey
          (quote.receiptTs.istDate, quote.volumeCum) := by
    show (observe quote _ settled.broker).orders = _ ∧ (observe quote _ settled.broker).fills = _ ∧
      (observe quote _ settled.broker).core.volume = _
    rw [hsettled]
    exact ⟨rfl, rfl, rfl⟩
  -- settling moves money only, so the volume since the last quote is as before
  have hinterval : settled.broker.intervalVolume quote quote.receiptTs.istDate =
      w.broker.intervalVolume quote quote.receiptTs.istDate := by
    rw [hsettled]
    rfl
  have hordersOf : observed.broker.ordersOf quote.instrumentKey =
      w.broker.ordersOf quote.instrumentKey := by
    unfold ordersOf
    rw [hobserved.1]
  -- the rest is one pass over the orders, and saving adds no fill
  have hpass : Effect.Moves (fun _ _ => True) (Eq w) (onQuote env hooks quote)
      (fun _ w' => Adds env quote w.broker (w.broker.ordersOf quote.instrumentKey)
        (liquidityAt env w.broker quote) observed.broker w'.broker)
      (fun _ w' => Adds env quote w.broker (w.broker.ordersOf quote.instrumentKey)
        (liquidityAt env w.broker quote) observed.broker w'.broker) := by
    unfold onQuote
    refine Effect.Moves.after (M := Eq settled) ?_ ?_
    · rintro _ rfl
      exact ⟨.single trivial, rfl⟩
    refine Effect.Moves.read ?_
    rintro _ rfl
    refine Effect.Moves.after (M := Eq observed) ?_ ?_
    · rintro _ rfl
      exact ⟨.single trivial, rfl⟩
    refine Effect.Moves.read ?_
    rintro _ rfl
    rw [hinterval, hordersOf]
    refine Effect.Moves.bind (adds_matchAll quote _ _ (nodup_ordersOf _ _) observed
      fun k _ => by rw [hobserved.1]) fun fills => ?_
    refine Effect.Moves.read fun w' hw' => ?_
    split
    · refine Effect.Moves.after ?_ (Effect.Moves.pure fun _ h => h)
      rintro _ rfl
      exact ⟨.single trivial, hw'⟩
    · refine Effect.Moves.pure ?_
      rintro _ rfl
      exact hw'
  obtain ⟨fills, hfills, hvolume, htaken⟩ := hpass.holds rfl
  rw [hobserved.2.1] at hfills
  rw [hobserved.2.2] at hvolume
  exact ⟨fills, hfills, hvolume, htaken⟩

/-! ## The other calls -/

/-- Nothing is filled, and no volume seen. -/
structure Unfilled (b b' : SimulatedBroker) : Prop where
  fills : b'.fills = b.fills
  volume : b'.core.volume = b.core.volume

theorem Unfilled.trans (h : Unfilled b b') (h' : Unfilled b' b'') : Unfilled b b'' :=
  ⟨h'.fills.trans h.fills, h'.volume.trans h.volume⟩

theorem Touched.unfilled {Made : Fill → Prop} (h : Touched boid Made b none b') : Unfilled b b' :=
  ⟨h.fills.trans (List.append_nil _), h.volume⟩

/-- A computation that fills nothing, however it ends. -/
def FillsNothing {α : Type} (b : SimulatedBroker)
    (m : EStateM Exc (World SimulatedBroker S) α) : Prop :=
  Effect.Moves (fun _ _ => True) (fun w => Unfilled b w.broker) m (fun _ w => Unfilled b w.broker)
    (fun _ w => Unfilled b w.broker)

theorem FillsNothing.state {α : Type} {m : EStateM Exc (World SimulatedBroker S) α}
    (h : FillsNothing w.broker m) : Unfilled w.broker (m w).state.broker := by
  have hstate : (fun w' : World SimulatedBroker S => Unfilled w.broker w'.broker) (m w).state :=
    Effect.Moves.holds h ⟨rfl, rfl⟩
  exact hstate

theorem unfilled_finish {status : OrderStatus} {message : String} {ts : Instant}
    {w : World SimulatedBroker S} (h : Unfilled b w.broker) (ho : w.broker.orders.get? boid = some so) :
    Unfilled b (w.finish hooks boid status message ts).broker := by
  have htouched : Touched boid (fun _ => True) w.broker none
      (w.finish hooks boid status message ts).broker := .finish hooks status message ts ho
  exact h.trans htouched.unfilled

theorem fillsNothing_expireAll (hooks : Hooks S) (now : Instant) (b : SimulatedBroker)
    (boids : List String) : FillsNothing b (expireAll hooks now boids) := by
  induction boids with
  | nil => exact Effect.Moves.pure fun _ h => h
  | cons boid rest ih =>
    unfold expireAll
    refine BrokerStep.moves_order ?_ fun _ h => h
    intro w o hw ho
    split
    · refine Effect.Moves.after (M := fun w' : World SimulatedBroker S => Unfilled b w'.broker) ?_
        (Effect.Moves.bind ih fun _ => Effect.Moves.pure fun _ h => h)
      rintro _ rfl
      exact ⟨.single trivial, unfilled_finish hw ho⟩
    · refine ih.conseq ?_ (fun _ _ h => h) fun _ _ h => h
      rintro _ rfl
      exact hw

theorem fillsNothing_expireSession (hooks : Hooks S) (now : Instant) (b : SimulatedBroker) :
    FillsNothing b (expireSession hooks now) := by
  unfold expireSession
  refine Effect.Moves.read fun w hw => ?_
  refine Effect.Moves.bind ((fillsNothing_expireAll hooks now b _).conseq ?_ (fun _ _ h => h)
    fun _ _ h => h) fun expired => ?_
  · rintro _ rfl
    exact hw
  · split
    · exact Effect.Moves.change fun _ h => ⟨.single trivial, ⟨h.fills, h.volume⟩⟩
    · exact Effect.Moves.pure fun _ h => h

theorem fillsNothing_cancelOrder (hooks : Hooks S) (now : Instant) (boid : String)
    (b : SimulatedBroker) : FillsNothing b (cancelOrder hooks now boid) := by
  unfold cancelOrder
  refine BrokerStep.moves_order ?_ fun _ h => h
  intro w o hw ho
  have hend : FillsNothing b (getOrder boid >>= fun o => pure (ack o "") :
      EStateM Exc (World SimulatedBroker S) BrokerAck) := by
    refine BrokerStep.moves_order ?_ fun _ h => h
    intro w' o' hw' _
    refine Effect.Moves.pure ?_
    rintro _ rfl
    exact hw'
  split
  · refine Effect.Moves.after (M := fun w' : World SimulatedBroker S => Unfilled b w'.broker) ?_
      (Effect.Moves.after (fun _ h => ⟨.single trivial, ⟨h.fills, h.volume⟩⟩) hend)
    rintro _ rfl
    exact ⟨.single trivial, unfilled_finish hw ho⟩
  · refine hend.conseq ?_ (fun _ _ h => h) fun _ _ h => h
    rintro _ rfl
    exact hw

theorem fillsNothing_getFunds (now : Instant) (b : SimulatedBroker) :
    FillsNothing b (getFunds now : EStateM Exc (World SimulatedBroker S) Funds) := by
  unfold getFunds
  refine Effect.Moves.after (M := fun w => Unfilled b w.broker) ?_ ?_
  · intro w hw
    refine ⟨.single trivial, hw.trans ?_⟩
    obtain ⟨cash, unsettled, hsettle, -⟩ := w.broker.settle_spec now.istDate
    show Unfilled w.broker (w.broker.settle now.istDate)
    rw [hsettle]
    exact ⟨rfl, rfl⟩
  · refine Effect.Moves.read fun w hw => ?_
    dsimp only
    split
    · refine Effect.Moves.pure ?_
      rintro _ rfl
      exact hw
    · refine Effect.Moves.throw ?_
      rintro _ rfl
      exact hw

theorem fillsNothing_placeOrder (env : SimEnv) (hooks : Hooks S) (now : Instant) (order : Order)
    (b : SimulatedBroker) : FillsNothing b (placeOrder env hooks now order) := by
  unfold placeOrder
  refine Effect.Moves.read fun w hw => ?_
  cases w.broker.find order.clientOrderId with
  | some existing =>
    refine Effect.Moves.pure ?_
    rintro _ rfl
    exact hw
  | none =>
    refine Effect.Moves.read ?_
    rintro _ rfl
    refine BrokerStep.moves_ofExcept ?_ ?_
    · intro checked _
      refine BrokerStep.moves_ofExcept ?_ ?_
      · intro reserved _
        refine Effect.Moves.after ?_ (Effect.Moves.pure fun _ h => h)
        rintro _ rfl
        refine ⟨.single trivial, ⟨?_, ?_⟩⟩
        · rw [World.notify_fills]
          exact hw.fills
        · rw [World.notify_core]
          exact hw.volume
      · rintro _ _ - rfl
        exact hw
    · rintro _ _ - rfl
      exact hw

/-- A modification fills nothing, though it may end an order. -/
theorem unfilled_modifyOrder (env : SimEnv) (hooks : Hooks S) (now : Instant) (boid : String)
    (qty : Option ℤ) (price trigger : Option ℚ) (w : World SimulatedBroker S) :
    Unfilled w.broker (modifyOrder env hooks now boid qty price trigger w).state.broker := by
  refine modifyOrder_cases hooks (P := fun w' => Unfilled w.broker w'.broker) ⟨rfl, rfl⟩ ?_ ?_
  · exact fun _ _ _ _ => ⟨rfl, rfl⟩
  · intro so instrument _ _
    obtain ⟨-, -, hfills, -, hcore⟩ :=
      amendedWorld_broker hooks boid (so.amended qty trigger now) now w
    refine ⟨hfills, ?_⟩
    rw [hcore]

end SimulatedBroker

namespace PublicOp

open SimulatedBroker

variable {S : Type} (env : SimEnv) (hooks : Hooks S)

/-- The quote a call feeds. -/
def quote : PublicOp → Option Quote
  | call (.onQuote quote) => some quote
  | _ => none

theorem quote_some {op : PublicOp} {q : Quote} (h : op.quote = some q) : op = call (.onQuote q) := by
  unfold PublicOp.quote at h
  split at h
  · cases h
    rfl
  · cases h

/-- Only quotes fill. -/
theorem unfilled_after {op : PublicOp} (h : op.quote = none) (w : World SimulatedBroker S) :
    Unfilled w.broker (op.after env hooks w).broker := by
  have hends : ∀ {α : Type} {m : EStateM Exc (World SimulatedBroker S) α},
      FillsNothing w.broker m → Unfilled w.broker
        ((m >>= fun _ => pure ⟨⟩ : EStateM Exc (World SimulatedBroker S) PUnit) w).state.broker := by
    intro α m hm
    rw [Effect.state_bind_pure]
    exact hm.state
  cases op with
  | call op =>
    cases op with
    | placeOrder now order => exact hends (fillsNothing_placeOrder env hooks now order _)
    | cancelOrder now boid => exact hends (fillsNothing_cancelOrder hooks now boid _)
    | onQuote quote => cases h
    | expireSession now => exact (fillsNothing_expireSession hooks now _).state
    | getFunds now => exact hends (fillsNothing_getFunds now _)
  | modifyOrder now boid qty price trigger =>
    exact unfilled_modifyOrder env hooks now boid qty price trigger w

end PublicOp

end RakshaQuant
