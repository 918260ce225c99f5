import RakshaQuant.Brokers.Simulated.AmendedRuns
import RakshaQuant.Brokers.Simulated.Executions

/-! No fill is better than the market. The price moves at least half a tick against the
order before it is rounded against it, so a buy ends above the last price, and a sale below it
unless the last price is itself below one tick: a price is never less than that. -/

namespace RakshaQuant

/-- `adverse_price` with the spread and the impact as one fraction. -/
def priceAt (cost reference : ℚ) (side : Side) (tick : ℚ) : ℚ :=
  let move := max (reference * cost) (tick / 2)
  let raw := match side with
    | .buy => reference + move
    | .sell => reference - move
  max (roundToTick raw tick side) tick

section priceAt

variable {cost cost' reference tick : ℚ}

theorem roundToTick_mono (htick : 0 < tick) (side : Side) {price price' : ℚ} (h : price ≤ price') :
    roundToTick price tick side ≤ roundToTick price' tick side := by
  have hsteps : price / tick ≤ price' / tick := div_le_div_of_nonneg_right h htick.le
  unfold roundToTick
  cases side with
  | buy =>
    have hceil : (⌈price / tick⌉ : ℚ) ≤ ⌈price' / tick⌉ := by exact_mod_cast Int.ceil_mono hsteps
    exact mul_le_mul_of_nonneg_right hceil htick.le
  | sell =>
    have hfloor : (⌊price / tick⌋ : ℚ) ≤ ⌊price' / tick⌋ := by
      exact_mod_cast Int.floor_mono hsteps
    exact mul_le_mul_of_nonneg_right hfloor htick.le

/-- The floor of one tick is on the grid. -/
theorem max_onGrid (htick : 0 < tick) (n : ℤ) :
    ∃ m : ℤ, 0 < m ∧ max (n * tick) tick = m * tick := by
  by_cases hpos : 0 < n
  · refine ⟨n, hpos, max_eq_left ?_⟩
    have hone : (1 : ℚ) ≤ n := by exact_mod_cast hpos
    calc tick = 1 * tick := (one_mul _).symm
      _ ≤ n * tick := mul_le_mul_of_nonneg_right hone htick.le
  · refine ⟨1, Int.one_pos, ?_⟩
    have hle : (n : ℚ) ≤ 0 := by exact_mod_cast not_lt.mp hpos
    have hnonpos : n * tick ≤ 0 := mul_nonpos_of_nonpos_of_nonneg hle htick.le
    rw [max_eq_right (by linarith)]
    push_cast
    exact (one_mul _).symm

/-- A fill price is a whole number of ticks. -/
theorem priceAt_onGrid (htick : 0 < tick) (side : Side) :
    ∃ n : ℤ, 0 < n ∧ priceAt cost reference side tick = n * tick := by
  cases side with
  | buy => exact max_onGrid htick ⌈_⌉
  | sell => exact max_onGrid htick ⌊_⌋

theorem lt_priceAt_buy (htick : 0 < tick) : reference < priceAt cost reference .buy tick := by
  have hmove : tick / 2 ≤ max (reference * cost) (tick / 2) := le_max_right _ _
  have hceil : (reference + max (reference * cost) (tick / 2)) / tick ≤
      ⌈(reference + max (reference * cost) (tick / 2)) / tick⌉ := Int.le_ceil _
  rw [div_le_iff₀ htick] at hceil
  refine lt_max_of_lt_left ?_
  unfold roundToTick
  dsimp only
  linarith

theorem priceAt_sell_le (htick : 0 < tick) :
    priceAt cost reference .sell tick ≤ max reference tick := by
  have hmove : tick / 2 ≤ max (reference * cost) (tick / 2) := le_max_right _ _
  have hfloor : (⌊(reference - max (reference * cost) (tick / 2)) / tick⌋ : ℚ) ≤
      (reference - max (reference * cost) (tick / 2)) / tick := Int.floor_le _
  rw [le_div_iff₀ htick] at hfloor
  refine max_le_max ?_ le_rfl
  unfold roundToTick
  dsimp only
  linarith

/-- A larger cost is never for the better. -/
theorem priceAt_mono (htick : 0 < tick) (hreference : 0 < reference) (h : cost ≤ cost') :
    priceAt cost reference .buy tick ≤ priceAt cost' reference .buy tick ∧
      priceAt cost' reference .sell tick ≤ priceAt cost reference .sell tick := by
  have hmove : max (reference * cost) (tick / 2) ≤ max (reference * cost') (tick / 2) :=
    max_le_max (mul_le_mul_of_nonneg_left h hreference.le) le_rfl
  constructor
  · refine max_le_max (roundToTick_mono htick .buy ?_) le_rfl
    dsimp only
    linarith
  · refine max_le_max (roundToTick_mono htick .sell ?_) le_rfl
    dsimp only
    linarith

end priceAt

/-- The half spread and the impact, as a fraction of the reference. -/
def SimEnv.costFraction (env : SimEnv) (instrumentKey : String) (quantity : ℤ) : ℚ :=
  let context := (env.market.get? instrumentKey).getD .unknown
  env.config.halfSpreadBps context.advInr / 10000 +
    env.config.impactFraction env.sqrt quantity context

namespace SimulatedBroker

variable {env : SimEnv} {b : SimulatedBroker} {boid : String} {so : SimOrder} {quote : Quote}
  {left : ℤ} {f : Fill}

/-- A fill of an order at a quote, not better than the market was. -/
structure NoBetter (tick ltp : ℚ) (so : SimOrder) (f : Fill) : Prop where
  onGrid : ∃ n : ℤ, 0 < n ∧ f.price = n * tick
  buy : f.side = .buy → ltp < f.price
  sell : f.side = .sell → f.price ≤ max ltp tick
  stopBuy : f.side = .buy → so.status = .triggerPending → ∀ t ∈ so.triggerPrice, t ≤ f.price
  stopSell : f.side = .sell → so.status = .triggerPending → ∀ t ∈ so.triggerPrice, f.price ≤ t

/-- What an order is matched at, against the last price and its trigger. -/
theorem reference_adverse {reference : ℚ} (h : so.reference quote = some reference) :
    (so.side = .buy → quote.ltp ≤ reference ∧
      (so.status = .triggerPending → ∀ t ∈ so.triggerPrice, t ≤ reference)) ∧
    (so.side = .sell → reference ≤ quote.ltp ∧
      (so.status = .triggerPending → ∀ t ∈ so.triggerPrice, reference ≤ t ∧ 0 < t)) := by
  unfold SimOrder.reference at h
  split at h
  · cases h
  split at h
  · rename_i hpending
    cases ht : so.triggerPrice with
    | none =>
      rw [ht] at h
      cases h
    | some t =>
      rw [ht] at h
      cases hcrossed : crossed so.side t quote.ltp with
      | false =>
        rw [Option.filter_some_neg (by simp [hcrossed])] at h
        cases h
      | true =>
        have hkept : (some t).filter (fun t => crossed so.side t quote.ltp) = some t :=
          Option.filter_some_pos hcrossed
        rw [hkept, Option.map_some, Option.some.injEq] at h
        subst h
        constructor
        · intro hside
          rw [hside]
          refine ⟨le_max_right _ _, fun _ t' ht' => ?_⟩
          cases ht'
          exact le_max_left _ _
        · intro hside
          rw [hside] at hcrossed ⊢
          have hreached : quote.ltp ≤ t := of_decide_eq_true hcrossed
          refine ⟨min_le_right _ _, fun _ t' ht' => ?_⟩
          cases ht'
          exact ⟨min_le_left _ _, quote.ltp_pos.trans_le hreached⟩
  · rename_i hplain
    cases h
    exact ⟨fun _ => ⟨le_rfl, fun hpending => absurd hpending hplain⟩,
      fun _ => ⟨le_rfl, fun hpending => absurd hpending hplain⟩⟩

/-- A price on the tick is not below it. -/
theorem tick_le_of_onTick {t tick : ℚ} (htick : 0 < tick) (ht : 0 < t) (h : onTick t tick = true) :
    tick ≤ t := by
  have hsteps : t / tick = ⌊t / tick⌋ := of_decide_eq_true h
  have hpos : 0 < t / tick := div_pos ht htick
  rw [hsteps] at hpos
  have hone : (1 : ℚ) ≤ ⌊t / tick⌋ := by
    have : 0 < ⌊t / tick⌋ := by exact_mod_cast hpos
    exact_mod_cast this
  rw [← hsteps, le_div_iff₀ htick, one_mul] at hone
  exact hone

/-- **A fill is not better than the market.** -/
theorem Execution.noBetter (h : Execution env so quote left f)
    (hticks : ∀ t ∈ so.triggerPrice, ∀ instrument,
      env.instruments.get? so.instrumentKey = some instrument →
      onTick t instrument.tickSize = true) :
    ∃ instrument, env.instruments.get? f.instrumentKey = some instrument ∧
      NoBetter instrument.tickSize quote.ltp so f := by
  obtain ⟨known, reached, -, dpApplies, charges, -, rfl⟩ := h
  rename_i instrument reference qty
  have htick := instrument.tickSize_pos
  obtain ⟨hbuy, hsell⟩ := reference_adverse reached
  refine ⟨instrument, known, ?_⟩
  have hprice : (env.newFill so instrument reference qty charges quote).price =
      priceAt (env.costFraction so.instrumentKey qty.1) reference so.side instrument.tickSize := rfl
  refine ⟨?_, ?_, ?_, ?_, ?_⟩
  · rw [hprice]
    exact priceAt_onGrid htick so.side
  · intro hside
    have hso : so.side = .buy := hside
    rw [hprice, hso]
    exact (hbuy hso).1.trans_lt (lt_priceAt_buy htick)
  · intro hside
    have hso : so.side = .sell := hside
    rw [hprice, hso]
    exact (priceAt_sell_le htick).trans (max_le_max (hsell hso).1 le_rfl)
  · intro hside hpending t ht
    have hso : so.side = .buy := hside
    rw [hprice, hso]
    exact ((hbuy hso).2 hpending t ht).trans (lt_priceAt_buy htick).le
  · intro hside hpending t ht
    have hso : so.side = .sell := hside
    obtain ⟨hle, hpos⟩ := (hsell hso).2 hpending t ht
    rw [hprice, hso]
    exact (priceAt_sell_le htick).trans
      (max_le hle (tick_le_of_onTick htick hpos (hticks t ht instrument known)))

end SimulatedBroker

namespace PublicOp

open SimulatedBroker

variable {S : Type} (env : SimEnv) (hooks : Hooks S)

/-- The fills a call makes, and the quote they are made at. -/
theorem after_fills (op : PublicOp) (w : World SimulatedBroker S) :
    ∃ fills, (op.after env hooks w).broker.fills = w.broker.fills ++ fills ∧
      ∀ f ∈ fills, ∃ quote boid so left, op.quote = some quote ∧
        w.broker.orders.get? boid = some so ∧ so.instrumentKey = quote.instrumentKey ∧
        Execution env so quote left f := by
  cases hop : op.quote with
  | none =>
    refine ⟨[], ?_, fun f hf => by cases hf⟩
    rw [(unfilled_after env hooks hop w).fills, List.append_nil]
  | some quote =>
    obtain rfl := quote_some hop
    obtain ⟨fills, hfills, -, htaken⟩ := onQuote_spec env hooks quote w
    refine ⟨fills, ?_, fun f hf => ?_⟩
    · rw [← hfills]
      exact congrArg (fun w : World SimulatedBroker S => w.broker.fills)
        (Effect.state_bind_pure _ _ _)
    · obtain ⟨boid, hmem, so, left, hso, -, hmade⟩ := htaken.execution hf
      obtain ⟨so', hso', hkey⟩ := (mem_ordersOf _ _ _).mp hmem
      obtain rfl := Option.some.inj (hso.symm.trans hso')
      exact ⟨quote, boid, so, left, rfl, hso, hkey, hmade⟩

/-- **No fill is better than the market**, in any run: it is on the tick, a buy is above the
last price and a sale not above it, or at one tick where the price is below that, and a stop
is not better than its trigger. And a larger cost is never for the better. -/
theorem fills_no_better (startingCash : ℚ) (desk : S) (ops : List PublicOp) (op : PublicOp) :
    let w := run env hooks ⟨.init startingCash, desk⟩ ops
    (∃ fills, (op.after env hooks w).broker.fills = w.broker.fills ++ fills ∧
      ∀ f ∈ fills, ∃ quote boid so instrument reference, op.quote = some quote ∧
        w.broker.orders.get? boid = some so ∧ f.brokerOrderId = some boid ∧
        f.instrumentKey = quote.instrumentKey ∧
        env.instruments.get? f.instrumentKey = some instrument ∧
        NoBetter instrument.tickSize quote.ltp so f ∧
        f.price = priceAt (env.costFraction f.instrumentKey f.quantity) reference f.side
          instrument.tickSize) ∧
    ∀ {tick reference cost cost' : ℚ}, 0 < tick → 0 < reference → cost ≤ cost' →
      priceAt cost reference .buy tick ≤ priceAt cost' reference .buy tick ∧
        priceAt cost' reference .sell tick ≤ priceAt cost reference .sell tick := by
  intro w
  have hticks : TriggersOnTick env (SimulatedBroker.init startingCash) := fun _ _ h => by cases h
  obtain ⟨hsound, honTick⟩ := run_sound env hooks (w := ⟨.init startingCash, desk⟩) ops
    (Sound.init env startingCash) hticks
  obtain ⟨fills, hfills, hmade⟩ := after_fills env hooks op w
  refine ⟨⟨fills, hfills, fun f hf => ?_⟩, priceAt_mono⟩
  obtain ⟨quote, boid, so, left, hquote, hso, hkey, hexecution⟩ := hmade f hf
  obtain ⟨instrument, hknown, hbetter⟩ := hexecution.noBetter (honTick boid so hso)
  obtain ⟨hknown', -, -, dpApplies, charges, -, rfl⟩ := hexecution
  rename_i instrument' reference qty
  obtain rfl : instrument' = instrument := Option.some.inj (hknown'.symm.trans hknown)
  refine ⟨quote, boid, so, instrument', reference, hquote, hso, ?_, hkey, hknown, hbetter, rfl⟩
  rw [← (hsound.registered.ids boid so hso).1]
  rfl

end PublicOp

/-! ## A sale below one tick -/

namespace Sample

theorem paise_pos : (0 : ℚ) < 1 / 50 := by norm_num

theorem dead_nonneg : (0 : ℤ) ≤ 40 := by decide

/-- A quote at two paise, below the tick of five. -/
def deadQuote (seconds volume : ℤ) (h : 0 ≤ volume) : Quote :=
  { quote seconds volume h with ltp := 1 / 50, ltp_pos := paise_pos }

/-- The last price of a sale is above the price of the quote. -/
theorem deadQuote_fill : ∃ f ∈ (PublicOp.after market unheard
    (PublicOp.run market unheard ⟨.init 100000, ()⟩ deliverySale)
    (.call (.onQuote (deadQuote 5 40 dead_nonneg)))).broker.fills.drop
      (PublicOp.run market unheard ⟨.init 100000, ()⟩ deliverySale).broker.fills.length,
    f.side = .sell ∧ 1 / 50 < f.price := by
  decide +kernel

end Sample

namespace PublicOp

/-- The monotone costs at a reference of one hundred. -/
theorem fills_no_better_hundred :
    priceAt 0 100 .buy (1 / 20) ≤ priceAt (1 / 100) 100 .buy (1 / 20) :=
  ((fills_no_better Sample.market Sample.unheard 100000 () Sample.deliverySale
    (.call (.getFunds 0))).2 (by norm_num) (by norm_num) (by norm_num)).1

/-- A sale at one tick may be above the last price. -/
theorem sale_above_market :
    ¬∀ (S : Type) (env : SimEnv) (hooks : Hooks S) (startingCash : ℚ) (desk : S)
      (ops : List PublicOp) (op : PublicOp),
      let w := run env hooks ⟨.init startingCash, desk⟩ ops
      ∃ fills, (op.after env hooks w).broker.fills = w.broker.fills ++ fills ∧
        ∀ f ∈ fills, ∃ quote, op.quote = some quote ∧ (f.side = .sell → f.price ≤ quote.ltp) := by
  intro h
  obtain ⟨fills, hfills, hfair⟩ := h Unit Sample.market Sample.unheard 100000 ()
    Sample.deliverySale (.call (.onQuote (Sample.deadQuote 5 40 Sample.dead_nonneg)))
  obtain ⟨f, hf, hside, habove⟩ := Sample.deadQuote_fill
  rw [hfills, List.drop_left] at hf
  obtain ⟨quote, hquote, hsell⟩ := hfair f hf
  cases hquote
  exact absurd (hsell hside) (not_le.mpr habove)

end PublicOp

end RakshaQuant
