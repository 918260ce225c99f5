import RakshaQuant.Brokers.Simulated.AmendedRuns
import RakshaQuant.Brokers.Simulated.Executions

/-! The participation cap. One pass over the orders shares what a quote allows, in the order
the orders were placed; and the volumes between the quotes of a day add up to the last
cumulative volume, where no quote of another day comes between them. -/

namespace RakshaQuant

/-- Ids of six figures are in the order of their numbers. -/
theorem simId_lt {bookId : String} {m n : ℕ} (hmn : m < n) (hn : n < 1000000) :
    simId bookId m < simId bookId n := by
  have hpadded : Numeral.padded 6 m < Numeral.padded 6 n := Numeral.padded_lt (by decide) hmn hn
  rw [String.lt_iff] at hpadded ⊢
  simp only [simId, String.toList_append]
  exact List.append_left_lt hpadded

namespace SimulatedBroker

variable {env : SimEnv} {b : SimulatedBroker} {quote : Quote} {boids : List String} {left : ℤ}
  {fills : List Fill}

/-! ## What one quote fills -/

theorem lots_nonneg_le (so : SimOrder) (instrument : Instrument) (left : ℤ) :
    so.lots instrument left ≤ max 0 left := by
  have hmod := Int.emod_nonneg (min so.remaining (max 0 left)) instrument.lotSize_pos.ne'
  have hmin : min so.remaining (max 0 left) ≤ max 0 left := min_le_right _ _
  show min so.remaining (max 0 left) - min so.remaining (max 0 left) % instrument.lotSize ≤ _
  omega

/-- What a fill takes: whole lots that remain, within what is left. -/
structure Takes (env : SimEnv) (so : SimOrder) (left : ℤ) (f : Fill) : Prop where
  ofOrder : f.brokerOrderId = some so.brokerOrderId
  lots : ∃ instrument, env.instruments.get? so.instrumentKey = some instrument ∧
    f.quantity = so.lots instrument left ∧ instrument.lotSize ∣ f.quantity
  remaining : f.quantity ≤ so.remaining
  within : f.quantity ≤ left

theorem Execution.takes {so : SimOrder} {f : Fill} (h : Execution env so quote left f) :
    Takes env so left f := by
  obtain ⟨known, -, lots, dpApplies, charges, -, rfl⟩ := h
  rename_i instrument reference qty
  have hlots : (env.newFill so instrument reference qty charges quote).quantity =
      so.lots instrument left := lots
  have hpos := (env.newFill so instrument reference qty charges quote).quantity_pos
  have hle := lots_nonneg_le so instrument left
  refine ⟨rfl, ⟨instrument, known, hlots, ?_⟩, ?_, ?_⟩
  · rw [hlots]
    exact Int.dvd_self_sub_emod
  · rw [hlots]
    exact so.lots_le instrument left
  · omega

/-- Together the fills take what is allowed at most. -/
theorem Taken.total (h : Taken env quote b boids left fills) :
    (fills.map Fill.quantity).sum ≤ max 0 left := by
  induction h with
  | stopped => exact le_max_left _ _
  | passed _ ih => exact ih
  | took _ _ _ made _ ih =>
    have hwithin := made.takes.within
    rw [List.map_cons, List.sum_cons]
    omega

/-- Each fill takes from what the ones before it left. -/
theorem Taken.each (h : Taken env quote b boids left fills) {xs ys : List Fill} {f : Fill}
    (hsplit : fills = xs ++ f :: ys) : ∃ boid ∈ boids, ∃ so, b.orders.get? boid = some so ∧
      so.status.isLive = true ∧ ¬so.sessionDay < quote.receiptTs.istDate ∧
      Execution env so quote (left - (xs.map Fill.quantity).sum) f := by
  induction h generalizing xs with
  | stopped => cases xs <;> cases hsplit
  | passed _ ih =>
    obtain ⟨boid, hmem, hmade⟩ := ih hsplit
    exact ⟨boid, List.mem_cons_of_mem _ hmem, hmade⟩
  | @took boid rest left so g fills held live current made later ih =>
    cases xs with
    | nil =>
      obtain ⟨rfl, -⟩ := List.cons.inj hsplit
      exact ⟨boid, List.mem_cons_self, so, held, live, current, by simpa using made⟩
    | cons x xs =>
      obtain ⟨rfl, hrest⟩ := List.cons.inj hsplit
      obtain ⟨boid', hmem, so', hso', hlive, hcurrent, hmade⟩ := ih hrest
      refine ⟨boid', List.mem_cons_of_mem _ hmem, so', hso', hlive, hcurrent, ?_⟩
      rw [List.map_cons, List.sum_cons, ← sub_sub]
      exact hmade

/-- Orders are filled in the order of the pass, each once at most. -/
theorem Taken.inOrder (h : Taken env quote b boids left fills)
    (hids : ∀ boid so, b.orders.get? boid = some so → so.brokerOrderId = boid) :
    (fills.map Fill.brokerOrderId).Sublist (boids.map some) := by
  induction h with
  | stopped => exact List.nil_sublist _
  | passed _ ih => exact ih.cons _
  | @took boid rest left so f fills held live current made later ih =>
    rw [List.map_cons, List.map_cons, made.takes.ofOrder, hids boid so held]
    exact ih.cons_cons _

/-- What a quote fills: no more in all than its share of the volume, and each fill whole lots
of a live order of the instrument, from what the orders placed before it left. -/
structure Round (env : SimEnv) (b : SimulatedBroker) (quote : Quote) (fills : List Fill) : Prop where
  total : (fills.map Fill.quantity).sum ≤ liquidityAt env b quote
  each : ∀ xs f ys, fills = xs ++ f :: ys → ∃ so, b.orders.get? so.brokerOrderId = some so ∧
    so.instrumentKey = quote.instrumentKey ∧ so.status.isLive = true ∧
    ¬so.sessionDay < quote.receiptTs.istDate ∧ (so.reference quote).isSome = true ∧
    Takes env so (liquidityAt env b quote - (xs.map Fill.quantity).sum) f
  placed : (fills.map Fill.brokerOrderId).Pairwise fun p q => ∃ m n, m < n ∧
    p = some (simId env.bookId m) ∧ q = some (simId env.bookId n)

/-- An interval is not negative. -/
theorem intervalVolume_nonneg (b : SimulatedBroker) (quote : Quote) (today : Day) :
    0 ≤ b.intervalVolume quote today := by
  unfold intervalVolume
  split
  · split
    · exact le_max_left _ _
    · exact quote.volumeCum_nonneg
  · exact quote.volumeCum_nonneg

theorem liquidityAt_nonneg (env : SimEnv) (b : SimulatedBroker) (quote : Quote) :
    0 ≤ liquidityAt env b quote := by
  have hinterval : (0 : ℚ) ≤ b.intervalVolume quote quote.receiptTs.istDate := by
    exact_mod_cast intervalVolume_nonneg b quote _
  exact Int.floor_nonneg.mpr (mul_nonneg env.config.participation_pos.le hinterval)

/-- The ids of an instrument's orders, as they were placed. -/
theorem ordersOf_placed (hb : Registered env b) (hfew : b.core.nextOrder ≤ 1000000)
    (instrumentKey : String) : (b.ordersOf instrumentKey).Pairwise fun p q => ∃ m n, m < n ∧
      p = simId env.bookId m ∧ q = simId env.bookId n := by
  have htrans : IsTrans String (· ≤ ·) := ⟨fun _ _ _ => String.le_trans⟩
  have hsorted : (b.ordersOf instrumentKey).Pairwise (· ≤ ·) := List.pairwise_insertionSort _ _
  refine ((nodup_ordersOf b instrumentKey).and hsorted).imp_of_mem ?_
  rintro p q hp hq ⟨hne, hle⟩
  obtain ⟨so, hso, -⟩ := (mem_ordersOf ..).mp hp
  obtain ⟨so', hso', -⟩ := (mem_ordersOf ..).mp hq
  obtain ⟨-, m, hm, rfl⟩ := hb.ids p so hso
  obtain ⟨-, n, hn, rfl⟩ := hb.ids q so' hso'
  refine ⟨m, n, ?_, rfl, rfl⟩
  rcases lt_trichotomy m n with hlt | rfl | hgt
  · exact hlt
  · exact absurd rfl hne
  · exact absurd (simId_lt hgt (by omega)) (String.not_lt.mpr hle)

/-- **One quote.** -/
theorem Taken.round (hb : Registered env b) (hfew : b.core.nextOrder ≤ 1000000)
    (h : Taken env quote b (b.ordersOf quote.instrumentKey) (liquidityAt env b quote) fills) :
    Round env b quote fills where
  total := by
    have htotal := h.total
    have hnonneg := liquidityAt_nonneg env b quote
    rwa [max_eq_right hnonneg] at htotal
  each xs f ys hsplit := by
    obtain ⟨boid, hmem, so, hso, hlive, hcurrent, hmade⟩ := h.each hsplit
    obtain ⟨so', hso', hkey⟩ := (mem_ordersOf ..).mp hmem
    obtain rfl := Option.some.inj (hso.symm.trans hso')
    refine ⟨so, ?_, hkey, hlive, hcurrent, ?_, hmade.takes⟩
    · rw [(hb.ids boid so hso).1]
      exact hso
    · obtain ⟨-, reached, -, -⟩ := hmade
      rw [reached]
      rfl
  placed := by
    have hsome : ((b.ordersOf quote.instrumentKey).map some).Pairwise fun p q => ∃ m n, m < n ∧
        p = some (simId env.bookId m) ∧ q = some (simId env.bookId n) := by
      rw [List.pairwise_map]
      refine (ordersOf_placed hb hfew quote.instrumentKey).imp ?_
      rintro p q ⟨m, n, hmn, rfl, rfl⟩
      exact ⟨m, n, hmn, rfl, rfl⟩
    exact hsome.sublist (h.inOrder fun boid so hso => (hb.ids boid so hso).1)

/-! ## The number of orders -/

/-- The next number is one more than there are orders. -/
def Numbered (b : SimulatedBroker) : Prop := b.core.nextOrder = b.orders.keys.length + 1

theorem Numbered.set {b' : SimulatedBroker} (h : Numbered b) {boid : String} {so c : SimOrder}
    (hso : b.orders.get? boid = some so) (horders : b'.orders = b.orders.set boid c)
    (hnext : b'.core.nextOrder = b.core.nextOrder) : Numbered b' := by
  unfold Numbered
  rw [hnext, horders, Dict.keys_set, if_pos (b.orders.mem_keys_iff.mpr ⟨so, hso⟩)]
  exact h

theorem Numbered.change {good : SimCore → Fill → Bool} {b' : SimulatedBroker} (hb : Registered env b)
    (h : Numbered b) (hchange : Change env good b b') : Numbered b' := by
  cases hchange with
  | noted orders _ _ nextOrder =>
    unfold Numbered
    rw [orders, nextOrder]
    exact h
  | moved held _ _ _ orders _ _ core => exact h.set held orders (by rw [core])
  | ended held _ _ _ _ orders _ _ core => exact h.set held orders (by rw [core])
  | filled held _ _ _ _ _ _ _ orders _ _ nextOrder => exact h.set held orders nextOrder
  | @accepted order checked sim now _ _ new _ orders _ _ core =>
    have hfree : sim.brokerOrderId ∉ b.orders.keys := by
      rw [Dict.mem_keys_iff]
      rintro ⟨so, hso⟩
      rw [new] at hso
      exact absurd (hso.symm.trans hb.fresh) (by simp)
    unfold Numbered
    rw [core, orders, Dict.keys_set, if_neg hfree, List.length_append]
    show b.core.nextOrder + 1 = _
    rw [h]
    rfl

theorem Numbered.modify {S : Type} {w : World SimulatedBroker S} (h : Numbered w.broker)
    (env : SimEnv) (hooks : Hooks S) (now : Instant) (boid : String) (qty : Option ℤ)
    (price trigger : Option ℚ) :
    Numbered (modifyOrder env hooks now boid qty price trigger w).state.broker := by
  refine modifyOrder_cases hooks (P := fun w' => Numbered w'.broker) h ?_ ?_
  · intro so instrument haccepts _
    exact h.set (c := so.withTrigger trigger) haccepts.held rfl rfl
  · intro so instrument haccepts _
    obtain ⟨horders, -, -, -, hcore⟩ :=
      amendedWorld_broker hooks boid (so.amended qty trigger now) now w
    refine h.set haccepts.held horders ?_
    rw [hcore]

/-! ## A day's volume -/

/-- The volume since the last quote that was seen, and its day. -/
def intervalSince (seen : Option (Day × ℤ)) (quote : Quote) : ℤ :=
  match seen with
  | some (day, volume) =>
    if day = quote.receiptTs.istDate then max 0 (quote.volumeCum - volume) else quote.volumeCum
  | none => quote.volumeCum

theorem intervalVolume_since (b : SimulatedBroker) (quote : Quote) :
    b.intervalVolume quote quote.receiptTs.istDate =
      intervalSince (b.core.volume.get? quote.instrumentKey) quote := rfl

/-- The intervals of an instrument's quotes that are of a day. -/
def dayVolume (day : Day) : Option (Day × ℤ) → List Quote → ℤ
  | _, [] => 0
  | seen, quote :: rest =>
    (if quote.receiptTs.istDate = day then intervalSince seen quote else 0) +
      dayVolume day (some (quote.receiptTs.istDate, quote.volumeCum)) rest

/-- The cumulative volume of the last quote. -/
def lastVolume (quotes : List Quote) : ℤ := (quotes.getLast?.map Quote.volumeCum).getD 0

variable {day : Day}

theorem dayVolume_other {quotes : List Quote} (h : ∀ q ∈ quotes, q.receiptTs.istDate ≠ day)
    (seen : Option (Day × ℤ)) : dayVolume day seen quotes = 0 := by
  induction quotes generalizing seen with
  | nil => rfl
  | cons q rest ih =>
    have hrest : ∀ q ∈ rest, q.receiptTs.istDate ≠ day := fun q hq =>
      h q (List.mem_cons_of_mem _ hq)
    unfold dayVolume
    rw [if_neg (h q List.mem_cons_self), ih hrest, add_zero]

/-- Quotes of other days are passed over, and the last seen is of another day. -/
theorem dayVolume_before {before : List Quote} (h : ∀ q ∈ before, q.receiptTs.istDate ≠ day)
    {seen : Option (Day × ℤ)} (hseen : ∀ s ∈ seen, s.1 ≠ day) (rest : List Quote) :
    ∃ seen', (∀ s ∈ seen', s.1 ≠ day) ∧
      dayVolume day seen (before ++ rest) = dayVolume day seen' rest := by
  induction before generalizing seen with
  | nil => exact ⟨seen, hseen, rfl⟩
  | cons q before ih =>
    have hq := h q List.mem_cons_self
    have hseen' : ∀ s ∈ some (q.receiptTs.istDate, q.volumeCum), s.1 ≠ day := by
      intro s hs
      cases hs
      exact hq
    obtain ⟨seen', hother, hvolume⟩ := ih (fun q hq => h q (List.mem_cons_of_mem _ hq)) hseen'
    refine ⟨seen', hother, ?_⟩
    rw [List.cons_append, dayVolume, if_neg hq, zero_add, hvolume]

/-- Where volumes do not decrease, the intervals after a quote add up to the rest. -/
theorem dayVolume_rest {first : Quote} {today after : List Quote}
    (hday : ∀ q ∈ first :: today, q.receiptTs.istDate = day)
    (hincreasing : (first :: today).Pairwise fun p q => p.volumeCum ≤ q.volumeCum)
    (hafter : ∀ q ∈ after, q.receiptTs.istDate ≠ day) :
    first.volumeCum + dayVolume day (some (first.receiptTs.istDate, first.volumeCum))
      (today ++ after) = lastVolume (first :: today) := by
  induction today generalizing first with
  | nil =>
    rw [List.nil_append, dayVolume_other hafter, add_zero]
    rfl
  | cons q today ih =>
    obtain ⟨hfirst, hincreasing'⟩ := List.pairwise_cons.mp hincreasing
    have hq : q.receiptTs.istDate = day := hday q (by simp)
    have hsame : first.receiptTs.istDate = q.receiptTs.istDate :=
      (hday first List.mem_cons_self).trans hq.symm
    have hle : first.volumeCum ≤ q.volumeCum := hfirst q List.mem_cons_self
    have hinterval : intervalSince (some (first.receiptTs.istDate, first.volumeCum)) q =
        q.volumeCum - first.volumeCum := by
      unfold intervalSince
      dsimp only
      rw [if_pos hsame, max_eq_right (by omega)]
    have hrest := ih (fun p hp => hday p (List.mem_cons_of_mem _ hp)) hincreasing'
    have hlast : lastVolume (first :: q :: today) = lastVolume (q :: today) := by
      unfold lastVolume
      rw [List.getLast?_cons_cons]
    rw [hlast, ← hrest, List.cons_append, dayVolume, if_pos hq, hinterval]
    ring

/-- **A day's volume** is the last cumulative volume, where its quotes come one after another
and never decrease. -/
theorem dayVolume_eq {before today after : List Quote}
    (hbefore : ∀ q ∈ before, q.receiptTs.istDate ≠ day)
    (htoday : ∀ q ∈ today, q.receiptTs.istDate = day)
    (hincreasing : today.Pairwise fun p q => p.volumeCum ≤ q.volumeCum)
    (hafter : ∀ q ∈ after, q.receiptTs.istDate ≠ day) :
    dayVolume day none (before ++ today ++ after) = lastVolume today := by
  have hnone : ∀ s ∈ (none : Option (Day × ℤ)), s.1 ≠ day := fun s hs => by cases hs
  obtain ⟨seen, hseen, hvolume⟩ := dayVolume_before hbefore hnone (today ++ after)
  rw [List.append_assoc, hvolume]
  cases today with
  | nil =>
    rw [List.nil_append, dayVolume_other hafter]
    rfl
  | cons q today =>
    have hq : q.receiptTs.istDate = day := htoday q List.mem_cons_self
    have hinterval : intervalSince seen q = q.volumeCum := by
      unfold intervalSince
      split
      · rename_i other volume
        have hother : other ≠ day := hseen (other, volume) rfl
        rw [if_neg]
        rw [hq]
        exact hother
      · rfl
    rw [List.cons_append, dayVolume, if_pos hq, hinterval]
    exact dayVolume_rest htoday hincreasing hafter

/-- The shares of an instrument that fills of a day are of. -/
def filledOn (instrumentKey : String) (day : Day) (fills : List Fill) : ℤ :=
  ((fills.filter fun f => f.instrumentKey = instrumentKey ∧ f.ts.istDate = day).map
    Fill.quantity).sum

theorem filledOn_append (instrumentKey : String) (day : Day) (xs ys : List Fill) :
    filledOn instrumentKey day (xs ++ ys) =
      filledOn instrumentKey day xs + filledOn instrumentKey day ys := by
  simp [filledOn, List.filter_append]

/-- What a quote adds to the day. -/
theorem filledOn_taken (instrumentKey : String) (day : Day)
    (h : Taken env quote b (b.ordersOf quote.instrumentKey) (liquidityAt env b quote) fills) :
    (filledOn instrumentKey day fills : ℚ) ≤ env.config.participation *
      if quote.instrumentKey = instrumentKey ∧ quote.receiptTs.istDate = day then
        (b.intervalVolume quote quote.receiptTs.istDate : ℚ) else 0 := by
  -- a fill is of the quote's instrument, at its time
  have hfill : ∀ f ∈ fills, f.instrumentKey = quote.instrumentKey ∧
      f.ts.istDate = quote.receiptTs.istDate := by
    intro f hf
    obtain ⟨boid, hmem, so, left, hso, -, hmade⟩ := h.execution hf
    obtain ⟨so', hso', hkey⟩ := (mem_ordersOf ..).mp hmem
    obtain rfl := Option.some.inj (hso.symm.trans hso')
    obtain ⟨-, -, -, dpApplies, charges, -, rfl⟩ := hmade
    exact ⟨hkey, rfl⟩
  by_cases hhere : quote.instrumentKey = instrumentKey ∧ quote.receiptTs.istDate = day
  · have hall : fills.filter (fun f => f.instrumentKey = instrumentKey ∧ f.ts.istDate = day) =
        fills := by
      refine List.filter_eq_self.mpr fun f hf => decide_eq_true ?_
      exact ⟨(hfill f hf).1.trans hhere.1, (hfill f hf).2.trans hhere.2⟩
    have htotal := h.total
    rw [max_eq_right (liquidityAt_nonneg env b quote)] at htotal
    have hfloor : (liquidityAt env b quote : ℚ) ≤
        env.config.participation * b.intervalVolume quote quote.receiptTs.istDate := Int.floor_le _
    rw [if_pos hhere, filledOn, hall]
    exact le_trans (by exact_mod_cast htotal) hfloor
  · have hnone : fills.filter (fun f => f.instrumentKey = instrumentKey ∧ f.ts.istDate = day) =
        [] := by
      refine List.filter_eq_nil_iff.mpr fun f hf hyes => hhere ?_
      obtain ⟨hkey, hday⟩ := of_decide_eq_true hyes
      exact ⟨(hfill f hf).1.symm.trans hkey, (hfill f hf).2.symm.trans hday⟩
    rw [if_neg hhere, filledOn, hnone]
    simp

end SimulatedBroker

namespace PublicOp

open SimulatedBroker

variable {S : Type} (env : SimEnv) (hooks : Hooks S)

/-- The quotes of an instrument in a run. -/
def quotesOf (instrumentKey : String) (ops : List PublicOp) : List Quote :=
  (ops.filterMap PublicOp.quote).filter fun q => q.instrumentKey = instrumentKey

theorem after_onQuote (quote : Quote) (w : World SimulatedBroker S) :
    (call (.onQuote quote)).after env hooks w = (SimulatedBroker.onQuote env hooks quote w).state :=
  Effect.state_bind_pure _ _ _

theorem run_numbered {startingCash : ℚ} {w : World SimulatedBroker S} (ops : List PublicOp)
    (h : Sound env startingCash w.broker) (hticks : TriggersOnTick env w.broker)
    (hnumbered : Numbered w.broker) : Numbered (run env hooks w ops).broker := by
  induction ops generalizing w with
  | nil => exact hnumbered
  | cons op rest ih =>
    obtain ⟨hsound, honTick⟩ := after_sound env hooks op h hticks
    refine ih hsound honTick ?_
    cases op with
    | call op =>
      have hboth := Effect.invariant (I := fun w => Sound env startingCash w.broker ∧
        Numbered w.broker) ?_ (op.after_steps env hooks (op.allows_any env hooks w)) ⟨h, hnumbered⟩
      · exact hboth.2
      · intro v v' hstep hv
        have hchange := hstep.change hv.1.conserves.reserved_nonneg
        exact ⟨hchange.sound hv.1, hv.2.change hv.1.registered hchange⟩
    | modifyOrder now boid qty price trigger =>
      exact hnumbered.modify env hooks now boid qty price trigger

/-- **The run lemma.** The fills of a day take their share of the day's volume. -/
theorem run_filledOn (instrumentKey : String) (day : Day) (ops : List PublicOp)
    (w : World SimulatedBroker S) :
    (filledOn instrumentKey day (run env hooks w ops).broker.fills : ℚ) ≤
      filledOn instrumentKey day w.broker.fills + env.config.participation *
        dayVolume day (w.broker.core.volume.get? instrumentKey) (quotesOf instrumentKey ops) := by
  -- by induction on the calls: only a quote fills, and no more than its share of the volume since
  induction ops generalizing w with
  | nil => simp [run, quotesOf, dayVolume]
  | cons op rest ih =>
    have hrest := ih (op.after env hooks w)
    have hrun : run env hooks w (op :: rest) = run env hooks (op.after env hooks w) rest := rfl
    rw [hrun]
    cases hop : op.quote with
    | none =>
      have hunfilled := unfilled_after env hooks hop w
      have hquotes : quotesOf instrumentKey (op :: rest) = quotesOf instrumentKey rest := by
        unfold quotesOf
        rw [List.filterMap_cons_none hop]
      rw [hunfilled.fills, hunfilled.volume] at hrest
      rw [hquotes]
      exact hrest
    | some quote =>
      obtain rfl := quote_some hop
      obtain ⟨fills, hfills, hvolume, htaken⟩ := onQuote_spec env hooks quote w
      have hadded := filledOn_taken instrumentKey day htaken
      rw [after_onQuote, hfills, hvolume, filledOn_append, Dict.get?_set] at hrest
      push_cast at hrest
      rw [after_onQuote]
      have hhead : (call (.onQuote quote) :: rest).filterMap PublicOp.quote =
          quote :: rest.filterMap PublicOp.quote := List.filterMap_cons_some hop
      unfold quotesOf at hrest ⊢
      rw [hhead]
      by_cases hkey : quote.instrumentKey = instrumentKey
      · subst hkey
        have hsum : (if quote.instrumentKey = quote.instrumentKey ∧ quote.receiptTs.istDate = day then
            (w.broker.intervalVolume quote quote.receiptTs.istDate : ℚ) else 0) =
              (if quote.receiptTs.istDate = day then
                intervalSince (w.broker.core.volume.get? quote.instrumentKey) quote else 0 : ℤ) := by
          rw [intervalVolume_since]
          by_cases hday : quote.receiptTs.istDate = day
          · rw [if_pos ⟨rfl, hday⟩, if_pos hday]
          · rw [if_neg fun h => hday h.2, if_neg hday, Int.cast_zero]
        rw [hsum] at hadded
        rw [if_pos rfl] at hrest
        rw [List.filter_cons_of_pos (by simp), dayVolume]
        push_cast at hadded ⊢
        linarith
      -- a quote of another instrument
      · rw [if_neg fun h => hkey h.symm] at hrest
        rw [if_neg fun h => hkey h.1, mul_zero] at hadded
        rw [List.filter_cons_of_neg (by simpa using hkey)]
        linarith

/-- **The participation cap.** In any run of fewer than a million orders a quote's fills share
what it allows, in the order the orders were placed; and on a day whose quotes of an instrument
come one after another, with volumes that never decrease, no more is filled than the share of
the last cumulative volume. -/
theorem participation_capped (startingCash : ℚ) (desk : S) (ops : List PublicOp) :
    let w := run env hooks ⟨.init startingCash, desk⟩ ops
    (w.broker.orders.keys.length < 1000000 → ∀ quote, ∃ fills,
      ((call (.onQuote quote)).after env hooks w).broker.fills = w.broker.fills ++ fills ∧
        Round env w.broker quote fills) ∧
    ∀ instrumentKey day before today after,
      quotesOf instrumentKey ops = before ++ today ++ after →
      (∀ q ∈ before, q.receiptTs.istDate ≠ day) → (∀ q ∈ today, q.receiptTs.istDate = day) →
      (today.Pairwise fun p q => p.volumeCum ≤ q.volumeCum) →
      (∀ q ∈ after, q.receiptTs.istDate ≠ day) →
      (filledOn instrumentKey day w.broker.fills : ℚ) ≤
        env.config.participation * lastVolume today := by
  intro w
  have hsound := Sound.init env startingCash
  have hticks : TriggersOnTick env (SimulatedBroker.init startingCash) := fun _ _ h => by cases h
  constructor
  · intro hfew quote
    obtain ⟨hs, -⟩ := run_sound env hooks (w := ⟨.init startingCash, desk⟩) ops hsound hticks
    have hnumbered : Numbered w.broker :=
      run_numbered env hooks (w := ⟨.init startingCash, desk⟩) ops hsound hticks rfl
    obtain ⟨fills, hfills, -, htaken⟩ := onQuote_spec env hooks quote w
    refine ⟨fills, ?_, htaken.round hs.registered ?_⟩
    · rw [after_onQuote]
      exact hfills
    · rw [hnumbered]
      omega
  · intro instrumentKey day before today after hquotes hbefore htoday hincreasing hafter
    have hrun := run_filledOn env hooks instrumentKey day ops ⟨.init startingCash, desk⟩
    have hnone : (SimulatedBroker.init startingCash).core.volume.get? instrumentKey = none := rfl
    have hzero : filledOn instrumentKey day (SimulatedBroker.init startingCash).fills = 0 := rfl
    rw [hnone, hzero, hquotes, dayVolume_eq hbefore htoday hincreasing hafter] at hrun
    simpa using hrun

end PublicOp

/-! ## Quotes of another day in between -/

namespace Sample

/-- Ten are bought of ten that are traded. -/
def tenTraded : List PublicOp :=
  [.call (.onQuote (quote 0 0 zero_nonneg)),
    .call (.placeOrder (clock 1) (shares "I1" .buy ⟨10, ten_pos⟩ 1)),
    .call (.onQuote (quote 2 10 ten_nonneg))]

/-- A quote of the next day comes, and then the day's last quote again. -/
def nextDayBetween : List PublicOp :=
  tenTraded ++ [.call (.onQuote (quote 86400 0 zero_nonneg)),
    .call (.placeOrder (clock 3) (shares "I2" .buy ⟨10, ten_pos⟩ 3)),
    .call (.onQuote (quote 4 10 ten_nonneg))]

theorem tenTraded_quotes : PublicOp.quotesOf infy.key tenTraded =
    [quote 0 0 zero_nonneg, quote 2 10 ten_nonneg] := by
  decide +kernel

theorem nextDayBetween_quotes : PublicOp.quotesOf infy.key nextDayBetween =
    [quote 0 0 zero_nonneg, quote 2 10 ten_nonneg, quote 86400 0 zero_nonneg,
      quote 4 10 ten_nonneg] := by
  decide +kernel

/-- Twenty are filled on a day that traded ten. -/
theorem nextDayBetween_filled : SimulatedBroker.filledOn infy.key (clock 0).istDate
    (PublicOp.run market unheard ⟨.init 100000, ()⟩ nextDayBetween).broker.fills = 20 := by
  decide +kernel

end Sample

namespace PublicOp

open SimulatedBroker

/-- The day that traded ten. -/
theorem participation_capped_ten :
    (∃ fills, ((call (.onQuote (Sample.quote 4 10 Sample.ten_nonneg))).after Sample.market
        Sample.unheard (run Sample.market Sample.unheard ⟨.init 100000, ()⟩
          Sample.tenTraded)).broker.fills =
        (run Sample.market Sample.unheard ⟨.init 100000, ()⟩ Sample.tenTraded).broker.fills ++
          fills) ∧
    (filledOn Sample.infy.key (Sample.clock 0).istDate
      (run Sample.market Sample.unheard ⟨.init 100000, ()⟩ Sample.tenTraded).broker.fills : ℚ) ≤
      Sample.market.config.participation *
        lastVolume [Sample.quote 0 0 Sample.zero_nonneg, Sample.quote 2 10 Sample.ten_nonneg] := by
  have h := participation_capped Sample.market Sample.unheard 100000 () Sample.tenTraded
  have hother : ∀ q ∈ ([] : List Quote), q.receiptTs.istDate ≠ (Sample.clock 0).istDate :=
    fun q hq => by cases hq
  constructor
  · obtain ⟨fills, hfills, -⟩ := h.1 (by decide +kernel) (Sample.quote 4 10 Sample.ten_nonneg)
    exact ⟨fills, hfills⟩
  · exact h.2 _ _ [] _ [] Sample.tenTraded_quotes hother (by decide +kernel) (by decide +kernel)
      hother

/-- A day's volume is counted again after a quote of another day. -/
theorem day_counted_twice :
    ¬∀ (S : Type) (env : SimEnv) (hooks : Hooks S) (startingCash : ℚ) (desk : S)
      (ops : List PublicOp) (instrumentKey : String) (day : Day),
      let today := (quotesOf instrumentKey ops).filter fun q => q.receiptTs.istDate = day
      (today.Pairwise fun p q => p.volumeCum ≤ q.volumeCum) →
      (filledOn instrumentKey day
        (run env hooks ⟨.init startingCash, desk⟩ ops).broker.fills : ℚ) ≤
        env.config.participation * lastVolume today := by
  intro h
  have hday := h Unit Sample.market Sample.unheard 100000 () Sample.nextDayBetween Sample.infy.key
    (Sample.clock 0).istDate
  rw [Sample.nextDayBetween_quotes, Sample.nextDayBetween_filled] at hday
  exact absurd (hday (by decide +kernel)) (by decide +kernel)

end PublicOp

end RakshaQuant
