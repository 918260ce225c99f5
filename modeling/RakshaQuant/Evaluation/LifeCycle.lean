import RakshaQuant.Evaluation.ShadowLedger

/-! The life of a counterfactual. A signal that was seen is in one place: pending, open,
closed and waiting for the index, or settled; each move is one event, and events follow
one another in this order. A quote above the notional breaks it, as the ledger takes the
signal off the pending ones and then enters no share. -/

namespace RakshaQuant.Shadow

/-! ## Where a signal is -/

namespace State

def pendingIds (s : State) : List String := s.pending.map Pending.signalId

def openIds (s : State) : List String := s.open.map OpenTrade.signalId

def settlingIds (s : State) : List String := s.settling.map Settling.signalId

end State

namespace Event

def openedId : Event → Option String
  | opened o => some o.signalId
  | _ => none

def closedId : Event → Option String
  | closed t => some t.signalId
  | _ => none

def settledId : Event → Option String
  | settled a => some a.signalId
  | _ => none

end Event

namespace Ledger

def openedIds (l : Ledger) : List String := l.emitted.filterMap Event.openedId

def closedIds (l : Ledger) : List String := l.emitted.filterMap Event.closedId

def settledIds (l : Ledger) : List String := l.emitted.filterMap Event.settledId

/-- In how many places a signal is. -/
def places (l : Ledger) (id : String) : ℕ :=
  l.state.pendingIds.count id + l.state.openIds.count id + l.state.settlingIds.count id +
    l.settledIds.count id

/-- A BUY signal with an ATR. -/
def Acceptable (atr : Dict String (Option ℚ)) (signal : Signal) : Prop :=
  signal.side = .buy ∧ ∃ value ∈ (atr.get? signal.instrumentKey).join, 0 < value

instance (atr : Dict String (Option ℚ)) (signal : Signal) : Decidable (Acceptable atr signal) :=
  inferInstanceAs (Decidable (_ ∧ _))

/-- The ids of the signals that `track` accepts. -/
def accepted (signals : List Signal) (atr : Dict String (Option ℚ)) : List String :=
  (signals.filter fun signal => Acceptable atr signal).map Signal.signalId

end Ledger

def Action.accepted : Action → List String
  | .track signals atr => Ledger.accepted signals atr
  | _ => []

/-! ## The order of events -/

/-- An event has what it follows before it. -/
def Follows (before : List Event) : Event → Prop
  | .opened _ => True
  | .closed t => ∃ o, .opened o ∈ before ∧ o.signalId = t.signalId ∧ o.entryTs < t.exitTs
  | .settled a => ∃ t, .closed t ∈ before ∧ t.signalId = a.signalId

def Ordered (log : List Event) : Prop :=
  ∀ before event after, log = before ++ event :: after → Follows before event

theorem Ordered.nil : Ordered [] := by
  intro before event after h
  simp at h

theorem Ordered.concat {log : List Event} {event : Event} (h : Ordered log)
    (hevent : Follows log event) : Ordered (log ++ [event]) := by
  intro before e after heq
  rcases List.eq_nil_or_concat after with rfl | ⟨rest, last, rfl⟩
  · obtain ⟨rfl, he⟩ := List.append_inj' heq rfl
    rw [List.singleton_inj] at he
    exact he ▸ hevent
  · have hsplit : log ++ [event] = (before ++ e :: rest) ++ [last] := by
      rw [heq]
      simp
    exact h before e rest (List.append_inj' hsplit rfl).1

/-- What a ledger shows of the signals accepted so far. -/
structure LifeCycle (l : Ledger) (accepted : List String) : Prop where
  opened_once : l.openedIds.Nodup
  closed_once : l.closedIds.Nodup
  settled_once : l.settledIds.Nodup
  ordered : Ordered l.emitted
  somewhere : ∀ id ∈ accepted, l.places id = 1

/-- Charges of the product that the ledger trades are known. -/
def Config.Rated (config : Config) : Prop := ∃ rates, config.costs.products .cnc = some rates

theorem Config.Rated.charges {config : Config} (hrated : config.Rated) (side : Side)
    {notional : ℚ} (hnotional : 0 ≤ notional) (dp : Bool) :
    ∃ c, config.costs.charges .cnc side notional dp = .ok c := by
  obtain ⟨rates, hrates⟩ := hrated
  unfold NSECostSchedule.charges
  rw [dif_neg (not_lt.mpr hnotional)]
  split
  · exact ⟨_, rfl⟩
  · rw [hrates]
    exact ⟨_, rfl⟩

/-! ## The invariant -/

namespace Ledger

/-- The signals seen are shared out among the places, and the events are as many moves. -/
structure Sound (l : Ledger) : Prop where
  distinct : ∀ id, l.state.seen.count id ≤ 1
  placed : ∀ id, l.places id = l.state.seen.count id
  opened : ∀ id, l.state.openIds.count id + l.state.settlingIds.count id +
    l.settledIds.count id = l.openedIds.count id
  closed : ∀ id, l.state.settlingIds.count id + l.settledIds.count id = l.closedIds.count id
  entered : ∀ t ∈ l.state.open, 0 < t.entryPrice ∧ 0 < t.quantity ∧
    ∃ o, .opened o ∈ l.emitted ∧ o.signalId = t.signalId ∧ o.entryTs = t.entryTs
  ordered : Ordered l.emitted

theorem Sound.init : Sound init where
  distinct := by simp [Ledger.init, State.empty]
  placed := by simp [places, Ledger.init, State.empty, State.pendingIds, State.openIds,
    State.settlingIds, settledIds]
  opened := by simp [Ledger.init, State.empty, State.openIds, State.settlingIds, settledIds,
    openedIds]
  closed := by simp [Ledger.init, State.empty, State.settlingIds, settledIds, closedIds]
  entered := fun t ht => by cases ht
  ordered := .nil

variable {l : Ledger}

theorem Sound.lifeCycle (h : l.Sound) {accepted : List String}
    (hseen : ∀ id ∈ accepted, id ∈ l.state.seen) : LifeCycle l accepted := by
  have hplaced : ∀ id, l.places id ≤ 1 := fun id => h.placed id ▸ h.distinct id
  simp only [places] at hplaced
  constructor
  · refine List.nodup_iff_count_le_one.mpr fun id => ?_
    have := hplaced id
    rw [← h.opened]
    omega
  · refine List.nodup_iff_count_le_one.mpr fun id => ?_
    have := hplaced id
    rw [← h.closed]
    omega
  · refine List.nodup_iff_count_le_one.mpr fun id => ?_
    have := hplaced id
    omega
  · exact h.ordered
  · intro id hid
    have := List.count_pos_iff.mpr (hseen id hid)
    have := h.distinct id
    rw [h.placed]
    omega

/-! ### Moves -/

/-- Taking one element out of a list takes out one of its keys. -/
theorem count_erase_key {α : Type} [DecidableEq α] (key : α → String) {xs : List α} {x : α}
    (hx : x ∈ xs) (id : String) : (xs.map key).count id =
      ((xs.erase x).map key).count id + [key x].count id := by
  rw [((List.perm_cons_erase hx).map key).count_eq, List.map_cons, List.count_cons,
    List.count_singleton]

theorem Sound.queue (h : l.Sound) {p : Pending} (hnew : p.signalId ∉ l.state.seen) :
    Sound { l with
      state := { l.state with
        seen := l.state.seen ++ [p.signalId]
        pending := l.state.pending ++ [p] } } where
  distinct := by
    intro id
    rw [List.count_append]
    by_cases hid : id = p.signalId
    · rw [hid, List.count_eq_zero.mpr hnew]
      simp
    · have := h.distinct id
      simpa [List.count_singleton, Ne.symm hid] using this
  placed := by
    intro id
    have := h.placed id
    simp only [places, State.pendingIds, State.openIds, State.settlingIds, settledIds,
      List.map_append, List.map_cons, List.map_nil, List.count_append] at this ⊢
    omega
  opened := h.opened
  closed := h.closed
  entered := h.entered
  ordered := h.ordered

/-- A pending signal becomes an open trade. -/
theorem Sound.opens (h : l.Sound) {l' : Ledger} {p : Pending} {t : OpenTrade} {o : Opened}
    (hp : p ∈ l.state.pending)
    (hstate : l'.state = { l.state with
      pending := l.state.pending.erase p
      «open» := l.state.open ++ [t] })
    (hlog : l'.emitted = l.emitted ++ [.opened o]) (ht : t.signalId = p.signalId)
    (ho : o.signalId = p.signalId) (hts : o.entryTs = t.entryTs)
    (hworth : 0 < t.entryPrice ∧ 0 < t.quantity) : l'.Sound where
  distinct := by
    rw [hstate]
    exact h.distinct
  placed := by
    intro id
    -- the signal leaves one place and enters another, so no count of places changes
    have hplaced := h.placed id
    have hcount := count_erase_key Pending.signalId hp id
    simp only [places, State.pendingIds, State.openIds, State.settlingIds, settledIds, hstate,
      hlog, List.map_append, List.map_cons, List.map_nil, List.count_append, ht,
      List.filterMap_append, List.filterMap_cons, List.filterMap_nil, Event.settledId,
      List.count_nil] at hplaced hcount ⊢
    omega
  opened := by
    intro id
    have hopened := h.opened id
    simp only [State.openIds, State.settlingIds, settledIds, openedIds, hstate, hlog,
      List.map_append, List.map_cons, List.map_nil, List.count_append, ht, ho,
      List.filterMap_append, List.filterMap_cons, List.filterMap_nil, Event.settledId,
      Event.openedId, List.count_nil] at hopened ⊢
    omega
  closed := by
    intro id
    have hclosed := h.closed id
    simp only [State.settlingIds, settledIds, closedIds, hstate, hlog, List.filterMap_append,
      List.filterMap_cons, List.filterMap_nil, Event.settledId, Event.closedId,
      List.append_nil] at hclosed ⊢
    exact hclosed
  entered := by
    rw [hstate, hlog]
    intro t' ht'
    rcases List.mem_append.mp ht' with ht' | ht'
    · obtain ⟨hprice, hquantity, o', ho', hsame⟩ := h.entered t' ht'
      exact ⟨hprice, hquantity, o', List.mem_append_left _ ho', hsame⟩
    · rw [List.mem_singleton.mp ht']
      exact ⟨hworth.1, hworth.2, o, by simp, ho.trans ht.symm, hts⟩
  ordered := by
    rw [hlog]
    exact h.ordered.concat trivial

/-- An open trade is closed and waits for the index. -/
theorem Sound.closes (h : l.Sound) {l' : Ledger} {t : OpenTrade} {c : Closed} {item : Settling}
    (ht : t ∈ l.state.open)
    (hstate : l'.state = { l.state with
      «open» := l.state.open.erase t
      settling := l.state.settling ++ [item] })
    (hlog : l'.emitted = l.emitted ++ [.closed c]) (hitem : item.signalId = t.signalId)
    (hc : c.signalId = t.signalId) (hlater : t.entryTs < c.exitTs) : l'.Sound where
  distinct := by
    rw [hstate]
    exact h.distinct
  placed := by
    intro id
    have hplaced := h.placed id
    have hcount := count_erase_key OpenTrade.signalId ht id
    simp only [places, State.pendingIds, State.openIds, State.settlingIds, settledIds, hstate,
      hlog, List.map_append, List.map_cons, List.map_nil, List.count_append, hitem,
      List.filterMap_append, List.filterMap_cons, List.filterMap_nil, Event.settledId,
      List.count_nil] at hplaced hcount ⊢
    omega
  opened := by
    intro id
    have hopened := h.opened id
    have hcount := count_erase_key OpenTrade.signalId ht id
    simp only [State.openIds, State.settlingIds, settledIds, openedIds, hstate, hlog,
      List.map_append, List.map_cons, List.map_nil, List.count_append, hitem,
      List.filterMap_append, List.filterMap_cons, List.filterMap_nil, Event.settledId,
      Event.openedId, List.count_nil] at hopened hcount ⊢
    omega
  closed := by
    intro id
    have hclosed := h.closed id
    simp only [State.settlingIds, settledIds, closedIds, hstate, hlog, List.map_append,
      List.map_cons, List.map_nil, List.count_append, hitem, hc, List.filterMap_append,
      List.filterMap_cons, List.filterMap_nil, Event.settledId, Event.closedId,
      List.count_nil] at hclosed ⊢
    omega
  entered := by
    rw [hstate, hlog]
    intro t' ht'
    obtain ⟨hprice, hquantity, o, ho, hsame⟩ := h.entered t' (List.mem_of_mem_erase ht')
    exact ⟨hprice, hquantity, o, List.mem_append_left _ ho, hsame⟩
  ordered := by
    obtain ⟨-, -, o, ho, hid, hts⟩ := h.entered t ht
    rw [hlog]
    exact h.ordered.concat ⟨o, ho, hid.trans hc.symm, hts ▸ hlater⟩

/-- A closed trade is settled. -/
theorem Sound.settles (h : l.Sound) {l' : Ledger} {item : Settling} {a : AlphaSettled}
    (hitem : item ∈ l.state.settling)
    (hstate : l'.state = { l.state with settling := l.state.settling.erase item })
    (hlog : l'.emitted = l.emitted ++ [.settled a]) (ha : a.signalId = item.signalId) :
    l'.Sound where
  distinct := by
    rw [hstate]
    exact h.distinct
  placed := by
    intro id
    have hplaced := h.placed id
    have hcount := count_erase_key Settling.signalId hitem id
    simp only [places, State.pendingIds, State.openIds, State.settlingIds, settledIds, hstate,
      hlog, List.count_append, ha, List.filterMap_append, List.filterMap_cons,
      List.filterMap_nil, Event.settledId] at hplaced hcount ⊢
    omega
  opened := by
    intro id
    have hopened := h.opened id
    have hcount := count_erase_key Settling.signalId hitem id
    simp only [State.openIds, State.settlingIds, settledIds, openedIds, hstate, hlog,
      List.count_append, ha, List.filterMap_append, List.filterMap_cons, List.filterMap_nil,
      Event.settledId, Event.openedId, List.count_nil] at hopened hcount ⊢
    omega
  closed := by
    intro id
    have hclosed := h.closed id
    have hcount := count_erase_key Settling.signalId hitem id
    simp only [State.settlingIds, settledIds, closedIds, hstate, hlog, List.count_append, ha,
      List.filterMap_append, List.filterMap_cons, List.filterMap_nil, Event.settledId,
      Event.closedId, List.count_nil] at hclosed hcount ⊢
    omega
  entered := by
    rw [hstate, hlog]
    intro t ht
    obtain ⟨hprice, hquantity, o, ho, hsame⟩ := h.entered t ht
    exact ⟨hprice, hquantity, o, List.mem_append_left _ ho, hsame⟩
  ordered := by
    -- what waits for the index has been closed
    have hid : item.signalId ∈ l.closedIds := by
      have hmem : 0 < l.state.settlingIds.count item.signalId :=
        List.count_pos_iff.mpr (List.mem_map_of_mem hitem)
      have hclosed := h.closed item.signalId
      exact List.count_pos_iff.mp (by omega)
    obtain ⟨event, hevent, hclosedId⟩ := List.mem_filterMap.mp hid
    rw [hlog]
    refine h.ordered.concat ?_
    cases event with
    | opened o => cases hclosedId
    | settled a' => cases hclosedId
    | closed c => exact ⟨c, hevent, (Option.some.inj hclosedId).trans ha.symm⟩

/-- A session start changes no signal's place. -/
theorem Sound.trails (h : l.Sound) (config : Config) (day : Day)
    (closes atr : Dict String ℚ) : (l.onSessionStart config day closes atr).Sound := by
  have hkept : ∀ t : OpenTrade, (trail config day closes atr t).signalId = t.signalId ∧
      (trail config day closes atr t).entryTs = t.entryTs ∧
      (trail config day closes atr t).entryPrice = t.entryPrice ∧
      (trail config day closes atr t).quantity = t.quantity := by
    intro t
    unfold trail
    split <;> exact ⟨rfl, rfl, rfl, rfl⟩
  have hids : (l.onSessionStart config day closes atr).state.openIds = l.state.openIds := by
    simp only [onSessionStart, save, State.openIds, List.map_map]
    apply List.map_congr_left
    intro t _
    exact (hkept t).1
  constructor
  · exact h.distinct
  · intro id
    have hplaced := h.placed id
    simp only [places, hids] at hplaced ⊢
    exact hplaced
  · intro id
    rw [hids]
    exact h.opened id
  · exact h.closed
  · intro t' ht'
    obtain ⟨t, ht, rfl⟩ := List.mem_map.mp ht'
    obtain ⟨hid, hts, hprice, hquantity⟩ := hkept t
    rw [hid, hts, hprice, hquantity]
    exact h.entered t ht
  · exact h.ordered

/-! ## Operations -/

/-- What a loop has still to take stays in the list it takes from. -/
theorem mem_erase_rest {α : Type} [DecidableEq α] {x y : α} {rest xs : List α}
    (hnodup : (x :: rest).Nodup) (hy : y ∈ rest) (hxs : y ∈ xs) : y ∈ xs.erase x := by
  have hne : y ≠ x := by
    intro heq
    rw [heq] at hy
    exact (List.nodup_cons.mp hnodup).1 hy
  exact (List.mem_erase_of_ne hne).mpr hxs

/-- A signal is queued when it is acceptable and was not seen before. -/
theorem trackOne_cases (atr : Dict String (Option ℚ)) (s : State) (signal : Signal) :
    (trackOne atr s signal = s ∧ (Acceptable atr signal → signal.signalId ∈ s.seen)) ∨
      ∃ value, signal.signalId ∉ s.seen ∧ trackOne atr s signal =
        { s with
          seen := s.seen ++ [(queued signal value).signalId]
          pending := s.pending ++ [queued signal value] } := by
  unfold trackOne
  cases hvalue : (atr.get? signal.instrumentKey).join with
  | none =>
    refine .inl ⟨rfl, fun hacc => ?_⟩
    obtain ⟨-, value, hmem, -⟩ := hacc
    rw [hvalue] at hmem
    cases hmem
  | some value =>
    simp only
    split
    · rename_i hskip
      refine .inl ⟨rfl, fun hacc => ?_⟩
      obtain ⟨hside, value', hmem, hpos⟩ := hacc
      rw [hvalue, Option.mem_some_iff] at hmem
      subst hmem
      rcases hskip with hseen | hother | hvalue
      · exact hseen
      · exact absurd hside hother
      · exact absurd hpos (not_lt.mpr hvalue)
    · rename_i hnew
      exact .inr ⟨value, fun hseen => hnew (.inl hseen), rfl⟩

/-- The state of a ledger may change while nothing is emitted. -/
theorem Sound.trackOne {s : State} (h : ({ l with state := s } : Ledger).Sound)
    (atr : Dict String (Option ℚ)) (signal : Signal) :
    ({ l with state := Ledger.trackOne atr s signal } : Ledger).Sound ∧
      (∀ id ∈ s.seen, id ∈ (Ledger.trackOne atr s signal).seen) ∧
      (Acceptable atr signal → signal.signalId ∈ (Ledger.trackOne atr s signal).seen) := by
  obtain ⟨hsame, hseen⟩ | ⟨value, hnew, hqueued⟩ := trackOne_cases atr s signal
  · rw [hsame]
    exact ⟨h, fun id hid => hid, hseen⟩
  · rw [hqueued]
    exact ⟨h.queue (p := queued signal value) hnew, fun id hid => List.mem_append_left _ hid,
      fun _ => List.mem_append_right _ (List.mem_singleton_self _)⟩

theorem Sound.trackAll (atr : Dict String (Option ℚ)) (signals : List Signal) {s : State}
    (h : ({ l with state := s } : Ledger).Sound) :
    ({ l with state := signals.foldl (Ledger.trackOne atr) s } : Ledger).Sound ∧
      (∀ id ∈ s.seen, id ∈ (signals.foldl (Ledger.trackOne atr) s).seen) ∧
      ∀ id ∈ accepted signals atr, id ∈ (signals.foldl (Ledger.trackOne atr) s).seen := by
  induction signals generalizing s with
  | nil => exact ⟨h, fun id hid => hid, fun id hid => by cases hid⟩
  | cons signal rest ih =>
    obtain ⟨hone, hkept, hseen⟩ := h.trackOne atr signal
    obtain ⟨hsound, hkept', haccepted⟩ := ih hone
    refine ⟨hsound, fun id hid => hkept' id (hkept id hid), fun id hid => ?_⟩
    obtain ⟨signal', hmem, rfl⟩ := List.mem_map.mp hid
    obtain ⟨hmem, hacc⟩ := List.mem_filter.mp hmem
    rcases List.mem_cons.mp hmem with rfl | hmem
    · exact hkept' _ (hseen (of_decide_eq_true hacc))
    · exact haccepted _ (List.mem_map_of_mem (List.mem_filter.mpr ⟨hmem, hacc⟩))

/-- The first loop of a quote that can be paid. -/
theorem Sound.enterDue (config : Config) {q : Quote} {ps : List Pending} (hnodup : ps.Nodup)
    (h : l.Sound) (hps : ∀ p ∈ ps, p ∈ l.state.pending)
    (hfits : ps ≠ [] → q.ltp ≤ config.notional) :
    (Ledger.enterDue config q ps l).Sound ∧
      (Ledger.enterDue config q ps l).state.seen = l.state.seen := by
  induction ps generalizing l with
  | nil => exact ⟨h, rfl⟩
  | cons p rest ih =>
    have hnotional := hfits (List.cons_ne_nil p rest)
    have hone : 1 ≤ ⌊config.notional / q.ltp⌋ := by
      rw [Int.le_floor, Int.cast_one, one_le_div q.ltp_pos]
      exact hnotional
    rw [Ledger.enterDue]
    simp only [Ledger.enter, if_neg (not_lt.mpr hone)]
    refine ih (List.nodup_cons.mp hnodup).2 ?_ ?_ fun _ => hnotional
    · exact h.opens (hps p (List.mem_cons_self ..)) rfl rfl rfl rfl rfl ⟨q.ltp_pos, hone⟩
    · intro p' hp'
      exact mem_erase_rest hnodup hp' (hps p' (List.mem_cons_of_mem p hp'))

theorem Sound.close (h : l.Sound) {config : Config} (hrated : config.Rated) {t : OpenTrade}
    (ht : t ∈ l.state.open) {price : ℚ} (hprice : 0 < price) {ts : Instant}
    (hlater : t.entryTs < ts) (reason : String) :
    ∃ l', close config t price ts reason l = .ok ⟨⟩ l' ∧ l'.Sound ∧
      l'.state.open = l.state.open.erase t ∧ l'.state.seen = l.state.seen := by
  obtain ⟨hentry, hquantity, -⟩ := h.entered t ht
  have hshares : (0 : ℚ) ≤ t.quantity := by exact_mod_cast hquantity.le
  obtain ⟨buy, hbuy⟩ := hrated.charges .buy (mul_nonneg hentry.le hshares) false
  obtain ⟨sell, hsell⟩ := hrated.charges .sell (mul_nonneg hprice.le hshares) true
  let charges : ℚ := buy.total + sell.total
  let closed := closing config t price ts reason charges
  let item := waiting t ts closed.netReturnPct
  have hrun : Ledger.close config t price ts reason l = .ok ⟨⟩
      { state := { l.state with
          «open» := l.state.open.erase t
          settling := l.state.settling ++ [item] }
        saved := l.saved, emitted := l.emitted ++ [.closed closed] } := by
    rw [Ledger.close, Effect.run_bind_ok (Effect.run_modify ..), hbuy, hsell]
    rfl
  exact ⟨_, hrun, h.closes ht rfl rfl rfl rfl hlater, rfl, rfl⟩

theorem exitReason_later {t : OpenTrade} {q : Quote} {reason : String}
    (h : exitReason t q = some reason) : t.entryTs < q.receiptTs := by
  unfold exitReason at h
  split at h
  · cases h
  · rename_i hlater
    exact not_le.mp hlater

/-- The second loop of a quote. -/
theorem Sound.closeDue {config : Config} (hrated : config.Rated) (q : Quote)
    {ts : List OpenTrade} (hnodup : ts.Nodup) (h : l.Sound) (hts : ∀ t ∈ ts, t ∈ l.state.open) :
    ∃ closed l', Ledger.closeDue config q ts l = .ok closed l' ∧ l'.Sound ∧
      (closed = false → l' = l) ∧ l'.state.seen = l.state.seen := by
  induction ts generalizing l with
  | nil => exact ⟨false, l, rfl, h, fun _ => rfl, rfl⟩
  | cons t rest ih =>
    have hrest := (List.nodup_cons.mp hnodup).2
    rw [Ledger.closeDue]
    cases hreason : exitReason t q with
    | none => exact ih hrest h fun t' ht' => hts t' (List.mem_cons_of_mem t ht')
    | some reason =>
      obtain ⟨l₁, hrun, hsound, hopen, hseen⟩ := h.close hrated (hts t (List.mem_cons_self ..)) q.ltp_pos
        (exitReason_later hreason) reason
      obtain ⟨closed, l₂, hruns, hsound', -, hseen'⟩ := ih hrest hsound fun t' ht' => by
        rw [hopen]
        exact mem_erase_rest hnodup ht' (hts t' (List.mem_cons_of_mem t ht'))
      refine ⟨true, l₂, ?_, hsound', (fun hfalse => by cases hfalse), hseen'.trans hseen⟩
      simp only
      rw [Effect.run_bind_ok hrun, Effect.run_bind_ok hruns]
      rfl

/-- The pending signals that a quote would enter can be paid. -/
def Fits (config : Config) (l : Ledger) : Action → Prop
  | .quote q => due q l.state ≠ [] → q.ltp ≤ config.notional
  | _ => True

/-- No pending signal and no open trade is there twice. -/
theorem Sound.listed (h : l.Sound) : l.state.pending.Nodup ∧ l.state.open.Nodup := by
  have hplaced : ∀ id, l.places id ≤ 1 := fun id => h.placed id ▸ h.distinct id
  simp only [places] at hplaced
  constructor
  · refine List.Nodup.of_map Pending.signalId (List.nodup_iff_count_le_one.mpr fun id => ?_)
    have := hplaced id
    simp only [State.pendingIds] at this
    omega
  · refine List.Nodup.of_map OpenTrade.signalId (List.nodup_iff_count_le_one.mpr fun id => ?_)
    have := hplaced id
    simp only [State.openIds] at this
    omega

theorem Sound.save (h : l.Sound) : l.save.Sound :=
  ⟨h.distinct, h.placed, h.opened, h.closed, h.entered, h.ordered⟩

/-- The state in memory is the one a restart would load. -/
def Durable (l : Ledger) : Prop := l.saved.getD .empty = l.state

theorem Sound.onQuote (h : l.Sound) {config : Config} (hrated : config.Rated) {q : Quote}
    (hfits : due q l.state ≠ [] → q.ltp ≤ config.notional) :
    ∃ l', Ledger.onQuote config q l = .ok ⟨⟩ l' ∧ l'.Sound ∧ (l.Durable → l'.Durable) ∧
      l'.state.seen = l.state.seen := by
  obtain ⟨hsound, hseen⟩ := h.enterDue config (h.listed.1.filter _)
    (fun p hp => (List.mem_filter.mp hp).1) hfits
  obtain ⟨closed, l', hrun, hsound', hsame, hseen'⟩ :=
    hsound.closeDue hrated q (hsound.listed.2.filter _) fun t ht => (List.mem_filter.mp ht).1
  have hstart : Ledger.onQuote config q l =
      (if !(due q l.state).isEmpty || closed then modify Ledger.save else pure ⟨⟩ :
        EStateM Exc Ledger PUnit) l' := by
    rw [Ledger.onQuote, Effect.run_bind_ok (Effect.run_get l),
      Effect.run_bind_ok (Effect.run_modify ..), Effect.run_bind_ok (Effect.run_get _)]
    exact Effect.run_bind_ok hrun
  rw [hstart]
  by_cases hchanged : !(due q l.state).isEmpty || closed
  · rw [if_pos hchanged]
    exact ⟨_, rfl, hsound'.save, fun _ => rfl, hseen'.trans hseen⟩
  · rw [if_neg hchanged]
    obtain ⟨hdue, hclosed⟩ : due q l.state = [] ∧ closed = false := by simpa using hchanged
    refine ⟨_, rfl, hsound', fun hdurable => ?_, hseen'.trans hseen⟩
    rw [hsame hclosed]
    show Durable (Ledger.enterDue config q (due q l.state) l)
    rw [hdue]
    exact hdurable

theorem alphaOf_id {config : Config} {closes : IndexCloses} {item : Settling}
    {alpha : AlphaSettled} (h : alphaOf config closes item = some alpha) :
    alpha.signalId = item.signalId := by
  unfold alphaOf at h
  split at h
  · cases h
  · split at h
    · cases h
      rfl
    · cases h

theorem Sound.settleAll (h : l.Sound) (config : Config) (closes : IndexCloses)
    {items : List Settling} (hnodup : items.Nodup) (hitems : ∀ i ∈ items, i ∈ l.state.settling) :
    (Ledger.settleAll config closes items l).2.Sound ∧
      ((Ledger.settleAll config closes items l).1 = 0 →
        (Ledger.settleAll config closes items l).2 = l) ∧
      (Ledger.settleAll config closes items l).2.state.seen = l.state.seen := by
  induction items generalizing l with
  | nil => exact ⟨h, fun _ => rfl, rfl⟩
  | cons item rest ih =>
    have hrest := (List.nodup_cons.mp hnodup).2
    rw [Ledger.settleAll]
    cases halpha : alphaOf config closes item with
    | none => exact ih h hrest fun i hi => hitems i (List.mem_cons_of_mem item hi)
    | some alpha =>
      have hone : ({ l.emit (.settled alpha) with
          state := { l.state with settling := l.state.settling.erase item } } : Ledger).Sound :=
        h.settles (hitems item (List.mem_cons_self ..)) rfl rfl (alphaOf_id halpha)
      obtain ⟨hsound, -, hseen⟩ := ih hone hrest fun i hi =>
        mem_erase_rest hnodup hi (hitems i (List.mem_cons_of_mem item hi))
      exact ⟨hsound, fun hzero => absurd hzero (Nat.succ_ne_zero _), hseen⟩

theorem Sound.settleAlpha (h : l.Sound) (config : Config) (closes : IndexCloses) :
    (l.settleAlpha config closes).2.Sound ∧
      (l.Durable → (l.settleAlpha config closes).2.Durable) ∧
      (l.settleAlpha config closes).2.state.seen = l.state.seen := by
  have hnodup : l.state.settling.Nodup := by
    refine List.Nodup.of_map Settling.signalId (List.nodup_iff_count_le_one.mpr fun id => ?_)
    have hplaced := h.placed id
    have := h.distinct id
    simp only [places, State.settlingIds] at hplaced
    omega
  obtain ⟨hsound, hsame, hseen⟩ := h.settleAll config closes hnodup fun i hi => hi
  unfold Ledger.settleAlpha
  simp only
  split
  · rename_i hnone
    exact ⟨hsound, fun hdurable => (hsame hnone).symm ▸ hdurable, hseen⟩
  · exact ⟨hsound.save, fun _ => rfl, hseen⟩

/-! ## Runs -/

/-- One step; also a restart loads what was in memory. -/
theorem Sound.step (h : l.Sound) (hdurable : l.Durable) {config : Config}
    (hrated : config.Rated) {a : Action} (hfits : l.Fits config a) :
    (l.step config a).Sound ∧ (l.step config a).Durable ∧
      ∀ id, id ∈ l.state.seen ∨ id ∈ a.accepted → id ∈ (l.step config a).state.seen := by
  cases a with
  | track signals atr =>
    obtain ⟨hsound, hkept, haccepted⟩ :=
      Sound.trackAll atr signals (l := l) (s := l.state)
        ⟨h.distinct, h.placed, h.opened, h.closed, h.entered, h.ordered⟩
    refine ⟨hsound.save, rfl, fun id hid => ?_⟩
    exact hid.elim (hkept id) (haccepted id)
  | quote q =>
    obtain ⟨l', hrun, hsound, hsaved, hseen⟩ := h.onQuote hrated hfits
    have hstep : l.step config (.quote q) = l' := by
      rw [Ledger.step, hrun]
      rfl
    rw [hstep, hseen]
    exact ⟨hsound, hsaved hdurable, fun id hid => hid.elim (fun h => h) nofun⟩
  | sessionStart day closes atr =>
    exact ⟨h.trails config day closes atr, rfl, fun id hid => hid.elim (fun h => h) nofun⟩
  | settleAlpha closes =>
    obtain ⟨hsound, hsaved, hseen⟩ := h.settleAlpha config closes
    refine ⟨hsound, hsaved hdurable, fun id hid => ?_⟩
    rw [Ledger.step, hseen]
    exact hid.elim (fun h => h) nofun
  | restart =>
    have hstep : l.step config .restart = l := by
      rw [Ledger.step, Ledger.restart, hdurable]
    rw [hstep]
    exact ⟨h, hdurable, fun id hid => hid.elim (fun h => h) nofun⟩

/-- Every step of a run fits the state it meets. -/
def FitsAll (config : Config) : List Action → Ledger → Prop
  | [], _ => True
  | a :: rest, l => l.Fits config a ∧ FitsAll config rest (l.step config a)

theorem Sound.run {config : Config} (hrated : config.Rated) {actions : List Action}
    (h : l.Sound) (hdurable : l.Durable) (hfits : FitsAll config actions l) :
    (run config actions l).Sound ∧ ∀ id, id ∈ l.state.seen ∨
      id ∈ actions.flatMap Action.accepted → id ∈ (run config actions l).state.seen := by
  induction actions generalizing l with
  | nil => exact ⟨h, fun id hid => by simpa [Ledger.run] using hid⟩
  | cons a rest ih =>
    obtain ⟨hsound, hsaved, hseen⟩ := h.step hdurable hrated hfits.1
    obtain ⟨hsound', hseen'⟩ := ih hsound hsaved hfits.2
    refine ⟨hsound', fun id hid => hseen' id ?_⟩
    rw [List.flatMap_cons, List.mem_append] at hid
    rcases hid with hid | hid | hid
    · exact .inl (hseen id (.inl hid))
    · exact .inl (hseen id (.inr hid))
    · exact .inr hid

/-- In every run of a ledger with rates for its product, in which no quote above the
notional meets a signal it would enter, every counterfactual lives its life. -/
theorem counterfactuals_kept (config : Config) (hrated : config.Rated) (actions : List Action)
    (hfits : FitsAll config actions init) :
    LifeCycle (Ledger.run config actions init) (actions.flatMap Action.accepted) := by
  obtain ⟨hsound, hseen⟩ := Sound.init.run hrated rfl hfits
  exact hsound.lifeCycle fun id hid => hseen id (.inr hid)

end Ledger

/-! ## One signal and one quote -/

namespace OneSignal

theorem preOpen_le : (32400000000 : ℤ) ≤ 33300000000 := by decide

theorem opening_lt : (33300000000 : ℤ) < 55800000000 := by decide

theorem notional_pos : (0 : ℚ) < 100000 := by decide

/-- No charges, and a lakh of rupees for every signal. -/
def config : Config :=
  { kStopAtr := 2, kTargetAtr := 3, kTrailAtr := none, maxHoldDays := 10, costs := .zero
    calendar :=
      { default := ⟨32400000000, 33300000000, 55800000000, preOpen_le, opening_lt⟩
        years := [2026], holidays := [], specials := .empty }
    notional := 100000, notional_pos }

theorem rated : config.Rated := ⟨_, rfl⟩

theorem named : "S" ≠ "" ∧ "D" ≠ "" ∧ "NSE:EQ:MRF" ≠ "" ∧ "momentum" ≠ "" := by decide

theorem score_mem : (0 : ℚ) ≤ 1 / 2 ∧ (1 / 2 : ℚ) ≤ 1 := by norm_num

theorem mults_pos : (0 : ℚ) < 2 ∧ (0 : ℚ) < 3 := by decide

def signal : Signal :=
  { signalId := "S", decisionId := "D", instrumentKey := "NSE:EQ:MRF", strategy := "momentum"
    side := .buy, barDate := 20728, agreementScore := 1 / 2, stopAtrMult := 2
    targetAtrMult := 3, isShadow := false, generatedAt := 0, named, score_mem, mults_pos }

theorem no_prevClose : ∀ p ∈ (none : Option ℚ), 0 < p := by simp

theorem volume_nonneg : (0 : ℤ) ≤ 1 := by decide

/-- A quote a second after the decision. -/
def quote (ltp : ℚ) (ltp_pos : 0 < ltp) : Quote :=
  { instrumentKey := "NSE:EQ:MRF", ltp, prevClose := none, volumeCum := 1
    exchangeTs := 1000000, receiptTs := 1000000, ltp_pos, prevClose_pos := no_prevClose
    volumeCum_nonneg := volume_nonneg }

theorem dear_pos : (0 : ℚ) < 140000 := by decide

theorem cheap_pos : (0 : ℚ) < 1000 := by decide

def tracking : Action := .track [signal] (.ofList [("NSE:EQ:MRF", some 20)])

end OneSignal

open OneSignal in
/-- A share dearer than the notional takes the signal off the ledger. -/
theorem dear_share_lost : ¬LifeCycle
    (Ledger.run config [tracking, .quote (quote 140000 dear_pos)] Ledger.init)
    ([tracking, .quote (quote 140000 dear_pos)].flatMap Action.accepted) := by
  intro h
  have haccepted : "S" ∈ [tracking, .quote (quote 140000 dear_pos)].flatMap Action.accepted := by
    decide +kernel
  have hplaces := h.somewhere "S" haccepted
  revert hplaces
  decide +kernel

open OneSignal in
theorem counterfactuals_kept_one : LifeCycle
    (Ledger.run config [tracking, .quote (quote 1000 cheap_pos)] Ledger.init)
    ([tracking, .quote (quote 1000 cheap_pos)].flatMap Action.accepted) :=
  Ledger.counterfactuals_kept config rated [tracking, .quote (quote 1000 cheap_pos)]
    ⟨trivial, fun _ => by decide +kernel, trivial⟩

end RakshaQuant.Shadow
