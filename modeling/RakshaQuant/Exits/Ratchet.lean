import RakshaQuant.Desk.ReduceOnly
import RakshaQuant.Desk.Resting
import RakshaQuant.Exits.Touches

/-! Protective stops only ratchet up, as long as nothing older is taken for them. The
stop price of a managed position moves in three places: the daily update raises it, a
resting order that is adopted replaces it by its trigger, and a restart brings back
what was saved. The last two go down where the order or the save is older than the
stop price. -/

namespace RakshaQuant

namespace Exits

/-- The stop price stays or goes up. -/
def Rises (pos pos' : ManagedPosition) : Prop := pos.stopPrice ≤ pos'.stopPrice

theorem mild_rises : Mild Rises where
  refl _ := le_rfl
  trans h h' := le_trans h h'
  nextVersion _ := le_rfl
  withStop _ _ := le_rfl
  close _ := le_rfl
  takePartial _ := le_rfl

theorem rises_trailed (policy : ExitPolicy) (close atr : Option ℚ) (pos : ManagedPosition) :
    Rises pos (pos.trailed policy close atr) := by
  unfold Rises ManagedPosition.trailed
  dsimp only
  split
  · exact le_rfl
  · split
    · exact le_of_lt ‹_›
    · exact le_rfl

/-! ## Fills and reconciliation -/

/-- A position is let go, or keeps its stop price. -/
def Holds (key : String) (e e' : Exits) : Prop :=
  ∀ pos, e.position? key = some pos → ∀ pos', e'.position? key = some pos' →
    pos'.stopPrice = pos.stopPrice

theorem Holds.of_eq {key : String} {e e' : Exits} (h : e'.position? key = e.position? key) :
    Holds key e e' := by
  intro pos hpos pos' hpos'
  rw [h, hpos, Option.some.injEq] at hpos'
  rw [hpos']

/-- A fill moves the stop price of a position only when it is an entry to it. -/
theorem holds_onFill (policy : ExitPolicy) (fill : Fill) (order : Order) (o : OMS) (e : Exits)
    (key : String)
    (h : order.intent.reduceOnly = true ∨
      positionKey order.intent.instrument.key order.intent.product ≠ key) :
    Holds key e (onFill policy fill order o e).1 := by
  by_cases hkey : key = positionKey order.intent.instrument.key order.intent.product
  · have hro := h.resolve_right (not_not.mpr hkey.symm)
    intro before hbefore after hafter
    rw [position?_onFill_exit _ _ _ _ _ hro hkey rfl] at hafter
    split at hafter
    · cases hafter
    · rw [hbefore, Option.map_some, Option.some.injEq] at hafter
      rw [← hafter]
  · exact .of_eq (position?_onFill_other _ _ _ _ _ hkey)

/-- What `reconcile` makes of a managed position: it is dropped, or it keeps its stop. -/
theorem holds_takeStock (policy : ExitPolicy) (now : Instant) (newId : String → String)
    (atr : String → Option ℚ) (o : OMS) (e : Exits) (key : String) :
    Holds key e (takeStock policy now newId atr o e).1 := by
  unfold takeStock
  generalize hbook : (o.book.positions now).filter (fun p => p.quantity ≠ 0) = book
  dsimp only
  by_cases hheld : key ∈ book.map fun p => positionKey p.instrumentKey p.product
  · -- the book holds it: each of its positions only recounts it
    intro pos hpos after hafter
    have hkept : (dropGhosts (book.map fun p => positionKey p.instrumentKey p.product)
        e.state.positions.keys e).1.position? key = some pos := by
      rw [position?_dropGhosts, if_neg fun h => h.2 hheld, hpos]
    obtain ⟨after', hafter', hsame⟩ := keeps_reconcileAll policy now newId atr o book hkept
    rw [hafter', Option.some.injEq] at hafter
    rw [← hafter, hsame]
  · intro pos hpos after hafter
    have hmanaged : key ∈ e.state.positions.keys := (Dict.mem_keys_iff _).mpr ⟨pos, hpos⟩
    rw [position?_reconcileAll policy now newId atr o (by simpa using hheld),
      position?_dropGhosts, if_pos ⟨hmanaged, hheld⟩] at hafter
    cases hafter

end Exits

namespace ExitManager

open BrokerStep (anyEnd)

/-! ## The stop of one position -/

/-- The order the stop is recorded as is live and has the stop price as its trigger. -/
def Protected (key : String) (w : Paper Exits) : Prop :=
  ∃ pos coid order, w.exits.position? key = some pos ∧ pos.stopCoid = some coid ∧
    w.desk.oms.orders.get? coid = some order ∧ order.status.isTerminal = false ∧
    order.intent.triggerPrice = some pos.stopPrice

theorem intent_trigger {call : ExitCall} {bookId : String} {pos : ManagedPosition}
    {leg : ExitLeg} {i : OrderIntent} (h : intent call bookId pos leg = .ok i) :
    i.triggerPrice = leg.trigger := by
  unfold intent at h
  cases hid : intentId bookId pos.strategy pos.instrument.key pos.signalBarDate leg.leg with
  | error e =>
    rw [hid] at h
    cases h
  | ok id =>
    rw [hid] at h
    simp only [bind, Except.bind, ManagedPosition.exitIntent] at h
    split at h
    · cases h
      rfl
    · cases h

section stop

variable (m : ExitManager) (call : ExitCall) (key : String) {pos : ManagedPosition}
  {w : Paper Exits}

/-- The order a submitted exit is answered with: a new one with its intent, or the one
that was there under its id. Where the answer counts as accepted it is live. -/
def Answer (pos : ManagedPosition) (leg : ExitLeg) (w : Paper Exits) (result : SubmitResult)
    (w' : Paper Exits) : Prop :=
  ∀ order, result.order = some order →
    ∃ i, intent call w.desk.oms.bookId pos leg = .ok i ∧
      order.clientOrderId = m.config.clientOrderId i.intentId ∧
      System.Stands order.clientOrderId result w' ∧
      (System.Placed order.clientOrderId i w' ∨
        w.desk.oms.orders.get? order.clientOrderId = some order)

theorem answers_submitExit (pos : ManagedPosition) (leg : ExitLeg) (hk : Keyed w)
    (hunspent : ∀ i, intent call w.desk.oms.bookId pos leg = .ok i →
      System.Unspent (m.config.clientOrderId i.intentId) w) :
    Effect.Moves (Touched Exits.Rises) (Eq w) (m.submitExit call pos leg)
      (fun result w' => Answer m call pos leg w result w' ∧ Beside (fun _ => True) w w')
      (fun _ w' => Beside (fun _ => True) w w') := by
  refine Effect.Moves.read ?_
  rintro _ rfl
  refine BrokerStep.moves_ofExcept (fun i hi => ?_) ?_
  · have hsubmit := (System.beside_submit m.system call.now call.brokerNow i none call.gate
      call.delivery hk).and (System.ends_submit m.system call.now call.brokerNow i none call.gate
        call.delivery hk (hunspent i hi))
    refine ((hsubmit.keeping (I := Beside (fun _ => True) w) fun _ _ hstep h =>
        h.trans (hstep.mono fun _ _ => trivial)).lift
          fun _ _ => Touched.beside Exits.mild_rises).conseq
      (fun _ h => ⟨h, h ▸ .refl w⟩) (fun result w' h => ⟨fun order ho => ⟨i, hi, ?_⟩, h.2⟩)
      fun _ _ h => h.2
    obtain ⟨⟨hanswered, hstands⟩, -⟩ := h
    rcases hanswered order ho with ⟨hid, hplaced⟩ | hold
    · exact ⟨hid, hid ▸ hstands, .inl hplaced⟩
    · have hid : order.clientOrderId = m.config.clientOrderId i.intentId := hk _ _ hold
      exact ⟨hid, hid ▸ hstands, .inr (hid ▸ hold)⟩
  · rintro e _ - rfl
    exact .refl w

/-- A new stop is placed and live, or the marks stay. Where its id was taken, the order
under it is taken for the stop. -/
theorem placeStop_protects (hk : Keyed w) (hpos : w.exits.position? key = some pos)
    (hfree : ∀ i, intent call w.desk.oms.bookId pos (stopLeg call pos) = .ok i →
      System.Unspent (m.config.clientOrderId i.intentId) w ∧
      ∀ order, w.desk.oms.orders.get? (m.config.clientOrderId i.intentId) = some order →
        order.intent.triggerPrice = some pos.stopPrice) :
    Effect.Moves (Touched Exits.Rises) (Eq w) (m.placeStop call key pos)
      (fun _ w' => w'.exits.staleStops = w.exits.staleStops ∨ Protected key w')
      (fun _ w' => w'.exits.staleStops = w.exits.staleStops ∨ Protected key w') := by
  have hversion : Touched Exits.Rises w (w.mapExits (.update key .nextVersion)) :=
    .of_exits (.update Exits.mild_rises fun _ _ => le_rfl) rfl rfl
  refine Effect.Moves.after (M := Eq (w.mapExits (.update key .nextVersion))) ?_ ?_
  · rintro _ rfl
    exact ⟨.single hversion, rfl⟩
  -- the id of the order holds the version, which is counted up before the submission
  have hsubmit := answers_submitExit m call pos (w := w.mapExits (.update key .nextVersion))
    (stopLeg call pos) hk fun i hi => ⟨(hfree i hi).1.known, (hfree i hi).1.resting⟩
  refine Effect.Moves.bind (hsubmit.conseq (fun _ h => h) (fun _ _ h => h) fun _ w' h => ?_)
    fun result => Effect.Moves.change fun w' hw' => ?_
  · left
    rw [World.exits, h.ext]
    rfl
  obtain ⟨hanswer, hbeside⟩ := hw'
  have hexits : w'.exits = w.exits.update key .nextVersion := hbeside.ext
  have hrecorded := touches_recordStop Exits.mild_rises key result w'
  unfold recordStop at hrecorded ⊢
  split at hrecorded
  · rename_i order haccepted horder
    refine ⟨.single hrecorded, .inr ?_⟩
    obtain ⟨i, hi, hid, hstands, hplaced⟩ := hanswer order horder
    have hlive : w'.desk.oms.LiveAt order.clientOrderId := hstands haccepted
    have hknown : ∃ known, w'.desk.oms.orders.get? order.clientOrderId = some known ∧
        known.intent.triggerPrice = some pos.stopPrice := by
      -- the order is new, or the one that stood under its id
      rcases hplaced with ⟨-, known, hknown, hintent⟩ | hold
      · refine ⟨known, hknown, ?_⟩
        rw [hintent, intent_trigger hi]
        rfl
      · obtain ⟨known, hknown, hintent⟩ := (hbeside.oms hk).intent hold
        refine ⟨known, hknown, ?_⟩
        rw [hintent]
        exact (hfree i hi).2 order (hid ▸ hold)
    obtain ⟨known, hknown, htrigger⟩ := hknown
    refine ⟨pos.nextVersion.withStop (some order.clientOrderId), order.clientOrderId, known, ?_,
      rfl, hknown, hlive.get hknown, htrigger⟩
    show ((w'.exits.update key (.withStop (some order.clientOrderId))).clearStale key).position? key
      = _
    simp [hexits, hpos]
  · refine ⟨.single hrecorded, .inl ?_⟩
    show w'.exits.staleStops = _
    rw [hexits, Exits.staleStops_update]

end stop

/-- The id of a new stop is free, or stands for a live order at this very price: nothing
that has ended stands under it, and what stands there is not what is cancelled. -/
structure Free (price : ℚ) (working : Option String) (coid : String) (w : Paper Exits) : Prop where
  unspent : System.Unspent coid w
  priced : ∀ order, w.desk.oms.orders.get? coid = some order →
    order.intent.triggerPrice = some price
  spared : ∀ cancelled ∈ working, System.Spares coid cancelled w

/-- Nothing older than the stop price is taken for the stop of a position: a resting
order that is adopted has its trigger no lower, and the id of a new stop is free for it. -/
structure Current (m : ExitManager) (call : ExitCall) (pos : ManagedPosition) (w : Paper Exits) :
    Prop where
  adopts : ∀ live trigger, Exits.stopAction w.desk.oms pos = .adopt live trigger →
    pos.stopPrice ≤ trigger
  places : ∀ working, Exits.stopAction w.desk.oms pos = .replace working → ∀ i,
    intent call w.desk.oms.bookId pos (stopLeg call pos) = .ok i →
    Free pos.stopPrice working (m.config.clientOrderId i.intentId) w

theorem adopts_live {o : OMS} {pos : ManagedPosition} {live : Order} {trigger : ℚ}
    (hk : o.Keyed) (h : Exits.stopAction o pos = .adopt live trigger) :
    o.orders.get? live.clientOrderId = some live ∧ live.status.isTerminal = false ∧
      live.intent.triggerPrice = some trigger := by
  unfold Exits.stopAction at h
  split at h
  · split at h
    · cases h
    · rename_i found hfound
      split at h
      · rename_i price hprice
        split at h
        · cases h
          obtain ⟨coid, hheld⟩ := (Dict.mem_values_iff _).mp (List.mem_of_find?_eq_some hfound)
          have hrests := List.find?_some hfound
          simp only [Bool.and_eq_true, Bool.not_eq_true'] at hrests
          rw [hk _ _ hheld]
          exact ⟨hheld, hrests.2, hprice⟩
        · cases h
      · cases h
  · split at h
    · split at h <;> cases h
    · cases h

section refresh

variable (m : ExitManager) (call : ExitCall) (key : String) {w : Paper Exits}

/-- A refreshed position is protected at its stop price, or stays marked. -/
def Refreshed (w w' : Paper Exits) : Prop :=
  w'.exits.staleStops = w.exits.staleStops ∨ Protected key w' ∨
    ∀ pos, w.exits.position? key = some pos → pos.closing = true ∨ pos.quantity ≤ 0

/-- A resting order that is adopted protects the position at its trigger. -/
theorem adopt_protects (hk : Keyed w) {pos : ManagedPosition}
    (hpos : w.exits.position? key = some pos) {live : Order} {trigger : ℚ} (haction : Exits.stopAction w.desk.oms pos = .adopt live trigger)
    (hle : pos.stopPrice ≤ trigger) :
    Effect.Moves (Touched Exits.Rises) (Eq w)
      (modify (World.mapExits fun e => (e.update key fun pos =>
        { pos with stopCoid := some live.clientOrderId, stopPrice := trigger }).clearStale key) :
        EStateM Exc (Paper Exits) PUnit)
      (fun _ => Refreshed key w) (fun _ => Refreshed key w) := by
  obtain ⟨hheld, hlive, htrigger⟩ := adopts_live hk haction
  refine Effect.Moves.change ?_
  rintro _ rfl
  have hadopt : w.exits.Touches Exits.Rises (w.exits.update key fun pos =>
      { pos with stopCoid := some live.clientOrderId, stopPrice := trigger }) :=
    .update Exits.mild_rises fun pos' h => by
      rw [hpos, Option.some.injEq] at h
      exact h ▸ hle
  refine ⟨.single (.of_exits (hadopt.clearStale Exits.mild_rises key) rfl rfl), .inr (.inl ?_)⟩
  refine ⟨{ pos with stopCoid := some live.clientOrderId, stopPrice := trigger },
    live.clientOrderId, live, ?_, rfl, hheld, hlive, htrigger⟩
  show ((w.exits.update key _).clearStale key).position? key = _
  simp [hpos]

/-- A working stop is cancelled and a new one is placed for it. -/
theorem replace_protects (hk : Keyed w) {pos : ManagedPosition}
    (hpos : w.exits.position? key = some pos) {coid : String}
    (hfree : ∀ i, intent call w.desk.oms.bookId pos (stopLeg call pos) = .ok i →
      Free pos.stopPrice (some coid) (m.config.clientOrderId i.intentId) w) :
    Effect.Moves (Touched Exits.Rises) (Eq w)
      (do m.cancel call coid
          m.placeStop call key pos)
      (fun _ => Refreshed key w) (fun _ => Refreshed key w) := by
  -- the cancel registers nothing, and leaves what stands under the new id as it was
  have hquiet : Effect.Moves (Beside fun _ => False) (fun _ => True) (m.cancel call coid)
      anyEnd anyEnd := System.beside_cancel m.system call.brokerNow coid
  have hspared := Effect.Ends.all
    (p := fun i => intent call w.desk.oms.bookId pos (stopLeg call pos) = .ok i)
    fun i hi => System.ends_cancel m.system (m.config.clientOrderId i.intentId)
      call.brokerNow coid hk ((hfree i hi).spared coid rfl)
  have hcancel := (hquiet.keeping (I := Beside (fun _ => False) w)
    fun _ _ hstep h => h.trans hstep).lift fun _ _ => Touched.beside Exits.mild_rises
  refine Effect.Moves.bind (((hcancel.conseq (M := Eq w)
    (fun _ h => ⟨trivial, h ▸ .refl w⟩) (fun _ _ h => h.2) fun _ _ h => h.2).and
      hspared).conseq (fun _ h => h) (fun _ _ h => h) ?_) ?_
  · intro _ w' h
    left
    rw [World.exits, h.1.ext]
    rfl
  intro _ w' h
  obtain ⟨hbeside, huntouched⟩ := h
  have homs := hbeside.oms hk
  have hexits : w'.exits = w.exits := hbeside.ext
  have hbook : w'.desk.oms.bookId = w.desk.oms.bookId := by
    rw [OMS.bookId, homs.book, OMS.bookId]
  refine ((placeStop_protects m call key homs.keyed (hexits ▸ hpos) ?_).conseq
    (V := fun _ => Refreshed key w) (F := fun _ => Refreshed key w) (fun _ h => h)
    (fun _ _ h => ?_) fun _ _ h => ?_) w' rfl
  · intro i hi
    have hi' : intent call w.desk.oms.bookId pos (stopLeg call pos) = .ok i := hbook ▸ hi
    have hid := huntouched i hi'
    exact ⟨(hfree i hi').unspent.untouched hid, hid.known ▸ (hfree i hi').priced⟩
  · exact (hexits ▸ h).imp_right .inl
  · exact (hexits ▸ h).imp_right .inl

theorem refreshOne_protects (hk : Keyed w)
    (hcurrent : ∀ pos, w.exits.position? key = some pos → m.Current call pos w) :
    Effect.Moves (Touched Exits.Rises) (Eq w) (m.refreshOne call key) (fun _ => Refreshed key w)
      (fun _ => Refreshed key w) := by
  have hclear : (∀ pos, w.exits.position? key = some pos →
      pos.closing = true ∨ pos.quantity ≤ 0) → Effect.Moves (Touched Exits.Rises) (Eq w)
        (modify (World.mapExits (.clearStale key)) : EStateM Exc (Paper Exits) PUnit)
        (fun _ => Refreshed key w) (fun _ => Refreshed key w) := by
    intro hdone
    refine Effect.Moves.change ?_
    rintro _ rfl
    have hcleared : w.exits.Touches Exits.Rises (w.exits.clearStale key) :=
      .clearStale Exits.mild_rises (.of_eq Exits.mild_rises (fun _ => rfl) rfl) key
    exact ⟨.single (.of_exits hcleared rfl rfl), .inr (.inr hdone)⟩
  refine Effect.Moves.read ?_
  rintro _ rfl
  cases hpos : w.exits.position? key with
  | none => exact hclear fun pos h => by rw [hpos] at h; cases h
  | some pos =>
    dsimp only
    split
    · rename_i hdone
      refine hclear fun pos' h => ?_
      rw [hpos, Option.some.injEq] at h
      exact h ▸ hdone
    · refine Effect.Moves.read ?_
      rintro _ rfl
      obtain ⟨hadopts, hplaces⟩ := hcurrent pos hpos
      cases haction : Exits.stopAction w.desk.oms pos with
      | adopt live trigger =>
        exact adopt_protects key hk hpos haction (hadopts live trigger haction)
      | replace working =>
        have hfree := hplaces _ haction
        cases working with
        | none =>
          exact (placeStop_protects m call key hk hpos fun i hi =>
            ⟨(hfree i hi).unspent, (hfree i hi).priced⟩).conseq (fun _ h => h)
              (fun _ _ h => h.imp_right .inl) fun _ _ h => h.imp_right .inl
        | some coid => exact replace_protects m call key hk hpos hfree

end refresh

/-! ## Runs -/

/-- The step is an entry fill of this position. -/
def Enters (key : String) (w : Paper Exits) : Move → Prop
  | .filled fill => ∃ order, w.desk.oms.orders.get? fill.clientOrderId = some order ∧
      order.intent.reduceOnly = false ∧
      positionKey order.intent.instrument.key order.intent.product = key
  | _ => False

/-- The step takes nothing old for new: a refresh finds no older stop and no spent id, and
a restart finds no older save. -/
def UpToDate (m : ExitManager) (w : Paper Exits) : Move → Prop
  | .acted (.refresh call key) => ∀ pos, w.exits.position? key = some pos →
      m.Current call pos w
  | .restarted => ∀ key pos saved, w.exits.position? key = some pos →
      w.exits.restart.position? key = some saved → pos.stopPrice ≤ saved.stopPrice
  | _ => True

/-- A position that is still managed has a stop price no lower. -/
def Kept (key : String) (w w' : Paper Exits) : Prop :=
  ∀ pos, w.exits.position? key = some pos → ∀ pos', w'.exits.position? key = some pos' →
    pos.stopPrice ≤ pos'.stopPrice

theorem Kept.of_touched {key : String} {w w' : Paper Exits}
    (h : Touched Exits.Rises w w') : Kept key w w' := by
  intro pos hpos pos' hpos'
  obtain ⟨after, hafter, hle⟩ := h.exits.after hpos
  rw [hafter, Option.some.injEq] at hpos'
  exact hpos' ▸ hle

theorem Kept.of_holds {key : String} {w w' : Paper Exits}
    (h : Exits.Holds key w.exits w'.exits) : Kept key w w' :=
  fun pos hpos pos' hpos' => (h pos hpos pos' hpos').ge

variable {m : ExitManager} {w w' : Paper Exits} {move : Move}

/-- The step lemma: between two entry fills a stop price is kept or raised. -/
theorem Step.kept {key : String} (step : m.Step move w w') (hk : Keyed w)
    (hnew : m.UpToDate w move) (hentry : ¬Enters key w move) : Kept key w w' := by
  have hacts : ∀ {P : Paper Exits → Prop} {f : EStateM Exc (Paper Exits) PUnit}
      {Q : PUnit → Paper Exits → Prop} {E : Exc → Paper Exits → Prop},
      Effect.Moves (Touched Exits.Rises) P f Q E → P w → Kept key w (f w).state := fun h hp =>
    .of_touched (.of_moves Exits.mild_rises (h w hp).1)
  cases step with
  | beside h => exact .of_touched (.beside Exits.mild_rises h)
  | filled fill b =>
    rcases Desk.onFill_ext m.system.listener fill hk with hsame | ⟨known, version, o, -, hknown,
      -, -, hext⟩
    · exact .of_holds (.of_eq (by rw [World.exits, hsame, World.exits]))
    · refine .of_holds ?_
      show Exits.Holds key w.desk.ext (Desk.onFill m.system.listener fill w.desk).state.ext
      rw [hext]
      refine Exits.holds_onFill m.policy fill (known.afterFill fill version) o w.desk.ext key ?_
      by_contra hc
      obtain ⟨hro, hkey⟩ := not_or.mp hc
      have hro' : known.intent.reduceOnly = false := Bool.eq_false_iff.mpr hro
      exact hentry ⟨known, hknown, hro', not_not.mp hkey⟩
  | acted a =>
    cases a with
    | expect coid entry => exact .of_holds (.of_eq rfl)
    | save => exact .of_holds (.of_eq rfl)
    | trail k close atr =>
      have htrailed : w.exits.Touches Exits.Rises
          (w.exits.update k (ManagedPosition.trailed m.policy close atr)) :=
        .update Exits.mild_rises fun pos _ => Exits.rises_trailed m.policy close atr pos
      exact .of_touched (.of_exits (htrailed.markStale Exits.mild_rises k) rfl rfl)
    | refresh call k => exact hacts (refreshOne_protects m call k hk hnew) rfl
    | exitAll call k reason leg price =>
      exact hacts (touches_exitAll Exits.mild_rises m call k reason leg price) hk
    | exitPartial call k price =>
      exact hacts (touches_exitPartial Exits.mild_rises m call k price) hk
    | letGo call k => exact hacts (touches_letGo Exits.mild_rises m call k) hk
    | stocktake call atr => exact .of_holds (Exits.holds_takeStock _ _ _ _ _ _ _)
  | restarted hexits _ =>
    intro pos hpos pos' hpos'
    rw [hexits] at hpos'
    exact hnew key pos pos' hpos hpos'

/-- Steps without an entry fill of a position that is managed at each of them, none of
them taking old for new. -/
def Holding (m : ExitManager) (key : String) : Paper Exits → Paper Exits → Prop :=
  Relation.ReflTransGen fun w w' => ∃ move, m.Step move w w' ∧ m.UpToDate w move ∧
    ¬Enters key w move ∧ (w.exits.position? key).isSome

theorem Holding.kept {key : String} (h : m.Holding key w w') (hk : Keyed w) :
    Keyed w' ∧ Kept key w w' := by
  induction h with
  | refl =>
    refine ⟨hk, fun pos hpos pos' hpos' => ?_⟩
    rw [hpos, Option.some.injEq] at hpos'
    rw [hpos']
  | tail _ hstep ih =>
    obtain ⟨hkeyed, hkept⟩ := ih
    obtain ⟨move, step, hnew, hentry, hmanaged⟩ := hstep
    obtain ⟨middle, hmiddle⟩ := Option.isSome_iff_exists.mp hmanaged
    refine ⟨step.keyed hkeyed, fun pos hpos pos' hpos' => ?_⟩
    exact (hkept pos hpos middle hmiddle).trans
      (step.kept hkeyed hnew hentry middle hmiddle pos' hpos')

/-- A refresh places or adopts the stop of a position: it was marked and to be
protected, and it is not marked any more. -/
def Places (key : String) (w w' : Paper Exits) : Prop :=
  key ∈ w.exits.staleStops ∧ key ∉ w'.exits.staleStops ∧
    ∃ pos, w.exits.position? key = some pos ∧ pos.closing = false ∧ 0 < pos.quantity

/-- **Stops ratchet up.** In every run of a manager, with orders, fills, cancels and
restarts as they come: from where a position is managed to the next entry fill of it,
over steps that take no older stop and no older save for the newest, its stop price is
at no state below what it was at any earlier one; and whenever its stop is placed or
adopted, the order it is recorded as is live, with that highest stop price as its
trigger. -/
theorem stops_ratchet (m : ExitManager) (startingCash : ℚ) (key : String)
    (w₀ w : Paper Exits) (run : m.Run (m.init startingCash) w₀) (held : m.Holding key w₀ w)
    (pos₀ : ManagedPosition) (h₀ : w₀.exits.position? key = some pos₀) :
    (∀ pos, w.exits.position? key = some pos → pos₀.stopPrice ≤ pos.stopPrice) ∧
    ∀ call w', m.Step (.acted (.refresh call key)) w w' →
      m.UpToDate w (.acted (.refresh call key)) → Places key w w' →
      ∃ pos coid order, w'.exits.position? key = some pos ∧ pos.stopCoid = some coid ∧
        w'.desk.oms.orders.get? coid = some order ∧ order.status.isTerminal = false ∧
        order.intent.triggerPrice = some pos.stopPrice ∧ pos₀.stopPrice ≤ pos.stopPrice := by
  obtain ⟨hkeyed, hkept⟩ := held.kept (keyed_run run (OMS.keyed_init _))
  refine ⟨hkept pos₀ h₀, fun call w' step hnew hplaces => ?_⟩
  obtain ⟨hmarked, hunmarked, pos, hpos, hopen, hpositive⟩ := hplaces
  have hprotected : Protected key w' := by
    cases step
    rcases (refreshOne_protects m call key hkeyed hnew).holds rfl with hsame | hprotected | hdone
    · exact absurd (hsame ▸ hmarked) hunmarked
    · exact hprotected
    · rcases hdone pos hpos with hclosing | hnone
      · rw [hopen] at hclosing
        cases hclosing
      · omega
  obtain ⟨pos', coid, order, hpos', hcoid, horder, hlive, htrigger⟩ := hprotected
  have hkept' : Kept key w w' := step.kept hkeyed hnew id
  exact ⟨pos', coid, order, hpos', hcoid, horder, hlive, htrigger,
    (hkept pos₀ h₀ pos hpos).trans (hkept' pos hpos pos' hpos')⟩

end ExitManager

/-! ## A stop that still rests -/

namespace OldStop

theorem two_pos : (0 : ℚ) < 2 := by norm_num

theorem three_pos : (0 : ℚ) < 3 := by norm_num

theorem ten_days : (1 : ℤ) ≤ 10 := by decide

def policy : ExitPolicy :=
  { kStopAtr := 2, kTargetAtr := 3, kTrailAtr := some 2, maxHoldDays := 10, partialAtR := none
    partialOf := fun q => q / 2, kStopAtr_pos := two_pos, kTargetAtr_pos := three_pos
    maxHoldDays_pos := ten_days }

def manager : ExitManager := ⟨Sample.market, Sample.config, policy, Sample.calendar⟩

def call (seconds : ℤ) : ExitCall :=
  ⟨Sample.clock seconds, Sample.clock seconds, id, Sample.gate, .delivered⟩

def key : String := positionKey Sample.infy.key .cnc

def announced : Paper Exits :=
  (manager.expectEntry Sample.entry 5 20727 (manager.init 100000)).state

/-- Ten shares are bought at about 100; the ATR is 5, so the stop is at about 90. -/
def bought : Paper Exits :=
  manager.system.run announced
    [.quote (Sample.quote 0 0 Sample.zero_nonneg), Sample.submit 1 Sample.entry .delivered,
      .quote (Sample.quote 2 10 Sample.ten_nonneg)]

/-- The stop order rests at the broker. -/
def placed : Paper Exits := (manager.act (.refresh (call 3) key) bought).state

/-- The session starts again, after a restart say, with yesterday's close of 104. -/
def trailed : Paper Exits := (manager.act (.trail key (some 104) (some 5)) placed).state

def refreshed : Paper Exits := (manager.act (.refresh (call 4) key) trailed).state

/-- The stop order expires with its session. -/
def expired : Paper Exits := manager.system.run placed [.expireSession (Sample.clock 5)]

/-- The next session starts with the same close. -/
def raised : Paper Exits := (manager.act (.trail key (some 104) (some 5)) expired).state

def replaced : Paper Exits := (manager.act (.refresh (call 6) key) raised).state

theorem bought_run : manager.Run (manager.init 100000) bought := by
  have hannounced : manager.Run (manager.init 100000) announced :=
    (ExitManager.moves_expectEntry Sample.entry 5 20727 (fun _ => True) (manager.init 100000)
      trivial).1
  exact hannounced.trans (ExitManager.run_ops _
    (ExitManager.keyed_run hannounced (OMS.keyed_init _)))

theorem placed_run : manager.Run (manager.init 100000) placed :=
  bought_run.tail ⟨_, .acted (.refresh (call 3) key)⟩

theorem trailed_run : manager.Run (manager.init 100000) trailed :=
  placed_run.tail ⟨_, .acted (.trail key (some 104) (some 5))⟩

theorem expired_run : manager.Run (manager.init 100000) expired :=
  placed_run.trans (ExitManager.run_ops _ (ExitManager.keyed_run placed_run (OMS.keyed_init _)))

theorem trailed_stop : ∃ pos, trailed.exits.position? key = some pos ∧ pos.stopPrice = 94 := by
  have hstop : (trailed.exits.position? key).map ManagedPosition.stopPrice = some 94 := by
    decide +kernel
  exact Option.map_eq_some_iff.mp hstop

theorem refreshed_stop :
    ∃ pos, refreshed.exits.position? key = some pos ∧ pos.stopPrice = 1801 / 20 := by
  have hstop : (refreshed.exits.position? key).map ManagedPosition.stopPrice =
      some (1801 / 20) := by
    decide +kernel
  exact Option.map_eq_some_iff.mp hstop

theorem expired_stop :
    ∃ pos, expired.exits.position? key = some pos ∧ pos.stopPrice = 1801 / 20 := by
  have hstop : (expired.exits.position? key).map ManagedPosition.stopPrice =
      some (1801 / 20) := by
    decide +kernel
  exact Option.map_eq_some_iff.mp hstop

/-- The stop of the next session: nothing rests, and its id is new to the OMS and to the
broker. -/
theorem raised_current : manager.UpToDate raised (.acted (.refresh (call 6) key)) := by
  intro pos hpos
  have hnext : (raised.exits.position? key).map (fun pos =>
      (Exits.stopAction raised.desk.oms pos,
        (ExitManager.intent (call 6) raised.desk.oms.bookId pos
          (ExitManager.stopLeg (call 6) pos)).toOption.map fun i =>
            ((raised.desk.oms.orders.get? i.intentId).isSome,
              (raised.broker.find i.intentId).isSome))) =
      some (.replace none, some (false, false)) := by
    decide +kernel
  rw [hpos, Option.map_some, Option.some.injEq, Prod.mk.injEq] at hnext
  obtain ⟨haction, hid⟩ := hnext
  refine ⟨fun live trigger h => ?_, fun working hworking i hi => ?_⟩
  · rw [haction] at h
    cases h
  · rw [haction] at hworking
    cases hworking
    rw [hi] at hid
    obtain ⟨hnew, hfree⟩ := Prod.mk.inj (Option.some.inj hid)
    have hunheld : ∀ order, ¬raised.desk.oms.orders.get?
        (manager.config.clientOrderId i.intentId) = some order := by
      intro order horder
      have hsome : (raised.desk.oms.orders.get? i.intentId).isSome = true :=
        Option.isSome_iff_exists.mpr ⟨order, horder⟩
      rw [hnew] at hsome
      cases hsome
    have hunfound : ∀ so, ¬raised.broker.find
        (manager.config.clientOrderId i.intentId) = some so := by
      intro so hso
      have hsome : (raised.broker.find i.intentId).isSome = true :=
        Option.isSome_iff_exists.mpr ⟨so, hso⟩
      rw [hfree] at hsome
      cases hsome
    exact ⟨⟨fun order h => absurd h (hunheld order), fun _ so h => absurd h (hunfound so)⟩,
      fun order h => absurd h (hunheld order), fun _ h => by cases h⟩

theorem raised_places : ExitManager.Places key raised replaced := by
  have hmarks : key ∈ raised.exits.staleStops ∧ key ∉ replaced.exits.staleStops := by
    decide +kernel
  have hopen : (raised.exits.position? key).map (fun pos => (pos.closing, pos.quantity)) =
      some (false, 10) := by
    decide +kernel
  obtain ⟨pos, hpos, hfacts⟩ := Option.map_eq_some_iff.mp hopen
  obtain ⟨hclosing, hquantity⟩ := Prod.mk.inj hfacts
  exact ⟨hmarks.1, hmarks.2, pos, hpos, hclosing, by omega⟩

end OldStop

namespace ExitManager

/-- The daily update raises the stop to 94, and the order that still rests at about 90
is adopted in its place. -/
theorem adopted_stop_falls :
    ¬ ∀ (m : ExitManager) (startingCash : ℚ) (key : String) (w₀ w : Paper Exits),
      m.Run (m.init startingCash) w₀ →
      Relation.ReflTransGen (fun w w' => ∃ move, m.Step move w w' ∧ ¬Enters key w move ∧
        (w.exits.position? key).isSome) w₀ w →
      ∀ pos₀, w₀.exits.position? key = some pos₀ →
        (∀ pos, w.exits.position? key = some pos → pos₀.stopPrice ≤ pos.stopPrice) ∧
        ∀ call w', m.Step (.acted (.refresh call key)) w w' → Places key w w' →
          ∃ pos coid order, w'.exits.position? key = some pos ∧ pos.stopCoid = some coid ∧
            w'.desk.oms.orders.get? coid = some order ∧ order.status.isTerminal = false ∧
            order.intent.triggerPrice = some pos.stopPrice ∧ pos₀.stopPrice ≤ pos.stopPrice := by
  intro h
  obtain ⟨before, hbefore, hhigh⟩ := OldStop.trailed_stop
  obtain ⟨after, hafter, hlow⟩ := OldStop.refreshed_stop
  have hle := (h OldStop.manager 100000 OldStop.key OldStop.trailed OldStop.refreshed
    OldStop.trailed_run (.single ⟨_, .acted (.refresh (OldStop.call 4) OldStop.key), id,
      Option.isSome_iff_exists.mpr ⟨before, hbefore⟩⟩) before hbefore).1 after hafter
  rw [hhigh, hlow] at hle
  exact absurd hle (by decide +kernel)

/-- The stop of the next session, at what the trailing made of it. -/
theorem stops_ratchet_next_session :
    ∃ pos coid order, OldStop.replaced.exits.position? OldStop.key = some pos ∧
      pos.stopCoid = some coid ∧ OldStop.replaced.desk.oms.orders.get? coid = some order ∧
      order.status.isTerminal = false ∧ order.intent.triggerPrice = some pos.stopPrice ∧
      1801 / 20 ≤ pos.stopPrice := by
  obtain ⟨pos₀, h₀, hstop⟩ := OldStop.expired_stop
  rw [← hstop]
  exact (stops_ratchet OldStop.manager 100000 OldStop.key OldStop.expired OldStop.raised
    OldStop.expired_run (.single ⟨_, .acted (.trail OldStop.key (some 104) (some 5)), trivial, id,
      Option.isSome_iff_exists.mpr ⟨pos₀, h₀⟩⟩) pos₀ h₀).2 (OldStop.call 6) OldStop.replaced
      (.acted (.refresh (OldStop.call 6) OldStop.key)) OldStop.raised_current OldStop.raised_places

end ExitManager

end RakshaQuant
