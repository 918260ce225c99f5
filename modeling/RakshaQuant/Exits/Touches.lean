import RakshaQuant.Exits.Steps

/-! What the methods of the exit manager do to the positions it manages: they write
fields of a position, and take none up and let none go. So whatever relation between
a position and its next state each of these writes keeps, a whole method keeps. -/

namespace RakshaQuant

namespace Exits

/-- Each position goes on as the relation says; none comes or goes, and what was
announced stays announced. -/
structure Touches (S : ManagedPosition → ManagedPosition → Prop) (e e' : Exits) : Prop where
  positions : ∀ key, Option.Rel S (e.position? key) (e'.position? key)
  pending : e'.state.pendingAtr = e.state.pendingAtr

/-- A relation that the writes of the methods keep, but for the stop price. -/
structure Mild (S : ManagedPosition → ManagedPosition → Prop) : Prop where
  refl : ∀ pos, S pos pos
  trans : ∀ {pos pos' pos''}, S pos pos' → S pos' pos'' → S pos pos''
  nextVersion : ∀ pos : ManagedPosition, S pos pos.nextVersion
  withStop : ∀ (pos : ManagedPosition) coid, S pos (pos.withStop coid)
  close : ∀ pos : ManagedPosition, S pos pos.close
  takePartial : ∀ pos : ManagedPosition, S pos pos.takePartial

namespace Touches

variable {S : ManagedPosition → ManagedPosition → Prop} {e e' e'' : Exits}

theorem of_eq (hS : Mild S) (h : ∀ key, e'.position? key = e.position? key)
    (hpending : e'.state.pendingAtr = e.state.pendingAtr) : e.Touches S e' := by
  refine ⟨fun key => ?_, hpending⟩
  rw [h]
  cases e.position? key with
  | none => exact .none
  | some pos => exact .some (hS.refl pos)

theorem trans (hS : Mild S) (h : e.Touches S e') (h' : e'.Touches S e'') : e.Touches S e'' := by
  refine ⟨fun key => ?_, h'.pending.trans h.pending⟩
  have hrel := h.positions key
  have hrel' := h'.positions key
  generalize e.position? key = a at hrel ⊢
  generalize e'.position? key = b at hrel hrel'
  generalize e''.position? key = c at hrel' ⊢
  cases hrel with
  | none =>
    cases hrel'
    exact .none
  | some hs =>
    cases hrel' with
    | some hs' => exact .some (hS.trans hs hs')

/-- A position that is managed afterwards was managed before. -/
theorem before (h : e.Touches S e') {key : String} {pos' : ManagedPosition}
    (hpos' : e'.position? key = some pos') : ∃ pos, e.position? key = some pos ∧ S pos pos' := by
  have hrel := h.positions key
  rw [hpos'] at hrel
  cases hpos : e.position? key with
  | none =>
    rw [hpos] at hrel
    cases hrel
  | some pos =>
    rw [hpos] at hrel
    cases hrel with
    | some hs => exact ⟨pos, rfl, hs⟩

theorem after (h : e.Touches S e') {key : String} {pos : ManagedPosition}
    (hpos : e.position? key = some pos) : ∃ pos', e'.position? key = some pos' ∧ S pos pos' := by
  have hrel := h.positions key
  rw [hpos] at hrel
  cases hpos' : e'.position? key with
  | none =>
    rw [hpos'] at hrel
    cases hrel
  | some pos' =>
    rw [hpos'] at hrel
    cases hrel with
    | some hs => exact ⟨pos', rfl, hs⟩

theorem update (hS : Mild S) {key : String} {f : ManagedPosition → ManagedPosition}
    (h : ∀ pos, e.position? key = some pos → S pos (f pos)) : e.Touches S (e.update key f) := by
  refine ⟨fun k => ?_, rfl⟩
  rw [position?_update]
  split
  · rename_i hk
    subst hk
    cases hpos : e.position? k with
    | none => exact .none
    | some pos => exact .some (h pos hpos)
  · cases e.position? k with
    | none => exact .none
    | some pos => exact .some (hS.refl pos)

theorem markStale (hS : Mild S) (h : e.Touches S e') (key : String) :
    e.Touches S (e'.markStale key) := by
  refine h.trans hS (.of_eq hS (fun _ => position?_markStale _ _ _) ?_)
  unfold Exits.markStale
  split <;> rfl

theorem clearStale (hS : Mild S) (h : e.Touches S e') (key : String) :
    e.Touches S (e'.clearStale key) :=
  h.trans hS (.of_eq hS (fun _ => rfl) rfl)

end Touches

end Exits

namespace ExitManager

open BrokerStep (anyEnd)

def Keyed (w : Paper Exits) : Prop := w.desk.oms.Keyed

theorem keyed_beside {Asked : String → Prop} (w w' : Paper Exits) (h : Beside Asked w w')
    (hk : Keyed w) : Keyed w' :=
  (h.oms hk).keyed

/-- Keyed however a computation ends. -/
abbrev keyedEnd {α : Type} : α → Paper Exits → Prop := fun _ => Keyed

/-- The manager's state goes on as the relation says, and the OMS without a fill. -/
structure Touched (S : ManagedPosition → ManagedPosition → Prop) (w w' : Paper Exits) :
    Prop where
  exits : w.exits.Touches S w'.exits
  oms : Keyed w → w.desk.oms.Beside (fun _ => True) w'.desk.oms

variable {S : ManagedPosition → ManagedPosition → Prop}

/-- Only the manager's state changes, and the log. -/
theorem Touched.of_exits {w w' : Paper Exits} (h : w.exits.Touches S w'.exits)
    (horders : w'.desk.oms.orders = w.desk.oms.orders)
    (hbook : w'.desk.oms.book = w.desk.oms.book) : Touched S w w' :=
  ⟨h, fun hk => .of_eq hk horders hbook⟩

theorem Touched.of_moves (hS : Exits.Mild S) {w w' : Paper Exits}
    (h : Relation.ReflTransGen (Touched S) w w') : Touched S w w' := by
  induction h with
  | refl => exact .of_exits (.of_eq hS (fun _ => rfl) rfl) rfl rfl
  | tail _ hstep ih =>
    exact ⟨ih.exits.trans hS hstep.exits, fun hk => (ih.oms hk).trans (hstep.oms (ih.oms hk).keyed)⟩

/-- What goes on at the desk without a fill leaves the manager's state as it is. -/
theorem Touched.beside (hS : Exits.Mild S) {Asked : String → Prop} {w w' : Paper Exits}
    (h : Beside Asked w w') : Touched S w w' := by
  have hexits : w'.exits = w.exits := h.ext
  exact ⟨.of_eq hS (fun _ => by rw [hexits]) (by rw [hexits]),
    fun hk => (h.oms hk).mono fun _ _ => trivial⟩

section touches

theorem touches_change {f : Paper Exits → Paper Exits} (h : ∀ w, Touched S w (f w)) :
    Effect.Moves (Touched S) Keyed (modify f : EStateM Exc (Paper Exits) PUnit) keyedEnd
      keyedEnd :=
  Effect.Moves.change fun w hk => ⟨.single (h w), ((h w).oms hk).keyed⟩

theorem touches_mapExits {f : Exits → Exits} (h : ∀ e : Exits, e.Touches S (f e)) :
    Effect.Moves (Touched S) Keyed
      (modify (World.mapExits f) : EStateM Exc (Paper Exits) PUnit) keyedEnd keyedEnd :=
  touches_change fun w => .of_exits (h w.exits) rfl rfl

variable (hS : Exits.Mild S) (m : ExitManager) (call : ExitCall) (key : String)
  (pos : ManagedPosition)

include hS

/-- The manager assigns to fields of a position. -/
theorem touches_update {f : ManagedPosition → ManagedPosition} (h : ∀ pos, S pos (f pos)) :
    Effect.Moves (Touched S) Keyed
      (modify (World.mapExits (.update key f)) : EStateM Exc (Paper Exits) PUnit) keyedEnd
      keyedEnd :=
  touches_mapExits fun _ => .update hS fun pos _ => h pos

theorem touches_cancel (coid : String) :
    Effect.Moves (Touched S) Keyed (m.cancel call coid) keyedEnd keyedEnd := by
  have hbeside : Effect.Moves (Beside fun _ => False) (fun _ => True) (m.cancel call coid)
      anyEnd anyEnd := System.beside_cancel m.system call.brokerNow coid
  exact ((hbeside.keeping keyed_beside).lift fun _ _ => Touched.beside hS).conseq
    (fun _ h => ⟨trivial, h⟩) (fun _ _ h => h.2) fun _ _ h => h.2

theorem touches_submitExit (leg : ExitLeg) :
    Effect.Moves (Touched S) Keyed (m.submitExit call pos leg) keyedEnd keyedEnd := by
  refine Effect.Moves.read fun w hk => BrokerStep.moves_ofExcept (fun intent _ => ?_) ?_
  · exact (((System.beside_submit m.system call.now call.brokerNow intent none call.gate
      call.delivery hk).keeping keyed_beside).lift fun _ _ => Touched.beside hS).conseq
      (fun w' h => ⟨h, h ▸ hk⟩) (fun _ _ h => h.2) fun _ _ h => h.2
  · rintro e _ - rfl
    exact hk

theorem touches_cancelStop :
    Effect.Moves (Touched S) Keyed (m.cancelStop call key pos) keyedEnd keyedEnd := by
  unfold cancelStop
  cases pos.stopCoid with
  | none => exact Effect.Moves.pure fun _ h => h
  | some coid =>
    exact Effect.Moves.bind (touches_cancel hS m call coid) fun _ =>
      touches_update hS key fun pos => hS.withStop pos none

theorem touches_recordStop (result : SubmitResult) (w : Paper Exits) :
    Touched S w (recordStop key result w) := by
  unfold recordStop
  split
  · rename_i order _ _
    exact .of_exits (.clearStale hS
      (.update hS fun pos _ => hS.withStop pos (some order.clientOrderId)) key) rfl rfl
  · exact .of_exits (.of_eq hS (fun _ => rfl) rfl) rfl rfl

theorem touches_recordExit (reason : IntentReason) (result : SubmitResult) (w : Paper Exits) :
    Touched S w (recordExit key reason result w) := by
  unfold recordExit
  split
  · exact .of_exits (.update hS fun pos _ => hS.close pos) rfl rfl
  · exact .of_exits (.markStale hS (.of_eq hS (fun _ => rfl) rfl) key) rfl rfl

theorem touches_recordPartial (result : SubmitResult) (w : Paper Exits) :
    Touched S w (recordPartial key result w) := by
  have htaken : w.exits.Touches S (w.exits.update key .takePartial) :=
    .update hS fun pos _ => hS.takePartial pos
  unfold recordPartial
  dsimp only
  split
  · exact .of_exits (htaken.markStale hS key) rfl rfl
  · exact .of_exits (htaken.markStale hS key) rfl rfl

theorem touches_placeStop :
    Effect.Moves (Touched S) Keyed (m.placeStop call key pos) keyedEnd keyedEnd :=
  Effect.Moves.bind (Q := keyedEnd) (touches_update hS key hS.nextVersion) fun _ =>
    Effect.Moves.bind (touches_submitExit hS m call pos _) fun result =>
      touches_change (touches_recordStop hS key result)

theorem touches_exitAll (reason : IntentReason) (leg : String) (price : Option ℚ) :
    Effect.Moves (Touched S) Keyed (m.exitAll call key reason leg price) keyedEnd keyedEnd := by
  refine Effect.Moves.read fun w hk => ?_
  cases w.exits.position? key with
  | none => exact Effect.Moves.pure fun _ h => h ▸ hk
  | some pos =>
    refine Effect.Moves.bind (Q := keyedEnd) ?_ fun _ =>
      Effect.Moves.bind (touches_submitExit hS m call pos _) fun result =>
        touches_change (touches_recordExit hS key reason result)
    exact (touches_cancelStop hS m call key pos).conseq (fun _ h => h ▸ hk) (fun _ _ h => h)
      fun _ _ h => h

theorem touches_exitPartial (price : ℚ) :
    Effect.Moves (Touched S) Keyed (m.exitPartial call key price) keyedEnd keyedEnd := by
  refine Effect.Moves.read fun w hk => ?_
  cases w.exits.position? key with
  | none => exact Effect.Moves.pure fun _ h => h ▸ hk
  | some pos =>
    dsimp only
    split
    · have hupdate := touches_update hS key hS.takePartial
      exact hupdate.conseq (fun _ h => h ▸ hk) (fun _ _ h => h) fun _ _ h => h
    · refine Effect.Moves.bind (Q := keyedEnd) ?_ fun _ =>
        Effect.Moves.bind (touches_submitExit hS m call pos _) fun result =>
          touches_change (touches_recordPartial hS key result)
      exact (touches_cancelStop hS m call key pos).conseq (fun _ h => h ▸ hk) (fun _ _ h => h)
        fun _ _ h => h

theorem touches_letGo :
    Effect.Moves (Touched S) Keyed (m.letGo call key) keyedEnd keyedEnd := by
  refine Effect.Moves.read fun w hk => ?_
  cases w.exits.position? key with
  | none => exact Effect.Moves.pure fun _ h => h ▸ hk
  | some pos =>
    refine Effect.Moves.bind (Q := keyedEnd) ?_ fun _ =>
      touches_mapExits fun e => .clearStale hS (.update hS fun pos _ => hS.close pos) key
    exact (touches_cancelStop hS m call key pos).conseq (fun _ h => h ▸ hk) (fun _ _ h => h)
      fun _ _ h => h

/-- One position of `refresh_stops`, where a stop that is adopted is as the relation says. -/
theorem touches_refreshOne (hadopt : ∀ w pos live trigger, Keyed w →
      w.exits.position? key = some pos → Exits.stopAction w.desk.oms pos = .adopt live trigger →
      S pos { pos with stopCoid := some live.clientOrderId, stopPrice := trigger }) :
    Effect.Moves (Touched S) Keyed (m.refreshOne call key) keyedEnd keyedEnd := by
  have hclear : Effect.Moves (Touched S) Keyed
      (modify (World.mapExits (.clearStale key)) : EStateM Exc (Paper Exits) PUnit) keyedEnd
      keyedEnd :=
    touches_mapExits fun _ => .clearStale hS (.of_eq hS (fun _ => rfl) rfl) key
  refine Effect.Moves.read fun w hk => ?_
  have hkeyed : ∀ w', w = w' → Keyed w' := by
    rintro _ rfl
    exact hk
  cases hpos : w.exits.position? key with
  | none => exact hclear.conseq hkeyed (fun _ _ h => h) fun _ _ h => h
  | some pos =>
    dsimp only
    split
    · exact hclear.conseq hkeyed (fun _ _ h => h) fun _ _ h => h
    · refine Effect.Moves.read ?_
      rintro _ rfl
      have hplace := touches_placeStop hS m call key pos
      cases haction : Exits.stopAction w.desk.oms pos with
      | adopt live trigger =>
        refine Effect.Moves.change ?_
        rintro _ rfl
        refine ⟨.single (.of_exits (.clearStale hS (.update hS fun pos' h => ?_) key) rfl rfl), hk⟩
        rw [hpos, Option.some.injEq] at h
        exact h ▸ hadopt w pos live trigger hk hpos haction
      | replace working =>
        cases working with
        | none => exact hplace.conseq hkeyed (fun _ _ h => h) fun _ _ h => h
        | some coid =>
          exact Effect.Moves.bind ((touches_cancel hS m call coid).conseq hkeyed
            (fun _ _ h => h) fun _ _ h => h) fun _ => hplace

end touches

/-! ## Steps -/

/-- Any writes to the positions that stay. -/
theorem mild_true : Exits.Mild fun _ _ => True :=
  ⟨fun _ => trivial, fun _ _ => trivial, fun _ => trivial, fun _ _ => trivial, fun _ => trivial,
    fun _ => trivial⟩

variable {m : ExitManager} {w w' : Paper Exits} {move : Move}

theorem Step.keyed (step : m.Step move w w') (hk : Keyed w) : Keyed w' := by
  have hends : ∀ {f : EStateM Exc (Paper Exits) PUnit},
      Effect.Moves (Touched fun _ _ => True) Keyed f keyedEnd keyedEnd → Keyed (f w).state :=
    fun h => h.holds hk
  cases step with
  | beside h => exact (h.oms hk).keyed
  | filled fill b =>
    obtain ⟨as, homs⟩ := Desk.onFill_oms m.system.listener fill w.desk
    refine OMS.keyed_of_eq ((OMS.touched_onFill fill hk).keyed hk) ?_
    show (Desk.onFill m.system.listener fill w.desk).state.oms.orders = _
    rw [homs]
  | acted a =>
    cases a with
    | expect => exact hk
    | save => exact hk
    | trail => exact hk
    | refresh call key =>
      exact hends (touches_refreshOne mild_true m call key fun _ _ _ _ _ _ _ => trivial)
    | exitAll call key reason leg price =>
      exact hends (touches_exitAll mild_true m call key reason leg price)
    | exitPartial call key price => exact hends (touches_exitPartial mild_true m call key price)
    | letGo call key => exact hends (touches_letGo mild_true m call key)
    | stocktake call atr => exact OMS.keyed_of_eq hk rfl
  | restarted _ keyed => exact keyed

theorem keyed_run (run : m.Run w w') (hk : Keyed w) : Keyed w' :=
  Effect.invariant (fun _ _ ⟨_, step⟩ h => step.keyed h) run hk

/-- The operations of the desk, one after the other. -/
theorem run_ops (ops : List Op) {w : Paper Exits} (hk : Keyed w) :
    m.Run w (m.system.run w ops) := by
  induction ops generalizing w with
  | nil => exact .refl
  | cons op rest ih =>
    have hop : m.Run w (m.system.after w op) := run_op op hk
    exact hop.trans (ih (keyed_run hop hk))

end ExitManager

end RakshaQuant
