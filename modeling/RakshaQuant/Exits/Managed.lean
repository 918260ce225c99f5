import RakshaQuant.Exits.Ratchet
import RakshaQuant.Oms.Allocation

/-! The exit manager manages what the book holds, as long as each fill is told to it and
each entry leaves a long position. A fill whose trade does not validate is not told, and
an entry fill writes down whatever the book then holds, where an exit fill would let the
position go. -/

namespace RakshaQuant

namespace Exits

/-- A write that touches neither what is held nor how much. -/
def SameHolding (pos pos' : ManagedPosition) : Prop :=
  pos'.key = pos.key ∧ pos'.instrument = pos.instrument ∧ pos'.product = pos.product ∧
    pos'.quantity = pos.quantity

theorem mild_sameHolding : Mild SameHolding where
  refl _ := ⟨rfl, rfl, rfl, rfl⟩
  trans h h' := ⟨h'.1.trans h.1, h'.2.1.trans h.2.1, h'.2.2.1.trans h.2.2.1,
    h'.2.2.2.trans h.2.2.2⟩
  nextVersion _ := ⟨rfl, rfl, rfl, rfl⟩
  withStop _ _ := ⟨rfl, rfl, rfl, rfl⟩
  close _ := ⟨rfl, rfl, rfl, rfl⟩
  takePartial _ := ⟨rfl, rfl, rfl, rfl⟩

/-- The position is filed under its key, and is long by what the book holds. -/
def Mirrored (b : PositionBook) (key : String) (pos : ManagedPosition) : Prop :=
  pos.key = key ∧ pos.quantity = b.quantity pos.instrument.key pos.product ∧ 0 < pos.quantity

def Mirrors (e : Exits) (b : PositionBook) : Prop :=
  ∀ key pos, e.position? key = some pos → Mirrored b key pos

namespace Mirrors

variable {e e' : Exits} {b b' : PositionBook}

theorem touches (h : e.Mirrors b) (ht : e.Touches SameHolding e') : e'.Mirrors b := by
  intro key pos' hpos'
  obtain ⟨pos, hpos, hkey, hinstrument, hproduct, hquantity⟩ := ht.before hpos'
  obtain ⟨hfiled, hcounted, hlong⟩ := h key pos hpos
  exact ⟨hkey.trans hfiled, by rw [hquantity, hinstrument, hproduct, hcounted],
    by rw [hquantity]; exact hlong⟩

/-- The book moved at one instrument and product only, and so did what is managed. -/
theorem moved (h : e.Mirrors b) {instrumentKey : String} {product : Product}
    (hbook : ∀ i p, ¬(instrumentKey = i ∧ product = p) → b'.quantity i p = b.quantity i p)
    (hother : ∀ key, key ≠ positionKey instrumentKey product → e'.position? key = e.position? key)
    (hthis : ∀ pos, e'.position? (positionKey instrumentKey product) = some pos →
      Mirrored b' (positionKey instrumentKey product) pos) : e'.Mirrors b' := by
  intro key pos hpos
  by_cases hk : key = positionKey instrumentKey product
  · subst hk
    exact hthis pos hpos
  · rw [hother key hk] at hpos
    obtain ⟨hfiled, hcounted, hlong⟩ := h key pos hpos
    refine ⟨hfiled, ?_, hlong⟩
    rw [hcounted, hbook]
    rintro ⟨rfl, rfl⟩
    exact hk hfiled.symm

/-- A position that mirrors the book at its own key. -/
theorem at_key (h : e.Mirrors b) {instrumentKey : String} {product : Product}
    {pos : ManagedPosition} (hpos : e.position? (positionKey instrumentKey product) = some pos) :
    pos.instrument.key = instrumentKey ∧ pos.product = product ∧
      pos.quantity = b.quantity instrumentKey product ∧ 0 < pos.quantity := by
  obtain ⟨hfiled, hcounted, hlong⟩ := h _ pos hpos
  obtain ⟨hinstrument, hproduct⟩ := positionKey_inj hfiled
  exact ⟨hinstrument, hproduct, by rw [hcounted, hinstrument, hproduct], hlong⟩

/-- What the book does not hold is not managed. -/
theorem none_of_flat (h : e.Mirrors b) {instrumentKey : String} {product : Product}
    (hflat : b.quantity instrumentKey product = 0) :
    e.position? (positionKey instrumentKey product) = none := by
  cases hpos : e.position? (positionKey instrumentKey product) with
  | none => rfl
  | some pos =>
    obtain ⟨-, -, hcounted, hlong⟩ := h.at_key hpos
    omega

/-! ### Fills -/

/-- A fill of which the manager is told, where an entry leaves a long position. -/
theorem onFill (h : e.Mirrors b) (policy : ExitPolicy) (fill : Fill) (order : Order) {o : OMS}
    (hbook : ∀ i p, ¬(order.intent.instrument.key = i ∧ order.intent.product = p) →
      o.book.quantity i p = b.quantity i p)
    (hentry : order.intent.reduceOnly = false →
      (e.lineageOf order (positionKey order.intent.instrument.key order.intent.product)).isSome →
        0 < o.book.quantity order.intent.instrument.key order.intent.product) :
    (Exits.onFill policy fill order o e).1.Mirrors o.book := by
  refine h.moved hbook (fun key hk => position?_onFill_other policy fill order o e hk) ?_
  intro pos hpos
  cases hro : order.intent.reduceOnly with
  | true =>
    rw [position?_onFill_exit policy fill order o e hro rfl rfl] at hpos
    split at hpos
    · cases hpos
    · rename_i hheld
      obtain ⟨before, hbefore, rfl⟩ := Option.map_eq_some_iff.mp hpos
      obtain ⟨hinstrument, hproduct, -, -⟩ := h.at_key hbefore
      refine ⟨?_, ?_, not_le.mp hheld⟩
      · rw [ManagedPosition.key, hinstrument, hproduct]
      · rw [hinstrument, hproduct]
  | false =>
    rw [position?_onFill_entry policy fill order o e hro rfl rfl] at hpos
    obtain ⟨lineage, hlineage, rfl⟩ := Option.map_eq_some_iff.mp hpos
    exact ⟨rfl, rfl, hentry hro (by rw [hlineage]; rfl)⟩

/-! ### Reconciliation -/

theorem dropGhosts (h : e.Mirrors b) (held keys : List String) :
    (Exits.dropGhosts held keys e).1.Mirrors b := by
  intro key pos hpos
  rw [position?_dropGhosts] at hpos
  split at hpos
  · cases hpos
  · exact h key pos hpos

variable (policy : ExitPolicy) (now : Instant) (newId : String → String)
  (atr : String → Option ℚ) {o : OMS}

/-- One position of the book is recounted, or taken over when it is long. -/
theorem reconcileOne (h : e.Mirrors o.book) {position : Position}
    (hheld : position.quantity = o.book.quantity position.instrumentKey position.product)
    (hopen : position.quantity ≠ 0) :
    (e.reconcileOne policy now newId atr o position).1.Mirrors o.book := by
  refine h.moved (fun _ _ _ => rfl) (fun key hk =>
    position?_reconcileOne e key policy now newId atr o position (Ne.symm hk)) ?_
  intro pos hpos
  unfold Exits.reconcileOne at hpos
  dsimp only at hpos
  split at hpos
  · rename_i before hbefore
    rw [position?_recount _ _ _ _ _ hbefore, if_pos rfl, Option.some.injEq] at hpos
    obtain ⟨hinstrument, hproduct, hcounted, hlong⟩ := h.at_key hbefore
    rw [← hpos]
    refine ⟨?_, ?_, ?_⟩
    · rw [ManagedPosition.key, hinstrument, hproduct]
    · show position.quantity = _
      rw [hinstrument, hproduct, hheld]
    · show 0 < position.quantity
      omega
  · rename_i hnone
    split at hpos
    · rw [hnone] at hpos
      cases hpos
    · rename_i hlong
      split at hpos
      · rename_i known instrument avgPrice _ hinstrument _
        rw [position?_markStale, position?_manage, if_pos rfl, Option.some.injEq] at hpos
        obtain ⟨order, horder, rfl⟩ := Option.map_eq_some_iff.mp hinstrument
        have hkey : order.intent.instrument.key = position.instrumentKey := by
          simpa using List.find?_some horder
        rw [← hpos]
        refine ⟨?_, ?_, ?_⟩
        · show positionKey order.intent.instrument.key position.product = _
          rw [hkey]
        · show position.quantity = o.book.quantity order.intent.instrument.key position.product
          rw [hkey, hheld]
        · show 0 < position.quantity
          omega
      · rw [hnone] at hpos
        cases hpos

theorem reconcileAll (h : e.Mirrors o.book) {book : List Position}
    (hbook : ∀ p ∈ book, p.quantity = o.book.quantity p.instrumentKey p.product ∧ p.quantity ≠ 0) :
    (Exits.reconcileAll policy now newId atr o book e).1.Mirrors o.book := by
  induction book generalizing e with
  | nil => exact h
  | cons p rest ih =>
    obtain ⟨hheld, hopen⟩ := hbook p List.mem_cons_self
    exact ih (h.reconcileOne policy now newId atr hheld hopen)
      fun q hq => hbook q (List.mem_cons_of_mem _ hq)

/-- What the book reports of a position is what it holds. -/
theorem held_of_mem {p : Position} (hp : p ∈ o.book.positions now) :
    p.quantity = o.book.quantity p.instrumentKey p.product := by
  obtain ⟨entry, hentry, rfl⟩ := List.mem_map.mp hp
  have hget : o.book.books.get? entry.1 = some entry.2 :=
    (Dict.mem_entries_iff _).mp ((List.mem_insertionSort _).mp hentry)
  show entry.2.quantity = (o.book.bookAt entry.1).quantity
  rw [PositionBook.bookAt, hget, Option.getD_some]

theorem takeStock (h : e.Mirrors o.book) :
    (Exits.takeStock policy now newId atr o e).1.Mirrors o.book := by
  refine reconcileAll policy now newId atr (h.dropGhosts _ _) fun p hp => ?_
  obtain ⟨hmem, hopen⟩ := List.mem_filter.mp hp
  exact ⟨held_of_mem now hmem, by simpa using hopen⟩

end Mirrors

end Exits

namespace PositionBook

/-- No lot carries negative charges or was bought at no price. -/
structure Sane (b : PositionBook) : Prop where
  solvent : b.Solvent
  priced : ∀ key, (b.bookAt key).Priced

theorem sane_init (bookId : String) (cash : ℚ) : (init bookId cash).Sane :=
  ⟨fun _ => Book.solvent_empty, fun _ => Book.priced_empty⟩

theorem Sane.record {b : PositionBook} {a : Application} (h : b.Sane) (haffords : b.Affords a)
    (hfresh : b.Fresh a) : (b.record a).Sane := by
  have halloc := (h.solvent.allocates_iff h.priced).mpr haffords
  refine ⟨step_of_fresh hfresh ▸ halloc.solvent, fun key => ?_⟩
  rw [bookAt_record]
  split
  · exact (h.priced _).applyFill _ _ _ _
  · exact h.priced key

end PositionBook

namespace ExitManager

/-! ## Fills as they should be -/

/-- The fill is one of an order of this OMS, for its instrument. -/
def Belongs (w : Paper Exits) (fill : Fill) : Prop :=
  ∃ order ∈ w.desk.oms.orders.get? fill.clientOrderId, fill.bookId = w.desk.oms.bookId ∧
    fill.instrumentKey = order.intent.instrument.key

/-- A fill of an order that opens or increases a position. -/
def Entering (w : Paper Exits) (fill : Fill) (order : Order) : Prop :=
  fill.fillId ∉ w.desk.oms.book.seen ∧ order.intent.reduceOnly = false ∧
    (w.exits.lineageOf order
      (positionKey order.intent.instrument.key order.intent.product)).isSome

/-- The fill belongs here, the trades it closes can be given its charges, and if it is
one of an entry the manager goes by, it leaves the position long. -/
def Orderly (w : Paper Exits) (fill : Fill) : Prop :=
  Belongs w fill ∧ w.desk.oms.book.Affords (w.desk.oms.application fill) ∧
    ∀ order ∈ w.desk.oms.orders.get? fill.clientOrderId, Entering w fill order →
      0 < w.desk.oms.book.quantity order.intent.instrument.key order.intent.product +
        fill.signedQty

instance (w : Paper Exits) (fill : Fill) : Decidable (Belongs w fill) :=
  inferInstanceAs (Decidable (∃ order ∈ _, _ ∧ _))

instance (w : Paper Exits) (fill : Fill) (order : Order) : Decidable (Entering w fill order) :=
  inferInstanceAs (Decidable (_ ∧ _ ∧ _))

instance (b : PositionBook) (a : Application) : Decidable (b.Affords a) :=
  inferInstanceAs (Decidable (_ → _ ∨ _))

instance (w : Paper Exits) (fill : Fill) : Decidable (Orderly w fill) :=
  inferInstanceAs (Decidable (_ ∧ _ ∧ ∀ order ∈ _, _))

/-- A step of one process whose fills are as they should be. -/
def Follows (Good : Paper Exits → Fill → Prop) (w : Paper Exits) : Move → Prop
  | .filled fill => Good w fill
  | .restarted => False
  | _ => True

/-- A fill reaches the desk. -/
def deliver (m : ExitManager) (fill : Fill) (b : SimulatedBroker) (w : Paper Exits) :
    Paper Exits :=
  { broker := b, desk := (Desk.onFill m.system.listener fill w.desk).state }

variable {m : ExitManager} {w w' : Paper Exits} {fill : Fill} {move : Move}

/-- What a fill that is told to the manager does. -/
theorem deliver_spec (hk : Keyed w) (hsane : w.desk.oms.book.Sane) (hbelongs : Belongs w fill)
    (haffords : w.desk.oms.book.Affords (w.desk.oms.application fill)) (b : SimulatedBroker) :
    (fill.fillId ∈ w.desk.oms.book.seen ∧ (m.deliver fill b w).desk = w.desk) ∨
      ∃ order version o, fill.fillId ∉ w.desk.oms.book.seen ∧
        w.desk.oms.orders.get? fill.clientOrderId = some order ∧
        w.desk.oms.book.Fresh (order.application fill) ∧
        o.book = w.desk.oms.book.record (order.application fill) ∧
        (m.deliver fill b w).desk.oms.book = o.book ∧
        (m.deliver fill b w).desk.oms.orders =
          w.desk.oms.orders.set fill.clientOrderId (order.afterFill fill version) ∧
        (m.deliver fill b w).exits =
          (Exits.onFill m.policy fill (order.afterFill fill version) o w.exits).1 := by
  obtain ⟨order, horder, hbook, -⟩ := hbelongs
  have hget : w.desk.oms.orders.get? fill.clientOrderId = some order := horder
  by_cases hseen : fill.fillId ∈ w.desk.oms.book.seen
  · left
    refine ⟨hseen, ?_⟩
    show (Desk.onFill m.system.listener fill w.desk).state = w.desk
    rw [Desk.onFill, OMS.onFill_seen hseen]
    rfl
  · right
    have halloc := (hsane.solvent.allocates_iff hsane.priced).mpr haffords
    obtain ⟨r, o, hrun⟩ := halloc.told w.desk.oms rfl hk (by rw [OMS.application_fill])
      (by rw [OMS.application_fill]; exact hbook)
    rw [OMS.application_fill] at hrun
    obtain ⟨version, as, hstate, hanswer⟩ := OMS.onFill_known hseen hk hget hbook
    obtain rfl := hanswer r o hrun
    rw [hrun] at hstate
    have ho : o = _ := hstate
    refine ⟨order, version, o, hseen, hget, ⟨hbook, hseen⟩, by rw [ho], ?_, ?_, ?_⟩
    all_goals
      simp only [deliver, World.exits, Desk.onFill, hrun]
    · rfl
    · show o.orders = _
      rw [ho]
    · rfl

/-- What the book holds after a fill. -/
theorem quantity_deliver {order : Order} {o : OMS}
    (hbook : o.book = w.desk.oms.book.record (order.application fill))
    (hkey : fill.instrumentKey = order.intent.instrument.key) (i : String) (p : Product) :
    o.book.quantity i p = w.desk.oms.book.quantity i p +
      if order.intent.instrument.key = i ∧ order.intent.product = p then fill.signedQty else 0 := by
  rw [hbook, PositionBook.quantity_record]
  show _ + (if fill.instrumentKey = i ∧ order.intent.product = p then fill.signedQty else 0) = _
  rw [hkey]

/-- What a step does to the manager's state and the OMS, where its fill, if it is one,
is as it should be. -/
inductive Turn (m : ExitManager) (w : Paper Exits) : Paper Exits → Prop
  | touched {w' : Paper Exits} (h : Touched Exits.SameHolding w w') : m.Turn w w'
  | expected (coid : String) (entry : PendingEntry) : m.Turn w (w.mapExits (.expect coid entry))
  | stocked (call : ExitCall) (atr : String → Option ℚ) : m.Turn w (m.stocktake call atr w)
  | filled {w' : Paper Exits} {fill : Fill} {order : Order} (version : ℕ) {o : OMS}
      (held : w.desk.oms.orders.get? fill.clientOrderId = some order)
      (fresh : w.desk.oms.book.Fresh (order.application fill))
      (affords : w.desk.oms.book.Affords (order.application fill))
      (recorded : o.book = w.desk.oms.book.record (order.application fill))
      (moves : ∀ i p, o.book.quantity i p = w.desk.oms.book.quantity i p +
        if order.intent.instrument.key = i ∧ order.intent.product = p then fill.signedQty else 0)
      (long : Entering w fill order →
        0 < o.book.quantity order.intent.instrument.key order.intent.product)
      (book : w'.desk.oms.book = o.book)
      (orders : w'.desk.oms.orders =
        w.desk.oms.orders.set fill.clientOrderId (order.afterFill fill version))
      (exits : w'.exits =
        (Exits.onFill m.policy fill (order.afterFill fill version) o w.exits).1) : m.Turn w w'

/-- The manager mirrors the book, and is told of the next fill that can be told. -/
structure Managing (w : Paper Exits) : Prop where
  keyed : Keyed w
  sane : w.desk.oms.book.Sane
  mirrors : w.exits.Mirrors w.desk.oms.book

theorem managing_init (startingCash : ℚ) : Managing (m.init startingCash) := by
  refine ⟨OMS.keyed_init _, PositionBook.sane_init _ _, ?_⟩
  intro key pos hpos
  cases hpos

theorem Step.turn (step : m.Step move w w') (hgood : Follows Orderly w move)
    (h : Managing w) : m.Turn w w' := by
  have hends : ∀ {f : EStateM Exc (Paper Exits) PUnit},
      Effect.Moves (Touched Exits.SameHolding) Keyed f keyedEnd keyedEnd →
        m.Turn w (f w).state := fun hmoves =>
    .touched (.of_moves Exits.mild_sameHolding (hmoves w h.keyed).1)
  cases step with
  | beside hbeside => exact .touched (.beside Exits.mild_sameHolding hbeside)
  | filled fill b =>
    obtain ⟨hbelongs, haffords, hlong⟩ := hgood
    -- the fill was seen before, or the OMS books it and tells the manager
    rcases deliver_spec (m := m) h.keyed h.sane hbelongs haffords b with ⟨-, hdesk⟩ |
        ⟨order, version, o, hseen, hget, hfresh, hrecord, hbook, horders, hexits⟩
    · have hsame : (m.deliver fill b w).exits = w.exits := congrArg Desk.ext hdesk
      refine .touched (.of_exits (.of_eq Exits.mild_sameHolding (fun _ => ?_) ?_)
        (congrArg (fun d => d.oms.orders) hdesk) (congrArg (fun d => d.oms.book) hdesk))
      · exact congrArg (fun e => Exits.position? e _) hsame
      · exact congrArg (fun e => e.state.pendingAtr) hsame
    · obtain ⟨known, hknown, -, hinstrument⟩ := hbelongs
      obtain rfl : known = order := Option.some.inj (hknown.symm.trans hget)
      have hmoves := quantity_deliver (o := o) hrecord hinstrument
      rw [OMS.application_of_get hget] at haffords
      refine .filled version hget hfresh haffords hrecord hmoves (fun hentering => ?_) hbook horders
        hexits
      rw [hmoves, if_pos ⟨rfl, rfl⟩]
      exact hlong known hget hentering
  | acted a =>
    cases a with
    | expect coid entry => exact .expected coid entry
    | save =>
      exact .touched (.of_exits (.of_eq Exits.mild_sameHolding (fun _ => rfl) rfl) rfl rfl)
    | trail key close atr =>
      have htrailed : w.exits.Touches Exits.SameHolding
          (w.exits.update key (ManagedPosition.trailed m.policy close atr)) :=
        .update Exits.mild_sameHolding fun _ _ => ⟨rfl, rfl, rfl, rfl⟩
      exact .touched (.of_exits (htrailed.markStale Exits.mild_sameHolding key) rfl rfl)
    | refresh call key =>
      exact hends (touches_refreshOne Exits.mild_sameHolding m call key
        fun _ _ _ _ _ _ _ => ⟨rfl, rfl, rfl, rfl⟩)
    | exitAll call key reason leg price =>
      exact hends (touches_exitAll Exits.mild_sameHolding m call key reason leg price)
    | exitPartial call key price =>
      exact hends (touches_exitPartial Exits.mild_sameHolding m call key price)
    | letGo call key => exact hends (touches_letGo Exits.mild_sameHolding m call key)
    | stocktake call atr => exact .stocked call atr
  | restarted => exact hgood.elim

/-! ## What a turn keeps -/

theorem Turn.managing (turn : m.Turn w w') (h : Managing w) : Managing w' := by
  cases turn with
  | touched ht =>
    have hbeside := ht.oms h.keyed
    exact ⟨hbeside.keyed, hbeside.book ▸ h.sane, hbeside.book ▸ h.mirrors.touches ht.exits⟩
  | expected coid entry => exact ⟨h.keyed, h.sane, h.mirrors⟩
  | stocked call atr =>
    exact ⟨OMS.keyed_of_eq h.keyed rfl, h.sane, h.mirrors.takeStock m.policy call.now call.newId atr⟩
  | @filled _ fill order version o held fresh affords recorded moves long book orders exits =>
    have hbook : w'.desk.oms.book = w.desk.oms.book.record (order.application fill) :=
      book.trans recorded
    have hid : order.clientOrderId = fill.clientOrderId := h.keyed _ _ held
    refine ⟨OMS.keyed_set h.keyed orders hid, ?_, ?_⟩
    · rw [hbook]
      exact h.sane.record affords fresh
    · rw [exits, book]
      refine h.mirrors.onFill m.policy fill (order.afterFill fill version) (fun i p hne => ?_)
        fun hro hlineage => long ⟨fresh.2, hro, hlineage⟩
      have hne' : ¬(order.intent.instrument.key = i ∧ order.intent.product = p) := hne
      rw [moves, if_neg hne', add_zero]

/-- An order was announced, and it still is or nothing is left of it to fill. -/
def Announced (coid : String) (w : Paper Exits) : Prop :=
  (w.exits.state.pendingAtr.get? coid).isSome ∨
    ∃ order, w.desk.oms.orders.get? coid = some order ∧ order.quantity ≤ order.filledQty

theorem Turn.announced {coid : String} (turn : m.Turn w w') (hk : Keyed w)
    (h : Announced coid w) : Announced coid w' := by
  cases turn with
  | touched ht =>
    rcases h with hpending | ⟨order, horder, hfull⟩
    · exact .inl (by rw [ht.exits.pending]; exact hpending)
    · obtain ⟨order', horder', hextent⟩ := (ht.oms hk).held horder
      obtain ⟨hquantity, hfilled⟩ := Prod.mk.inj (Prod.mk.inj hextent).2
      exact .inr ⟨order', horder', by omega⟩
  | expected other entry =>
    refine h.imp_left fun hpending => ?_
    show ((w.exits.state.pendingAtr.set other entry).get? coid).isSome
    rw [Dict.get?_set]
    split
    · rfl
    · exact hpending
  | stocked call atr =>
    refine h.imp_left fun hpending => ?_
    show ((Exits.takeStock m.policy call.now call.newId atr w.desk.oms
      w.exits).1.state.pendingAtr.get? coid).isSome
    rw [Exits.pending_takeStock]
    exact hpending
  | @filled _ fill order version o held fresh affords recorded moves long book orders exits =>
    have hquantity := fill.quantity_pos
    have hid : order.clientOrderId = fill.clientOrderId := hk _ _ held
    -- whatever the order was filled to, it is filled up when it reaches its quantity
    have hfull : ∀ hcoid : coid = fill.clientOrderId,
        order.quantity ≤ OMS.filledAfter order fill → Announced coid w' := by
      rintro rfl hfull
      exact .inr ⟨_, by rw [orders, Dict.get?_set_self], hfull⟩
    rcases h with hpending | ⟨known, hknown, hle⟩
    · rcases Exits.pending_onFill m.policy fill (order.afterFill fill version) o w.exits
        hpending with hstill | ⟨hcoid, hterminal⟩
      · exact .inl (exits ▸ hstill)
      · refine hfull (hcoid.trans hid) (le_of_eq ?_)
        have hstatus : (OMS.statusAfter order fill).isTerminal = true := hterminal
        unfold OMS.statusAfter at hstatus
        split at hstatus
        · exact Eq.symm ‹_›
        · cases hstatus
    · by_cases hcoid : coid = fill.clientOrderId
      · subst hcoid
        obtain rfl : order = known := Option.some.inj (held.symm.trans hknown)
        refine hfull rfl ?_
        unfold OMS.filledAfter
        omega
      · exact .inr ⟨known, by rw [orders, Dict.get?_set_ne _ _ hcoid, hknown], hle⟩

/-- A managed position stays managed as long as the book is long. -/
theorem Turn.stays {instrumentKey : String} {product : Product} (turn : m.Turn w w')
    (hmanaged : (w.exits.position? (positionKey instrumentKey product)).isSome)
    (hlong : 0 < w'.desk.oms.book.quantity instrumentKey product) :
    (w'.exits.position? (positionKey instrumentKey product)).isSome := by
  obtain ⟨pos, hpos⟩ := Option.isSome_iff_exists.mp hmanaged
  cases turn with
  | touched ht =>
    obtain ⟨pos', hpos', -⟩ := ht.exits.after hpos
    rw [hpos']
    rfl
  | expected => exact hmanaged
  | stocked call atr =>
    exact Exits.managed_takeStock _ m.policy call.now call.newId atr w.desk.oms
      (ne_of_gt hlong) hmanaged
  | @filled _ fill order version o held fresh affords recorded moves long book orders exits =>
    rw [exits]
    by_cases hkey : positionKey instrumentKey product =
        positionKey order.intent.instrument.key order.intent.product
    · obtain ⟨rfl, rfl⟩ := positionKey_inj hkey
      cases hro : order.intent.reduceOnly with
      | true =>
        have hexit := Exits.position?_onFill_exit m.policy fill (order.afterFill fill version) o
          w.exits hro hkey rfl
        rw [hexit, hpos, if_neg]
        · rfl
        · rw [book] at hlong
          exact not_le.mpr hlong
      | false =>
        have hentry := Exits.position?_onFill_entry m.policy fill (order.afterFill fill version) o
          w.exits hro hkey rfl
        rw [hentry, Option.isSome_map]
        exact (Exits.lineageOf_isSome _ _).mpr (.inr hmanaged)
    · rw [Exits.position?_onFill_other m.policy fill (order.afterFill fill version) o w.exits hkey]
      exact hmanaged

/-! ## Runs -/

section runs

variable (m : ExitManager) (Good : Paper Exits → Fill → Prop)

/-- Steps of one process whose fills are as they should be. -/
def Steps : Paper Exits → Paper Exits → Prop :=
  Relation.ReflTransGen fun w w' => ∃ move, m.Step move w w' ∧ Follows Good w move

/-- Such steps, after each of which the book is long at an instrument and product. -/
def LongSteps (instrumentKey : String) (product : Product) : Paper Exits → Paper Exits → Prop :=
  Relation.ReflTransGen fun w w' => ∃ move, m.Step move w w' ∧ Follows Good w move ∧
    0 < w'.desk.oms.book.quantity instrumentKey product

/-- A new fill of an order takes the book from no position or a short one to a long one. -/
structure Opens (order : Order) (w : Paper Exits) (fill : Fill) : Prop where
  held : w.desk.oms.orders.get? fill.clientOrderId = some order
  fresh : fill.fillId ∉ w.desk.oms.book.seen
  flat : w.desk.oms.book.quantity order.intent.instrument.key order.intent.product ≤ 0
  long : 0 < w.desk.oms.book.quantity order.intent.instrument.key order.intent.product +
    fill.signedQty

/-- The order enters a position and is not filled up. -/
def Enterable (order : Order) : Prop :=
  order.intent.reduceOnly = false ∧ order.filledQty < order.quantity

/-- An order that was announced opened a position which has been long ever since. -/
def Opened (Allowed : Order → Prop) (startingCash : ℚ) (order : Order) (w : Paper Exits) : Prop :=
  ∃ w₀ entry w₁ fill b, m.Steps Good (m.init startingCash) w₀ ∧
    m.Steps Good (w₀.mapExits (.expect order.clientOrderId entry)) w₁ ∧ Allowed order ∧
    Opens order w₁ fill ∧ Good w₁ fill ∧
    m.LongSteps Good order.intent.instrument.key order.intent.product (m.deliver fill b w₁) w

end runs

theorem Steps.managing (run : m.Steps Orderly w w') (h : Managing w) : Managing w' :=
  Effect.invariant (fun _ _ ⟨_, step, hgood⟩ h => (step.turn hgood h).managing h) run h

theorem Steps.announced {coid : String} (run : m.Steps Orderly w w') (h : Managing w)
    (ha : Announced coid w) : Announced coid w' := by
  induction run with
  | refl => exact ha
  | tail hrun hstep ih =>
    obtain ⟨move, step, hgood⟩ := hstep
    have hmanaging := Steps.managing hrun h
    exact (step.turn hgood hmanaging).announced hmanaging.keyed ih

theorem LongSteps.stays {instrumentKey : String} {product : Product}
    (run : m.LongSteps Orderly instrumentKey product w w') (h : Managing w)
    (hmanaged : (w.exits.position? (positionKey instrumentKey product)).isSome) :
    Managing w' ∧ (w'.exits.position? (positionKey instrumentKey product)).isSome := by
  induction run with
  | refl => exact ⟨h, hmanaged⟩
  | tail _ hstep ih =>
    obtain ⟨hmanaging, hstill⟩ := ih
    obtain ⟨move, step, hgood, hlong⟩ := hstep
    have hturn := step.turn hgood hmanaging
    exact ⟨hturn.managing hmanaging, hturn.stays hstill hlong⟩

/-- The fill of an announced entry that opens a position makes it managed. -/
theorem managed_of_opens {order : Order} (h : Managing w) (ha : Announced order.clientOrderId w)
    (henter : Enterable order) (hopens : Opens order w fill) (hgood : Orderly w fill)
    (b : SimulatedBroker) : ((m.deliver fill b w).exits.position?
      (positionKey order.intent.instrument.key order.intent.product)).isSome := by
  have hid : order.clientOrderId = fill.clientOrderId := h.keyed _ _ hopens.held
  have hpending : (w.exits.state.pendingAtr.get? order.clientOrderId).isSome := by
    refine ha.resolve_right ?_
    rintro ⟨known, hknown, hfull⟩
    rw [hid, hopens.held, Option.some.injEq] at hknown
    have hleft := henter.2
    rw [hknown] at hleft
    omega
  rcases deliver_spec (m := m) h.keyed h.sane hgood.1 hgood.2.1 b with ⟨hseen, -⟩ |
      ⟨known, version, o, -, hknown, -, -, -, -, hexits⟩
  · exact absurd hseen hopens.fresh
  · obtain rfl : order = known := Option.some.inj (hopens.held.symm.trans hknown)
    have hentry := Exits.position?_onFill_entry m.policy fill (order.afterFill fill version) o
      w.exits henter.1 rfl rfl
    have hmanaged : ((Exits.onFill m.policy fill (order.afterFill fill version) o
        w.exits).1.position?
          (positionKey order.intent.instrument.key order.intent.product)).isSome := by
      refine (congrArg Option.isSome hentry).trans ?_
      rw [Option.isSome_map]
      exact (Exits.lineageOf_isSome _ _).mpr (.inl hpending)
    rw [hexits]
    exact hmanaged

/-- **The manager manages what the book holds.** In every run of one process whose fills
belong to known orders, can be told, and leave a position long where they enter it: every
managed position has the book's quantity, which is positive; what the book does not hold
is not managed; and a position that the fill of an announced entry opened is managed for
as long as it stays long. -/
theorem manages_the_book (m : ExitManager) (startingCash : ℚ) (w : Paper Exits)
    (run : m.Steps Orderly (m.init startingCash) w) :
    w.exits.Mirrors w.desk.oms.book ∧
    (∀ instrumentKey product, w.desk.oms.book.quantity instrumentKey product = 0 →
      w.exits.position? (positionKey instrumentKey product) = none) ∧
    ∀ order, m.Opened Orderly Enterable startingCash order w →
      (w.exits.position?
        (positionKey order.intent.instrument.key order.intent.product)).isSome := by
  have hmanaging := run.managing (managing_init startingCash)
  refine ⟨hmanaging.mirrors, fun _ _ => hmanaging.mirrors.none_of_flat, ?_⟩
  rintro order ⟨w₀, entry, w₁, fill, b, hbefore, hbetween, henter, hopens, hgood, hsince⟩
  have h₀ : Managing w₀ := hbefore.managing (managing_init startingCash)
  have hexpected : Managing (w₀.mapExits (.expect order.clientOrderId entry)) :=
    ⟨h₀.keyed, h₀.sane, h₀.mirrors⟩
  have hannounced : Announced order.clientOrderId
      (w₀.mapExits (.expect order.clientOrderId entry)) := by
    left
    show ((w₀.exits.state.pendingAtr.set order.clientOrderId entry).get?
      order.clientOrderId).isSome
    rw [Dict.get?_set_self]
    rfl
  have h₁ := hbetween.managing hexpected
  have step : m.Step (.filled fill) w₁ (m.deliver fill b w₁) := .filled fill b
  have hdelivered : Managing (m.deliver fill b w₁) := (step.turn hgood h₁).managing h₁
  exact (hsince.stays hdelivered
    (managed_of_opens h₁ (hbetween.announced hexpected hannounced) henter hopens hgood b)).2

/-- Fills that reach the desk one after the other. -/
def deliverAll (m : ExitManager) : List Fill → Paper Exits → Paper Exits
  | [], w => w
  | fill :: rest, w => m.deliverAll rest (m.deliver fill w.broker w)

/-- Each of them is as it should be, and leaves the book long. -/
def AllLong (m : ExitManager) (instrumentKey : String) (product : Product) :
    List Fill → Paper Exits → Prop
  | [], _ => True
  | fill :: rest, w => (Orderly w fill ∧
      0 < (m.deliver fill w.broker w).desk.oms.book.quantity instrumentKey product) ∧
    m.AllLong instrumentKey product rest (m.deliver fill w.broker w)

instance decidableAllLong (m : ExitManager) (instrumentKey : String) (product : Product) :
    ∀ (fills : List Fill) (w : Paper Exits), Decidable (m.AllLong instrumentKey product fills w)
  | [], _ => inferInstanceAs (Decidable True)
  | fill :: rest, w =>
    have := decidableAllLong m instrumentKey product rest (m.deliver fill w.broker w)
    inferInstanceAs (Decidable (_ ∧ _))

theorem longSteps_deliverAll {instrumentKey : String} {product : Product} {fills : List Fill}
    (h : m.AllLong instrumentKey product fills w) :
    m.LongSteps Orderly instrumentKey product w (m.deliverAll fills w) := by
  induction fills generalizing w with
  | nil => exact .refl
  | cons fill rest ih =>
    obtain ⟨⟨hgood, hlong⟩, hrest⟩ := h
    exact .head ⟨_, .filled fill w.broker, hgood, hlong⟩ (ih hrest)

theorem LongSteps.steps {Good : Paper Exits → Fill → Prop} {instrumentKey : String}
    {product : Product} (h : m.LongSteps Good instrumentKey product w w') :
    m.Steps Good w w' :=
  h.lift id fun _ _ ⟨move, step, hgood, _⟩ => ⟨move, step, hgood⟩

theorem Steps.mono {Good Good' : Paper Exits → Fill → Prop} (h : m.Steps Good w w')
    (hmono : ∀ w fill, Good w fill → Good' w fill) : m.Steps Good' w w' := by
  refine h.lift id fun a b ⟨move, step, hgood⟩ => ⟨move, step, ?_⟩
  cases move with
  | filled fill => exact hmono a fill hgood
  | restarted => exact hgood
  | beside => trivial
  | acted => trivial

/-- A submission fills nothing. -/
theorem steps_submit (Good : Paper Exits → Fill → Prop) (call : ExitCall) (intent : OrderIntent)
    (hk : Keyed w) : m.Steps Good w (m.submit call intent w).state :=
  (System.beside_submit m.system call.now call.brokerNow intent none call.gate call.delivery hk w
    rfl).1.lift id fun _ _ hbeside =>
    ⟨_, .beside (hbeside.mono fun _ _ => trivial), trivial⟩

end ExitManager

/-! ## Eighteen shares bought one by one -/

namespace EighteenLots

open OldStop (manager call key)

theorem eighteen_pos : ∀ q ∈ some (18 : ℤ), 0 < q := by simp

def entry : OrderIntent :=
  { Sample.entry with quantity := some 18, quantity_pos := eighteen_pos }

def announced : Paper Exits :=
  (manager.act (.expect "I1" ⟨5, "momentum", "D1", 20727⟩) (manager.init 100000)).state

/-- The broker sees a first quote; there is nothing to fill. -/
def quoted : Paper Exits :=
  announced.mapBroker fun _ =>
    (manager.system.run announced [.quote (Sample.quote 0 0 Sample.zero_nonneg)]).broker

def submitted : Paper Exits := (manager.submit (call 1) entry quoted).state

/-- One share is bought, without charges. -/
def purchase (n : ℕ) : Fill :=
  { fillId := "B" ++ toString n, clientOrderId := "I1", brokerOrderId := none, bookId := "main"
    decisionId := "D1", instrumentKey := Sample.infy.key, side := .buy, quantity := 1
    price := 100, ts := Sample.clock 2, charges := 0, chargesBreakdown := []
    quantity_pos := Eighteen.one_share, price_pos := Sample.hundred_pos
    charges_nonneg := Eighteen.no_charges }

/-- All of them are sold, for one paisa of charges. -/
def sale : Fill :=
  { fillId := "S", clientOrderId := "X1", brokerOrderId := none, bookId := "main"
    decisionId := "D1", instrumentKey := Sample.infy.key, side := .sell, quantity := 18
    price := 100, ts := Sample.clock 4, charges := 1 / 100, chargesBreakdown := []
    quantity_pos := Eighteen.eighteen_shares, price_pos := Sample.hundred_pos
    charges_nonneg := Eighteen.one_paisa }

def opened : Paper Exits := manager.deliver (purchase 0) submitted.broker submitted

def bought : Paper Exits :=
  manager.deliverAll ((List.range' 1 17).map purchase) opened

def exiting : Paper Exits := (manager.submit (call 3) (Sample.exit "X1") bought).state

def sold : Paper Exits := manager.deliver sale exiting.broker exiting

theorem submitted_steps (Good : Paper Exits → Fill → Prop) :
    manager.Steps Good announced submitted := by
  have hquoted : manager.Steps Good announced quoted :=
    .single ⟨_, .beside (.mapBroker _ announced), trivial⟩
  exact hquoted.trans (ExitManager.steps_submit Good (call 1) entry (OMS.keyed_init _))

theorem opened_orderly : ExitManager.Orderly submitted (purchase 0) := by decide +kernel

theorem bought_allLong :
    manager.AllLong Sample.infy.key .cnc ((List.range' 1 17).map purchase) opened := by
  decide +kernel

theorem bought_longSteps :
    manager.LongSteps ExitManager.Orderly Sample.infy.key .cnc opened bought :=
  ExitManager.longSteps_deliverAll bought_allLong

theorem bought_steps : manager.Steps ExitManager.Orderly (manager.init 100000) bought := by
  have hannounced : manager.Steps ExitManager.Orderly (manager.init 100000) announced :=
    .single ⟨_, .acted (.expect "I1" ⟨5, "momentum", "D1", 20727⟩), trivial⟩
  have hopened : manager.Steps ExitManager.Orderly submitted opened :=
    .single ⟨.filled (purchase 0), .filled (purchase 0) submitted.broker, opened_orderly⟩
  exact ((hannounced.trans (submitted_steps _)).trans hopened).trans bought_longSteps.steps

theorem sold_steps : manager.Steps ExitManager.Belongs (manager.init 100000) sold := by
  have hkeyed : ExitManager.Keyed bought :=
    (bought_steps.managing (ExitManager.managing_init 100000)).keyed
  have hbelongs : ExitManager.Belongs exiting sale := by decide +kernel
  have hsold : manager.Steps ExitManager.Belongs exiting sold :=
    .single ⟨.filled sale, .filled sale exiting.broker, hbelongs⟩
  exact ((bought_steps.mono fun _ _ hgood => hgood.1).trans
    (ExitManager.steps_submit _ (call 3) (Sample.exit "X1") hkeyed)).trans hsold

/-- The order that opens the position, as it stands then. -/
theorem opening_order : ∃ order, submitted.desk.oms.orders.get? "I1" = some order ∧
    order.clientOrderId = "I1" ∧ ExitManager.Enterable order ∧
    order.intent.instrument.key = Sample.infy.key ∧ order.intent.product = .cnc := by
  have hfacts : (submitted.desk.oms.orders.get? "I1").map (fun order =>
      (order.clientOrderId, order.intent.reduceOnly, order.filledQty, order.quantity,
        order.intent.instrument.key, order.intent.product)) =
      some ("I1", false, 0, 18, Sample.infy.key, .cnc) := by
    decide +kernel
  obtain ⟨order, horder, hfacts⟩ := Option.map_eq_some_iff.mp hfacts
  simp only [Prod.mk.injEq] at hfacts
  obtain ⟨hid, hro, hfilled, hquantity, hkey, hproduct⟩ := hfacts
  exact ⟨order, horder, hid, ⟨hro, by omega⟩, hkey, hproduct⟩

end EighteenLots

namespace ExitManager

/-- The last of the eighteen pieces sold is given negative charges, its trade does not
validate, and the manager is not told that its position is gone. -/
theorem sold_position_managed : ¬ ∀ (m : ExitManager) (startingCash : ℚ) (w : Paper Exits),
    m.Steps Belongs (m.init startingCash) w →
      w.exits.Mirrors w.desk.oms.book ∧
      (∀ instrumentKey product, w.desk.oms.book.quantity instrumentKey product = 0 →
        w.exits.position? (positionKey instrumentKey product) = none) ∧
      ∀ order, m.Opened Belongs (fun _ => True) startingCash order w →
        (w.exits.position?
          (positionKey order.intent.instrument.key order.intent.product)).isSome := by
  intro h
  have hflat : EighteenLots.sold.desk.oms.book.quantity Sample.infy.key .cnc = 0 := by
    decide +kernel
  have hnone := (h OldStop.manager 100000 EighteenLots.sold EighteenLots.sold_steps).2.1 _ _ hflat
  have hmanaged : (EighteenLots.sold.exits.position?
      (positionKey Sample.infy.key .cnc)).isSome = true := by decide +kernel
  rw [hnone] at hmanaged
  cases hmanaged

/-- The eighteen shares after they were bought. -/
theorem manages_the_book_eighteen :
    EighteenLots.bought.exits.Mirrors EighteenLots.bought.desk.oms.book ∧
      (EighteenLots.bought.exits.position? (positionKey Sample.infy.key .cnc)).isSome := by
  obtain ⟨hmirrors, -, hopened⟩ :=
    manages_the_book OldStop.manager 100000 EighteenLots.bought EighteenLots.bought_steps
  refine ⟨hmirrors, ?_⟩
  obtain ⟨order, horder, hid, henterable, hkey, hproduct⟩ := EighteenLots.opening_order
  have hflat : EighteenLots.submitted.desk.oms.book.quantity Sample.infy.key .cnc = 0 ∧
      (EighteenLots.purchase 0).signedQty = 1 ∧
      (EighteenLots.purchase 0).fillId ∉ EighteenLots.submitted.desk.oms.book.seen := by
    decide +kernel
  have hopens : Opens order EighteenLots.submitted (EighteenLots.purchase 0) := by
    refine ⟨horder, hflat.2.2, ?_, ?_⟩ <;> rw [hkey, hproduct] <;> omega
  have hmanaged := hopened order ⟨OldStop.manager.init 100000, ⟨5, "momentum", "D1", 20727⟩,
    EighteenLots.submitted, EighteenLots.purchase 0, EighteenLots.submitted.broker, .refl,
    hid ▸ EighteenLots.submitted_steps _, henterable, hopens, EighteenLots.opened_orderly,
    hkey ▸ hproduct ▸ EighteenLots.bought_longSteps⟩
  rw [hkey, hproduct] at hmanaged
  exact hmanaged

end ExitManager

end RakshaQuant
