import RakshaQuant.Brokers.Simulated.FillModel
import RakshaQuant.Oms.Oms

/-! What the exit manager keeps of each position, and what it makes of a fill. Stop
and target are set from the fill price when an entry fills; exit fills take their
quantity off; the stop only moves up with the highest close. -/

namespace RakshaQuant

/-- `f"{instrument.key}|{product.value}"`. -/
def positionKey (instrumentKey : String) (product : Product) : String :=
  instrumentKey ++ "|" ++ product.value

/-- The key says which instrument and product it is of. -/
theorem positionKey_inj {instrumentKey instrumentKey' : String} {product product' : Product}
    (h : positionKey instrumentKey product = positionKey instrumentKey' product') :
    instrumentKey = instrumentKey' ∧ product = product' := by
  have hchars := congrArg String.toList h
  simp only [positionKey, String.toList_append, List.append_assoc] at hchars
  have hproduct : product = product' := by
    -- the products' texts end in different letters
    have hlast := congrArg List.getLast? hchars
    cases product <;> cases product' <;> simp [Product.value] at hlast ⊢
  subst hproduct
  exact ⟨String.toList_inj.mp (List.append_cancel_right hchars), rfl⟩

/-- `ExitPolicy`; `partialOf` is `int(quantity * partial_fraction)`, a float product. -/
structure ExitPolicy where
  kStopAtr : ℚ
  kTargetAtr : ℚ
  kTrailAtr : Option ℚ
  maxHoldDays : ℤ
  partialAtR : Option ℚ
  partialOf : ℤ → ℤ
  kStopAtr_pos : 0 < kStopAtr
  kTargetAtr_pos : 0 < kTargetAtr
  maxHoldDays_pos : 1 ≤ maxHoldDays

structure ManagedPosition where
  instrument : Instrument
  product : Product
  strategy : String
  entryDecisionId : String
  signalBarDate : Day
  entryPrice : ℚ
  quantity : ℤ
  stopPrice : ℚ
  targetPrice : ℚ
  rDistance : ℚ
  atr : ℚ
  enteredOn : Day
  highestClose : ℚ
  partialTaken : Bool
  stopCoid : Option String
  stopVersion : ℕ
  closing : Bool
deriving DecidableEq

/-- What `expect_entry` notes of an entry. -/
structure PendingEntry where
  atr : ℚ
  strategy : String
  decisionId : String
  signalBarDate : Day
deriving DecidableEq

/-- `_State`, which is what the state store holds. -/
structure ExitState where
  positions : Dict String ManagedPosition
  pendingAtr : Dict String PendingEntry
deriving DecidableEq

/-- The manager's state in memory and in its store; `staleStops` are the keys of the
positions whose stop must be placed, which are not stored. -/
structure Exits where
  state : ExitState
  saved : Option ExitState
  staleStops : List String
deriving DecidableEq

namespace ManagedPosition

def key (pos : ManagedPosition) : String := positionKey pos.instrument.key pos.product

/-- What a managed position hands on to an entry that adds to it. -/
def lineage (pos : ManagedPosition) : PendingEntry :=
  ⟨pos.atr, pos.strategy, pos.entryDecisionId, pos.signalBarDate⟩

/-- The next stop order is a new version. -/
def nextVersion (pos : ManagedPosition) : ManagedPosition :=
  { pos with stopVersion := pos.stopVersion + 1 }

def withStop (coid : Option String) (pos : ManagedPosition) : ManagedPosition :=
  { pos with stopCoid := coid }

/-- A full exit was submitted. -/
def close (pos : ManagedPosition) : ManagedPosition := { pos with closing := true }

def takePartial (pos : ManagedPosition) : ManagedPosition := { pos with partialTaken := true }

/-- The daily update: the trailing stop never falls, and yesterday's order is let go. -/
def trailed (policy : ExitPolicy) (close atr : Option ℚ) (pos : ManagedPosition) :
    ManagedPosition :=
  let highest := (close.map (max pos.highestClose)).getD pos.highestClose
  let stop := match policy.kTrailAtr with
    | none => pos.stopPrice
    | some k =>
      let trail := roundToTick (highest - k * atr.getD pos.atr) pos.instrument.tickSize .sell
      if pos.stopPrice < trail then trail else pos.stopPrice
  { pos with highestClose := highest, stopPrice := stop, stopCoid := none }

end ManagedPosition

/-- `_levels`: stop and target around an entry price. -/
def ExitPolicy.levels (policy : ExitPolicy) (entry atr : ℚ) (instrument : Instrument) : ℚ × ℚ :=
  let tick := instrument.tickSize
  let stop := roundToTick (entry - policy.kStopAtr * atr) tick .sell
  let target := roundToTick (entry + policy.kTargetAtr * atr) tick .buy
  (max stop tick, target)

namespace Exits

/-- A manager on an empty store. -/
def init : Exits := ⟨⟨.empty, .empty⟩, none, []⟩

/-- The process starts again on the same store. -/
def restart (e : Exits) : Exits := ⟨e.saved.getD ⟨.empty, .empty⟩, e.saved, []⟩

/-- `_save`. -/
def save (e : Exits) : Exits := { e with saved := some e.state }

def position? (e : Exits) (key : String) : Option ManagedPosition := e.state.positions.get? key

def mapPositions (f : Dict String ManagedPosition → Dict String ManagedPosition) (e : Exits) :
    Exits :=
  { e with state := { e.state with positions := f e.state.positions } }

/-- Assign to fields of a managed position. -/
def update (key : String) (f : ManagedPosition → ManagedPosition) (e : Exits) : Exits :=
  e.mapPositions fun ps => ps.update key f

/-- `del self._state.positions[key]`. -/
def drop (key : String) (e : Exits) : Exits := e.mapPositions fun ps => ps.pop key

def manage (key : String) (pos : ManagedPosition) (e : Exits) : Exits :=
  e.mapPositions fun ps => ps.set key pos

/-- `_stale_stops.add` -/
def markStale (key : String) (e : Exits) : Exits :=
  if key ∈ e.staleStops then e else { e with staleStops := e.staleStops ++ [key] }

/-- `_stale_stops.discard` -/
def clearStale (key : String) (e : Exits) : Exits :=
  { e with staleStops := e.staleStops.filter (· ≠ key) }

def expect (clientOrderId : String) (entry : PendingEntry) (e : Exits) : Exits :=
  { e with state := { e.state with pendingAtr := e.state.pendingAtr.set clientOrderId entry } }

def settle (clientOrderId : String) (e : Exits) : Exits :=
  { e with state := { e.state with pendingAtr := e.state.pendingAtr.pop clientOrderId } }

section lookups

variable (e : Exits) (key k : String) (f : ManagedPosition → ManagedPosition)
  (pos : ManagedPosition) (coid : String) (entry : PendingEntry)

@[simp] theorem position?_update :
    (e.update key f).position? k = if k = key then (e.position? key).map f else e.position? k :=
  Dict.get?_update _ _ _ _

@[simp] theorem position?_drop :
    (e.drop key).position? k = if k = key then none else e.position? k :=
  Dict.get?_pop _ _ _

@[simp] theorem position?_manage :
    (e.manage key pos).position? k = if k = key then some pos else e.position? k :=
  Dict.get?_set _ _ _ _

@[simp] theorem position?_markStale : (e.markStale key).position? k = e.position? k := by
  unfold markStale
  split <;> rfl

@[simp] theorem state_markStale : (e.markStale key).state = e.state := by
  unfold markStale
  split <;> rfl

@[simp] theorem position?_clearStale : (e.clearStale key).position? k = e.position? k := rfl

@[simp] theorem position?_save : e.save.position? k = e.position? k := rfl

@[simp] theorem position?_expect : (e.expect coid entry).position? k = e.position? k := rfl

@[simp] theorem position?_settle : (e.settle coid).position? k = e.position? k := rfl

@[simp] theorem staleStops_update : (e.update key f).staleStops = e.staleStops := rfl

end lookups

/-! ## Fills -/

/-- What an entry goes by: what was announced of it, or the position it adds to. -/
def lineageOf (order : Order) (key : String) (e : Exits) : Option PendingEntry :=
  e.state.pendingAtr.get? order.clientOrderId <|> (e.position? key).map ManagedPosition.lineage

/-- `entry.avg_price or fill.price` -/
def entryPriceOf (avgPrice : Option ℚ) (fill : Fill) : ℚ :=
  match avgPrice with
  | some price => if price = 0 then fill.price else price
  | none => fill.price

/-- The position an entry fill leaves, with levels around its average price. -/
def entered (policy : ExitPolicy) (fill : Fill) (order : Order) (avgPrice : Option ℚ) (held : ℤ)
    (lineage : PendingEntry) (pos : Option ManagedPosition) : ManagedPosition :=
  let entryPrice := entryPriceOf avgPrice fill
  let levels := policy.levels entryPrice lineage.atr order.intent.instrument
  { instrument := order.intent.instrument, product := order.intent.product
    strategy := lineage.strategy, entryDecisionId := lineage.decisionId
    signalBarDate := lineage.signalBarDate, entryPrice := entryPrice, quantity := held
    stopPrice := levels.1, targetPrice := levels.2, rDistance := entryPrice - levels.1
    atr := lineage.atr
    enteredOn := (pos.map ManagedPosition.enteredOn).getD fill.ts.istDate
    highestClose := entryPrice
    partialTaken := (pos.map ManagedPosition.partialTaken).getD false
    stopCoid := pos.bind ManagedPosition.stopCoid
    stopVersion := (pos.map ManagedPosition.stopVersion).getD 0
    closing := false }

/-- `_on_entry_fill`. -/
def onEntryFill (policy : ExitPolicy) (fill : Fill) (order : Order) (book : PositionBook)
    (key : String) (held : ℤ) (e : Exits) : Exits × List Alert :=
  match e.lineageOf order key with
  | none =>
    (e, [⟨"WARNING", "exit_unmanaged_entry",
      "entry fill " ++ fill.fillId ++ " without an ATR: no stop"⟩])
  | some lineage =>
    let entry := book.position order.intent.instrument.key order.intent.product fill.ts
    let pos := entered policy fill order entry.avgPrice held lineage (e.position? key)
    let managed := e.manage key pos
    let settled := if order.status.isTerminal then managed.settle order.clientOrderId else managed
    (settled.markStale key, [])

/-- An exit filled, and `held` shares are left. -/
def onExitFill (reason : IntentReason) (key : String) (held : ℤ) (e : Exits) : Exits :=
  if held ≤ 0 then e.drop key
  else
    (e.update key fun pos =>
      { pos with
        quantity := held
        partialTaken := if reason = .partially then true else pos.partialTaken }).markStale key

/-- `_on_fill`. -/
def onFill (policy : ExitPolicy) : FillListener Exits := fun fill order o e =>
  let intent := order.intent
  let key := positionKey intent.instrument.key intent.product
  let held := o.book.quantity intent.instrument.key intent.product
  if intent.reduceOnly then
    match e.position? key with
    | none => (e, [])
    | some _ => ((e.onExitFill intent.reason key held).save, [])
  else
    let r := e.onEntryFill policy fill order o.book key held
    (r.1.save, r.2)

section fills

variable (policy : ExitPolicy) (fill : Fill) (order : Order) (o : OMS) (e : Exits)

/-- The lineage of an entry is known when it was announced or adds to a position. -/
theorem lineageOf_isSome {key : String} : (e.lineageOf order key).isSome ↔
    (e.state.pendingAtr.get? order.clientOrderId).isSome ∨ (e.position? key).isSome := by
  unfold lineageOf
  cases e.state.pendingAtr.get? order.clientOrderId <;> cases e.position? key <;> simp

/-- A fill changes no position but the one its order is for. -/
theorem position?_onFill_other {key : String}
    (hk : key ≠ positionKey order.intent.instrument.key order.intent.product) :
    (onFill policy fill order o e).1.position? key = e.position? key := by
  unfold onFill
  dsimp only
  split
  · split
    · rfl
    · rw [position?_save]
      unfold onExitFill
      split <;> simp [hk]
  · rw [position?_save]
    unfold onEntryFill
    split
    · rfl
    · dsimp only
      rw [position?_markStale]
      split <;> simp [hk]

/-- An exit fill lets a position go or gives it what the book still holds. -/
theorem position?_onFill_exit (hro : order.intent.reduceOnly = true) {key : String}
    (hk : key = positionKey order.intent.instrument.key order.intent.product) {held : ℤ}
    (hheld : held = o.book.quantity order.intent.instrument.key order.intent.product) :
    (onFill policy fill order o e).1.position? key =
      if held ≤ 0 then none else (e.position? key).map fun pos =>
        { pos with
          quantity := held
          partialTaken := if order.intent.reason = .partially then true
            else pos.partialTaken } := by
  unfold onFill
  dsimp only
  rw [if_pos hro, ← hk, ← hheld]
  split
  · rename_i hnone
    simp [hnone]
  · rw [position?_save]
    unfold onExitFill
    split <;> simp

/-- An entry fill leaves a position with levels, where its lineage is known. -/
theorem position?_onFill_entry (hro : order.intent.reduceOnly = false) {key : String}
    (hk : key = positionKey order.intent.instrument.key order.intent.product) {held : ℤ}
    (hheld : held = o.book.quantity order.intent.instrument.key order.intent.product) :
    (onFill policy fill order o e).1.position? key =
      (e.lineageOf order key).map fun lineage =>
        entered policy fill order
          (o.book.position order.intent.instrument.key order.intent.product fill.ts).avgPrice held
          lineage (e.position? key) := by
  unfold onFill
  dsimp only
  rw [if_neg (by simp [hro]), ← hk, ← hheld, position?_save]
  unfold onEntryFill
  cases hlineage : e.lineageOf order key with
  | none =>
    have hnone : ¬(e.position? key).isSome := fun hpos => by
      have hsome := (lineageOf_isSome order e).mpr (.inr hpos)
      rw [hlineage] at hsome
      cases hsome
    simpa using hnone
  | some lineage =>
    dsimp only
    rw [position?_markStale]
    split <;> simp

/-- What was announced stays announced until its order has ended. -/
theorem pending_onFill {coid : String} (h : (e.state.pendingAtr.get? coid).isSome) :
    ((onFill policy fill order o e).1.state.pendingAtr.get? coid).isSome ∨
      (coid = order.clientOrderId ∧ order.status.isTerminal = true) := by
  unfold onFill
  dsimp only
  split
  · split
    · exact .inl h
    · left
      unfold onExitFill
      split
      · exact h
      · show (((_ : Exits).markStale _).state.pendingAtr.get? coid).isSome
        rw [state_markStale]
        exact h
  · unfold onEntryFill
    split
    · exact .inl h
    · show (((_ : Exits).markStale _).state.pendingAtr.get? coid).isSome ∨ _
      rw [state_markStale]
      split
      · rename_i hterminal
        by_cases hc : coid = order.clientOrderId
        · exact .inr ⟨hc, hterminal⟩
        · left
          show ((e.state.pendingAtr.pop order.clientOrderId).get? coid).isSome
          rw [Dict.get?_pop, if_neg hc]
          exact h
      · exact .inl h

end fills

/-! ## What is working at the OMS -/

/-- `_live_stop`: the first stop order of the position that has not ended. -/
def liveStop (o : OMS) (pos : ManagedPosition) : Option Order :=
  o.orders.values.find? fun order =>
    order.intent.reduceOnly && order.intent.orderType = .slM &&
      order.intent.instrument.key = pos.instrument.key && order.intent.product = pos.product &&
      !order.status.isTerminal

/-- `_exit_working`. -/
def exitWorking (o : OMS) (pos : ManagedPosition) : Bool :=
  o.orders.values.any fun order =>
    order.intent.reduceOnly && order.intent.instrument.key = pos.instrument.key &&
      order.intent.product = pos.product && !order.status.isTerminal

/-- `_instrument_for`. -/
def instrumentFor (o : OMS) (instrumentKey : String) : Option Instrument :=
  (o.orders.values.find? fun order => order.intent.instrument.key = instrumentKey).map
    fun order => order.intent.instrument

/-! ## Reconciliation with the book -/

/-- Drop what the book no longer holds, in the table's order. -/
def dropGhosts (held : List String) : List String → Exits → Exits × List String
  | [], e => (e, [])
  | key :: rest, e =>
    if key ∈ held then dropGhosts held rest e
    else
      let r := dropGhosts held rest (e.drop key)
      (r.1, ("dropped managed " ++ key ++ ": the book holds nothing") :: r.2)

/-- A managed position the book holds takes the book's quantity, and is managed again
when it was closing and no exit is working. -/
def recount (o : OMS) (key : String) (pos : ManagedPosition) (held : ℤ) (e : Exits) :
    Exits × List String :=
  let counted :=
    if pos.quantity ≠ held then
      ((e.update key fun pos => { pos with quantity := held }).markStale key,
        [key ++ ": managed " ++ toString pos.quantity ++ " -> book " ++ toString held])
    else (e, [])
  if pos.closing && !exitWorking o pos then
    ((counted.1.update key fun pos => { pos with closing := false }).markStale key,
      counted.2 ++ [key ++ ": no exit working - managing it again"])
  else counted

/-- A position that is taken over as the book holds it. -/
def adopted (policy : ExitPolicy) (now : Instant) (newId : String) (instrument : Instrument)
    (position : Position) (avgPrice atr : ℚ) : ManagedPosition :=
  let levels := policy.levels avgPrice atr instrument
  { instrument := instrument, product := position.product, strategy := "adopted"
    entryDecisionId := newId, signalBarDate := now.istDate, entryPrice := avgPrice
    quantity := position.quantity, stopPrice := levels.1, targetPrice := levels.2
    rDistance := avgPrice - levels.1, atr := atr, enteredOn := now.istDate
    highestClose := avgPrice, partialTaken := false, stopCoid := none, stopVersion := 0
    closing := false }

/-- One position of the book in `reconcile`. -/
def reconcileOne (policy : ExitPolicy) (now : Instant) (newId : String → String)
    (atr : String → Option ℚ) (o : OMS) (position : Position) (e : Exits) :
    Exits × List String :=
  let key := positionKey position.instrumentKey position.product
  match e.position? key with
  | some pos => e.recount o key pos position.quantity
  | none =>
    if position.quantity < 0 then
      (e, [key ++ ": SHORT " ++ toString position.quantity ++
        " in a long-only book - flatten it"])
    else
      match atr position.instrumentKey, instrumentFor o position.instrumentKey,
          position.avgPrice with
      | some known, some instrument, some avgPrice =>
        let pos := adopted policy now (newId key) instrument position avgPrice known
        ((e.manage key pos).markStale key,
          ["adopted " ++ key ++ ": " ++ toString position.quantity ++ " @ " ++
            toString avgPrice ++ ", stop " ++ toString pos.stopPrice])
      | _, _, _ =>
        (e, [key ++ ": held " ++ toString position.quantity ++
          " with NO exits (no ATR/instrument)"])

def reconcileAll (policy : ExitPolicy) (now : Instant) (newId : String → String)
    (atr : String → Option ℚ) (o : OMS) : List Position → Exits → Exits × List String
  | [], e => (e, [])
  | position :: rest, e =>
    let r := e.reconcileOne policy now newId atr o position
    let s := reconcileAll policy now newId atr o rest r.1
    (s.1, r.2 ++ s.2)

/-- `reconcile` up to its alerts: the state and the notes. -/
def takeStock (policy : ExitPolicy) (now : Instant) (newId : String → String)
    (atr : String → Option ℚ) (o : OMS) (e : Exits) : Exits × List String :=
  let book := (o.book.positions now).filter fun p => p.quantity ≠ 0
  let held := book.map fun p => positionKey p.instrumentKey p.product
  let r := dropGhosts held e.state.positions.keys e
  let s := reconcileAll policy now newId atr o book r.1
  (s.1, r.2 ++ s.2)

section stock

variable (e : Exits) (key k : String)

theorem position?_dropGhosts (held keys : List String) :
    (dropGhosts held keys e).1.position? key =
      if key ∈ keys ∧ key ∉ held then none else e.position? key := by
  induction keys generalizing e with
  | nil => simp [dropGhosts]
  | cons k rest ih =>
    unfold dropGhosts
    split
    · rename_i hheld
      rw [ih]
      by_cases hk : key = k
      · subst hk
        simp [hheld]
      · simp [hk]
    · rename_i hheld
      dsimp only
      rw [ih, position?_drop]
      by_cases hk : key = k
      · subst hk
        simp [hheld]
      · simp [hk]

/-- A recounted position has the book's quantity, and is closing only with an exit
that works. -/
theorem position?_recount (o : OMS) {pos : ManagedPosition} (held : ℤ)
    (hpos : e.position? k = some pos) :
    (e.recount o k pos held).1.position? key =
      if key = k then
        some { pos with quantity := held, closing := pos.closing && exitWorking o pos }
      else e.position? key := by
  have hsame : pos.quantity = held → { pos with quantity := held } = pos := by
    rintro rfl
    rfl
  unfold recount
  dsimp only
  by_cases hk : key = k
  · subst hk
    by_cases hq : pos.quantity = held <;> by_cases hc : pos.closing = true <;>
      by_cases hw : exitWorking o pos = true <;> simp [hq, hc, hw, hpos] <;>
      · subst hq
        cases pos
        simp_all
  · by_cases hq : pos.quantity = held <;> by_cases hc : pos.closing = true <;>
      by_cases hw : exitWorking o pos = true <;> simp [hq, hc, hw, hk]

variable (policy : ExitPolicy) (now : Instant) (newId : String → String)
  (atr : String → Option ℚ) (o : OMS) (position : Position)

/-- One position of the book touches only its own key. -/
theorem position?_reconcileOne
    (hk : positionKey position.instrumentKey position.product ≠ key) :
    (e.reconcileOne policy now newId atr o position).1.position? key = e.position? key := by
  unfold reconcileOne
  dsimp only
  split
  · rename_i pos hpos
    rw [position?_recount _ _ _ _ _ hpos, if_neg (Ne.symm hk)]
  · split
    · rfl
    · split
      · simp [Ne.symm hk]
      · rfl

theorem position?_reconcileAll {e : Exits} {key : String} {book : List Position}
    (hk : ∀ p ∈ book, positionKey p.instrumentKey p.product ≠ key) :
    (reconcileAll policy now newId atr o book e).1.position? key = e.position? key := by
  induction book generalizing e with
  | nil => rfl
  | cons p rest ih =>
    unfold reconcileAll
    dsimp only
    rw [ih fun q hq => hk q (List.mem_cons_of_mem _ hq),
      position?_reconcileOne _ _ _ _ _ _ _ _ (hk p List.mem_cons_self)]

/-- A managed position stays managed at its stop. -/
theorem keeps_reconcileAll (book : List Position) {e : Exits} {key : String}
    {pos : ManagedPosition} (hpos : e.position? key = some pos) :
    ∃ pos', (reconcileAll policy now newId atr o book e).1.position? key = some pos' ∧
      pos'.stopPrice = pos.stopPrice := by
  induction book generalizing e pos with
  | nil => exact ⟨pos, hpos, rfl⟩
  | cons p rest ih =>
    have hone : ∃ pos', (e.reconcileOne policy now newId atr o p).1.position? key = some pos' ∧
        pos'.stopPrice = pos.stopPrice := by
      by_cases hk : positionKey p.instrumentKey p.product = key
      · subst hk
        unfold reconcileOne
        dsimp only
        rw [hpos]
        dsimp only
        rw [position?_recount _ _ _ _ _ hpos, if_pos rfl]
        exact ⟨_, rfl, rfl⟩
      · exact ⟨pos, by rw [position?_reconcileOne _ _ _ _ _ _ _ _ hk, hpos], rfl⟩
    obtain ⟨pos', hpos', hsame⟩ := hone
    obtain ⟨pos'', hpos'', hsame'⟩ := ih hpos'
    exact ⟨pos'', hpos'', hsame'.trans hsame⟩

/-- What the book holds stays managed. -/
theorem managed_takeStock {instrumentKey : String} {product : Product}
    (hheld : o.book.quantity instrumentKey product ≠ 0)
    (hmanaged : (e.position? (positionKey instrumentKey product)).isSome) :
    ((takeStock policy now newId atr o e).1.position?
      (positionKey instrumentKey product)).isSome := by
  obtain ⟨pos, hpos⟩ := Option.isSome_iff_exists.mp hmanaged
  unfold takeStock
  generalize hbook : (o.book.positions now).filter (fun p => p.quantity ≠ 0) = book
  dsimp only
  have hmem : positionKey instrumentKey product ∈
      book.map fun p => positionKey p.instrumentKey p.product := by
    cases hget : o.book.books.get? (instrumentKey, product) with
    | none => exact absurd (by rw [PositionBook.quantity, PositionBook.bookAt, hget]; rfl) hheld
    | some held =>
      have hquantity : o.book.quantity instrumentKey product = held.quantity := by
        rw [PositionBook.quantity, PositionBook.bookAt, hget, Option.getD_some]
      refine List.mem_map.mpr
        ⟨PositionBook.positionOf o.book.bookId (instrumentKey, product) held now, ?_, rfl⟩
      rw [← hbook, List.mem_filter]
      refine ⟨List.mem_map.mpr ⟨((instrumentKey, product), held), ?_, rfl⟩, ?_⟩
      · exact (List.mem_insertionSort _).mpr ((Dict.mem_entries_iff _).mpr hget)
      · exact decide_eq_true (show held.quantity ≠ 0 from hquantity ▸ hheld)
  have hkept : (dropGhosts (book.map fun p => positionKey p.instrumentKey p.product)
      e.state.positions.keys e).1.position? (positionKey instrumentKey product) = some pos := by
    rw [position?_dropGhosts, if_neg fun h => h.2 hmem, hpos]
  obtain ⟨after, hafter, -⟩ := keeps_reconcileAll policy now newId atr o book hkept
  rw [hafter]
  rfl

/-- Nothing that was announced is forgotten. -/
theorem pending_takeStock :
    (takeStock policy now newId atr o e).1.state.pendingAtr = e.state.pendingAtr := by
  have hghosts : ∀ (held keys : List String) (e : Exits),
      (dropGhosts held keys e).1.state.pendingAtr = e.state.pendingAtr := by
    intro held keys
    induction keys with
    | nil => exact fun _ => rfl
    | cons k rest ih =>
      intro e
      unfold dropGhosts
      split
      · exact ih e
      · exact ih (e.drop k)
  have hone : ∀ (p : Position) (e : Exits),
      (e.reconcileOne policy now newId atr o p).1.state.pendingAtr = e.state.pendingAtr := by
    intro p e
    unfold reconcileOne
    dsimp only
    split
    · unfold recount
      dsimp only
      split <;> split <;> simp [update, mapPositions]
    · split
      · rfl
      · split <;> simp [manage, mapPositions]
  have hall : ∀ (book : List Position) (e : Exits),
      (reconcileAll policy now newId atr o book e).1.state.pendingAtr = e.state.pendingAtr := by
    intro book
    induction book with
    | nil => exact fun _ => rfl
    | cons p rest ih =>
      intro e
      exact (ih _).trans (hone p e)
  exact (hall _ _).trans (hghosts _ _ e)

end stock

/-- The alert `reconcile` raises for a note. -/
def noteAlert (note : String) : Alert :=
  let critical := "NO exits".toList <:+: note.toList ∨ "SHORT".toList <:+: note.toList
  ⟨if critical then "CRITICAL" else "WARNING", "exit_reconcile", note⟩

end Exits

end RakshaQuant
