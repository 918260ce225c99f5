import RakshaQuant.Exits.Ratchet
import RakshaQuant.Risk.FlattenRuns

/-! One FLATTEN order at a time. An attempt number is in the store before its order exists, so
no crash gives it out twice; the order before it has ended when the next one is sent, and the
log of the OMS brings its orders' lives back. What is left to the broker are the fills: an
order the OMS takes for ended can still be filled where a crash lost what the broker knew. -/

namespace RakshaQuant

namespace OMS

/-- A fill the OMS can take in without two FLATTEN orders of a position coming to live and
without a position turning over: it is of an order held here and fits it, and it does not
revive an ended FLATTEN order beside a live one. -/
def Fillable (o : OMS) (fill : Fill) : Prop :=
  fill.fillId ∈ o.book.seen ∨ ∃ known, o.orders.get? fill.clientOrderId = some known ∧
    fill.bookId = o.bookId ∧ Fits o known fill ∧
    (known.intent.kind = .flatten → known.status.isTerminal = true →
      fill.quantity < known.remainingQty →
      o.Idle known.intent.instrument.key known.intent.product)

/-- Reduce-only orders stay inside the positions, one FLATTEN order of a position lives, and
each is the order of an attempt that was spent. -/
structure Orderly (spent : List Attempt) (o : OMS) : Prop where
  headroom : o.Headroom
  sole : ∀ instrumentKey product coid coid' order order', o.orders.get? coid = some order →
    o.orders.get? coid' = some order' → order.Flattens instrumentKey product →
    order'.Flattens instrumentKey product → coid = coid'
  named : ∀ coid order, o.orders.get? coid = some order → order.intent.kind = .flatten →
    ∃ a ∈ spent, a.Names o.bookId order.intent

namespace Orderly

variable {spent spent' : List Attempt} {o o' r : OMS}

theorem init (book : PositionBook) : Orderly [] (OMS.init book) where
  headroom :=
    { filled := fun _ _ h => by cases h
      faces := fun _ _ h => by cases h
      bounded := fun _ _ => abs_nonneg _ }
  sole _ _ _ _ _ _ h := by cases h
  named _ _ h := by cases h

theorem mono (h : Orderly spent o) (hspent : spent ⊆ spent') : Orderly spent' o where
  headroom := h.headroom
  sole := h.sole
  named coid order ho hkind := by
    obtain ⟨a, ha, hnames⟩ := h.named coid order ho hkind
    exact ⟨a, hspent ha, hnames⟩

theorem same (h : Orderly spent o) (horders : o'.orders = o.orders) (hbook : o'.book = o.book) :
    Orderly spent o' where
  headroom := h.headroom.same horders hbook
  sole := by
    rw [horders]
    exact h.sole
  named := by
    rw [horders, bookId, hbook]
    exact h.named

/-- What is rebuilt from the log is as orderly. -/
theorem twin (h : Orderly spent o) (htwins : Twins o r) : Orderly spent r := by
  have hflattens : ∀ {instrumentKey product coid copy}, r.orders.get? coid = some copy →
      copy.Flattens instrumentKey product → ∃ order, o.orders.get? coid = some order ∧
        order.Flattens instrumentKey product := by
    intro instrumentKey product coid copy hcopy hlive
    obtain ⟨order, ho, htwin⟩ := htwins.origin hcopy
    exact ⟨order, ho, flattens_of_before htwin.extent (fun hs => by rw [← htwin.status, hs]) hlive⟩
  refine ⟨htwins.headroom h.headroom, ?_, fun coid copy hcopy hkind => ?_⟩
  · intro instrumentKey product coid coid' copy copy' hcopy hcopy' hlive hlive'
    obtain ⟨order, ho, hold⟩ := hflattens hcopy hlive
    obtain ⟨order', ho', hold'⟩ := hflattens hcopy' hlive'
    exact h.sole instrumentKey product coid coid' order order' ho ho' hold hold'
  · obtain ⟨order, ho, htwin⟩ := htwins.origin hcopy
    rw [htwin.intent] at hkind ⊢
    rw [bookId, htwins.book]
    exact h.named coid order ho hkind

/-- Work that registers a FLATTEN order only for a spent attempt at an idle position. -/
theorem work {Allowed : Order → Prop} (h : Orderly spent o) (hwork : Work Allowed o o')
    (hnew : ∀ order, Allowed order → order.intent.kind = .flatten →
      o.orders.get? order.clientOrderId = none → (∃ a ∈ spent, a.Names o.bookId order.intent) ∧
        o.Idle order.intent.instrument.key order.intent.product) : Orderly spent o' := by
  have hbookId : o'.bookId = o.bookId := by rw [bookId, hwork.book]; rfl
  -- a live FLATTEN order is an old one, or the new one at an idle position
  have hsource : ∀ {instrumentKey product coid order'}, o'.orders.get? coid = some order' →
      order'.Flattens instrumentKey product →
      (∃ order, o.orders.get? coid = some order ∧ order.Flattens instrumentKey product) ∨
        (o.orders.get? coid = none ∧ o.Idle instrumentKey product) := by
    intro instrumentKey product coid order' ho' hlive
    rcases hwork.before ho' with ⟨order, ho, hextent, hlived⟩ | ⟨hallowed, rfl, hfresh⟩
    · exact .inl ⟨order, ho, flattens_of_before hextent hlived hlive⟩
    · obtain ⟨hkind, rfl, rfl, -⟩ := hlive
      exact .inr ⟨hfresh, (hnew order' hallowed hkind hfresh).2⟩
  refine ⟨hwork.headroom h.headroom, ?_, fun coid order' ho' hkind => ?_⟩
  · intro instrumentKey product coid coid' order order' ho ho' hlive hlive'
    rcases hsource ho hlive with ⟨old, hold, hflattens⟩ | ⟨hfresh, hidle⟩
    · rcases hsource ho' hlive' with ⟨old', hold', hflattens'⟩ | ⟨-, hidle⟩
      · exact h.sole instrumentKey product coid coid' old old' hold hold' hflattens hflattens'
      · exact absurd hflattens (hidle coid old hold)
    · rcases hsource ho' hlive' with ⟨old', hold', hflattens'⟩ | ⟨hfresh', -⟩
      · exact absurd hflattens' (hidle coid' old' hold')
      · exact hwork.new_unique ho hfresh ho' hfresh'
  · rw [hbookId]
    rcases hwork.before ho' with ⟨order, ho, hextent, -⟩ | ⟨hallowed, rfl, hfresh⟩
    · have hintent : order'.intent = order.intent := congrArg Prod.fst hextent
      rw [hintent] at hkind ⊢
      exact h.named coid order ho hkind
    · exact (hnew order' hallowed hkind hfresh).1

/-- A fill that leaves an ended order live does not fill it. -/
theorem revived_within {known : Order} {fill : Fill} (version : ℕ)
    (hlive : (known.afterFill fill version).status.isTerminal = false)
    (hwithin : fill.quantity ≤ known.remainingQty) : fill.quantity < known.remainingQty := by
  rcases lt_or_eq_of_le hwithin with hlt | heq
  · exact hlt
  · -- what fills the order ends it
    have hfilled : statusAfter known fill = .filled := by
      rw [Order.remainingQty] at heq
      rw [statusAfter, if_pos]
      rw [filledAfter]
      omega
    have hstatus : statusAfter known fill = (known.afterFill fill version).status := rfl
    rw [← hstatus, hfilled] at hlive
    cases hlive

/-- A fill that can be taken in. -/
theorem booked (h : Orderly spent o) {known : Order} {fill : Fill}
    (hbooked : Booked o o' known fill) (hfits : Fits o known fill)
    (hrevives : known.intent.kind = .flatten → known.status.isTerminal = true →
      fill.quantity < known.remainingQty →
      o.Idle known.intent.instrument.key known.intent.product) : Orderly spent o' := by
  obtain ⟨version, horders⟩ := hbooked.orders
  have hbookId : o'.bookId = o.bookId := by rw [bookId, hbooked.book]; rfl
  -- a live FLATTEN order was one before, or the fill revives it at an idle position
  have hsource : ∀ {instrumentKey product coid order'}, o'.orders.get? coid = some order' →
      order'.Flattens instrumentKey product →
      (∃ order, o.orders.get? coid = some order ∧ order.Flattens instrumentKey product) ∨
        (coid = fill.clientOrderId ∧ o.Idle instrumentKey product) := by
    intro instrumentKey product coid order' ho' hlive
    rw [horders, Dict.get?_set_iff] at ho'
    rcases ho' with ⟨rfl, rfl⟩ | ⟨-, hold⟩
    · obtain ⟨hkind, rfl, rfl, hstatus⟩ := hlive
      cases hterm : known.status.isTerminal with
      | false => exact .inl ⟨known, hbooked.held, hkind, rfl, rfl, hterm⟩
      | true =>
        exact .inr ⟨rfl, hrevives hkind hterm (revived_within version hstatus hfits.within)⟩
    · exact .inl ⟨order', hold, hlive⟩
  refine ⟨h.headroom.fills version hbooked.held horders hbooked.book hfits, ?_,
    fun coid order' ho' hkind => ?_⟩
  · intro instrumentKey product coid coid' order order' ho ho' hlive hlive'
    rcases hsource ho hlive with ⟨old, hold, hflattens⟩ | ⟨rfl, hidle⟩
    · rcases hsource ho' hlive' with ⟨old', hold', hflattens'⟩ | ⟨-, hidle⟩
      · exact h.sole instrumentKey product coid coid' old old' hold hold' hflattens hflattens'
      · exact absurd hflattens (hidle coid old hold)
    · rcases hsource ho' hlive' with ⟨old', hold', hflattens'⟩ | ⟨rfl, -⟩
      · exact absurd hflattens' (hidle coid' old' hold')
      · rfl
  · rw [hbookId]
    rw [horders, Dict.get?_set_iff] at ho'
    rcases ho' with ⟨rfl, rfl⟩ | ⟨-, hold⟩
    · exact h.named _ known hbooked.held hkind
    · exact h.named coid order' hold hkind

end Orderly

/-- A fill of a FLATTEN order takes its position towards zero, and not through it. -/
theorem Headroom.not_through {o : OMS} {known : Order} {fill : Fill} (h : o.Headroom)
    (hk : o.orders.get? fill.clientOrderId = some known) (hro : known.intent.reduceOnly = true)
    (hfits : Fits o known fill) :
    0 ≤ o.book.quantity known.intent.instrument.key known.intent.product *
      (o.book.quantity known.intent.instrument.key known.intent.product +
        known.intent.side.sign * fill.quantity) := by
  have hq := fill.quantity_pos
  have hwithin := hfits.within
  obtain ⟨hfaces, hroom⟩ := h.reduces hk hro (by omega) hfits.room
  have hown := commits_le_committed h.filled hk known.intent.instrument.key known.intent.product
  generalize o.book.quantity known.intent.instrument.key known.intent.product = q at *
  rw [abs_eq_max_neg] at hroom
  cases hside : known.intent.side with
  | buy =>
    rw [hside, Side.sign_buy] at hfaces
    rw [Side.sign_buy]
    exact mul_nonneg_of_nonpos_of_nonpos (by omega) (by omega)
  | sell =>
    rw [hside, Side.sign_sell] at hfaces
    rw [Side.sign_sell]
    exact mul_nonneg (by omega) (by omega)

end OMS

namespace FlattenDesk

@[simp] theorem attempts_spend (w : FlattenDesk) (a : Attempt) (key : String) :
    (w.spend a).attempts key = if key = a.key then a.number else w.attempts key := by
  show ((w.state.attempts.set a.key a.number).get? key).getD 0 = _
  rw [Dict.get?_set]
  split <;> rfl

/-- The counters are in the store, no spent attempt has a number above its counter, and none
was spent twice. -/
structure Counts (w : FlattenDesk) : Prop where
  loaded : w.state = w.saved.getD ⟨.empty, []⟩
  counted : ∀ a ∈ w.spent, a.number ≤ w.attempts a.key
  slots : (w.spent.map Attempt.slot).Nodup

end FlattenDesk

namespace Flattener

variable (f : Flattener)

/-- The condition on a step: a fill can be taken in. -/
def Move.Clean : Move → FlattenDesk → Prop
  | .filled fill, w => w.oms.Fillable fill
  | _, _ => True

theorem Move.Silent.clean {move : Move} (h : move.Silent) (w : FlattenDesk) : move.Clean w := by
  cases move with
  | filled => exact h.elim
  | _ => trivial

/-- A step that meets the condition, or a crash in such a step or beside it: of what the step
writes to the journal a part is left. -/
inductive Next (startingCash : ℚ) : FlattenDesk → FlattenDesk → Prop
  | went {w w' : FlattenDesk} {move : Move} (step : f.Step move w w') (clean : move.Clean w) :
      Next startingCash w w'
  | crashed {w w' w'' : FlattenDesk} {journal : List Write}
      (went : w' = w ∨ ∃ move, f.Step move w w' ∧ move.Clean w)
      (written : w.oms.sink <+: journal) (lost : journal <+: w'.oms.sink)
      (restarts : f.Restarts startingCash journal w' w'') : Next startingCash w w''

def Run (startingCash : ℚ) : FlattenDesk → FlattenDesk → Prop :=
  Relation.ReflTransGen (f.Next startingCash)

/-- Only FLATTEN orders of the same position stand under the tag of an attempt, and they were
sent under its id. -/
def Unshared (w : FlattenDesk) (a : Attempt) : Prop :=
  ∀ id, a.intentId w.oms.bookId = .ok id → ∀ order,
    w.oms.orders.get? (f.manager.config.clientOrderId id) = some order →
      order.intent.intentId = id ∧ order.intent.kind = .flatten ∧
        order.intent.instrument.key = a.instrumentKey ∧ order.intent.product = a.product

/-- What holds in every state of a run. -/
structure Kept (startingCash : ℚ) (w : FlattenDesk) : Prop where
  counts : w.Counts
  orderly : w.oms.Orderly w.spent
  twins : ∃ r, OMS.Replays (.init (.init f.manager.env.bookId startingCash)) (events w.oms.sink) r ∧
    w.oms.Twins r

section kept

variable {f} {startingCash : ℚ} {w w' w'' : FlattenDesk} {move : Move}

/-- A fill that was seen leaves the OMS alone. -/
theorem oms_of_seen {fill : Fill} (b : SimulatedBroker) (h : fill.fillId ∈ w.oms.book.seen) :
    ({ w with paper := { broker := b, desk :=
      (Desk.onFill f.manager.system.listener fill w.paper.desk).state } } : FlattenDesk).oms =
      w.oms :=
  congrArg Desk.oms (Desk.onFill_seen f.manager.system.listener h)

/-- A step spends the next number of a counter, or none. -/
theorem Step.counts (h : f.Step move w w') (hcounts : w.Counts) : w'.Counts := by
  cases h with
  | worked _ => exact ⟨hcounts.loaded, hcounts.counted, hcounts.slots⟩
  | filled _ _ => exact ⟨hcounts.loaded, hcounts.counted, hcounts.slots⟩
  | managed _ => exact ⟨hcounts.loaded, hcounts.counted, hcounts.slots⟩
  | sent _ _ _ _ => exact ⟨hcounts.loaded, hcounts.counted, hcounts.slots⟩
  | escalated _ => exact ⟨rfl, hcounts.counted, hcounts.slots⟩
  | @counted w a next =>
    refine ⟨rfl, fun a' ha' => ?_, List.nodup_cons.mpr ⟨fun hslot => ?_, hcounts.slots⟩⟩
    · rw [FlattenDesk.attempts_spend]
      rcases List.mem_cons.mp ha' with rfl | hold
      · rw [if_pos rfl]
      · have hle := hcounts.counted a' hold
        split
        · rename_i hkey
          rw [hkey] at hle
          omega
        · exact hle
    · -- the number of an attempt of this slot would be above its counter
      obtain ⟨a', hold, hsame⟩ := List.mem_map.mp hslot
      have hle := hcounts.counted a' hold
      obtain ⟨hkey, hnumber⟩ := Attempt.same_of_slot hsame
      rw [hkey, hnumber] at hle
      omega

theorem Step.spent (h : f.Step move w w') : w.spent ⊆ w'.spent := by
  cases h with
  | counted _ => exact List.subset_cons_self _ _
  | _ => exact List.Subset.refl _

/-- What a step writes, and that a log that ends in it restores. -/
theorem Step.cut {r : OMS} (h : f.Step move w w') (clean : move.Clean w) (htwins : w.oms.Twins r) :
    ∃ ps, events w'.oms.sink = events w.oms.sink ++ ps ∧
      ∀ ps', ps' <+: ps → OMS.Twins.Cut w.oms w'.oms r ps ps' := by
  have hstill : w'.oms = w.oms → ∃ ps, events w'.oms.sink = events w.oms.sink ++ ps ∧
      ∀ ps', ps' <+: ps → OMS.Twins.Cut w.oms w'.oms r ps ps' := by
    intro hsame
    refine ⟨[], by rw [hsame, List.append_nil], fun ps' hps' => ?_⟩
    rw [hsame, List.prefix_nil.mp hps']
    exact htwins.cut_asides htwins (List.forall_mem_nil _)
  have hworked : ∀ {Allowed : Order → Prop}, OMS.Work Allowed w.oms w'.oms →
      ∃ ps, events w'.oms.sink = events w.oms.sink ++ ps ∧
        ∀ ps', ps' <+: ps → OMS.Twins.Cut w.oms w'.oms r ps ps' := by
    intro Allowed hwork
    obtain ⟨ps, hps⟩ := hwork.logged
    exact ⟨ps, hps, fun ps' => htwins.cut hwork hps⟩
  cases h with
  | worked h => exact hworked (h.work htwins.keyed)
  | filled fill b =>
    by_cases hseen : fill.fillId ∈ w.oms.book.seen
    · exact hstill (oms_of_seen b hseen)
    rcases clean with hnew | ⟨known, held, ours, -, -⟩
    · exact absurd hnew hseen
    have hbooked := OMS.booked_onFill f.manager.system.listener htwins.keyed held ours hseen
    obtain ⟨es, es', -, -, hlogged⟩ := hbooked.logged
    exact ⟨_, hlogged, fun ps' => htwins.cut_booked hbooked hlogged⟩
  | managed _ => exact hstill rfl
  | counted _ => exact hstill rfl
  | sent _ _ _ h => exact hworked (h.work htwins.keyed)
  | escalated _ => exact hstill rfl

theorem Step.orderly (h : f.Step move w w') (clean : move.Clean w) (hk : w.oms.Keyed)
    (horderly : w.oms.Orderly w.spent) : w'.oms.Orderly w'.spent := by
  cases h with
  | worked h => exact horderly.work (h.work hk) fun order hother hkind => absurd hkind hother
  | filled fill b =>
    by_cases hseen : fill.fillId ∈ w.oms.book.seen
    · rw [oms_of_seen b hseen]
      exact horderly
    rcases clean with hnew | ⟨known, held, ours, hfits, hrevives⟩
    · exact absurd hnew hseen
    exact horderly.booked (OMS.booked_onFill f.manager.system.listener hk held ours hseen) hfits
      hrevives
  | managed _ => exact horderly
  | counted _ => exact horderly.mono (List.subset_cons_self _ _)
  | @sent w p a intent newest names clear h =>
    refine horderly.work (h.work hk) fun order hof _ hfresh => ?_
    obtain ⟨rfl, hid⟩ := hof
    refine ⟨⟨a, List.mem_of_mem_head? newest, names⟩, ?_⟩
    rcases clear with ⟨existing, hexisting⟩ | hidle
    · rw [hid, hexisting] at hfresh
      cases hfresh
    · exact hidle
  | escalated _ => exact horderly

/-- A step, or none, and a log that ends in what it writes. -/
theorem Kept.cut (h : f.Kept startingCash w)
    (went : w' = w ∨ ∃ move, f.Step move w w' ∧ move.Clean w) :
    w'.Counts ∧ w'.oms.Orderly w'.spent ∧ w.spent ⊆ w'.spent ∧
      ∃ r ps, OMS.Replays (.init (.init f.manager.env.bookId startingCash)) (events w.oms.sink) r ∧
        events w'.oms.sink = events w.oms.sink ++ ps ∧
        ∀ ps', ps' <+: ps → OMS.Twins.Cut w.oms w'.oms r ps ps' := by
  obtain ⟨r, hreplays, htwins⟩ := h.twins
  rcases went with rfl | ⟨move, hstep, hclean⟩
  · refine ⟨h.counts, h.orderly, List.Subset.refl _, r, [], hreplays, by rw [List.append_nil], ?_⟩
    intro ps' hps'
    rw [List.prefix_nil.mp hps']
    exact htwins.cut_asides htwins (List.forall_mem_nil _)
  · obtain ⟨ps, hlogged, hcut⟩ := hstep.cut hclean htwins
    exact ⟨hstep.counts h.counts, hstep.orderly hclean htwins.keyed h.orderly, hstep.spent, r, ps,
      hreplays, hlogged, hcut⟩

/-- What is restored from a part of what a step writes is the OMS before it or after it. -/
theorem Kept.restart {journal : List Write} (h : f.Kept startingCash w)
    (went : w' = w ∨ ∃ move, f.Step move w w' ∧ move.Clean w) (written : w.oms.sink <+: journal)
    (lost : journal <+: w'.oms.sink) (restarts : f.Restarts startingCash journal w' w'') :
    f.Kept startingCash w'' := by
  obtain ⟨hcounts, horderly, hspent, r, ps, hreplays, hlogged, hcut⟩ := h.cut went
  obtain ⟨fresh, rfl⟩ := written
  obtain ⟨gone, hgone⟩ := lost
  have hevents : ps = events fresh ++ events gone := by
    rw [← hgone, events_append, events_append, List.append_assoc] at hlogged
    exact (List.append_cancel_left hlogged).symm
  obtain ⟨r', hrest, hside, -⟩ := hcut (events fresh) ⟨_, hevents.symm⟩
  have hreplayed := hreplays.append hrest
  rw [← events_append] at hreplayed
  -- the restart reads the same log
  obtain ⟨applied, o, hrestore, homs⟩ := restarts.restored
  obtain ⟨n, hrun⟩ := hreplayed.run 0
  have hsame : OMS.restore (events (w.oms.sink ++ fresh))
      (.init (.init f.manager.env.bookId startingCash)) = .ok n r' := hrun
  rw [hsame] at hrestore
  cases hrestore
  have hrestored : r'.Orderly w''.spent := by
    rw [restarts.spent]
    rcases hside with htwin | htwin
    · exact (h.orderly.mono hspent).twin htwin
    · exact horderly.twin htwin
  refine ⟨⟨?_, ?_, ?_⟩, ?_, ?_⟩
  · rw [restarts.state, restarts.saved]
  · have hattempts : w''.attempts = w'.attempts := by
      funext key
      rw [FlattenDesk.attempts, FlattenDesk.attempts, restarts.state, hcounts.loaded]
    rw [restarts.spent, hattempts]
    exact hcounts.counted
  · rw [restarts.spent]
    exact hcounts.slots
  · rw [homs]
    exact hrestored.same rfl rfl
  · rw [homs]
    refine ⟨r', hreplayed, ?_⟩
    rcases hside with htwin | htwin <;> exact htwin.again rfl rfl

theorem Kept.init : f.Kept startingCash (f.init startingCash) where
  counts := ⟨rfl, fun _ ha => (List.not_mem_nil ha).elim, List.nodup_nil⟩
  orderly := .init _
  twins := ⟨_, .nil _, .init _⟩

/-- One step of a run. -/
theorem Kept.next (h : f.Kept startingCash w) (hnext : f.Next startingCash w w') :
    f.Kept startingCash w' := by
  cases hnext with
  | @went _ move hstep hclean =>
    obtain ⟨hcounts, horderly, -, r, ps, hreplays, hlogged, hcut⟩ := h.cut (.inr ⟨move, hstep, hclean⟩)
    refine ⟨hcounts, horderly, ?_⟩
    obtain ⟨r', hrest, -, hall⟩ := hcut ps List.prefix_rfl
    rw [hlogged]
    exact ⟨r', hreplays.append hrest, hall rfl⟩
  | crashed went written lost restarts => exact h.restart went written lost restarts

/-- **The run lemma.** -/
theorem Kept.run (h : f.Kept startingCash w) (hrun : f.Run startingCash w w') :
    f.Kept startingCash w' := by
  induction hrun with
  | refl => exact h
  | tail _ hnext ih => exact ih.next hnext

theorem Goes.next (h : f.Goes w w') : f.Next startingCash w w' := by
  obtain ⟨move, hstep, hsilent⟩ := h
  exact .went hstep (hsilent.clean w)

/-- The number of the next attempt at a position was not spent on it. -/
theorem Kept.unspent (h : f.Kept startingCash w) (today : Day) (p : Position) (owner : String) :
    (nextAttempt today p owner w).slot ∉ w.spent.map Attempt.slot := by
  intro hslot
  obtain ⟨a, ha, hsame⟩ := List.mem_map.mp hslot
  obtain ⟨hkey, hnumber⟩ := Attempt.same_of_slot hsame
  have hle := h.counts.counted a ha
  have hnext : (nextAttempt today p owner w).number =
      w.attempts (nextAttempt today p owner w).key + 1 := rfl
  rw [hkey, hnumber] at hle
  omega

/-- Under the tag of the next attempt nothing stands that would swallow it. -/
theorem Kept.not_duplicate (h : f.Kept startingCash w) {today : Day} {p : Position}
    {owner : String} {result : SubmitResult}
    (hanswers : f.Answers w (nextAttempt today p owner w) result)
    (hunshared : f.Unshared w (nextAttempt today p owner w)) : result.status ≠ .duplicate := by
  intro hduplicate
  obtain ⟨o, intent, hrests, hnames, hexists⟩ := hanswers
  obtain ⟨existing, hexisting⟩ := hexists hduplicate
  obtain ⟨order, horder, hextent, -⟩ := hrests.before _ _ hexisting
  rw [OMS.bookId, hrests.book] at hnames
  obtain ⟨hid, hkind, hkey, hproduct⟩ := hunshared _ hnames.id order horder
  obtain ⟨a, ha, hnamed⟩ := h.orderly.named _ order horder hkind
  -- the order that stands there is the one of a spent attempt with the same number
  obtain ⟨hsame, hnumber⟩ := Attempt.same_of_id (hid ▸ hnamed.id) hnames.id
    (hnamed.key.symm.trans hkey) (hnamed.product.symm.trans hproduct)
  have hle := h.counts.counted a ha
  have hnext : (nextAttempt today p owner w).number =
      w.attempts (nextAttempt today p owner w).key + 1 := rfl
  rw [hsame, hnumber] at hle
  omega

/-- A fill of a FLATTEN order leaves its position on its side of zero. -/
theorem Kept.not_through (h : f.Kept startingCash w) {fill : Fill} {known : Order}
    (hfillable : w.oms.Fillable fill) (held : w.oms.orders.get? fill.clientOrderId = some known)
    (hkind : known.intent.kind = .flatten) :
    0 ≤ w.oms.book.quantity known.intent.instrument.key known.intent.product *
      (Desk.onFill f.manager.system.listener fill w.paper.desk).state.oms.book.quantity
        known.intent.instrument.key known.intent.product := by
  obtain ⟨r, -, htwins⟩ := h.twins
  by_cases hseen : fill.fillId ∈ w.oms.book.seen
  · rw [Desk.onFill_seen f.manager.system.listener hseen]
    exact mul_self_nonneg _
  rcases hfillable with hnew | ⟨order, horder, ours, hfits, -⟩
  · exact absurd hnew hseen
  rw [held] at horder
  cases horder
  have hbooked := OMS.booked_onFill f.manager.system.listener htwins.keyed held ours hseen
  have hro : known.intent.reduceOnly = true := by
    rw [known.intent.reduceOnly_eq, hkind]
    rfl
  rw [OMS.Headroom.quantity_after hbooked.book hfits, if_pos ⟨rfl, rfl⟩]
  exact h.orderly.headroom.not_through held hro hfits

theorem Kept.keyed (h : f.Kept startingCash w) : w.oms.Keyed := by
  obtain ⟨r, -, htwins⟩ := h.twins
  exact htwins.keyed

/-- What a computation of steps does is a run. -/
theorem Run.moves {α : Type} (h : f.Run startingCash (f.init startingCash) w)
    {m : EStateM Exc FlattenDesk α} {Q : α → FlattenDesk → Prop} {E : Exc → FlattenDesk → Prop}
    (hm : Effect.Moves f.Goes (Eq w) m Q E) :
    f.Run startingCash (f.init startingCash) (m w).state := by
  have hgoes := (hm w rfl).1
  exact h.trans (hgoes.lift id fun _ _ hgo => hgo.next)

/-- A step of the flattener, whether it returns or raises. -/
theorem Run.step (h : f.Run startingCash (f.init startingCash) w) (call : ExitCall)
    (marks : Dict String ℚ) (strategy : Option String) :
    f.Run startingCash (f.init startingCash) (f.step call marks strategy w).state :=
  h.moves ((moves_step call marks strategy).conseq (fun _ heq => heq ▸ (Kept.init.run h).keyed)
    (fun _ _ hend => hend) fun _ _ hend => hend)

/-- Everyone else submits in a run, too. -/
theorem Run.submit (h : f.Run startingCash (f.init startingCash) w) (call : ExitCall)
    {intent : OrderIntent} (hother : intent.kind ≠ .flatten) :
    f.Run startingCash (f.init startingCash)
      { w with paper := (f.manager.submit call intent w.paper).state } := by
  have hpasses : System.Passes f.manager.system.config Other call.gate intent :=
    fun _ _ _ _ _ _ _ => hother
  have hmoves := (System.quiet_submit f.manager.system Other call.now call.brokerNow intent none
    hpasses call.delivery (w := w.paper) (Kept.init.run h).keyed w.paper rfl).1
  exact h.trans (hmoves.lift (fun p => { w with paper := p }) fun _ _ hquiet =>
    .went (.worked hquiet) trivial)

end kept

/-- **One order at a time, and no attempt twice.** At every point of a run at most one FLATTEN
order of a position is live; the attempts spent on a position on a day have different numbers,
and every FLATTEN order is the order of one of them; an attempt the flattener answers for is a
new one, and is not swallowed as a duplicate where its tag is not shared; and a fill of a FLATTEN
order does not take the position through zero. -/
theorem flattens_one_at_a_time (startingCash : ℚ) {w : FlattenDesk}
    (run : f.Run startingCash (f.init startingCash) w) :
    (∀ instrumentKey product coid coid' order order', w.oms.orders.get? coid = some order →
      w.oms.orders.get? coid' = some order' → order.Flattens instrumentKey product →
      order'.Flattens instrumentKey product → coid = coid') ∧
    (w.spent.map Attempt.slot).Nodup ∧
    (∀ coid order, w.oms.orders.get? coid = some order → order.intent.kind = .flatten →
      ∃ a ∈ w.spent, a.Names w.oms.bookId order.intent) ∧
    (∀ call today marks p owner result w',
      f.flattenOne call today marks p owner w = .ok (some result) w' →
      w'.spent = nextAttempt today p owner w :: w.spent ∧
        (nextAttempt today p owner w).slot ∉ w.spent.map Attempt.slot ∧
        (f.Unshared w (nextAttempt today p owner w) → result.status ≠ .duplicate)) ∧
    ∀ fill known, w.oms.Fillable fill → w.oms.orders.get? fill.clientOrderId = some known →
      known.intent.kind = .flatten →
      0 ≤ w.oms.book.quantity known.intent.instrument.key known.intent.product *
        (Desk.onFill f.manager.system.listener fill w.paper.desk).state.oms.book.quantity
          known.intent.instrument.key known.intent.product := by
  have hkept : f.Kept startingCash w := Kept.init.run run
  refine ⟨hkept.orderly.sole, hkept.counts.slots, hkept.orderly.named, ?_, fun fill known =>
    hkept.not_through⟩
  intro call today marks p owner result w' hrun
  have hend := (moves_flattenOne (f := f) call today marks p owner hkept.keyed w rfl).2
  rw [hrun] at hend
  obtain ⟨hanswers, hspent⟩ := hend result rfl
  exact ⟨hspent, hkept.unspent today p owner, hkept.not_duplicate hanswers⟩

end Flattener

/-! ## One instrument held in two products -/

namespace TwoProducts

open Flattener (Run)

def flattener : Flattener :=
  ⟨OldStop.manager, true, Sample.instruments, RiskLimits.default, Sample.instruments_keyed⟩

theorem no_charges : (0 : ℚ) ≤ 0 := le_rfl

/-- Ten shares to be sold again the same day. -/
def intraday : OrderIntent := { Sample.entry with intentId := "I2", product := .mis }

def enter (intent : OrderIntent) (w : FlattenDesk) : FlattenDesk :=
  { w with paper := (flattener.manager.submit (OldStop.call 1) intent w.paper).state }

/-- A first quote, which fills nothing. -/
def quoted : FlattenDesk :=
  { flattener.init 100000 with
    paper := (flattener.init 100000).paper.mapBroker
      (.observe (Sample.quote 0 0 Sample.zero_nonneg) 20728) }

def entered : FlattenDesk := enter intraday (enter Sample.entry quoted)

/-- The broker trades both orders in full. -/
def traded : SimulatedBroker :=
  (flattener.manager.system.run entered.paper
    [.quote (Sample.quote 2 20 Sample.twenty_nonneg)]).broker

def purchase (boid coid : String) : Fill :=
  { fillId := fillIdOf boid 1, clientOrderId := coid, brokerOrderId := some boid
    bookId := "main", decisionId := "D1", instrumentKey := Sample.infy.key, side := .buy
    quantity := 10, price := 100, ts := Sample.clock 2, charges := 0, chargesBreakdown := []
    quantity_pos := Sample.ten_pos, price_pos := Sample.hundred_pos, charges_nonneg := no_charges }

def tell (fill : Fill) (w : FlattenDesk) : FlattenDesk :=
  { w with
    paper :=
      { broker := traded
        desk := (Desk.onFill flattener.manager.system.listener fill w.paper.desk).state } }

def delivered : FlattenDesk := tell (purchase "SIM-main-000001" "I1") entered

/-- Ten shares are held for delivery and ten for the day, by one strategy. -/
def held : FlattenDesk := tell (purchase "SIM-main-000002" "I2") delivered

def position (product : Product) (w : FlattenDesk) : Position :=
  PositionBook.positionOf w.oms.bookId (Sample.infy.key, product)
    (w.oms.book.bookAt (Sample.infy.key, product)) (Sample.clock 3)

def flatten (product : Product) (w : FlattenDesk) :
    EStateM.Result Exc FlattenDesk (Option SubmitResult) :=
  flattener.flattenOne (OldStop.call 3) 20728 .empty (position product w)
    (owner w.oms.book (position product w)) w

/-- How an attempt was answered. -/
def answered : EStateM.Result Exc FlattenDesk (Option SubmitResult) → Option SubmitStatus
  | .ok answer _ => answer.map SubmitResult.status
  | .error _ _ => none

theorem of_answered {r : EStateM.Result Exc FlattenDesk (Option SubmitResult)}
    {status : SubmitStatus} (h : answered r = some status) :
    ∃ result w', r = .ok (some result) w' ∧ result.status = status := by
  cases r with
  | error e w' => cases h
  | ok answer w' =>
    obtain ⟨result, rfl, hstatus⟩ := Option.map_eq_some_iff.mp h
    exact ⟨result, w', rfl, hstatus⟩

/-- The delivery shares are on their way out. -/
def leaving : FlattenDesk := (flatten .cnc held).state

/-- A fill of an order that buys into nothing. -/
theorem purchase_fillable (product : Product) {o : OMS} {boid coid : String}
    (hbook : o.bookId = "main") (hquantity : o.book.quantity Sample.infy.key product = 0)
    (horder : (o.orders.get? coid).map (fun order => (order.intent.instrument.key,
      order.intent.product, order.intent.side, order.intent.kind, order.remainingQty,
      order.status.isTerminal)) =
        some (Sample.infy.key, product, .buy, .open, 10, false)) :
    o.Fillable (purchase boid coid) := by
  obtain ⟨known, hknown, hfacts⟩ := Option.map_eq_some_iff.mp horder
  simp only [Prod.mk.injEq] at hfacts
  obtain ⟨hkey, hproduct, hside, hkind, hremaining, hlive⟩ := hfacts
  refine .inr ⟨known, hknown, hbook.symm, ⟨hkey.symm, hside.symm, hremaining.ge, ?_, fun _ => ?_⟩, ?_⟩
  · intro hended
    rw [hlive] at hended
    cases hended
  · left
    rw [hkey, hproduct, hquantity, zero_mul]
  · intro hflatten
    rw [hkind] at hflatten
    cases hflatten

theorem entered_run : flattener.Run 100000 (flattener.init 100000) entered := by
  have hquoted : flattener.Run 100000 (flattener.init 100000) quoted :=
    .single (.went (.worked (.broker (.observed _ _))) trivial)
  have hentry : Sample.entry.kind ≠ .flatten := by decide
  have hintraday : intraday.kind ≠ .flatten := by decide
  exact (hquoted.submit _ hentry).submit _ hintraday

theorem held_run : flattener.Run 100000 (flattener.init 100000) held := by
  have hfirst : entered.oms.Fillable (purchase "SIM-main-000001" "I1") :=
    purchase_fillable .cnc (by decide +kernel) (by decide +kernel) (by decide +kernel)
  have hsecond : delivered.oms.Fillable (purchase "SIM-main-000002" "I2") :=
    purchase_fillable .mis (by decide +kernel) (by decide +kernel) (by decide +kernel)
  exact (entered_run.tail (.went (.filled _ traded) hfirst)).tail (.went (.filled _ traded) hsecond)

theorem leaving_run : flattener.Run 100000 (flattener.init 100000) leaving := by
  have hmoves := Flattener.moves_flattenOne (f := flattener) (OldStop.call 3) 20728 .empty
    (position .cnc held) (owner held.oms.book (position .cnc held))
    (Flattener.Kept.init.run held_run).keyed
  have hrun := held_run.moves hmoves
  exact hrun

end TwoProducts

namespace Flattener

/-- The tag of the first attempt at the delivery shares is free. -/
theorem flattens_one_at_a_time_delivery :
    ∃ result w', TwoProducts.flatten .cnc TwoProducts.held = .ok (some result) w' ∧
      w'.spent.length = 1 ∧ result.status ≠ .duplicate := by
  have hanswered : TwoProducts.answered (TwoProducts.flatten .cnc TwoProducts.held) =
      some .submitted := by decide +kernel
  obtain ⟨result, w', hrun, -⟩ := TwoProducts.of_answered hanswered
  obtain ⟨-, -, -, hattempts, -⟩ :=
    flattens_one_at_a_time TwoProducts.flattener 100000 TwoProducts.held_run
  obtain ⟨hspent, -, hpasses⟩ := hattempts _ _ _ _ _ _ _ hrun
  refine ⟨result, w', hrun, ?_, hpasses fun id hid order horder => ?_⟩
  · rw [hspent]
    rfl
  · -- no order stands under that tag
    have hfree : ((nextAttempt 20728 (TwoProducts.position .cnc TwoProducts.held) "momentum"
        TwoProducts.held).intentId TwoProducts.held.oms.bookId).toOption.map (fun id =>
          (TwoProducts.held.oms.orders.get? id).isNone) = some true := by
      decide +kernel
    have howner : owner TwoProducts.held.oms.book (TwoProducts.position .cnc TwoProducts.held) =
        "momentum" := by decide +kernel
    rw [howner] at hid
    rw [hid] at hfree
    have hnone : (TwoProducts.held.oms.orders.get? id).isNone = true := Option.some.inj hfree
    have hold : TwoProducts.held.oms.orders.get? id = some order := horder
    rw [hold] at hnone
    cases hnone

/-- The shares of the day are swallowed: the intent of the first attempt at them has the id of
the first attempt at the delivery shares. -/
theorem flatten_swallowed :
    ¬ ∀ (f : Flattener) (startingCash : ℚ) (w : FlattenDesk),
      f.Run startingCash (f.init startingCash) w → ∀ (call : ExitCall) (marks : Dict String ℚ),
      ∀ p ∈ w.oms.book.positions call.now, ∀ result w',
        f.flattenOne call call.now.istDate marks p (owner w.oms.book p) w = .ok (some result) w' →
        result.status ≠ .duplicate := by
  intro h
  have hanswered : TwoProducts.answered (TwoProducts.flatten .mis TwoProducts.leaving) =
      some .duplicate := by decide +kernel
  have hposition : TwoProducts.position .mis TwoProducts.leaving ∈
      TwoProducts.leaving.oms.book.positions (OldStop.call 3).now := by decide +kernel
  obtain ⟨result, w', hrun, hduplicate⟩ := TwoProducts.of_answered hanswered
  exact h TwoProducts.flattener 100000 TwoProducts.leaving TwoProducts.leaving_run
    (OldStop.call 3) .empty _ hposition result w' hrun hduplicate

end Flattener

end RakshaQuant
