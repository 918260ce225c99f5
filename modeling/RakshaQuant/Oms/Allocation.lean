import RakshaQuant.Oms.Reported

/-! What becomes of the charges of the fills. Every rupee of them is on a closed piece or still
on an open lot: each piece takes its share from the lot and from the fill, and the last piece
takes the rest. The shares are rounded one by one, so a fill that goes past many small lots can
hand out more than its charges, and the last piece is given a negative rest. -/

namespace RakshaQuant

/-! ## Nothing is lost -/

/-- The closing loop moves charges from the lots and the fill to the pieces. -/
theorem closeLots_charges (fill : Fill) (product : Product) (exitReason : String) (direction : ℤ)
    (lots : List Lot) (remaining : ℤ) (exitCharges : ℚ) (n : ℕ) (h0 : 0 ≤ remaining) :
    let c := closeLots fill product exitReason direction lots remaining exitCharges n
    (c.closed.map ClosedPiece.charges).sum + (c.lots.map Lot.charges).sum + c.exitCharges =
      (lots.map Lot.charges).sum + exitCharges := by
  induction lots generalizing remaining exitCharges n with
  | nil => simp [closeLots]
  | cons lot rest ih =>
    rcases h0.eq_or_lt with h0 | h0
    · simp [← h0, closeLots_zero]
    · rcases lt_or_ge remaining lot.quantity with h | h
      · rw [closeLots_part _ _ _ _ _ _ h0 h]
        simp only [List.map_cons, List.map_nil, List.sum_cons, List.sum_nil, ClosedPiece.of,
          Lot.left]
        ring
      · have hrest := ih (remaining - lot.quantity)
          (exitCharges - fill.exitAlloc remaining exitCharges lot.quantity) (n + 1) (by omega)
        rw [closeLots_whole _ _ _ _ _ _ h0 h]
        simp only [List.map_cons, List.sum_cons, ClosedPiece.of] at hrest ⊢
        linarith

namespace Book

/-- The entry charges of the open lots not allocated yet. -/
def unallocated (b : Book) : ℚ := (b.lots.map Lot.charges).sum

@[simp] theorem unallocated_empty : Book.empty.unallocated = 0 := rfl

/-- A fill's charges go to the pieces it closes and to the lots left. -/
theorem unallocated_applyFill (b : Book) (fill : Fill) (product : Product)
    (strategy exitReason : String) :
    ((b.closing fill product exitReason).closed.map ClosedPiece.charges).sum +
      (b.applyFill fill product strategy exitReason).unallocated =
      b.unallocated + fill.charges := by
  by_cases ha : b.adds fill
  · rw [closing_of_adds b fill product exitReason ha, applyFill, dif_pos ha]
    simp [unallocated, push, Lot.ofFill]
  · obtain ⟨-, hlots⟩ := direction_of_not_adds ha
    have hc : b.closing fill product exitReason =
        closeLots fill product exitReason b.direction b.lots fill.quantity fill.charges 0 := by
      rw [closing, if_neg ha]
    have hsum := closeLots_charges fill product exitReason b.direction b.lots fill.quantity
      fill.charges 0 fill.quantity_pos.le
    have hrem := closeLots_remaining fill product exitReason b.direction b.lots fill.quantity
      fill.charges 0 fill.quantity_pos
    have hne := closeLots_closed_ne_nil fill product exitReason b.direction b.lots fill.quantity
      fill.charges 0 hlots fill.quantity_pos
    simp only [← hc] at hsum hrem hne
    rw [applyFill, dif_neg ha]
    by_cases hr : 0 < (b.closing fill product exitReason).remaining
    · -- a flip: the new lot carries what is left of the charges
      simp only [dif_pos hr, unallocated, push, if_neg hne, List.map_append, List.map_cons,
        List.map_nil, List.sum_append, List.sum_cons, List.sum_nil, Lot.ofFill]
      linarith
    · have hx := hrem.2 (by omega)
      simp only [dif_neg hr, unallocated]
      linarith

end Book

/-! ## When no part is negative -/

/-- The part of the fill's charges that goes with `quantity` of its shares, rounded. -/
def Fill.share (fill : Fill) (quantity : ℤ) : ℚ :=
  Decimal.quantize allocQuantum (fill.charges * quantity / fill.quantity)

/-- The lots that `remaining` shares go past: each is used up with shares to spare. -/
def passedLots : List Lot → ℤ → List Lot
  | [], _ => []
  | lot :: rest, remaining =>
    if lot.quantity < remaining then lot :: passedLots rest (remaining - lot.quantity) else []

/-- A fill that ends in the first of the lots with `take` shares and `spare` of its charges, or
opens a lot with them, leaves no negative part. -/
def Bears : List Lot → ℤ → ℚ → Prop
  | [], _, spare => 0 ≤ spare
  | lot :: _, take, spare =>
    0 ≤ lot.entryAlloc take + spare ∧ lot.entryAlloc take ≤ lot.charges

instance : ∀ (lots : List Lot) (take : ℤ) (spare : ℚ), Decidable (Bears lots take spare)
  | [], _, spare => inferInstanceAs (Decidable (0 ≤ spare))
  | _ :: _, _, _ => inferInstanceAs (Decidable (_ ∧ _))

/-- The charges of the lots and the fill split without a negative part. The fill goes past some
lots and is given its rounded share for each. What these leave of `exitCharges` is enough for
the piece in which it ends, with the entry charges of that piece, or for the lot it opens; where
it ends inside a lot, the rounded part of that lot's charges is not more than they are. -/
def Fill.Affords (fill : Fill) (lots : List Lot) (remaining : ℤ) (exitCharges : ℚ) : Prop :=
  let past := passedLots lots remaining
  Bears (lots.drop past.length) (remaining - (past.map Lot.quantity).sum)
    (exitCharges - (past.map fun lot => fill.share lot.quantity).sum)

instance (fill : Fill) (lots : List Lot) (remaining : ℤ) (exitCharges : ℚ) :
    Decidable (fill.Affords lots remaining exitCharges) :=
  inferInstanceAs (Decidable (Bears _ _ _))

section affords

variable (fill : Fill) {lot : Lot} {rest : List Lot} {remaining : ℤ} {exitCharges : ℚ}

theorem Fill.share_nonneg {quantity : ℤ} (h : 0 ≤ quantity) : 0 ≤ fill.share quantity := by
  have hq : (0 : ℚ) < fill.quantity := by exact_mod_cast fill.quantity_pos
  have hn : (0 : ℚ) ≤ quantity := by exact_mod_cast h
  refine Decimal.quantize_nonneg (by decide +kernel) ?_
  exact div_nonneg (mul_nonneg fill.charges_nonneg hn) hq.le

theorem Fill.affords_nil : fill.Affords [] remaining exitCharges ↔ 0 ≤ exitCharges := by
  simp [Fill.Affords, passedLots, Bears]

/-- The fill ends in the oldest lot. -/
theorem Fill.affords_within (h : remaining ≤ lot.quantity) :
    fill.Affords (lot :: rest) remaining exitCharges ↔
      0 ≤ lot.entryAlloc remaining + exitCharges ∧ lot.entryAlloc remaining ≤ lot.charges := by
  simp [Fill.Affords, passedLots, Bears, not_lt.mpr h]

/-- The fill goes past the oldest lot and leaves it its share. -/
theorem Fill.affords_past (h : lot.quantity < remaining) :
    fill.Affords (lot :: rest) remaining exitCharges ↔
      fill.Affords rest (remaining - lot.quantity) (exitCharges - fill.share lot.quantity) := by
  simp only [Fill.Affords, passedLots, if_pos h, List.map_cons, List.sum_cons, List.length_cons,
    List.drop_succ_cons, sub_add_eq_sub_sub]

/-- The loop leaves no negative part exactly when the charges split without one. -/
theorem closeLots_affords (product : Product) (exitReason : String) (direction : ℤ)
    (lots : List Lot) (remaining : ℤ) (exitCharges : ℚ) (n : ℕ) (h0 : 0 < remaining)
    (hlots : ∀ lot ∈ lots, 0 ≤ lot.charges) :
    let c := closeLots fill product exitReason direction lots remaining exitCharges n
    ((∀ p ∈ c.closed, 0 ≤ p.charges) ∧ (∀ lot ∈ c.lots, 0 ≤ lot.charges) ∧
      (0 < c.remaining → 0 ≤ c.exitCharges)) ↔ fill.Affords lots remaining exitCharges := by
  induction lots generalizing remaining exitCharges n with
  | nil => simp [closeLots, fill.affords_nil, h0]
  | cons lot rest ih =>
    have hrest : ∀ l ∈ rest, 0 ≤ l.charges := fun l hl => hlots l (List.mem_cons_of_mem _ hl)
    rcases lt_trichotomy remaining lot.quantity with h | h | h
    · rw [closeLots_part _ _ _ _ _ _ h0 h, fill.affords_within h.le]
      simp only [List.mem_singleton, forall_eq, List.forall_mem_cons, ClosedPiece.of, Lot.left,
        lt_irrefl, false_implies, and_true, sub_nonneg]
      exact and_congr_right fun _ => ⟨And.left, fun hpart => ⟨hpart, hrest⟩⟩
    · have hpart : lot.entryAlloc remaining = lot.charges := by rw [Lot.entryAlloc, if_pos h]
      rw [closeLots_whole _ _ _ _ _ _ h0 h.ge, fill.affords_within h.le, hpart]
      simp only [h, Fill.exitAlloc, if_true, sub_self, closeLots_zero, List.mem_singleton,
        forall_eq, ClosedPiece.of, lt_irrefl, false_implies, and_true, le_refl]
      exact ⟨And.left, fun hsum => ⟨hsum, hrest⟩⟩
    · -- the piece of a lot the fill goes past takes two parts that are not negative
      have hpiece : 0 ≤ lot.charges + fill.share lot.quantity :=
        add_nonneg (hlots lot List.mem_cons_self) (fill.share_nonneg lot.quantity_pos.le)
      have halloc : fill.exitAlloc remaining exitCharges lot.quantity =
          fill.share lot.quantity := by
        rw [Fill.exitAlloc, if_neg h.ne]
        rfl
      have hnext := ih (remaining - lot.quantity) (exitCharges - fill.share lot.quantity)
        (n + 1) (by omega) hrest
      dsimp only at hnext
      rw [closeLots_whole _ _ _ _ _ _ h0 h.le, fill.affords_past h, halloc, ← hnext]
      simp only [List.forall_mem_cons, ClosedPiece.of]
      exact and_congr_left fun _ => ⟨And.right, fun hclosed => ⟨hpiece, hclosed⟩⟩

end affords

namespace Book

/-- No open lot carries negative charges. -/
def Solvent (b : Book) : Prop := ∀ lot ∈ b.lots, 0 ≤ lot.charges

theorem solvent_empty : Book.empty.Solvent := by
  intro lot h
  cases h

variable {b : Book} {fill : Fill}

theorem solvent_push {lots : List Lot} {realized charges : ℚ} {strategy : String} {quantity : ℤ}
    (h : 0 < quantity) : (push lots realized fill strategy quantity charges h).Solvent ↔
      (∀ lot ∈ lots, 0 ≤ lot.charges) ∧ 0 ≤ charges := by
  rw [Solvent, push, List.forall_mem_append]
  simp [Lot.ofFill]

/-- A fill leaves no negative part exactly when it adds or its charges split without one. -/
theorem Solvent.applyFill_iff (h : b.Solvent) (product : Product) (strategy exitReason : String) :
    ((∀ p ∈ (b.closing fill product exitReason).closed, 0 ≤ p.charges) ∧
      (b.applyFill fill product strategy exitReason).Solvent) ↔
      (b.adds fill ∨ fill.Affords b.lots fill.quantity fill.charges) := by
  by_cases ha : b.adds fill
  · rw [closing_of_adds b fill product exitReason ha, applyFill, dif_pos ha, solvent_push]
    simp only [ha, true_or, iff_true]
    exact ⟨List.forall_mem_nil _, h, fill.charges_nonneg⟩
  · obtain ⟨-, hlots⟩ := direction_of_not_adds ha
    have hc : b.closing fill product exitReason =
        closeLots fill product exitReason b.direction b.lots fill.quantity fill.charges 0 := by
      rw [closing, if_neg ha]
    have hsplit := closeLots_affords fill product exitReason b.direction b.lots fill.quantity
      fill.charges 0 fill.quantity_pos h
    have hne := closeLots_closed_ne_nil fill product exitReason b.direction b.lots fill.quantity
      fill.charges 0 hlots fill.quantity_pos
    simp only [← hc] at hsplit hne
    rw [applyFill, dif_neg ha, or_iff_right ha, ← hsplit]
    by_cases hr : 0 < (b.closing fill product exitReason).remaining
    · simp only [dif_pos hr, if_neg hne, solvent_push]
      simp only [hr, true_imp_iff]
    · simp only [dif_neg hr, Solvent]
      simp only [hr, false_imp_iff, and_true]

end Book

namespace PositionBook

/-- The pieces a call of `apply` reports. -/
def closedBy (b : PositionBook) (a : Application) : List ClosedPiece :=
  match b.apply a.fill a.product a.strategy a.exitReason with
  | .ok (outcome, _) => outcome.closed
  | .error _ => []

/-- The pieces a sequence of calls reports, in order. -/
def closedIn (b : PositionBook) : List Application → List ClosedPiece
  | [] => []
  | a :: rest => b.closedBy a ++ (b.step a).closedIn rest

/-- The charges no piece has been given yet. -/
def unallocated (b : PositionBook) : ℚ := b.books.sum fun _ book => book.unallocated

def Solvent (b : PositionBook) : Prop := ∀ key, (b.bookAt key).Solvent

/-- The fill is not new, or it adds to the position, or its charges split without a negative
part over the lots it closes. -/
def Affords (b : PositionBook) (a : Application) : Prop :=
  b.Fresh a → (b.bookAt a.key).adds a.fill ∨
    a.fill.Affords (b.bookAt a.key).lots a.fill.quantity a.fill.charges

/-- The call gives no piece and leaves no lot negative charges, and the OMS that makes it does
not raise. -/
structure Allocates (b : PositionBook) (a : Application) : Prop where
  pieces : ∀ p ∈ b.closedBy a, 0 ≤ p.charges
  lots : ∀ key, ∀ lot ∈ ((b.step a).bookAt key).lots, 0 ≤ lot.charges
  told : ∀ o : OMS, o.book = b → o.Keyed → o.application a.fill = a → a.fill.bookId = b.bookId →
    ∃ r o', OMS.onFill a.fill o = .ok r o'

variable {b : PositionBook} {a : Application}

theorem closedBy_of_fresh (h : b.Fresh a) :
    b.closedBy a = ((b.bookAt a.key).closing a.fill a.product a.exitReason).closed := by
  rw [closedBy, apply_of_fresh h]
  rfl

theorem closedBy_of_not_fresh (h : ¬b.Fresh a) : b.closedBy a = [] := by
  unfold closedBy apply
  by_cases hb : a.fill.bookId = b.bookId
  · have hs : a.fill.fillId ∈ b.seen := by
      by_contra hs
      exact h ⟨hb, hs⟩
    simp [hb, hs]
  · simp [hb]

/-- A call moves the charges of its fill, if it is new, to pieces and lots. -/
theorem unallocated_step (b : PositionBook) (a : Application) :
    ((b.closedBy a).map ClosedPiece.charges).sum + (b.step a).unallocated =
      b.unallocated + if b.Fresh a then a.fill.charges else 0 := by
  by_cases h : b.Fresh a
  · have hsum := sum_record (fun _ book => book.unallocated) (fun _ => rfl) b a
    have hbook := (b.bookAt a.key).unallocated_applyFill a.fill a.product a.strategy a.exitReason
    rw [closedBy_of_fresh h, step_of_fresh h, if_pos h]
    have hsum' : (b.record a).unallocated + (b.bookAt a.key).unallocated =
        b.unallocated + ((b.bookAt a.key).applyFill a.fill a.product a.strategy
          a.exitReason).unallocated := hsum
    linarith
  · have hsame : (b.step a).unallocated = b.unallocated :=
      sum_step_of_not_fresh (fun _ book => book.unallocated) (fun _ => rfl) h
    rw [closedBy_of_not_fresh h, if_neg h, hsame]
    simp

/-- Over a sequence of calls the charges of the distinct fills are all on a piece or a lot. -/
theorem unallocated_applyAll (b : PositionBook) (as : List Application) :
    ((b.closedIn as).map ClosedPiece.charges).sum + (b.applyAll as).unallocated =
      b.unallocated +
        ((Application.distinct b.bookId b.seen as).map fun a => a.fill.charges).sum := by
  induction as generalizing b with
  | nil => simp [closedIn, applyAll, Application.distinct]
  | cons a rest ih =>
    have hstep := unallocated_step b a
    have hrest := ih (b.step a)
    rw [bookId_step, seen_step] at hrest
    have happly : b.applyAll (a :: rest) = (b.step a).applyAll rest := rfl
    rw [closedIn, List.map_append, List.sum_append, happly, Application.distinct]
    by_cases h : b.Fresh a
    · have h' : a.fill.bookId = b.bookId ∧ a.fill.fillId ∉ b.seen := h
      rw [if_pos h] at hstep hrest
      rw [if_pos h', List.map_cons, List.sum_cons]
      linarith
    · have h' : ¬(a.fill.bookId = b.bookId ∧ a.fill.fillId ∉ b.seen) := h
      rw [if_neg h] at hstep hrest
      rw [if_neg h']
      linarith

/-- A call changes the book at its key, if its fill is new, and no other. -/
theorem bookAt_step (b : PositionBook) (a : Application) (key : String × Product) :
    (b.step a).bookAt key = if b.Fresh a ∧ key = a.key then
      (b.bookAt a.key).applyFill a.fill a.product a.strategy a.exitReason else b.bookAt key := by
  by_cases h : b.Fresh a
  · rw [step_of_fresh h, bookAt_record]
    simp [h]
  · rw [bookAt_step_of_not_fresh h]
    simp [h]

theorem priced_applyAll (bookId : String) (cash : ℚ) (as : List Application) :
    ∀ key, (((init bookId cash).applyAll as).bookAt key).Priced := by
  induction as using List.reverseRecOn with
  | nil => exact fun _ => Book.priced_empty
  | append_singleton as a ih =>
    intro key
    rw [applyAll, List.foldl_concat, ← applyAll, bookAt_step]
    split
    · exact (ih _).applyFill _ _ _ _
    · exact ih key

/-- Where no lot carries negative charges, a call leaves no negative part exactly when its
charges split without one, and the OMS then tells all its trades. -/
theorem Solvent.allocates_iff (h : b.Solvent) (hpriced : ∀ key, (b.bookAt key).Priced) :
    b.Allocates a ↔ b.Affords a := by
  constructor
  · intro halloc hfresh
    rw [← (h a.key).applyFill_iff a.product a.strategy a.exitReason, ← closedBy_of_fresh hfresh]
    refine ⟨halloc.pieces, fun lot hlot => halloc.lots a.key lot ?_⟩
    rwa [bookAt_step, if_pos ⟨hfresh, rfl⟩]
  · intro haffords
    by_cases hfresh : b.Fresh a
    · obtain ⟨hpieces, hlots⟩ := ((h a.key).applyFill_iff a.product a.strategy a.exitReason).mpr
        (haffords hfresh)
      refine ⟨by rwa [closedBy_of_fresh hfresh], fun key lot hlot => ?_, ?_⟩
      · rw [bookAt_step] at hlot
        split at hlot
        · exact hlots lot hlot
        · exact h key lot hlot
      · rintro o rfl hk happ hbook
        cases horder : o.orders.get? a.fill.clientOrderId with
        | none => exact ⟨_, _, OMS.onFill_unheld hfresh.2 horder hbook⟩
        | some order =>
          rw [OMS.application_of_get horder] at happ
          refine OMS.onFill_ok hfresh.2 hk horder hbook fun p hp => ?_
          rw [happ, outcome_closed] at hp
          obtain ⟨trade, htrade, -⟩ := (hpriced a.key).tradeClosed a.fill a.product a.exitReason
            o.bookId hp (hpieces p hp)
          exact ⟨trade, htrade⟩
    · refine ⟨?_, fun key lot hlot => ?_, ?_⟩
      · rw [closedBy_of_not_fresh hfresh]
        exact List.forall_mem_nil _
      · rw [bookAt_step_of_not_fresh hfresh] at hlot
        exact h key lot hlot
      · rintro o rfl hk happ hbook
        have hseen : a.fill.fillId ∈ o.book.seen := by
          by_contra hseen
          exact hfresh ⟨hbook, hseen⟩
        exact ⟨none, o, OMS.onFill_seen hseen⟩

theorem Allocates.solvent (h : b.Allocates a) : (b.step a).Solvent := h.lots

/-- Along a run whose calls all keep the lots from negative charges, no lot has any. -/
theorem solvent_applyAll (bookId : String) (cash : ℚ) {as : List Application}
    (hstep : ∀ before a after, as = before ++ a :: after →
      ((init bookId cash).applyAll before).Solvent →
        (((init bookId cash).applyAll before).step a).Solvent) (before after : List Application)
    (has : as = before ++ after) : ((init bookId cash).applyAll before).Solvent := by
  induction before using List.reverseRecOn generalizing after with
  | nil => exact fun _ => Book.solvent_empty
  | append_singleton before a ih =>
    have has' : as = before ++ a :: after := by rw [has, List.append_assoc, List.singleton_append]
    rw [applyAll, List.foldl_concat, ← applyAll]
    exact hstep before a after has' (ih (a :: after) has')

/-- **Charges are allocated.** Whatever fills a book is given, in any order and with any
re-deliveries, the charges of the pieces closed and of the open lots add up to those of the
distinct fills. No piece and no lot ever has negative charges, and the OMS tells every trade,
exactly when each new fill that closes lots can afford the rounded shares of the lots it goes
past. -/
theorem charges_allocated_iff (bookId : String) (cash : ℚ) (as : List Application) :
    (((init bookId cash).closedIn as).map ClosedPiece.charges).sum +
        ((init bookId cash).applyAll as).unallocated =
      ((Application.distinct bookId [] as).map fun a => a.fill.charges).sum ∧
    ((∀ before a after, as = before ++ a :: after →
        ((init bookId cash).applyAll before).Allocates a) ↔
      ∀ before a after, as = before ++ a :: after →
        ((init bookId cash).applyAll before).Affords a) := by
  constructor
  · have hsum := unallocated_applyAll (init bookId cash) as
    have hnone : (init bookId cash).unallocated = 0 := Dict.sum_empty _
    rwa [hnone, zero_add] at hsum
  · have hpriced := priced_applyAll bookId cash
    constructor
    · intro hall before a after has
      have hsolvent := solvent_applyAll bookId cash
        (fun before a after has _ => (hall before a after has).solvent) before (a :: after) has
      exact (hsolvent.allocates_iff (hpriced before)).mp (hall before a after has)
    · intro hall before a after has
      have hsolvent := solvent_applyAll bookId cash
        (fun before a after has h => ((h.allocates_iff (hpriced before)).mpr
          (hall before a after has)).solvent) before (a :: after) has
      exact (hsolvent.allocates_iff (hpriced before)).mpr (hall before a after has)

end PositionBook

/-! ## Eighteen small lots -/

namespace Eighteen

/-- One share bought without charges, or the eighteen sold for one paisa of them. -/
def trade (fillId : String) (side : Side) (quantity : ℤ) (charges : ℚ) (hq : 0 < quantity)
    (hc : 0 ≤ charges) : Application :=
  { fill :=
      { fillId := fillId, clientOrderId := fillId, brokerOrderId := none, bookId := "main"
        decisionId := "D1", instrumentKey := "INFY", side := side, quantity := quantity
        price := 100, ts := 0, charges := charges, chargesBreakdown := []
        quantity_pos := hq, price_pos := Sample.hundred_pos, charges_nonneg := hc }
    product := .cnc, strategy := "trend", exitReason := "target" }

theorem one_share : (0 : ℤ) < 1 := by decide

theorem no_charges : (0 : ℚ) ≤ 0 := le_rfl

theorem eighteen_shares : (0 : ℤ) < 18 := by decide

theorem one_paisa : (0 : ℚ) ≤ 1 / 100 := by norm_num

def bought : List Application :=
  (List.range 18).map fun n => trade ("B" ++ toString n) .buy 1 0 one_share no_charges

def sold : Application := trade "S" .sell 18 (1 / 100) eighteen_shares one_paisa

end Eighteen

namespace PositionBook

/-- Seventeen lots are given 6 hundredths of a paisa each, and the last is given minus 2. -/
theorem negative_piece : ¬ ∀ (bookId : String) (cash : ℚ) (as : List Application),
    ∀ before a after, as = before ++ a :: after →
      ((init bookId cash).applyAll before).Allocates a := by
  intro h
  have halloc := h "main" 100000 _ Eighteen.bought Eighteen.sold [] rfl
  have hneg : ∃ p ∈ ((init "main" 100000).applyAll Eighteen.bought).closedBy Eighteen.sold,
      p.charges < 0 := by decide +kernel
  obtain ⟨p, hp, hlt⟩ := hneg
  exact absurd (halloc.pieces p hp) (not_le.mpr hlt)

end PositionBook

end RakshaQuant
