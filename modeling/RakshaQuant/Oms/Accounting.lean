import Mathlib.Tactic.Ring
import RakshaQuant.Oms.PositionBook

/-! Accounting over whole sequences of fills: no rupee of price or charge is lost
or counted twice, whatever is re-delivered and however a fill splits over lots.

The value of a lot at a mark is what closing it there would still earn. The
closing loop moves value from the lots to the pieces it reports and to the
cash, and the one equation about the loop (`closeLots_value`) carries the
identity through partial closes, exact closes and flips. -/

namespace RakshaQuant

/-- The arguments of one call of `PositionBook.apply`. -/
structure Application where
  fill : Fill
  product : Product
  strategy : String
  exitReason : String
deriving DecidableEq

namespace Application

def key (a : Application) : String × Product := (a.fill.instrumentKey, a.product)

/-- The applications that count: those for the book, the first of each fill id. -/
def distinct (bookId : String) : List String → List Application → List Application
  | _, [] => []
  | seen, a :: rest =>
    if a.fill.bookId = bookId ∧ a.fill.fillId ∉ seen then
      a :: distinct bookId (a.fill.fillId :: seen) rest
    else distinct bookId seen rest

end Application

namespace PositionBook

/-- The book after a call of `apply`; a call that raises leaves it as it was. -/
def step (b : PositionBook) (a : Application) : PositionBook :=
  match b.apply a.fill a.product a.strategy a.exitReason with
  | .ok (_, b') => b'
  | .error _ => b

def applyAll (b : PositionBook) (as : List Application) : PositionBook := as.foldl step b

/-- The application is for this book and its fill is not applied yet. -/
def Fresh (b : PositionBook) (a : Application) : Prop :=
  a.fill.bookId = b.bookId ∧ a.fill.fillId ∉ b.seen

instance (b : PositionBook) (a : Application) : Decidable (b.Fresh a) :=
  inferInstanceAs (Decidable (_ ∧ _))

/-- The book after a fresh application. -/
def record (b : PositionBook) (a : Application) : PositionBook :=
  { b with
    cash := cashAfter b.cash a.fill
    books := b.books.set a.key ((b.bookAt a.key).applyFill a.fill a.product a.strategy a.exitReason)
    seen := a.fill.fillId :: b.seen }

/-- What a fresh application returns. -/
def outcome (b : PositionBook) (a : Application) : FillOutcome :=
  ⟨positionOf b.bookId a.key
      ((b.bookAt a.key).applyFill a.fill a.product a.strategy a.exitReason) a.fill.ts,
    ((b.bookAt a.key).closing a.fill a.product a.exitReason).closed, false⟩

theorem apply_of_fresh {b : PositionBook} {a : Application} (h : b.Fresh a) :
    b.apply a.fill a.product a.strategy a.exitReason = .ok (b.outcome a, b.record a) := by
  rw [apply, if_neg (not_not.mpr h.1), if_neg h.2]
  rfl

theorem step_of_fresh {b : PositionBook} {a : Application} (h : b.Fresh a) :
    b.step a = b.record a := by
  rw [step, apply_of_fresh h]

/-- A call that is not fresh changes nothing but may add an empty book. -/
theorem step_of_not_fresh {b : PositionBook} {a : Application} (h : ¬b.Fresh a) :
    b.step a = b ∨ b.step a = { b with books := b.books.setdefault a.key .empty } := by
  unfold step apply
  by_cases hb : a.fill.bookId = b.bookId
  · have hs : a.fill.fillId ∈ b.seen := by
      by_contra hs
      exact h ⟨hb, hs⟩
    right
    simp [hb, hs, Application.key]
  · left
    simp [hb]

@[simp] theorem bookId_step (b : PositionBook) (a : Application) : (b.step a).bookId = b.bookId := by
  by_cases h : b.Fresh a
  · rw [step_of_fresh h, record]
  · rcases step_of_not_fresh h with hs | hs <;> rw [hs]

theorem seen_step (b : PositionBook) (a : Application) :
    (b.step a).seen = if b.Fresh a then a.fill.fillId :: b.seen else b.seen := by
  by_cases h : b.Fresh a
  · rw [step_of_fresh h, if_pos h, record]
  · rw [if_neg h]
    rcases step_of_not_fresh h with hs | hs <;> rw [hs]

/-- A quantity that a fresh application moves by `d` and nothing else moves
ends, over a sequence, at its start plus the sum over the distinct fills. -/
theorem applyAll_sum {M : Type*} [AddCommMonoid M] (q : PositionBook → M) (d : Application → M)
    (hfresh : ∀ b a, b.Fresh a → q (b.record a) = q b + d a)
    (hsame : ∀ b a, ¬b.Fresh a → q (b.step a) = q b) (b : PositionBook)
    (as : List Application) :
    q (b.applyAll as) = q b + ((Application.distinct b.bookId b.seen as).map d).sum := by
  induction as generalizing b with
  | nil => simp [applyAll, Application.distinct]
  | cons a rest ih =>
    have hrest : q (b.applyAll (a :: rest)) = q ((b.step a).applyAll rest) := rfl
    rw [hrest, ih (b.step a), bookId_step, seen_step, Application.distinct]
    by_cases h : b.Fresh a
    · have h' : a.fill.bookId = b.bookId ∧ a.fill.fillId ∉ b.seen := h
      rw [if_pos h, if_pos h', step_of_fresh h, hfresh b a h, List.map_cons, List.sum_cons,
        add_assoc]
    · have h' : ¬(a.fill.bookId = b.bookId ∧ a.fill.fillId ∉ b.seen) := h
      rw [if_neg h, if_neg h', hsame b a h]

end PositionBook

/-! ## The value of the open lots -/

/-- What closing the lot at `mark` would still earn, net of its charges. -/
def Lot.value (direction : ℤ) (mark : ℚ) (l : Lot) : ℚ :=
  (direction : ℚ) * l.quantity * (mark - l.price) - l.charges

/-- Realized P&L plus the value of the open lots at `mark`. -/
def Book.worth (mark : ℚ) (b : Book) : ℚ :=
  b.realized + (b.lots.map (Lot.value b.direction mark)).sum

/-- The closing loop conserves value: what the lots lose shows up in the pieces'
net P&L, up to the mark-to-price difference of the shares taken and the exit
charges used. -/
theorem closeLots_value (fill : Fill) (product : Product) (exitReason : String) (direction : ℤ)
    (mark : ℚ) (lots : List Lot) (remaining : ℤ) (exitCharges : ℚ) (n : ℕ)
    (h0 : 0 ≤ remaining) :
    let c := closeLots fill product exitReason direction lots remaining exitCharges n
    (c.closed.map ClosedPiece.netPnl).sum + (c.lots.map (Lot.value direction mark)).sum =
      (lots.map (Lot.value direction mark)).sum
        + (direction : ℚ) * (fill.price - mark) * (remaining - c.remaining)
        - (exitCharges - c.exitCharges) := by
  induction lots generalizing remaining exitCharges n with
  | nil => simp [closeLots]
  | cons lot rest ih =>
    rcases h0.eq_or_lt with h0 | h0
    · simp [← h0, closeLots_zero]
    · rcases lt_or_ge remaining lot.quantity with h | h
      · rw [closeLots_part _ _ _ _ _ _ h0 h]
        simp only [List.map_cons, List.map_nil, List.sum_cons, List.sum_nil, ClosedPiece.of,
          Lot.value, Lot.left]
        push_cast
        ring
      · have hrest := ih (remaining - lot.quantity)
          (exitCharges - fill.exitAlloc remaining exitCharges lot.quantity) (n + 1) (by omega)
        rw [closeLots_whole _ _ _ _ _ _ h0 h]
        simp only [List.map_cons, List.sum_cons, add_assoc] at hrest ⊢
        rw [hrest]
        simp only [ClosedPiece.of, Lot.value]
        push_cast
        ring

/-- The loop never takes more than the fill has, and when it takes all of it the
exit charges are used up. -/
theorem closeLots_remaining (fill : Fill) (product : Product) (exitReason : String)
    (direction : ℤ) (lots : List Lot) (remaining : ℤ) (exitCharges : ℚ) (n : ℕ)
    (h0 : 0 < remaining) :
    let c := closeLots fill product exitReason direction lots remaining exitCharges n
    0 ≤ c.remaining ∧ (c.remaining = 0 → c.exitCharges = 0) := by
  induction lots generalizing remaining exitCharges n with
  | nil => exact ⟨h0.le, fun h => absurd h h0.ne'⟩
  | cons lot rest ih =>
    rcases lt_trichotomy remaining lot.quantity with h | h | h
    · rw [closeLots_part _ _ _ _ _ _ h0 h]
      simp
    · rw [closeLots_whole _ _ _ _ _ _ h0 h.ge]
      simp [h, closeLots_zero, Fill.exitAlloc]
    · rw [closeLots_whole _ _ _ _ _ _ h0 h.le]
      exact ih _ _ _ (by omega)

/-- The loop stops only when the fill or the lots are used up. -/
theorem closeLots_exhausts (fill : Fill) (product : Product) (exitReason : String)
    (direction : ℤ) (lots : List Lot) (remaining : ℤ) (exitCharges : ℚ) (n : ℕ)
    (h0 : 0 ≤ remaining) :
    let c := closeLots fill product exitReason direction lots remaining exitCharges n
    c.remaining = 0 ∨ c.lots = [] := by
  induction lots generalizing remaining exitCharges n with
  | nil => exact .inr rfl
  | cons lot rest ih =>
    rcases h0.eq_or_lt with h0 | h0
    · simp [← h0, closeLots_zero]
    · rcases lt_or_ge remaining lot.quantity with h | h
      · rw [closeLots_part _ _ _ _ _ _ h0 h]
        exact .inl rfl
      · rw [closeLots_whole _ _ _ _ _ _ h0 h]
        exact ih _ _ _ (by omega)

/-- A non-empty loop closes something, so the rest of a flip carries what is
left of the exit charges. -/
theorem closeLots_closed_ne_nil (fill : Fill) (product : Product) (exitReason : String)
    (direction : ℤ) (lots : List Lot) (remaining : ℤ) (exitCharges : ℚ) (n : ℕ)
    (hl : lots ≠ []) (h0 : 0 < remaining) :
    (closeLots fill product exitReason direction lots remaining exitCharges n).closed ≠ [] := by
  cases lots with
  | nil => exact absurd rfl hl
  | cons lot rest =>
    rcases lt_or_ge remaining lot.quantity with h | h
    · simp [closeLots_part _ _ _ _ _ _ h0 h]
    · simp [closeLots_whole _ _ _ _ _ _ h0 h]

/-- A fill against the position has the opposite direction. -/
theorem Book.direction_of_not_adds {b : Book} {fill : Fill} (h : ¬b.adds fill) :
    b.direction = -fill.side.sign ∧ b.lots ≠ [] := by
  have hd : b.direction ≠ 0 := fun h0 => h (.inl h0)
  have hs : b.direction ≠ fill.side.sign := fun h1 => h (.inr h1)
  refine ⟨?_, fun hl => hd (b.flat_iff.mpr hl)⟩
  rcases b.unit with hu | hu | hu <;> rcases fill.side.sign_unit with hf | hf <;> omega

theorem sum_value_push (lots : List Lot) (direction : ℤ) (mark : ℚ) (l : Lot) :
    ((lots ++ [l]).map (Lot.value direction mark)).sum =
      (lots.map (Lot.value direction mark)).sum + l.value direction mark := by
  simp

/-- A fill moves the worth of its book by its own mark-to-market, less its charges. -/
theorem Book.worth_applyFill (b : Book) (fill : Fill) (product : Product)
    (strategy exitReason : String) (mark : ℚ) :
    (b.applyFill fill product strategy exitReason).worth mark =
      b.worth mark + fill.signedQty * (mark - fill.price) - fill.charges := by
  unfold applyFill
  by_cases ha : b.adds fill
  · -- opening or adding: one lot more, on the side the lots already have
    rw [dif_pos ha]
    have hsame : (b.lots.map (Lot.value fill.side.sign mark)).sum =
        (b.lots.map (Lot.value b.direction mark)).sum := by
      rcases ha with h | h
      · rw [b.flat_iff.mp h]
        rfl
      · rw [h]
    simp only [worth, push, sum_value_push, hsame, Lot.value, Lot.ofFill, Fill.signedQty]
    push_cast
    ring
  · rw [dif_neg ha]
    obtain ⟨hdir, hlots⟩ := direction_of_not_adds ha
    have hc : b.closing fill product exitReason =
        closeLots fill product exitReason b.direction b.lots fill.quantity fill.charges 0 := by
      rw [closing, if_neg ha]
    have hvalue := closeLots_value fill product exitReason b.direction mark b.lots fill.quantity
      fill.charges 0 fill.quantity_pos.le
    have hrem := closeLots_remaining fill product exitReason b.direction b.lots fill.quantity
      fill.charges 0 fill.quantity_pos
    have hstop := closeLots_exhausts fill product exitReason b.direction b.lots fill.quantity
      fill.charges 0 fill.quantity_pos.le
    have hne := closeLots_closed_ne_nil fill product exitReason b.direction b.lots fill.quantity
      fill.charges 0 hlots fill.quantity_pos
    simp only [← hc] at hvalue hrem hstop hne
    have hcast : (b.direction : ℚ) = -(fill.side.sign : ℚ) := by
      rw [hdir]
      push_cast
      ring
    by_cases hr : 0 < (b.closing fill product exitReason).remaining
    · -- a flip: nothing is left on the old side
      have hnil : (b.closing fill product exitReason).lots = [] := by
        rcases hstop with h | h
        · omega
        · exact h
      rw [dif_pos hr]
      simp only [hnil, List.map_nil, List.sum_nil, add_zero] at hvalue
      simp only [worth, push, if_neg hne, hnil, List.nil_append, List.map_cons, List.map_nil,
        List.sum_cons, List.sum_nil, Lot.value, Lot.ofFill, Fill.signedQty, hvalue, hcast]
      push_cast
      ring
    -- the fill is used up on the old side: the lots it leaves keep their direction
    · have hr0 : (b.closing fill product exitReason).remaining = 0 := by omega
      have hx : (b.closing fill product exitReason).exitCharges = 0 := hrem.2 hr0
      rw [dif_neg hr]
      have hlots' : ((b.closing fill product exitReason).lots.map (Lot.value
          (if (b.closing fill product exitReason).lots = [] then 0 else b.direction) mark)).sum =
          ((b.closing fill product exitReason).lots.map (Lot.value b.direction mark)).sum := by
        by_cases hnil : (b.closing fill product exitReason).lots = []
        · simp [hnil]
        · simp [hnil]
      simp only [worth, hlots']
      rw [add_assoc, hvalue, hr0, hx, hcast, Fill.signedQty]
      push_cast
      ring

/-! ## Quantities -/

/-- A position's size is what one rupee on the mark adds to its worth. -/
theorem Book.quantity_eq_worth (b : Book) : (b.quantity : ℚ) = b.worth 1 - b.worth 0 := by
  have hsum : ∀ lots : List Lot, (b.direction : ℚ) * ((lots.map Lot.quantity).sum : ℤ) =
      (lots.map (Lot.value b.direction 1)).sum - (lots.map (Lot.value b.direction 0)).sum := by
    intro lots
    induction lots with
    | nil => simp
    | cons l rest ih =>
      simp only [List.map_cons, List.sum_cons, Int.cast_add, mul_add, ih, Lot.value]
      ring
  have h := hsum b.lots
  simp only [quantity, shares, worth, Int.cast_mul, h]
  ring

/-- The position moves by the fill's signed quantity. -/
theorem Book.quantity_applyFill (b : Book) (fill : Fill) (product : Product)
    (strategy exitReason : String) :
    (b.applyFill fill product strategy exitReason).quantity = b.quantity + fill.signedQty := by
  have h : ((b.applyFill fill product strategy exitReason).quantity : ℚ) =
      b.quantity + fill.signedQty := by
    rw [quantity_eq_worth, quantity_eq_worth, worth_applyFill, worth_applyFill]
    ring
  exact_mod_cast h

@[simp] theorem Book.quantity_empty : Book.empty.quantity = 0 := rfl

@[simp] theorem Book.worth_empty (mark : ℚ) : Book.empty.worth mark = 0 := by
  simp [worth, empty]

namespace PositionBook

theorem cashAfter_eq (cash : ℚ) (fill : Fill) :
    cashAfter cash fill = cash - fill.signedQty * fill.price - fill.charges := by
  unfold cashAfter Fill.signedQty Fill.notional
  cases fill.side <;> simp <;> ring

/-- A sum over the books at which an empty book adds nothing moves, on a fresh
application, by what it moves at the application's key. -/
theorem sum_record {M : Type*} [AddCommMonoid M] (f : String × Product → Book → M)
    (h₀ : ∀ k, f k .empty = 0) (b : PositionBook) (a : Application) :
    (b.record a).books.sum f + f a.key (b.bookAt a.key) =
      b.books.sum f + f a.key
        ((b.bookAt a.key).applyFill a.fill a.product a.strategy a.exitReason) :=
  Dict.sum_set f b.books a.key _ _ (h₀ a.key)

theorem sum_step_of_not_fresh {M : Type*} [AddCommMonoid M] (f : String × Product → Book → M)
    (h₀ : ∀ k, f k .empty = 0) {b : PositionBook} {a : Application} (h : ¬b.Fresh a) :
    (b.step a).books.sum f = b.books.sum f := by
  rcases step_of_not_fresh h with hs | hs <;> rw [hs]
  exact Dict.sum_setdefault f b.books a.key .empty (h₀ a.key)

theorem cash_step_of_not_fresh {b : PositionBook} {a : Application} (h : ¬b.Fresh a) :
    (b.step a).cash = b.cash := by
  rcases step_of_not_fresh h with hs | hs <;> rw [hs]

theorem bookAt_record (b : PositionBook) (a : Application) (key : String × Product) :
    (b.record a).bookAt key = if key = a.key then
      (b.bookAt a.key).applyFill a.fill a.product a.strategy a.exitReason else b.bookAt key := by
  by_cases h : key = a.key <;> simp [bookAt, record, h]

theorem bookAt_step_of_not_fresh {b : PositionBook} {a : Application} (h : ¬b.Fresh a)
    (key : String × Product) : (b.step a).bookAt key = b.bookAt key := by
  rcases step_of_not_fresh h with hs | hs <;> rw [hs]
  by_cases hk : key = a.key <;> simp [bookAt, Dict.get?_setdefault, hk]

/-- A fresh application moves the position at its key by the fill's signed quantity. -/
theorem quantity_record (b : PositionBook) (a : Application) (instrumentKey : String)
    (product : Product) :
    (b.record a).quantity instrumentKey product = b.quantity instrumentKey product +
      if a.fill.instrumentKey = instrumentKey ∧ a.product = product then a.fill.signedQty else 0 := by
  rw [quantity, bookAt_record]
  by_cases h : a.fill.instrumentKey = instrumentKey ∧ a.product = product
  · have hkey : (instrumentKey, product) = a.key := Prod.ext h.1.symm h.2.symm
    rw [if_pos hkey, if_pos h, Book.quantity_applyFill, quantity, hkey]
  · have hkey : (instrumentKey, product) ≠ a.key := fun hk => h ⟨congrArg Prod.fst hk.symm,
      congrArg Prod.snd hk.symm⟩
    rw [if_neg hkey, if_neg h, add_zero, quantity]

/-- With a mark for every instrument the market value never raises. -/
theorem marketValue_total (marks : String → ℚ) (es : List ((String × Product) × Book)) :
    marketValue (fun k => some (marks k)) es =
      .ok (es.map fun e => (e.2.quantity : ℚ) * marks e.1.1).sum := by
  induction es with
  | nil => rfl
  | cons e rest ih =>
    obtain ⟨⟨instrumentKey, product⟩, book⟩ := e
    by_cases h : book.quantity = 0
    · simp [marketValue, h, ih]
    · simp [marketValue, h, ih, Except.map]

/-- Equity less the books' worth does not move: what a fill takes from the cash
comes back as position, less the charges the book still carries or has realized. -/
theorem equity_balance (bookId : String) (startingCash : ℚ) (as : List Application)
    (marks : String → ℚ) :
    let b := (init bookId startingCash).applyAll as
    b.cash + b.books.sum (fun k book => (book.quantity : ℚ) * marks k.1) =
      startingCash + b.books.sum (fun k book => book.worth (marks k.1)) := by
  have hbal := applyAll_sum (fun b : PositionBook => b.cash
      + b.books.sum (fun k book => (book.quantity : ℚ) * marks k.1)
      - b.books.sum (fun k book => book.worth (marks k.1))) (fun _ => 0)
    (fun b a _ => by
      have hq := sum_record (fun k book => (book.quantity : ℚ) * marks k.1) (by simp) b a
      have hw := sum_record (fun k book => book.worth (marks k.1)) (by simp) b a
      simp only [Book.quantity_applyFill, Book.worth_applyFill, Int.cast_add, add_mul] at hq hw
      have hc : (b.record a).cash =
          b.cash - a.fill.signedQty * a.fill.price - a.fill.charges := cashAfter_eq _ _
      linarith)
    (fun b a h => by
      rw [cash_step_of_not_fresh h, sum_step_of_not_fresh _ (by simp) h,
        sum_step_of_not_fresh _ (by simp) h])
    (init bookId startingCash) as
  simp only [init, Dict.sum_empty, List.map_const', List.sum_replicate, nsmul_zero] at hbal
  simp only [init]
  linarith

/-- **The accounting identity.** Whatever fills a book is given, in any order and
with any re-deliveries: the cash is the starting cash less the signed cost and
the charges of the distinct fills, and the equity at any marks exceeds the
starting cash by the realized P&L and the open lots' value net of the charges
they still carry. -/
theorem accounting_identity (bookId : String) (startingCash : ℚ) (as : List Application)
    (marks : String → ℚ) :
    let b := (init bookId startingCash).applyAll as
    let fills := (Application.distinct bookId [] as).map Application.fill
    b.cash = startingCash - (fills.map fun f => (f.signedQty : ℚ) * f.price).sum
      - (fills.map Fill.charges).sum ∧
    ∃ equity, b.equity (fun k => some (marks k)) = .ok equity ∧
      equity - startingCash = b.realizedPnl + b.books.sum fun key book =>
        (book.lots.map fun l =>
          (book.direction : ℚ) * l.quantity * (marks key.1 - l.price) - l.charges).sum := by
  intro b fills
  constructor
  -- the cash moves with each distinct fill, and with nothing else
  · have hcash := applyAll_sum (fun b : PositionBook => b.cash)
      (fun a => -((a.fill.signedQty : ℚ) * a.fill.price) + -a.fill.charges)
      (fun b a _ => by
        show cashAfter b.cash a.fill = _
        rw [cashAfter_eq]
        ring)
      (fun b a h => cash_step_of_not_fresh h) (init bookId startingCash) as
    have hsplit : ∀ l : List Application,
        (l.map fun a => -((a.fill.signedQty : ℚ) * a.fill.price) + -a.fill.charges).sum =
          -((l.map Application.fill).map fun f => (f.signedQty : ℚ) * f.price).sum
            - ((l.map Application.fill).map Fill.charges).sum := by
      intro l
      induction l with
      | nil => simp
      | cons a rest ih =>
        simp only [List.map_cons, List.sum_cons, ih]
        ring
    rw [hsplit] at hcash
    show b.cash = _
    have : b.cash = startingCash + (-(fills.map fun f => (f.signedQty : ℚ) * f.price).sum
      - (fills.map Fill.charges).sum) := hcash
    rw [this]
    ring
  · refine ⟨_, by rw [equity, marketValue_total]; rfl, ?_⟩
    have hbal := equity_balance bookId startingCash as marks
    have hworth : b.books.sum (fun k book => book.worth (marks k.1)) =
        b.realizedPnl + b.books.sum fun key book =>
          (book.lots.map fun l =>
            (book.direction : ℚ) * l.quantity * (marks key.1 - l.price) - l.charges).sum :=
      List.sum_map_add
    have hcash : b.cash + b.books.sum (fun k book => (book.quantity : ℚ) * marks k.1) =
        startingCash + b.books.sum (fun k book => book.worth (marks k.1)) := hbal
    rw [hworth] at hcash
    show b.cash + b.books.sum (fun k book => (book.quantity : ℚ) * marks k.1) - startingCash = _
    linarith

end PositionBook

end RakshaQuant
