import Mathlib.Data.List.Sort
import RakshaQuant.Domain.Errors
import RakshaQuant.Domain.Types
import RakshaQuant.Lib.Decimal
import RakshaQuant.Lib.Dict

/-! The position book: a book's positions and cash, changed only by fills, each
fill applied at most once by its id. Lots are closed first in, first out; a
closing fill's charges are split pro rata over what it closes, the last piece
taking the exact remainder; a fill larger than the position opens the opposite
side with the rest. -/

namespace RakshaQuant

/-- `_ALLOC_QUANTUM`: charges are allocated in hundredths of a paisa. -/
def allocQuantum : ℚ := 1 / 10000

/-- An open lot; the side is the position's. -/
structure Lot where
  quantity : ℤ
  price : ℚ
  charges : ℚ
  openedAt : Instant
  decisionId : String
  strategy : String
  fillId : String
  quantity_pos : 0 < quantity

/-- One lot, or part of one, closed by a fill. -/
structure ClosedPiece where
  tradeId : String
  instrumentKey : String
  product : Product
  side : Side
  quantity : ℤ
  entryPrice : ℚ
  exitPrice : ℚ
  entryTs : Instant
  exitTs : Instant
  grossPnl : ℚ
  charges : ℚ
  netPnl : ℚ
  decisionId : String
  exitDecisionId : String
  strategy : String
  exitReason : String
deriving DecidableEq

/-- `_Book`: the lots of one (instrument, product), oldest first. `direction` is
`+1` long, `-1` short and `0` exactly when there is no lot. -/
structure Book where
  lots : List Lot
  direction : ℤ
  realized : ℚ
  updatedAt : Option Instant
  flat_iff : direction = 0 ↔ lots = []
  unit : direction = 0 ∨ direction = 1 ∨ direction = -1

namespace Book

def empty : Book := ⟨[], 0, 0, none, by simp, .inl rfl⟩

/-- Shares held in the lots, whatever the side. -/
def shares (b : Book) : ℤ := (b.lots.map Lot.quantity).sum

def quantity (b : Book) : ℤ := b.direction * b.shares

end Book

/-! ## Closing lots -/

/-- What the closing loop has produced: the lots left, the fill's quantity and
charges not used up, and the pieces closed, in order. -/
structure Closing where
  lots : List Lot
  remaining : ℤ
  exitCharges : ℚ
  closed : List ClosedPiece

/-- The entry charges allocated to `take` shares of a lot. -/
def Lot.entryAlloc (lot : Lot) (take : ℤ) : ℚ :=
  if take = lot.quantity then lot.charges
  else Decimal.quantize allocQuantum (lot.charges * take / lot.quantity)

/-- The exit charges allocated to `take` shares of the fill. -/
def Fill.exitAlloc (fill : Fill) (remaining : ℤ) (exitCharges : ℚ) (take : ℤ) : ℚ :=
  if take = remaining then exitCharges
  else Decimal.quantize allocQuantum (fill.charges * take / fill.quantity)

/-- The `n`-th piece a fill closes: `take` shares of `lot`. -/
def ClosedPiece.of (fill : Fill) (product : Product) (exitReason : String) (direction : ℤ)
    (lot : Lot) (take : ℤ) (entryAlloc exitAlloc : ℚ) (n : ℕ) : ClosedPiece :=
  let gross := (fill.price - lot.price) * take * direction
  { tradeId := fill.fillId ++ "#" ++ toString n
    instrumentKey := fill.instrumentKey
    product := product
    side := if 0 < direction then .buy else .sell
    quantity := take
    entryPrice := lot.price
    exitPrice := fill.price
    entryTs := lot.openedAt
    exitTs := fill.ts
    grossPnl := gross
    charges := entryAlloc + exitAlloc
    netPnl := gross - entryAlloc - exitAlloc
    decisionId := lot.decisionId
    exitDecisionId := fill.decisionId
    strategy := lot.strategy
    exitReason := exitReason }

/-- The lot after a part of it is closed. -/
def Lot.left (lot : Lot) (take : ℤ) (h : take < lot.quantity) : Lot :=
  { lot with
    quantity := lot.quantity - take, charges := lot.charges - lot.entryAlloc take,
    quantity_pos := by omega }

/-- The loop that reduces or closes: take from the oldest lot until the fill or
the lots are used up. `n` counts the pieces closed so far. -/
def closeLots (fill : Fill) (product : Product) (exitReason : String) (direction : ℤ) :
    List Lot → ℤ → ℚ → ℕ → Closing
  | [], remaining, exitCharges, _ => ⟨[], remaining, exitCharges, []⟩
  | lot :: rest, remaining, exitCharges, n =>
    if remaining = 0 then ⟨lot :: rest, remaining, exitCharges, []⟩
    else
      let take := min remaining lot.quantity
      let entryAlloc := lot.entryAlloc take
      let exitAlloc := fill.exitAlloc remaining exitCharges take
      let piece := ClosedPiece.of fill product exitReason direction lot take entryAlloc exitAlloc
        (n + 1)
      if h : take < lot.quantity then
        -- the lot outlives the fill: the next test of the loop ends it
        ⟨lot.left take h :: rest, remaining - take, exitCharges - exitAlloc, [piece]⟩
      else
        let next := closeLots fill product exitReason direction rest (remaining - take)
          (exitCharges - exitAlloc) (n + 1)
        { next with closed := piece :: next.closed }

/-- Open, add, or open the other side with the rest of a flip. -/
def Lot.ofFill (fill : Fill) (strategy : String) (quantity : ℤ) (charges : ℚ)
    (h : 0 < quantity) : Lot :=
  { quantity := quantity, price := fill.price, charges := charges, openedAt := fill.ts
    decisionId := fill.decisionId, strategy := strategy, fillId := fill.fillId, quantity_pos := h }

section closeLots

variable (fill : Fill) (product : Product) (exitReason : String) (direction : ℤ)
  {lot : Lot} {rest : List Lot} {remaining : ℤ} (exitCharges : ℚ) (n : ℕ)

theorem closeLots_zero (lots : List Lot) :
    closeLots fill product exitReason direction lots 0 exitCharges n =
      ⟨lots, 0, exitCharges, []⟩ := by
  cases lots <;> simp [closeLots]

/-- The fill ends inside the oldest lot. -/
theorem closeLots_part (h0 : 0 < remaining) (h : remaining < lot.quantity) :
    closeLots fill product exitReason direction (lot :: rest) remaining exitCharges n =
      ⟨lot.left remaining h :: rest, 0, 0, [ClosedPiece.of fill product exitReason direction lot
        remaining (lot.entryAlloc remaining) exitCharges (n + 1)]⟩ := by
  have htake : min remaining lot.quantity = remaining := min_eq_left h.le
  simp [closeLots, htake, h0.ne', h, Fill.exitAlloc]

/-- The fill takes the whole oldest lot and goes on. -/
theorem closeLots_whole (h0 : 0 < remaining) (h : lot.quantity ≤ remaining) :
    closeLots fill product exitReason direction (lot :: rest) remaining exitCharges n =
      let exitAlloc := fill.exitAlloc remaining exitCharges lot.quantity
      let next := closeLots fill product exitReason direction rest (remaining - lot.quantity)
        (exitCharges - exitAlloc) (n + 1)
      { next with
        closed := ClosedPiece.of fill product exitReason direction lot lot.quantity lot.charges
          exitAlloc (n + 1) :: next.closed } := by
  have htake : min remaining lot.quantity = lot.quantity := min_eq_right h
  simp [closeLots, htake, h0.ne', Lot.entryAlloc]

end closeLots

theorem Side.sign_unit (s : Side) : s.sign = 1 ∨ s.sign = -1 := by
  cases s <;> simp

/-- Append a lot of `quantity` shares; the position then has the fill's side. -/
def Book.push (lots : List Lot) (realized : ℚ) (fill : Fill) (strategy : String) (quantity : ℤ)
    (charges : ℚ) (h : 0 < quantity) : Book :=
  { lots := lots ++ [Lot.ofFill fill strategy quantity charges h]
    direction := fill.side.sign
    realized := realized
    updatedAt := some fill.ts
    flat_iff := by rcases fill.side.sign_unit with hs | hs <;> simp [hs]
    unit := .inr fill.side.sign_unit }

/-- The fill opens the position or adds to it; otherwise it reduces or closes it. -/
def Book.adds (b : Book) (fill : Fill) : Prop :=
  b.direction = 0 ∨ b.direction = fill.side.sign

instance (b : Book) (fill : Fill) : Decidable (b.adds fill) :=
  inferInstanceAs (Decidable (b.direction = 0 ∨ b.direction = fill.side.sign))

/-- What the closing loop makes of a fill; a fill that adds skips the loop. -/
def Book.closing (b : Book) (fill : Fill) (product : Product) (exitReason : String) : Closing :=
  if b.adds fill then ⟨b.lots, fill.quantity, fill.charges, []⟩
  else closeLots fill product exitReason b.direction b.lots fill.quantity fill.charges 0

/-- The book of one key after a new fill. -/
def Book.applyFill (b : Book) (fill : Fill) (product : Product) (strategy exitReason : String) :
    Book :=
  if ha : b.adds fill then
    Book.push b.lots b.realized fill strategy fill.quantity fill.charges fill.quantity_pos
  else
    let c := b.closing fill product exitReason
    let realized := b.realized + (c.closed.map ClosedPiece.netPnl).sum
    if h : 0 < c.remaining then
      Book.push c.lots realized fill strategy c.remaining
        (if c.closed = [] then fill.charges else c.exitCharges) h
    else
      { lots := c.lots
        direction := if c.lots = [] then 0 else b.direction
        realized := realized
        updatedAt := some fill.ts
        flat_iff := by
          have : b.direction ≠ 0 := fun h0 => ha (.inl h0)
          split <;> simp_all
        unit := by
          have := b.unit
          split <;> tauto }

/-! ## The book -/

structure FillOutcome where
  position : Position
  closed : List ClosedPiece
  duplicate : Bool

structure PositionBook where
  bookId : String
  startingCash : ℚ
  cash : ℚ
  books : Dict (String × Product) Book
  seen : List String

namespace PositionBook

def init (bookId : String) (startingCash : ℚ) : PositionBook :=
  ⟨bookId, startingCash, startingCash, .empty, []⟩

/-- The lots' average price weighted by quantity. -/
def avgPrice (b : Book) : ℚ := (b.lots.map fun l => l.price * (l.quantity : ℚ)).sum / b.shares

/-- `_position`. -/
def positionOf (bookId : String) (key : String × Product) (b : Book) (now : Instant) : Position :=
  { bookId := bookId, instrumentKey := key.1, product := key.2, quantity := b.quantity
    avgPrice := if b.quantity = 0 then none else some (avgPrice b)
    realizedPnl := b.realized
    updatedAt := b.updatedAt.getD now
    avgPrice_iff := by split <;> simp_all }

/-- What a new fill does to the cash. -/
def cashAfter (cash : ℚ) (fill : Fill) : ℚ :=
  match fill.side with
  | .buy => cash - (fill.notional + fill.charges)
  | .sell => cash + (fill.notional - fill.charges)

/-- The only mutator. A fill for another book raises before anything changes; a
fill already applied changes nothing but may leave an empty book at its key. -/
def apply (b : PositionBook) (fill : Fill) (product : Product) (strategy exitReason : String) :
    Except Exc (FillOutcome × PositionBook) :=
  if fill.bookId ≠ b.bookId then
    .error (.valueError
      ("fill for book " ++ fill.bookId ++ " applied to book " ++ b.bookId))
  else
    let key := (fill.instrumentKey, product)
    let book := (b.books.get? key).getD .empty
    if fill.fillId ∈ b.seen then
      .ok (⟨positionOf b.bookId key book fill.ts, [], true⟩,
        { b with books := b.books.setdefault key .empty })
    else
      let book' := book.applyFill fill product strategy exitReason
      .ok (⟨positionOf b.bookId key book' fill.ts, (book.closing fill product exitReason).closed,
          false⟩,
        { b with
          cash := cashAfter b.cash fill
          books := b.books.set key book'
          seen := fill.fillId :: b.seen })

/-! ## Reads -/

def hasSeen (b : PositionBook) (fillId : String) : Bool := fillId ∈ b.seen

/-- The book at a key, empty when there is none. -/
def bookAt (b : PositionBook) (key : String × Product) : Book := (b.books.get? key).getD .empty

def quantity (b : PositionBook) (instrumentKey : String) (product : Product) : ℤ :=
  (b.bookAt (instrumentKey, product)).quantity

def position (b : PositionBook) (instrumentKey : String) (product : Product) (now : Instant) :
    Position :=
  positionOf b.bookId (instrumentKey, product) (b.bookAt (instrumentKey, product)) now

/-- Keys in the order `sorted` gives them: by instrument, then by product text. -/
def keyLe (a b : (String × Product) × Book) : Prop :=
  a.1.1 < b.1.1 ∨ (a.1.1 = b.1.1 ∧ a.1.2.value ≤ b.1.2.value)

instance : DecidableRel keyLe := fun a b =>
  inferInstanceAs (Decidable (a.1.1 < b.1.1 ∨ (a.1.1 = b.1.1 ∧ a.1.2.value ≤ b.1.2.value)))

def positions (b : PositionBook) (now : Instant) : List Position :=
  (b.books.entries.insertionSort keyLe).map fun e =>
    positionOf b.bookId e.1 e.2 now

def realizedPnl (b : PositionBook) : ℚ := b.books.sum fun _ book => book.realized

/-- Sum of quantity times mark over the open positions, in the books' order;
raises at the first open position without a mark. -/
def marketValue (marks : String → Option ℚ) : List ((String × Product) × Book) → Except Exc ℚ
  | [] => .ok 0
  | ((instrumentKey, _), book) :: rest =>
    if book.quantity = 0 then marketValue marks rest
    else
      match marks instrumentKey with
      | none => .error (.keyError ("no mark for open position " ++ instrumentKey))
      | some mark => (marketValue marks rest).map ((book.quantity : ℚ) * mark + ·)

def equity (b : PositionBook) (marks : String → Option ℚ) : Except Exc ℚ :=
  (marketValue marks b.books.entries).map (b.cash + ·)

end PositionBook

end RakshaQuant
