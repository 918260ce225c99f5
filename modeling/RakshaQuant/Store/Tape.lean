import Mathlib.Data.List.Sort
import RakshaQuant.Domain.Types
import RakshaQuant.Lib.Dict
import RakshaQuant.Lib.Numeral

/-! The market tape: what the system received, kept for replay. A flush writes each
batch as a numbered part file, compaction merges the parts into one file stamped with
the highest number it absorbed. Every change to the directory is one of three atomic
steps; a crash leaves the files some number of steps made, and a new writer. -/

namespace RakshaQuant

inductive Timeframe
  | m1
  | m5
  | d1
deriving DecidableEq

def Timeframe.value : Timeframe → String
  | m1 => "1m"
  | m5 => "5m"
  | d1 => "1d"

/-- A quote with the fields that only the tape carries on. -/
structure RecordedQuote extends Quote where
  bid : Option ℚ
  ask : Option ℚ
  source : MarketDataSource
  isDelayed : Bool
  qualityFlags : List String
  instrumentKey_ne : instrumentKey ≠ ""
  bid_pos : ∀ p ∈ bid, 0 < p
  ask_pos : ∀ p ∈ ask, 0 < p

/-- An OHLCV bar keyed by session date. -/
structure Bar where
  instrumentKey : String
  timeframe : Timeframe
  sessionDate : Day
  «open» : ℚ
  high : ℚ
  low : ℚ
  close : ℚ
  volume : ℤ
  isSettled : Bool
  adjusted : Bool
  source : MarketDataSource
  instrumentKey_ne : instrumentKey ≠ ""
  open_pos : 0 < «open»
  high_pos : 0 < high
  low_pos : 0 < low
  close_pos : 0 < close
  volume_nonneg : 0 ≤ volume
  high_max : max (max «open» close) low ≤ high
  low_min : low ≤ min «open» close

namespace Tape

/-! ## Rows -/

inductive Stream
  | quotes
  | bars
deriving DecidableEq

def Stream.value : Stream → String
  | quotes => "quotes"
  | bars => "bars"

/-- The columns of `QUOTE_SCHEMA`; the timestamps are in UTC. -/
structure QuoteRow where
  instrumentKey : String
  ltp : ℚ
  bid : Option ℚ
  ask : Option ℚ
  prevClose : Option ℚ
  volumeCum : ℤ
  exchangeTs : Instant
  receiptTs : Instant
  source : String
  isDelayed : Bool
  qualityFlags : List String
deriving DecidableEq

/-- The columns of `BAR_SCHEMA`. -/
structure BarRow where
  instrumentKey : String
  timeframe : String
  sessionDate : Day
  «open» : ℚ
  high : ℚ
  low : ℚ
  close : ℚ
  volume : ℤ
  isSettled : Bool
  adjusted : Bool
  source : String
deriving DecidableEq

inductive Row
  | quote (q : QuoteRow)
  | bar (b : BarRow)
deriving DecidableEq

/-- `_quote_row`. -/
def quoteRow (q : RecordedQuote) : QuoteRow :=
  { instrumentKey := q.instrumentKey, ltp := q.ltp, bid := q.bid, ask := q.ask
    prevClose := q.prevClose, volumeCum := q.volumeCum, exchangeTs := q.exchangeTs
    receiptTs := q.receiptTs, source := q.source.value, isDelayed := q.isDelayed
    qualityFlags := q.qualityFlags }

/-- `_bar_row`. -/
def barRow (b : Bar) : BarRow :=
  { instrumentKey := b.instrumentKey, timeframe := b.timeframe.value
    sessionDate := b.sessionDate, «open» := b.open, high := b.high, low := b.low
    close := b.close, volume := b.volume, isSettled := b.isSettled, adjusted := b.adjusted
    source := b.source.value }

def sourceOf? (text : String) : Option MarketDataSource :=
  [MarketDataSource.yfinance, .dhan, .replay, .simulated, .synthetic].find? (·.value = text)

def timeframeOf? (text : String) : Option Timeframe :=
  [Timeframe.m1, .m5, .d1].find? (·.value = text)

/-- `Quote.model_validate`. -/
def validateQuote (row : QuoteRow) : Option RecordedQuote := do
  let source ← sourceOf? row.source
  if h : row.instrumentKey ≠ "" ∧ 0 < row.ltp ∧ (∀ p ∈ row.bid, 0 < p) ∧
      (∀ p ∈ row.ask, 0 < p) ∧ (∀ p ∈ row.prevClose, 0 < p) ∧ 0 ≤ row.volumeCum then
    some
      { instrumentKey := row.instrumentKey, ltp := row.ltp, prevClose := row.prevClose
        volumeCum := row.volumeCum, exchangeTs := row.exchangeTs, receiptTs := row.receiptTs
        bid := row.bid, ask := row.ask, source, isDelayed := row.isDelayed
        qualityFlags := row.qualityFlags, instrumentKey_ne := h.1, ltp_pos := h.2.1
        bid_pos := h.2.2.1, ask_pos := h.2.2.2.1, prevClose_pos := h.2.2.2.2.1
        volumeCum_nonneg := h.2.2.2.2.2 }
  else none

/-- `Bar.model_validate`, with `_ohlc_consistent`. -/
def validateBar (row : BarRow) : Option Bar := do
  let source ← sourceOf? row.source
  let timeframe ← timeframeOf? row.timeframe
  if h : row.instrumentKey ≠ "" ∧ 0 < row.open ∧ 0 < row.high ∧ 0 < row.low ∧ 0 < row.close ∧
      0 ≤ row.volume ∧ max (max row.open row.close) row.low ≤ row.high ∧
      row.low ≤ min row.open row.close then
    some
      { instrumentKey := row.instrumentKey, timeframe, sessionDate := row.sessionDate
        «open» := row.open, high := row.high, low := row.low, close := row.close
        volume := row.volume, isSettled := row.isSettled, adjusted := row.adjusted, source
        instrumentKey_ne := h.1, open_pos := h.2.1, high_pos := h.2.2.1, low_pos := h.2.2.2.1
        close_pos := h.2.2.2.2.1, volume_nonneg := h.2.2.2.2.2.1
        high_max := h.2.2.2.2.2.2.1, low_min := h.2.2.2.2.2.2.2 }
  else none

/-- A row of the quotes stream, read back. -/
def Row.readQuote : Row → Option RecordedQuote
  | quote q => validateQuote q
  | bar _ => none

def Row.readBar : Row → Option Bar
  | quote _ => none
  | bar b => validateBar b

@[simp] theorem sourceOf?_value (source : MarketDataSource) :
    sourceOf? source.value = some source := by
  cases source <;> decide

@[simp] theorem timeframeOf?_value (timeframe : Timeframe) :
    timeframeOf? timeframe.value = some timeframe := by
  cases timeframe <;> decide

/-- What is validated was valid when it was written. -/
theorem validateQuote_quoteRow (q : RecordedQuote) : validateQuote (quoteRow q) = some q := by
  have hvalid := And.intro q.instrumentKey_ne (And.intro q.ltp_pos (And.intro q.bid_pos
    (And.intro q.ask_pos (And.intro q.prevClose_pos q.volumeCum_nonneg))))
  have hsource : sourceOf? (quoteRow q).source = some q.source := sourceOf?_value q.source
  rw [validateQuote, hsource]
  exact dif_pos hvalid

theorem validateBar_barRow (b : Bar) : validateBar (barRow b) = some b := by
  have hvalid := And.intro b.instrumentKey_ne (And.intro b.open_pos (And.intro b.high_pos
    (And.intro b.low_pos (And.intro b.close_pos (And.intro b.volume_nonneg
      (And.intro b.high_max b.low_min))))))
  have hsource : sourceOf? (barRow b).source = some b.source := sourceOf?_value b.source
  have htimeframe : timeframeOf? (barRow b).timeframe = some b.timeframe :=
    timeframeOf?_value b.timeframe
  rw [validateBar, hsource, htimeframe]
  exact dif_pos hvalid

/-! ## Files -/

/-- A stream of a day: where its rows go. -/
abbrev Key := Day × Stream

/-- The directory of a day and a name in it. -/
abbrev Path := Day × String

/-- A Parquet file: its rows, and the stamp of a compacted one. -/
structure File where
  rows : List Row
  maxPart : Option ℕ
deriving DecidableEq

abbrev Files := Dict Path File

def partName (stream : Stream) (number : ℕ) : String :=
  stream.value ++ ".part-" ++ Numeral.padded 6 number ++ ".parquet"

def compactedName (stream : Stream) : String := stream.value ++ ".parquet"

/-- The six digits of a part's name, for the stream it is a part of. -/
def digitsOf (stream : Stream) (name : String) : Option (List Char) := do
  let rest ← (stream.value ++ ".part-").toList.isPrefixOf? name.toList
  let digits ← ".parquet".toList.isSuffixOf? rest
  if digits.length = 6 ∧ digits.all Char.isDigit then some digits else none

/-- `_PART.match` on a file's name, when it names `stream`. -/
def partNumber (stream : Stream) (name : String) : Option ℕ :=
  (digitsOf stream name).map fun digits => Nat.ofDigitChars 10 digits 0

/-- A part of `key` among the files: its number and its name. -/
def partOf (key : Key) (path : Path) : Option (ℕ × String) :=
  if path.1 = key.1 then (partNumber key.2 path.2).map fun number => (number, path.2) else none

def byNumber (a b : ℕ × String) : Prop := a.1 ≤ b.1

instance : DecidableRel byNumber := fun a b => inferInstanceAs (Decidable (a.1 ≤ b.1))

/-- `_all_parts`. -/
def allParts (files : Files) (key : Key) : List (ℕ × String) :=
  (files.keys.filterMap (partOf key)).insertionSort byNumber

/-- `_compacted_max_part`. -/
def compactedMaxPart (files : Files) (key : Key) : ℕ :=
  match files.get? (key.1, compactedName key.2) with
  | none => 0
  | some file => file.maxPart.getD 0

/-- `_live_parts`: parts not yet absorbed by the compacted file. -/
def liveParts (files : Files) (key : Key) : List (ℕ × String) :=
  (allParts files key).filter fun part => compactedMaxPart files key < part.1

/-- The number of the last part of a sorted list. -/
def lastNumber (parts : List (ℕ × String)) : ℕ := (parts.getLast?.map Prod.fst).getD 0

/-- `_next_part`. -/
def nextPart (files : Files) (key : Key) : ℕ :=
  max (lastNumber (allParts files key)) (compactedMaxPart files key) + 1

/-- The rows of a file, none when it is not there. -/
def rowsAt (files : Files) (path : Path) : List Row :=
  match files.get? path with
  | none => []
  | some file => file.rows

/-- `_read_stream`. -/
def readStream (files : Files) (key : Key) : List Row :=
  rowsAt files (key.1, compactedName key.2) ++
    (liveParts files key).flatMap fun part => rowsAt files (key.1, part.2)

/-- `read_quotes`; none when a row does not validate. -/
def readQuotes (files : Files) (day : Day) : Option (List RecordedQuote) :=
  (readStream files (day, .quotes)).mapM Row.readQuote

/-- `read_bars`. -/
def readBars (files : Files) (day : Day) : Option (List Bar) :=
  (readStream files (day, .bars)).mapM Row.readBar

/-! ## Atomic steps -/

inductive FileOp
  | write (path : Path) (file : File)
  | replace (source target : Path)
  | unlink (path : Path)
deriving DecidableEq

def FileOp.apply (files : Files) : FileOp → Files
  | write path file => files.set path file
  | replace source target =>
    match files.get? source with
    | none => files
    | some file => (files.pop source).set target file
  | unlink path => files.pop path

def applyAll (ops : List FileOp) (files : Files) : Files := ops.foldl FileOp.apply files

/-- `_write_atomic`. -/
def writeAtomic (file : File) (path : Path) : List FileOp :=
  let tmp := (path.1, path.2 ++ ".tmp")
  [.write tmp file, .replace tmp path]

/-! ## The writer -/

abbrev Buffers := Dict Key (List Row)

/-- The rows a writer has for `key`. -/
def buffered (buffers : Buffers) (key : Key) : List Row := (buffers.get? key).getD []

def extend (buffers : Buffers) (key : Key) (rows : List Row) : Buffers :=
  buffers.set key (buffered buffers key ++ rows)

def addQuotes (quotes : List RecordedQuote) (buffers : Buffers) : Buffers :=
  quotes.foldl (fun buffers q =>
    extend buffers (q.receiptTs.istDate, .quotes) [.quote (quoteRow q)]) buffers

def addBars (bars : List Bar) (recordedOn : Day) (buffers : Buffers) : Buffers :=
  extend buffers (recordedOn, .bars) (bars.map fun b => .bar (barRow b))

/-- The place of a stream's name among the names: `bars` comes before `quotes`. -/
def Stream.rank : Stream → ℕ
  | bars => 0
  | quotes => 1

/-- The order of the keys: by day, then by the stream's name. -/
def keyLe (a b : Key × List Row) : Prop :=
  a.1.1 < b.1.1 ∨ a.1.1 = b.1.1 ∧ a.1.2.rank ≤ b.1.2.rank

instance : DecidableRel keyLe := fun a b =>
  inferInstanceAs (Decidable (a.1.1 < b.1.1 ∨ a.1.1 = b.1.1 ∧ a.1.2.rank ≤ b.1.2.rank))

/-- The steps of `flush` over the buffers in their order; each part is numbered by the
files as they are then. -/
def flushOps : List (Key × List Row) → Files → List FileOp
  | [], _ => []
  | (key, rows) :: rest, files =>
    if rows = [] then flushOps rest files
    else
      let ops := writeAtomic ⟨rows, none⟩ (key.1, partName key.2 (nextPart files key))
      ops ++ flushOps rest (applyAll ops files)

/-- The steps of `compact` for one stream. -/
def compactStream (key : Key) (files : Files) : List FileOp :=
  let parts := liveParts files key
  if parts = [] then []
  else
    let merged : File := ⟨readStream files key, some (lastNumber parts)⟩
    writeAtomic merged (key.1, compactedName key.2) ++
      parts.map fun part => .unlink (key.1, part.2)

/-- The steps of `compact`. -/
def compactOps (day : Day) (files : Files) : List FileOp :=
  let ops := compactStream (day, .quotes) files
  ops ++ compactStream (day, .bars) (applyAll ops files)

end Tape

/-! ## Runs -/

/-- The tape directory and the buffers of the writer at work. -/
structure Tape where
  files : Tape.Files
  buffers : Tape.Buffers

namespace Tape

/-- A call of the writer. A `cut` is the number of steps after which the process died
in the call, and `crash` is a death between two calls; then a new writer begins. -/
inductive Action
  | addQuotes (quotes : List RecordedQuote)
  | addBars (bars : List Bar) (recordedOn : Day)
  | flush (cut : Option ℕ)
  | compact (day : Day) (cut : Option ℕ)
  | crash

/-- The steps that are made before the cut. -/
def cutAt (cut : Option ℕ) (ops : List FileOp) : List FileOp :=
  match cut with
  | none => ops
  | some n => ops.take n

/-- The buffers a writer has after a call; a new writer has none. -/
def keep (cut : Option ℕ) (buffers : Buffers) : Buffers :=
  match cut with
  | none => buffers
  | some _ => .empty

/-- The steps an action makes on the directory. -/
def ops (tape : Tape) : Action → List FileOp
  | .addQuotes _ => []
  | .addBars _ _ => []
  | .flush cut => cutAt cut (flushOps (tape.buffers.entries.insertionSort keyLe) tape.files)
  | .compact day cut => cutAt cut (compactOps day tape.files)
  | .crash => []

def buffersAfter (tape : Tape) : Action → Buffers
  | .addQuotes quotes => Tape.addQuotes quotes tape.buffers
  | .addBars bars recordedOn => Tape.addBars bars recordedOn tape.buffers
  | .flush _ => .empty
  | .compact _ cut => keep cut tape.buffers
  | .crash => .empty

def step (tape : Tape) (a : Action) : Tape :=
  ⟨applyAll (tape.ops a) tape.files, tape.buffersAfter a⟩

def run (actions : List Action) (tape : Tape) : Tape := actions.foldl step tape

/-- No files, and a new writer. -/
def init : Tape := ⟨.empty, .empty⟩

/-! ## Accounts -/

/-- Whether a step puts a part of `key` in its place. -/
def FileOp.isPart (key : Key) : FileOp → Bool
  | .replace _ target =>
    target.1 = key.1 ∧ (key.2.value ++ ".part-").toList.isPrefixOf target.2.toList
  | _ => false

/-- The parts of `key` a run writes. -/
def partsWritten (key : Key) : List Action → Tape → ℕ
  | [], _ => 0
  | a :: rest, tape =>
    (tape.ops a).countP (FileOp.isPart key) + partsWritten key rest (tape.step a)

/-- What was added since the last flush or crash, and the batch of each flush, with
whether the flush finished. -/
structure Account (β : Type*) where
  pending : List β
  batches : List (Bool × List β)

/-- The account of what `added` reads off the actions. -/
def Account.step {β : Type*} (added : Action → List β) (account : Account β) :
    Action → Account β
  | .flush cut =>
    ⟨[], account.batches ++
      (if account.pending.isEmpty then [] else [(cut.isNone, account.pending)])⟩
  | .compact _ (some _) => ⟨[], account.batches⟩
  | .crash => ⟨[], account.batches⟩
  | a => ⟨account.pending ++ added a, account.batches⟩

def account {β : Type*} (added : Action → List β) (actions : List Action) : Account β :=
  actions.foldl (Account.step added) ⟨[], []⟩

/-- The quotes received on `day` that an action adds. -/
def quotesAdded (day : Day) : Action → List RecordedQuote
  | .addQuotes quotes => quotes.filter fun q => q.receiptTs.istDate = day
  | _ => []

/-- The bars recorded on `day` that an action adds. -/
def barsAdded (day : Day) : Action → List Bar
  | .addBars bars recordedOn => if recordedOn = day then bars else []
  | _ => []

end Tape

end RakshaQuant
