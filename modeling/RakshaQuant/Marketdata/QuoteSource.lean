import Mathlib.Data.List.Sort
import RakshaQuant.Lib.Effect
import RakshaQuant.Marketdata.Validation

/-! The batched quote poller. A poll that brings data takes its quotes one by one and then says
which symbols went stale and which recovered; a poll that fails is told once for the whole feed.
What raises ends a poll where it stands. -/

namespace RakshaQuant

/-- `(now - exchange_ts).total_seconds()`. -/
def secondsBetween (earlier later : Instant) : ℚ := (later - earlier) / 1000000

def Quote.ageSeconds (q : Quote) (now : Instant) : ℚ := secondsBetween q.exchangeTs now

def RawQuote.withPrevClose (q : RawQuote) (prevClose : Option Double) : RawQuote :=
  { q with prevClose := prevClose }

/-- What the source emits; all of it is of one data source. -/
inductive SourceEvent
  | quoteRejected (instrumentKey reason : String) (raw : RawQuote)
  | feedStale (instrumentKeys : List String) (ageS : Option ℚ) (reason : String)
  | feedRecovered (instrumentKeys : List String) (staleForS : ℚ)

/-! ## Minute bars -/

/-- A row of the frame of a ticker; a volume or a close that is missing is NaN. -/
structure MinuteBar where
  ts : Instant
  aware : Bool
  close : Double
  volume : Double

/-- `int(volume) if math.isfinite(float(volume)) else 0`, of the sum with the NaNs as zeros. -/
def MinuteBar.dayVolume (rows : List MinuteBar) : ℤ :=
  if rows.any fun row => match row.volume with
    | .infinite _ => true
    | _ => false
  then 0
  else
    let total := (rows.map fun row => match row.volume with
      | .finite v => v
      | _ => 0).sum
    if 0 ≤ total then ⌊total⌋ else ⌈total⌉

/-- The last bar with a close of a ticker, if the frame has one. -/
def minuteQuote (frame : Dict String (List MinuteBar)) (ticker key : String) :
    Except Exc (Option RawQuote) :=
  match frame.get? ticker with
  | none => .ok none
  | some rows =>
    let sub := rows.filter fun row => row.close ≠ .nan
    match sub.getLast? with
    | none => .ok none
    | some last =>
      if !last.aware then
        .error (.valueError (ticker ++ ": Yahoo returned a naive timestamp; refusing to guess"))
      else
        .ok (some
          { instrumentKey := key, ltp := last.close, volumeCum := MinuteBar.dayVolume sub
            exchangeTs := last.ts, aware := last.aware, prevClose := none })

/-- One round of the loop of `parse_minute_frame`, over a ticker and its key. -/
def keepMinute (frame : Dict String (List MinuteBar)) (out : Dict String RawQuote)
    (e : String × String) : Except Exc (Dict String RawQuote) := do
  match ← minuteQuote frame e.1 e.2 with
  | none => return out
  | some quote => return out.set e.2 quote

/-- `parse_minute_frame`. -/
def parseMinuteFrame (byTicker : Dict String String) (frame : Dict String (List MinuteBar)) :
    Except Exc (Dict String RawQuote) :=
  byTicker.entries.foldlM (keepMinute frame) .empty

/-- What comes of a download. -/
inductive Fetch
  | stillRunning
  | timedOut
  | raised (name message : String)
  | frame (frame : Dict String (List MinuteBar))

/-! ## The source -/

structure QuoteSourceConfig where
  byTicker : Dict String String
  marketOpen : Instant → Bool
  timeout : ℚ
  staleAfter : ℚ

/-- `{x:.0f}`. -/
def wholeSeconds (x : ℚ) : String := toString (Decimal.roundHalfEven x)

/-- `tuple(sorted(...))` of a set. -/
def sortedSet (keys : List String) : List String := keys.dedup.insertionSort (· ≤ ·)

def QuoteSourceConfig.keys (c : QuoteSourceConfig) : List String := sortedSet c.byTicker.values

structure PollResult where
  ok : Bool
  quotes : Dict String Quote
  missing : List String
  rejected : List String
  error : Option String

structure QuoteSource where
  validator : QuoteValidator
  prevClose : Dict String Double
  failures : ℕ
  feedDownSince : Option Instant
  staleSince : Dict String Instant
  lastQuotes : Dict String Quote
  sink : List SourceEvent

namespace QuoteSource

def init (validator : QuoteValidator) : QuoteSource :=
  { validator, prevClose := .empty, failures := 0, feedDownSince := none, staleSince := .empty
    lastQuotes := .empty, sink := [] }

def emit (e : SourceEvent) (s : QuoteSource) : QuoteSource := { s with sink := s.sink ++ [e] }

/-- An event whose seconds are negative is not valid. -/
def emitStale (keys : List String) (ageS : Option ℚ) (reason : String) :
    EStateM Exc QuoteSource PUnit :=
  if ∃ age ∈ ageS, age < 0 then throw (.validationError "FeedStale")
  else modify (emit (.feedStale keys ageS reason))

def emitRecovered (keys : List String) (staleForS : ℚ) : EStateM Exc QuoteSource PUnit :=
  if staleForS < 0 then throw (.validationError "FeedRecovered")
  else modify (emit (.feedRecovered keys staleForS))

def setPrevCloses (closes : Dict String Double) (s : QuoteSource) : QuoteSource :=
  { s with prevClose := closes }

def staleKeys (s : QuoteSource) : List String := s.staleSince.keys

/-- `_failed`. -/
def failed (c : QuoteSourceConfig) (now : Instant) (error : String) :
    EStateM Exc QuoteSource PollResult := do
  modify fun s => { s with failures := s.failures + 1 }
  if (← get).feedDownSince.isNone then
    modify fun s => { s with feedDownSince := some now }
    emitStale c.keys none error
  return { ok := false, quotes := .empty, missing := [], rejected := [], error := some error }

/-- `_mark_feed_up`. -/
def markFeedUp (now : Instant) : EStateM Exc QuoteSource PUnit := do
  modify fun s => { s with failures := 0 }
  match (← get).feedDownSince with
  | none => return ⟨⟩
  | some since =>
    modify fun s => { s with feedDownSince := none }
    emitRecovered [] (secondsBetween since now)

/-- The quotes of a poll, one by one: those accepted by key, and the keys of those rejected. -/
def takeQuotes (now : Instant) : List (String × RawQuote) → Dict String Quote → List String →
    EStateM Exc QuoteSource (Dict String Quote × List String)
  | [], quotes, rejected => return (quotes, rejected)
  | (key, raw) :: rest, quotes, rejected => do
    let s ← get
    let item := raw.withPrevClose (s.prevClose.get? key)
    match s.validator.check item with
    | some reason =>
      modify (emit (.quoteRejected key reason item))
      takeQuotes now rest quotes (rejected ++ [key])
    | none =>
      match item.toQuote now with
      | .error e => throw e
      | .ok quote =>
        modify fun s => { s with validator := s.validator.accept quote }
        takeQuotes now rest (quotes.set key quote) rejected

/-- The keys that are stale now; off-hours, old quotes are expected. -/
def staleNow (c : QuoteSourceConfig) (now : Instant) (quotes : Dict String Quote)
    (missing : List String) : List String :=
  if !c.marketOpen now then missing
  else missing ++ (quotes.entries.filter fun e => c.staleAfter < e.2.ageSeconds now).map Prod.fst

def newlyStale (stale : List String) (s : QuoteSource) : List String :=
  sortedSet (stale.filter fun key => key ∉ s.staleSince.keys)

def recoveredKeys (stale : List String) (s : QuoteSource) : List String :=
  sortedSet (s.staleSince.keys.filter fun key => key ∉ stale)

/-- The longest of some times. -/
def longest (seconds : List ℚ) : ℚ := seconds.max?.getD 0

/-- One event for the symbols that went stale for one reason, if any did. -/
def reportStale (keys : List String) (ageS : Option ℚ) (reason : String) :
    EStateM Exc QuoteSource PUnit :=
  if keys = [] then return ⟨⟩ else emitStale keys ageS reason

/-- The symbols that recovered, if any did: told first, and then no longer stale. -/
def recover (now : Instant) (keys : List String) : EStateM Exc QuoteSource PUnit :=
  if keys = [] then return ⟨⟩
  else do
    let since := (← get).staleSince
    emitRecovered keys (longest (keys.filterMap fun key =>
      (since.get? key).map fun t => secondsBetween t now))
    modify fun s => { s with staleSince := keys.foldl Dict.pop s.staleSince }

/-- `_update_symbol_staleness`. -/
def updateSymbolStaleness (c : QuoteSourceConfig) (now : Instant) (quotes : Dict String Quote)
    (missing : List String) : EStateM Exc QuoteSource PUnit := do
  let stale := staleNow c now quotes missing
  let s ← get
  let newly := newlyStale stale s
  let recovered := recoveredKeys stale s
  let noData := newly.filter fun key => (quotes.get? key).isNone
  let tooOld := newly.filter fun key => (quotes.get? key).isSome
  reportStale noData none "no data"
  reportStale tooOld (some (longest (tooOld.filterMap fun key =>
      (quotes.get? key).map fun q => q.ageSeconds now)))
    ("older than " ++ wholeSeconds c.staleAfter ++ "s")
  modify fun s =>
    { s with staleSince := newly.foldl (fun since key => since.set key now) s.staleSince }
  recover now recovered

/-- `_accept`; the tape may raise when the quotes are written to it. -/
def accept (c : QuoteSourceConfig) (now : Instant) (raw : Dict String RawQuote)
    (tape : Option Exc) : EStateM Exc QuoteSource PollResult := do
  markFeedUp now
  let (quotes, rejected) ← takeQuotes now (raw.entries.insertionSort fun a b => a.1 ≤ b.1) .empty []
  let missing := sortedSet (c.byTicker.values.filter fun key => key ∉ raw.keys)
  updateSymbolStaleness c now quotes missing
  match tape with
  | some e => if quotes.keys ≠ [] then throw e
  | none => pure ⟨⟩
  modify fun s => { s with
    lastQuotes := quotes.entries.foldl (fun last e => last.set e.1 e.2) s.lastQuotes }
  return { ok := true, quotes, missing, rejected, error := none }

/-- `poll`. -/
def poll (c : QuoteSourceConfig) (now : Instant) (fetch : Fetch) (tape : Option Exc) :
    EStateM Exc QuoteSource PollResult :=
  match fetch with
  | .stillRunning => failed c now "previous download still running"
  | .timedOut => failed c now ("download timed out after " ++ wholeSeconds c.timeout ++ "s")
  | .raised name message => failed c now (name ++ ": " ++ message)
  | .frame frame =>
    match parseMinuteFrame c.byTicker frame with
    | .error e => failed c now (e.name ++ ": " ++ e.message)
    | .ok raw =>
      if raw.keys = [] then failed c now "no symbol returned data (rate-limited or down?)"
      else accept c now raw tape

end QuoteSource

end RakshaQuant
