import RakshaQuant.Decision.Policy
import RakshaQuant.Domain.Events
import RakshaQuant.Lib.Effect
import RakshaQuant.Oms.Oms

/-! The decision engine's cycle. Signals are gathered over the universe and each is
recorded; the candidates are re-quoted; then every book in turn makes its proposals,
asks its advisor about each and gives what is left to its OMS.

The books' order paths and advisors act on a world of their own, in which other
tasks may also run while a call is awaited. What the cycle reads, the clock, the
market view and fresh ids, is given by the place in the cycle where it is read. -/

namespace RakshaQuant

inductive Disposition
  | shadowStrategy
  | regimeGated
  | policySkipped
  | vetoed
  | riskRejected
  | submitted
  | brokerRejected
  | unknown
deriving DecidableEq

namespace Disposition

def value : Disposition → String
  | shadowStrategy => "shadow_strategy"
  | regimeGated => "regime_gated"
  | policySkipped => "policy_skipped"
  | vetoed => "vetoed"
  | riskRejected => "risk_rejected"
  | submitted => "submitted"
  | brokerRejected => "broker_rejected"
  | unknown => "unknown"

/-- `_DISPOSITIONS`. -/
def ofStatus : SubmitStatus → Disposition
  | .submitted | .duplicate => submitted
  | .blocked => riskRejected
  | .rejected => brokerRejected
  | .unknown => unknown

/-- The dispositions that only an answer of the OMS gives. -/
def isAnswer : Disposition → Bool
  | submitted | brokerRejected | riskRejected | unknown => true
  | _ => false

theorem isAnswer_ofStatus (status : SubmitStatus) : (ofStatus status).isAnswer = true := by
  cases status <;> rfl

end Disposition

/-- What one book did with one signal. -/
structure SignalDisposition where
  signalId : String
  decisionId : String
  bookId : String
  instrumentKey : String
  strategy : String
  disposition : Disposition
  detail : String
  clientOrderId : Option String

namespace SignalDisposition

def of (bookId : String) (s : Signal) (disposition : Disposition) (detail : String)
    (clientOrderId : Option String) : SignalDisposition :=
  { signalId := s.signalId, decisionId := s.decisionId, bookId
    instrumentKey := s.instrumentKey, strategy := s.strategy, disposition, detail
    clientOrderId }

def origin (d : SignalDisposition) : Origin :=
  ⟨some d.signalId, d.decisionId, d.instrumentKey, d.strategy⟩

variable (bookId : String) (s : Signal) (disposition : Disposition) (detail : String)
  (clientOrderId : Option String)

@[simp] theorem origin_of : (of bookId s disposition detail clientOrderId).origin = s.origin := rfl

@[simp] theorem disposition_of :
    (of bookId s disposition detail clientOrderId).disposition = disposition := rfl

end SignalDisposition

/-- The events of a cycle. -/
inductive DecisionEvent
  | signalGenerated (cycleId : String) (signal : Signal)
  | orderIntentProposed (intent : OrderIntent)
  | signalDisposition (disposition : SignalDisposition)
  | alert (alert : Alert)

/-- A book's reviewer; no verdict means that it raised. -/
abbrev Advisor (σ : Type) := Proposal → Features → σ → Option Verdict × σ

/-- One book's order path. Book ids are alphanumeric, as the experiment's
configuration demands. -/
structure BookTarget (σ : Type) where
  bookId : String
  submit : OrderIntent → σ → Except Exc SubmitResult × σ
  expectEntry : OrderIntent → ℚ → Day → σ → σ
  advisor : Option (Advisor σ)
  plain : Plain bookId

structure DecisionConfig where
  enabled : List String
  shadow : List String
  regimeGates : Dict String (List Regime)

/-- `regime_allows`. -/
def regimeAllows (strategy : String) (regime : Option Regime)
    (gates : Dict String (List Regime)) : Bool :=
  match gates.get? strategy with
  | none => true
  | some allowed => match regime with
    | none => false
    | some label => label ∈ allowed

/-- Where a cycle reads the market view and the clock. -/
inductive Moment
  | signals (position : ℕ)
  | propose (bookId : String) (position : ℕ)

/-- What a cycle reads; ids are strictly increasing, so no two are the same. -/
structure Readings where
  daily : Moment → String → Option DailySeries
  isLagging : Moment → String → Bool
  requote : List String → Except Exc (Dict String Quote)
  now : Moment → Instant
  newId : ℕ → String
  newId_injective : Function.Injective newId

structure CycleResult where
  cycleId : String
  signals : List Signal
  skipped : Dict String String
  proposals : List Proposal
  vetoed : List Proposal
  submitted : List (Proposal × SubmitResult)

/-- A cycle under way: its local values, the events emitted, and for each book the
intents given to its OMS and what came of asking its advisor about an intent, which
is nothing when it has none or when it raised. -/
structure Cycle (σ : Type) where
  world : σ
  result : CycleResult
  features : Dict String Features
  candidates : List (Signal × Instrument)
  emitted : List DecisionEvent
  given : List (String × OrderIntent)
  reviews : List (String × OrderIntent × Option Verdict)

structure DecisionEngine (σ : Type) where
  config : DecisionConfig
  strategies : Registry
  policy : TradePolicyConfig
  books : List (BookTarget σ)
  distinct : (books.map BookTarget.bookId).Nodup

variable {σ : Type}

namespace Cycle

def start (cycleId : String) (world : σ) : Cycle σ :=
  { world, result := ⟨cycleId, [], .empty, [], [], []⟩, features := .empty, candidates := []
    emitted := [], given := [], reviews := [] }

def emit (event : DecisionEvent) (c : Cycle σ) : Cycle σ :=
  { c with emitted := c.emitted ++ [event] }

def skip (key why : String) (c : Cycle σ) : Cycle σ :=
  { c with result := { c.result with skipped := c.result.skipped.set key why } }

/-- `_dispose`. -/
def dispose (bookId : String) (s : Signal) (disposition : Disposition) (detail : String)
    (clientOrderId : Option String) (c : Cycle σ) : Cycle σ :=
  c.emit (.signalDisposition (.of bookId s disposition detail clientOrderId))

def warn (key message : String) (c : Cycle σ) : Cycle σ :=
  c.emit (.alert ⟨"WARNING", key, message⟩)

end Cycle

namespace DecisionEngine

/-- `_dispose_all`. -/
def disposeAll (e : DecisionEngine σ) (s : Signal) (disposition : Disposition)
    (detail : String) (c : Cycle σ) : Cycle σ :=
  e.books.foldl (fun c book => c.dispose book.bookId s disposition detail none) c

/-! ## Signals -/

/-- The guarded part of `_signals`. -/
def detected (e : DecisionEngine σ) (r : Readings) (position : ℕ) (series : DailySeries)
    (key : String) : Except Exc (Features × List Signal) := do
  let f ← computeFeatures series key
  let context : SignalContext :=
    { decisionId := r.newId (position + 1), generatedAt := r.now (.signals position)
      stopAtrMult := e.policy.kStopAtr, targetAtrMult := e.policy.kTargetAtr }
  return (f, ← generateSignals e.strategies f e.config.enabled e.config.shadow context)

/-- `_signals`: one bad series never stops the cycle. -/
def signals (e : DecisionEngine σ) (r : Readings) (position : ℕ) (instrument : Instrument)
    (c : Cycle σ) : Option (Features × List Signal) × Cycle σ :=
  let key := instrument.key
  match r.daily (.signals position) key with
  | none => (none, c.skip key "no_history")
  | some series =>
    if r.isLagging (.signals position) key then (none, c.skip key "lagging")
    else match e.detected r position series key with
      | .error exc => (none, (c.skip key ("error: " ++ exc.name)).warn "decision_symbol_failed"
          (key ++ ": " ++ exc.name ++ ": " ++ exc.message))
      | .ok found => (some found, c)

def regimeText (regime : Option Regime) : String :=
  "regime " ++ match regime with
    | none => "None"
    | some label => label.value

/-- What the cycle does with one signal: record it, and keep it as a candidate or
dispose of it for every book. -/
def consider (e : DecisionEngine σ) (regime : Option Regime) (instrument : Instrument)
    (c : Cycle σ) (signal : Signal) : Cycle σ :=
  let recorded := c.emit (.signalGenerated c.result.cycleId signal)
  let c := { recorded with result := { c.result with signals := c.result.signals ++ [signal] } }
  if signal.isShadow then e.disposeAll signal .shadowStrategy "shadow strategy" c
  else if regimeAllows signal.strategy regime e.config.regimeGates then
    { c with candidates := c.candidates ++ [(signal, instrument)] }
  else e.disposeAll signal .regimeGated (regimeText regime)
    (c.skip signal.signalId (regimeText regime))

/-- The loop over the universe, from a position in it. -/
def gather (e : DecisionEngine σ) (r : Readings) (regime : Option Regime) :
    ℕ → List Instrument → Cycle σ → Cycle σ
  | _, [], c => c
  | position, instrument :: rest, c =>
    match e.signals r position instrument c with
    | (none, c) => gather e r regime (position + 1) rest c
    | (some found, c) =>
      let noted := { c with features := c.features.set instrument.key found.1 }
      gather e r regime (position + 1) rest
        (found.2.foldl (e.consider regime instrument) noted)

/-- `_requote` of the candidates' instruments. -/
def requote (r : Readings) (c : Cycle σ) : Dict String Quote × Cycle σ :=
  match r.requote (Blocks.firsts id [] (c.candidates.map fun candidate => candidate.2.key)) with
  | .ok quotes => (quotes, c)
  | .error exc => (.empty, c.warn "decision_requote_failed" (exc.name ++ ": " ++ exc.message))

/-! ## One book -/

/-- `_propose`, without its event. -/
def proposal (e : DecisionEngine σ) (r : Readings) (quotes : Dict String Quote)
    (features : Dict String Features) (bookId : String) (position : ℕ) (signal : Signal)
    (instrument : Instrument) : Except Exc (Skipped ⊕ Proposal) :=
  let close := (r.daily (.propose bookId position) instrument.key).map DailySeries.lastClose
  let arrival := (quotes.get? instrument.key).map Quote.ltp
  match features.get? instrument.key with
  | none => .error (.keyError instrument.key)
  | some f =>
    e.policy.propose signal instrument bookId (close.getD 0) arrival
      (f.atr14.filter fun atr => atr ≠ 0) (r.now (.propose bookId position))

/-- A book's loop over the candidates, from a position in them. -/
def proposeAll (e : DecisionEngine σ) (r : Readings) (quotes : Dict String Quote)
    (bookId : String) : ℕ → List (Signal × Instrument) →
      EStateM Exc (Cycle σ) (List Proposal)
  | _, [] => return []
  | position, candidate :: rest => do
    let (signal, instrument) := candidate
    match e.proposal r quotes (← get).features bookId position signal instrument with
    | .error exc => throw exc
    | .ok (.inl skipped) =>
      modify fun c => (c.skip signal.signalId skipped.reason).dispose bookId signal
        .policySkipped skipped.reason none
      proposeAll e r quotes bookId (position + 1) rest
    | .ok (.inr proposal) =>
      modify (Cycle.emit (.orderIntentProposed proposal.intent))
      return proposal :: (← proposeAll e r quotes bookId (position + 1) rest)

/-- `_rank` in order: the highest score first, then by instrument and strategy. -/
def ranksBefore (p q : Proposal) : Bool :=
  let (score, score') := (p.signal.agreementScore, q.signal.agreementScore)
  let (key, key') := (p.intent.instrument.key, q.intent.instrument.key)
  score' < score || score = score' &&
    (key < key' || key = key' && !(q.intent.strategy < p.intent.strategy))

def ranked (proposals : List Proposal) : List Proposal :=
  proposals.insertionSort fun p q => ranksBefore p q

/-- `_vetoed`: an advisor's failure neither blocks nor approves anything. -/
def vetoed (book : BookTarget σ) (proposal : Proposal) (f : Features) :
    EStateM Exc (Cycle σ) Bool := do
  let c ← get
  let (verdict, world) : Option Verdict × σ := match book.advisor with
    | none => (none, c.world)
    | some review => review proposal f c.world
  set { c with world, reviews := c.reviews ++ [(book.bookId, proposal.intent, verdict)] }
  return verdict = some .veto

/-- `expect_entry` of the book's exit manager. -/
def expectEntry (book : BookTarget σ) (proposal : Proposal) : EStateM Exc (Cycle σ) PUnit :=
  if proposal.atr ≤ 0 then throw (.valueError "ATR must be positive")
  else modify fun c =>
    { c with
      world := book.expectEntry proposal.intent proposal.atr proposal.signal.barDate c.world }

/-- `book.oms.submit`. -/
def give (book : BookTarget σ) (intent : OrderIntent) :
    EStateM Exc (Cycle σ) SubmitResult := do
  let c ← get
  let answer := book.submit intent c.world
  set { c with world := answer.2, given := c.given ++ [(book.bookId, intent)] }
  match answer.1 with
  | .error exc => throw exc
  | .ok submitted => return submitted

/-- `_submit`. -/
def submit (book : BookTarget σ) (proposal : Proposal) (f : Features) :
    EStateM Exc (Cycle σ) PUnit := do
  if ← vetoed book proposal f then
    modify fun c =>
      let c := { c with result := { c.result with vetoed := c.result.vetoed ++ [proposal] } }
      c.dispose book.bookId proposal.signal .vetoed "advisor veto" none
  else
    expectEntry book proposal
    let submitted ← give book proposal.intent
    modify fun c =>
      let placed := c.result.submitted ++ [(proposal, submitted)]
      let c := { c with result := { c.result with submitted := placed } }
      c.dispose book.bookId proposal.signal (.ofStatus submitted.status)
        (String.ofList (submitted.message.toList.take 300))
        (submitted.order.map Order.clientOrderId)

def submitAll (book : BookTarget σ) : List Proposal → EStateM Exc (Cycle σ) PUnit
  | [] => return ⟨⟩
  | proposal :: rest => do
    match (← get).features.get? proposal.intent.instrument.key with
    | none => throw (.keyError proposal.intent.instrument.key)
    | some f => do
      submit book proposal f
      submitAll book rest

/-- One pass of the loop over the books. -/
def serve (e : DecisionEngine σ) (r : Readings) (quotes : Dict String Quote)
    (book : BookTarget σ) : EStateM Exc (Cycle σ) PUnit := do
  let proposals ← e.proposeAll r quotes book.bookId 0 (← get).candidates
  modify fun c =>
    { c with result := { c.result with proposals := c.result.proposals ++ proposals } }
  submitAll book (ranked proposals)

def serveAll (e : DecisionEngine σ) (r : Readings) (quotes : Dict String Quote) :
    List (BookTarget σ) → EStateM Exc (Cycle σ) PUnit
  | [] => return ⟨⟩
  | book :: rest => do
    e.serve r quotes book
    e.serveAll r quotes rest

/-- `run_cycle`; its result is a part of the cycle it ends in. -/
def runCycle (e : DecisionEngine σ) (r : Readings) (instruments : List Instrument)
    (regime : Option Regime) (world : σ) : EStateM.Result Exc (Cycle σ) PUnit :=
  let c := e.gather r regime 0 instruments (.start (r.newId 0) world)
  if c.candidates.isEmpty then .ok ⟨⟩ c
  else
    let quoted := requote r c
    e.serveAll r quoted.1 e.books quoted.2

end DecisionEngine

/-! ## What a cycle shows of each book -/

namespace Cycle

/-- The signals recorded. -/
def generated (c : Cycle σ) : List Signal :=
  c.emitted.filterMap fun event => match event with
    | .signalGenerated _ signal => some signal
    | _ => none

/-- The dispositions of one book. -/
def dispositionsOf (bookId : String) (c : Cycle σ) : List SignalDisposition :=
  c.emitted.filterMap fun event => match event with
    | .signalDisposition d => if d.bookId = bookId then some d else none
    | _ => none

/-- The intents given to one book's OMS, in order. -/
def givenTo (bookId : String) (c : Cycle σ) : List OrderIntent :=
  (c.given.filter fun entry => entry.1 = bookId).map Prod.snd

/-- The intents one book's advisor was asked about, with what came of it. -/
def reviewsOf (bookId : String) (c : Cycle σ) : List (OrderIntent × Option Verdict) :=
  (c.reviews.filter fun entry => entry.1 = bookId).map Prod.snd

end Cycle

end RakshaQuant
