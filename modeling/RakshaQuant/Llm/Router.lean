import RakshaQuant.Domain.Types
import RakshaQuant.Lib.Effect
import RakshaQuant.Lib.Numeral
import RakshaQuant.Llm.Durations
import RakshaQuant.Llm.Pricing

/-! The LLM router: a role's models are tried in order, each attempt is recorded
as an event, and what a reply cost is added to the ledger of the day. The clock's
readings and the clients' answers are inputs of a call. Texts are Unicode without
surrogates; a cancellation, which passes through everything, is not modelled. -/

namespace RakshaQuant

/-! ## Events -/

inductive LLMOutcome
  | ok
  | timeout
  | rateLimited
  | serverError
  | invalidOutput
  | refusal
  | budgetExceeded
  | breakerOpen
  | error
deriving DecidableEq

namespace LLMOutcome

def value : LLMOutcome → String
  | ok => "ok"
  | timeout => "timeout"
  | rateLimited => "rate_limited"
  | serverError => "server_error"
  | invalidOutput => "invalid_output"
  | refusal => "refusal"
  | budgetExceeded => "budget_exceeded"
  | breakerOpen => "breaker_open"
  | error => "error"

def all : List LLMOutcome :=
  [ok, timeout, rateLimited, serverError, invalidOutput, refusal, budgetExceeded, breakerOpen, error]

/-- `LLMOutcome(text)`; none is a `ValueError`. -/
def ofValue (text : String) : Option LLMOutcome := all.find? fun outcome => outcome.value = text

theorem ofValue_value (outcome : LLMOutcome) : ofValue outcome.value = some outcome := by
  cases outcome <;> decide

end LLMOutcome

/-- The fields of an `LLMCall`. -/
structure LLMFields where
  decisionId : Option String
  bookId : Option String
  role : String
  provider : String
  model : String
  attempt : ℕ
  promptVersion : String
  promptSha : String
  tokensIn : ℤ
  tokensOut : ℤ
  cacheReadTokens : ℤ
  cacheWriteTokens : ℤ
  latencyMs : ℚ
  costUsd : Option ℚ
  costInr : Option ℚ
  cacheHit : Bool
  outcome : LLMOutcome
  error : Option String
deriving DecidableEq

/-- What the model of the payload checks. -/
structure LLMFields.Valid (f : LLMFields) : Prop where
  role : f.role ≠ ""
  provider : f.provider ≠ ""
  model : f.model ≠ ""
  promptVersion : f.promptVersion ≠ ""
  promptSha : f.promptSha ≠ ""
  tokensIn : 0 ≤ f.tokensIn
  tokensOut : 0 ≤ f.tokensOut
  cacheReadTokens : 0 ≤ f.cacheReadTokens
  cacheWriteTokens : 0 ≤ f.cacheWriteTokens
  latencyMs : 0 ≤ f.latencyMs
  costUsd : ∀ cost ∈ f.costUsd, 0 ≤ cost
  costInr : ∀ cost ∈ f.costInr, 0 ≤ cost

theorem LLMFields.valid_iff (f : LLMFields) : f.Valid ↔
    (f.role ≠ "" ∧ f.provider ≠ "" ∧ f.model ≠ "" ∧ f.promptVersion ≠ "" ∧ f.promptSha ≠ "") ∧
      (0 ≤ f.tokensIn ∧ 0 ≤ f.tokensOut ∧ 0 ≤ f.cacheReadTokens ∧ 0 ≤ f.cacheWriteTokens) ∧
      0 ≤ f.latencyMs ∧ (∀ cost ∈ f.costUsd, 0 ≤ cost) ∧ ∀ cost ∈ f.costInr, 0 ≤ cost := by
  constructor
  · intro h
    exact ⟨⟨h.role, h.provider, h.model, h.promptVersion, h.promptSha⟩,
      ⟨h.tokensIn, h.tokensOut, h.cacheReadTokens, h.cacheWriteTokens⟩, h.latencyMs, h.costUsd,
      h.costInr⟩
  · intro ⟨⟨h1, h2, h3, h4, h5⟩, ⟨h6, h7, h8, h9⟩, h10, h11, h12⟩
    exact ⟨h1, h2, h3, h4, h5, h6, h7, h8, h9, h10, h11, h12⟩

instance (f : LLMFields) : Decidable f.Valid := decidable_of_iff _ f.valid_iff.symm

/-- A recorded attempt. -/
structure LLMCall extends LLMFields where
  tsUtc : Instant
  valid : toLLMFields.Valid

def LLMCall.istDate (e : LLMCall) : Day := e.tsUtc.istDate

/-! ## The ledger -/

/-- INR spent on a day, in total, per role and per decision. -/
structure SpendLedger where
  day : Day
  total : ℚ
  roles : Dict String ℚ
  decisions : Dict String ℚ
deriving DecidableEq

structure BudgetLimits where
  dailyInr : ℚ
  perRoleDailyInr : Dict String ℚ
  perDecisionInr : ℚ

namespace SpendLedger

def new (day : Day) : SpendLedger := ⟨day, 0, .empty, .empty⟩

def add (role : String) (decisionId : Option String) (inr : ℚ) (l : SpendLedger) : SpendLedger :=
  { l with
    total := l.total + inr
    roles := l.roles.set role ((l.roles.get? role).getD 0 + inr)
    decisions := match decisionId with
      | some d => if d = "" then l.decisions else
          l.decisions.set d ((l.decisions.get? d).getD 0 + inr)
      | none => l.decisions }

/-- `if inr:`, a known cost that is not zero is added. -/
def charge (role : String) (decisionId : Option String) (inr : Option ℚ) (l : SpendLedger) :
    SpendLedger :=
  match inr with
  | some cost => if cost = 0 then l else l.add role decisionId cost
  | none => l

def fromEvents (events : List LLMCall) (day : Day) : SpendLedger :=
  events.foldl (fun l e =>
    if e.istDate = day then l.charge e.role e.decisionId e.costInr else l) (new day)

def exceeded (role : String) (decisionId : Option String) (limits : BudgetLimits)
    (l : SpendLedger) : Option String :=
  let roleCap := (limits.perRoleDailyInr.get? role).getD 0
  if limits.dailyInr ≠ 0 ∧ limits.dailyInr ≤ l.total then
    some ("daily LLM budget Rs " ++ toString limits.dailyInr ++ " spent")
  else if roleCap ≠ 0 ∧ roleCap ≤ (l.roles.get? role).getD 0 then
    some ("daily " ++ role ++ " budget Rs " ++ toString roleCap ++ " spent")
  else match decisionId with
    | some d =>
      if d ≠ "" ∧ limits.perDecisionInr ≠ 0 ∧
          limits.perDecisionInr ≤ (l.decisions.get? d).getD 0 then
        some ("per-decision budget Rs " ++ toString limits.perDecisionInr ++ " spent")
      else none
    | none => none

end SpendLedger

/-! ## Calls -/

structure ChatMessage where
  role : String
  content : String

/-- A schema-validated reply; `α` are the models of all schemas. -/
structure ClientReply (α : Type) where
  parsed : α
  usage : Usage
  headers : Dict String String

/-- An `LLMError`: its class's outcome, and the `retry_after_s` of a rate limit. -/
structure LLMError where
  outcome : String
  message : String
  rateLimited : Option (Option Seconds)

/-- What comes of awaiting a client: a reply, no reply in time, or an exception. -/
inductive Answer (α : Type)
  | reply (reply : ClientReply α)
  | timeout
  | llmError (error : LLMError)
  | failed (name message : String)

/-- What an attempt meets: the clock when it begins and when it is recorded,
what the client answers and how long that took. -/
structure Turn (α : Type) where
  now : Instant
  answer : Answer α
  latencyMs : ℚ
  latency_nonneg : 0 ≤ latencyMs
  recorded : Instant

/-- Reading a stored reply back, checking one, and storing it. -/
structure Schema (α : Type) where
  validate : String → Option α
  isInstance : α → Bool
  dump : α → String

/-- The arguments of `complete`, the clock when it starts, and what its attempts meet. -/
structure LLMRequest (α : Type) where
  role : String
  messages : List ChatMessage
  schema : Schema α
  promptVersion : String
  decisionId : Option String
  bookId : Option String
  start : Instant
  turn : ℕ → Turn α

/-- The role's outcome: none when it is disabled. -/
structure LLMResult (α : Type) where
  role : String
  outcome : Option LLMOutcome
  parsed : Option α
  model : Option String
  attempts : ℕ
  costInr : ℚ
  cacheHit : Bool
  error : Option String

/-! ## The router -/

structure Breaker where
  failures : ℕ
  openUntil : Option Instant
deriving DecidableEq

structure RouterConfig where
  unicode : Unicode
  /-- `hashlib.sha256(text).hexdigest()`, 64 hexadecimal digits. -/
  sha256 : String → String
  sha256_nonempty : ∀ text, sha256 text ≠ ""
  roles : Dict String RoleConfig
  pricing : PricingTable
  usdInr : ℚ
  budgets : BudgetLimits
  breakerFailures : ℕ
  /-- In microseconds. -/
  breakerCooldown : ℤ
  caching : Bool

/-- A reply that a client gave for a request. -/
structure Answered where
  role : String
  decisionId : Option String
  model : ModelSpec
  usage : Usage
deriving DecidableEq

/-- The router, the stored replies, the events, and the replies that came. -/
structure Router where
  ledger : SpendLedger
  breakers : Dict String Breaker
  pausedUntil : Dict String Instant
  cache : Dict String String
  events : List LLMCall
  answers : List Answered

namespace Router

/-- Computations over the router. -/
abbrev M := EStateM Exc Router

/-! ### Texts -/

/-- `json.dumps` of a text, without escaping beyond ASCII. -/
def jsonChar (c : Char) : String :=
  if c = '"' then "\\\""
  else if c = '\\' then "\\\\"
  else if c = '\n' then "\\n"
  else if c = '\r' then "\\r"
  else if c = '\t' then "\\t"
  else if c.toNat = 8 then "\\b"
  else if c.toNat = 12 then "\\f"
  else if c.toNat < 32 then
    "\\u00" ++ String.ofList [Nat.digitChar (c.toNat / 16), Nat.digitChar (c.toNat % 16)]
  else c.toString

def jsonText (text : String) : String := "\"" ++ String.join (text.toList.map jsonChar) ++ "\""

/-- `json.dumps([[m.role, m.content] for m in messages])`. -/
def rendered (messages : List ChatMessage) : String :=
  let pairs := messages.map fun m => "[" ++ jsonText m.role ++ ", " ++ jsonText m.content ++ "]"
  "[" ++ ", ".intercalate pairs ++ "]"

/-- `%H:%M:%S` of an instant in UTC. -/
def hms (t : Instant) : String :=
  let s := ((t / 1000000) % 86400).toNat
  Numeral.padded 2 (s / 3600) ++ ":" ++ Numeral.padded 2 (s / 60 % 60) ++ ":" ++
    Numeral.padded 2 (s % 60)

/-! ### State -/

variable {α : Type} (config : RouterConfig)

/-- `_roll_day`. -/
def rollDay (now : Instant) (r : Router) : Router :=
  if r.ledger.day ≠ now.istDate then { r with ledger := .new now.istDate } else r

def breaker (spec : String) (r : Router) : Breaker := (r.breakers.get? spec).getD ⟨0, none⟩

/-- `_failed`. -/
def failed (spec : String) (now : Instant) (r : Router) : Router :=
  let b := r.breaker spec
  let failures := b.failures + 1
  let next : Breaker := if config.breakerFailures ≤ failures then
    ⟨0, some (now + config.breakerCooldown)⟩ else ⟨failures, b.openUntil⟩
  { r with breakers := r.breakers.set spec next }

/-- `max(1.0, min(seconds, 3600.0))`; NaN gives 1. -/
def pauseSeconds : Seconds → ℚ
  | .finite value => max 1 (min value 3600)
  | .infinite negative => if negative then 1 else 3600
  | .nan => 1

/-- `_pause`. -/
def pause (provider : String) (now : Instant) (seconds : Seconds) (r : Router) : Router :=
  let pausedTo := now + Decimal.roundHalfEven (pauseSeconds seconds * 1000000)
  let known := (r.pausedUntil.get? provider).getD pausedTo
  { r with pausedUntil := r.pausedUntil.set provider (max pausedTo known) }

/-- The headers that say how much of a window remains, and when it is reset. -/
def rateHeaders : List (String × String) :=
  [("x-ratelimit-remaining-requests", "x-ratelimit-reset-requests"),
    ("x-ratelimit-remaining-tokens", "x-ratelimit-reset-tokens")]

/-- `_read_rate_headers`, for some pairs of headers. -/
def readRateHeaders (provider : String) (now : Instant) (headers : Dict String String) :
    List (String × String) → M PUnit
  | [] => pure ⟨⟩
  | (remaining, reset) :: rest =>
    if headers.get? remaining = some "0" then do
      match config.unicode.durationS ((headers.get? reset).getD "") with
      | .error e => throw e
      | .ok none => readRateHeaders provider now headers rest
      | .ok (some seconds) => do
        modify (pause provider now seconds)
        readRateHeaders provider now headers rest
    else readRateHeaders provider now headers rest

/-! ### One attempt -/

/-- What `record` does not vary. -/
def fields (request : LLMRequest α) (model : ModelSpec) (attempt : ℕ) : LLMFields :=
  { decisionId := request.decisionId
    bookId := request.bookId
    role := request.role
    provider := model.provider
    model := model.model
    attempt := attempt
    promptVersion := request.promptVersion
    promptSha := config.sha256 (rendered request.messages)
    tokensIn := 0
    tokensOut := 0
    cacheReadTokens := 0
    cacheWriteTokens := 0
    latencyMs := 0
    costUsd := none
    costInr := none
    cacheHit := false
    outcome := .ok
    error := none }

/-- `record`: fields that are not valid are a `ValidationError`. -/
def record (now : Instant) (f : LLMFields) : M PUnit := do
  if h : f.Valid then
    modify fun r => { r with events := r.events ++ [⟨f, now, h⟩] }
  else throw (.validationError "LLMCall")

/-- What an attempt hands back: its outcome, the reply with its cost and whether
it was stored, and an error. -/
abbrev Attempted (α : Type) := LLMOutcome × Option (α × ℚ × Bool) × Option String

def openReason (model : ModelSpec) (now : Instant) (r : Router) : Option (LLMOutcome × String) :=
  ((r.breaker model.spec).openUntil.filter (now < ·)).map fun openUntil =>
    (.breakerOpen, "circuit open until " ++ hms openUntil)

def pausedReason (model : ModelSpec) (now : Instant) (r : Router) : Option (LLMOutcome × String) :=
  ((r.pausedUntil.get? model.provider).filter (now < ·)).map fun paused =>
    (.rateLimited, model.provider ++ " rate-limited until " ++ hms paused)

/-- A free model runs over the budget. -/
def budgetReason (request : LLMRequest α) (model : ModelSpec) (r : Router) :
    Option (LLMOutcome × String) :=
  let free := (config.pricing.price model).any fun price =>
    price.inputPerM = 0 ∧ price.outputPerM = 0
  if free then none
  else (r.ledger.exceeded request.role request.decisionId config.budgets).map fun spent =>
    (.budgetExceeded, spent)

/-- Why a model is not asked: its outcome and error. -/
def skips (request : LLMRequest α) (model : ModelSpec) (now : Instant) (r : Router) :
    Option (LLMOutcome × String) :=
  (openReason model now r).or ((pausedReason model now r).or (budgetReason config request model r))

def cacheKey (request : LLMRequest α) (model : ModelSpec) : String :=
  config.sha256 (request.promptVersion ++ "\n" ++ model.spec ++ "\n" ++ rendered request.messages)

/-- `_cached`. -/
def cached (request : LLMRequest α) (model : ModelSpec) (r : Router) : Option α :=
  if config.caching then (r.cache.get? (cacheKey config request model)).bind request.schema.validate
  else none

/-- `_store`. -/
def store (request : LLMRequest α) (model : ModelSpec) (parsed : α) (r : Router) : Router :=
  if config.caching then
    { r with cache := r.cache.set (cacheKey config request model) (request.schema.dump parsed) }
  else r

/-- `exc.retry_after_s or 60.0`. -/
def retryAfter : Option Seconds → Seconds
  | none => .finite 60
  | some seconds => if seconds = .finite 0 then .finite 60 else seconds

/-- A reply has come: the breaker is closed. -/
def answered (request : LLMRequest α) (model : ModelSpec) (usage : Usage) (r : Router) : Router :=
  { r with
    breakers := r.breakers.set model.spec ⟨0, none⟩
    answers := r.answers ++ [⟨request.role, request.decisionId, model, usage⟩] }

/-- What the event of a reply says. -/
def replyFields (request : LLMRequest α) (model : ModelSpec) (attempt : ℕ) (usage : Usage) :
    LLMFields :=
  let usd := config.pricing.costUsd model usage
  { fields config request model attempt with
    tokensIn := usage.inputTokens
    tokensOut := usage.outputTokens
    cacheReadTokens := usage.cacheReadTokens
    cacheWriteTokens := usage.cacheWriteTokens
    latencyMs := (request.turn attempt).latencyMs
    costUsd := usd
    costInr := toInr usd config.usdInr }

/-- A reply: it is accounted for, recorded and stored. -/
def accept (request : LLMRequest α) (model : ModelSpec) (attempt : ℕ) (reply : ClientReply α) :
    M (Attempted α) := do
  let turn := request.turn attempt
  modify (answered request model reply.usage)
  readRateHeaders config model.provider turn.now reply.headers rateHeaders
  let inr := toInr (config.pricing.costUsd model reply.usage) config.usdInr
  modify fun r => { r with ledger := r.ledger.charge request.role request.decisionId inr }
  record turn.recorded (replyFields config request model attempt reply.usage)
  if request.schema.isInstance reply.parsed then do
    modify (store config request model reply.parsed)
    pure (.ok, some (reply.parsed, inr.getD 0, false), none)
  else pure (.invalidOutput, none, some "client returned the wrong schema")

/-- An attempt that failed is recorded. -/
def recordFailure (request : LLMRequest α) (model : ModelSpec) (attempt : ℕ) (outcome : LLMOutcome)
    (error returned : String) : M (Attempted α) := do
  let turn := request.turn attempt
  record turn.recorded { fields config request model attempt with
    latencyMs := turn.latencyMs
    outcome := outcome
    error := some error }
  pure (outcome, none, some (model.spec ++ ": " ++ returned))

/-- The client is asked. -/
def ask (request : LLMRequest α) (model : ModelSpec) (attempt : ℕ) : M (Attempted α) := do
  let turn := request.turn attempt
  match turn.answer with
  | .reply reply => accept config request model attempt reply
  | .timeout => do
    modify (failed config model.spec turn.now)
    recordFailure config request model attempt .timeout "timeout" "timeout"
  | .llmError e =>
    match LLMOutcome.ofValue e.outcome with
    | none => throw (.valueError (e.outcome ++ " is not a valid LLMOutcome"))
    | some outcome => do
      match e.rateLimited with
      | some seconds => modify (pause model.provider turn.now (retryAfter seconds))
      | none =>
        if outcome ∈ [.serverError, .error, .timeout] then
          modify (failed config model.spec turn.now)
        else pure ⟨⟩
      recordFailure config request model attempt outcome (String.ofList (e.message.toList.take 500))
        e.message
  | .failed name message => do
    modify (failed config model.spec turn.now)
    recordFailure config request model attempt .error (name ++ ": " ++ message) name

/-- `_attempt`. -/
def attempt (request : LLMRequest α) (model : ModelSpec) (n : ℕ) : M (Attempted α) := do
  let turn := request.turn n
  let base := fields config request model n
  let r ← get
  match cached config request model r with
  | some parsed => do
    record turn.recorded { base with costUsd := some 0, costInr := some 0, cacheHit := true }
    pure (.ok, some (parsed, 0, true), none)
  | none =>
    match skips config request model turn.now r with
    | some (outcome, reason) => do
      record turn.recorded { base with outcome := outcome, error := some reason }
      pure (outcome, none, some reason)
    | none => ask config request model n

/-! ### A call -/

/-- A reply ends the call; anything else goes on to the next model. -/
def finish (request : LLMRequest α) (model : ModelSpec) (n : ℕ)
    (next : LLMOutcome → Option String → M (LLMResult α)) : Attempted α → M (LLMResult α)
  | (_, some (parsed, cost, hit), _) => pure
    { role := request.role, outcome := some .ok, parsed := some parsed, model := some model.spec
      attempts := n + 1, costInr := cost, cacheHit := hit, error := none }
  | (outcome, none, error) => next outcome error

/-- The `for` of `complete`, with the last outcome and error. -/
def tryChain (request : LLMRequest α) : List ModelSpec → ℕ → LLMOutcome → Option String →
    M (LLMResult α)
  | [], n, last, error => pure
    { role := request.role, outcome := some last, parsed := none, model := none, attempts := n
      costInr := 0, cacheHit := false, error := error }
  | model :: rest, n, _, _ => do
    let attempted ← attempt config request model n
    finish request model n (tryChain request rest (n + 1)) attempted

/-- The models of a role, none when it is not configured or disabled. -/
def chainOf (role : String) : List ModelSpec :=
  ((config.roles.get? role).map RoleConfig.chain).getD []

def complete (request : LLMRequest α) : M (LLMResult α) :=
  let chain := chainOf config request.role
  if chain = [] then pure
    { role := request.role, outcome := none, parsed := none, model := none, attempts := 0
      costInr := 0, cacheHit := false
      error := some ("role " ++ request.role ++ " is not configured") }
  else do
    modify (rollDay request.start)
    tryChain config request chain 0 .error none

end Router

end RakshaQuant
