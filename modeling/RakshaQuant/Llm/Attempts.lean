import RakshaQuant.Llm.Router

/-! What an attempt does to the books (the events, the ledger and the replies
that came), and when it raises. -/

namespace RakshaQuant

namespace Router

variable {α : Type} {config : RouterConfig} {request : LLMRequest α} {model : ModelSpec} {n : ℕ}
  {r r' r'' : Router}

/-! ## The books -/

/-- Breakers, pauses and stored replies may differ. -/
structure SameBooks (r r' : Router) : Prop where
  events : r'.events = r.events
  answers : r'.answers = r.answers
  ledger : r'.ledger = r.ledger

theorem SameBooks.refl (r : Router) : SameBooks r r := ⟨rfl, rfl, rfl⟩

theorem SameBooks.trans (h : SameBooks r r') (h' : SameBooks r' r'') : SameBooks r r'' :=
  ⟨h'.events.trans h.events, h'.answers.trans h.answers, h'.ledger.trans h.ledger⟩

theorem SameBooks.failed (config : RouterConfig) (spec : String) (now : Instant) (r : Router) :
    SameBooks r (r.failed config spec now) := ⟨rfl, rfl, rfl⟩

theorem SameBooks.pause (provider : String) (now : Instant) (seconds : Seconds) (r : Router) :
    SameBooks r (r.pause provider now seconds) := ⟨rfl, rfl, rfl⟩

theorem SameBooks.store (parsed : α) : SameBooks r (r.store config request model parsed) := by
  unfold Router.store
  split <;> exact ⟨rfl, rfl, rfl⟩

/-! ## Conditions -/

/-- The texts that an event must not leave empty. -/
structure Named (request : LLMRequest α) (model : ModelSpec) : Prop where
  role : request.role ≠ ""
  promptVersion : request.promptVersion ≠ ""
  provider : model.provider ≠ ""
  model : model.model ≠ ""

/-- The reset duration of every used-up window can be read. -/
def Readable (config : RouterConfig) (headers : Dict String String)
    (pairs : List (String × String)) : Prop :=
  ∀ pair ∈ pairs, headers.get? pair.1 = some "0" →
    ∃ seconds, config.unicode.durationS ((headers.get? pair.2).getD "") = .ok seconds

/-- No count of tokens is negative, and no cost is. -/
structure Countable (config : RouterConfig) (model : ModelSpec) (usage : Usage) : Prop where
  input : 0 ≤ usage.inputTokens
  output : 0 ≤ usage.outputTokens
  cacheRead : 0 ≤ usage.cacheReadTokens
  cacheWrite : 0 ≤ usage.cacheWriteTokens
  usd : ∀ cost ∈ config.pricing.costUsd model usage, 0 ≤ cost
  inr : ∀ cost ∈ toInr (config.pricing.costUsd model usage) config.usdInr, 0 ≤ cost

/-- An answer that the router can account for. -/
def Proper (config : RouterConfig) (model : ModelSpec) : Answer α → Prop
  | .reply reply => Readable config reply.headers rateHeaders ∧ Countable config model reply.usage
  | .llmError e => ∃ outcome : LLMOutcome, e.outcome = outcome.value
  | _ => True

/-! ## Recording -/

theorem Named.valid (h : Named request model) (config : RouterConfig) (n : ℕ) {latency : ℚ}
    (hlatency : 0 ≤ latency) {cost : Option ℚ} (hcost : ∀ c ∈ cost, 0 ≤ c) (hit : Bool)
    (outcome : LLMOutcome) (error : Option String) :
    ({ fields config request model n with
      latencyMs := latency
      costUsd := cost
      costInr := cost
      cacheHit := hit
      outcome := outcome
      error := error } : LLMFields).Valid :=
  ⟨h.role, h.provider, h.model, h.promptVersion, config.sha256_nonempty _, le_rfl, le_rfl, le_rfl,
    le_rfl, hlatency, hcost, hcost⟩

theorem Named.reply_valid_iff (h : Named request model) {usage : Usage} :
    (replyFields config request model n usage).Valid ↔ Countable config model usage := by
  constructor
  · intro hvalid
    exact ⟨hvalid.tokensIn, hvalid.tokensOut, hvalid.cacheReadTokens, hvalid.cacheWriteTokens,
      hvalid.costUsd, hvalid.costInr⟩
  · intro hcount
    exact ⟨h.role, h.provider, h.model, h.promptVersion, config.sha256_nonempty _, hcount.input,
      hcount.output, hcount.cacheRead, hcount.cacheWrite, (request.turn n).latency_nonneg,
      hcount.usd, hcount.inr⟩

theorem record_valid {now : Instant} {f : LLMFields} (h : f.Valid) :
    record now f r = .ok ⟨⟩ { r with events := r.events ++ [⟨f, now, h⟩] } := by
  unfold record
  rw [dif_pos h]
  rfl

theorem record_invalid {now : Instant} {f : LLMFields} (h : ¬f.Valid) :
    record now f r = .error (.validationError "LLMCall") r := by
  unfold record
  rw [dif_neg h]
  rfl

/-! ## Headers -/

theorem readRateHeaders_cases (config : RouterConfig) (provider : String) (now : Instant)
    (headers : Dict String String) (pairs : List (String × String)) (r : Router) :
    (∃ r', readRateHeaders config provider now headers pairs r = .ok ⟨⟩ r' ∧ SameBooks r r' ∧
      Readable config headers pairs) ∨
    (∃ e r', readRateHeaders config provider now headers pairs r = .error e r' ∧ SameBooks r r' ∧
      ¬Readable config headers pairs) := by
  induction pairs generalizing r with
  | nil => exact .inl ⟨r, rfl, .refl r, fun _ hpair => (nomatch hpair)⟩
  | cons pair rest ih =>
    obtain ⟨remaining, reset⟩ := pair
    -- the rest is read from a state with the same books
    have hrest (next : Router) (hnext : SameBooks r next)
        (hfirst : headers.get? remaining = some "0" →
          ∃ seconds, config.unicode.durationS ((headers.get? reset).getD "") = .ok seconds) :
        (∃ r', readRateHeaders config provider now headers rest next = .ok ⟨⟩ r' ∧
          SameBooks r r' ∧ Readable config headers ((remaining, reset) :: rest)) ∨
        (∃ e r', readRateHeaders config provider now headers rest next = .error e r' ∧
          SameBooks r r' ∧ ¬Readable config headers ((remaining, reset) :: rest)) := by
      rcases ih next with ⟨r', hok, hsame, hall⟩ | ⟨e, r', herror, hsame, hnot⟩
      · refine .inl ⟨r', hok, hnext.trans hsame, ?_⟩
        intro pair hpair
        rcases List.mem_cons.mp hpair with rfl | hpair
        · exact hfirst
        · exact hall pair hpair
      · refine .inr ⟨e, r', herror, hnext.trans hsame, ?_⟩
        intro hall
        exact hnot fun pair hpair => hall pair (List.mem_cons_of_mem _ hpair)
    rw [readRateHeaders]
    by_cases hused : headers.get? remaining = some "0"
    · rw [if_pos hused]
      cases hread : config.unicode.durationS ((headers.get? reset).getD "") with
      | error e =>
        refine .inr ⟨e, r, rfl, .refl r, ?_⟩
        intro hall
        obtain ⟨seconds, hok⟩ := hall _ List.mem_cons_self hused
        rw [hread] at hok
        cases hok
      | ok found =>
        cases found with
        | none => exact hrest r (.refl r) fun _ => ⟨_, hread⟩
        | some seconds =>
          exact hrest _ (.pause provider now seconds r) fun _ => ⟨_, hread⟩
    · rw [if_neg hused]
      exact hrest r (.refl r) fun hzero => absurd hzero hused

/-! ## An attempt -/

/-- One event tells of the attempt, with the reply if one came. -/
structure Recorded (config : RouterConfig) (request : LLMRequest α) (model : ModelSpec) (n : ℕ)
    (e : LLMCall) (came : List Answered) (r r' : Router) : Prop where
  events : r'.events = r.events ++ [e]
  answers : r'.answers = r.answers ++ came
  ledger : r'.ledger = r.ledger.charge request.role request.decisionId e.costInr
  about : e.provider = model.provider ∧ e.model = model.model ∧ e.attempt = n ∧
    e.role = request.role ∧ e.decisionId = request.decisionId
  tsUtc : e.tsUtc = (request.turn n).recorded
  reply : (came = [] ∧ (e.error ≠ none ∨ e.cacheHit = true) ∧
      (e.costInr = none ∨ e.costInr = some 0)) ∨
    ∃ reply, (request.turn n).answer = .reply reply ∧
      came = [⟨request.role, request.decisionId, model, reply.usage⟩] ∧
      e.error = none ∧ e.cacheHit = false ∧
      e.costUsd = config.pricing.costUsd model reply.usage ∧
      e.costInr = toInr (config.pricing.costUsd model reply.usage) config.usdInr

/-- It raised. The ledger may have been charged for a reply that cannot be recorded. -/
structure Raised (config : RouterConfig) (request : LLMRequest α) (model : ModelSpec) (n : ℕ)
    (r r' : Router) : Prop where
  events : r'.events = r.events
  ledger : r'.ledger = r.ledger ∨ ∃ reply, (request.turn n).answer = .reply reply ∧
    ¬(replyFields config request model n reply.usage).Valid ∧
    r'.ledger = r.ledger.charge request.role request.decisionId
      (toInr (config.pricing.costUsd model reply.usage) config.usdInr)

/-- Either it is recorded, and `P` holds, or it raised, and it does not. -/
def Settles (config : RouterConfig) (request : LLMRequest α) (model : ModelSpec) (n : ℕ)
    (P : Prop) (result : EStateM.Result Exc Router (Attempted α)) (r : Router) : Prop :=
  (P ∧ ∃ out e came r', result = .ok out r' ∧ Recorded config request model n e came r r') ∨
    (¬P ∧ ∃ e r', result = .error e r' ∧ Raised config request model n r r')

theorem Raised.of_same (h : SameBooks r r') : Raised config request model n r r' :=
  ⟨h.events, .inl h.ledger⟩

/-- A reply is recorded if the headers can be read and the event is valid. -/
theorem accept_settles {reply : ClientReply α} (hreply : (request.turn n).answer = .reply reply)
    (r : Router) :
    Settles config request model n (Readable config reply.headers rateHeaders ∧
      (replyFields config request model n reply.usage).Valid)
      (accept config request model n reply r) r := by
  unfold Settles accept
  rw [Effect.run_bind_ok (Effect.run_modify _ _)]
  rcases readRateHeaders_cases config model.provider (request.turn n).now reply.headers
      rateHeaders (r.answered request model reply.usage) with
    ⟨read, hok, hsame, hreadable⟩ | ⟨e, read, herror, hsame, hnot⟩
  · rw [Effect.run_bind_ok hok, Effect.run_bind_ok (Effect.run_modify _ _)]
    by_cases hvalid : (replyFields config request model n reply.usage).Valid
    · refine .inl ⟨⟨hreadable, hvalid⟩, ?_⟩
      rw [Effect.run_bind_ok (record_valid hvalid)]
      have hrecorded (last : Router)
          (hlast : SameBooks { read with
            ledger := read.ledger.charge request.role request.decisionId
              (toInr (config.pricing.costUsd model reply.usage) config.usdInr)
            events := read.events ++ [⟨replyFields config request model n reply.usage,
              (request.turn n).recorded, hvalid⟩] } last) :
          Recorded config request model n ⟨_, (request.turn n).recorded, hvalid⟩
            [⟨request.role, request.decisionId, model, reply.usage⟩] r last := by
        refine ⟨?_, ?_, ?_, ⟨rfl, rfl, rfl, rfl, rfl⟩, rfl,
          .inr ⟨reply, hreply, rfl, rfl, rfl, rfl, rfl⟩⟩
        · rw [hlast.events, hsame.events]
          rfl
        · rw [hlast.answers]
          exact hsame.answers
        · rw [hlast.ledger, hsame.ledger]
          rfl
      split
      · exact ⟨_, _, _, _, rfl, hrecorded _ (.store reply.parsed)⟩
      · exact ⟨_, _, _, _, rfl, hrecorded _ (.refl _)⟩
    · refine .inr ⟨fun h => hvalid h.2, ?_⟩
      rw [Effect.run_bind_error (record_invalid hvalid)]
      refine ⟨_, _, rfl, hsame.events, .inr ⟨reply, hreply, hvalid, ?_⟩⟩
      simp only
      rw [hsame.ledger]
      rfl
  · rw [Effect.run_bind_error herror]
    exact .inr ⟨fun h => hnot h.1, e, read, rfl, hsame.events, .inl hsame.ledger⟩

theorem Settles.congr {P Q : Prop} {result : EStateM.Result Exc Router (Attempted α)}
    (h : Settles config request model n P result r) (hPQ : P ↔ Q) :
    Settles config request model n Q result r := by
  rwa [← propext hPQ]

/-- What is recorded without a reply. -/
theorem record_settles (config : RouterConfig) {f : LLMFields} {next : Router} (hsame : SameBooks r next)
    (habout : f.provider = model.provider ∧ f.model = model.model ∧ f.attempt = n ∧
      f.role = request.role ∧ f.decisionId = request.decisionId)
    (hnone : f.error ≠ none ∨ f.cacheHit = true) (hfree : f.costInr = none ∨ f.costInr = some 0)
    (out : Attempted α) :
    Settles config request model n f.Valid
      ((record (request.turn n).recorded f >>= fun _ => pure out : M (Attempted α)) next) r := by
  by_cases hvalid : f.Valid
  · rw [Effect.run_bind_ok (record_valid hvalid)]
    refine .inl ⟨hvalid, _, ⟨f, _, hvalid⟩, [], _, rfl, ?_, ?_, ?_, habout, rfl,
      .inl ⟨rfl, hnone, hfree⟩⟩
    · simp only
      rw [hsame.events]
    · simp only
      rw [hsame.answers, List.append_nil]
    · simp only
      rw [hsame.ledger]
      rcases hfree with hcost | hcost <;> rw [hcost] <;> rfl
  · rw [Effect.run_bind_error (record_invalid hvalid)]
    exact .inr ⟨hvalid, _, next, rfl, .of_same hsame⟩

/-- Of an event without a reply only the names can be wrong. -/
theorem named_iff (config : RouterConfig) (request : LLMRequest α) (model : ModelSpec) (n : ℕ)
    {latency : ℚ} (hlatency : 0 ≤ latency) {cost : Option ℚ} (hcost : ∀ c ∈ cost, 0 ≤ c) (hit : Bool)
    (outcome : LLMOutcome) (error : Option String) :
    ({ fields config request model n with
      latencyMs := latency
      costUsd := cost
      costInr := cost
      cacheHit := hit
      outcome := outcome
      error := error } : LLMFields).Valid ↔ Named request model :=
  ⟨fun h => ⟨h.role, h.promptVersion, h.provider, h.model⟩,
    fun h => h.valid config n hlatency hcost hit outcome error⟩

theorem no_cost : ∀ c ∈ (none : Option ℚ), 0 ≤ c := by simp

theorem failure_settles (config : RouterConfig) (request : LLMRequest α) (model : ModelSpec) (n : ℕ)
    (outcome : LLMOutcome) (error returned : String) {next : Router} (hsame : SameBooks r next) :
    Settles config request model n (Named request model)
      (recordFailure config request model n outcome error returned next) r := by
  have hrecord := record_settles config (f := { fields config request model n with
      latencyMs := (request.turn n).latencyMs
      outcome := outcome
      error := some error }) hsame ⟨rfl, rfl, rfl, rfl, rfl⟩ (.inl (by simp)) (.inl rfl)
    (outcome, none, some (model.spec ++ ": " ++ returned))
  exact hrecord.congr (named_iff config request model n (request.turn n).latency_nonneg no_cost
    false outcome (some error))

/-- What the client answers is recorded if the event is named and the answer is proper. -/
theorem ask_settles (config : RouterConfig) (request : LLMRequest α) (model : ModelSpec) (n : ℕ)
    (r : Router) : Settles config request model n
      (Named request model ∧ Proper config model (request.turn n).answer)
      (ask config request model n r) r := by
  have hfailure (outcome : LLMOutcome) (error returned : String) :=
    failure_settles config request model n outcome error returned
      (.failed config model.spec (request.turn n).now r)
  unfold ask
  cases hanswer : (request.turn n).answer with
  | reply reply =>
    refine (accept_settles hanswer r).congr ?_
    constructor
    · intro ⟨hreadable, hvalid⟩
      have hnamed : Named request model :=
        ⟨hvalid.role, hvalid.promptVersion, hvalid.provider, hvalid.model⟩
      exact ⟨hnamed, hreadable, hnamed.reply_valid_iff.mp hvalid⟩
    · intro ⟨hnamed, hreadable, hcount⟩
      exact ⟨hreadable, hnamed.reply_valid_iff.mpr hcount⟩
  | timeout => exact (hfailure .timeout "timeout" "timeout").congr (by simp [Proper])
  | failed name message =>
    exact (hfailure .error (name ++ ": " ++ message) name).congr (by simp [Proper])
  | llmError e =>
    simp only
    cases hvalue : LLMOutcome.ofValue e.outcome with
    | none =>
      -- an outcome that is no outcome of the router's raises before anything is recorded
      refine .inr ⟨?_, _, r, rfl, .of_same (.refl r)⟩
      intro ⟨_, outcome, heq⟩
      rw [heq, LLMOutcome.ofValue_value] at hvalue
      cases hvalue
    | some outcome =>
      have hproper : Proper config model (.llmError e : Answer α) :=
        ⟨outcome, (by simpa using List.find?_some hvalue : outcome.value = e.outcome).symm⟩
      have hnamed : Named request model ↔
          Named request model ∧ Proper config model (.llmError e : Answer α) := by
        simp [hproper]
      have hrecord {next : Router} (hsame : SameBooks r next) :=
        (failure_settles config request model n outcome (String.ofList (e.message.toList.take 500))
          e.message hsame).congr hnamed
      cases e.rateLimited with
      | some seconds => exact hrecord (.pause model.provider (request.turn n).now _ r)
      | none =>
        simp only
        split
        · exact hrecord (.failed config model.spec (request.turn n).now r)
        · exact hrecord (.refl r)

/-- The client is asked: no reply is stored and nothing speaks against it. -/
def Asks (config : RouterConfig) (request : LLMRequest α) (model : ModelSpec) (n : ℕ)
    (r : Router) : Prop :=
  cached config request model r = none ∧ skips config request model (request.turn n).now r = none

/-- An attempt is recorded exactly when its event is named and the answer, if the
client is asked, is proper. -/
theorem attempt_settles (config : RouterConfig) (request : LLMRequest α) (model : ModelSpec) (n : ℕ)
    (r : Router) : Settles config request model n
      (Named request model ∧
        (Asks config request model n r → Proper config model (request.turn n).answer))
      (attempt config request model n r) r := by
  unfold attempt
  rw [Effect.run_bind_ok (Effect.run_get r)]
  cases hcached : cached config request model r with
  | some parsed =>
    have hrecord := record_settles config (f := { fields config request model n with
        costUsd := some 0
        costInr := some 0
        cacheHit := true }) (.refl r) ⟨rfl, rfl, rfl, rfl, rfl⟩ (.inr rfl) (.inr rfl)
      (.ok, some (parsed, 0, true), none)
    have hzero : ∀ c ∈ (some 0 : Option ℚ), 0 ≤ c := by simp
    refine (hrecord.congr (named_iff config request model n le_rfl hzero true .ok none)).congr ?_
    simp [Asks, hcached]
  | none =>
    simp only
    cases hskips : skips config request model (request.turn n).now r with
    | some skip =>
      obtain ⟨outcome, reason⟩ := skip
      have hrecord := record_settles config (f := { fields config request model n with
          outcome := outcome
          error := some reason }) (.refl r) ⟨rfl, rfl, rfl, rfl, rfl⟩ (.inl (by simp)) (.inl rfl)
        (outcome, none, some reason)
      refine (hrecord.congr (named_iff config request model n le_rfl no_cost false outcome
        (some reason))).congr ?_
      simp [Asks, hskips]
    | none =>
      refine (ask_settles config request model n r).congr ?_
      simp [Asks, hcached, hskips]

end Router

end RakshaQuant
