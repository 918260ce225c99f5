import RakshaQuant.Llm.Attempts

/-! A call returns and accounts for every reply when the answers are proper. The
ledger that is rebuilt from the events is the live one when what a call costs is
recorded on the day the call began. -/

namespace RakshaQuant

/-! ## The ledger -/

namespace SpendLedger

/-- A known cost that is not zero. -/
def Costs (inr : Option ℚ) : Prop := ∃ cost, inr = some cost ∧ cost ≠ 0

variable (role : String) (decisionId : Option String) {inr : Option ℚ} (l : SpendLedger)

theorem charge_of_not_costs (h : ¬Costs inr) : l.charge role decisionId inr = l := by
  cases inr with
  | none => rfl
  | some cost =>
    have hzero : cost = 0 := by
      by_contra hne
      exact h ⟨cost, rfl, hne⟩
    rw [charge, if_pos hzero]

@[simp] theorem charge_day (inr : Option ℚ) : (l.charge role decisionId inr).day = l.day := by
  unfold charge
  split
  · split <;> rfl
  · rfl

/-- The events of other days do not count. -/
theorem fromEvents_eq_new {events : List LLMCall} {day : Day}
    (h : ∀ e ∈ events, e.istDate ≠ day ∨ ¬Costs e.costInr) : fromEvents events day = new day := by
  unfold fromEvents
  generalize new day = start
  induction events generalizing start with
  | nil => rfl
  | cons e rest ih =>
    rw [List.foldl_cons]
    have hfirst : (if e.istDate = day then start.charge e.role e.decisionId e.costInr else start) =
        start := by
      rcases h e List.mem_cons_self with hday | hfree
      · rw [if_neg hday]
      · rw [charge_of_not_costs _ _ _ hfree, ite_self]
    rw [hfirst]
    exact ih (fun e' he' => h e' (List.mem_cons_of_mem _ he')) start

theorem fromEvents_concat (events : List LLMCall) (e : LLMCall) (day : Day) :
    fromEvents (events ++ [e]) day =
      if e.istDate = day then (fromEvents events day).charge e.role e.decisionId e.costInr
      else fromEvents events day := by
  unfold fromEvents
  rw [List.foldl_append, List.foldl_cons, List.foldl_nil]

@[simp] theorem fromEvents_day (events : List LLMCall) (day : Day) :
    (fromEvents events day).day = day := by
  induction events using List.reverseRecOn with
  | nil => rfl
  | append_singleton events e ih =>
    rw [fromEvents_concat]
    split
    · rw [charge_day, ih]
    · exact ih

end SpendLedger

/-- The event tells of a reply that came. -/
def LLMCall.ofReply (e : LLMCall) : Bool := e.error.isNone && !e.cacheHit

/-- What a reply cost, in USD and INR. -/
def Answered.costs (config : RouterConfig) (a : Answered) : Option ℚ × Option ℚ :=
  let usd := config.pricing.costUsd a.model a.usage
  (usd, toInr usd config.usdInr)

namespace Router

variable {α : Type} {config : RouterConfig} {request : LLMRequest α} {model : ModelSpec} {n : ℕ}
  {r r' : Router}

/-! ## A call accounts for its replies -/

/-- Every model's event can be named, and every answer that the models can give is proper. -/
def AllProper (config : RouterConfig) (request : LLMRequest α) : Prop :=
  ∀ n model, (chainOf config request.role)[n]? = some model →
    Named request model ∧ Proper config model (request.turn n).answer

/-- Where the attempts of a call start. -/
def opening (config : RouterConfig) (request : LLMRequest α) (r : Router) : Router :=
  if chainOf config request.role = [] then r else r.rollDay request.start

/-- The ledger after some replies. -/
def charged (config : RouterConfig) (came : List Answered) (l : SpendLedger) : SpendLedger :=
  came.foldl (fun l a => l.charge a.role a.decisionId (a.costs config).2) l

/-- Some attempts at a chain of models from number `n` on: one event for each
model, and each reply that came is in its event and in the ledger. -/
structure Accounted (config : RouterConfig) (tried : List ModelSpec) (n : ℕ)
    (emitted : List LLMCall) (came : List Answered) (r r' : Router) : Prop where
  events : r'.events = r.events ++ emitted
  answers : r'.answers = r.answers ++ came
  one : emitted.map (fun e => (e.attempt, e.provider, e.model)) =
    (tried.zipIdx n).map fun m => (m.2, m.1.provider, m.1.model)
  replies : (emitted.filter LLMCall.ofReply).map (fun e => (e.costUsd, e.costInr)) =
    came.map (Answered.costs config)
  ledger : r'.ledger = charged config came r.ledger

theorem Recorded.accounted {e : LLMCall} {came : List Answered}
    (h : Recorded config request model n e came r r') :
    Accounted config [model] n [e] came r r' := by
  obtain ⟨hprovider, hmodel, hattempt, -, -⟩ := h.about
  refine ⟨h.events, h.answers, by simp [hprovider, hmodel, hattempt], ?_, ?_⟩
  · rcases h.reply with ⟨rfl, hnone, -⟩ | ⟨reply, -, rfl, herror, hhit, husd, hinr⟩
    · have hof : e.ofReply = false := by
        rcases hnone with herror | hhit
        · cases herr : e.error with
          | none => exact absurd herr herror
          | some text => simp [LLMCall.ofReply, herr]
        · simp [LLMCall.ofReply, hhit]
      simp [hof]
    · have hof : e.ofReply = true := by simp [LLMCall.ofReply, herror, hhit]
      simp [hof, husd, hinr, Answered.costs]
  · rw [h.ledger]
    rcases h.reply with ⟨rfl, -, hfree⟩ | ⟨reply, -, rfl, -, -, -, hinr⟩
    · rcases hfree with hcost | hcost <;> rw [hcost] <;> rfl
    · rw [hinr]
      rfl

theorem Accounted.trans {tried more : List ModelSpec} {events events' : List LLMCall}
    {came came' : List Answered} {mid : Router}
    (h : Accounted config tried n events came r mid)
    (h' : Accounted config more (n + tried.length) events' came' mid r') :
    Accounted config (tried ++ more) n (events ++ events') (came ++ came') r r' where
  events := by rw [h'.events, h.events, List.append_assoc]
  answers := by rw [h'.answers, h.answers, List.append_assoc]
  one := by rw [List.map_append, h.one, h'.one, List.zipIdx_append, List.map_append]
  replies := by
    rw [List.filter_append, List.map_append, h.replies, h'.replies, List.map_append]
  ledger := by rw [h'.ledger, h.ledger, charged, charged, charged, List.foldl_append]

theorem tryChain_accounts {chain : List ModelSpec}
    (hproper : ∀ k model, chain[k]? = some model →
      Named request model ∧ Proper config model (request.turn (n + k)).answer)
    (last : LLMOutcome) (error : Option String) (r : Router) :
    ∃ result r' tried events came, tryChain config request chain n last error r = .ok result r' ∧
      tried ≤ chain.length ∧ result.attempts = n + tried ∧
      Accounted config (chain.take tried) n events came r r' := by
  induction chain generalizing n last error r with
  | nil => exact ⟨_, r, 0, [], [], rfl, le_rfl, rfl, by simp, by simp, rfl, rfl, rfl⟩
  | cons model rest ih =>
    obtain ⟨hnamed, hanswer⟩ := hproper 0 model rfl
    rcases attempt_settles config request model n r with
      ⟨-, out, e, came, mid, hok, hrecorded⟩ | ⟨hnot, -⟩
    · have hfirst := hrecorded.accounted
      rw [tryChain, Effect.run_bind_ok hok]
      obtain ⟨outcome, result, error'⟩ := out
      cases result with
      | some reply =>
        exact ⟨_, mid, 1, [e], came, rfl, by simp, rfl, by simpa using hfirst⟩
      | none =>
        obtain ⟨result, r', tried, events, came', hrest, hle, hattempts, haccounted⟩ :=
          ih (n := n + 1) (fun k model' hk => by
            have hnext := hproper (k + 1) model' (by simpa using hk)
            rwa [show n + (k + 1) = n + 1 + k by omega] at hnext) outcome error' mid
        refine ⟨result, r', tried + 1, [e] ++ events, came ++ came', hrest, ?_, ?_, ?_⟩
        · simp only [List.length_cons]
          omega
        · omega
        · have hboth : Accounted config ([model] ++ rest.take tried) n _ _ r r' :=
            hfirst.trans (by simpa using haccounted)
          simpa using hboth
    · exact absurd ⟨hnamed, fun _ => hanswer⟩ hnot

/-- A call returns, whatever state the router is in, with one event for each
model that it attempted. Each reply that came is in an event with its cost, and
a known cost is added to the ledger of the day. -/
theorem complete_accounts (config : RouterConfig) (request : LLMRequest α)
    (hproper : AllProper config request) (r : Router) :
    ∃ result r' events came, complete config request r = .ok result r' ∧
      Accounted config ((chainOf config request.role).take result.attempts) 0 events came
        (opening config request r) r' := by
  unfold complete opening
  by_cases hchain : chainOf config request.role = []
  · simp only [if_pos hchain]
    exact ⟨_, r, [], [], rfl, by simp, by simp, rfl, rfl, rfl⟩
  · simp only [if_neg hchain]
    rw [Effect.run_bind_ok (Effect.run_modify _ _)]
    obtain ⟨result, r', tried, events, came, hok, -, hattempts, haccounted⟩ :=
      tryChain_accounts (n := 0) (fun k model hk => by simpa using hproper k model hk) .error none
        (r.rollDay request.start)
    rw [Nat.zero_add] at hattempts
    exact ⟨result, r', events, came, hok, by rwa [hattempts]⟩

/-! ## The ledger and the events -/

/-- The ledger is what the events say of its day, and none of a later day costs. -/
structure Kept (r : Router) : Prop where
  ledger : r.ledger = .fromEvents r.events r.ledger.day
  past : ∀ e ∈ r.events, SpendLedger.Costs e.costInr → e.istDate ≤ r.ledger.day

/-- A reply that costs is recorded on the day its call began, in a valid event. -/
def Dated (config : RouterConfig) (request : LLMRequest α) : Prop :=
  ∀ n model, (chainOf config request.role)[n]? = some model →
    ∀ reply, (request.turn n).answer = .reply reply →
      SpendLedger.Costs (toInr (config.pricing.costUsd model reply.usage) config.usdInr) →
      (request.turn n).recorded.istDate = request.start.istDate ∧
        (replyFields config request model n reply.usage).Valid

theorem istDate_mono {s t : Instant} (h : s ≤ t) : s.istDate ≤ t.istDate := by
  unfold Instant.istDate
  exact Int.ediv_le_ediv (by norm_num) (add_le_add_left h _)

@[simp] theorem rollDay_day (now : Instant) (r : Router) :
    (r.rollDay now).ledger.day = now.istDate := by
  unfold rollDay
  by_cases hsame : r.ledger.day = now.istDate
  · rw [if_neg (not_not.mpr hsame), hsame]
  · rw [if_pos hsame]
    rfl

@[simp] theorem rollDay_events (now : Instant) (r : Router) :
    (r.rollDay now).events = r.events := by
  unfold rollDay
  split <;> rfl

/-- A new day's ledger is empty, and so are the events of that day. -/
theorem Kept.rollDay (h : r.Kept) {now : Instant} (hnow : r.ledger.day ≤ now.istDate) :
    (r.rollDay now).Kept := by
  constructor
  · rw [rollDay_day, rollDay_events]
    by_cases hsame : r.ledger.day = now.istDate
    · rw [Router.rollDay, if_neg (not_not.mpr hsame), ← hsame]
      exact h.ledger
    · rw [Router.rollDay, if_pos hsame]
      refine (SpendLedger.fromEvents_eq_new fun e he => ?_).symm
      by_cases hcosts : SpendLedger.Costs e.costInr
      · have hpast := h.past e he hcosts
        left
        intro hday
        exact hsame (le_antisymm hnow (hday ▸ hpast))
      · exact .inr hcosts
  · rw [rollDay_day, rollDay_events]
    intro e he hcosts
    exact (h.past e he hcosts).trans hnow

/-- An attempt keeps the ledger and the events together, whether it returns or raises. -/
theorem Kept.attempt (h : r.Kept) (hday : r.ledger.day = request.start.istDate)
    (hdated : ∀ reply, (request.turn n).answer = .reply reply →
      SpendLedger.Costs (toInr (config.pricing.costUsd model reply.usage) config.usdInr) →
      (request.turn n).recorded.istDate = request.start.istDate ∧
        (replyFields config request model n reply.usage).Valid) :
    (Router.attempt config request model n r).state.Kept ∧
      (Router.attempt config request model n r).state.ledger.day = r.ledger.day := by
  rcases attempt_settles config request model n r with
    ⟨-, out, e, came, r', hok, hrecorded⟩ | ⟨-, e, r', herror, hraised⟩
  · rw [hok]
    have hsameDay : r'.ledger.day = r.ledger.day := by
      rw [hrecorded.ledger, SpendLedger.charge_day]
    obtain ⟨-, -, -, hrole, hdecision⟩ := hrecorded.about
    -- what costs is a reply, and it is recorded on the day of the request
    have htoday : SpendLedger.Costs e.costInr → e.istDate = r.ledger.day := by
      intro hcosts
      rcases hrecorded.reply with ⟨-, -, hfree⟩ | ⟨reply, hreply, -, -, -, -, hinr⟩
      · obtain ⟨cost, hcost, hne⟩ := hcosts
        rcases hfree with hnone | hzero
        · rw [hnone] at hcost
          cases hcost
        · rw [hzero] at hcost
          cases hcost
          exact absurd rfl hne
      · rw [hday, LLMCall.istDate, hrecorded.tsUtc]
        exact (hdated reply hreply (hinr ▸ hcosts)).1
    refine ⟨⟨?_, ?_⟩, hsameDay⟩
    · rw [EStateM.Result.state_ok, hsameDay, hrecorded.events, SpendLedger.fromEvents_concat,
        ← h.ledger, hrecorded.ledger, hrole, hdecision]
      -- what is free leaves the ledger as it is
      by_cases hcosts : SpendLedger.Costs e.costInr
      · rw [if_pos (htoday hcosts)]
      · rw [SpendLedger.charge_of_not_costs _ _ _ hcosts, ite_self]
    · rw [EStateM.Result.state_ok, hsameDay, hrecorded.events]
      intro e' he' hcosts
      rcases List.mem_append.mp he' with hold | hnew
      · exact h.past e' hold hcosts
      · rw [List.mem_singleton.mp hnew] at hcosts ⊢
        exact (htoday hcosts).le
  · rw [herror, EStateM.Result.state_error]
    have hsame : r'.ledger = r.ledger := by
      rcases hraised.ledger with hsame | ⟨reply, hreply, hinvalid, hcharged⟩
      · exact hsame
      · rw [hcharged]
        refine SpendLedger.charge_of_not_costs _ _ _ fun hcosts => ?_
        exact hinvalid (hdated reply hreply hcosts).2
    refine ⟨⟨?_, ?_⟩, by rw [hsame]⟩
    · rw [hsame, hraised.events]
      exact h.ledger
    · rw [hsame, hraised.events]
      exact h.past

theorem Kept.tryChain {chain : List ModelSpec} (h : r.Kept)
    (hday : r.ledger.day = request.start.istDate)
    (hdated : ∀ k model, chain[k]? = some model →
      ∀ reply, (request.turn (n + k)).answer = .reply reply →
        SpendLedger.Costs (toInr (config.pricing.costUsd model reply.usage) config.usdInr) →
        (request.turn (n + k)).recorded.istDate = request.start.istDate ∧
          (replyFields config request model (n + k) reply.usage).Valid)
    (last : LLMOutcome) (error : Option String) :
    (Router.tryChain config request chain n last error r).state.Kept ∧
      (Router.tryChain config request chain n last error r).state.ledger.day = r.ledger.day := by
  induction chain generalizing n last error r with
  | nil => exact ⟨h, rfl⟩
  | cons model rest ih =>
    obtain ⟨hkept, hsameDay⟩ := h.attempt hday (hdated 0 model rfl)
    rw [Router.tryChain, Effect.run_bind]
    cases hattempt : Router.attempt config request model n r with
    | error e mid =>
      rw [Nat.add_zero, hattempt] at hkept hsameDay
      exact ⟨hkept, hsameDay⟩
    | ok out mid =>
      rw [Nat.add_zero, hattempt] at hkept hsameDay
      obtain ⟨outcome, result, error'⟩ := out
      cases result with
      | some reply => exact ⟨hkept, hsameDay⟩
      | none =>
        have hrest := ih (n := n + 1) hkept (hsameDay.trans hday) (fun k model' hk => by
          have hnext := hdated (k + 1) model' (by simpa using hk)
          rwa [show n + (k + 1) = n + 1 + k by omega] at hnext) outcome error'
        exact ⟨hrest.1, hrest.2.trans hsameDay⟩

theorem Kept.complete (h : r.Kept) (hstart : r.ledger.day ≤ request.start.istDate)
    (hdated : Dated config request) :
    (Router.complete config request r).state.Kept ∧
      (Router.complete config request r).state.ledger.day ≤ request.start.istDate := by
  unfold Router.complete
  by_cases hchain : chainOf config request.role = []
  · simp only [if_pos hchain]
    exact ⟨h, hstart⟩
  · simp only [if_neg hchain]
    rw [Effect.run_bind_ok (Effect.run_modify _ _)]
    have hday := rollDay_day request.start r
    obtain ⟨hkept, hsame⟩ := (h.rollDay hstart).tryChain (n := 0) hday
      (fun k model hk => by simpa using hdated k model hk) .error none
    exact ⟨hkept, (hsame.trans hday).le⟩

/-! ## Runs -/

/-- What the router of a process goes through: calls, and restarts of the process. -/
inductive Action (α : Type)
  | call (request : LLMRequest α)
  | restart (now : Instant)

def Action.at : Action α → Instant
  | .call request => request.start
  | .restart now => now

/-- `build_router`, on the store that the events and the replies are kept in. -/
def restart (now : Instant) (r : Router) : Router :=
  { r with
    ledger := .fromEvents r.events now.istDate
    breakers := .empty
    pausedUntil := .empty }

/-- A call leaves its state behind whether it returns or raises. -/
def act (config : RouterConfig) (r : Router) : Action α → Router
  | .call request => (complete config request r).state
  | .restart now => r.restart now

def run (config : RouterConfig) (actions : List (Action α)) (r : Router) : Router :=
  actions.foldl (act config) r

/-- The first router, on an empty store. -/
def init (now : Instant) : Router :=
  { ledger := .new now.istDate, breakers := .empty, pausedUntil := .empty, cache := .empty
    events := [], answers := [] }

theorem Kept.init (now : Instant) : (Router.init now).Kept :=
  ⟨rfl, fun _ he => (nomatch he)⟩

theorem Kept.restart (h : r.Kept) {now : Instant} (hnow : r.ledger.day ≤ now.istDate) :
    (r.restart now).Kept := by
  constructor
  · simp only [Router.restart, SpendLedger.fromEvents_day]
  · intro e he hcosts
    simp only [Router.restart, SpendLedger.fromEvents_day]
    exact (h.past e he hcosts).trans hnow

theorem Kept.run {actions : List (Action α)} (h : r.Kept) {first : Instant}
    (hday : r.ledger.day ≤ first.istDate)
    (htimes : (first :: actions.map Action.at).Pairwise (· ≤ ·))
    (hdated : ∀ request, .call request ∈ actions → Dated config request) {now : Instant}
    (hnow : ∀ t ∈ first :: actions.map Action.at, t ≤ now) :
    (Router.run config actions r).Kept ∧
      (Router.run config actions r).ledger.day ≤ now.istDate := by
  induction actions generalizing r first with
  | nil => exact ⟨h, hday.trans (istDate_mono (hnow first List.mem_cons_self))⟩
  | cons action rest ih =>
    obtain ⟨hfirst, hlater⟩ := List.pairwise_cons.mp htimes
    have hstart : r.ledger.day ≤ action.at.istDate :=
      hday.trans (istDate_mono (hfirst _ List.mem_cons_self))
    have hnext : (act config r action).Kept ∧
        (act config r action).ledger.day ≤ action.at.istDate := by
      cases action with
      | call request => exact h.complete hstart (hdated request List.mem_cons_self)
      | restart time =>
        exact ⟨h.restart hstart, (SpendLedger.fromEvents_day _ _).le⟩
    exact ih hnext.1 hnext.2 hlater (fun request hrequest =>
      hdated request (List.mem_cons_of_mem _ hrequest))
      fun t ht => hnow t (List.mem_cons_of_mem _ ht)

/-- After any calls and restarts, in which what a call costs is recorded on the
day it began, the ledger that a restart rebuilds is the live one after its day roll. -/
theorem rebuilt_eq_live (config : RouterConfig) (actions : List (Action α)) {first now : Instant}
    (htimes : (first :: actions.map Action.at).Pairwise (· ≤ ·))
    (hnow : ∀ t ∈ first :: actions.map Action.at, t ≤ now)
    (hdated : ∀ request, .call request ∈ actions → Dated config request) :
    SpendLedger.fromEvents (run config actions (init first)).events now.istDate =
      ((run config actions (init first)).rollDay now).ledger := by
  obtain ⟨hkept, hday⟩ := (Kept.init first).run le_rfl htimes hdated hnow
  have hrolled := (hkept.rollDay hday).ledger
  rw [rollDay_day, rollDay_events] at hrolled
  exact hrolled.symm

end Router

namespace Sample

def groqModel : ModelSpec := ⟨"groq", "llama-3.3-70b"⟩

def vetoRoles : Dict String RoleConfig := Dict.empty.set "veto" ⟨"veto", [groqModel]⟩

/-- One USD for a million tokens. -/
def groqPrices : PricingTable := ⟨Dict.empty.set "groq:llama" ⟨1, 1, 1, 1⟩⟩

def unlimited : BudgetLimits := ⟨0, .empty, 0⟩

def textSha (text : String) : String := "sha:" ++ text

theorem textSha_nonempty (text : String) : textSha text ≠ "" := by
  simp [textSha]

def vetoRouter : RouterConfig :=
  { unicode := .ascii, sha256 := textSha, sha256_nonempty := textSha_nonempty, roles := vetoRoles
    pricing := groqPrices, usdInr := 88, budgets := unlimited, breakerFailures := 3
    breakerCooldown := 120000000, caching := false }

def textSchema : Schema String := ⟨some, fun _ => true, id⟩

/-- One second before midnight IST. -/
def lateEvening : Instant := 86400000000 - 19800000000 - 1000000

/-- A reply of a million tokens, with the requests of its window used up. -/
def usedUp (reset : String) : ClientReply String :=
  { parsed := "ABSTAIN", usage := ⟨1000000, 0, 0, 0, none⟩
    headers := (Dict.empty.set "x-ratelimit-remaining-requests" "0").set
      "x-ratelimit-reset-requests" reset }

def vetoTurn (reset : String) (recorded : Instant) : Turn String :=
  { now := lateEvening, answer := .reply (usedUp reset), latencyMs := 900
    latency_nonneg := by norm_num, recorded := recorded }

def vetoRequest (reset : String) (recorded : Instant) : LLMRequest String :=
  { role := "veto", messages := [⟨"user", "buy INFY?"⟩], schema := textSchema
    promptVersion := "veto@1", decisionId := some "d1", bookId := none, start := lateEvening
    turn := fun _ => vetoTurn reset recorded }

end Sample

namespace Router

/-- A reset duration that is no number raises after the paid reply: nothing is
recorded and nothing is spent. -/
theorem header_raises :
    (complete Sample.vetoRouter (Sample.vetoRequest "1.2.3s" Sample.lateEvening)
        (init Sample.lateEvening)).raised =
      some (.valueError "could not convert string to float") ∧
    (complete Sample.vetoRouter (Sample.vetoRequest "1.2.3s" Sample.lateEvening)
        (init Sample.lateEvening)).state.events.length = 0 ∧
    (complete Sample.vetoRouter (Sample.vetoRequest "1.2.3s" Sample.lateEvening)
        (init Sample.lateEvening)).state.ledger.total = 0 ∧
    (complete Sample.vetoRouter (Sample.vetoRequest "1.2.3s" Sample.lateEvening)
        (init Sample.lateEvening)).state.answers.map (Answered.costs Sample.vetoRouter) =
      [(some 1, some 88)] := by
  decide +kernel

/-- A duration that can be read: the call returns, and accounts for the reply. -/
theorem veto_accounted :
    ∃ result r' events came,
      complete Sample.vetoRouter (Sample.vetoRequest "2m59.56s" Sample.lateEvening)
        (init Sample.lateEvening) = .ok result r' ∧
      Accounted Sample.vetoRouter
        ((chainOf Sample.vetoRouter "veto").take result.attempts) 0 events came
        (opening Sample.vetoRouter (Sample.vetoRequest "2m59.56s" Sample.lateEvening)
          (init Sample.lateEvening)) r' := by
  refine complete_accounts Sample.vetoRouter (Sample.vetoRequest "2m59.56s" Sample.lateEvening) ?_ _
  intro n model hmodel
  have hmem : model ∈ [Sample.groqModel] := List.mem_of_getElem? hmodel
  cases List.mem_singleton.mp hmem
  refine ⟨⟨by decide, by decide, by decide, by decide⟩, ?_, ?_⟩
  · intro pair hpair
    have hread : (Sample.vetoRouter.unicode.durationS "2m59.56s").toOption =
        some (some (.finite (4489 / 25))) := by
      decide +kernel
    simp only [rateHeaders, List.mem_cons, List.not_mem_nil, or_false] at hpair
    rcases hpair with rfl | rfl
    · intro _
      cases hduration : Sample.vetoRouter.unicode.durationS "2m59.56s" with
      | error e =>
        rw [hduration] at hread
        cases hread
      | ok seconds => exact ⟨seconds, hduration⟩
    · intro hzero
      cases hzero
  · have husd : Sample.vetoRouter.pricing.costUsd Sample.groqModel ⟨1000000, 0, 0, 0, none⟩ =
        some 1 := by
      decide +kernel
    have hinr : toInr (some 1) Sample.vetoRouter.usdInr = some 88 := by decide +kernel
    refine ⟨by decide, by decide, by decide, by decide, ?_, ?_⟩
    · intro cost hcost
      cases husd.symm.trans hcost
      norm_num
    · intro cost hcost
      cases (hinr.symm.trans (husd ▸ rfl)).trans hcost
      norm_num

/-- A call that begins before midnight is paid after it: the restarted ledger of
the new day holds the cost, the live one after its roll does not. -/
theorem midnight_differs :
    (SpendLedger.fromEvents (run Sample.vetoRouter
        [.call (Sample.vetoRequest "1s" (Sample.lateEvening + 2000000))]
        (init Sample.lateEvening)).events (Sample.lateEvening + 2000000).istDate).total = 88 ∧
    ((run Sample.vetoRouter [.call (Sample.vetoRequest "1s" (Sample.lateEvening + 2000000))]
        (init Sample.lateEvening)).rollDay (Sample.lateEvening + 2000000)).ledger.total = 0 := by
  decide +kernel

/-- A call that is paid before midnight, and a restart after it. -/
theorem evening_rebuilt :
    SpendLedger.fromEvents (run Sample.vetoRouter
        [.call (Sample.vetoRequest "1s" (Sample.lateEvening + 500000)),
          .restart (Sample.lateEvening + 700000)] (init Sample.lateEvening)).events
        (Sample.lateEvening + 800000).istDate =
      ((run Sample.vetoRouter [.call (Sample.vetoRequest "1s" (Sample.lateEvening + 500000)),
          .restart (Sample.lateEvening + 700000)]
        (init Sample.lateEvening)).rollDay (Sample.lateEvening + 800000)).ledger := by
  refine rebuilt_eq_live Sample.vetoRouter _ (by decide) (by decide) ?_
  intro request hrequest
  simp only [List.mem_cons, List.not_mem_nil, or_false, Action.call.injEq, reduceCtorEq] at hrequest
  subst hrequest
  intro n model hmodel reply hreply _
  have hmem : model ∈ [Sample.groqModel] := List.mem_of_getElem? hmodel
  cases List.mem_singleton.mp hmem
  cases hreply
  have hvalid : (replyFields Sample.vetoRouter (Sample.vetoRequest "1s" (Sample.lateEvening + 500000))
      Sample.groqModel 0 ⟨1000000, 0, 0, 0, none⟩).Valid := by
    decide +kernel
  have hday : (Sample.lateEvening + 500000).istDate = Sample.lateEvening.istDate := by decide
  exact ⟨hday, ⟨hvalid.role, hvalid.provider, hvalid.model, hvalid.promptVersion,
    hvalid.promptSha, hvalid.tokensIn, hvalid.tokensOut, hvalid.cacheReadTokens,
    hvalid.cacheWriteTokens, hvalid.latencyMs, hvalid.costUsd, hvalid.costInr⟩⟩

end Router

end RakshaQuant
