import RakshaQuant.Decision.Reviews
import RakshaQuant.Llm.Accounting
import RakshaQuant.Llm.Evidence
import RakshaQuant.Llm.Origins
import RakshaQuant.Llm.Prompts

/-! Book C's advisor. A model is asked about a proposal through the router, and its veto stands only
with reasons that point into what it was shown; any failure leaves the deterministic decision as it
is. -/

namespace RakshaQuant

/-! ## What the model may say -/

structure EvidenceClaim where
  claim : String
  evidenceRef : String
  claim_le : claim.length ≤ 300
  evidenceRef_le : evidenceRef.length ≤ 120

/-- `VetoOutput`, whose schema version is always 1. -/
structure VetoOutput where
  verdict : Verdict
  confidence : ℚ
  reasons : List EvidenceClaim
  confidence_mem : 0 ≤ confidence ∧ confidence ≤ 1
  reasons_le : reasons.length ≤ 5

/-! ## What is recorded -/

structure AdvisorVerdict where
  decisionId : String
  bookId : String
  verdict : Verdict
  confidence : Option ℚ
  /-- Claims, each with its reference. -/
  reasons : List (String × String)
  provider : Option String
  model : Option String
  abstainReason : Option String

inductive AdvisorEvent
  | requested (decisionId bookId signalId : String)
  | fallback (decisionId bookId reason : String) (error : Option String)
  | verdict (v : AdvisorVerdict)

namespace AdvisorEvent

/-- What the models of the payloads check. -/
def Valid : AdvisorEvent → Prop
  | requested decisionId bookId _ => decisionId ≠ "" ∧ bookId ≠ ""
  | fallback decisionId bookId reason _ => decisionId ≠ "" ∧ bookId ≠ "" ∧ reason ≠ ""
  | verdict v => v.decisionId ≠ "" ∧ v.bookId ≠ "" ∧ (∀ c ∈ v.confidence, 0 ≤ c ∧ c ≤ 1) ∧
      (∀ r ∈ v.reasons, r.1 ≠ "" ∧ r.2 ≠ "") ∧ (v.verdict = .abstain ↔ v.abstainReason.isSome)

instance : DecidablePred Valid
  | requested .. => inferInstanceAs (Decidable (_ ∧ _))
  | fallback .. => inferInstanceAs (Decidable (_ ∧ _ ∧ _))
  | verdict _ => inferInstanceAs (Decidable (_ ∧ _ ∧ _ ∧ _ ∧ _))

end AdvisorEvent

/-- The router and the events of the advisors, beside the rest of the world. -/
structure VetoWorld (τ : Type) where
  router : Router
  events : List AdvisorEvent
  rest : τ

/-- How the parts of a proposal are written that nothing else here reads: a signal's reasons,
`Features.as_dict` and the digits of a float. -/
structure VetoView where
  reasons : Signal → List (String × Json)
  features : Features → List (String × Json)
  number : ℚ → String

/-- `veto_input`: what the veto sees, never positions or profits. -/
def vetoInput (view : VetoView) (p : Proposal) (f : Features) : List (String × Json) :=
  [("signal", .obj
      [("instrument", .str p.intent.instrument.symbol),
        ("sector", .ofOption p.intent.instrument.sector), ("strategy", .str p.signal.strategy),
        ("side", .str p.signal.side.value), ("bar_date", .str (Day.isoformat p.signal.barDate)),
        ("agreement_score", .num (view.number p.signal.agreementScore)),
        ("reasons", .obj (view.reasons p.signal))]),
    ("features", .obj (view.features f)), ("events", .arr [])]

/-- `LLMVetoAdvisor`. -/
structure LLMVetoAdvisor (τ : Type) where
  config : RouterConfig
  schema : Schema VetoOutput
  bookId : String
  template : Prompts.PromptTemplate
  role : String
  threshold : Option ℚ
  view : VetoView
  /-- What a call meets: the clock when it starts, and what its attempts meet. -/
  meets : Proposal → VetoWorld τ → Instant × (ℕ → Turn VetoOutput)
  threshold_mem : ∀ t ∈ threshold, 0 < t ∧ t ≤ 1

namespace LLMVetoAdvisor

variable {τ : Type} (a : LLMVetoAdvisor τ)

/-- `emit`: an event that is not valid is a `ValidationError`. -/
def emit (e : AdvisorEvent) : EStateM Exc (VetoWorld τ) PUnit := do
  if e.Valid then modify fun w => { w with events := w.events ++ [e] }
  else throw (.validationError "AdvisorEvent")

/-- A call of the router. -/
def routed {α : Type} (m : EStateM Exc Router α) : EStateM Exc (VetoWorld τ) α := fun w =>
  match m w.router with
  | .ok x r => .ok x { w with router := r }
  | .error e r => .error e { w with router := r }

def abstain (decisionId reason : String) (error : Option String) :
    EStateM Exc (VetoWorld τ) Verdict := do
  emit (.fallback decisionId a.bookId reason error)
  emit (.verdict
    { decisionId, bookId := a.bookId, verdict := .abstain, confidence := none, reasons := []
      provider := none, model := none, abstainReason := some reason })
  return .abstain

/-- What the router is asked. -/
def request (p : Proposal) (f : Features) (w : VetoWorld τ) : LLMRequest VetoOutput :=
  { role := a.role, messages := a.template.render (vetoInput a.view p f), schema := a.schema
    promptVersion := a.template.promptVersion a.config.sha256
    decisionId := some p.intent.decisionId, bookId := some a.bookId
    start := (a.meets p w).1, turn := (a.meets p w).2 }

/-- The text of an outcome. -/
def outcomeText : Option LLMOutcome → String
  | some outcome => outcome.value
  | none => "disabled"

/-- A text that is not empty, or none. -/
def orNone (text : List Char) : Option String :=
  if text = [] then none else some (String.ofList text)

/-- The verdict of an answer that is used. -/
def recorded (decisionId : String) (model : Option String) (out : VetoOutput) : AdvisorVerdict :=
  let spec := (model.getD "").toList
  { decisionId, bookId := a.bookId, verdict := out.verdict, confidence := some out.confidence
    reasons := (out.reasons.filter fun r => r.claim ≠ "" ∧ r.evidenceRef ≠ "").map fun r =>
      (r.claim, r.evidenceRef)
    provider := orNone (spec.takeWhile (· ≠ ':'))
    model := orNone ((spec.dropWhile (· ≠ ':')).drop 1)
    abstainReason := if out.verdict = .abstain then some "model abstained" else none }

/-- The references of an answer that point at nothing. -/
def missing (p : Proposal) (f : Features) (out : VetoOutput) : List String :=
  Evidence.unsupported a.config.unicode (out.reasons.map EvidenceClaim.evidenceRef)
    (.obj (vetoInput a.view p f))

/-- What is made of an answer. -/
def judge (p : Proposal) (f : Features) (model : Option String) (out : VetoOutput) :
    EStateM Exc (VetoWorld τ) Verdict :=
  let decisionId := p.intent.decisionId
  let missing := a.missing p f out
  if missing ≠ [] then
    a.abstain decisionId "hallucinated_evidence"
      (some (String.ofList ((", ".intercalate missing).toList.take 300)))
  else if out.verdict = .veto ∧ out.reasons = [] then
    a.abstain decisionId "veto_without_evidence" none
  else if out.verdict = .veto ∧ a.threshold.any fun t => out.confidence < t then
    a.abstain decisionId "veto_below_threshold"
      (some ("confidence " ++ a.view.number out.confidence))
  else do
    emit (.verdict (a.recorded decisionId model out))
    return out.verdict

def review (p : Proposal) (f : Features) : EStateM Exc (VetoWorld τ) Verdict := do
  emit (.requested p.intent.decisionId a.bookId p.signal.signalId)
  let w ← get
  let result ← routed (Router.complete a.config (a.request p f w))
  match result.parsed with
  | none => a.abstain p.intent.decisionId ("llm_" ++ outcomeText result.outcome) result.error
  | some out => a.judge p f result.model out

/-- The advisor as the engine asks it: an exception is no verdict. -/
def advisor : Advisor (VetoWorld τ) := fun p f w =>
  match a.review p f w with
  | .ok verdict w' => (some verdict, w')
  | .error _ w' => (none, w')

/-! ## One review -/

variable {a} {p : Proposal} {f : Features} {w w' : VetoWorld τ} {verdict : Verdict}

/-- The world in which the router is called. -/
def asking (a : LLMVetoAdvisor τ) (p : Proposal) (w : VetoWorld τ) : VetoWorld τ :=
  { w with
    events := w.events ++ [.requested p.intent.decisionId a.bookId p.signal.signalId] }

/-- An answer that is used: the router had it from a provider for this very prompt, all it cites is
in what the model was shown, and a veto says why and is sure enough. -/
structure Used (a : LLMVetoAdvisor τ) (p : Proposal) (f : Features) (w : VetoWorld τ)
    (out : VetoOutput) : Prop where
  origin : Router.Origin a.config (a.request p f (a.asking p w)) w.router out
  grounded : ∀ r ∈ out.reasons,
    Evidence.Grounded a.config.unicode (.obj (vetoInput a.view p f)) r.evidenceRef
  reasons : out.verdict = .veto → out.reasons ≠ []
  sure : out.verdict = .veto → ∀ t ∈ a.threshold, t ≤ out.confidence

/-- What comes of a review: an answer that is used, or an abstention that says why. -/
inductive Reviewed (a : LLMVetoAdvisor τ) (p : Proposal) (f : Features) (w : VetoWorld τ) :
    Verdict → List AdvisorEvent → Prop
  | used {out : VetoOutput} (used : a.Used p f w out) (model : Option String) :
      Reviewed a p f w out.verdict [.verdict (a.recorded p.intent.decisionId model out)]
  | abstained (reason : String) (error : Option String) :
      Reviewed a p f w .abstain
        [.fallback p.intent.decisionId a.bookId reason error,
          .verdict { decisionId := p.intent.decisionId, bookId := a.bookId, verdict := .abstain
                     confidence := none, reasons := [], provider := none, model := none
                     abstainReason := some reason }]

theorem emit_ok {e : AdvisorEvent} {x : PUnit} (h : emit e w = .ok x w') :
    w' = { w with events := w.events ++ [e] } := by
  unfold emit at h
  split at h
  · cases h
    rfl
  · cases h

theorem routed_ok {α : Type} {m : EStateM Exc Router α} {x : α} (h : routed m w = .ok x w') :
    ∃ r, m w.router = .ok x r ∧ w' = { w with router := r } := by
  unfold routed at h
  cases hm : m w.router with
  | ok y r =>
    rw [hm] at h
    cases h
    exact ⟨r, rfl, rfl⟩
  | error e r =>
    rw [hm] at h
    cases h

theorem abstain_ok {reason : String} {error : Option String}
    (h : a.abstain p.intent.decisionId reason error w = .ok verdict w') :
    ∃ told, w'.events = w.events ++ told ∧ ∀ f w, a.Reviewed p f w verdict told := by
  unfold abstain at h
  rw [Effect.run_bind] at h
  split at h
  · rename_i hfallback
    rw [Effect.run_bind] at h
    split at h
    · rename_i hverdict
      cases h
      rw [emit_ok hverdict, emit_ok hfallback]
      exact ⟨_, List.append_assoc .., fun f w => .abstained reason error⟩
    · cases h
  · cases h

theorem judge_ok {model : Option String} {out : VetoOutput} {w₀ : VetoWorld τ}
    (horigin : Router.Origin a.config (a.request p f (a.asking p w₀)) w₀.router out)
    (h : a.judge p f model out w = .ok verdict w') :
    ∃ told, w'.events = w.events ++ told ∧ a.Reviewed p f w₀ verdict told := by
  have habstained : ∀ reason error,
      a.abstain p.intent.decisionId reason error w = .ok verdict w' →
        ∃ told, w'.events = w.events ++ told ∧ a.Reviewed p f w₀ verdict told := by
    intro reason error habstain
    obtain ⟨told, hevents, hall⟩ := abstain_ok habstain
    exact ⟨told, hevents, hall f w₀⟩
  unfold judge at h
  split at h
  · exact habstained _ _ h
  · rename_i hmissing
    split at h
    · exact habstained _ _ h
    · rename_i hreasons
      split at h
      · exact habstained _ _ h
      · rename_i hsure
        rw [Effect.run_bind] at h
        split at h
        · rename_i hemit
          cases h
          refine ⟨_, by rw [emit_ok hemit], .used ⟨horigin, ?_, ?_, ?_⟩ model⟩
          · have hgrounded := (Evidence.unsupported_nil_iff _).mp (not_not.mp hmissing)
            exact fun r hr => hgrounded _ (List.mem_map_of_mem hr)
          · exact fun hveto hnil => hreasons ⟨hveto, hnil⟩
          · intro hveto t ht
            by_contra hlt
            refine hsure ⟨hveto, ?_⟩
            rw [Option.mem_def.mp ht]
            simpa using hlt
        · cases h

theorem review_ok (h : a.review p f w = .ok verdict w') :
    ∃ told, w'.events = (a.asking p w).events ++ told ∧ a.Reviewed p f w verdict told := by
  unfold review at h
  rw [Effect.run_bind] at h
  split at h
  · rename_i hemit
    have hasking := emit_ok hemit
    subst hasking
    rw [Effect.run_bind_ok (Effect.run_get _), Effect.run_bind] at h
    split at h
    · rename_i result called hrouted
      obtain ⟨r, hcomplete, rfl⟩ := routed_ok hrouted
      cases hparsed : result.parsed with
      | none =>
        rw [hparsed] at h
        obtain ⟨told, hevents, hall⟩ := abstain_ok h
        exact ⟨told, hevents, hall f w⟩
      | some out =>
        rw [hparsed] at h
        obtain ⟨told, hevents, hreviewed⟩ :=
          judge_ok (Router.complete_origin hcomplete hparsed) h
        exact ⟨told, hevents, hreviewed⟩
    · cases h
  · cases h

/-- The veto of the advisor is an answer that is used. -/
theorem advisor_veto (h : (a.advisor p f w).1 = some .veto) :
    ∃ out, a.Used p f w out ∧ out.verdict = .veto := by
  unfold advisor at h
  cases hreview : a.review p f w with
  | error e w' =>
    rw [hreview] at h
    cases h
  | ok verdict w' =>
    rw [hreview] at h
    cases h
    obtain ⟨told, -, hreviewed⟩ := review_ok hreview
    generalize hveto : Verdict.veto = verdict at hreviewed
    cases hreviewed with
    | used hused model => exact ⟨_, hused, rfl⟩
    | abstained reason error => cases hveto

/-- What is stored is all the same. -/
abbrev LeavesStored {α : Type} (m : EStateM Exc (VetoWorld τ) α) : Prop :=
  Effect.Leaves (fun w => w.router.cache) m

theorem leaves_emit (e : AdvisorEvent) : LeavesStored (emit (τ := τ) e) := by
  unfold emit
  exact .ite (.change fun _ => rfl) (.throw _)

theorem leaves_routed {α : Type} {m : EStateM Exc Router α} (hm : Router.LeavesCache m) :
    LeavesStored (routed (τ := τ) m) := by
  intro w
  have hleft := hm w.router
  unfold routed
  cases hrun : m w.router with
  | ok x r =>
    rw [hrun] at hleft
    exact hleft
  | error e r =>
    rw [hrun] at hleft
    exact hleft

theorem leaves_abstain (decisionId reason : String) (error : Option String) :
    LeavesStored (a.abstain decisionId reason error) :=
  .bind (leaves_emit _) fun _ => .bind (leaves_emit _) fun _ => .pure _

theorem leaves_judge (model : Option String) (out : VetoOutput) :
    LeavesStored (a.judge p f model out) := by
  unfold judge
  refine .ite (leaves_abstain _ _ _) (.ite (leaves_abstain _ _ _) ?_)
  refine .ite (leaves_abstain _ _ _) ?_
  exact .bind (leaves_emit _) fun _ => .pure _

/-- A review that no provider replies to stores nothing. -/
theorem leaves_review (hnone : ∀ w, Router.Unreplied (a.request p f w)) :
    LeavesStored (a.review p f) := by
  unfold review
  refine .bind (leaves_emit _) fun _ => .read fun w => ?_
  refine .bind (leaves_routed (Router.leaves_complete (hnone w))) fun result => ?_
  split
  · exact leaves_abstain _ _ _
  · exact leaves_judge _ _

theorem advisor_stored (hnone : ∀ w, Router.Unreplied (a.request p f w)) :
    (a.advisor p f w).2.router.cache = w.router.cache := by
  have hleft := leaves_review hnone w
  unfold advisor
  cases hrun : a.review p f w with
  | ok verdict w' =>
    rw [hrun] at hleft
    exact hleft
  | error e w' =>
    rw [hrun] at hleft
    exact hleft

/-- No provider replies when the model is asked about the proposal, and nothing is stored that can
be read. -/
structure Unanswered (a : LLMVetoAdvisor τ) (p : Proposal) (f : Features) (w : VetoWorld τ) :
    Prop where
  unreplied : Router.Unreplied (a.request p f (a.asking p w))
  unstored : ∀ model ∈ Router.chainOf a.config a.role,
    Router.cached a.config (a.request p f (a.asking p w)) model w.router = none

theorem Unanswered.unused {out : VetoOutput} (h : a.Unanswered p f w) : ¬a.Used p f w out := by
  intro hused
  obtain ⟨model, hmodel, hcached⟩ | ⟨n, reply, hreply, -⟩ := hused.origin
  · rw [h.unstored model hmodel] at hcached
    cases hcached
  · exact h.unreplied n reply hreply

/-- What a cycle withholds from the OMS of the book it withholds for a veto that the model gave of
this very proposal when it was asked, with reasons that point into what it was shown; where each
time no provider answers and nothing is stored the book trades as it would without an advisor. -/
theorem withholds_on_evidence (e : DecisionEngine (VetoWorld τ)) (r : Readings)
    (instruments : List Instrument) (regime : Option Regime) (world : VetoWorld τ)
    {advisors : String → Option (Advisor (VetoWorld τ))} {b : String}
    (hb : advisors b = some a.advisor) :
    let ending := e.advised advisors r instruments regime world
    ending.state.givenTo b = passed (ending.state.reviewsOf b) ∧
    ∃ submissions, Made (e.advise advisors).books world submissions ending.state ∧
      (∀ intent, (intent, some .veto) ∈ ending.state.reviewsOf b → ∃ p f w out,
        AskedIn submissions world b p f w ∧ p.intent = intent ∧ a.Used p f w out ∧
          out.verdict = .veto) ∧
      (ending.raised = none →
        (∀ p f w, AskedIn submissions world b p f w → a.Unanswered p f w) →
        ∀ others : String → Option (Advisor (VetoWorld τ)), others b = none →
          (e.advised others r instruments regime world).raised = none →
          ending.state.givenTo b =
            (e.advised others r instruments regime world).state.givenTo b) := by
  intro ending
  obtain ⟨submissions, hmade⟩ :=
    DecisionEngine.runCycle_made (e.advise advisors) r instruments regime world
  have hveto : ∀ intent, (intent, some .veto) ∈ ending.state.reviewsOf b → ∃ p f w out,
      AskedIn submissions world b p f w ∧ p.intent = intent ∧ a.Used p f w out ∧
        out.verdict = .veto := by
    intro intent hmem
    obtain ⟨p, f, w, hasked, hintent, hanswer⟩ := hmade.answered hb hmem
    obtain ⟨out, hused, hout⟩ := advisor_veto hanswer
    exact ⟨p, f, w, out, hasked, hintent, hused, hout⟩
  obtain ⟨intents, hall⟩ := DecisionEngine.advised_heard e r instruments regime world b
  obtain ⟨hpassed, -, hasked, -⟩ := hall advisors ending rfl
  refine ⟨hpassed, submissions, hmade, hveto, fun hreturned hsilent others hnone hothers => ?_⟩
  obtain ⟨hpassed', -, hasked', hunadvised⟩ := hall others _ rfl
  have hkept : passed (ending.state.reviewsOf b) = (ending.state.reviewsOf b).map Prod.fst := by
    rw [passed, List.filter_eq_self.mpr]
    rintro ⟨intent, verdict⟩ hmem
    rw [decide_eq_true_iff]
    rintro rfl
    obtain ⟨p, f, w, out, hin, -, hused, -⟩ := hveto intent hmem
    exact (hsilent p f w hin).unused hused
  rw [hpassed, hkept, hasked hreturned, hpassed', passed_unadvised (hunadvised hnone),
    hasked' hothers]

end LLMVetoAdvisor

namespace VetoingModel

open OpeningCycle

theorem book_plain : Plain "C" := by decide

def bookC : BookTarget (VetoWorld Unit) :=
  { bookId := "C", submit := fun _ world => (.ok ⟨.submitted, none, ""⟩, world)
    expectEntry := fun _ _ _ world => world, advisor := none, plain := book_plain }

theorem one_book : ([bookC].map BookTarget.bookId).Nodup := List.nodup_singleton _

def engine : DecisionEngine (VetoWorld Unit) :=
  { config := (OpeningCycle.engine accepts).config
    strategies := (OpeningCycle.engine accepts).strategies
    policy := (OpeningCycle.engine accepts).policy, books := [bookC], distinct := one_book }

theorem claim_le : "overextended".length ≤ 300 := by decide

theorem ref_le : "signal.side".length ≤ 120 := by decide

theorem confidence_mem : (0 : ℚ) ≤ 9 / 10 ∧ (9 / 10 : ℚ) ≤ 1 := by norm_num

def reason : EvidenceClaim := ⟨"overextended", "signal.side", claim_le, ref_le⟩

theorem reasons_le : [reason].length ≤ 5 := by decide

def output : VetoOutput :=
  { verdict := .veto, confidence := 9 / 10, reasons := [reason], confidence_mem, reasons_le }

theorem latency_nonneg : (0 : ℚ) ≤ 900 := by norm_num

/-- It vetoes some instruments, and has no answer about others. -/
def meets (against : String → Bool) (p : Proposal) (_ : VetoWorld Unit) :
    Instant × (ℕ → Turn VetoOutput) :=
  (Sample.lateEvening, fun _ =>
    { now := Sample.lateEvening, latencyMs := 900, latency_nonneg
      recorded := Sample.lateEvening
      answer := if against p.intent.instrument.symbol then
        .reply { parsed := output, usage := ⟨0, 0, 0, 0, none⟩, headers := .empty } else .timeout })

theorem threshold_mem : ∀ t ∈ (none : Option ℚ), 0 < t ∧ t ≤ 1 := by simp

/-- Replies are stored, and read back. -/
def schema : Schema VetoOutput :=
  ⟨fun text => if text = "VETO" then some output else none, fun _ => true, fun _ => "VETO"⟩

def advisor (against : String → Bool) : LLMVetoAdvisor Unit :=
  { config := { Sample.vetoRouter with caching := true }, schema, bookId := "C"
    template := Prompts.HostileData.template, role := "veto", threshold := none
    view := ⟨fun _ => [], fun _ => [], fun _ => "0.9"⟩, meets := meets against, threshold_mem }

def advisors (against : String → Bool) (_ : String) : Option (Advisor (VetoWorld Unit)) :=
  some (advisor against).advisor

def unadvised (_ : String) : Option (Advisor (VetoWorld Unit)) := none

def world : VetoWorld Unit := ⟨.init Sample.lateEvening, [], ()⟩

def ending (advisors : String → Option (Advisor (VetoWorld Unit))) :
    EStateM.Result Exc (Cycle (VetoWorld Unit)) PUnit :=
  engine.advised advisors readings [equity "INFY", equity "TCS"] none world

/-- The model has no answer about any instrument. -/
def silent (_ : String) : Bool := false

theorem silent_unreplied (p : Proposal) (f : Features) (w : VetoWorld Unit) :
    Router.Unreplied ((advisor silent).request p f w) := by
  rintro n reply ⟨⟩

/-- Along a cycle with this model nothing is ever stored. -/
theorem silent_unanswered {submissions : List (Submission (VetoWorld Unit))}
    {c : Cycle (VetoWorld Unit)}
    (h : Made (engine.advise (advisors silent)).books world submissions c) {p : Proposal}
    {f : Features} {w : VetoWorld Unit} (hasked : AskedIn submissions world "C" p f w) :
    (advisor silent).Unanswered p f w := by
  obtain ⟨before, v, later, hsplit, -, -, -, rfl⟩ := hasked
  have hempty : (Submission.afterAll before world).router.cache = .empty := by
    refine Submission.afterAll_keeps (I := fun w : VetoWorld Unit => w.router.cache = .empty) ?_ rfl
    intro v' hv' w hw
    have hbook := (h.served v' (hsplit ▸ List.mem_append_left _ hv')).1
    have hbook : v'.book = { bookC with advisor := some (advisor silent).advisor } :=
      List.mem_singleton.mp hbook
    have hasked : (v'.reviewed w).2.router.cache = w.router.cache := by
      rw [Submission.reviewed, hbook]
      exact LLMVetoAdvisor.advisor_stored (silent_unreplied _ _)
    rw [Submission.after, hbook]
    dsimp only [bookC]
    split
    · exact hasked.trans hw
    · exact hasked.trans hw
  refine ⟨silent_unreplied _ _ _, fun model hmodel => ?_⟩
  rw [Router.cached, hempty]
  rfl

/-- What the book's advisor said about the instruments. -/
def verdicts (advisors : String → Option (Advisor (VetoWorld Unit))) :
    List (String × Option Verdict) :=
  ((ending advisors).state.reviewsOf "C").map fun review =>
    (review.1.instrument.symbol, review.2)

theorem verdicts_against :
    verdicts (advisors (· = "TCS")) = [("INFY", some .abstain), ("TCS", some .veto)] := by
  decide +kernel

theorem silent_returns : (ending (advisors silent)).raised = none := by decide +kernel

theorem unadvised_returns : (ending unadvised).raised = none := by decide +kernel

theorem unadvised_given : ((ending unadvised).state.givenTo "C").length = 2 := by decide +kernel

end VetoingModel

open VetoingModel OpeningCycle in
/-- One instrument is vetoed; where the model is silent both proposals go to the OMS. -/
theorem withholds_on_evidence_one :
    (∃ submissions p f w out,
      Made (engine.advise (advisors (· = "TCS"))).books world submissions
        (ending (advisors (· = "TCS"))).state ∧
      AskedIn submissions world "C" p f w ∧ p.intent.instrument.symbol = "TCS" ∧
      (advisor (· = "TCS")).Used p f w out ∧ out.verdict = .veto) ∧
    ((ending (advisors silent)).state.givenTo "C").length = 2 := by
  constructor
  · have hb : advisors (· = "TCS") "C" = some (advisor (· = "TCS")).advisor := rfl
    obtain ⟨-, submissions, hmade, hveto, -⟩ := LLMVetoAdvisor.withholds_on_evidence
      VetoingModel.engine readings [equity "INFY", equity "TCS"] none world hb
    have hmem : ("TCS", some .veto) ∈ verdicts (advisors (· = "TCS")) := by
      rw [verdicts_against]
      exact List.mem_cons_of_mem _ List.mem_cons_self
    obtain ⟨⟨intent, verdict⟩, hreview, heq⟩ := List.mem_map.mp hmem
    obtain ⟨hsymbol, rfl⟩ : intent.instrument.symbol = "TCS" ∧ verdict = some .veto :=
      Prod.mk.inj heq
    obtain ⟨p, f, w, out, hasked, hintent, hused, hout⟩ := hveto intent hreview
    exact ⟨submissions, p, f, w, out, hmade, hasked, hintent ▸ hsymbol, hused, hout⟩
  · have hb : advisors silent "C" = some (advisor silent).advisor := rfl
    obtain ⟨-, submissions, hmade, -, hsame⟩ := LLMVetoAdvisor.withholds_on_evidence
      VetoingModel.engine readings [equity "INFY", equity "TCS"] none world hb
    have hgiven := hsame silent_returns (fun p f w => silent_unanswered hmade) unadvised rfl
      unadvised_returns
    exact (congrArg List.length hgiven).trans unadvised_given

end RakshaQuant
