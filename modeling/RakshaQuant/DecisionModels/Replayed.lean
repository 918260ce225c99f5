import RakshaQuant.DecisionModels.Cache

/-! A replay of recorded decisions. Requests that were decided live, over any models and any record
of earlier days, are decided alike from the record that they left, without asking a model: as long as
no request that once failed was answered at another time, and nothing is on record of a model that
was not configured. -/

namespace RakshaQuant

namespace DecisionModels

variable {σ τ : Type}

/-- Two calls that heard the same, up to the text of an error. -/
structure Heard.Alike (h h' : Heard) : Prop where
  error : h.error.isSome = h'.error.isSome
  answers : Same h.answers h'.answers

/-- What a stub hears, when this is on record of what it is asked. -/
inductive Heard.Reads : Option (Dict String Answer) → Heard → Prop
  | hit {recorded : Dict String Answer} {h : Heard} (error : h.error = none)
      (answers : Same recorded h.answers) : Heard.Reads (some recorded) h
  | miss {h : Heard} (error : h.error.isSome) (answers : h.answers = .empty) : Heard.Reads none h

/-- What a record knows of a model that a stub stands in for. -/
def Stands (key : CacheKey) (stub : ReplayStub) (m : Option (DecisionModel σ))
    (record : Dict String (Dict String Answer)) : Prop :=
  match m with
  | some m =>
    m.name = stub.name ∧ m.checkpoint = stub.checkpoint ∧ m.contextTokens = stub.contextTokens
  | none => ∀ state questions,
      record.get? (key stub.name stub.checkpoint state questions) = none

/-- A record that the stubs of a replay can be served from. -/
structure Replayable (key : CacheKey) (layaStub jevStub : ReplayStub)
    (laya jev : Option (DecisionModel σ)) (w : AnswerCache σ) : Prop where
  faithful : w.Faithful
  laya : Stands key layaStub laya w.record
  jev : Stands key jevStub jev w.record

namespace Cascade

variable {c : Cascade (AnswerCache σ)} {task : Task} {state : Dict String String}
  {questions : Dict String Question}

/-! ## One call -/

theorem calibrateAll_identity {calibrate : String → Answer → EStateM ModelExc σ Answer}
    (h : ∀ question a, calibrate question a = pure a) (es : List (String × Answer)) :
    calibrateAll calibrate es = pure es := by
  induction es with
  | nil => rfl
  | cons e rest ih => rw [calibrateAll, h, ih]; rfl

/-- A call without calibration, from what the model answered. -/
theorem call_uncalibrated (c : Cascade σ)
    (hcal : ∀ task question a, c.calibrate task question a = pure a) (m : DecisionModel σ)
    (task : Task) (state : Dict String String) (questions : Dict String Question)
    (escalation : Option String) (shadow : Bool) (w : σ) :
    ∃ heard, c.call m task state questions escalation shadow w =
        .ok heard (c.emit (callEvent m task questions escalation shadow heard)
          (m.decide state questions w).state) ∧
      match m.decide state questions w with
      | .ok answers _ => heard.error = none ∧ Same answers heard.answers
      | .error _ _ => heard.error.isSome ∧ heard.answers = .empty := by
  have hall : ∀ es, calibrateAll (c.calibrate task.name) es = pure es :=
    calibrateAll_identity fun question a => hcal task.name question a
  unfold call ask
  simp only [hall, Effect.run_bind]
  cases m.decide state questions w with
  | error e w' => exact ⟨_, rfl, rfl, rfl⟩
  | ok answers w' =>
    refine ⟨_, rfl, rfl, same_of_get fun name => ?_⟩
    have hrebuild := Dict.get?_ofList_map answers id name
    simpa [Heard.of] using hrebuild.symm

variable {p : CascadeParts} {laya jev : Option (DecisionModel σ)}
  {emit : DecisionModelCall → σ → σ} {replayEmit : DecisionModelCall → τ → τ}
  {layaStub jevStub : ReplayStub} {h : laya.isSome ∨ jev.isSome}

theorem growing_emit (w : AnswerCache σ) (e : DecisionModelCall) :
    w.Grows ({ w with world := emit e w.world }) := ⟨fun _ _ h => h, fun _ h => h⟩

theorem growing_call (m : DecisionModel σ) (task : Task) (state : Dict String String)
    (questions : Dict String Question) (escalation : Option String) (shadow : Bool) :
    Memo.Growing ((buildCascade p laya jev emit identity h).call
      (cachedDecisionModel p.key m false) task state questions escalation shadow) := by
  intro w
  obtain ⟨heard, hcall, -⟩ := call_uncalibrated (buildCascade p laya jev emit identity h)
    (fun _ _ _ => rfl) (cachedDecisionModel p.key m false) task state questions escalation shadow w
  rw [hcall]
  exact (Memo.recorded_grows reloaded id _ (m.decide state questions) w).trans (growing_emit _ _)

variable (p replayEmit layaStub jevStub) in
/-- What a stub hears is on record. -/
theorem call_replay (stub : ReplayStub) (task : Task) (state : Dict String String)
    (questions : Dict String Question) (escalation : Option String) (shadow : Bool)
    (r : AnswerCache τ) :
    ∃ heard, ∃ r' : AnswerCache τ, (replayCascade p layaStub jevStub replayEmit).call
        (cachedDecisionModel p.key stub.model true) task state questions escalation shadow r =
          .ok heard r' ∧ r'.record = r.record ∧
      Heard.Reads (r.record.get? (p.key stub.name stub.checkpoint state questions)) heard := by
  obtain ⟨heard, hcall, hheard⟩ := call_uncalibrated (replayCascade p layaStub jevStub replayEmit)
    (fun _ _ _ => rfl) (cachedDecisionModel p.key stub.model true) task state questions escalation
    shadow r
  refine ⟨heard, _, hcall, ?_⟩
  have hdecide : (cachedDecisionModel p.key stub.model true).decide state questions r =
      Memo.replayed id (p.key stub.name stub.checkpoint state questions)
        (.decisionModelError (stub.name ++ ": not in the replay cache")) r := rfl
  rw [hdecide] at hheard ⊢
  unfold Memo.replayed at hheard ⊢
  cases hk : r.record.get? (p.key stub.name stub.checkpoint state questions) with
  | some recorded =>
    rw [hk] at hheard
    exact ⟨rfl, .hit hheard.1 hheard.2⟩
  | none =>
    rw [hk] at hheard
    exact ⟨rfl, .miss hheard.1 hheard.2⟩

variable (p emit replayEmit layaStub jevStub h) in
/-- What a model answered live its stub hears in a replay. -/
theorem replays_call {m : DecisionModel σ} {stub : ReplayStub} {P : AnswerCache σ → Prop}
    (hname : m.name = stub.name) (hcheckpoint : m.checkpoint = stub.checkpoint)
    (hP : ∀ w, P w → w.Faithful) (task : Task) (state : Dict String String)
    (questions : Dict String Question) (escalation escalation' : Option String) (shadow : Bool) :
    Memo.Replays P
      ((buildCascade p laya jev emit identity h).call (cachedDecisionModel p.key m false) task
        state questions escalation shadow)
      ((replayCascade p layaStub jevStub replayEmit).call
        (cachedDecisionModel p.key stub.model true) task state questions escalation' shadow)
      Heard.Alike := by
  intro w heard w' hrun last hlast hPlast r hr
  obtain ⟨heard', r', hcall', hr', hreads⟩ := call_replay p replayEmit layaStub jevStub stub task
    state questions escalation' shadow r
  refine ⟨heard', r', hcall', hr'.trans hr, ?_⟩
  obtain ⟨heard₁, hcall, hheard⟩ := call_uncalibrated (buildCascade p laya jev emit identity h)
    (fun _ _ _ => rfl) (cachedDecisionModel p.key m false) task state questions escalation shadow w
  rw [hcall] at hrun
  cases hrun
  have hknown := Memo.recorded_known reloaded id (p.key m.name m.checkpoint state questions)
    (m.decide state questions) w
  have hdecide : (cachedDecisionModel p.key m false).decide state questions w =
      Memo.recorded reloaded id (p.key m.name m.checkpoint state questions)
        (m.decide state questions) w := rfl
  have hgrown : ((cachedDecisionModel p.key m false).decide state questions w).state.Grows last :=
    (growing_emit _ _).trans hlast
  rw [hdecide] at hheard hgrown
  rw [hr, ← hname, ← hcheckpoint] at hreads
  generalize Memo.recorded reloaded id (p.key m.name m.checkpoint state questions)
    (m.decide state questions) w = asked at hknown hheard hgrown
  -- the answer was recorded already, is recorded now, or failed, and then the stub misses it too
  cases hknown with
  | old hrecord =>
    rw [hgrown.record _ _ hrecord] at hreads
    cases hreads with
    | hit herror hanswers =>
      exact ⟨by rw [hheard.1, herror], hheard.2.symm.trans hanswers⟩
  | new hrecord =>
    rw [hgrown.record _ _ hrecord] at hreads
    cases hreads with
    | hit herror hanswers =>
      exact ⟨by rw [hheard.1, herror],
        hheard.2.symm.trans ((same_reloaded _).trans hanswers)⟩
  | failed hfailed =>
    rw [hP last hPlast _ (hgrown.failed _ hfailed)] at hreads
    cases hreads with
    | miss herror hanswers =>
      exact ⟨hheard.1.trans herror.symm, same_of_get fun name => by rw [hheard.2, hanswers]⟩

/-! ## A decision -/

variable {P : AnswerCache σ → Prop}

theorem keys_fromKeys (questions : Dict String Question) (reason reason' : String) :
    (fromKeys questions reason).keys = (fromKeys questions reason').keys := by
  have hfold : ∀ (names : List String) (d d' : Dict String String), d.keys = d'.keys →
      ((names.map fun name => (name, reason)).foldl (fun d e => d.set e.1 e.2) d).keys =
        ((names.map fun name => (name, reason')).foldl (fun d e => d.set e.1 e.2) d').keys := by
    intro names
    induction names with
    | nil => exact fun d d' hkeys => hkeys
    | cons name rest ih =>
      intro d d' hkeys
      exact ih _ _ (by rw [Dict.keys_set, Dict.keys_set, hkeys])
  exact hfold questions.keys .empty .empty rfl

/-- The same answers leave the same doubts. -/
theorem doubt_same {c : Cascade σ} {c' : Cascade τ} (hconfig : c.config = c'.config)
    {answers answers' : Dict String Answer} (hsame : Same answers answers') (name : String)
    (q : Question) : c.doubt answers name q = c'.doubt answers' name q := by
  have hname := hsame name
  unfold doubt highCardinality
  rw [hconfig]
  revert hname
  generalize answers.get? name = a, answers'.get? name = a'
  rintro (hab | _)
  · simp only [hab.confidence]
  · rfl

theorem uncertain_same {c : Cascade σ} {c' : Cascade τ} (hconfig : c.config = c'.config)
    {answers answers' : Dict String Answer} (hsame : Same answers answers')
    (questions : Dict String Question) :
    c.uncertain questions answers = c'.uncertain questions answers' := by
  unfold uncertain
  simp only [doubt_same hconfig hsame]

/-- Two first rounds that escalate the same. -/
structure First.Alike (f f' : First) : Prop where
  answers : Same f.answers f'.answers
  escalate : f.escalate.keys = f'.escalate.keys

/-- What is made of what Laya said. -/
def firstOf (c : Cascade σ) (questions : Dict String Question) (heard : Heard) : First :=
  { answers := heard.answers
    escalate := if heard.error.isSome then fromKeys questions "laya_error"
      else c.uncertain questions heard.answers }

theorem first_none {c : Cascade σ} (hlaya : c.laya = none) :
    c.first task state questions =
      pure { answers := .empty, escalate := fromKeys questions "no_laya" } := by
  rw [first, hlaya]

/-- Whether a state is too long for a model its context limit alone decides. -/
theorem exceeds_of_contextTokens {m : DecisionModel σ} {m' : DecisionModel τ}
    (h : m'.contextTokens = m.contextTokens) (state : Dict String String) :
    exceeds m' state = exceeds m state := by
  unfold exceeds
  rw [h]

theorem first_exceeds {c : Cascade σ} {m : DecisionModel σ} (hlaya : c.laya = some m)
    (hlong : exceeds m state) : c.first task state questions =
      pure { answers := .empty, escalate := fromKeys questions "state_exceeds_context" } := by
  rw [first, hlaya]
  dsimp only
  rw [if_pos hlong]

theorem first_called {c : Cascade σ} {m : DecisionModel σ} (hlaya : c.laya = some m)
    (hlong : ¬exceeds m state) : c.first task state questions =
      c.call m task state questions none false >>= fun heard => pure (c.firstOf questions heard) := by
  rw [first, hlaya]
  dsimp only
  rw [if_neg hlong]
  congr 1
  funext heard
  unfold firstOf
  split <;> rfl

theorem growing_first (task : Task) (state : Dict String String) (questions : Dict String Question) :
    Memo.Growing ((buildCascade p laya jev emit identity h).first task state questions) := by
  cases laya with
  | none =>
    rw [first_none rfl]
    exact Memo.growing_pure _
  | some m =>
    by_cases hlong : exceeds (cachedDecisionModel p.key m false) state
    · rw [first_exceeds rfl hlong]
      exact Memo.growing_pure _
    · rw [first_called rfl hlong]
      exact (growing_call m task state questions none false).bind fun heard => Memo.growing_pure _

variable (p replayEmit layaStub jevStub) in
/-- Where nothing was heard of Laya, everything is escalated, whatever the reason. -/
theorem first_unheard (task : Task) (state : Dict String String) (questions : Dict String Question)
    {r : AnswerCache τ} (hmiss : r.record.get? (p.key layaStub.name layaStub.checkpoint state
      questions) = none) :
    ∃ f, ∃ r' : AnswerCache τ, (replayCascade p layaStub jevStub replayEmit).first task state
        questions r = .ok f r' ∧ r'.record = r.record ∧ f.answers = .empty ∧
      f.escalate.keys = (fromKeys questions "no_laya").keys := by
  by_cases hlong : exceeds (cachedDecisionModel p.key (layaStub.model (τ := τ)) true) state
  · rw [first_exceeds rfl hlong]
    exact ⟨_, r, rfl, rfl, rfl, keys_fromKeys ..⟩
  · obtain ⟨heard, r', hcall, hr', hreads⟩ := call_replay p replayEmit layaStub jevStub layaStub
      task state questions none false r
    rw [hmiss] at hreads
    cases hreads with
    | miss herror hanswers =>
      rw [first_called rfl hlong]
      refine ⟨_, r', Effect.run_bind_ok hcall, hr', hanswers, ?_⟩
      rw [firstOf, if_pos herror]
      exact keys_fromKeys ..

theorem replays_first (hP : ∀ w, P w → Replayable p.key layaStub jevStub laya jev w) (task : Task)
    (state : Dict String String) (questions : Dict String Question) :
    Memo.Replays P ((buildCascade p laya jev emit identity h).first task state questions)
      ((replayCascade p layaStub jevStub replayEmit).first task state questions) First.Alike := by
  cases laya with
  | none =>
    intro w f w' hrun last _ hlast r hr
    rw [first_none rfl] at hrun
    cases hrun
    have hmiss := (hP last hlast).laya state questions
    rw [← hr] at hmiss
    obtain ⟨f', r', hfirst, hr', hanswers, hkeys⟩ := first_unheard p replayEmit layaStub jevStub
      task state questions hmiss
    exact ⟨f', r', hfirst, hr'.trans hr, same_of_get fun name => by rw [hanswers], hkeys.symm⟩
  | some m =>
    intro w f w' hrun last hlast hPlast r hr
    obtain ⟨hname, hcheckpoint, hcontext⟩ := (hP last hPlast).laya
    have hsize : exceeds (cachedDecisionModel p.key (layaStub.model (τ := τ)) true) state =
        exceeds (cachedDecisionModel p.key m false) state :=
      exceeds_of_contextTokens hcontext.symm state
    by_cases hlong : exceeds (cachedDecisionModel p.key m false) state
    · rw [first_exceeds rfl hlong] at hrun
      rw [first_exceeds rfl (hsize.trans hlong)]
      cases hrun
      exact ⟨_, r, rfl, hr, fun name => .none, rfl⟩
    · rw [first_called rfl hlong] at hrun
      rw [first_called rfl (hsize ▸ hlong)]
      have hcall := replays_call p emit replayEmit layaStub jevStub h hname hcheckpoint
        (fun w hw => (hP w hw).faithful) task state questions none none false
      refine (hcall.bind (fun heard => Memo.growing_pure _) fun heard heard' halike =>
        Memo.replays_pure ⟨halike.answers, ?_⟩) w f w' hrun last hlast hPlast r hr
      unfold firstOf
      rw [halike.error]
      split
      · rfl
      · exact congrArg Dict.keys (uncertain_same rfl halike.answers questions)

def Second.Alike (s s' : Second) : Prop := Same s.answers s'.answers

/-- What is made of what Jev said. -/
def secondOf (heard : Heard) : Second :=
  { answers := heard.answers
    reason := if heard.error.isSome then "jev_unavailable" else "jev_not_configured" }

theorem second_called {c : Cascade σ} {m : DecisionModel σ} (hjev : c.jev = some m)
    {asked : Dict String Question} (escalation : String) :
    c.second task state asked escalation =
      c.call m task state asked (some escalation) false >>= fun heard => pure (secondOf heard) := by
  rw [second, hjev]
  rfl

theorem growing_second (task : Task) (state : Dict String String) (asked : Dict String Question)
    (escalation : String) :
    Memo.Growing ((buildCascade p laya jev emit identity h).second task state asked escalation) := by
  cases jev with
  | none => exact Memo.growing_pure _
  | some m =>
    rw [second_called rfl]
    exact (growing_call m task state asked _ false).bind fun heard => Memo.growing_pure _

theorem replays_second (hP : ∀ w, P w → Replayable p.key layaStub jevStub laya jev w) (task : Task)
    (state : Dict String String) (asked : Dict String Question) (escalation escalation' : String) :
    Memo.Replays P ((buildCascade p laya jev emit identity h).second task state asked escalation)
      ((replayCascade p layaStub jevStub replayEmit).second task state asked escalation')
      Second.Alike := by
  intro w s w' hrun last hlast hPlast r hr
  cases jev with
  | none =>
    cases hrun
    have hmiss := (hP last hPlast).jev state asked
    obtain ⟨heard, r', hcall, hr', hreads⟩ := call_replay p replayEmit layaStub jevStub jevStub
      task state asked (some escalation') false r
    rw [hr, hmiss] at hreads
    cases hreads with
    | miss herror hanswers =>
      refine ⟨_, r', Effect.run_bind_ok hcall, hr'.trans hr, ?_⟩
      exact same_of_get fun name => by rw [hanswers]
  | some m =>
    obtain ⟨hname, hcheckpoint, -⟩ := (hP last hPlast).jev
    have hcall := replays_call p emit replayEmit layaStub jevStub h hname hcheckpoint
      (fun w hw => (hP w hw).faithful) task state asked (some escalation) (some escalation') false
    rw [second_called rfl] at hrun
    rw [second_called rfl]
    have hsecond : ∀ heard heard' : Heard, heard.Alike heard' →
        (secondOf heard).Alike (secondOf heard') := fun heard heard' halike => halike.answers
    exact (hcall.bind (fun heard => Memo.growing_pure _) fun heard heard' halike =>
      Memo.replays_pure (hsecond heard heard' halike)) w s w' hrun last hlast hPlast r hr

/-- What a replay makes of a decision. -/
structure Reproduces (r r' : CascadeResult) : Prop where
  answers : Same r.answers r'.answers
  abstained : ∀ name, name ∈ r.abstained.keys ↔ name ∈ r'.abstained.keys
  escalated : r.escalated.keys = r'.escalated.keys

/-- The start of a settlement. -/
def begun (f : First) : CascadeResult :=
  { answers := kept f, abstained := .empty, escalated := f.escalate, shadow := false }

theorem kept_alike {f f' : First} (hf : f.Alike f') : Same (kept f) (kept f') := by
  intro name
  rw [kept_get, kept_get, hf.escalate]
  split
  · exact .none
  · exact hf.answers name

/-- Answers that are settled alike. -/
theorem settled_alike {f f' : First} (hf : f.Alike f') {s s' : Second}
    (hs : s.Alike s') (names : List String) :
    Reproduces (names.foldl (settle s) (begun f)) (names.foldl (settle s') (begun f')) := by
  obtain ⟨hescalated, hanswers, habstained⟩ := settle_all s names (begun f)
  obtain ⟨hescalated', hanswers', habstained'⟩ := settle_all s' names (begun f')
  refine ⟨fun name => ?_, fun name => ?_, ?_⟩
  · have hkept := kept_alike hf name
    have hname := hs name
    rw [hanswers, hanswers']
    unfold begun
    revert hkept hname
    generalize (kept f).get? name = k, (kept f').get? name = k', s.answers.get? name = a,
      s'.answers.get? name = a'
    intro hkept hname
    split
    · cases hname with
      | some hab => exact .some hab
      | none => exact hkept
    · exact hkept
  · rw [Dict.mem_keys_iff, Dict.mem_keys_iff, habstained, habstained']
    have hname := hs name
    revert hname
    generalize s.answers.get? name = a, s'.answers.get? name = a'
    rintro (hab | _)
    · simp [begun]
    · by_cases hmem : name ∈ names <;> simp [hmem, begun]
  · rw [hescalated, hescalated']
    exact hf.escalate

theorem growing_ofExcept {α : Type} (e : Except Exc α) :
    Memo.Growing (ofExcept e : EStateM Exc (AnswerCache σ) α) := by
  cases e with
  | ok a => exact Memo.growing_pure a
  | error e => exact Memo.growing_throw e

/-- Escalated questions, asked of Jev and settled. -/
def escalated (c : Cascade σ) (task : Task) (state : Dict String String)
    (questions : Dict String Question) (f : First) : EStateM Exc σ CascadeResult := do
  let asked ← ofExcept (askedOf questions f.escalate.keys)
  let s ← c.second task state (.ofList asked) (reasons f.escalate)
  return (asked.map Prod.fst).foldl (settle s) (begun f)

/-- Laya's answers, of which Jev may be shown the questions. -/
def shadowed (c : Cascade σ) (task : Task) (state : Dict String String)
    (questions : Dict String Question) (result : CascadeResult) : EStateM Exc σ CascadeResult :=
  match c.jev with
  | none => return result
  | some jev => do
    if c.sampled task state questions then
      let _ ← c.call jev task state questions none true
      return { result with shadow := true }
    else return result

theorem decide_eq (c : Cascade σ) (task : Task) (state : Dict String String)
    (questions : Dict String Question) :
    c.decide task state questions = c.first task state questions >>= fun f =>
      if f.escalate.entries ≠ [] then c.escalated task state questions f
      else c.shadowed task state questions
        { answers := kept f, abstained := .empty, escalated := .empty, shadow := false } := rfl

theorem growing_escalated (task : Task) (state : Dict String String)
    (questions : Dict String Question) (f : First) :
    Memo.Growing ((buildCascade p laya jev emit identity h).escalated task state questions f) :=
  (growing_ofExcept _).bind fun _ => (growing_second task state _ _).bind fun _ =>
    Memo.growing_pure _

theorem growing_shadowed (task : Task) (state : Dict String String)
    (questions : Dict String Question) (result : CascadeResult) :
    Memo.Growing ((buildCascade p laya jev emit identity h).shadowed task state questions result) := by
  cases jev with
  | none => exact Memo.growing_pure _
  | some m =>
    have hjev : (buildCascade p laya (some m) emit identity h).jev =
      some (cachedDecisionModel p.key m false) := rfl
    rw [shadowed, hjev]
    dsimp only
    split
    · exact (growing_call m task state questions none true).bind fun heard => Memo.growing_pure _
    · exact Memo.growing_pure _

theorem growing_decide (task : Task) (state : Dict String String) (questions : Dict String Question) :
    Memo.Growing ((buildCascade p laya jev emit identity h).decide task state questions) := by
  rw [decide_eq]
  refine (growing_first task state questions).bind fun f => ?_
  split
  · exact growing_escalated task state questions f
  · exact growing_shadowed task state questions _

theorem replays_ofExcept {α : Type} (e : Except Exc α) :
    Memo.Replays P (ofExcept e : EStateM Exc (AnswerCache σ) α)
      (ofExcept e : EStateM Exc (AnswerCache τ) α) Eq := by
  cases e with
  | ok a => exact Memo.replays_pure rfl
  | error e =>
    intro w a w' hrun
    cases hrun

theorem replays_escalated (hP : ∀ w, P w → Replayable p.key layaStub jevStub laya jev w)
    (task : Task) (state : Dict String String) (questions : Dict String Question) {f f' : First}
    (hf : f.Alike f') :
    Memo.Replays P ((buildCascade p laya jev emit identity h).escalated task state questions f)
      ((replayCascade p layaStub jevStub replayEmit).escalated task state questions f')
      Reproduces := by
  unfold escalated
  rw [← hf.escalate]
  refine (replays_ofExcept _).bind (fun asked => ?_) fun asked asked' hasked => ?_
  · exact (growing_second task state _ _).bind fun s => Memo.growing_pure _
  · subst hasked
    refine (replays_second hP task state _ _ _).bind (fun s => Memo.growing_pure _) fun s s' hs => ?_
    exact Memo.replays_pure (settled_alike hf hs _)

variable (p replayEmit layaStub jevStub) in
/-- A call whose answers are not used, in a replay. -/
theorem shadowed_replay (task : Task) (state : Dict String String) (questions : Dict String Question)
    (result : CascadeResult) (r : AnswerCache τ) :
    ∃ result', ∃ r' : AnswerCache τ, (replayCascade p layaStub jevStub replayEmit).shadowed task
        state questions result r = .ok result' r' ∧ r'.record = r.record ∧
      result'.answers = result.answers ∧ result'.abstained = result.abstained ∧
      result'.escalated = result.escalated := by
  have hjev : (replayCascade p layaStub jevStub replayEmit).jev =
    some (cachedDecisionModel p.key jevStub.model true) := rfl
  rw [shadowed, hjev]
  dsimp only
  split
  · obtain ⟨heard, r', hcall, hr', -⟩ := call_replay p replayEmit layaStub jevStub jevStub task
      state questions none true r
    exact ⟨_, r', Effect.run_bind_ok hcall, hr', rfl, rfl, rfl⟩
  · exact ⟨_, r, rfl, rfl, rfl, rfl, rfl⟩

/-- Showing Jev the questions changes nothing of a result but that. -/
theorem shadowed_result {c : Cascade σ} {result result' : CascadeResult} {w w' : σ}
    (hrun : c.shadowed task state questions result w = .ok result' w') :
    result'.answers = result.answers ∧ result'.abstained = result.abstained ∧
      result'.escalated = result.escalated := by
  cases hjev : c.jev with
  | none =>
    rw [shadowed, hjev] at hrun
    cases hrun
    exact ⟨rfl, rfl, rfl⟩
  | some jev =>
    rw [shadowed, hjev] at hrun
    dsimp only at hrun
    split at hrun
    · cases hrun
      exact ⟨rfl, rfl, rfl⟩
    · cases hrun
      exact ⟨rfl, rfl, rfl⟩

theorem replays_decide (hP : ∀ w, P w → Replayable p.key layaStub jevStub laya jev w)
    (task : Task) (state : Dict String String) (questions : Dict String Question) :
    Memo.Replays P ((buildCascade p laya jev emit identity h).decide task state questions)
      ((replayCascade p layaStub jevStub replayEmit).decide task state questions) Reproduces := by
  rw [decide_eq, decide_eq]
  refine (replays_first hP task state questions).bind (fun f => ?_) fun f f' hf => ?_
  · split
    · exact growing_escalated task state questions f
    · exact growing_shadowed task state questions _
  · have hentries : f.escalate.entries ≠ [] ↔ f'.escalate.entries ≠ [] := by
      have hkeys := congrArg List.length hf.escalate
      simp only [Dict.keys, List.length_map] at hkeys
      rw [← List.length_pos_iff, ← List.length_pos_iff, hkeys]
    by_cases hnone : f.escalate.entries ≠ []
    · rw [if_pos hnone, if_pos (hentries.mp hnone)]
      exact replays_escalated hP task state questions hf
    · rw [if_neg hnone, if_neg (mt hentries.mpr hnone)]
      intro w result w' hrun last _ _ r hr
      obtain ⟨result', r', hshadowed, hr', hanswers', habstained', hescalated'⟩ :=
        shadowed_replay p replayEmit layaStub jevStub task state questions
          { answers := kept f', abstained := .empty, escalated := .empty, shadow := false } r
      obtain ⟨hanswers, habstained, hescalated⟩ := shadowed_result hrun
      refine ⟨result', r', hshadowed, hr'.trans hr, ?_, ?_, ?_⟩
      · rw [hanswers, hanswers']
        exact kept_alike hf
      · intro name
        rw [habstained, habstained']
      · rw [hescalated, hescalated']

end Cascade

/-- What the cascade is asked for. -/
structure Request where
  task : Task
  state : Dict String String
  questions : Dict String Question

/-- One decision after another. -/
def decideAll (c : Cascade σ) (requests : List Request) : EStateM Exc σ (List CascadeResult) :=
  Memo.each (fun r => c.decide r.task r.state r.questions) requests

/-- Whatever the models raise, everything asked for is decided. -/
theorem decideAll_ok (c : Cascade σ) (requests : List Request) (w : σ) :
    ∃ results w', decideAll c requests w = .ok results w' := by
  unfold decideAll
  induction requests generalizing w with
  | nil => exact ⟨[], w, rfl⟩
  | cons r rest ih =>
    obtain ⟨result, w₁, -, hfirst, -⟩ := Cascade.decide_settled c r.task r.state r.questions w
    obtain ⟨results, w₂, hrest⟩ := ih w₁
    refine ⟨result :: results, w₂, ?_⟩
    rw [Memo.each, Effect.run_bind_ok hfirst, Effect.run_bind_ok hrest]
    rfl

theorem replays_decisions (p : CascadeParts) {laya jev : Option (DecisionModel σ)}
    (h : laya.isSome ∨ jev.isSome) (emit : DecisionModelCall → σ → σ)
    (replayEmit : DecisionModelCall → τ → τ) {layaStub jevStub : ReplayStub}
    {requests : List Request} {w w' : AnswerCache σ} {results : List CascadeResult}
    (hlive : decideAll (buildCascade p laya jev emit identity h) requests w = .ok results w')
    (hend : Replayable p.key layaStub jevStub laya jev w') (world : τ) :
    ∃ results', ∃ r : AnswerCache τ,
      decideAll (replayCascade p layaStub jevStub replayEmit) requests ⟨world, w'.record, []⟩ =
        .ok results' r ∧ r.record = w'.record ∧
      List.Forall₂ Cascade.Reproduces results results' := by
  have hall : Memo.Replays (Replayable p.key layaStub jevStub laya jev)
      (decideAll (buildCascade p laya jev emit identity h) requests)
      (decideAll (replayCascade p layaStub jevStub replayEmit) requests)
      (List.Forall₂ Cascade.Reproduces) :=
    Memo.replays_each (fun r => Cascade.growing_decide r.task r.state r.questions)
      (fun r => Cascade.replays_decide (fun _ hw => hw) r.task r.state r.questions) requests
  exact hall w results w' hlive w' (.refl w') hend ⟨world, w'.record, []⟩ rfl

namespace UnsureLaya

open UnaskedAnswer

def parts : CascadeParts :=
  { key := fun name _ state _ => name ++ String.join state.values, config, bucket := fun _ _ _ => 0 }

def answers (confidence : ℚ) : Dict String Answer := .ofList [("relevant", answer confidence)]

def laya : DecisionModel Unit := { UnaskedAnswer.laya with decide := fun _ _ => pure (answers (1 / 2)) }

theorem jev_ne : "jev" ≠ "" := by decide

/-- It cannot answer of an empty state. -/
def jev : DecisionModel Unit :=
  { name := "jev", checkpoint := "jev", device := none, contextTokens := some 64000
    decide := fun state _ =>
      if state.entries = [] then throw (.decisionModelError "malformed reply")
      else pure (answers (9 / 10))
    name_ne := jev_ne, checkpoint_ne := jev_ne }

def request (text : String) : Request := ⟨task, .ofList [("headline", text)], questions⟩

def requests : List Request := [request "Results", ⟨task, .empty, questions⟩, request "Results"]

def live : EStateM.Result Exc (AnswerCache Unit) (List CascadeResult) :=
  decideAll (buildCascade parts (some laya) (some jev) (fun _ w => w) identity (.inl rfl))
    requests ⟨(), .empty, []⟩

def layaStub : ReplayStub := ⟨"laya", "english", some 512, laya_ne, english_ne⟩

def jevStub : ReplayStub := ⟨"jev", "jev", some 64000, jev_ne, jev_ne⟩

def results : List CascadeResult :=
  match live with
  | .ok results _ => results
  | .error _ _ => []

end UnsureLaya

open UnsureLaya in
theorem replays_decisions_unsure :
    ∃ results', ∃ r : AnswerCache Unit,
      decideAll (replayCascade parts layaStub jevStub fun _ w => w) requests
        ⟨(), live.state.record, []⟩ = .ok results' r ∧ r.record = live.state.record ∧
      List.Forall₂ Cascade.Reproduces results results' := by
  have hlive : live = .ok results live.state := by
    obtain ⟨results, w', hok⟩ := decideAll_ok _ _ _
    unfold UnsureLaya.results
    rw [show live = .ok results w' from hok]
    rfl
  have hend : Replayable parts.key layaStub jevStub (some laya) (some jev) live.state :=
    ⟨by unfold Memo.Faithful; decide +kernel, ⟨rfl, rfl, rfl⟩, ⟨rfl, rfl, rfl⟩⟩
  exact replays_decisions parts (.inl rfl) (fun _ w => w) (fun _ w => w) hlive hend ()

end DecisionModels

end RakshaQuant
