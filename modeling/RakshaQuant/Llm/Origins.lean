import RakshaQuant.Lib.Frame
import RakshaQuant.Llm.Router

/-! Where the router's answers come from: a provider replied in this very call, or it had replied to
the same prompt before and the reply was stored. -/

namespace RakshaQuant

namespace Router

open Effect

variable {α : Type} {config : RouterConfig} {request : LLMRequest α} {model : ModelSpec} {n : ℕ}
  {r r' : Router} {out : α}

/-- What is stored is all the same. -/
abbrev LeavesCache {β : Type} (m : M β) : Prop := Leaves Router.cache m

theorem leaves_record (now : Instant) (f : LLMFields) : LeavesCache (record now f) := by
  unfold record
  split
  · exact .change fun _ => rfl
  · exact .throw _

theorem leaves_readRateHeaders (config : RouterConfig) (provider : String) (now : Instant)
    (headers : Dict String String) (pairs : List (String × String)) :
    LeavesCache (readRateHeaders config provider now headers pairs) := by
  induction pairs with
  | nil => exact .pure _
  | cons pair rest ih =>
    rw [readRateHeaders]
    split
    · split
      · exact .throw _
      · exact ih
      · exact .bind (.change fun _ => rfl) fun _ => ih
    · exact ih

/-- What an attempt hands back, if anything, is of this origin, and else nothing was stored. -/
def Yields (origin : α → Prop) (cache : Dict String String) (m : M (Attempted α)) (r : Router) :
    Prop :=
  ∀ outcome got error r', m r = .ok (outcome, got, error) r' →
    (∀ parsed cost hit, got = some (parsed, cost, hit) → origin parsed) ∧
      (got = none → r'.cache = cache)

variable {origin : α → Prop} {cache : Dict String String}

theorem Yields.none (hr : r.cache = cache) (outcome : LLMOutcome) (error : Option String) :
    Yields origin cache (pure (outcome, none, error)) r := by
  intro outcome' got error' r' hrun
  cases hrun
  exact ⟨fun _ _ _ h => (nomatch h), fun _ => hr⟩

theorem Yields.some {parsed : α} (h : origin parsed) (outcome : LLMOutcome) (cost : ℚ) (hit : Bool)
    (error : Option String) :
    Yields origin cache (pure (outcome, some (parsed, cost, hit), error)) r := by
  intro outcome' got error' r' hrun
  cases hrun
  refine ⟨fun parsed' cost' hit' heq => ?_, fun hnone => (nomatch hnone)⟩
  cases heq
  exact h

theorem Yields.throw (e : Exc) : Yields origin cache (throw e) r := by
  intro outcome got error r' hrun
  cases hrun

theorem Yields.after {β : Type} {m : M β} {f : β → M (Attempted α)}
    (hf : ∀ b s, Yields origin cache (f b) s) : Yields origin cache (m >>= f) r := by
  intro outcome got error r' hrun
  rw [run_bind] at hrun
  cases hm : m r with
  | ok b s =>
    rw [hm] at hrun
    exact hf b s outcome got error r' hrun
  | error e s =>
    rw [hm] at hrun
    cases hrun

/-- The same, after something that stores nothing. -/
theorem Yields.bind {β : Type} {m : M β} {f : β → M (Attempted α)} (hm : LeavesCache m)
    (hr : r.cache = cache) (hf : ∀ b s, s.cache = cache → Yields origin cache (f b) s) :
    Yields origin cache (m >>= f) r := by
  intro outcome got error r' hrun
  have hleft := hm r
  rw [run_bind] at hrun
  cases hrun' : m r with
  | ok b s =>
    rw [hrun'] at hrun hleft
    exact hf b s (hleft.trans hr) outcome got error r' hrun
  | error e s =>
    rw [hrun'] at hrun
    cases hrun

theorem yields_recordFailure (hr : r.cache = cache) (outcome : LLMOutcome)
    (error returned : String) :
    Yields origin cache (recordFailure config request model n outcome error returned) r :=
  .bind (leaves_record _ _) hr fun _ _ hs => .none hs _ _

/-- A provider replied with this in a call. -/
def Replied (request : LLMRequest α) (out : α) : Prop :=
  ∃ n reply, (request.turn n).answer = .reply reply ∧ reply.parsed = out

theorem yields_accept (hr : r.cache = cache) {reply : ClientReply α}
    (hanswer : (request.turn n).answer = .reply reply) :
    Yields (Replied request) cache (accept config request model n reply) r := by
  refine .bind (.change fun _ => rfl) hr fun _ _ hs => ?_
  refine .bind (leaves_readRateHeaders _ _ _ _ _) hs fun _ _ hs => ?_
  refine .bind (.change fun _ => rfl) hs fun _ _ hs => ?_
  refine .bind (leaves_record _ _) hs fun _ _ hs => ?_
  split
  · exact .after fun _ _ => .some ⟨n, reply, hanswer, rfl⟩ _ _ _ _
  · exact .none hs _ _

theorem yields_ask (hr : r.cache = cache) :
    Yields (Replied request) cache (ask config request model n) r := by
  unfold ask
  cases hanswer : (request.turn n).answer with
  | timeout =>
    simp only [hanswer]
    exact .bind (.change fun _ => rfl) hr fun _ _ hs => yields_recordFailure hs _ _ _
  | failed name message =>
    simp only [hanswer]
    exact .bind (.change fun _ => rfl) hr fun _ _ hs => yields_recordFailure hs _ _ _
  | reply reply =>
    simp only [hanswer]
    exact yields_accept hr hanswer
  | llmError e =>
    simp only [hanswer]
    split
    · exact .throw _
    · split
      · exact .bind (.change fun _ => rfl) hr fun _ _ hs => yields_recordFailure hs _ _ _
      · split
        · exact .bind (.change fun _ => rfl) hr fun _ _ hs => yields_recordFailure hs _ _ _
        · exact yields_recordFailure hr _ _ _

/-- An answer of the router was stored for this prompt, or a provider replied with it now. -/
def Origin (config : RouterConfig) (request : LLMRequest α) (r : Router) (out : α) : Prop :=
  (∃ model ∈ chainOf config request.role, cached config request model r = some out) ∨
    Replied request out

theorem cached_congr (h : r.cache = r'.cache) :
    cached config request model r = cached config request model r' := by
  rw [cached, cached, h]

theorem yields_attempt (r : Router) :
    Yields (fun out => cached config request model r = some out ∨ Replied request out) r.cache
      (attempt config request model n) r := by
  unfold attempt
  intro outcome got error r' hrun
  rw [run_bind_ok (run_get r)] at hrun
  revert hrun
  cases hcached : cached config request model r with
  | some parsed =>
    exact Yields.after (fun _ _ => .some (.inl rfl) _ _ _ _) outcome got error r'
  | none =>
    cases hskips : skips config request model (request.turn n).now r with
    | some skipped =>
      exact Yields.bind (leaves_record _ _) rfl (fun _ _ hs => .none hs _ _) outcome got error r'
    | none =>
      intro hrun
      obtain ⟨hsome, hnone⟩ := yields_ask rfl outcome got error r' hrun
      exact ⟨fun parsed cost hit h => .inr (hsome parsed cost hit h), hnone⟩

theorem tryChain_origin {chain : List ModelSpec} {n : ℕ} {last : LLMOutcome} {error : Option String}
    {result : LLMResult α}
    (h : tryChain config request chain n last error r = .ok result r')
    (hparsed : result.parsed = some out) :
    (∃ model ∈ chain, cached config request model r = some out) ∨ Replied request out := by
  induction chain generalizing n last error r with
  | nil =>
    cases h
    cases hparsed
  | cons model rest ih =>
    rw [tryChain, run_bind] at h
    cases hrun : attempt config request model n r with
    | error e s =>
      rw [hrun] at h
      cases h
    | ok attempted s =>
      obtain ⟨outcome, got, why⟩ := attempted
      rw [hrun] at h
      obtain ⟨hsome, hnone⟩ := yields_attempt r outcome got why s hrun
      cases got with
      | some got =>
        obtain ⟨parsed, cost, hit⟩ := got
        cases h
        cases hparsed
        exact (hsome _ _ _ rfl).imp_left fun hc => ⟨model, List.mem_cons_self, hc⟩
      | none =>
        refine (ih h).imp_left ?_
        rintro ⟨model', hmem, hc⟩
        exact ⟨model', List.mem_cons_of_mem _ hmem, (cached_congr (hnone rfl)).symm.trans hc⟩

/-- Nothing else makes up an answer. -/
theorem complete_origin {result : LLMResult α} (h : complete config request r = .ok result r')
    (hparsed : result.parsed = some out) : Origin config request r out := by
  unfold complete at h
  split at h
  · cases h
    cases hparsed
  · rw [run_bind_ok (run_modify ..)] at h
    refine (tryChain_origin h hparsed).imp_left ?_
    rintro ⟨model, hmem, hc⟩
    have hcache : (r.rollDay request.start).cache = r.cache := by
      unfold rollDay
      split <;> rfl
    exact ⟨model, hmem, (cached_congr hcache).symm.trans hc⟩

/-! ## Calls that nothing answers -/

/-- No provider replies in the call. -/
def Unreplied (request : LLMRequest α) : Prop :=
  ∀ n reply, (request.turn n).answer ≠ .reply reply

theorem leaves_recordFailure (outcome : LLMOutcome) (error returned : String) :
    LeavesCache (recordFailure config request model n outcome error returned) :=
  .bind (leaves_record _ _) fun _ => .pure _

theorem leaves_ask (hnone : Unreplied request) : LeavesCache (ask config request model n) := by
  unfold ask
  cases hanswer : (request.turn n).answer with
  | reply reply => exact absurd hanswer (hnone n reply)
  | timeout =>
    simp only [hanswer]
    exact .bind (.change fun _ => rfl) fun _ => leaves_recordFailure _ _ _
  | failed name message =>
    simp only [hanswer]
    exact .bind (.change fun _ => rfl) fun _ => leaves_recordFailure _ _ _
  | llmError e =>
    simp only [hanswer]
    split
    · exact .throw _
    · split
      · exact .bind (.change fun _ => rfl) fun _ => leaves_recordFailure _ _ _
      · split
        · exact .bind (.change fun _ => rfl) fun _ => leaves_recordFailure _ _ _
        · exact leaves_recordFailure _ _ _

theorem leaves_attempt (hnone : Unreplied request) :
    LeavesCache (attempt config request model n) := by
  unfold attempt
  refine .read fun r => ?_
  split
  · exact .bind (leaves_record _ _) fun _ => .pure _
  · split
    · exact .bind (leaves_record _ _) fun _ => .pure _
    · exact leaves_ask hnone

theorem leaves_tryChain (hnone : Unreplied request) (chain : List ModelSpec) (n : ℕ)
    (last : LLMOutcome) (error : Option String) :
    LeavesCache (tryChain config request chain n last error) := by
  induction chain generalizing n last error with
  | nil => exact .pure _
  | cons model rest ih =>
    rw [tryChain]
    refine (leaves_attempt hnone).bind fun attempted => ?_
    unfold finish
    split
    · exact .pure _
    · exact ih _ _ _

/-- Only replies are stored. -/
theorem leaves_complete (hnone : Unreplied request) : LeavesCache (complete config request) := by
  unfold complete
  dsimp only
  split
  · exact .pure _
  · refine .bind (.change fun r => ?_) fun _ => leaves_tryChain hnone _ _ _ _
    unfold rollDay
    split <;> rfl

end Router

end RakshaQuant
