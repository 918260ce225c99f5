import RakshaQuant.Decision.Dispositions

/-! An advisor can only veto. What a book proposes, and in which order, is settled
before its advisor is asked about the first proposal; the intents its OMS is given
are the proposals that the advisor did not veto. Two cycles that differ in their
advisors therefore differ by vetoes, as long as no submission ends one of them. -/

namespace RakshaQuant

open RakshaQuant.Cycle

variable {σ : Type} {e : DecisionEngine σ} {r : Readings} {quotes : Dict String Quote}

/-- The intents that were not vetoed. -/
def passed (reviews : List (OrderIntent × Option Verdict)) : List OrderIntent :=
  (reviews.filter fun review => review.2 ≠ some .veto).map Prod.fst

theorem passed_append (vs vs' : List (OrderIntent × Option Verdict)) :
    passed (vs ++ vs') = passed vs ++ passed vs' := by
  simp [passed]

theorem passed_sublist (vs : List (OrderIntent × Option Verdict)) :
    List.Sublist (passed vs) (vs.map Prod.fst) :=
  List.filter_sublist.map _

/-- Without a verdict nothing is vetoed. -/
theorem passed_unadvised {vs : List (OrderIntent × Option Verdict)}
    (h : ∀ v ∈ vs, v.2 = none) : passed vs = vs.map Prod.fst := by
  rw [passed, List.filter_eq_self.mpr fun v hv => by simp [h v hv]]

namespace DecisionEngine

theorem advise_distinct (advisors : String → Option (Advisor σ)) (e : DecisionEngine σ) :
    ((e.books.map fun book => { book with advisor := advisors book.bookId }).map
      BookTarget.bookId).Nodup := by
  rw [List.map_map]
  exact e.distinct

/-- The same engine with other advisors. -/
def advise (advisors : String → Option (Advisor σ)) (e : DecisionEngine σ) : DecisionEngine σ :=
  { e with
    books := e.books.map fun book => { book with advisor := advisors book.bookId }
    distinct := advise_distinct advisors e }

/-- `run_cycle` with other advisors. -/
def advised (advisors : String → Option (Advisor σ)) (e : DecisionEngine σ) (r : Readings)
    (instruments : List Instrument) (regime : Option Regime) (world : σ) :
    EStateM.Result Exc (Cycle σ) PUnit :=
  (e.advise advisors).runCycle r instruments regime world

end DecisionEngine

/-! ## What one book is asked and given -/

namespace Cycle

/-- From one cycle to the next the advisor of a book was asked about the first of these
intents, about all of them if it `returned`, and the OMS was given what passed. -/
structure Heard (b : String) (intents : List OrderIntent) (unadvised returned : Prop)
    (c c' : Cycle σ) : Prop where
  features : c'.features = c.features
  candidates : c'.candidates = c.candidates
  asked : ∃ vs, c'.reviewsOf b = c.reviewsOf b ++ vs ∧ c'.givenTo b = c.givenTo b ++ passed vs ∧
    vs.map Prod.fst <+: intents ∧ (returned → vs.map Prod.fst = intents) ∧
    (unadvised → ∀ v ∈ vs, v.2 = none)

theorem Heard.nothing {b : String} {unadvised : Prop} {c c' : Cycle σ}
    (hfeatures : c'.features = c.features) (hcandidates : c'.candidates = c.candidates)
    (hreviews : c'.reviewsOf b = c.reviewsOf b) (hgiven : c'.givenTo b = c.givenTo b)
    (returned : Prop) : Heard b [] unadvised returned c c' :=
  ⟨hfeatures, hcandidates, [], by simp [hreviews], by simp [hgiven, passed], List.nil_prefix,
    fun _ => rfl, fun _ v hv => by cases hv⟩

theorem Heard.trans {b : String} {is js : List OrderIntent} {unadvised returned : Prop}
    {c₁ c₂ c₃ : Cycle σ} (h : Heard b is unadvised True c₁ c₂)
    (h' : Heard b js unadvised returned c₂ c₃) :
    Heard b (is ++ js) unadvised returned c₁ c₃ := by
  obtain ⟨vs, hreviews, hgiven, -, hall, hnone⟩ := h.asked
  obtain ⟨ws, hreviews', hgiven', hgrown, hall', hnone'⟩ := h'.asked
  refine ⟨h'.features.trans h.features, h'.candidates.trans h.candidates, vs ++ ws, ?_, ?_, ?_,
    ?_, ?_⟩
  · rw [hreviews', hreviews, List.append_assoc]
  · rw [hgiven', hgiven, passed_append, List.append_assoc]
  · rw [List.map_append, hall trivial]
    exact (List.prefix_append_right_inj is).mpr hgrown
  · intro hreturned
    rw [List.map_append, hall trivial, hall' hreturned]
  · intro hun v hv
    rcases List.mem_append.mp hv with hv | hv
    · exact hnone hun v hv
    · exact hnone' hun v hv

/-- What was raised on the way leaves the rest unasked. -/
theorem Heard.stopped {b : String} {is : List OrderIntent} {unadvised returned stopped : Prop}
    {c c' : Cycle σ} (h : Heard b is unadvised returned c c') (hstopped : ¬stopped)
    (js : List OrderIntent) : Heard b (is ++ js) unadvised stopped c c' := by
  obtain ⟨vs, hreviews, hgiven, hgrown, -, hnone⟩ := h.asked
  exact ⟨h.features, h.candidates, vs, hreviews, hgiven,
    hgrown.trans (List.prefix_append is js), fun hreturned => absurd hreturned hstopped, hnone⟩

/-- Two steps, the second of which is not taken when the first raises. -/
theorem Heard.bind {b : String} {is js : List OrderIntent} {unadvised : Prop} {c : Cycle σ}
    {m m' : EStateM Exc (Cycle σ) PUnit}
    (h : Heard b is unadvised ((m c).raised = none) c (m c).state)
    (h' : ∀ c', c' = (m c).state → Heard b js unadvised ((m' c').raised = none) c' (m' c').state) :
    Heard b (is ++ js) unadvised (((m >>= fun _ => m') c).raised = none) c
      ((m >>= fun _ => m') c).state := by
  rw [Effect.run_bind]
  cases hrun : m c with
  | error exc c' =>
    rw [hrun] at h
    exact h.stopped (by simp [EStateM.Result.raised]) js
  | ok _ c' =>
    rw [hrun] at h h'
    obtain ⟨vs, hreviews, hgiven, hgrown, hall, hnone⟩ := h.asked
    have hdone : Heard b is unadvised True c c' :=
      ⟨h.features, h.candidates, vs, hreviews, hgiven, hgrown, fun _ => hall rfl, hnone⟩
    exact hdone.trans (h' c' rfl)

end Cycle

namespace DecisionEngine

/-! ## One book -/

/-- The part of some intents that is `b`'s, when they are the book's. -/
def share (b : String) (book : BookTarget σ) (intents : List OrderIntent) : List OrderIntent :=
  if book.bookId = b then intents else []

theorem share_cons (b : String) (book : BookTarget σ) (i : OrderIntent)
    (is : List OrderIntent) : share b book (i :: is) = share b book [i] ++ share b book is := by
  by_cases h : book.bookId = b <;> simp [share, h]

/-- However a submission ends, its intent was asked about, and given unless vetoed. -/
theorem submit_heard {b : String} {book : BookTarget σ} {unadvised : Prop}
    (hbook : unadvised → book.bookId = b → book.advisor = none) {p : Proposal}
    (hatr : 0 < p.atr) (f : Features) (c : Cycle σ) (returned : Prop) :
    Heard b (share b book [p.intent]) unadvised returned c (submit book p f c).state := by
  obtain ⟨verdict, c', hasked, hends⟩ := submit_cases book hatr f c
  have hstate : (submit book p f c).state = c' := by
    obtain ⟨-, hrun, -⟩ | ⟨-, -, hanswer⟩ := hends
    · rw [hrun]
      rfl
    · obtain ⟨world, exc, -, hrun⟩ | ⟨status, detail, coid, hrun, -⟩ := hanswer
      · rw [hrun]
        rfl
      · rw [hrun]
        rfl
  have hgiven : verdict = some .veto ∧ c'.given = c.given ∨
      verdict ≠ some .veto ∧ c'.given = c.given ++ [(book.bookId, p.intent)] := by
    obtain ⟨hveto, -, hgiven, -⟩ | ⟨hveto, hgiven, -⟩ := hends
    · exact .inl ⟨hveto, hgiven⟩
    · exact .inr ⟨hveto, hgiven⟩
  rw [hstate]
  by_cases hb : book.bookId = b
  · rw [share, if_pos hb]
    refine ⟨hasked.features, hasked.candidates, [(p.intent, verdict)], ?_, ?_, ?_, ?_, ?_⟩
    · simp [reviewsOf, hasked.reviews, hb]
    · obtain ⟨hveto, hgiven⟩ | ⟨hveto, hgiven⟩ := hgiven
      · simp [givenTo, hgiven, passed, hveto]
      · simp [givenTo, hgiven, passed, hveto, hb]
    · exact List.prefix_rfl
    · exact fun _ => rfl
    · intro hun v hv
      rw [List.mem_singleton.mp hv]
      exact hasked.unadvised (hbook hun hb)
  · rw [share, if_neg hb]
    refine .nothing hasked.features hasked.candidates ?_ ?_ returned
    · simp [reviewsOf, hasked.reviews, hb]
    · obtain ⟨-, hgiven⟩ | ⟨-, hgiven⟩ := hgiven <;> simp [givenTo, hgiven, hb]

theorem submitAll_heard {b : String} {book : BookTarget σ} {unadvised : Prop}
    (hbook : unadvised → book.bookId = b → book.advisor = none) {ps : List Proposal}
    (c : Cycle σ)
    (hps : ∀ p ∈ ps, 0 < p.atr ∧ (c.features.get? p.intent.instrument.key).isSome) :
    Heard b (share b book (ps.map Proposal.intent)) unadvised
      ((submitAll book ps c).raised = none) c (submitAll book ps c).state := by
  induction ps generalizing c with
  | nil =>
    have hshare : share b book [] = [] := by simp [share]
    rw [List.map_nil, hshare]
    exact .nothing rfl rfl rfl rfl _
  | cons p rest ih =>
    obtain ⟨hatr, hfeatured⟩ := hps p (List.mem_cons_self ..)
    obtain ⟨f, hf⟩ := Option.isSome_iff_exists.mp hfeatured
    rw [List.map_cons, share_cons, submitAll, Effect.run_bind_ok (Effect.run_get c)]
    simp only [hf]
    have hone := submit_heard hbook hatr f c ((submit book p f c).raised = none)
    refine hone.bind fun c' hc' => ih c' fun q hq => ?_
    rw [hc', hone.features]
    exact hps q (List.mem_cons_of_mem p hq)

/-- What one book proposes, in the order it is submitted. -/
def rankedIntents (e : DecisionEngine σ) (r : Readings) (quotes : Dict String Quote)
    (features : Dict String Features) (candidates : List (Signal × Instrument))
    (bookId : String) : List OrderIntent :=
  (ranked (e.proposalsOf r quotes features bookId 0 candidates)).map Proposal.intent

variable (e r quotes) in
theorem serve_heard {b : String} {book : BookTarget σ} {unadvised : Prop}
    (hbook : unadvised → book.bookId = b → book.advisor = none) {c : Cycle σ}
    (hc : ∀ x ∈ c.candidates, Proposable c.features x) :
    Heard b (share b book (e.rankedIntents r quotes c.features c.candidates book.bookId))
      unadvised ((e.serve r quotes book c).raised = none) c (e.serve r quotes book c).state := by
  obtain ⟨c₁, hrun, hdone⟩ := proposeAll_spec e r quotes book.plain 0 hc
  have hfrom : ∀ p ∈ e.proposalsOf r quotes c.features book.bookId 0 c.candidates, _ :=
    fun p hp => mem_proposalsOf e r quotes book.plain 0 hc hp
  rw [rankedIntents, serve, Effect.run_bind_ok (Effect.run_get c), Effect.run_bind_ok hrun,
    Effect.run_bind_ok (Effect.run_modify ..)]
  generalize e.proposalsOf r quotes c.features book.bookId 0 c.candidates = ps at hdone hfrom ⊢
  let noted : Cycle σ :=
    { c₁ with result := { c₁.result with proposals := c₁.result.proposals ++ ps } }
  have hnone : Heard b [] unadvised True c noted := by
    refine .nothing ?_ ?_ ?_ ?_ True
    · exact hdone.same.features
    · exact hdone.same.candidates
    · exact hdone.same.reviewsOf b
    · exact hdone.same.givenTo b
  refine hnone.trans (submitAll_heard hbook noted fun p hp => ?_)
  obtain ⟨x, hx, hpx⟩ := hfrom p ((List.perm_insertionSort ..).mem_iff.mp hp)
  refine ⟨hpx.atr, ?_⟩
  rw [show noted.features = c.features from hdone.same.features, hpx.instrument]
  exact (hc x hx).featured

/-! ## All books -/

variable (e r quotes) in
theorem serveAll_heard {b : String} {unadvised : Prop} {books : List (BookTarget σ)}
    (hbooks : unadvised → ∀ book ∈ books, book.bookId = b → book.advisor = none) {c : Cycle σ}
    (hc : ∀ x ∈ c.candidates, Proposable c.features x) :
    Heard b (books.flatMap fun book =>
        share b book (e.rankedIntents r quotes c.features c.candidates book.bookId))
      unadvised ((e.serveAll r quotes books c).raised = none) c
      (e.serveAll r quotes books c).state := by
  induction books generalizing c with
  | nil => exact .nothing rfl rfl rfl rfl _
  | cons book rest ih =>
    have hone := serve_heard e r quotes
      (fun hun => hbooks hun book (List.mem_cons_self ..)) hc
    rw [List.flatMap_cons, serveAll]
    refine hone.bind fun c' hc' => ?_
    have hfeatures : c'.features = c.features := hc' ▸ hone.features
    have hcandidates : c'.candidates = c.candidates := hc' ▸ hone.candidates
    have hrest := ih (fun hun other hother => hbooks hun other (List.mem_cons_of_mem book hother))
      (c := c') (by rw [hcandidates, hfeatures]; exact hc)
    rw [hcandidates, hfeatures] at hrest
    exact hrest

/-! ## Other advisors -/

section advise

variable (advisors : String → Option (Advisor σ))

theorem advise_disposeAll (s : Signal) (disposition : Disposition) (detail : String)
    (c : Cycle σ) :
    (e.advise advisors).disposeAll s disposition detail c = e.disposeAll s disposition detail c := by
  rw [disposeAll, disposeAll, advise, List.foldl_map]

theorem advise_consider (regime : Option Regime) (instrument : Instrument) (c : Cycle σ)
    (s : Signal) :
    (e.advise advisors).consider regime instrument c s = e.consider regime instrument c s := by
  simp only [consider, advise_disposeAll]
  rfl

theorem advise_gather (regime : Option Regime) (position : ℕ) (instruments : List Instrument)
    (c : Cycle σ) : (e.advise advisors).gather r regime position instruments c =
      e.gather r regime position instruments c := by
  have hconsider : (e.advise advisors).consider regime = e.consider regime := by
    funext instrument c s
    exact advise_consider ..
  induction instruments generalizing position c with
  | nil => rfl
  | cons instrument rest ih =>
    rw [gather, gather, hconsider, show (e.advise advisors).signals = e.signals from rfl]
    split <;> exact ih ..

theorem advise_proposalsOf (features : Dict String Features) (bookId : String) (position : ℕ)
    (l : List (Signal × Instrument)) :
    (e.advise advisors).proposalsOf r quotes features bookId position l =
      e.proposalsOf r quotes features bookId position l := by
  induction l generalizing position with
  | nil => rfl
  | cons x rest ih =>
    rw [proposalsOf, proposalsOf, ih, show (e.advise advisors).proposal = e.proposal from rfl]

/-- The books' shares do not depend on the advisors. -/
theorem advise_shares (b : String) (features : Dict String Features)
    (candidates : List (Signal × Instrument)) :
    ((e.advise advisors).books.flatMap fun book => share b book
        ((e.advise advisors).rankedIntents r quotes features candidates book.bookId)) =
      e.books.flatMap fun book => share b book
        (e.rankedIntents r quotes features candidates book.bookId) := by
  simp only [rankedIntents, advise_proposalsOf]
  rw [advise, List.flatMap_map]
  rfl

end advise

/-- What a cycle shows of a book, whatever the advisors: its advisor was asked about the
first of the intents it proposes, about all when the cycle returns, and its OMS was given
what passed. -/
theorem advised_heard (e : DecisionEngine σ) (r : Readings) (instruments : List Instrument)
    (regime : Option Regime) (world : σ) (b : String) :
    ∃ intents : List OrderIntent, ∀ (advisors : String → Option (Advisor σ))
      (ending : EStateM.Result Exc (Cycle σ) PUnit),
      ending = e.advised advisors r instruments regime world →
      ending.state.givenTo b = passed (ending.state.reviewsOf b) ∧
        (ending.state.reviewsOf b).map Prod.fst <+: intents ∧
        (ending.raised = none → (ending.state.reviewsOf b).map Prod.fst = intents) ∧
        (advisors b = none → ∀ v ∈ ending.state.reviewsOf b, v.2 = none) := by
  have h : e.Gathered r (0 + instruments.length)
      (e.gather r regime 0 instruments (.start (r.newId 0) world)) :=
    (Gathered.start e r world).gather regime
  -- the advisors have no say in what is gathered
  have hungiven : ∀ advisors c, (e.advise advisors).gather r regime 0 instruments
      (.start (r.newId 0) world) = c → c = e.gather r regime 0 instruments
      (.start (r.newId 0) world) := fun advisors c hc => hc ▸ advise_gather ..
  generalize e.gather r regime 0 instruments (.start (r.newId 0) world) = c at h hungiven
  have hgiven : c.givenTo b = [] := by simp [givenTo, h.quiet.1]
  have hreviews : c.reviewsOf b = [] := by simp [reviewsOf, h.quiet.2]
  -- without a candidate no book is served
  by_cases hempty : c.candidates = []
  · refine ⟨[], fun advisors ending hending => ?_⟩
    rw [advised, runCycle, hungiven advisors _ rfl] at hending
    simp only [hempty, List.isEmpty_nil, if_true] at hending
    rw [hending]
    simp [hgiven, hreviews, passed]
  · have hsame : Same c (requote r c).2 := by
      unfold requote
      split
      · exact .refl c
      · exact .emit ..
    refine ⟨e.books.flatMap fun book => share b book (e.rankedIntents r (requote r c).1
      (requote r c).2.features (requote r c).2.candidates book.bookId),
      fun advisors ending hending => ?_⟩
    rw [advised, runCycle, hungiven advisors _ rfl] at hending
    simp only [List.isEmpty_eq_false_iff.mpr hempty, Bool.false_eq_true, if_false] at hending
    have hbooks : advisors b = none → ∀ book ∈ (e.advise advisors).books,
        book.bookId = b → book.advisor = none := by
      intro hun book hbook hb
      obtain ⟨was, -, rfl⟩ := List.mem_map.mp hbook
      exact hb ▸ hun
    have hheard := serveAll_heard (e.advise advisors) r (requote r c).1 hbooks
      (c := (requote r c).2) (by rw [hsame.candidates, hsame.features]; exact h.proposable)
    rw [advise_shares, ← hending] at hheard
    obtain ⟨vs, hasked, hpassed, hgrown, hall, hnone⟩ := hheard.asked
    rw [hsame.reviewsOf, hreviews, List.nil_append] at hasked
    rw [hsame.givenTo, hgiven, List.nil_append] at hpassed
    rw [hasked]
    exact ⟨hpassed, hgrown, hall, hnone⟩

/-- Compared with a cycle in which a book has no advisor and which returns, the book's OMS
is given a subsequence of the same intents; when the cycle with the advisor returns too,
the intents missing are those its advisor vetoed. -/
theorem advisor_only_vetoes (e : DecisionEngine σ) (r : Readings)
    (instruments : List Instrument) (regime : Option Regime) (world : σ) (b : String)
    (advisors others : String → Option (Advisor σ)) (hnone : others b = none)
    (hreturns : (e.advised others r instruments regime world).raised = none) :
    List.Sublist ((e.advised advisors r instruments regime world).state.givenTo b)
      ((e.advised others r instruments regime world).state.givenTo b) ∧
    ((e.advised advisors r instruments regime world).raised = none →
      (e.advised others r instruments regime world).state.givenTo b =
        ((e.advised advisors r instruments regime world).state.reviewsOf b).map Prod.fst ∧
      (e.advised advisors r instruments regime world).state.givenTo b =
        passed ((e.advised advisors r instruments regime world).state.reviewsOf b)) := by
  obtain ⟨intents, h⟩ := advised_heard e r instruments regime world b
  obtain ⟨hpassed, hgrown, hall, -⟩ := h advisors _ rfl
  obtain ⟨hpassed', -, hall', hunadvised⟩ := h others _ rfl
  -- without an advisor the OMS is given everything the book proposes
  have hfull : (e.advised others r instruments regime world).state.givenTo b = intents := by
    rw [hpassed', passed_unadvised (hunadvised hnone), hall' hreturns]
  rw [hfull]
  refine ⟨?_, fun hreturned => ⟨(hall hreturned).symm, hpassed⟩⟩
  rw [hpassed]
  exact (passed_sublist _).trans hgrown.sublist

end DecisionEngine

namespace OpeningCycle

/-- An OMS that fails on one instrument and takes every other intent. -/
def failsOn (symbol : String) (intent : OrderIntent) (world : Unit) :
    Except Exc SubmitResult × Unit :=
  if intent.instrument.symbol = symbol then (.error (.runtimeError "database is locked"), world)
  else accepts intent world

def unadvised (_ : String) : Option (Advisor Unit) := none

/-- The advisor of every book vetoes one instrument. -/
def vetoes (symbol _bookId : String) : Option (Advisor Unit) :=
  some fun proposal _ world =>
    (some (if proposal.intent.instrument.symbol = symbol then .veto else .approve), world)

/-- The symbols a book's OMS is given. -/
def symbols (submit : OrderIntent → Unit → Except Exc SubmitResult × Unit)
    (advisors : String → Option (Advisor Unit)) : List String :=
  (((engine submit).advised advisors readings [equity "INFY", equity "TCS"] none
    ()).state.givenTo "A").map fun intent => intent.instrument.symbol

theorem symbols_vetoed : symbols (failsOn "INFY") (vetoes "INFY") = ["TCS"] := by decide +kernel

theorem symbols_raised : symbols (failsOn "INFY") unadvised = ["INFY"] := by decide +kernel

end OpeningCycle

open OpeningCycle in
/-- The veto keeps the intent that ends the other cycle from the OMS, so the cycle goes on. -/
theorem veto_goes_on : ¬List.Sublist
    (((engine (failsOn "INFY")).advised (vetoes "INFY") readings [equity "INFY", equity "TCS"]
      none ()).state.givenTo "A")
    (((engine (failsOn "INFY")).advised unadvised readings [equity "INFY", equity "TCS"]
      none ()).state.givenTo "A") := by
  intro h
  have hsymbols := h.map fun intent => intent.instrument.symbol
  rw [show List.map _ _ = _ from symbols_vetoed, show List.map _ _ = _ from symbols_raised]
    at hsymbols
  revert hsymbols
  decide

open OpeningCycle in
theorem advisor_only_vetoes_one :
    List.Sublist
      (((engine accepts).advised (vetoes "INFY") readings [equity "INFY", equity "TCS"]
        none ()).state.givenTo "A")
      (((engine accepts).advised unadvised readings [equity "INFY", equity "TCS"]
        none ()).state.givenTo "A") :=
  (DecisionEngine.advisor_only_vetoes (engine accepts) readings [equity "INFY", equity "TCS"]
    none () "A" (vetoes "INFY") unadvised rfl (by decide +kernel)).1

end RakshaQuant
