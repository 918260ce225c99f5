import RakshaQuant.Decision.Cycle

/-! Up to its first submission a cycle raises nothing: what was gathered has the
features and the plain names that a proposal asks for, so every book's loop over the
candidates returns the proposals that the policy makes of them. -/

namespace RakshaQuant

variable {σ : Type}

namespace Cycle

/-! ## Reading the events -/

section events

variable (c : Cycle σ) (event : DecisionEvent) (b bookId : String)

@[simp] theorem generated_signal (cycleId : String) (s : Signal) :
    (c.emit (.signalGenerated cycleId s)).generated = c.generated ++ [s] := by
  simp [generated, emit]

@[simp] theorem generated_intent (intent : OrderIntent) :
    (c.emit (.orderIntentProposed intent)).generated = c.generated := by
  simp [generated, emit]

@[simp] theorem generated_dispose (s : Signal) (disposition : Disposition) (detail : String)
    (coid : Option String) : (c.dispose b s disposition detail coid).generated = c.generated := by
  simp [generated, emit, dispose]

@[simp] theorem generated_warn (key message : String) :
    (c.warn key message).generated = c.generated := by
  simp [generated, emit, warn]

@[simp] theorem generated_skip (key why : String) : (c.skip key why).generated = c.generated := rfl

@[simp] theorem dispositionsOf_signal (cycleId : String) (s : Signal) :
    (c.emit (.signalGenerated cycleId s)).dispositionsOf b = c.dispositionsOf b := by
  simp [dispositionsOf, emit]

@[simp] theorem dispositionsOf_intent (intent : OrderIntent) :
    (c.emit (.orderIntentProposed intent)).dispositionsOf b = c.dispositionsOf b := by
  simp [dispositionsOf, emit]

@[simp] theorem dispositionsOf_warn (key message : String) :
    (c.warn key message).dispositionsOf b = c.dispositionsOf b := by
  simp [dispositionsOf, emit, warn]

@[simp] theorem dispositionsOf_skip (key why : String) :
    (c.skip key why).dispositionsOf b = c.dispositionsOf b := rfl

/-- A disposition is of its own book. -/
theorem dispositionsOf_dispose (s : Signal) (disposition : Disposition) (detail : String)
    (coid : Option String) :
    (c.dispose bookId s disposition detail coid).dispositionsOf b = c.dispositionsOf b ++
      if bookId = b then [.of b s disposition detail coid] else [] := by
  by_cases h : bookId = b <;> simp [dispositionsOf, emit, dispose, SignalDisposition.of, h]

end events

/-- The cycle has read and submitted what it had before. -/
structure Same (c c' : Cycle σ) : Prop where
  features : c'.features = c.features
  candidates : c'.candidates = c.candidates
  given : c'.given = c.given
  reviews : c'.reviews = c.reviews

theorem Same.refl (c : Cycle σ) : Same c c := ⟨rfl, rfl, rfl, rfl⟩

theorem Same.trans {c₁ c₂ c₃ : Cycle σ} (h : Same c₁ c₂) (h' : Same c₂ c₃) : Same c₁ c₃ :=
  ⟨h'.features.trans h.features, h'.candidates.trans h.candidates, h'.given.trans h.given,
    h'.reviews.trans h.reviews⟩

theorem Same.givenTo {c c' : Cycle σ} (h : Same c c') (b : String) :
    c'.givenTo b = c.givenTo b := by
  rw [Cycle.givenTo, Cycle.givenTo, h.given]

theorem Same.reviewsOf {c c' : Cycle σ} (h : Same c c') (b : String) :
    c'.reviewsOf b = c.reviewsOf b := by
  rw [Cycle.reviewsOf, Cycle.reviewsOf, h.reviews]

theorem Same.emit (c : Cycle σ) (event : DecisionEvent) : Same c (c.emit event) :=
  ⟨rfl, rfl, rfl, rfl⟩

theorem Same.skip (c : Cycle σ) (key why : String) : Same c (c.skip key why) :=
  ⟨rfl, rfl, rfl, rfl⟩

theorem Same.dispose (c : Cycle σ) (bookId : String) (s : Signal) (disposition : Disposition)
    (detail : String) (coid : Option String) : Same c (c.dispose bookId s disposition detail coid) :=
  ⟨rfl, rfl, rfl, rfl⟩

/-- A candidate that a proposal can be made of. -/
structure Proposable (features : Dict String Features) (x : Signal × Instrument) : Prop where
  key : x.1.instrumentKey = x.2.key
  plain : Plain x.1.strategy
  featured : (features.get? x.2.key).isSome

end Cycle

open RakshaQuant.Cycle

namespace DecisionEngine

variable {e : DecisionEngine σ} {r : Readings} {quotes : Dict String Quote}

theorem disposeAll_same (s : Signal) (disposition : Disposition) (detail : String)
    (c : Cycle σ) : Same c (e.disposeAll s disposition detail c) := by
  unfold disposeAll
  induction e.books generalizing c with
  | nil => exact .refl c
  | cons book rest ih =>
    exact (Same.dispose c book.bookId s disposition detail none).trans (ih _)

@[simp] theorem disposeAll_generated (s : Signal) (disposition : Disposition) (detail : String)
    (c : Cycle σ) : (e.disposeAll s disposition detail c).generated = c.generated := by
  unfold disposeAll
  induction e.books generalizing c with
  | nil => rfl
  | cons book rest ih => rw [List.foldl_cons, ih, generated_dispose]

/-- Every book gets its own disposition, and only one. -/
theorem disposeAll_dispositionsOf (s : Signal) (disposition : Disposition) (detail : String)
    (c : Cycle σ) (b : String) : (e.disposeAll s disposition detail c).dispositionsOf b =
      c.dispositionsOf b ++
        if b ∈ e.books.map BookTarget.bookId then [.of b s disposition detail none] else [] := by
  unfold disposeAll
  have hdistinct := e.distinct
  generalize e.books = books at hdistinct ⊢
  induction books generalizing c with
  | nil => simp
  | cons book rest ih =>
    rw [List.map_cons, List.nodup_cons] at hdistinct
    rw [List.foldl_cons, ih _ hdistinct.2, dispositionsOf_dispose]
    by_cases hb : book.bookId = b
    · have hrest : b ∉ rest.map BookTarget.bookId := hb ▸ hdistinct.1
      simp [hb, hrest]
    · simp [hb, Ne.symm hb]

/-! ## The universe -/

/-- The signals of one instrument name it, and are of different strategies. -/
theorem detected_ok {position : ℕ} {series : DailySeries} {key : String}
    {found : Features × List Signal} (h : e.detected r position series key = .ok found) :
    (∀ s ∈ found.2, s.decisionId = r.newId (position + 1) ∧ s.instrumentKey = key ∧
      Plain s.strategy) ∧ (found.2.map Signal.strategy).Nodup := by
  simp only [detected, bind, Except.bind] at h
  cases hfeatures : computeFeatures series key with
  | error exc =>
    rw [hfeatures] at h
    cases h
  | ok f =>
    have hkey : f.instrumentKey = key := by
      simp only [computeFeatures, bind, Except.bind] at hfeatures
      split at hfeatures
      · cases hfeatures
      · cases hfeatures
        rfl
    rw [hfeatures] at h
    simp only at h
    split at h
    · cases h
    · rename_i signals hsignals
      cases h
      obtain ⟨hof, hnodup⟩ := generateSignals_ok hsignals
      refine ⟨fun s hs => ?_, hnodup⟩
      obtain ⟨hid, hinstrument, hplain⟩ := hof s hs
      exact ⟨hid, hinstrument.trans hkey, hplain⟩

/-- What came of an instrument leaves the cycle as it was, up to what is said of it. -/
theorem signals_cases (e : DecisionEngine σ) (r : Readings) (position : ℕ)
    (instrument : Instrument) (c : Cycle σ) :
    (∃ c', e.signals r position instrument c = (none, c') ∧ Same c c' ∧
      c'.generated = c.generated ∧ ∀ b, c'.dispositionsOf b = c.dispositionsOf b) ∨
    ∃ series found, e.detected r position series instrument.key = .ok found ∧
      e.signals r position instrument c = (some found, c) := by
  simp only [signals]
  split
  · exact .inl ⟨_, rfl, .skip .., rfl, fun _ => rfl⟩
  · rename_i series hseries
    split
    · exact .inl ⟨_, rfl, .skip .., rfl, fun _ => rfl⟩
    · cases hdetected : e.detected r position series instrument.key with
      | error exc =>
        refine .inl ⟨_, rfl, ⟨rfl, rfl, rfl, rfl⟩, ?_, fun b => ?_⟩
        · rw [generated_warn, generated_skip]
        · rw [dispositionsOf_warn, dispositionsOf_skip]
      | ok found => exact .inr ⟨series, found, hdetected, rfl⟩

/-- What the strategies detect in one instrument: nothing without a history or with one that lags,
and nothing when the detection raises. -/
def foundAt (e : DecisionEngine σ) (r : Readings) (position : ℕ) (instrument : Instrument) :
    List Signal :=
  match r.daily (.signals position) instrument.key with
  | none => []
  | some series =>
    if r.isLagging (.signals position) instrument.key then []
    else match e.detected r position series instrument.key with
      | .error _ => []
      | .ok found => found.2

/-- What they detect in the universe, from a position in it. -/
def foundFrom (e : DecisionEngine σ) (r : Readings) : ℕ → List Instrument → List Signal
  | _, [] => []
  | position, instrument :: rest =>
    e.foundAt r position instrument ++ foundFrom e r (position + 1) rest

theorem signals_found (e : DecisionEngine σ) (r : Readings) (position : ℕ)
    (instrument : Instrument) (c : Cycle σ) :
    ((e.signals r position instrument c).1.map Prod.snd).getD [] =
      e.foundAt r position instrument := by
  unfold signals foundAt
  cases hseries : r.daily (.signals position) instrument.key with
  | none => simp [hseries]
  | some series =>
    by_cases hlagging : r.isLagging (.signals position) instrument.key = true
    · simp [hseries, hlagging]
    · cases hdetected : e.detected r position series instrument.key with
      | error exc => simp [hseries, hlagging, hdetected]
      | ok found => simp [hseries, hlagging, hdetected]

theorem consider_generated (e : DecisionEngine σ) (regime : Option Regime)
    (instrument : Instrument) (c : Cycle σ) (s : Signal) :
    (e.consider regime instrument c s).generated = c.generated ++ [s] := by
  have hrecorded := generated_signal c c.result.cycleId s
  unfold consider
  simp only
  split
  · rw [disposeAll_generated]
    exact hrecorded
  · split
    · exact hrecorded
    · rw [disposeAll_generated]
      exact hrecorded

theorem considerAll_generated (e : DecisionEngine σ) (regime : Option Regime)
    (instrument : Instrument) (signals : List Signal) (c : Cycle σ) :
    (signals.foldl (e.consider regime instrument) c).generated = c.generated ++ signals := by
  induction signals generalizing c with
  | nil => exact (List.append_nil _).symm
  | cons s rest ih =>
    rw [List.foldl_cons, ih, consider_generated, List.append_assoc]
    rfl

/-- Every signal detected is recorded, in the order of the universe. -/
theorem gather_generated (e : DecisionEngine σ) (r : Readings) (regime : Option Regime)
    (position : ℕ) (instruments : List Instrument) (c : Cycle σ) :
    (e.gather r regime position instruments c).generated =
      c.generated ++ e.foundFrom r position instruments := by
  induction instruments generalizing position c with
  | nil => exact (List.append_nil _).symm
  | cons instrument rest ih =>
    have hfound := signals_found e r position instrument c
    rw [gather, foundFrom, ← hfound]
    obtain ⟨c', heq, -, hgenerated, -⟩ | ⟨series, found, -, heq⟩ :=
      signals_cases e r position instrument c
    · rw [heq]
      simp only [Option.map_none, Option.getD_none, List.nil_append]
      rw [ih, hgenerated]
    · rw [heq]
      simp only [Option.map_some, Option.getD_some]
      rw [ih, considerAll_generated, List.append_assoc]
      rfl

/-- After the universe up to a position: the candidates can be proposed, no two signals
are the same, and every book has disposed of the signals that are no candidates. -/
structure Gathered (e : DecisionEngine σ) (r : Readings) (position : ℕ) (c : Cycle σ) :
    Prop where
  proposable : ∀ x ∈ c.candidates, Proposable c.features x
  fresh : ∀ s ∈ c.generated, ∃ i < position, s.decisionId = r.newId (i + 1)
  nodup : (c.generated.map Signal.origin).Nodup
  disposed : ∀ b ∈ e.books.map BookTarget.bookId,
    List.Perm ((c.dispositionsOf b).map SignalDisposition.origin ++
      c.candidates.map fun x => x.1.origin) (c.generated.map Signal.origin)
  unanswered : ∀ b, ∀ d ∈ c.dispositionsOf b, d.disposition.isAnswer = false
  quiet : c.given = [] ∧ c.reviews = []

theorem Gathered.start (e : DecisionEngine σ) (r : Readings) (world : σ) :
    e.Gathered r 0 (.start (r.newId 0) world) where
  proposable := fun x hx => by cases hx
  fresh := fun s hs => by cases hs
  nodup := List.nodup_nil
  disposed := fun _ _ => .nil
  unanswered := fun b d hd => by cases hd
  quiet := ⟨rfl, rfl⟩

theorem Gathered.skip {position : ℕ} {c c' : Cycle σ} (h : e.Gathered r position c)
    (hsame : Same c c') (hgenerated : c'.generated = c.generated)
    (hdispositions : ∀ b, c'.dispositionsOf b = c.dispositionsOf b) :
    e.Gathered r (position + 1) c' where
  proposable := by
    rw [hsame.candidates, hsame.features]
    exact h.proposable
  fresh := by
    rw [hgenerated]
    intro s hs
    obtain ⟨i, hi, hid⟩ := h.fresh s hs
    exact ⟨i, by omega, hid⟩
  nodup := by
    rw [hgenerated]
    exact h.nodup
  disposed := by
    intro b hb
    rw [hgenerated, hdispositions, hsame.candidates]
    exact h.disposed b hb
  unanswered := by
    intro b
    rw [hdispositions]
    exact h.unanswered b
  quiet := by
    rw [hsame.given, hsame.reviews]
    exact h.quiet

/-- More features do no harm. -/
theorem Gathered.featured {position : ℕ} {c : Cycle σ} (h : e.Gathered r position c)
    (key : String) (f : Features) :
    e.Gathered r (position + 1) { c with features := c.features.set key f } where
  proposable := by
    intro x hx
    obtain ⟨hkey, hplain, hfeatured⟩ := h.proposable x hx
    refine ⟨hkey, hplain, ?_⟩
    by_cases hk : x.2.key = key <;> simp [hk, hfeatured]
  fresh := by
    intro s hs
    obtain ⟨i, hi, hid⟩ := h.fresh s hs
    exact ⟨i, by omega, hid⟩
  nodup := h.nodup
  disposed := h.disposed
  unanswered := h.unanswered
  quiet := h.quiet

/-- A signal that is no candidate is disposed of for every book. -/
theorem Gathered.dispose {position : ℕ} {c : Cycle σ} {s : Signal} (h : e.Gathered r position c)
    (hid : ∃ i < position, s.decisionId = r.newId (i + 1))
    (hnew : s.origin ∉ c.generated.map Signal.origin) {disposition : Disposition}
    (hanswer : disposition.isAnswer = false) (detail : String) {c' : Cycle σ}
    (hsame : Same c c') (hgenerated : c'.generated = c.generated ++ [s])
    (hdispositions : ∀ b, c'.dispositionsOf b = c.dispositionsOf b) :
    e.Gathered r position (e.disposeAll s disposition detail c') where
  proposable := by
    have hall := hsame.trans (disposeAll_same (e := e) s disposition detail c')
    rw [hall.candidates, hall.features]
    exact h.proposable
  fresh := by
    rw [disposeAll_generated, hgenerated]
    intro t ht
    rcases List.mem_append.mp ht with ht | ht
    · exact h.fresh t ht
    · rw [List.mem_singleton.mp ht]
      exact hid
  nodup := by
    rw [disposeAll_generated, hgenerated, List.map_append]
    exact h.nodup.append (List.nodup_singleton _) (by simpa using hnew)
  disposed := by
    intro b hb
    rw [disposeAll_generated, hgenerated, disposeAll_dispositionsOf, if_pos hb, hdispositions,
      (hsame.trans (disposeAll_same (e := e) s disposition detail c')).candidates]
    simp only [List.map_append, List.map_cons, List.map_nil, SignalDisposition.origin_of]
    -- the new disposition moves behind the candidates
    rw [List.append_assoc]
    refine ((List.perm_append_comm).append_left _).trans ?_
    rw [← List.append_assoc]
    exact (h.disposed b hb).append_right _
  unanswered := by
    intro b d hd
    rw [disposeAll_dispositionsOf, hdispositions] at hd
    rcases List.mem_append.mp hd with hd | hd
    · exact h.unanswered b d hd
    · split at hd
      · rw [List.mem_singleton.mp hd]
        exact hanswer
      · cases hd
  quiet := by
    have hall := hsame.trans (disposeAll_same (e := e) s disposition detail c')
    rw [hall.given, hall.reviews]
    exact h.quiet

/-- A signal is kept as a candidate. -/
theorem Gathered.candidate {position : ℕ} {c c' : Cycle σ} {s : Signal}
    {instrument : Instrument} (h : e.Gathered r position c)
    (hid : ∃ i < position, s.decisionId = r.newId (i + 1))
    (hnew : s.origin ∉ c.generated.map Signal.origin)
    (hx : Proposable c.features (s, instrument)) (hfeatures : c'.features = c.features)
    (hcandidates : c'.candidates = c.candidates ++ [(s, instrument)])
    (hsame : c'.given = c.given ∧ c'.reviews = c.reviews)
    (hgenerated : c'.generated = c.generated ++ [s])
    (hdispositions : ∀ b, c'.dispositionsOf b = c.dispositionsOf b) :
    e.Gathered r position c' where
  proposable := by
    rw [hcandidates, hfeatures]
    intro x hxs
    rcases List.mem_append.mp hxs with hxs | hxs
    · exact h.proposable x hxs
    · rw [List.mem_singleton.mp hxs]
      exact hx
  fresh := by
    rw [hgenerated]
    intro t ht
    rcases List.mem_append.mp ht with ht | ht
    · exact h.fresh t ht
    · rw [List.mem_singleton.mp ht]
      exact hid
  nodup := by
    rw [hgenerated, List.map_append]
    exact h.nodup.append (List.nodup_singleton _) (by simpa using hnew)
  disposed := by
    intro b hb
    rw [hgenerated, hdispositions, hcandidates, List.map_append, List.map_append,
      ← List.append_assoc]
    exact (h.disposed b hb).append_right _
  unanswered := by
    intro b
    rw [hdispositions]
    exact h.unanswered b
  quiet := by
    rw [hsame.1, hsame.2]
    exact h.quiet

/-- One signal of a new origin, whatever becomes of it. -/
theorem Gathered.consider {position : ℕ} {c : Cycle σ} {s : Signal} {instrument : Instrument}
    (h : e.Gathered r position c) (hid : ∃ i < position, s.decisionId = r.newId (i + 1))
    (hnew : s.origin ∉ c.generated.map Signal.origin)
    (hx : Proposable c.features (s, instrument)) (regime : Option Regime) :
    e.Gathered r position (e.consider regime instrument c s) ∧
      (e.consider regime instrument c s).features = c.features := by
  unfold DecisionEngine.consider
  have hrecorded := generated_signal c c.result.cycleId s
  simp only
  split
  · exact ⟨h.dispose hid hnew rfl _ ⟨rfl, rfl, rfl, rfl⟩ hrecorded fun b =>
      dispositionsOf_signal .., (disposeAll_same ..).features⟩
  · split
    · exact ⟨h.candidate hid hnew hx rfl rfl ⟨rfl, rfl⟩ hrecorded fun b =>
        dispositionsOf_signal .., rfl⟩
    · exact ⟨h.dispose hid hnew rfl _ ⟨rfl, rfl, rfl, rfl⟩ hrecorded fun b =>
        dispositionsOf_signal .., (disposeAll_same ..).features⟩

/-- The signals of one instrument. -/
theorem Gathered.considerAll {position : ℕ} {instrument : Instrument} (regime : Option Regime)
    {signals : List Signal}
    (hof : ∀ s ∈ signals, (∃ i < position, s.decisionId = r.newId (i + 1)) ∧
      s.instrumentKey = instrument.key ∧ Plain s.strategy)
    (hnodup : (signals.map Signal.strategy).Nodup) {c : Cycle σ} (h : e.Gathered r position c)
    (hnew : ∀ s ∈ signals, s.origin ∉ c.generated.map Signal.origin)
    (hfeatured : (c.features.get? instrument.key).isSome) :
    e.Gathered r position (signals.foldl (e.consider regime instrument) c) := by
  induction signals generalizing c with
  | nil => exact h
  | cons s rest ih =>
    obtain ⟨hid, hkey, hplain⟩ := hof s (List.mem_cons_self ..)
    rw [List.map_cons, List.nodup_cons] at hnodup
    obtain ⟨hone, hfeatures⟩ :=
      h.consider hid (hnew s (List.mem_cons_self ..)) ⟨hkey, hplain, hfeatured⟩ regime
    refine ih (fun t ht => hof t (List.mem_cons_of_mem s ht)) hnodup.2 hone ?_
      (hfeatures ▸ hfeatured)
    intro t ht
    rw [consider_generated, List.map_append, List.mem_append, not_or]
    refine ⟨hnew t (List.mem_cons_of_mem s ht), fun heq => hnodup.1 ?_⟩
    -- another signal of this instrument is of another strategy
    have hstrategy := congrArg Origin.strategy (List.mem_singleton.mp heq)
    exact List.mem_map.mpr ⟨t, ht, hstrategy⟩

theorem Gathered.gather {position : ℕ} (regime : Option Regime) {instruments : List Instrument}
    {c : Cycle σ} (h : e.Gathered r position c) :
    e.Gathered r (position + instruments.length) (e.gather r regime position instruments c) := by
  induction instruments generalizing position c with
  | nil => exact h
  | cons instrument rest ih =>
    have hlength : position + (instrument :: rest).length = position + 1 + rest.length := by
      rw [List.length_cons]
      omega
    rw [DecisionEngine.gather, hlength]
    obtain ⟨c', heq, hsame, hgenerated, hdispositions⟩ | ⟨series, found, hdetected, heq⟩ :=
      signals_cases e r position instrument c
    · rw [heq]
      exact ih (h.skip hsame hgenerated hdispositions)
    · rw [heq]
      obtain ⟨hof, hnodup⟩ := detected_ok hdetected
      refine ih ((h.featured instrument.key found.1).considerAll regime ?_ hnodup ?_ (by simp))
      · intro s hs
        exact ⟨⟨position, by omega, (hof s hs).1⟩, (hof s hs).2⟩
      · intro s hs hmem
        obtain ⟨t, ht, heq⟩ := List.mem_map.mp hmem
        -- earlier signals have ids of earlier positions
        obtain ⟨i, hi, hid⟩ := h.fresh t ht
        have hsameId := congrArg Origin.decisionId heq
        have := r.newId_injective (hid.symm.trans (hsameId.trans (hof s hs).1))
        omega

/-! ## The candidates -/

variable (e r quotes) in
theorem proposal_cases {features : Dict String Features} {x : Signal × Instrument}
    (hx : Proposable features x) {bookId : String} (hbook : Plain bookId) (position : ℕ) :
    (∃ reason, e.proposal r quotes features bookId position x.1 x.2 =
        .ok (.inl ⟨x.1, reason⟩)) ∨
      ∃ p : Proposal, e.proposal r quotes features bookId position x.1 x.2 = .ok (.inr p) ∧
        p.From x.1 x.2 := by
  obtain ⟨f, hf⟩ := Option.isSome_iff_exists.mp hx.featured
  simp only [proposal, hf]
  exact propose_cases e.policy _ _ _ _ hx.key hbook hx.plain

/-- The proposals a book makes of candidates from a position on. -/
def proposalsOf (e : DecisionEngine σ) (r : Readings) (quotes : Dict String Quote)
    (features : Dict String Features) (bookId : String) :
    ℕ → List (Signal × Instrument) → List Proposal
  | _, [] => []
  | position, x :: rest =>
    match e.proposal r quotes features bookId position x.1 x.2 with
    | .ok (.inr p) => p :: proposalsOf e r quotes features bookId (position + 1) rest
    | _ => proposalsOf e r quotes features bookId (position + 1) rest

variable (e r quotes) in
theorem mem_proposalsOf {features : Dict String Features} {bookId : String}
    (hbook : Plain bookId) {l : List (Signal × Instrument)} (position : ℕ)
    (hl : ∀ x ∈ l, Proposable features x) {p : Proposal}
    (hp : p ∈ e.proposalsOf r quotes features bookId position l) :
    ∃ x ∈ l, p.From x.1 x.2 := by
  induction l generalizing position with
  | nil => simp [proposalsOf] at hp
  | cons x rest ih =>
    have hrest := fun y hy => hl y (List.mem_cons_of_mem x hy)
    rw [proposalsOf] at hp
    obtain ⟨reason, hskip⟩ | ⟨q, hq, hfrom⟩ :=
      proposal_cases e r quotes (hl x (List.mem_cons_self ..)) hbook position
    · rw [hskip] at hp
      obtain ⟨y, hy, hpy⟩ := ih (position + 1) hrest hp
      exact ⟨y, List.mem_cons_of_mem x hy, hpy⟩
    · rw [hq] at hp
      rcases List.mem_cons.mp hp with rfl | hp
      · exact ⟨x, List.mem_cons_self .., hfrom⟩
      · obtain ⟨y, hy, hpy⟩ := ih (position + 1) hrest hp
        exact ⟨y, List.mem_cons_of_mem x hy, hpy⟩

/-- What a book's proposals of candidates leave: the skipped ones are disposed of. -/
structure Proposed (bookId : String) (l : List (Signal × Instrument)) (ps : List Proposal)
    (c c' : Cycle σ) : Prop where
  same : Same c c'
  generated : c'.generated = c.generated
  others : ∀ b, b ≠ bookId → c'.dispositionsOf b = c.dispositionsOf b
  skipped : ∃ ds, c'.dispositionsOf bookId = c.dispositionsOf bookId ++ ds ∧
    (∀ d ∈ ds, d.disposition.isAnswer = false) ∧
    List.Perm (ds.map SignalDisposition.origin ++ ps.map fun p => p.intent.origin)
      (l.map fun x => x.1.origin)

theorem Proposed.skip {bookId : String} {x : Signal × Instrument}
    {l : List (Signal × Instrument)} {ps : List Proposal} {c c' : Cycle σ} {reason : String}
    (h : Proposed bookId l ps
      ((c.skip x.1.signalId reason).dispose bookId x.1 .policySkipped reason none) c') :
    Proposed bookId (x :: l) ps c c' where
  same := (Same.skip ..).trans ((Same.dispose ..).trans h.same)
  generated := by rw [h.generated, generated_dispose, generated_skip]
  others := by
    intro b hb
    rw [h.others b hb, dispositionsOf_dispose, if_neg (Ne.symm hb), List.append_nil,
      dispositionsOf_skip]
  skipped := by
    obtain ⟨ds, hds, hanswer, hperm⟩ := h.skipped
    rw [dispositionsOf_dispose, if_pos rfl, dispositionsOf_skip, List.append_assoc] at hds
    refine ⟨_, hds, ?_, ?_⟩
    · intro d hd
      rcases List.mem_append.mp hd with hd | hd
      · rw [List.mem_singleton.mp hd]
        rfl
      · exact hanswer d hd
    · exact hperm.cons x.1.origin

theorem Proposed.propose {bookId : String} {x : Signal × Instrument}
    {l : List (Signal × Instrument)} {ps : List Proposal} {p : Proposal} {c c' : Cycle σ}
    (hp : p.From x.1 x.2)
    (h : Proposed bookId l ps (c.emit (.orderIntentProposed p.intent)) c') :
    Proposed bookId (x :: l) (p :: ps) c c' where
  same := (Same.emit ..).trans h.same
  generated := by rw [h.generated, generated_intent]
  others := by
    intro b hb
    rw [h.others b hb, dispositionsOf_intent]
  skipped := by
    obtain ⟨ds, hds, hanswer, hperm⟩ := h.skipped
    rw [dispositionsOf_intent] at hds
    refine ⟨ds, hds, hanswer, ?_⟩
    rw [List.map_cons, List.map_cons, hp.origin]
    exact List.perm_middle.trans (hperm.cons _)

variable (e r quotes) in
/-- A book's loop over the candidates returns its proposals. -/
theorem proposeAll_spec {bookId : String} (hbook : Plain bookId)
    {l : List (Signal × Instrument)} (position : ℕ) {c : Cycle σ}
    (hl : ∀ x ∈ l, Proposable c.features x) :
    ∃ c', e.proposeAll r quotes bookId position l c =
        .ok (e.proposalsOf r quotes c.features bookId position l) c' ∧
      Proposed bookId l (e.proposalsOf r quotes c.features bookId position l) c c' := by
  induction l generalizing position c with
  | nil =>
    refine ⟨c, rfl, .refl c, rfl, fun _ _ => rfl, [], ?_, ?_, .nil⟩
    · rw [List.append_nil]
    · intro d hd
      cases hd
  | cons x rest ih =>
    have hrest := fun y hy => hl y (List.mem_cons_of_mem x hy)
    obtain ⟨reason, hskip⟩ | ⟨p, hp, hfrom⟩ :=
      proposal_cases e r quotes (hl x (List.mem_cons_self ..)) hbook position
    · obtain ⟨c', heq, hdone⟩ := ih (position + 1)
        (c := (c.skip x.1.signalId reason).dispose bookId x.1 .policySkipped reason none) hrest
      refine ⟨c', ?_, ?_⟩
      · rw [proposeAll, Effect.run_bind_ok (Effect.run_get c), proposalsOf]
        simp only [hskip]
        rw [Effect.run_bind_ok (Effect.run_modify ..)]
        exact heq
      · rw [proposalsOf]
        simp only [hskip]
        exact Proposed.skip hdone
    · obtain ⟨c', heq, hdone⟩ := ih (position + 1)
        (c := c.emit (.orderIntentProposed p.intent)) hrest
      refine ⟨c', ?_, ?_⟩
      · rw [proposeAll, Effect.run_bind_ok (Effect.run_get c), proposalsOf]
        simp only [hp]
        rw [Effect.run_bind_ok (Effect.run_modify ..), Effect.run_bind_ok heq]
        rfl
      · rw [proposalsOf]
        simp only [hp]
        exact Proposed.propose hfrom hdone

/-! ## Submitting -/

/-- What every end of a submission has: the advisor was asked, nothing else was read. -/
structure Asked (book : BookTarget σ) (intent : OrderIntent) (verdict : Option Verdict)
    (c c' : Cycle σ) : Prop where
  features : c'.features = c.features
  candidates : c'.candidates = c.candidates
  reviews : c'.reviews = c.reviews ++ [(book.bookId, intent, verdict)]
  unadvised : book.advisor = none → verdict = none

theorem vetoed_spec (book : BookTarget σ) (p : Proposal) (f : Features) (c : Cycle σ) :
    ∃ verdict c', vetoed book p f c = .ok (decide (verdict = some .veto)) c' ∧
      Asked book p.intent verdict c c' ∧ c'.given = c.given ∧ c'.emitted = c.emitted := by
  rw [vetoed, Effect.run_bind_ok (Effect.run_get c)]
  cases hadvisor : book.advisor with
  | none => exact ⟨none, _, rfl, ⟨rfl, rfl, rfl, fun _ => rfl⟩, rfl, rfl⟩
  | some review => exact ⟨_, _, rfl, ⟨rfl, rfl, rfl, by simp [hadvisor]⟩, rfl, rfl⟩

/-- A submission is vetoed, or the intent is given to the OMS, which answers or raises. -/
theorem submit_cases (book : BookTarget σ) {p : Proposal} (hatr : 0 < p.atr) (f : Features)
    (c : Cycle σ) : ∃ verdict c', Asked book p.intent verdict c c' ∧
      ((verdict = some .veto ∧ submit book p f c = .ok ⟨⟩ c' ∧ c'.given = c.given ∧
          ∃ detail, c'.emitted = c.emitted ++
            [.signalDisposition (.of book.bookId p.signal .vetoed detail none)]) ∨
        (verdict ≠ some .veto ∧ c'.given = c.given ++ [(book.bookId, p.intent)] ∧
          ((∃ world exc, (book.submit p.intent world).1 = .error exc ∧
              submit book p f c = .error exc c') ∨
            ∃ status detail coid, submit book p f c = .ok ⟨⟩ c' ∧ c'.emitted = c.emitted ++
              [.signalDisposition
                (.of book.bookId p.signal (.ofStatus status) detail coid)]))) := by
  obtain ⟨verdict, asked, hvetoed, ⟨hfeatures, hcandidates, hreviews, hunadvised⟩, hgiven,
    hemitted⟩ := vetoed_spec book p f c
  rw [submit, Effect.run_bind_ok hvetoed]
  by_cases hveto : verdict = some .veto
  · simp only [hveto, decide_true, if_true, Effect.run_modify]
    refine ⟨some .veto, _, ?_, .inl ⟨rfl, rfl, hgiven, "advisor veto", ?_⟩⟩
    · subst hveto
      exact ⟨hfeatures, hcandidates, hreviews, hunadvised⟩
    · rw [← hemitted]
      rfl
  · simp only [hveto, decide_false, Bool.false_eq_true, if_false]
    rw [expectEntry, if_neg (not_le.mpr hatr), Effect.run_bind_ok (Effect.run_modify ..)]
    -- the exit manager is told before the OMS is
    generalize book.expectEntry p.intent p.atr p.signal.barDate asked.world = world
    simp only [give, bind_assoc]
    rw [Effect.run_bind_ok (Effect.run_get _)]
    simp only
    rw [Effect.run_bind_ok (Effect.run_set ..)]
    cases hanswer : (book.submit p.intent world).1 with
    | error exc =>
      simp only
      rw [Effect.run_bind_error (Effect.run_throw ..)]
      refine ⟨verdict, _, ?_, .inr ⟨hveto, ?_, .inl ⟨world, exc, hanswer, rfl⟩⟩⟩
      · exact ⟨hfeatures, hcandidates, hreviews, hunadvised⟩
      · rw [hgiven]
    | ok submitted =>
      simp only [pure_bind, Effect.run_modify]
      refine ⟨verdict, _, ?_, .inr ⟨hveto, ?_, .inr ⟨submitted.status,
        String.ofList (submitted.message.toList.take 300),
        submitted.order.map Order.clientOrderId, rfl, ?_⟩⟩⟩
      · exact ⟨hfeatures, hcandidates, hreviews, hunadvised⟩
      · rw [← hgiven]
        rfl
      · rw [← hemitted]
        rfl

end DecisionEngine

end RakshaQuant
