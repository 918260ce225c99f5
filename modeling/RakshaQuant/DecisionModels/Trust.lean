import RakshaQuant.DecisionModels.Cascade

/-! What the cascade trusts. Every asked question is answered or abstained from, by Laya where it
is sure and by Jev elsewhere; the answers that nobody asked for come through as Laya gave them. -/

namespace RakshaQuant

namespace DecisionModels

namespace Cascade

variable {σ : Type} {c : Cascade σ} {task : Task} {state : Dict String String}
  {questions : Dict String Question} {w : σ} {answers : Dict String Answer} {name : String}

/-! ## Escalation -/

theorem fromKeys_get (reason : String) :
    (fromKeys questions reason).get? name = (questions.get? name).map fun _ => reason := by
  have hrebuild := Dict.get?_ofList_map questions (fun _ => reason) name
  rw [← hrebuild, fromKeys, Dict.keys, List.map_map]
  rfl

theorem uncertain_get :
    (c.uncertain questions answers).get? name =
      (questions.get? name).bind (c.doubt answers name) :=
  Dict.get?_ofList_filterMap questions (c.doubt answers) name

theorem kept_get (f : First) : (kept f).get? name =
    if name ∈ f.escalate.keys then none else f.answers.get? name := by
  have hfilter : f.answers.entries.filter (fun e => e.1 ∉ f.escalate.keys) =
      f.answers.entries.filterMap fun e =>
        (if e.1 ∈ f.escalate.keys then none else some e.2).map fun a => (e.1, a) := by
    induction f.answers.entries with
    | nil => rfl
    | cons e rest ih => by_cases h : e.1 ∈ f.escalate.keys <;> simpa [h] using ih
  unfold kept
  rw [hfilter, Dict.get?_ofList_filterMap f.answers
    fun name a => if name ∈ f.escalate.keys then none else some a]
  cases f.answers.get? name <;> split <;> rfl

/-- The calibrated answers of Laya, where it was called without error on a state it can read. -/
def firstAnswers (c : Cascade σ) (task : Task) (state : Dict String String)
    (questions : Dict String Question) (w : σ) : Option (Dict String Answer) :=
  match c.laya with
  | none => none
  | some laya =>
    if exceeds laya state then none
    else
      match c.ask laya task state questions w with
      | .ok answers _ => some answers
      | .error _ _ => none

/-- The calibrated answers of Jev to the questions it is asked. -/
def secondAnswers (c : Cascade σ) (task : Task) (state : Dict String String)
    (asked : Dict String Question) (w : σ) : Dict String Answer :=
  match c.jev with
  | none => .empty
  | some jev => (Heard.of (c.ask jev task state asked w)).answers

/-- Laya gave this answer and may be trusted with it. -/
def Trusted (c : Cascade σ) (task : Task) (state : Dict String String)
    (questions : Dict String Question) (w : σ) (name : String) (a : Answer) : Prop :=
  ∃ answers, c.firstAnswers task state questions w = some answers ∧ answers.get? name = some a ∧
    (∀ q, questions.get? name = some q → c.highCardinality q = false) ∧
    ¬a.confidence.Within c.config.low c.config.high

/-- What Laya said is passed on with what is escalated from it. -/
theorem first_spec (c : Cascade σ) (task : Task) (state : Dict String String)
    (questions : Dict String Question) (w : σ) :
    ∃ f w', c.first task state questions w = .ok f w' ∧
      ((c.firstAnswers task state questions w = none ∧ f.answers = .empty ∧
          ∀ name, name ∈ f.escalate.keys ↔ name ∈ questions.keys) ∨
        (c.firstAnswers task state questions w = some f.answers ∧
          f.escalate = c.uncertain questions f.answers)) := by
  have hall : ∀ reason name, name ∈ (fromKeys questions reason).keys ↔ name ∈ questions.keys := by
    intro reason name
    rw [Dict.mem_keys_iff, Dict.mem_keys_iff, fromKeys_get]
    simp
  unfold first firstAnswers
  cases c.laya with
  | none => exact ⟨_, _, rfl, .inl ⟨rfl, rfl, hall _⟩⟩
  | some laya =>
    dsimp only
    by_cases hlong : exceeds laya state
    · rw [if_pos hlong, if_pos hlong]
      exact ⟨_, _, rfl, .inl ⟨rfl, rfl, hall _⟩⟩
    · rw [if_neg hlong, if_neg hlong]
      cases hask : c.ask laya task state questions w with
      | ok answers w' =>
        have hcall : c.call laya task state questions none false w =
            .ok { answers, error := none } (c.emit (callEvent laya task questions none false
              { answers, error := none }) w') := by
          rw [call, hask]
          rfl
        rw [Effect.run_bind_ok hcall]
        exact ⟨_, _, rfl, .inr ⟨rfl, rfl⟩⟩
      | error e w' =>
        have hcall : c.call laya task state questions none false w =
            .ok { answers := .empty, error := some e.text } (c.emit (callEvent laya task questions
              none false { answers := .empty, error := some e.text }) w') := by
          rw [call, hask]
          rfl
        rw [Effect.run_bind_ok hcall]
        exact ⟨_, _, rfl, .inl ⟨rfl, rfl, hall _⟩⟩

/-- A question of which Laya's answer is not used has no answer to trust. -/
theorem doubt_none_iff {q : Question} (hanswers : c.firstAnswers task state questions w = some answers)
    (hq : questions.get? name = some q) :
    c.doubt answers name q = none ↔ ∃ a, c.Trusted task state questions w name a := by
  unfold doubt
  constructor
  · intro h
    split at h
    · cases h
    · rename_i hlow
      split at h
      · cases h
      · rename_i a ha
        split at h
        · cases h
        · rename_i hband
          refine ⟨a, answers, hanswers, ha, fun q' hq' => ?_, hband⟩
          rw [hq, Option.some.injEq] at hq'
          rw [← hq', Bool.not_eq_true] at *
          exact hlow
  · rintro ⟨a, answers', hanswers', ha, hlow, hband⟩
    rw [hanswers, Option.some.injEq] at hanswers'
    subst hanswers'
    rw [if_neg (by rw [hlow q hq]; decide), ha]
    exact if_neg hband

/-- The asked questions without an answer to trust are the ones escalated. -/
theorem mem_escalate_iff {f : First} {w' : σ} (hf : c.first task state questions w = .ok f w') :
    name ∈ f.escalate.keys ↔
      name ∈ questions.keys ∧ ∀ a, ¬c.Trusted task state questions w name a := by
  obtain ⟨f', w'', hfirst, hspec⟩ := first_spec c task state questions w
  rw [hfirst] at hf
  cases hf
  rcases hspec with ⟨hnone, -, hkeys⟩ | ⟨hsome, hkeys⟩
  · rw [hkeys name, and_iff_left]
    rintro a ⟨answers, hanswers, -⟩
    rw [hnone] at hanswers
    cases hanswers
  · rw [hkeys, Dict.mem_keys_iff, uncertain_get, Dict.mem_keys_iff]
    constructor
    · rintro ⟨reason, hreason⟩
      obtain ⟨q, hq, hdoubt⟩ := Option.bind_eq_some_iff.mp hreason
      refine ⟨⟨q, hq⟩, fun a ha => ?_⟩
      rw [(doubt_none_iff hsome hq).mpr ⟨a, ha⟩] at hdoubt
      cases hdoubt
    · rintro ⟨⟨q, hq⟩, hno⟩
      rw [hq, Option.bind_some]
      exact Option.ne_none_iff_exists'.mp fun hdoubt =>
        absurd ((doubt_none_iff hsome hq).mp hdoubt) (not_exists.mpr hno)

/-! ## Deciding -/

/-- Each escalated name is of a question. -/
theorem askedOf_spec {names : List String} (h : ∀ name ∈ names, name ∈ questions.keys) :
    ∃ asked, askedOf questions names = .ok asked ∧ asked.map Prod.fst = names ∧
      ∀ e ∈ asked, questions.get? e.1 = some e.2 := by
  induction names with
  | nil => exact ⟨[], rfl, rfl, fun e he => by cases he⟩
  | cons name rest ih =>
    obtain ⟨q, hq⟩ := questions.mem_keys_iff.mp (h name List.mem_cons_self)
    obtain ⟨later, hlater, hnames, hall⟩ := ih fun n hn => h n (List.mem_cons_of_mem _ hn)
    refine ⟨(name, q) :: later, ?_, by rw [List.map_cons, hnames], fun e he => ?_⟩
    · simp only [askedOf, hq, hlater, bind, Except.bind]
      rfl
    · rcases List.mem_cons.mp he with rfl | he
      · exact hq
      · exact hall e he

/-- The questions Jev is asked are the escalated ones. -/
theorem asked_get {names : List String} {asked : List (String × Question)}
    (hnames : asked.map Prod.fst = names) (hall : ∀ e ∈ asked, questions.get? e.1 = some e.2) :
    ∀ name q, (Dict.ofList asked).get? name = some q ↔
      name ∈ names ∧ questions.get? name = some q := by
  intro name q
  constructor
  · intro h
    have hmem := Dict.mem_of_ofList h
    exact ⟨hnames ▸ List.mem_map.mpr ⟨_, hmem, rfl⟩, hall _ hmem⟩
  · rintro ⟨hmem, hq⟩
    rw [← hnames] at hmem
    obtain ⟨e, he, rfl⟩ := List.mem_map.mp hmem
    refine (Dict.get?_ofList_iff fun q' hq' => ?_).mpr ?_
    · have := hall _ hq'
      rw [hq, Option.some.injEq] at this
      exact this.symm
    · have := hall e he
      rw [hq, Option.some.injEq] at this
      rw [this]
      exact he

/-- Jev's answers take the place of what was there, and the rest is abstained from. -/
theorem settle_all (s : Second) (names : List String) (result : CascadeResult) :
    (names.foldl (settle s) result).escalated = result.escalated ∧
    (∀ name, (names.foldl (settle s) result).answers.get? name =
      if name ∈ names then (s.answers.get? name).or (result.answers.get? name)
      else result.answers.get? name) ∧
    ∀ name, (names.foldl (settle s) result).abstained.get? name =
      if name ∈ names ∧ s.answers.get? name = none then some s.reason
      else result.abstained.get? name := by
  induction names generalizing result with
  | nil => simp
  | cons first rest ih =>
    obtain ⟨hescalated, hanswers, habstained⟩ := ih (settle s result first)
    rw [List.foldl_cons]
    unfold settle at hescalated hanswers habstained ⊢
    cases hfirst : s.answers.get? first with
    | none =>
      simp only [hfirst] at hescalated hanswers habstained ⊢
      refine ⟨hescalated, fun name => ?_, fun name => ?_⟩
      · rw [hanswers name]
        by_cases hname : name = first
        · simp [hname, hfirst]
        · simp [hname]
      · rw [habstained name]
        by_cases hname : name = first
        · simp [hname, hfirst]
        · simp [hname]
    | some a =>
      simp only [hfirst] at hescalated hanswers habstained ⊢
      refine ⟨hescalated, fun name => ?_, fun name => ?_⟩
      · rw [hanswers name]
        by_cases hname : name = first
        · simp [hname, hfirst]
        · simp [hname]
      · rw [habstained name]
        by_cases hname : name = first
        · simp [hname, hfirst]
        · simp [hname]

/-- Jev is asked in the world that Laya left. -/
theorem second_spec (c : Cascade σ) (task : Task) (state : Dict String String)
    (asked : Dict String Question) (escalation : String) (w : σ) :
    ∃ s w', c.second task state asked escalation w = .ok s w' ∧
      s.answers = c.secondAnswers task state asked w := by
  unfold second secondAnswers
  cases c.jev with
  | none => exact ⟨_, _, rfl, rfl⟩
  | some jev => exact ⟨_, _, rfl, rfl⟩

/-- What a decision comes to, once Laya was heard: the escalated questions are asked of Jev, whose
answers are taken, and abstained from where there is none. -/
structure Decided (c : Cascade σ) (task : Task) (state : Dict String String)
    (questions : Dict String Question) (f : First) (w₁ : σ) (asked : Dict String Question)
    (r : CascadeResult) : Prop where
  questioned : ∀ name q, asked.get? name = some q ↔
    name ∈ f.escalate.keys ∧ questions.get? name = some q
  escalated : ∀ name, name ∈ r.escalated.keys ↔ name ∈ f.escalate.keys
  answers : ∀ name, r.answers.get? name =
    if name ∈ f.escalate.keys then (c.secondAnswers task state asked w₁).get? name
    else f.answers.get? name
  abstained : ∀ name, name ∈ r.abstained.keys ↔
    name ∈ f.escalate.keys ∧ (c.secondAnswers task state asked w₁).get? name = none

/-- Where nothing is escalated, Laya's answers are kept. -/
theorem decided_kept {f : First} (w₁ : σ) (hkeys : ∀ name, name ∉ f.escalate.keys)
    (shadow : Bool) :
    Decided c task state questions f w₁ .empty
      { answers := kept f, abstained := .empty, escalated := .empty, shadow } where
  questioned := by
    intro name q
    simp [hkeys name]
  escalated := fun name => iff_of_false List.not_mem_nil (hkeys name)
  answers := by
    intro name
    rw [if_neg (hkeys name), kept_get, if_neg (hkeys name)]
  abstained := fun name => iff_of_false List.not_mem_nil fun h => hkeys name h.1

theorem decide_spec {f : First} {w₁ : σ} (hf : c.first task state questions w = .ok f w₁) :
    ∃ r w' asked, c.decide task state questions w = .ok r w' ∧
      Decided c task state questions f w₁ asked r := by
  have hquestions : ∀ name ∈ f.escalate.keys, name ∈ questions.keys :=
    fun name hname => ((mem_escalate_iff hf).mp hname).1
  unfold decide
  rw [Effect.run_bind_ok hf]
  dsimp only
  by_cases hnone : f.escalate.entries = []
  · -- nothing is escalated, and at most a sample goes to Jev
    have hkeys : ∀ name, name ∉ f.escalate.keys := by
      intro name
      rw [Dict.keys, hnone]
      exact List.not_mem_nil
    rw [if_neg (not_not.mpr hnone)]
    cases c.jev with
    | none => exact ⟨_, w₁, .empty, rfl, decided_kept w₁ hkeys false⟩
    | some jev =>
      dsimp only
      split
      · exact ⟨_, _, .empty, rfl, decided_kept w₁ hkeys true⟩
      · exact ⟨_, w₁, .empty, rfl, decided_kept w₁ hkeys false⟩
  · rw [if_pos hnone]
    obtain ⟨asked, hasked, hnames, hall⟩ := askedOf_spec hquestions
    obtain ⟨s, w', hs, hanswers⟩ :=
      second_spec c task state (.ofList asked) (reasons f.escalate) w₁
    have hread : (ofExcept (askedOf questions f.escalate.keys) :
        EStateM Exc σ (List (String × Question))) w₁ = .ok asked w₁ := by
      rw [hasked]
      rfl
    rw [Effect.run_bind_ok hread, Effect.run_bind_ok hs, hnames]
    -- each escalated question is answered by Jev or abstained from
    obtain ⟨hescalated, hfold, habstained⟩ := settle_all s f.escalate.keys
      { answers := kept f, abstained := .empty, escalated := f.escalate, shadow := false }
    refine ⟨_, w', .ofList asked, rfl, asked_get hnames hall, ?_, ?_, ?_⟩
    · intro name
      rw [hescalated]
    · intro name
      rw [hfold name, kept_get, hanswers]
      split <;> simp
    · intro name
      rw [Dict.mem_keys_iff, habstained name, hanswers]
      split
      · rename_i hleft
        exact iff_of_true ⟨_, rfl⟩ hleft
      · rename_i hleft
        simp [hleft]

/-- Every asked question has an answer or is abstained from, and only an answer that Laya may be
trusted with stands in for one of Jev's. `asked` is what Jev is asked, in the world Laya left. -/
structure Settled (c : Cascade σ) (task : Task) (state : Dict String String)
    (questions : Dict String Question) (w : σ) (asked : Dict String Question) (r : CascadeResult) :
    Prop where
  one : ∀ name ∈ questions.keys, name ∈ r.answers.keys ↔ name ∉ r.abstained.keys
  untrusted : ∀ name q, asked.get? name = some q ↔
    questions.get? name = some q ∧ ∀ a, ¬c.Trusted task state questions w name a
  escalated : ∀ name, name ∈ r.escalated.keys ↔ name ∈ asked.keys
  trusted : ∀ name ∈ questions.keys, ∀ a, c.Trusted task state questions w name a →
    r.answers.get? name = some a
  others : ∀ name ∈ asked.keys, r.answers.get? name =
    (c.secondAnswers task state asked ((c.first task state questions) w).state).get? name

/-- Every answer is one to trust Laya with, or Jev's to a question it was asked. -/
def NeverUnsure (c : Cascade σ) (task : Task) (state : Dict String String)
    (questions : Dict String Question) (w : σ) (asked : Dict String Question) (r : CascadeResult) :
    Prop :=
  ∀ name a, r.answers.get? name = some a → c.Trusted task state questions w name a ∨
    name ∈ asked.keys ∧
      (c.secondAnswers task state asked ((c.first task state questions) w).state).get? name = some a

/-- The same cascade with other samples. -/
def resampled (c : Cascade σ) (shadowPct : ℚ) (h : 0 ≤ shadowPct ∧ shadowPct ≤ 1)
    (bucket : String → Dict String String → List String → ℕ) : Cascade σ :=
  { c with config := { c.config with shadowPct, shadow := h }, bucket }

/-- Samples change nothing of a decision. -/
def Unsampled (c : Cascade σ) (task : Task) (state : Dict String String)
    (questions : Dict String Question) (w : σ) (r : CascadeResult) : Prop :=
  ∀ shadowPct h bucket, ∃ r' w',
    (c.resampled shadowPct h bucket).decide task state questions w = .ok r' w' ∧
      r'.answers = r.answers ∧ r'.abstained = r.abstained ∧ r'.escalated = r.escalated

/-- Deciding without samples. -/
def unsampled (c : Cascade σ) (task : Task) (state : Dict String String)
    (questions : Dict String Question) : EStateM Exc σ CascadeResult := do
  let f ← c.first task state questions
  let result : CascadeResult :=
    { answers := kept f, abstained := .empty, escalated := .empty, shadow := false }
  if f.escalate.entries ≠ [] then
    let asked ← ofExcept (askedOf questions f.escalate.keys)
    let s ← c.second task state (.ofList asked) (reasons f.escalate)
    return (asked.map Prod.fst).foldl (settle s) { result with escalated := f.escalate }
  else return result

/-- The asked questions are settled whatever the models do. -/
theorem decide_settled (c : Cascade σ) (task : Task) (state : Dict String String)
    (questions : Dict String Question) (w : σ) :
    ∃ r w' asked, c.decide task state questions w = .ok r w' ∧
      c.Settled task state questions w asked r ∧
      ∀ name, name ∉ questions.keys →
        r.answers.get? name = (c.firstAnswers task state questions w).bind (·.get? name) := by
  obtain ⟨f, w₁, hf, hspec⟩ := first_spec c task state questions w
  obtain ⟨r, w', asked, hr, hasked, hescalated, hanswers, habstained⟩ := decide_spec hf
  have hstate : ((c.first task state questions) w).state = w₁ := by rw [hf]; rfl
  have hkeys : ∀ name, name ∈ asked.keys ↔ name ∈ f.escalate.keys := by
    intro name
    rw [Dict.mem_keys_iff]
    constructor
    · rintro ⟨q, hq⟩
      exact ((hasked name q).mp hq).1
    · intro hname
      obtain ⟨q, hq⟩ := questions.mem_keys_iff.mp ((mem_escalate_iff hf).mp hname).1
      exact ⟨q, (hasked name q).mpr ⟨hname, hq⟩⟩
  -- an answer to trust is what Laya said
  have htrusted : ∀ name a, c.Trusted task state questions w name a →
      f.answers.get? name = some a := by
    rintro name a ⟨answers, hsome, ha, -⟩
    rcases hspec with ⟨hnone, -⟩ | ⟨hown, -⟩
    · rw [hnone] at hsome
      cases hsome
    · rw [hown, Option.some.injEq] at hsome
      rw [hsome]
      exact ha
  refine ⟨r, w', asked, hr, ⟨?_, ?_, ?_, ?_, ?_⟩, ?_⟩
  · intro name hname
    rw [Dict.mem_keys_iff, hanswers name, habstained name]
    by_cases hfrom : name ∈ f.escalate.keys
    · rw [if_pos hfrom]
      cases (c.secondAnswers task state asked w₁).get? name <;> simp [hfrom]
    · rw [if_neg hfrom]
      have hsure := mt (mem_escalate_iff hf).mpr hfrom
      simp only [hname, true_and, not_forall, not_not] at hsure
      obtain ⟨a, ha⟩ := hsure
      simp [hfrom, htrusted name a ha]
  · intro name q
    rw [hasked name q, mem_escalate_iff hf, Dict.mem_keys_iff]
    constructor
    · rintro ⟨⟨-, hno⟩, hq⟩
      exact ⟨hq, hno⟩
    · rintro ⟨hq, hno⟩
      exact ⟨⟨⟨q, hq⟩, hno⟩, hq⟩
  · intro name
    rw [hescalated name, hkeys name]
  · intro name hname a ha
    rw [hanswers name, if_neg, htrusted name a ha]
    exact fun hfrom => ((mem_escalate_iff hf).mp hfrom).2 a ha
  · intro name hname
    rw [hanswers name, if_pos ((hkeys name).mp hname), hstate]
  · intro name hname
    rw [hanswers name, if_neg fun hfrom => hname ((mem_escalate_iff hf).mp hfrom).1]
    rcases hspec with ⟨hnone, hempty, -⟩ | ⟨hown, -⟩
    · rw [hnone, hempty]
      rfl
    · rw [hown]
      rfl

/-- A sample goes to Jev once everything is decided. -/
theorem decide_unsampled (c : Cascade σ) (task : Task) (state : Dict String String)
    (questions : Dict String Question) (w : σ) :
    (∃ r w' w'' shadow, c.unsampled task state questions w = .ok r w' ∧
      c.decide task state questions w = .ok { r with shadow } w'') := by
  obtain ⟨f, w₁, hf, -⟩ := first_spec c task state questions w
  unfold decide unsampled
  rw [Effect.run_bind_ok hf, Effect.run_bind_ok hf]
  dsimp only
  by_cases hnone : f.escalate.entries = []
  · rw [if_neg (not_not.mpr hnone), if_neg (not_not.mpr hnone)]
    cases c.jev with
    | none => exact ⟨_, w₁, w₁, false, rfl, rfl⟩
    | some jev =>
      dsimp only
      split
      · exact ⟨_, w₁, _, true, rfl, rfl⟩
      · exact ⟨_, w₁, w₁, false, rfl, rfl⟩
  · rw [if_pos hnone, if_pos hnone]
    obtain ⟨asked, hasked, -⟩ :=
      askedOf_spec fun name hname => ((mem_escalate_iff hf).mp hname).1
    obtain ⟨s, w', hs, -⟩ := second_spec c task state (.ofList asked) (reasons f.escalate) w₁
    have hread : (ofExcept (askedOf questions f.escalate.keys) :
        EStateM Exc σ (List (String × Question))) w₁ = .ok asked w₁ := by
      rw [hasked]
      rfl
    rw [Effect.run_bind_ok hread, Effect.run_bind_ok hs]
    exact ⟨_, w', w', _, rfl, rfl⟩

theorem unsampled_of_decide {r : CascadeResult} {w' : σ}
    (h : c.decide task state questions w = .ok r w') : c.Unsampled task state questions w r := by
  intro shadowPct hshadow bucket
  obtain ⟨r₁, w₁, w₂, shadow₁, hcore, hdecide⟩ := decide_unsampled c task state questions w
  obtain ⟨r₂, w₃, w₄, shadow₂, hcore', hdecide'⟩ :=
    decide_unsampled (c.resampled shadowPct hshadow bucket) task state questions w
  -- without its samples the cascade is the same
  have hsame : (c.resampled shadowPct hshadow bucket).unsampled task state questions w =
      c.unsampled task state questions w := rfl
  rw [hsame, hcore] at hcore'
  cases hcore'
  rw [h] at hdecide
  cases hdecide
  exact ⟨_, _, hdecide', rfl, rfl, rfl⟩

/-- **The cascade never trusts an unsure answer where nobody answers out of turn.** An answer of
Laya to a question that was not asked is not held against the band, and comes through. -/
theorem decide_never_unsure_iff (c : Cascade σ) (task : Task) (state : Dict String String)
    (questions : Dict String Question) (w : σ) :
    (∃ r w' asked, c.decide task state questions w = .ok r w' ∧
      c.Settled task state questions w asked r ∧ c.NeverUnsure task state questions w asked r ∧
      c.Unsampled task state questions w r) ↔
    ∀ answers, c.firstAnswers task state questions w = some answers →
      ∀ name a, answers.get? name = some a → name ∉ questions.keys →
        ¬a.confidence.Within c.config.low c.config.high := by
  obtain ⟨r, w', asked, hr, hsettled, hextra⟩ := decide_settled c task state questions w
  constructor
  · rintro ⟨r', w'', asked', hr', hsettled', hsure, -⟩ answers hanswers name a ha hname
    rw [hr] at hr'
    cases hr'
    have hpassed : r.answers.get? name = some a := by
      rw [hextra name hname, hanswers]
      exact ha
    rcases hsure name a hpassed with htrusted | ⟨hasked, -⟩
    · obtain ⟨answers', hanswers', ha', -, hband⟩ := htrusted
      rw [hanswers, Option.some.injEq] at hanswers'
      rw [← hanswers', ha, Option.some.injEq] at ha'
      rw [ha']
      exact hband
    · obtain ⟨q, hq⟩ := asked'.mem_keys_iff.mp hasked
      exact absurd (questions.mem_keys_iff.mpr ⟨q, ((hsettled'.untrusted name q).mp hq).1⟩) hname
  · intro hband
    refine ⟨r, w', asked, hr, hsettled, ?_, unsampled_of_decide hr⟩
    intro name a ha
    by_cases hname : name ∈ questions.keys
    · by_cases htrusted : ∃ a', c.Trusted task state questions w name a'
      · obtain ⟨a', ha'⟩ := htrusted
        rw [hsettled.trusted name hname a' ha', Option.some.injEq] at ha
        exact .inl (ha ▸ ha')
      · obtain ⟨q, hq⟩ := questions.mem_keys_iff.mp hname
        have hasked : name ∈ asked.keys := asked.mem_keys_iff.mpr
          ⟨q, (hsettled.untrusted name q).mpr ⟨hq, not_exists.mp htrusted⟩⟩
        rw [hsettled.others name hasked] at ha
        exact .inr ⟨hasked, ha⟩
    · -- an answer that was not asked for is Laya's own
      rw [hextra name hname] at ha
      obtain ⟨answers, hanswers, hget⟩ := Option.bind_eq_some_iff.mp ha
      refine .inl ⟨answers, hanswers, hget, fun q hq => ?_, hband answers hanswers name a hget hname⟩
      exact absurd (questions.mem_keys_iff.mpr ⟨q, hq⟩) hname

end Cascade

/-! ## An answer out of turn -/

namespace UnaskedAnswer

theorem relevant_fit : Criteria.Fit .noul none := trivial

def relevant : Question :=
  { type := .noul, instructions := "Relevant?", criteria := none, fit := relevant_fit }

def questions : Dict String Question := .ofList [("relevant", relevant)]

def answer (confidence : ℚ) : Answer :=
  { type := .noul, value := .flag true, probabilities := .empty, confidence := .finite confidence
    model := "laya", calibrated := false }

theorem laya_ne : "laya" ≠ "" := by decide

theorem english_ne : "english" ≠ "" := by decide

/-- It answers what it is asked, and one question more. -/
def laya : DecisionModel Unit :=
  { name := "laya", checkpoint := "english", device := some "cpu", contextTokens := some 512
    decide := fun _ _ => pure (.ofList [("relevant", answer (9 / 10)), ("direction", answer (1 / 2))])
    name_ne := laya_ne, checkpoint_ne := english_ne }

theorem band_holds : (0 : ℚ) ≤ 7 / 20 ∧ (7 / 20 : ℚ) ≤ 13 / 20 ∧ (13 / 20 : ℚ) ≤ 1 := by
  decide +kernel

theorem shadow_holds : (0 : ℚ) ≤ 1 / 5 ∧ (1 / 5 : ℚ) ≤ 1 := by norm_num

def config : CascadeConfig :=
  { low := 7 / 20, high := 13 / 20, maxChoices := 20, shadowPct := 1 / 5, band := band_holds
    shadow := shadow_holds }

theorem some_model : (some laya).isSome ∨ (none : Option (DecisionModel Unit)).isSome := .inl rfl

def cascade : Cascade Unit :=
  { laya := some laya, jev := none, emit := fun _ w => w, config, calibrate := fun _ _ a => pure a
    bucket := fun _ _ _ => 0, some_model := some_model }

theorem task_ne : "announcements" ≠ "" := by decide

def task : Task :=
  { name := "announcements", decisionId := none, bookId := none, name_ne := task_ne }

end UnaskedAnswer

/-- An unsure answer comes through under the name of a question that was not asked. -/
theorem unasked_answer_trusted :
    ¬∀ (c : Cascade Unit) (task : Task) (state : Dict String String)
      (questions : Dict String Question) (w : Unit),
      ∃ r w' asked, c.decide task state questions w = .ok r w' ∧
        c.Settled task state questions w asked r ∧
        c.NeverUnsure task state questions w asked r := by
  intro h
  obtain ⟨r, w', asked, hr, hsettled, hsure⟩ :=
    h UnaskedAnswer.cascade UnaskedAnswer.task .empty UnaskedAnswer.questions ()
  have hanswer : r.answers.get? "direction" = some (UnaskedAnswer.answer (1 / 2)) := by
    obtain ⟨r', w'', asked', hr', -, hextra⟩ := Cascade.decide_settled UnaskedAnswer.cascade
      UnaskedAnswer.task .empty UnaskedAnswer.questions ()
    rw [hr] at hr'
    cases hr'
    rw [hextra "direction" (by decide)]
    rfl
  rcases hsure _ _ hanswer with ⟨-, -, -, -, hband⟩ | ⟨hasked, -⟩
  · exact hband (by decide +kernel)
  · obtain ⟨q, hq⟩ := asked.mem_keys_iff.mp hasked
    have hnone : UnaskedAnswer.questions.get? "direction" = none := by rfl
    rw [((hsettled.untrusted _ q).mp hq).1] at hnone
    cases hnone

end DecisionModels

end RakshaQuant
