import RakshaQuant.Decision.Veto
import RakshaQuant.Lib.Frame

/-! In which world an advisor is asked. A cycle submits proposals one after another, and each finds
the world as the submissions before it left it; the verdicts of a cycle are what the advisors
answered in just these worlds. -/

namespace RakshaQuant

open Effect

variable {σ : Type}

/-- One submission of a cycle. -/
structure Submission (σ : Type) where
  book : BookTarget σ
  proposal : Proposal
  features : Features

namespace Submission

/-- What comes of asking the advisor. -/
def reviewed (v : Submission σ) (world : σ) : Option Verdict × σ :=
  match v.book.advisor with
  | none => (none, world)
  | some review => review v.proposal v.features world

/-- The world after it: a vetoed proposal goes no further, and neither does one whose ATR the exit
manager refuses. -/
def after (v : Submission σ) (world : σ) : σ :=
  let (verdict, asked) := v.reviewed world
  let { intent, atr, signal, .. } := v.proposal
  if verdict = some .veto ∨ atr ≤ 0 then asked
  else (v.book.submit intent (v.book.expectEntry intent atr signal.barDate asked)).2

/-- The entry of the review. -/
def entry (v : Submission σ) (world : σ) : String × OrderIntent × Option Verdict :=
  (v.book.bookId, v.proposal.intent, (v.reviewed world).1)

/-- The world after some submissions. -/
def afterAll (submissions : List (Submission σ)) (world : σ) : σ :=
  submissions.foldl (fun world v => v.after world) world

/-- The reviews of some submissions. -/
def entries : List (Submission σ) → σ → List (String × OrderIntent × Option Verdict)
  | [], _ => []
  | v :: rest, world => v.entry world :: entries rest (v.after world)

variable {submissions : List (Submission σ)} {v : Submission σ} {world : σ}

theorem afterAll_concat :
    afterAll (submissions ++ [v]) world = v.after (afterAll submissions world) := by
  simp [afterAll]

theorem entries_concat :
    entries (submissions ++ [v]) world =
      entries submissions world ++ [v.entry (afterAll submissions world)] := by
  induction submissions generalizing world with
  | nil => rfl
  | cons first rest ih =>
    simp only [List.cons_append, entries, ih]
    rfl

theorem mem_entries {entry : String × OrderIntent × Option Verdict}
    (h : entry ∈ entries submissions world) :
    ∃ before v later, submissions = before ++ v :: later ∧
      entry = v.entry (afterAll before world) := by
  induction submissions generalizing world with
  | nil => cases h
  | cons first rest ih =>
    rcases List.mem_cons.mp h with rfl | hrest
    · exact ⟨[], first, rest, rfl, rfl⟩
    · obtain ⟨before, v, later, rfl, rfl⟩ := ih hrest
      exact ⟨first :: before, v, later, rfl, rfl⟩

/-- What every submission keeps holds in every world on the way. -/
theorem afterAll_keeps {I : σ → Prop}
    (hkeeps : ∀ v ∈ submissions, ∀ world, I world → I (v.after world)) (hworld : I world) :
    I (afterAll submissions world) := by
  induction submissions generalizing world with
  | nil => exact hworld
  | cons first rest ih =>
    refine ih (fun v hv => hkeeps v (List.mem_cons_of_mem _ hv)) ?_
    exact hkeeps first List.mem_cons_self world hworld

end Submission

/-- A cycle that began in a world has made these submissions: each of a book it serves and of a
proposal it made, with the features it computed. -/
structure Made (books : List (BookTarget σ)) (start : σ) (submissions : List (Submission σ))
    (c : Cycle σ) : Prop where
  world : c.world = Submission.afterAll submissions start
  reviews : c.reviews = Submission.entries submissions start
  served : ∀ v ∈ submissions, v.book ∈ books ∧ v.proposal ∈ c.result.proposals ∧
    c.features.get? v.proposal.intent.instrument.key = some v.features

/-- In this world a book's advisor is asked about a proposal. -/
def AskedIn (submissions : List (Submission σ)) (start : σ) (bookId : String) (p : Proposal)
    (f : Features) (world : σ) : Prop :=
  ∃ before v later, submissions = before ++ v :: later ∧ v.book.bookId = bookId ∧ v.proposal = p ∧
    v.features = f ∧ world = Submission.afterAll before start

namespace DecisionEngine

variable {books : List (BookTarget σ)} {start : σ} {c : Cycle σ}

/-- What a submission does with the world and the reviews. -/
theorem submit_world (book : BookTarget σ) (p : Proposal) (f : Features) (c : Cycle σ) :
    let v : Submission σ := ⟨book, p, f⟩
    let ending := (submit book p f c).state
    ending.world = v.after c.world ∧ ending.reviews = c.reviews ++ [v.entry c.world] := by
  intro v ending
  have hasked : vetoed book p f c = .ok (decide ((v.reviewed c.world).1 = some .veto))
      { c with world := (v.reviewed c.world).2, reviews := c.reviews ++ [v.entry c.world] } := rfl
  show (submit book p f c).state.world = _ ∧ (submit book p f c).state.reviews = _
  rw [submit, run_bind_ok hasked, Submission.after]
  by_cases hveto : (v.reviewed c.world).1 = some .veto
  · simp only [hveto, decide_true, if_true, true_or]
    exact ⟨rfl, rfl⟩
  · simp only [hveto, decide_false, Bool.false_eq_true, if_false, false_or]
    by_cases hatr : p.atr ≤ 0
    · rw [expectEntry, if_pos hatr, run_bind_error (run_throw ..), if_pos hatr]
      exact ⟨rfl, rfl⟩
    · rw [expectEntry, if_neg hatr, run_bind_ok (run_modify ..), if_neg hatr, give]
      simp only [bind_assoc]
      rw [run_bind_ok (run_get _)]
      simp only
      rw [run_bind_ok (run_set ..)]
      split
      · exact ⟨rfl, rfl⟩
      · exact ⟨rfl, rfl⟩

/-- What the submissions neither read back nor change: what was proposed, on what features. -/
abbrev LeavesProposals {α : Type} (m : EStateM Exc (Cycle σ) α) : Prop :=
  Leaves (fun c => (c.result.proposals, c.features)) m

theorem leaves_vetoed (book : BookTarget σ) (p : Proposal) (f : Features) :
    LeavesProposals (vetoed book p f) := fun _ => rfl

theorem leaves_expectEntry (book : BookTarget σ) (p : Proposal) :
    LeavesProposals (expectEntry book p) := by
  unfold expectEntry
  exact .ite (.throw _) (.change fun _ => rfl)

theorem leaves_give (book : BookTarget σ) (intent : OrderIntent) :
    LeavesProposals (give book intent) := by
  intro c
  unfold give
  rw [run_bind_ok (run_get c), run_bind_ok (run_set _ _)]
  cases (book.submit intent c.world).1 with
  | error e => rfl
  | ok submitted => rfl

theorem leaves_submit (book : BookTarget σ) (p : Proposal) (f : Features) :
    LeavesProposals (submit book p f) := by
  unfold submit
  refine (leaves_vetoed book p f).bind fun vetoed => ?_
  split
  · exact .change fun _ => rfl
  · refine (leaves_expectEntry book p).bind fun _ => ?_
    exact (leaves_give book p.intent).bind fun submitted => .change fun _ => rfl

/-- Some submissions were made. -/
def HasMade (books : List (BookTarget σ)) (start : σ) (c : Cycle σ) : Prop :=
  ∃ submissions, Made books start submissions c

theorem HasMade.submit {book : BookTarget σ} {p : Proposal} {f : Features}
    (h : HasMade books start c) (hbook : book ∈ books) (hp : p ∈ c.result.proposals)
    (hf : c.features.get? p.intent.instrument.key = some f) :
    HasMade books start (submit book p f c).state := by
  obtain ⟨submissions, hworld, hreviews, hserved⟩ := h
  obtain ⟨hafter, hentry⟩ := submit_world book p f c
  have hleft := leaves_submit book p f c
  obtain ⟨hproposals, hfeatures⟩ := Prod.mk.injEq .. ▸ hleft
  refine ⟨submissions ++ [⟨book, p, f⟩], ?_, ?_, ?_⟩
  · rw [Submission.afterAll_concat, hafter, hworld]
  · rw [Submission.entries_concat, hentry, hreviews, hworld]
  · rw [hproposals, hfeatures]
    intro v hv
    rcases List.mem_append.mp hv with hold | hnew
    · exact hserved v hold
    · cases List.mem_singleton.mp hnew
      exact ⟨hbook, hp, hf⟩

/-- What else a cycle does leaves the submissions as they are. -/
theorem HasMade.quiet {c' : Cycle σ} (h : HasMade books start c)
    (hsame : (c'.world, c'.reviews, c'.features) = (c.world, c.reviews, c.features))
    (hgrown : ∀ p ∈ c.result.proposals, p ∈ c'.result.proposals) : HasMade books start c' := by
  obtain ⟨submissions, hworld, hreviews, hserved⟩ := h
  simp only [Prod.mk.injEq] at hsame
  obtain ⟨hworld', hreviews', hfeatures'⟩ := hsame
  refine ⟨submissions, hworld'.trans hworld, hreviews'.trans hreviews, fun v hv => ?_⟩
  obtain ⟨hbook, hp, hf⟩ := hserved v hv
  exact ⟨hbook, hgrown _ hp, hfeatures' ▸ hf⟩

theorem submitAll_made {book : BookTarget σ} (hbook : book ∈ books) {ps : List Proposal}
    (hps : ∀ p ∈ ps, p ∈ c.result.proposals) (h : HasMade books start c) :
    HasMade books start (submitAll book ps c).state := by
  induction ps generalizing c with
  | nil => exact h
  | cons p rest ih =>
    rw [submitAll, run_bind_ok (run_get c)]
    cases hf : c.features.get? p.intent.instrument.key with
    | none => exact h
    | some f =>
      have hone := h.submit (f := f) hbook (hps p List.mem_cons_self) hf
      have hleft := leaves_submit book p f c
      obtain ⟨hproposals, -⟩ := Prod.mk.injEq .. ▸ hleft
      simp only
      rw [run_bind]
      cases hrun : submit book p f c with
      | error e c' =>
        rw [hrun] at hone
        exact hone
      | ok _ c' =>
        rw [hrun] at hone hproposals
        refine ih (fun q hq => ?_) hone
        exact hproposals ▸ hps q (List.mem_cons_of_mem _ hq)

/-- Making proposals submits none. -/
theorem leaves_proposeAll (e : DecisionEngine σ) (r : Readings) (quotes : Dict String Quote)
    (bookId : String) (position : ℕ) (candidates : List (Signal × Instrument)) :
    Leaves (fun c => (c.world, c.reviews, c.features, c.result.proposals))
      (e.proposeAll r quotes bookId position candidates) := by
  induction candidates generalizing position with
  | nil => exact .pure _
  | cons candidate rest ih =>
    rw [proposeAll]
    refine .read fun c => ?_
    split
    · exact .throw _
    · exact .bind (.change fun _ => rfl) fun _ => ih _
    · exact .bind (.change fun _ => rfl) fun _ => .bind (ih _) fun _ => .pure _

theorem serve_made (e : DecisionEngine σ) (r : Readings) (quotes : Dict String Quote)
    {book : BookTarget σ} (hbook : book ∈ books) (h : HasMade books start c) :
    HasMade books start (e.serve r quotes book c).state := by
  have hleft := leaves_proposeAll e r quotes book.bookId 0 c.candidates c
  rw [serve, run_bind_ok (run_get c), run_bind]
  cases hrun : e.proposeAll r quotes book.bookId 0 c.candidates c with
  | error exc c' =>
    rw [hrun] at hleft
    simp only [EStateM.Result.state, Prod.mk.injEq] at hleft
    obtain ⟨hworld, hreviews, hfeatures, hproposals⟩ := hleft
    exact h.quiet (by simp [EStateM.Result.state, *]) (by simp [EStateM.Result.state, *])
  | ok ps c' =>
    rw [hrun] at hleft
    simp only [EStateM.Result.state, Prod.mk.injEq] at hleft
    obtain ⟨hworld, hreviews, hfeatures, hproposals⟩ := hleft
    simp only
    rw [run_bind_ok (run_modify ..)]
    refine submitAll_made hbook (fun p hp => ?_) (h.quiet (by simp [*]) ?_)
    · exact List.mem_append_right _ ((ranked_perm ps).mem_iff.mp hp)
    · exact fun p hp => List.mem_append_left _ (hproposals ▸ hp)

theorem serveAll_made (e : DecisionEngine σ) (r : Readings) (quotes : Dict String Quote)
    {served : List (BookTarget σ)} (hserved : ∀ book ∈ served, book ∈ books)
    (h : HasMade books start c) : HasMade books start (e.serveAll r quotes served c).state := by
  induction served generalizing c with
  | nil => exact h
  | cons book rest ih =>
    have hone := serve_made e r quotes (hserved book List.mem_cons_self) h
    rw [serveAll, run_bind]
    cases hrun : e.serve r quotes book c with
    | error exc c' =>
      rw [hrun] at hone
      exact hone
    | ok _ c' =>
      rw [hrun] at hone
      exact ih (fun other hother => hserved other (List.mem_cons_of_mem _ hother)) hone

theorem disposeAll_world (e : DecisionEngine σ) (s : Signal) (disposition : Disposition)
    (detail : String) (c : Cycle σ) : (e.disposeAll s disposition detail c).world = c.world := by
  unfold disposeAll
  induction e.books generalizing c with
  | nil => rfl
  | cons book rest ih => exact ih _

theorem consider_world (e : DecisionEngine σ) (regime : Option Regime) (instrument : Instrument)
    (c : Cycle σ) (s : Signal) : (e.consider regime instrument c s).world = c.world := by
  unfold consider
  dsimp only
  split
  · exact disposeAll_world ..
  · split
    · rfl
    · exact disposeAll_world ..

theorem considerAll_world (e : DecisionEngine σ) (regime : Option Regime) (instrument : Instrument)
    (signals : List Signal) (c : Cycle σ) :
    (signals.foldl (e.consider regime instrument) c).world = c.world := by
  induction signals generalizing c with
  | nil => rfl
  | cons s rest ih => exact (ih _).trans (consider_world ..)

theorem signals_world (e : DecisionEngine σ) (r : Readings) (position : ℕ)
    (instrument : Instrument) (c : Cycle σ) :
    (e.signals r position instrument c).2.world = c.world := by
  unfold signals
  dsimp only
  split
  · rfl
  · split
    · rfl
    · split <;> rfl

/-- Gathering the signals touches no world. -/
theorem gather_world (e : DecisionEngine σ) (r : Readings) (regime : Option Regime) (position : ℕ)
    (instruments : List Instrument) (c : Cycle σ) :
    (e.gather r regime position instruments c).world = c.world := by
  induction instruments generalizing position c with
  | nil => rfl
  | cons instrument rest ih =>
    have hsignals := signals_world e r position instrument c
    rw [gather]
    split
    · rename_i hnone
      rw [hnone] at hsignals
      exact (ih ..).trans hsignals
    · rename_i found c' hfound
      rw [hfound] at hsignals
      exact (ih ..).trans ((considerAll_world ..).trans hsignals)

/-- Whatever a cycle meets, its reviews and the world it leaves are those of its submissions. -/
theorem runCycle_made (e : DecisionEngine σ) (r : Readings) (instruments : List Instrument)
    (regime : Option Regime) (start : σ) :
    HasMade e.books start (e.runCycle r instruments regime start).state := by
  have hall : e.Gathered r (0 + instruments.length)
      (e.gather r regime 0 instruments (.start (r.newId 0) start)) :=
    (Gathered.start e r start).gather regime
  have hquiet := hall.quiet
  have hworld := gather_world e r regime 0 instruments (.start (r.newId 0) start)
  unfold runCycle
  generalize e.gather r regime 0 instruments (.start (r.newId 0) start) = c at hquiet hworld
  have hgathered : HasMade e.books start c :=
    ⟨[], hworld, hquiet.2, fun v hv => absurd hv List.not_mem_nil⟩
  dsimp only
  split
  · exact hgathered
  · refine serveAll_made e r _ (fun book hbook => hbook) ?_
    unfold requote
    split
    · exact hgathered
    · exact hgathered.quiet rfl fun p hp => hp

end DecisionEngine

/-- A verdict of a cycle is what its book's advisor answered in the world it was asked in. -/
theorem Made.answered {e : DecisionEngine σ} {advisors : String → Option (Advisor σ)} {start : σ}
    {submissions : List (Submission σ)} {c : Cycle σ}
    (h : Made (e.advise advisors).books start submissions c) {bookId : String}
    {review : Advisor σ} (hreview : advisors bookId = some review) {intent : OrderIntent}
    {verdict : Option Verdict} (hmem : (intent, verdict) ∈ c.reviewsOf bookId) :
    ∃ p f world, AskedIn submissions start bookId p f world ∧ p.intent = intent ∧
      (review p f world).1 = verdict := by
  obtain ⟨entry, hentry, heq⟩ := List.mem_map.mp hmem
  obtain ⟨hin, hbook⟩ := List.mem_filter.mp hentry
  rw [h.reviews] at hin
  obtain ⟨before, v, later, hsplit, rfl⟩ := Submission.mem_entries hin
  have hv : v ∈ submissions := hsplit ▸ List.mem_append_right _ List.mem_cons_self
  obtain ⟨was, -, hwas⟩ := List.mem_map.mp (h.served v hv).1
  have hid : v.book.bookId = bookId := of_decide_eq_true hbook
  have hadvisor : v.book.advisor = some review := by
    rw [← hreview, ← hid, ← hwas]
  refine ⟨_, _, _, ⟨before, v, later, hsplit, hid, rfl, rfl, rfl⟩, congrArg Prod.fst heq, ?_⟩
  have hanswer := congrArg Prod.snd heq
  simp only [Submission.entry, Submission.reviewed, hadvisor] at hanswer
  exact hanswer

end RakshaQuant
