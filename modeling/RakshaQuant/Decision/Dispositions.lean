import RakshaQuant.Decision.Proposing

/-! One disposition for every signal and book. A signal leaves the cycle as a shadow
or a gated signal before the books are served, and after that as a skipped, a vetoed
or an answered candidate of each; over the whole cycle each book's dispositions are
its signals, rearranged, and the answered ones are what its OMS was given. -/

namespace RakshaQuant

open RakshaQuant.Cycle

variable {σ : Type} {e : DecisionEngine σ} {r : Readings} {quotes : Dict String Quote}

namespace Cycle

/-- From one cycle to the next a book disposed of signals of the given origins, and its
answered dispositions are the intents its OMS was given. -/
def Answered (bookId : String) (origins : List Origin) (c c' : Cycle σ) : Prop :=
  ∃ ds gs, c'.dispositionsOf bookId = c.dispositionsOf bookId ++ ds ∧
    c'.givenTo bookId = c.givenTo bookId ++ gs ∧
    List.Perm (ds.map SignalDisposition.origin) origins ∧
    (ds.filter fun d => d.disposition.isAnswer).map SignalDisposition.origin =
      gs.map OrderIntent.origin

/-- One book disposed of signals; the other books did nothing. -/
structure Disposed (bookId : String) (origins : List Origin) (c c' : Cycle σ) : Prop where
  features : c'.features = c.features
  candidates : c'.candidates = c.candidates
  generated : c'.generated = c.generated
  others : ∀ b, b ≠ bookId →
    c'.dispositionsOf b = c.dispositionsOf b ∧ c'.givenTo b = c.givenTo b
  own : Answered bookId origins c c'

theorem Disposed.refl (bookId : String) (c : Cycle σ) : Disposed bookId [] c c where
  features := rfl
  candidates := rfl
  generated := rfl
  others := fun _ _ => ⟨rfl, rfl⟩
  own := ⟨[], [], by simp, by simp, .nil, rfl⟩

theorem Disposed.trans {bookId : String} {os os' : List Origin} {c₁ c₂ c₃ : Cycle σ}
    (h : Disposed bookId os c₁ c₂) (h' : Disposed bookId os' c₂ c₃) :
    Disposed bookId (os ++ os') c₁ c₃ where
  features := h'.features.trans h.features
  candidates := h'.candidates.trans h.candidates
  generated := h'.generated.trans h.generated
  others := by
    intro b hb
    exact ⟨(h'.others b hb).1.trans (h.others b hb).1, (h'.others b hb).2.trans (h.others b hb).2⟩
  own := by
    obtain ⟨ds, gs, hds, hgs, hperm, hanswers⟩ := h.own
    obtain ⟨ds', gs', hds', hgs', hperm', hanswers'⟩ := h'.own
    refine ⟨ds ++ ds', gs ++ gs', ?_, ?_, ?_, ?_⟩
    · rw [hds', hds, List.append_assoc]
    · rw [hgs', hgs, List.append_assoc]
    · rw [List.map_append]
      exact hperm.append hperm'
    · rw [List.filter_append, List.map_append, List.map_append, hanswers, hanswers']

theorem Disposed.perm {bookId : String} {os os' : List Origin} {c c' : Cycle σ}
    (h : Disposed bookId os c c') (hos : List.Perm os os') : Disposed bookId os' c c' := by
  obtain ⟨ds, gs, hds, hgs, hperm, hanswers⟩ := h.own
  exact ⟨h.features, h.candidates, h.generated, h.others,
    ds, gs, hds, hgs, hperm.trans hos, hanswers⟩

end Cycle

namespace BookTarget

/-- The book's OMS raises nothing. -/
def Answers (book : BookTarget σ) : Prop :=
  ∀ intent world, ∃ submitted, (book.submit intent world).1 = .ok submitted

end BookTarget

namespace DecisionEngine

theorem ranked_perm (ps : List Proposal) : List.Perm (ranked ps) ps :=
  List.perm_insertionSort ..

/-! ## One book -/

theorem submit_disposed {book : BookTarget σ} (hbook : book.Answers) {p : Proposal}
    (hatr : 0 < p.atr) (horigin : p.intent.origin = p.signal.origin) (f : Features)
    (c : Cycle σ) : ∃ c', submit book p f c = .ok ⟨⟩ c' ∧
      Disposed book.bookId [p.intent.origin] c c' := by
  obtain ⟨verdict, c', hasked, hends⟩ := submit_cases book hatr f c
  have hcases : ∃ d : SignalDisposition, submit book p f c = .ok ⟨⟩ c' ∧
      c'.emitted = c.emitted ++ [.signalDisposition d] ∧ d.bookId = book.bookId ∧
      d.origin = p.intent.origin ∧
      (d.disposition.isAnswer = false ∧ c'.given = c.given ∨
        d.disposition.isAnswer = true ∧
          c'.given = c.given ++ [(book.bookId, p.intent)]) := by
    obtain ⟨-, hrun, hgiven, detail, hemitted⟩ | ⟨-, hgiven, hanswer⟩ := hends
    · exact ⟨_, hrun, hemitted, rfl, horigin.symm, .inl ⟨rfl, hgiven⟩⟩
    · obtain ⟨world, exc, hraised, -⟩ | ⟨status, detail, coid, hrun, hemitted⟩ := hanswer
      · obtain ⟨submitted, hsubmitted⟩ := hbook p.intent world
        rw [hsubmitted] at hraised
        cases hraised
      · exact ⟨_, hrun, hemitted, rfl, horigin.symm,
          .inr ⟨Disposition.isAnswer_ofStatus status, hgiven⟩⟩
  obtain ⟨d, hrun, hemitted, hd, hdo, hgiven⟩ := hcases
  refine ⟨c', hrun, hasked.features, hasked.candidates, ?_, ?_, ?_⟩
  · simp [generated, hemitted]
  · intro b hb
    have hne : book.bookId ≠ b := Ne.symm hb
    refine ⟨by simp [dispositionsOf, hemitted, hd, hne], ?_⟩
    obtain ⟨-, hgiven⟩ | ⟨-, hgiven⟩ := hgiven <;> simp [givenTo, hgiven, hne]
  · have hdispositions : c'.dispositionsOf book.bookId = c.dispositionsOf book.bookId ++ [d] := by
      simp [dispositionsOf, hemitted, hd]
    obtain ⟨hanswer, hgiven⟩ | ⟨hanswer, hgiven⟩ := hgiven
    · exact ⟨[d], [], hdispositions, by simp [givenTo, hgiven], by simp [hdo],
        by simp [hanswer]⟩
    · exact ⟨[d], [p.intent], hdispositions, by simp [givenTo, hgiven], by simp [hdo],
        by simp [hanswer, hdo]⟩

theorem submitAll_disposed {book : BookTarget σ} (hbook : book.Answers) {ps : List Proposal}
    (c : Cycle σ) (hps : ∀ p ∈ ps, 0 < p.atr ∧ p.intent.origin = p.signal.origin ∧
      (c.features.get? p.intent.instrument.key).isSome) :
    ∃ c', submitAll book ps c = .ok ⟨⟩ c' ∧
      Disposed book.bookId (ps.map fun p => p.intent.origin) c c' := by
  induction ps generalizing c with
  | nil => exact ⟨c, rfl, .refl ..⟩
  | cons p rest ih =>
    obtain ⟨hatr, horigin, hfeatured⟩ := hps p (List.mem_cons_self ..)
    obtain ⟨f, hf⟩ := Option.isSome_iff_exists.mp hfeatured
    obtain ⟨c₁, hrun, hone⟩ := submit_disposed hbook hatr horigin f c
    obtain ⟨c₂, hruns, hall⟩ := ih c₁ fun q hq => by
      rw [hone.features]
      exact hps q (List.mem_cons_of_mem p hq)
    refine ⟨c₂, ?_, hone.trans hall⟩
    rw [submitAll, Effect.run_bind_ok (Effect.run_get c)]
    simp only [hf]
    rw [Effect.run_bind_ok hrun, hruns]

variable (e r quotes) in
/-- A book disposes of every candidate. -/
theorem serve_disposed {book : BookTarget σ} (hbook : book.Answers) {c : Cycle σ}
    (hc : ∀ x ∈ c.candidates, Proposable c.features x) :
    ∃ c', e.serve r quotes book c = .ok ⟨⟩ c' ∧
      Disposed book.bookId (c.candidates.map fun x => x.1.origin) c c' := by
  obtain ⟨c₁, hrun, hdone⟩ := proposeAll_spec e r quotes book.plain 0 hc
  have hfrom : ∀ p ∈ e.proposalsOf r quotes c.features book.bookId 0 c.candidates, _ :=
    fun p hp => mem_proposalsOf e r quotes book.plain 0 hc hp
  generalize e.proposalsOf r quotes c.features book.bookId 0 c.candidates = ps at hrun hdone hfrom
  let c₂ : Cycle σ := { c₁ with result := { c₁.result with proposals := c₁.result.proposals ++ ps } }
  have hps : ∀ p ∈ ranked ps, 0 < p.atr ∧ p.intent.origin = p.signal.origin ∧
      (c₂.features.get? p.intent.instrument.key).isSome := by
    intro p hp
    obtain ⟨x, hx, hpx⟩ := hfrom p ((ranked_perm ps).mem_iff.mp hp)
    refine ⟨hpx.atr, hpx.origin.trans (congrArg Signal.origin hpx.signal).symm, ?_⟩
    rw [show c₂.features = c.features from hdone.same.features, hpx.instrument]
    exact (hc x hx).featured
  obtain ⟨c₃, hruns, hall⟩ := submitAll_disposed hbook c₂ hps
  refine ⟨c₃, ?_, ?_⟩
  · rw [serve, Effect.run_bind_ok (Effect.run_get c), Effect.run_bind_ok hrun,
      Effect.run_bind_ok (Effect.run_modify ..), hruns]
  · -- the skipped candidates come before the ranked ones
    obtain ⟨ds, hds, hanswer, hperm⟩ := hdone.skipped
    have hskipped : Disposed book.bookId (ds.map SignalDisposition.origin) c c₂ :=
      { features := hdone.same.features, candidates := hdone.same.candidates
        generated := hdone.generated
        others := by
          intro b hb
          exact ⟨hdone.others b hb, hdone.same.givenTo b⟩
        own := by
          refine ⟨ds, [], hds, ?_, .refl _, ?_⟩
          · rw [List.append_nil]
            exact hdone.same.givenTo _
          · rw [List.filter_eq_nil_iff.mpr fun d hd => by simp [hanswer d hd]]
            rfl }
    exact (hskipped.trans hall).perm
      ((((ranked_perm ps).map _).append_left _).trans hperm)

/-! ## All books -/

variable (e r quotes) in
/-- Every book disposes of every candidate, and a book that is not served of nothing. -/
theorem serveAll_disposed {books : List (BookTarget σ)} (hbooks : ∀ book ∈ books, book.Answers)
    (hdistinct : (books.map BookTarget.bookId).Nodup) {c : Cycle σ}
    (hc : ∀ x ∈ c.candidates, Proposable c.features x) :
    ∃ c', e.serveAll r quotes books c = .ok ⟨⟩ c' ∧ c'.generated = c.generated ∧
      (∀ b, b ∉ books.map BookTarget.bookId →
        c'.dispositionsOf b = c.dispositionsOf b ∧ c'.givenTo b = c.givenTo b) ∧
      ∀ b ∈ books.map BookTarget.bookId,
        Cycle.Answered b (c.candidates.map fun x => x.1.origin) c c' := by
  induction books generalizing c with
  | nil => exact ⟨c, rfl, rfl, fun _ _ => ⟨rfl, rfl⟩, fun _ hb => absurd hb List.not_mem_nil⟩
  | cons book rest ih =>
    rw [List.map_cons, List.nodup_cons] at hdistinct
    obtain ⟨c₁, hrun, hone⟩ :=
      serve_disposed e r quotes (hbooks book (List.mem_cons_self ..)) hc
    obtain ⟨c₂, hruns, hgenerated, hothers, hserved⟩ :=
      ih (fun b hb => hbooks b (List.mem_cons_of_mem book hb)) hdistinct.2 (c := c₁) <| by
        rw [hone.candidates, hone.features]
        exact hc
    refine ⟨c₂, ?_, hgenerated.trans hone.generated, ?_, ?_⟩
    · rw [serveAll, Effect.run_bind_ok hrun, hruns]
    · intro b hb
      rw [List.map_cons, List.mem_cons, not_or] at hb
      exact ⟨(hothers b hb.2).1.trans (hone.others b hb.1).1,
        (hothers b hb.2).2.trans (hone.others b hb.1).2⟩
    · intro b hb
      rcases List.mem_cons.mp hb with rfl | hb
      · obtain ⟨ds, gs, hds, hgs, hrest⟩ := hone.own
        have hlater := hothers book.bookId hdistinct.1
        exact ⟨ds, gs, hlater.1.trans hds, hlater.2.trans hgs, hrest⟩
      · obtain ⟨ds, gs, hds, hgs, hrest⟩ := hserved b hb
        have hne : b ≠ book.bookId := fun heq => hdistinct.1 (heq ▸ hb)
        rw [(hone.others b hne).1] at hds
        rw [(hone.others b hne).2] at hgs
        rw [hone.candidates] at hrest
        exact ⟨ds, gs, hds, hgs, hrest⟩

/-- In a whole cycle the signals are what the strategies detect; each book's dispositions are the
signals, rearranged, and its answered ones are what its OMS was given. -/
theorem runCycle_disposed (hbooks : ∀ book ∈ e.books, book.Answers)
    (instruments : List Instrument) (regime : Option Regime) (world : σ) :
    ∃ c, e.runCycle r instruments regime world = .ok ⟨⟩ c ∧
      c.generated = e.foundFrom r 0 instruments ∧ (c.generated.map Signal.origin).Nodup ∧
      ∀ b ∈ e.books.map BookTarget.bookId,
        List.Perm ((c.dispositionsOf b).map SignalDisposition.origin)
          (c.generated.map Signal.origin) ∧
        ((c.dispositionsOf b).filter fun d => d.disposition.isAnswer).map
          SignalDisposition.origin = (c.givenTo b).map OrderIntent.origin := by
  have h : e.Gathered r (0 + instruments.length)
      (e.gather r regime 0 instruments (.start (r.newId 0) world)) :=
    (Gathered.start e r world).gather regime
  have hfound := gather_generated e r regime 0 instruments (.start (r.newId 0) world)
  rw [runCycle]
  generalize e.gather r regime 0 instruments (.start (r.newId 0) world) = c at h hfound
  replace hfound : c.generated = e.foundFrom r 0 instruments := hfound
  have hunanswered : ∀ b, (c.dispositionsOf b).filter (fun d => d.disposition.isAnswer) = [] :=
    fun b => List.filter_eq_nil_iff.mpr fun d hd => by simp [h.unanswered b d hd]
  have hungiven : ∀ b, c.givenTo b = [] := fun b => by simp [givenTo, h.quiet.1]
  by_cases hempty : c.candidates = []
  · simp only [hempty, List.isEmpty_nil, if_true]
    refine ⟨c, rfl, hfound, h.nodup, fun b hb => ⟨?_, ?_⟩⟩
    · simpa [hempty] using h.disposed b hb
    · rw [hunanswered, hungiven]
      rfl
  · simp only [List.isEmpty_eq_false_iff.mpr hempty, Bool.false_eq_true, if_false]
    have hquoted : Same c (requote r c).2 ∧ (requote r c).2.generated = c.generated ∧
        ∀ b, (requote r c).2.dispositionsOf b = c.dispositionsOf b := by
      unfold requote
      split
      · exact ⟨.refl c, rfl, fun _ => rfl⟩
      · exact ⟨.emit .., generated_warn .., fun _ => dispositionsOf_warn ..⟩
    obtain ⟨hsame, hgenerated, hdispositions⟩ := hquoted
    obtain ⟨c', hrun, hgenerated', -, hserved⟩ :=
      serveAll_disposed e r (requote r c).1 hbooks e.distinct
        (c := (requote r c).2) (by rw [hsame.candidates, hsame.features]; exact h.proposable)
    rw [hgenerated] at hgenerated'
    refine ⟨c', hrun, hgenerated'.trans hfound, hgenerated' ▸ h.nodup, fun b hb => ?_⟩
    obtain ⟨ds, gs, hds, hgs, hperm, hanswers⟩ := hserved b hb
    rw [hdispositions] at hds
    rw [hsame.givenTo, hungiven, List.nil_append] at hgs
    rw [hds, hgs, hgenerated', List.map_append, List.filter_append, hunanswered, List.nil_append]
    rw [hsame.candidates] at hperm
    exact ⟨(hperm.append_left _).trans (h.disposed b hb), hanswers⟩

/-- Where keys are distinct, one element has a given key. -/
theorem exists_filter_eq {α κ : Type*} [DecidableEq κ] {key : α → κ} {l : List α} {k : κ}
    (hnodup : (l.map key).Nodup) (hk : k ∈ l.map key) :
    ∃ a, l.filter (fun a => key a = k) = [a] := by
  have hcount := List.count_eq_one_of_mem hnodup hk
  rw [List.count_eq_countP, List.countP_map, List.countP_eq_length_filter] at hcount
  obtain ⟨a, ha⟩ := List.length_eq_one_iff.mp hcount
  refine ⟨a, Eq.trans ?_ ha⟩
  apply List.filter_congr
  intro x hx
  by_cases h : key x = k <;> simp [h]

/-- A cycle in which no submission raises emits exactly one disposition for every signal that the
strategies detect and every book, and an answered one only when the book's OMS was given the
signal's intent, once. -/
theorem one_disposition_each (e : DecisionEngine σ) (r : Readings)
    (instruments : List Instrument) (regime : Option Regime) (world : σ)
    (hbooks : ∀ book ∈ e.books, book.Answers) :
    ∃ c, e.runCycle r instruments regime world = .ok ⟨⟩ c ∧
      c.generated = e.foundFrom r 0 instruments ∧
      ∀ s ∈ c.generated, ∀ book ∈ e.books, ∃ d : SignalDisposition,
        (c.dispositionsOf book.bookId).filter (fun d => d.origin = s.origin) = [d] ∧
        (d.disposition.isAnswer = true → ∃ intent : OrderIntent,
          (c.givenTo book.bookId).filter (fun intent => intent.origin = s.origin) =
            [intent]) := by
  obtain ⟨c, hrun, hfound, hnodup, hall⟩ :=
    runCycle_disposed (r := r) hbooks instruments regime world
  refine ⟨c, hrun, hfound, fun s hs book hbook => ?_⟩
  obtain ⟨hperm, hanswers⟩ := hall book.bookId (List.mem_map_of_mem hbook)
  have hmem : s.origin ∈ (c.dispositionsOf book.bookId).map SignalDisposition.origin :=
    hperm.mem_iff.mpr (List.mem_map_of_mem hs)
  have hdistinct := hperm.nodup_iff.mpr hnodup
  obtain ⟨d, hd⟩ := exists_filter_eq hdistinct hmem
  refine ⟨d, hd, fun hanswer => ?_⟩
  obtain ⟨hmem, hkey⟩ := List.mem_filter.mp (hd ▸ List.mem_singleton_self d)
  have horigin : d.origin = s.origin := of_decide_eq_true hkey
  -- the intents given have the distinct origins of the answered dispositions
  have hgiven : ((c.givenTo book.bookId).map OrderIntent.origin).Nodup := by
    rw [← hanswers]
    exact hdistinct.sublist (List.filter_sublist.map _)
  refine exists_filter_eq hgiven ?_
  rw [← hanswers, ← horigin]
  exact List.mem_map_of_mem (List.mem_filter.mpr ⟨hmem, hanswer⟩)

end DecisionEngine

/-! ## A cycle over two instruments -/

namespace OpeningCycle

theorem tick_pos : (0 : ℚ) < 1 / 20 := by norm_num

theorem lot_pos : (0 : ℤ) < 1 := by decide

theorem multiple_pos : (0 : ℚ) < 2 := by decide

def equity (symbol : String) : Instrument :=
  { exchange := "NSE", series := "EQ", symbol, sector := none, tickSize := 1 / 20, lotSize := 1
    misAllowed := true, bandPct := none, tickSize_pos := tick_pos, lotSize_pos := lot_pos
    bandPct_pos := no_price }

theorem momentum_plain : Plain "momentum" := by decide

def momentum : Strategy :=
  { name := "momentum", rsiContrarian := false, detect := fun _ => .ok (some ⟨.buy, 6 / 10⟩)
    plain := momentum_plain }

theorem newId_injective :
    Function.Injective fun n : ℕ => String.ofList (List.replicate (n + 1) 'x') := by
  intro n m h
  have := congrArg (fun s => s.toList.length) h
  simpa using this

/-- Every instrument closed at 100 with an ATR of 2, and no quote came in. -/
def readings : Readings :=
  { daily := fun _ _ => some ⟨100, .ok
      { barDate := 20728, close := 100, rsi14 := none, macdHist := none, plusDi14 := none
        minusDi14 := none, atr14 := some 2, ema21 := none, sma20 := none }⟩
    isLagging := fun _ _ => false, requote := fun _ => .ok .empty, now := fun _ => 0
    newId := fun n => String.ofList (List.replicate (n + 1) 'x'), newId_injective }

theorem one_strategy : ([momentum].map Strategy.name).Nodup := by decide

theorem book_plain : Plain "A" := by decide

def book (submit : OrderIntent → Unit → Except Exc SubmitResult × Unit) : BookTarget Unit :=
  { bookId := "A", submit, expectEntry := fun _ _ _ world => world, advisor := none
    plain := book_plain }

theorem one_book (submit : OrderIntent → Unit → Except Exc SubmitResult × Unit) :
    ([book submit].map BookTarget.bookId).Nodup := List.nodup_singleton _

def engine (submit : OrderIntent → Unit → Except Exc SubmitResult × Unit) :
    DecisionEngine Unit :=
  { config := { enabled := ["momentum"], shadow := [], regimeGates := .empty }
    strategies := ⟨[momentum], one_strategy⟩
    policy :=
      { kStopAtr := 2, kTargetAtr := 2, product := .cnc, kStopAtr_pos := multiple_pos
        kTargetAtr_pos := multiple_pos, product_eq := rfl }
    books := [book submit], distinct := one_book submit }

/-- An OMS that takes every intent. -/
def accepts (_ : OrderIntent) (world : Unit) : Except Exc SubmitResult × Unit :=
  (.ok ⟨.submitted, none, ""⟩, world)

theorem book_answers : (book accepts).Answers := fun _ _ => ⟨_, rfl⟩

end OpeningCycle

open OpeningCycle in
/-- Two signals, each with its disposition of the one book. -/
theorem one_disposition_each_opening :
    ∃ c, (engine accepts).runCycle readings [equity "INFY", equity "TCS"] none () = .ok ⟨⟩ c ∧
      (c.generated.length = 2 ∧ (c.dispositionsOf "A").length = 2) ∧
      ∀ s ∈ c.generated, ∀ book ∈ (engine accepts).books, ∃ d : SignalDisposition,
        (c.dispositionsOf book.bookId).filter (fun d => d.origin = s.origin) = [d] ∧
        (d.disposition.isAnswer = true → ∃ intent : OrderIntent,
          (c.givenTo book.bookId).filter (fun intent => intent.origin = s.origin) =
            [intent]) := by
  obtain ⟨c, hrun, hfound, hall⟩ := DecisionEngine.one_disposition_each (engine accepts) readings
    [equity "INFY", equity "TCS"] none () fun _ hbook => (List.mem_singleton.mp hbook) ▸ book_answers
  refine ⟨c, hrun, ⟨?_, ?_⟩, hall⟩
  · rw [hfound]
    decide +kernel
  · have hcount : (((engine accepts).runCycle readings [equity "INFY", equity "TCS"] none
        ()).state.dispositionsOf "A").length = 2 := by
      decide +kernel
    rw [hrun] at hcount
    exact hcount

end RakshaQuant
