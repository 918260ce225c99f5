import RakshaQuant.DecisionModels.Announcements
import RakshaQuant.Marketdata.Coverage

/-! The announcement pipeline: ingest, then classify what is new and what an earlier process left.
What is new comes back from the ingestor's poll, so a poll that raises takes it away: it is in the
store and seen, and nobody classifies it until a restart. -/

namespace RakshaQuant

namespace DecisionModels

variable {σ : Type}

/-- The ids of some classified events. -/
def eventIds (events : List ClassifiedEvent) : List String :=
  events.map fun event => event.eventId

@[simp] theorem eventIds_append (events events' : List ClassifiedEvent) :
    eventIds (events ++ events') = eventIds events ++ eventIds events' := List.map_append

structure AnnouncementPipeline (σ : Type) where
  ingestor : IngestorConfig
  classifier : Option (EventClassifier σ)

/-- The feed with what was recorded of it, the classified events, and what is left to classify. -/
structure PipelineWorld (σ : Type) where
  feed : FeedWorld
  classifier : ClassifierWorld σ
  backlog : List AnnouncementReceived

/-- `unclassified`: what is stored and was never classified. -/
def unclassified (received : List AnnouncementReceived) (classifiedIds : List String) :
    List AnnouncementReceived :=
  received.filter fun a => a.announcementId ∉ classifiedIds

/-- Classify one after the other; one that fails is left out. -/
def EventClassifier.classifyEach (k : EventClassifier σ) :
    List AnnouncementReceived → ClassifierWorld σ → List ClassifiedEvent × ClassifierWorld σ
  | [], w => ([], w)
  | a :: rest, w =>
    match k.classify a w with
    | .error _ w' => k.classifyEach rest w'
    | .ok event w' =>
      let later := k.classifyEach rest w'
      (event :: later.1, later.2)

namespace AnnouncementPipeline

variable (p : AnnouncementPipeline σ)

/-- `classify_all`: nothing is classified without a classifier. -/
def classifyAll (announcements : List AnnouncementReceived) (w : ClassifierWorld σ) :
    List ClassifiedEvent × ClassifierWorld σ :=
  match p.classifier with
  | none => ([], w)
  | some k => k.classifyEach announcements w

/-- The ingestor's part of a poll. -/
def ingest (raises : Sink) (v : Visit) (w : PipelineWorld σ) :
    EStateM.Result PollExc FeedWorld PollStats :=
  p.ingestor.poll raises v.now v.force v.side.server w.feed

/-- `AnnouncementPipeline.poll`. -/
def poll (raises : Sink) (v : Visit) :
    EStateM PollExc (PipelineWorld σ) (List ClassifiedEvent) := fun w =>
  match p.ingest raises v w with
  | .error e feed => .error e { w with feed }
  | .ok stats feed =>
    let classified := p.classifyAll (w.backlog ++ stats.new) w.classifier
    .ok classified.1 { feed, classifier := classified.2, backlog := [] }

/-- A poll of which only some announcements were classified when the process stopped. -/
def cutPoll (raises : Sink) (v : Visit) (classified : ℕ) (w : PipelineWorld σ) :
    PipelineWorld σ :=
  match p.ingest raises v w with
  | .error _ feed => { w with feed }
  | .ok stats feed =>
    let pending := (w.backlog ++ stats.new).take classified
    { feed, classifier := (p.classifyAll pending w.classifier).2, backlog := [] }

end AnnouncementPipeline

namespace PipelineWorld

/-- A process that starts on the store. -/
def restart (w : PipelineWorld σ) (minInterval : ℤ) : PipelineWorld σ :=
  { feed := w.feed.restart minInterval, classifier := w.classifier
    backlog := unclassified w.feed.received (eventIds w.classifier.typed) }

/-- A process that starts on an empty store. -/
def start (models : σ) (minInterval : ℤ) : PipelineWorld σ :=
  { feed := .start [] minInterval, classifier := { models, typed := [] }, backlog := [] }

/-- Each announcement in the store is classified, and once. -/
def Classified (w : PipelineWorld σ) : Prop :=
  ∀ a ∈ w.feed.received, (eventIds w.classifier.typed).count a.announcementId = 1

end PipelineWorld

/-- A poll, a restart, or a poll in which the process stops and starts again. -/
inductive PipelineStep
  | poll (raises : Sink) (v : Visit)
  | restart (minInterval : ℤ)
  | stop (raises : Sink) (v : Visit) (classified : ℕ) (minInterval : ℤ)

/-- Whether another process runs after a step. -/
def PipelineStep.restarts : PipelineStep → Bool
  | poll _ _ => false
  | restart _ | stop _ _ _ _ => true

namespace AnnouncementPipeline

def step (p : AnnouncementPipeline σ) (w : PipelineWorld σ) : PipelineStep → PipelineWorld σ
  | .poll raises v => (p.poll raises v w).state
  | .restart minInterval => w.restart minInterval
  | .stop raises v classified minInterval => (p.cutPoll raises v classified w).restart minInterval

def run (p : AnnouncementPipeline σ) (models : σ) (minInterval : ℤ) (steps : List PipelineStep) :
    PipelineWorld σ :=
  steps.foldl p.step (.start models minInterval)

/-- A poll of the ingestor that raises, having recorded an announcement. -/
def Drops (p : AnnouncementPipeline σ) (w : PipelineWorld σ) (raises : Sink) (v : Visit) : Prop :=
  (p.ingest raises v w).raised ≠ none ∧ (p.ingest raises v w).state.received ≠ w.feed.received

/-- The process that runs after some steps had such a poll. -/
def HasDropped (p : AnnouncementPipeline σ) (models : σ) (minInterval : ℤ)
    (steps : List PipelineStep) : Prop :=
  ∃ before raises v after, steps = before ++ .poll raises v :: after ∧
    (∀ s ∈ after, s.restarts = false) ∧ p.Drops (p.run models minInterval before) raises v

end AnnouncementPipeline

/-! ## What is recorded and what is classified -/

theorem idsOf_append (news news' : List AnnouncementReceived) :
    idsOf (news ++ news') = idsOf news ++ idsOf news' := List.map_append

/-- A poll records announcements that were not seen, and returns them if it returns. -/
theorem poll_records (c : IngestorConfig) (raises : Sink) (now : Instant) (force : Bool)
    (server : Validators → FeedReply) (w : FeedWorld) :
    ∃ news, (c.poll raises now force server w).state.received = w.received ++ news ∧
      (idsOf news).Nodup ∧ (∀ id ∈ idsOf news, id ∉ w.ingestor.seen) ∧
      ∀ stats w', c.poll raises now force server w = .ok stats w' → stats.new = news := by
  rcases IngestorConfig.poll_cases c raises now force server w with ⟨hquiet, -⟩ |
    ⟨-, content, page, -, hread⟩
  · refine ⟨[], ?_, List.nodup_nil, fun _ h => absurd h List.not_mem_nil, hquiet.new⟩
    rw [hquiet.alike.received, List.append_nil]
  · rw [hread]
    rcases IngestorConfig.read_cases c raises now content.validators page
      (w.withIngestor { w.ingestor with lastFetch := some now }) with
      ⟨e, w', herror, hlike, -⟩ | ⟨w₁, news, emits, hseen, hreceived, -, -, -, hnews, hrest⟩
    · refine ⟨[], ?_, List.nodup_nil, fun _ h => absurd h List.not_mem_nil, ?_⟩
      · rw [herror, List.append_nil]
        exact hlike.received
      · intro stats w'' hok
        rw [herror] at hok
        cases hok
    · have hfresh : ∀ id ∈ idsOf news, id ∉ w.ingestor.seen := by
        intro id hid
        have hunseen := hnews.fresh id hid
        rw [hseen] at hunseen
        exact hunseen
      have htook : (w₁.took news emits).received = w.received ++ news := by
        rw [FeedWorld.took_received, hreceived]
        rfl
      rcases hrest with ⟨hok, -⟩ | ⟨e, before, item, after, id, -, -, -, -, -, herror, -⟩
      · refine ⟨news, ?_, hnews.nodup, hfresh, ?_⟩
        · rw [hok]
          exact htook
        · intro stats w'' hresult
          rw [hok] at hresult
          cases hresult
          rfl
      · refine ⟨news, ?_, hnews.nodup, hfresh, ?_⟩
        · rw [herror]
          exact htook
        · intro stats w'' hresult
          rw [herror] at hresult
          cases hresult

namespace EventClassifier

/-- A classifier that does not raise. -/
def Steady (k : EventClassifier σ) : Prop := ∀ a w, (k.classify a w).raised = none

/-- An event has the id of its announcement. -/
theorem classify_ok {k : EventClassifier σ} {a : AnnouncementReceived}
    {w w' : ClassifierWorld σ} {event : ClassifiedEvent} (h : k.classify a w = .ok event w') :
    event.eventId = a.announcementId ∧ w'.typed = w.typed ++ [event] := by
  unfold classify at h
  split at h
  · cases h
  · split at h
    · cases h
    · cases h
      exact ⟨rfl, rfl⟩

/-- Every announcement becomes an event, and the events are stored. -/
theorem classifyEach_typed {k : EventClassifier σ} (hk : k.Steady)
    (announcements : List AnnouncementReceived) (w : ClassifierWorld σ) :
    eventIds (k.classifyEach announcements w).1 = idsOf announcements ∧
      (k.classifyEach announcements w).2.typed = w.typed ++ (k.classifyEach announcements w).1 := by
  induction announcements generalizing w with
  | nil => exact ⟨rfl, (List.append_nil _).symm⟩
  | cons a rest ih =>
    cases hevent : k.classify a w with
    | error e w' =>
      have hsteady := hk a w
      rw [hevent] at hsteady
      cases hsteady
    | ok event w' =>
      obtain ⟨hid, htyped⟩ := classify_ok hevent
      obtain ⟨hids, hrest⟩ := ih w'
      simp only [classifyEach, hevent]
      constructor
      · rw [idsOf_cons, ← hids, ← hid]
        rfl
      · rw [hrest, htyped, List.append_assoc]
        rfl

end EventClassifier

/-! ## What a run keeps -/

/-- Nothing is classified twice, and the backlog is what is in the store and not classified. -/
structure Orderly (w : PipelineWorld σ) : Prop where
  once : IngestorConfig.Once w.feed
  typed : (eventIds w.classifier.typed).Nodup
  typed_received : ∀ id ∈ eventIds w.classifier.typed, id ∈ idsOf w.feed.received
  backlog : (idsOf w.backlog).Nodup
  backlog_received : ∀ id ∈ idsOf w.backlog, id ∈ idsOf w.feed.received
  backlog_untyped : ∀ id ∈ idsOf w.backlog, id ∉ eventIds w.classifier.typed

/-- Something in the store is neither classified nor left to classify. -/
def PipelineWorld.Lost (w : PipelineWorld σ) : Prop :=
  ∃ id ∈ idsOf w.feed.received, id ∉ eventIds w.classifier.typed ∧ id ∉ idsOf w.backlog

section steps

variable {p : AnnouncementPipeline σ} {k : EventClassifier σ} {w : PipelineWorld σ}

theorem Orderly.start (models : σ) (minInterval : ℤ) :
    Orderly (PipelineWorld.start models minInterval) where
  once := by
    have hnone : (idsOf []).Nodup := List.nodup_nil
    exact .start hnone minInterval
  typed := List.nodup_nil
  typed_received := fun _ h => absurd h List.not_mem_nil
  backlog := List.nodup_nil
  backlog_received := fun _ h => absurd h List.not_mem_nil
  backlog_untyped := fun _ h => absurd h List.not_mem_nil

theorem mem_unclassified {received : List AnnouncementReceived} {ids : List String} {id : String} :
    id ∈ idsOf (unclassified received ids) ↔ id ∈ idsOf received ∧ id ∉ ids := by
  simp only [idsOf, unclassified, List.mem_map, List.mem_filter, decide_eq_true_eq]
  constructor
  · rintro ⟨a, ⟨ha, hnot⟩, rfl⟩
    exact ⟨⟨a, ha, rfl⟩, hnot⟩
  · rintro ⟨⟨a, ha, rfl⟩, hnot⟩
    exact ⟨a, ⟨ha, hnot⟩, rfl⟩

/-- A restart leaves to classify all that is not classified. -/
theorem Orderly.restart (h : Orderly w) (minInterval : ℤ) : Orderly (w.restart minInterval) where
  once := ⟨h.once.nodup, fun _ hid => hid⟩
  typed := h.typed
  typed_received := h.typed_received
  backlog := h.once.nodup.sublist (List.filter_sublist.map _)
  backlog_received := fun _ hid => (mem_unclassified.mp hid).1
  backlog_untyped := fun _ hid => (mem_unclassified.mp hid).2

theorem not_lost_restart (w : PipelineWorld σ) (minInterval : ℤ) :
    ¬(w.restart minInterval).Lost := by
  intro ⟨id, hid, huntyped, hbacklog⟩
  exact hbacklog (mem_unclassified.mpr ⟨hid, huntyped⟩)

/-- What the ingestor did in a poll: some news were recorded, and the feed is in order. -/
structure Ingests (w : PipelineWorld σ) (feed : FeedWorld) (news : List AnnouncementReceived) :
    Prop where
  once : IngestorConfig.Once feed
  received : feed.received = w.feed.received ++ news
  nodup : (idsOf news).Nodup
  fresh : ∀ id ∈ idsOf news, id ∉ idsOf w.feed.received

theorem Orderly.ingests (h : Orderly w) (p : AnnouncementPipeline σ) (raises : Sink) (v : Visit) :
    ∃ news, Ingests w (p.ingest raises v w).state news ∧
      ∀ stats feed, p.ingest raises v w = .ok stats feed → stats.new = news := by
  obtain ⟨news, hreceived, hnodup, hfresh, hnew⟩ := poll_records p.ingestor raises v.now v.force
    v.side.server w.feed
  refine ⟨news, ⟨h.once.visit p.ingestor raises v, hreceived, hnodup, ?_⟩, hnew⟩
  exact fun id hid hold => hfresh id hid (h.once.seen id hold)

variable {feed : FeedWorld} {news : List AnnouncementReceived}

theorem Ingests.mem (h : Ingests w feed news) {id : String} :
    id ∈ idsOf feed.received ↔ id ∈ idsOf w.feed.received ∨ id ∈ idsOf news := by
  rw [h.received, idsOf_append, List.mem_append]

/-- A poll that raises keeps what was classified and what is left. -/
theorem Orderly.raised (h : Orderly w) (hingests : Ingests w feed news) :
    Orderly { w with feed } where
  once := hingests.once
  typed := h.typed
  typed_received := fun id hid => hingests.mem.mpr (.inl (h.typed_received id hid))
  backlog := h.backlog
  backlog_received := fun id hid => hingests.mem.mpr (.inl (h.backlog_received id hid))
  backlog_untyped := h.backlog_untyped

/-- What is left and what is new is not classified yet, and comes once. -/
theorem Orderly.pending (h : Orderly w) (hingests : Ingests w feed news) :
    (idsOf (w.backlog ++ news)).Nodup ∧
      ∀ id ∈ idsOf (w.backlog ++ news), id ∉ eventIds w.classifier.typed ∧
        id ∈ idsOf feed.received := by
  rw [idsOf_append]
  constructor
  · rw [List.nodup_append]
    refine ⟨h.backlog, hingests.nodup, fun id hold id' hnew heq => ?_⟩
    subst heq
    exact hingests.fresh id hnew (h.backlog_received id hold)
  · intro id hid
    rw [hingests.mem]
    rcases List.mem_append.mp hid with hold | hnew
    · exact ⟨h.backlog_untyped id hold, .inl (h.backlog_received id hold)⟩
    · exact ⟨fun htyped => hingests.fresh id hnew (h.typed_received id htyped), .inr hnew⟩

/-- Classifying some of it keeps the order. -/
theorem Orderly.classified (h : Orderly w) (hingests : Ingests w feed news)
    (hp : p.classifier = some k) (hk : k.Steady) {pending : List AnnouncementReceived}
    (hpending : pending.Sublist (w.backlog ++ news)) :
    Orderly { feed, classifier := (p.classifyAll pending w.classifier).2, backlog := [] } ∧
      eventIds (p.classifyAll pending w.classifier).2.typed =
        eventIds w.classifier.typed ++ idsOf pending := by
  have hids : eventIds (p.classifyAll pending w.classifier).2.typed =
      eventIds w.classifier.typed ++ idsOf pending := by
    obtain ⟨hevents, htyped⟩ := k.classifyEach_typed hk pending w.classifier
    rw [AnnouncementPipeline.classifyAll, hp, htyped, eventIds_append, hevents]
  obtain ⟨hnodup, hmem⟩ := h.pending hingests
  have hsub : (idsOf pending).Sublist (idsOf (w.backlog ++ news)) := hpending.map _
  refine ⟨⟨hingests.once, ?_, ?_, List.nodup_nil, ?_, ?_⟩, hids⟩
  · rw [hids, List.nodup_append]
    refine ⟨h.typed, hnodup.sublist hsub, fun id htyped id' hid heq => ?_⟩
    subst heq
    exact (hmem id (hsub.subset hid)).1 htyped
  · intro id hid
    rw [hids] at hid
    rcases List.mem_append.mp hid with htyped | hnew
    · exact hingests.mem.mpr (.inl (h.typed_received id htyped))
    · exact (hmem id (hsub.subset hnew)).2
  · exact fun _ hid => absurd hid List.not_mem_nil
  · exact fun _ hid => absurd hid List.not_mem_nil

/-- A poll that returns classifies everything that was not lost before. -/
theorem lost_poll_ok (h : Orderly w) (hp : p.classifier = some k) (hk : k.Steady) {raises : Sink}
    {v : Visit} {events : List ClassifiedEvent} {w' : PipelineWorld σ}
    (hpoll : p.poll raises v w = .ok events w') :
    Orderly w' ∧ w'.backlog = [] ∧ (w'.Lost ↔ w.Lost) := by
  obtain ⟨news, hingests, hnew⟩ := h.ingests p raises v
  unfold AnnouncementPipeline.poll at hpoll
  cases hingest : p.ingest raises v w with
  | error e feed =>
    rw [hingest] at hpoll
    cases hpoll
  | ok stats feed =>
    have hstats := hnew stats feed hingest
    rw [hingest] at hingests hpoll
    cases hpoll
    dsimp only [EStateM.Result.state_ok] at hingests
    rw [hstats]
    obtain ⟨horderly, hids⟩ := h.classified hingests hp hk (List.Sublist.refl (w.backlog ++ news))
    refine ⟨horderly, rfl, ?_, ?_⟩
    · intro ⟨id, hid, huntyped, _⟩
      dsimp only at hid huntyped
      rw [hids, idsOf_append, List.mem_append, List.mem_append, not_or, not_or] at huntyped
      refine ⟨id, ?_, huntyped.1, huntyped.2.1⟩
      exact (hingests.mem.mp hid).resolve_right huntyped.2.2
    · intro ⟨id, hid, huntyped, hleft⟩
      refine ⟨id, hingests.mem.mpr (.inl hid), ?_, List.not_mem_nil⟩
      dsimp only
      rw [hids, idsOf_append, List.mem_append, List.mem_append, not_or, not_or]
      exact ⟨huntyped, hleft, fun hnews => hingests.fresh id hnews hid⟩

/-- A poll that raises loses what it recorded. -/
theorem lost_poll_error (h : Orderly w) {raises : Sink} {v : Visit} {e : PollExc}
    {w' : PipelineWorld σ} (hpoll : p.poll raises v w = .error e w') :
    Orderly w' ∧ (w'.Lost ↔ w.Lost ∨ p.Drops w raises v) := by
  obtain ⟨news, hingests, -⟩ := h.ingests p raises v
  unfold AnnouncementPipeline.poll at hpoll
  cases hingest : p.ingest raises v w with
  | ok stats feed =>
    rw [hingest] at hpoll
    cases hpoll
  | error e feed =>
    rw [hingest] at hingests hpoll
    cases hpoll
    dsimp only [EStateM.Result.state_error] at hingests
    refine ⟨h.raised hingests, ?_⟩
    unfold AnnouncementPipeline.Drops
    rw [hingest]
    dsimp only [EStateM.Result.state_error, EStateM.Result.raised]
    constructor
    · intro ⟨id, hid, huntyped, hleft⟩
      rcases hingests.mem.mp hid with hold | hnew
      · exact .inl ⟨id, hold, huntyped, hleft⟩
      · refine .inr ⟨Option.some_ne_none e, fun hsame => ?_⟩
        rw [hsame] at hid
        exact hingests.fresh id hnew hid
    · intro hlost
      rcases hlost with ⟨id, hid, huntyped, hleft⟩ | ⟨-, hgrew⟩
      · exact ⟨id, hingests.mem.mpr (.inl hid), huntyped, hleft⟩
      · -- the first of the news is in the store alone
        cases news with
        | nil =>
          rw [hingests.received, List.append_nil] at hgrew
          exact absurd rfl hgrew
        | cons a rest =>
          have hmem : a.announcementId ∈ idsOf (a :: rest) := List.mem_cons_self
          have hfresh := hingests.fresh a.announcementId hmem
          exact ⟨a.announcementId, hingests.mem.mpr (.inr hmem),
            fun htyped => hfresh (h.typed_received _ htyped),
            fun hleft => hfresh (h.backlog_received _ hleft)⟩

end steps

/-! ## Runs -/

section runs

variable {p : AnnouncementPipeline σ} {k : EventClassifier σ}

theorem run_append (p : AnnouncementPipeline σ) (models : σ) (minInterval : ℤ)
    (steps : List PipelineStep) (s : PipelineStep) :
    p.run models minInterval (steps ++ [s]) = p.step (p.run models minInterval steps) s :=
  List.foldl_concat _ _ _ _

/-- A process that stops in a poll leaves the store in order. -/
theorem Orderly.stop {w : PipelineWorld σ} (h : Orderly w) (hp : p.classifier = some k)
    (hk : k.Steady) (raises : Sink) (v : Visit) (classified : ℕ) :
    Orderly (p.cutPoll raises v classified w) := by
  obtain ⟨news, hingests, hnew⟩ := h.ingests p raises v
  unfold AnnouncementPipeline.cutPoll
  cases hingest : p.ingest raises v w with
  | error e feed =>
    rw [hingest] at hingests
    exact h.raised hingests
  | ok stats feed =>
    have hstats := hnew stats feed hingest
    rw [hingest] at hingests
    dsimp only
    rw [hstats]
    exact (h.classified hingests hp hk (List.take_sublist _ _)).1

/-- The process has dropped an announcement after one more step, or before it. -/
theorem hasDropped_append (p : AnnouncementPipeline σ) (models : σ) (minInterval : ℤ)
    (steps : List PipelineStep) (s : PipelineStep) :
    p.HasDropped models minInterval (steps ++ [s]) ↔ s.restarts = false ∧
      (p.HasDropped models minInterval steps ∨
        ∃ raises v, s = .poll raises v ∧ p.Drops (p.run models minInterval steps) raises v) := by
  constructor
  · intro ⟨before, raises, v, after, hsplit, hafter, hdrops⟩
    cases after using List.reverseRecOn with
    | nil =>
      obtain ⟨rfl, hs⟩ := List.append_inj' hsplit rfl
      cases hs
      exact ⟨rfl, .inr ⟨raises, v, rfl, hdrops⟩⟩
    | append_singleton rest last =>
      rw [← List.cons_append, ← List.append_assoc] at hsplit
      obtain ⟨hsteps, hs⟩ := List.append_inj' hsplit rfl
      cases hs
      refine ⟨hafter s (by simp), .inl ⟨before, raises, v, rest, hsteps, ?_, hdrops⟩⟩
      exact fun s' hs' => hafter s' (List.mem_append_left _ hs')
  · intro ⟨hs, hdropped⟩
    rcases hdropped with
      ⟨before, raises, v, after, hsplit, hafter, hdrops⟩ | ⟨raises, v, rfl, hdrops⟩
    · refine ⟨before, raises, v, after ++ [s], by simp [hsplit], ?_, hdrops⟩
      intro s' hs'
      rcases List.mem_append.mp hs' with hold | hlast
      · exact hafter s' hold
      · rw [List.mem_singleton.mp hlast]
        exact hs
    · exact ⟨steps, raises, v, [], rfl, fun _ h => absurd h List.not_mem_nil, hdrops⟩

/-- **A run.** The store stays in order, and what is lost was dropped by the process that runs. -/
theorem orderly_run (hp : p.classifier = some k) (hk : k.Steady) (models : σ) (minInterval : ℤ)
    (steps : List PipelineStep) :
    Orderly (p.run models minInterval steps) ∧
      ((p.run models minInterval steps).Lost ↔ p.HasDropped models minInterval steps) := by
  -- by induction on the steps from the end: a drop counts up to the next restart
  induction steps using List.reverseRecOn with
  | nil =>
    refine ⟨.start models minInterval, ?_, ?_⟩
    · intro ⟨id, hid, _⟩
      cases hid
    · intro ⟨before, raises, v, after, hsplit, _⟩
      simp at hsplit
  | append_singleton steps s ih =>
    obtain ⟨horderly, hlost⟩ := ih
    rw [run_append, hasDropped_append]
    cases s with
    | restart interval =>
      refine ⟨horderly.restart interval, fun h => absurd h (not_lost_restart _ _), ?_⟩
      intro ⟨hnot, _⟩
      cases hnot
    | stop raises v classified interval =>
      refine ⟨(horderly.stop hp hk raises v classified).restart interval,
        fun h => absurd h (not_lost_restart _ _), ?_⟩
      intro ⟨hnot, _⟩
      cases hnot
    | poll raises v =>
      have hdrop : (∃ raises' v', PipelineStep.poll raises v = .poll raises' v' ∧
          p.Drops (p.run models minInterval steps) raises' v') ↔
          p.Drops (p.run models minInterval steps) raises v := by
        constructor
        · intro ⟨raises', v', heq, hdrops⟩
          cases heq
          exact hdrops
        · exact fun hdrops => ⟨raises, v, rfl, hdrops⟩
      rw [hdrop, ← hlost]
      show Orderly (p.poll raises v _).state ∧ ((p.poll raises v _).state.Lost ↔ _)
      cases hpoll : p.poll raises v (p.run models minInterval steps) with
      | error e w' =>
        obtain ⟨hkept, hiff⟩ := lost_poll_error horderly hpoll
        exact ⟨hkept, hiff.trans (and_iff_right rfl).symm⟩
      | ok events w' =>
        obtain ⟨hkept, -, hiff⟩ := lost_poll_ok horderly hp hk hpoll
        -- a poll that returned was not stopped in the ingestor
        have hnot : ¬p.Drops (p.run models minInterval steps) raises v := by
          intro ⟨hraised, _⟩
          unfold AnnouncementPipeline.poll at hpoll
          cases hingest : p.ingest raises v (p.run models minInterval steps) with
          | error e feed =>
            rw [hingest] at hpoll
            cases hpoll
          | ok stats feed =>
            rw [hingest] at hraised
            exact hraised rfl
        refine ⟨hkept, hiff.trans ?_⟩
        rw [or_iff_left hnot]
        exact (and_iff_right rfl).symm

/-- **When every announcement is classified.** After a poll that returns, each announcement in the
store has one event, exactly where no poll of the ingestor has raised since the process started
after it had recorded an announcement. -/
theorem AnnouncementPipeline.classified_iff (p : AnnouncementPipeline σ) (k : EventClassifier σ)
    (hp : p.classifier = some k) (hk : k.Steady) (models : σ) (minInterval : ℤ)
    (steps : List PipelineStep) (raises : Sink) (v : Visit) (events : List ClassifiedEvent)
    (w' : PipelineWorld σ)
    (hpoll : p.poll raises v (p.run models minInterval steps) = .ok events w') :
    w'.Classified ↔ ¬p.HasDropped models minInterval steps := by
  obtain ⟨horderly, hlost⟩ := orderly_run hp hk models minInterval steps
  obtain ⟨hkept, hbacklog, hiff⟩ := lost_poll_ok horderly hp hk hpoll
  rw [← hlost, ← hiff]
  constructor
  · intro hclassified ⟨id, hid, huntyped, _⟩
    obtain ⟨a, ha, rfl⟩ := List.mem_map.mp hid
    have hone := hclassified a ha
    rw [List.count_eq_zero_of_not_mem huntyped] at hone
    cases hone
  · intro hnot a ha
    by_contra hcount
    refine hnot ⟨a.announcementId, List.mem_map_of_mem ha, fun htyped => ?_, ?_⟩
    · exact hcount (List.count_eq_one_of_mem hkept.typed htyped)
    · rw [hbacklog]
      exact List.not_mem_nil

end runs

/-! ## A page that a poll cannot finish -/

namespace Backfill

def sha256 (text : String) : String :=
  if text = "NSE:EQ:INFY|2026-10-05T09:30:01+05:30|" then
    "9bcf52cdbe4c32e38b594bdc2ccfde6680d8bf03a992c1a45e329c82198417a0"
  else "f894efaed9efa4816960f0a30985cd8d138458e4eef2fb93ac1997a4e50f5fa5"

theorem sha256_ne (text : String) : (sha256 text).toList.take 24 ≠ [] := by
  unfold sha256
  split <;> decide

def text : FeedText := { BoardMeeting.text with sha256, sha256_ne }

def config : IngestorConfig := { text, byName := companies text [BoardMeeting.infosys] }

def meeting : FeedNode :=
  BoardMeeting.node "05-Oct-2026 09:30:00"
    "Board meeting on results |SUBJECT: Board Meeting Intimation"

/-- It comes later, and has a subject alone. -/
def untitled : FeedNode := BoardMeeting.node "05-Oct-2026 09:30:01" "|SUBJECT: Updates"

def patterns : Patterns :=
  { unicode := .ascii, lower := fun s => String.ofList (s.toList.map Char.toLower)
    search := fun pattern _ => pattern = "board meeting", finditer := fun _ _ => [] }

/-- A cascade that abstains on every question. -/
def abstain : DecisionCascade Unit := fun _ _ questions =>
  return { answers := .empty, abstained := Cascade.fromKeys questions "jev_not_configured"
           escalated := Cascade.fromKeys questions "laya_error", shadow := false }

def classifier : EventClassifier Unit :=
  { cascade := abstain, patterns, clock := fun _ => 1791173400000000, contextTokens := 1024 }

theorem classifier_steady : classifier.Steady := by
  intro a w
  rfl

def pipeline : AnnouncementPipeline Unit := { ingestor := config, classifier := some classifier }

def visit (nodes : List FeedNode) : Visit := BoardMeeting.visit nodes

/-- A poll of the meeting and what follows it, from an empty store. -/
def steps : List PipelineStep := [.poll steady (visit [meeting, untitled])]

/-- The page is polled again. -/
def again : EStateM.Result PollExc (PipelineWorld Unit) (List ClassifiedEvent) :=
  pipeline.poll steady (visit [meeting, untitled]) (pipeline.run () 300000000 steps)

end Backfill

open Backfill in
/-- A poll has dropped the meeting; the next process classifies it at a poll that returns. -/
theorem AnnouncementPipeline.classified_iff_meeting :
    pipeline.HasDropped () 300000000 steps ∧
    (pipeline.poll steady (visit [meeting])
      (pipeline.run () 300000000 (steps ++ [.restart 300000000]))).state.Classified := by
  constructor
  · refine ⟨[], steady, visit [meeting, untitled], [], rfl, by simp, ?_⟩
    have hdrops : (pipeline.ingest steady (visit [meeting, untitled])
          (pipeline.run () 300000000 [])).raised.isSome = true ∧
        (pipeline.ingest steady (visit [meeting, untitled])
          (pipeline.run () 300000000 [])).state.received.length = 1 := by
      decide +kernel
    refine ⟨Option.isSome_iff_ne_none.mp hdrops.1, fun hsame => ?_⟩
    have hcount := hdrops.2
    rw [hsame] at hcount
    cases hcount
  · have hreturns : (pipeline.poll steady (visit [meeting])
        (pipeline.run () 300000000 (steps ++ [.restart 300000000]))).raised = none := by
      decide +kernel
    cases hpoll : pipeline.poll steady (visit [meeting])
      (pipeline.run () 300000000 (steps ++ [.restart 300000000])) with
    | error e w' =>
      rw [hpoll] at hreturns
      cases hreturns
    | ok events w' =>
      refine (AnnouncementPipeline.classified_iff pipeline Backfill.classifier rfl
        classifier_steady () 300000000 _ steady _ events w' hpoll).mpr fun hdropped => ?_
      have hkept := ((hasDropped_append pipeline () 300000000 steps _).mp hdropped).1
      cases hkept

/-- A text that no announcement can hold ends a poll, the page is unchanged the next time, and the
announcement before it stays unclassified. -/
theorem announcement_unclassified :
    ¬∀ (p : AnnouncementPipeline Unit) (k : EventClassifier Unit), p.classifier = some k → k.Steady →
      ∀ (minInterval : ℤ) (steps : List PipelineStep) (raises : Sink) (v : Visit)
        (events : List ClassifiedEvent) (w' : PipelineWorld Unit),
      p.poll raises v (p.run () minInterval steps) = .ok events w' → w'.Classified := by
  intro h
  -- the poll is evaluated once: it returns, with the meeting recorded and nothing classified
  have hpolled : Backfill.again.raised = none ∧
      idsOf Backfill.again.state.feed.received = ["f894efaed9efa4816960f0a3"] ∧
      eventIds Backfill.again.state.classifier.typed = [] := by
    decide +kernel
  obtain ⟨hraised, hreceived, htyped⟩ := hpolled
  cases hpoll : Backfill.again with
  | error e w' =>
    rw [hpoll] at hraised
    cases hraised
  | ok events w' =>
    have hclassified := h Backfill.pipeline Backfill.classifier rfl Backfill.classifier_steady
      300000000 Backfill.steps steady (Backfill.visit [Backfill.meeting, Backfill.untitled]) events w'
      hpoll
    rw [hpoll] at hreceived htyped
    have hmem : "f894efaed9efa4816960f0a3" ∈ idsOf w'.feed.received := by
      change idsOf w'.feed.received = _ at hreceived
      rw [hreceived]
      exact List.mem_singleton_self _
    obtain ⟨a, ha, -⟩ := List.mem_map.mp hmem
    have hone := hclassified a ha
    change eventIds w'.classifier.typed = [] at htyped
    rw [htyped] at hone
    cases hone

end DecisionModels

end RakshaQuant
