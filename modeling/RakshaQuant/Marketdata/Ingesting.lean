import RakshaQuant.Marketdata.Announcements

/-! What a poll does. Each item of the universe is recorded, or was seen, or ends the poll: it is
then seen and not recorded. -/

namespace RakshaQuant

/-- The ids of some announcements. -/
def idsOf (news : List AnnouncementReceived) : List String :=
  news.map AnnouncementReceived.announcementId

@[simp] theorem idsOf_nil : idsOf [] = [] := rfl

@[simp] theorem idsOf_cons (a : AnnouncementReceived) (news : List AnnouncementReceived) :
    idsOf (a :: news) = a.announcementId :: idsOf news := rfl

def FeedEvent.announcement : FeedEvent → Option AnnouncementReceived
  | .received a => some a
  | _ => none

def FeedEvent.coverageGap : FeedEvent → Option AnnouncementCoverageGap
  | .gap g => some g
  | _ => none

namespace FeedWorld

/-- The world after some announcements were recorded. -/
def took (w : FeedWorld) (news : List AnnouncementReceived) (emits : ℕ) : FeedWorld :=
  { ingestor := { w.ingestor with seen := (idsOf news).reverse ++ w.ingestor.seen }
    recorded := w.recorded ++ news.map .received, emits }

/-- The announcements recorded. -/
def received (w : FeedWorld) : List AnnouncementReceived :=
  w.recorded.filterMap FeedEvent.announcement

def gaps (w : FeedWorld) : List AnnouncementCoverageGap :=
  w.recorded.filterMap FeedEvent.coverageGap

@[simp] theorem took_seen (w : FeedWorld) (news : List AnnouncementReceived) (emits : ℕ) :
    (w.took news emits).ingestor.seen = (idsOf news).reverse ++ w.ingestor.seen := rfl

@[simp] theorem took_received (w : FeedWorld) (news : List AnnouncementReceived) (emits : ℕ) :
    (w.took news emits).received = w.received ++ news := by
  unfold took received
  rw [List.filterMap_append]
  congr 1
  induction news with
  | nil => rfl
  | cons a rest ih => exact congrArg (List.cons a) ih

@[simp] theorem took_gaps (w : FeedWorld) (news : List AnnouncementReceived) (emits : ℕ) :
    (w.took news emits).gaps = w.gaps := by
  unfold took gaps
  rw [List.filterMap_append]
  simp [FeedEvent.coverageGap]

@[simp] theorem see_received (w : FeedWorld) (id : String) :
    (w.see id).received = w.received := rfl

@[simp] theorem see_gaps (w : FeedWorld) (id : String) : (w.see id).gaps = w.gaps := rfl

@[simp] theorem see_seen (w : FeedWorld) (id : String) :
    (w.see id).ingestor.seen = id :: w.ingestor.seen := rfl

theorem took_nil (w : FeedWorld) : w.took [] w.emits = w := by
  simp [took]

theorem took_cons (w : FeedWorld) (a : AnnouncementReceived) (news : List AnnouncementReceived)
    (n emits : ℕ) : (w.took [a] n).took news emits = w.took (a :: news) emits := by
  simp [took]

end FeedWorld

/-- The sink raises, or records an event. -/
theorem FeedWorld.emit_cases (raises : Sink) (event : FeedEvent) (w : FeedWorld) :
    (raises w.emits event = true ∧
        emit raises event w = .error .sink { w with emits := w.emits + 1 }) ∨
      raises w.emits event = false ∧
        emit raises event w = .ok ⟨⟩ { w with recorded := w.recorded ++ [event], emits := w.emits + 1 } := by
  unfold emit
  cases raises w.emits event with
  | true => exact .inl ⟨rfl, rfl⟩
  | false => exact .inr ⟨rfl, rfl⟩

theorem run_ofExcept_ok {α : Type} (a : α) (w : FeedWorld) :
    (ofExcept (.ok a) : EStateM PollExc FeedWorld α) w = .ok a w := rfl

namespace IngestorConfig

variable {c : IngestorConfig} {raises : Sink} {now : Instant}

/-- An event carries the id and the time of its item. -/
theorem received_ok {i : NamedInstrument} {item : FeedItem} {a : AnnouncementReceived}
    (h : c.received i item now = .ok a) :
    a.announcementId = c.announcementId i.key item.publishedAt item.text ∧
      a.publishedAt = item.publishedAt ∧ item.text ≠ "" := by
  unfold received at h
  split at h
  · rename_i htext
    cases h
    exact ⟨rfl, rfl, htext⟩
  · cases h

/-- **What is done with an item.** -/
theorem accept_cases (c : IngestorConfig) (raises : Sink) (now : Instant) (item : FeedItem)
    (w : FeedWorld) :
    (c.accept raises now item w = .ok none w ∧
        ∀ id, c.idOf item = some id → id ∈ w.ingestor.seen) ∨
    ∃ id, c.idOf item = some id ∧ id ∉ w.ingestor.seen ∧
      ((∃ a, a.announcementId = id ∧ a.publishedAt = item.publishedAt ∧ item.text ≠ "" ∧
          c.accept raises now item w = .ok (some a) (w.took [a] (w.emits + 1))) ∨
        ∃ e emits, c.accept raises now item w = .error e ((w.took [] emits).see id) ∧
          (item.text = "" ∨ ∃ n a, raises n (.received a) = true)) := by
  unfold accept idOf
  cases hmatch : c.match item.company with
  | none => exact .inl ⟨rfl, fun id h => by cases h⟩
  | some i =>
    dsimp only [Option.map_some]
    by_cases hseen : c.announcementId i.key item.publishedAt item.text ∈ w.ingestor.seen
    · refine .inl ⟨?_, fun id h => Option.some.inj h ▸ hseen⟩
      rw [Effect.run_bind_ok (Effect.run_get w), if_pos hseen]
      rfl
    · refine .inr ⟨_, rfl, hseen, ?_⟩
      rw [Effect.run_bind_ok (Effect.run_get w), if_neg hseen]
      cases hevent : c.received i item now with
      | error e =>
        refine .inr ⟨e, w.emits, ?_, .inl ?_⟩
        · rw [FeedWorld.took_nil]
          rfl
        · by_contra htext
          rw [received, dif_pos htext] at hevent
          cases hevent
      | ok a =>
        obtain ⟨hid, hpublished, htext⟩ := received_ok hevent
        rw [Effect.run_bind_ok (Effect.run_modify w _), Effect.run_bind_ok (run_ofExcept_ok a _)]
        rcases FeedWorld.emit_cases raises (.received a)
          (w.see (c.announcementId i.key item.publishedAt item.text)) with
          ⟨hraises, herror⟩ | ⟨-, hok⟩
        · refine .inr ⟨.sink, w.emits + 1, ?_, .inr ⟨_, a, hraises⟩⟩
          rw [Effect.run_bind_error herror]
          simp [FeedWorld.see, FeedWorld.withIngestor, FeedWorld.took]
        · refine .inl ⟨a, hid, hpublished, htext, ?_⟩
          rw [Effect.run_bind_ok hok]
          simp [FeedWorld.see, FeedWorld.withIngestor, FeedWorld.took, hid]

/-- The announcements that were recorded are new, and each of an item with a text. -/
structure News (c : IngestorConfig) (items : List FeedItem) (w : FeedWorld)
    (news : List AnnouncementReceived) : Prop where
  nodup : (idsOf news).Nodup
  fresh : ∀ id ∈ idsOf news, id ∉ w.ingestor.seen
  ofItem : ∀ a ∈ news, ∃ item ∈ items, c.idOf item = some a.announcementId ∧
    a.publishedAt = item.publishedAt ∧ item.text ≠ ""

/-- Every item of the universe was recorded or seen. -/
def Settled (c : IngestorConfig) (items : List FeedItem) (w : FeedWorld)
    (news : List AnnouncementReceived) : Prop :=
  ∀ item ∈ items, ∀ id, c.idOf item = some id → id ∈ idsOf news ∨ id ∈ w.ingestor.seen

theorem News.nil (c : IngestorConfig) (items : List FeedItem) (w : FeedWorld) :
    c.News items w [] :=
  ⟨.nil, fun _ h => absurd h List.not_mem_nil, fun _ h => absurd h List.not_mem_nil⟩

theorem News.skip {items : List FeedItem} {w : FeedWorld} {news : List AnnouncementReceived}
    (h : c.News items w news) (item : FeedItem) : c.News (item :: items) w news :=
  ⟨h.nodup, h.fresh, fun a ha =>
    let ⟨item', hitem', hof⟩ := h.ofItem a ha
    ⟨item', List.mem_cons_of_mem _ hitem', hof⟩⟩

theorem News.take {items : List FeedItem} {w : FeedWorld} {news : List AnnouncementReceived}
    {item : FeedItem} {a : AnnouncementReceived} {emits : ℕ} (h : c.News items (w.took [a] emits) news)
    (hid : c.idOf item = some a.announcementId) (hunseen : a.announcementId ∉ w.ingestor.seen)
    (hpublished : a.publishedAt = item.publishedAt) (htext : item.text ≠ "") :
    c.News (item :: items) w (a :: news) where
  nodup := List.nodup_cons.mpr ⟨fun hmem => h.fresh _ hmem (by simp), h.nodup⟩
  fresh := by
    intro id hmem
    rcases List.mem_cons.mp hmem with rfl | hmem
    · exact hunseen
    · have := h.fresh id hmem
      simp only [FeedWorld.took_seen, List.mem_append, not_or] at this
      exact this.2
  ofItem := by
    intro a' ha'
    rcases List.mem_cons.mp ha' with rfl | ha'
    · exact ⟨item, List.mem_cons_self, hid, hpublished, htext⟩
    · obtain ⟨item', hitem', hof⟩ := h.ofItem a' ha'
      exact ⟨item', List.mem_cons_of_mem _ hitem', hof⟩

/-- **What is done with the items of a page.** -/
theorem acceptAll_cases (c : IngestorConfig) (raises : Sink) (now : Instant)
    (items : List FeedItem) (w : FeedWorld) :
    ∃ news emits, c.News items w news ∧
      ((c.acceptAll raises now items w = .ok news (w.took news emits) ∧ c.Settled items w news) ∨
      ∃ e before item after id, items = before ++ item :: after ∧ c.idOf item = some id ∧
        id ∉ idsOf news ∧ id ∉ w.ingestor.seen ∧ c.Settled before w news ∧
        c.acceptAll raises now items w = .error e ((w.took news emits).see id) ∧
        (item.text = "" ∨ ∃ n a, raises n (.received a) = true)) := by
  induction items generalizing w with
  | nil =>
    refine ⟨[], w.emits, .nil c [] w, .inl ⟨?_, fun item h => by cases h⟩⟩
    rw [FeedWorld.took_nil]
    rfl
  | cons item rest ih =>
    unfold acceptAll
    rcases accept_cases c raises now item w with ⟨hskip, hseen⟩ | ⟨id, hid, hunseen, htook | hraised⟩
    · -- nothing to record of this item
      obtain ⟨news, emits, hnews, hrest⟩ := ih w
      refine ⟨news, emits, hnews.skip item, ?_⟩
      rw [Effect.run_bind_ok hskip]
      rcases hrest with ⟨hok, hsettled⟩ |
        ⟨e, before, item', after, id, rfl, hid, hnot, hunseen, hsettled, herror, hwhy⟩
      · refine .inl ⟨?_, ?_⟩
        · rw [Effect.run_bind_ok hok]
          rfl
        · intro item' hitem'
          rcases List.mem_cons.mp hitem' with rfl | hitem'
          · exact fun id hid => .inr (hseen id hid)
          · exact hsettled item' hitem'
      · refine .inr ⟨e, item :: before, item', after, id, rfl, hid, hnot, hunseen, ?_, ?_, hwhy⟩
        · intro item' hitem'
          rcases List.mem_cons.mp hitem' with rfl | hitem'
          · exact fun id hid => .inr (hseen id hid)
          · exact hsettled item' hitem'
        · rw [Effect.run_bind_error herror]
    · obtain ⟨a, rfl, hpublished, htext, hok⟩ := htook
      obtain ⟨news, emits, hnews, hrest⟩ := ih (w.took [a] (w.emits + 1))
      refine ⟨a :: news, emits, hnews.take hid hunseen hpublished htext, ?_⟩
      -- what was settled after this item was settled with it
      have hsettle : ∀ items', c.Settled items' (w.took [a] (w.emits + 1)) news →
          c.Settled (item :: items') w (a :: news) := by
        intro items' h item' hitem' id' hid'
        rcases List.mem_cons.mp hitem' with rfl | hitem'
        · rw [hid, Option.some.injEq] at hid'
          exact .inl (by simp [hid'])
        · have := h item' hitem' id' hid'
          simp only [FeedWorld.took_seen, idsOf_cons, idsOf_nil, List.reverse_singleton,
            List.mem_append, List.mem_cons] at this ⊢
          tauto
      rw [Effect.run_bind_ok hok]
      rcases hrest with ⟨hok', hsettled⟩ |
        ⟨e, before, item', after, id, rfl, hid', hnot, hunseen', hsettled, herror, hwhy⟩
      · refine .inl ⟨?_, hsettle rest hsettled⟩
        rw [Effect.run_bind_ok hok', FeedWorld.took_cons]
        rfl
      · simp only [FeedWorld.took_seen, idsOf_cons, idsOf_nil, List.reverse_singleton,
          List.mem_append, List.mem_singleton, not_or] at hunseen'
        refine .inr ⟨e, item :: before, item', after, id, rfl, hid', ?_, hunseen'.2,
          hsettle before hsettled, ?_, hwhy⟩
        · rw [idsOf_cons, List.mem_cons, not_or]
          exact ⟨hunseen'.1, hnot⟩
        · rw [Effect.run_bind_error herror, FeedWorld.took_cons]
    · obtain ⟨e, emits, herror, hwhy⟩ := hraised
      refine ⟨[], emits, .nil c _ w, .inr ⟨e, [], item, rest, id, rfl, hid, List.not_mem_nil, hunseen,
        fun item' h => absurd h List.not_mem_nil, ?_, hwhy⟩⟩
      rw [Effect.run_bind_error herror]

/-! ## A page -/

/-- Two worlds with the same announcements, gaps and ids seen. -/
structure Alike (w w' : FeedWorld) : Prop where
  seen : w'.ingestor.seen = w.ingestor.seen
  lastNewest : w'.ingestor.lastNewest = w.ingestor.lastNewest
  received : w'.received = w.received
  gaps : w'.gaps = w.gaps

theorem Alike.refl (w : FeedWorld) : Alike w w := ⟨rfl, rfl, rfl, rfl⟩

/-- A gap is recorded, or the sink raises at it. -/
theorem checkCoverage_cases (raises : Sink) (page : FeedPage) (w : FeedWorld) :
    (∃ w', checkCoverage raises page w = .ok ⟨⟩ w' ∧ w'.ingestor = w.ingestor ∧
        w'.received = w.received ∧
        w'.gaps = w.gaps ++ (gapOf w.ingestor.lastNewest page.oldest).toList) ∨
      ∃ w' g, checkCoverage raises page w = .error .sink w' ∧ w'.ingestor = w.ingestor ∧
        w'.recorded = w.recorded ∧ gapOf w.ingestor.lastNewest page.oldest = some g ∧
        raises w.emits (.gap g) = true := by
  unfold checkCoverage
  rw [Effect.run_bind_ok (Effect.run_get w)]
  cases hgap : gapOf w.ingestor.lastNewest page.oldest with
  | none => exact .inl ⟨w, rfl, rfl, rfl, by simp⟩
  | some g =>
    rcases FeedWorld.emit_cases raises (.gap g) w with ⟨hraises, herror⟩ | ⟨-, hok⟩
    · exact .inr ⟨_, g, herror, rfl, rfl, rfl, hraises⟩
    · refine .inl ⟨_, hok, rfl, ?_, ?_⟩
      · simp [FeedWorld.received, FeedEvent.announcement]
      · simp [FeedWorld.gaps, FeedEvent.coverageGap]

/-- Before its first item a page is in the way of the sink, or asks for an endless pace. -/
def RaisesEarly (raises : Sink) (w : FeedWorld) (page : FeedPage) : Prop :=
  (∃ e, pace w.ingestor.minInterval page.ttlS = .error e) ∨
    ∃ g, gapOf w.ingestor.lastNewest page.oldest = some g ∧ raises w.emits (.gap g) = true

/-- **What is done with a page.** -/
theorem read_cases (c : IngestorConfig) (raises : Sink) (now : Instant) (validators : Validators)
    (page : FeedPage) (w : FeedWorld) :
    (∃ e w', c.read raises now validators page w = .error e w' ∧ Alike w w' ∧
        w'.ingestor.validators = validators ∧ RaisesEarly raises w page) ∨
    ∃ w₁ news emits, w₁.ingestor.seen = w.ingestor.seen ∧ w₁.received = w.received ∧
      w₁.gaps = w.gaps ++ (gapOf w.ingestor.lastNewest page.oldest).toList ∧
      w₁.ingestor.validators = validators ∧ w₁.ingestor.lastNewest = w.ingestor.lastNewest ∧
      c.News (inOrder page) w₁ news ∧
      ((c.read raises now validators page w =
            .ok { ok := true, fetched := page.items.length, new := news, notModified := false
                  error := none }
              ((w₁.took news emits).withIngestor { (w₁.took news emits).ingestor with
                lastNewest := newer w.ingestor.lastNewest page.newest }) ∧
          c.Settled (inOrder page) w₁ news) ∨
        ∃ e before item after id, inOrder page = before ++ item :: after ∧
          c.idOf item = some id ∧ id ∉ idsOf news ∧ id ∉ w.ingestor.seen ∧
          c.Settled before w₁ news ∧
          c.read raises now validators page w = .error e ((w₁.took news emits).see id) ∧
          (item.text = "" ∨ ∃ n a, raises n (.received a) = true)) := by
  unfold read
  rw [Effect.run_bind_ok (Effect.run_modify w _), Effect.run_bind_ok (Effect.run_get _)]
  cases hpace : pace w.ingestor.minInterval page.ttlS with
  | error e =>
    refine .inl ⟨e, w.withIngestor { w.ingestor with validators }, ?_, ⟨rfl, rfl, rfl, rfl⟩, rfl,
      .inl ⟨e, hpace⟩⟩
    dsimp only [FeedWorld.withIngestor]
    rw [hpace]
    rfl
  | ok minInterval =>
    dsimp only [FeedWorld.withIngestor]
    rw [hpace, Effect.run_bind_ok (run_ofExcept_ok _ _), Effect.run_bind_ok (Effect.run_modify _ _)]
    -- the sink may raise at the gap
    rcases checkCoverage_cases raises page
      { w with ingestor := { w.ingestor with validators, minInterval } } with
      ⟨w', hok, hingestor, hreceived, hgaps⟩ | ⟨w', g, herror, hingestor, hrecorded, hgap, hraises⟩
    · rw [Effect.run_bind_ok hok, Effect.run_bind_ok (Effect.run_modify w' _)]
      obtain ⟨news, emits, hnews, hrest⟩ :=
        acceptAll_cases c raises now (inOrder page) (recovered w')
      have hseen : (recovered w').ingestor.seen = w.ingestor.seen := by
        show w'.ingestor.seen = _
        rw [hingestor]
      have hvalidators : (recovered w').ingestor.validators = validators := by
        show w'.ingestor.validators = _
        rw [hingestor]
      have hnewest : (recovered w').ingestor.lastNewest = w.ingestor.lastNewest := by
        show w'.ingestor.lastNewest = _
        rw [hingestor]
      refine .inr ⟨recovered w', news, emits, hseen, hreceived, hgaps, hvalidators, hnewest, hnews, ?_⟩
      rcases hrest with ⟨hall, hsettled⟩ |
        ⟨e, before, item, after, id, hitems, hid, hnot, hunseen, hsettled, herror, hwhy⟩
      · refine .inl ⟨?_, hsettled⟩
        rw [Effect.run_bind_ok hall, Effect.run_bind_ok (Effect.run_modify _ _), ← hnewest]
        rfl
      · rw [hseen] at hunseen
        exact .inr ⟨e, before, item, after, id, hitems, hid, hnot, hunseen, hsettled,
          Effect.run_bind_error herror, hwhy⟩
    · refine .inl ⟨.sink, w', Effect.run_bind_error herror, ?_, ?_, .inr ⟨g, hgap, hraises⟩⟩
      · exact ⟨by rw [hingestor], by rw [hingestor],
          congrArg (List.filterMap FeedEvent.announcement) hrecorded,
          congrArg (List.filterMap FeedEvent.coverageGap) hrecorded⟩
      · rw [hingestor]

/-! ## A poll -/

/-- The page that the server has for an ingestor in a world, if it sends one that can be read. -/
def Fetches (c : IngestorConfig) (server : Validators → FeedReply) (w : FeedWorld)
    (content : FeedContent) (page : FeedPage) : Prop :=
  server w.ingestor.validators = .response 200 content ∧ c.text.parseFeed content.body = .ok page

/-- A poll that leaves what it knew, and tells of nothing new. -/
structure Quiet (w : FeedWorld) (r : EStateM.Result PollExc FeedWorld PollStats) : Prop where
  alike : Alike w r.state
  validators : r.state.ingestor.validators = w.ingestor.validators
  new : ∀ stats w', r = .ok stats w' → stats.new = []

theorem failed_quiet (raises : Sink) (now : Instant) (error : String) (w : FeedWorld) :
    Quiet w (failed raises now error w) := by
  unfold failed
  rw [Effect.run_bind_ok (Effect.run_get w)]
  cases hfailing : w.ingestor.failingSince with
  | some t =>
    refine ⟨⟨rfl, rfl, rfl, rfl⟩, rfl, fun stats w' h => ?_⟩
    cases h
    rfl
  | none =>
    rw [Option.isNone_none, if_pos rfl, Effect.run_bind_ok (Effect.run_modify w _)]
    rcases FeedWorld.emit_cases raises (.alert { level := "WARNING", key := "announcements_feed_down"
                                                 message := "announcement feed unavailable: " ++ error })
      (w.withIngestor { w.ingestor with failingSince := some now }) with ⟨-, herror⟩ | ⟨-, hok⟩
    · rw [Effect.run_bind_error herror]
      exact ⟨⟨rfl, rfl, rfl, rfl⟩, rfl, fun stats w' h => by cases h⟩
    · rw [Effect.run_bind_ok hok]
      refine ⟨⟨rfl, rfl, ?_, ?_⟩, rfl, fun stats w' h => ?_⟩
      · simp [FeedWorld.received, FeedWorld.withIngestor, FeedEvent.announcement]
      · simp [FeedWorld.gaps, FeedWorld.withIngestor, FeedEvent.coverageGap]
      · cases h
        rfl

/-- **What a poll does.** -/
theorem poll_cases (c : IngestorConfig) (raises : Sink) (now : Instant) (force : Bool)
    (server : Validators → FeedReply) (w : FeedWorld) :
    (Quiet w (c.poll raises now force server w) ∧
        (tooEarly w.ingestor now force ∨ ∀ content page, ¬c.Fetches server w content page)) ∨
      tooEarly w.ingestor now force = false ∧ ∃ content page, c.Fetches server w content page ∧
        c.poll raises now force server w = c.read raises now content.validators page
          (w.withIngestor { w.ingestor with lastFetch := some now }) := by
  unfold poll
  rw [Effect.run_bind_ok (Effect.run_get w)]
  cases hearly : tooEarly w.ingestor now force with
  | true =>
    refine .inl ⟨⟨.refl w, rfl, fun stats w' h => ?_⟩, .inl rfl⟩
    cases h
    rfl
  | false =>
    rw [if_neg Bool.false_ne_true]
    rw [Effect.run_bind_ok (Effect.run_modify w _), Effect.run_bind_ok (Effect.run_get _)]
    dsimp only [FeedWorld.withIngestor]
    -- a failure is reported; it records nothing and keeps the validators
    have hquiet : ∀ error, Quiet w (failed raises now error
        { w with ingestor := { w.ingestor with lastFetch := some now } }) := by
      intro error
      obtain ⟨⟨hseen, hnewest, hreceived, hgaps⟩, hvalidators, hnew⟩ := failed_quiet raises now error
        { w with ingestor := { w.ingestor with lastFetch := some now } }
      exact ⟨⟨hseen, hnewest, hreceived, hgaps⟩, hvalidators, hnew⟩
    unfold Fetches
    cases hreply : server w.ingestor.validators with
    | httpError name =>
      refine .inl ⟨hquiet _, .inr ?_⟩
      intro content page h
      cases h.1
    | response status content =>
      dsimp only
      -- only a 200 with a body that parses is read
      by_cases hunchanged : status = 304
      · rw [if_pos hunchanged]
        refine .inl ⟨⟨⟨rfl, rfl, rfl, rfl⟩, rfl, fun stats w' h => ?_⟩, .inr ?_⟩
        · cases h
          rfl
        · rintro content' page ⟨h, -⟩
          cases h
          cases hunchanged
      · rw [if_neg hunchanged]
        by_cases hok : status = 200
        · rw [if_neg (not_not.mpr hok)]
          subst hok
          cases hpage : c.text.parseFeed content.body with
          | error error =>
            refine .inl ⟨hquiet _, .inr ?_⟩
            rintro content' page ⟨h, hparsed⟩
            cases h
            rw [hpage] at hparsed
            cases hparsed
          | ok page => exact .inr ⟨rfl, content, page, ⟨rfl, hpage⟩, rfl⟩
        · rw [if_pos hok]
          refine .inl ⟨hquiet _, .inr ?_⟩
          rintro content' page ⟨h, -⟩
          cases h
          exact hok rfl

end IngestorConfig

end RakshaQuant
