import RakshaQuant.Marketdata.Recording

/-! The feed as a window on a stream of announcements, and what a run of polls and restarts covers
of it. A gap is told from two times alone: that of the oldest item of a page, and the newest one the
ingestor remembers. -/

namespace RakshaQuant

/-- A poll of a page up to a position of the stream, or a restart of the process. -/
inductive FeedStep
  | poll (v : Visit) (upto size : ℕ)
  | restart (minInterval : ℤ)

def FeedStep.upto : FeedStep → Option ℕ
  | .poll _ upto _ => some upto
  | .restart _ => none

/-- The world, and the positions of the first and the latest successful fetch. -/
structure Watch where
  world : FeedWorld
  span : Option (ℕ × ℕ)

/-- The position of the latest successful fetch, if there was one. -/
def Watch.position (s : Watch) : ℕ := (s.span.map Prod.snd).getD 0

/-- A fetch was successful up to a position. -/
def Watch.fetched (s : Watch) (upto : ℕ) : Option (ℕ × ℕ) :=
  some ((s.span.map Prod.fst).getD upto, upto)

/-- A process that starts on what this one has recorded. -/
def FeedWorld.restart (w : FeedWorld) (minInterval : ℤ) : FeedWorld :=
  w.withIngestor (.start w.received minInterval)

/-- Nothing that is emitted fails. -/
def steady : Sink := fun _ _ => false

namespace IngestorConfig

/-- Whether a poll asked for the feed, and got it or was told that it is unchanged. -/
def succeeded (i : Ingestor) (v : Visit) : EStateM.Result PollExc FeedWorld PollStats → Bool
  | .ok stats _ => stats.ok && !tooEarly i v.now v.force
  | .error _ _ => false

def watch (c : IngestorConfig) (s : Watch) : FeedStep → Watch
  | .poll v upto _ =>
    let result := c.poll steady v.now v.force v.side.server s.world
    { world := result.state
      span := if succeeded s.world.ingestor v result then s.fetched upto else s.span }
  | .restart minInterval => { s with world := s.world.restart minInterval }

/-- A run that starts on an empty store. -/
def watchAll (c : IngestorConfig) (minInterval : ℤ) (steps : List FeedStep) : Watch :=
  steps.foldl c.watch { world := .start [] minInterval, span := none }

/-- The feed shows the latest items of a growing stream, and is unchanged where its validators
are. -/
structure Follows (c : IngestorConfig) (stream : List FeedItem) (steps : List FeedStep) : Prop where
  ordered : stream.Pairwise fun a b => a.publishedAt.instant ≤ b.publishedAt.instant
  window : ∀ v upto size, FeedStep.poll v upto size ∈ steps → 0 < size ∧ upto ≤ stream.length ∧
    ∀ content page, c.Serves v content page →
      page.items.Perm ((stream.take upto).drop (upto - size))
  growing : (steps.filterMap FeedStep.upto).Pairwise (· ≤ ·)
  unchanged : ∀ v upto size v' upto' size', FeedStep.poll v upto size ∈ steps →
    FeedStep.poll v' upto' size' ∈ steps → ∀ content content', v.side = .up content →
    v'.side = .up content' → content.validators = content'.validators →
    content.validators ≠ noValidators → upto = upto'

/-- Each announcement of the universe that came between the first and the latest successful fetch
is recorded, or lies in a gap that was reported. -/
def Covered (c : IngestorConfig) (stream : List FeedItem) (s : Watch) : Prop :=
  ∀ first latest, s.span = some (first, latest) → ∀ item ∈ (stream.take latest).drop first,
    ∀ id, c.idOf item = some id → id ∈ idsOf s.world.received ∨
      ∃ g ∈ s.world.gaps, g.gapFrom ≤ item.publishedAt.instant ∧ item.publishedAt.instant ≤ g.gapTo

/-- A page that is fetched can be read to its end, and where it no longer reaches back to the latest
fetch over an announcement of the universe, its oldest time is later than the one remembered. -/
def Bridges (c : IngestorConfig) (stream : List FeedItem) (s : Watch) (v : Visit)
    (upto size : ℕ) : Prop :=
  tooEarly s.world.ingestor v.now v.force = false →
    ∀ content page, c.Fetches v.side.server s.world content page →
      (∀ e, pace s.world.ingestor.minInterval page.ttlS ≠ .error e) ∧
      (∀ item ∈ page.items, ∀ id, c.idOf item = some id → item.text = "" →
        id ∈ s.world.ingestor.seen) ∧
      ∀ first latest, s.span = some (first, latest) →
        ∀ item ∈ (stream.take (upto - size)).drop latest, ∀ id, c.idOf item = some id →
          id ∈ idsOf s.world.received ∨ gapOf s.world.ingestor.lastNewest page.oldest ≠ none

end IngestorConfig

/-! ## Windows -/

theorem mem_window {α : Type} {xs : List α} {x : α} {first latest : ℕ} :
    x ∈ (xs.take latest).drop first ↔ ∃ i, first ≤ i ∧ i < latest ∧ xs[i]? = some x := by
  rw [List.mem_iff_getElem?]
  constructor
  · intro ⟨i, h⟩
    rw [List.getElem?_drop, List.getElem?_take] at h
    split at h
    · rename_i hlt
      exact ⟨first + i, Nat.le_add_right _ _, hlt, h⟩
    · cases h
  · intro ⟨i, hfirst, hlatest, h⟩
    refine ⟨i - first, ?_⟩
    rw [List.getElem?_drop, List.getElem?_take, Nat.add_sub_cancel' hfirst, if_pos hlatest, h]

theorem mem_drop {α : Type} {xs : List α} {x : α} {first : ℕ} :
    x ∈ xs.drop first ↔ ∃ i, first ≤ i ∧ xs[i]? = some x := by
  rw [List.mem_iff_getElem?]
  constructor
  · intro ⟨i, h⟩
    rw [List.getElem?_drop] at h
    exact ⟨first + i, Nat.le_add_right _ _, h⟩
  · intro ⟨i, hfirst, h⟩
    refine ⟨i - first, ?_⟩
    rw [List.getElem?_drop, Nat.add_sub_cancel' hfirst, h]

/-- In a stream that is ordered by a key, an earlier position has no greater key. -/
theorem key_le {α : Type} {xs : List α} (key : α → Instant)
    (h : xs.Pairwise fun a b => key a ≤ key b) {i j : ℕ} {a b : α} (hij : i ≤ j)
    (ha : xs[i]? = some a) (hb : xs[j]? = some b) : key a ≤ key b := by
  obtain ⟨hi, rfl⟩ := List.getElem?_eq_some_iff.mp ha
  obtain ⟨hj, rfl⟩ := List.getElem?_eq_some_iff.mp hb
  rcases Nat.lt_or_eq_of_le hij with hlt | rfl
  · exact List.pairwise_iff_getElem.mp h i j hi hj hlt
  · exact le_rfl

/-! ## Success -/

namespace IngestorConfig

variable {c : IngestorConfig} {stream : List FeedItem} {s : Watch} {w : FeedWorld} {v : Visit}

theorem failed_not_ok {raises : Sink} {now : Instant} {error : String} {stats : PollStats}
    {w' : FeedWorld} (h : failed raises now error w = .ok stats w') : stats.ok = false := by
  unfold failed at h
  rw [Effect.run_bind_ok (Effect.run_get w)] at h
  cases hfailing : w.ingestor.failingSince with
  | some t =>
    rw [hfailing] at h
    cases h
    rfl
  | none =>
    rw [hfailing, Option.isNone_none, if_pos rfl, Effect.run_bind_ok (Effect.run_modify w _)] at h
    rcases FeedWorld.emit_cases raises (.alert { level := "WARNING", key := "announcements_feed_down"
                                                 message := "announcement feed unavailable: " ++ error })
      (w.withIngestor { w.ingestor with failingSince := some now }) with ⟨-, herror⟩ | ⟨-, hok⟩
    · rw [Effect.run_bind_error herror] at h
      cases h
    · rw [Effect.run_bind_ok hok] at h
      cases h
      rfl

theorem failed_not_succeeded (i : Ingestor) (raises : Sink) (now : Instant) (error : String) :
    succeeded i v (failed raises now error w) = false := by
  cases h : failed raises now error w with
  | error e w' => rfl
  | ok stats w' => simp [succeeded, failed_not_ok h]

/-- A poll that succeeds without a page was told that the feed is unchanged. -/
theorem held_of_succeeded
    (h : succeeded w.ingestor v (c.poll steady v.now v.force v.side.server w) = true)
    (hnot : ∀ content page, ¬c.Fetches v.side.server w content page) :
    w.ingestor.validators ≠ noValidators ∧
      ∃ content, v.side = .up content ∧ content.validators = w.ingestor.validators := by
  cases hearly : tooEarly w.ingestor v.now v.force with
  | true =>
    unfold succeeded at h
    split at h
    · simp [hearly] at h
    · cases h
  | false =>
    unfold poll at h
    rw [Effect.run_bind_ok (Effect.run_get w), hearly, if_neg Bool.false_ne_true,
      Effect.run_bind_ok (Effect.run_modify w _), Effect.run_bind_ok (Effect.run_get _)] at h
    dsimp only [FeedWorld.withIngestor] at h
    cases hside : v.side with
    | unreachable name =>
      rw [hside, FeedSide.server] at h
      rw [failed_not_succeeded] at h
      cases h
    | refusing status content hstatus =>
      rw [hside, FeedSide.server] at h
      dsimp only at h
      rw [if_neg hstatus.2, if_pos hstatus.1, failed_not_succeeded] at h
      cases h
    | up content =>
      by_cases hheld : w.ingestor.validators ≠ noValidators ∧
          w.ingestor.validators = content.validators
      · exact ⟨hheld.1, content, rfl, hheld.2.symm⟩
      · rw [hside, FeedSide.server, if_neg hheld] at h
        cases hpage : c.text.parseFeed content.body with
        | ok page =>
          refine absurd ⟨?_, hpage⟩ (hnot content page)
          rw [hside, FeedSide.server, if_neg hheld]
        | error error =>
          simp only [hpage] at h
          rw [if_neg (by decide), if_neg (by decide), failed_not_succeeded] at h
          cases h

/-! ## What a run keeps -/

/-- Everything seen is recorded, nothing remembered is later than what is still to come, and the
validators held are those of the latest fetch. -/
structure Tracks (c : IngestorConfig) (stream : List FeedItem) (steps : List FeedStep)
    (s : Watch) : Prop where
  seen : ∀ id ∈ s.world.ingestor.seen, id ∈ idsOf s.world.received
  newest : ∀ t, s.world.ingestor.lastNewest = some t → ∀ item ∈ stream.drop s.position,
    t ≤ item.publishedAt.instant
  recorded : ∀ a ∈ s.world.received, ∀ item ∈ stream.drop s.position,
    a.publishedAt.instant ≤ item.publishedAt.instant
  fetched : ∀ first latest, s.span = some (first, latest) → latest ∈ steps.filterMap FeedStep.upto
  held : s.world.ingestor.validators ≠ noValidators → ∃ first v upto size content,
    FeedStep.poll v upto size ∈ steps ∧ v.side = .up content ∧
    content.validators = s.world.ingestor.validators ∧ s.span = some (first, upto)
  covered : c.Covered stream s

theorem Tracks.start (c : IngestorConfig) (stream : List FeedItem) (minInterval : ℤ) :
    c.Tracks stream [] (c.watchAll minInterval []) where
  seen := fun _ h => absurd h List.not_mem_nil
  newest := fun _ h => absurd h (by simp [watchAll, FeedWorld.start, Ingestor.start, watermark])
  recorded := fun _ h => absurd h List.not_mem_nil
  fetched := fun _ _ h => absurd h (by simp [watchAll])
  held := fun h => absurd rfl h
  covered := fun _ _ h => absurd h (by simp [watchAll])

/-- A restart keeps what was recorded, and remembers no later time. -/
theorem Tracks.restart {steps : List FeedStep} (h : c.Tracks stream steps s) (minInterval : ℤ) :
    c.Tracks stream (steps ++ [.restart minInterval]) (c.watch s (.restart minInterval)) where
  seen := fun _ hid => hid
  newest := by
    intro t ht
    have hmem := (List.max?_eq_some_iff.mp ht).1
    obtain ⟨a, ha, rfl⟩ := List.mem_map.mp hmem
    exact h.recorded a ha
  recorded := h.recorded
  fetched := by
    intro first latest hspan
    rw [List.filterMap_append]
    exact List.mem_append_left _ (h.fetched first latest hspan)
  held := fun hheld => absurd rfl hheld
  covered := h.covered

/-- A world with the same announcements and gaps keeps what was covered. -/
theorem Tracks.quiet {steps : List FeedStep} (h : c.Tracks stream steps s) (step : FeedStep)
    {w' : FeedWorld} (hlike : Alike s.world w')
    (hvalidators : w'.ingestor.validators = s.world.ingestor.validators) :
    c.Tracks stream (steps ++ [step]) { s with world := w' } where
  seen := by
    dsimp only
    rw [hlike.seen, hlike.received]
    exact h.seen
  newest := by
    dsimp only
    rw [hlike.lastNewest]
    exact h.newest
  recorded := by
    dsimp only
    rw [hlike.received]
    exact h.recorded
  fetched := by
    intro first latest hspan
    rw [List.filterMap_append]
    exact List.mem_append_left _ (h.fetched first latest hspan)
  held := by
    intro hheld
    dsimp only at hheld ⊢
    rw [hvalidators] at hheld ⊢
    obtain ⟨first, v, upto, size, content, hstep, hof⟩ := h.held hheld
    exact ⟨first, v, upto, size, content, List.mem_append_left _ hstep, hof⟩
  covered := by
    intro first latest hspan item hitem id hid
    dsimp only
    rw [hlike.received, hlike.gaps]
    exact h.covered first latest hspan item hitem id hid

/-! ## A page -/

/-- What is left by a page that was read to its end. -/
structure Reads (c : IngestorConfig) (w : FeedWorld) (validators : Validators) (page : FeedPage)
    (news : List AnnouncementReceived) (w' : FeedWorld) : Prop where
  seen : w'.ingestor.seen = (idsOf news).reverse ++ w.ingestor.seen
  received : w'.received = w.received ++ news
  gaps : w'.gaps = w.gaps ++ (gapOf w.ingestor.lastNewest page.oldest).toList
  lastNewest : w'.ingestor.lastNewest = newer w.ingestor.lastNewest page.newest
  validators : w'.ingestor.validators = validators
  ofItem : ∀ a ∈ news, ∃ item ∈ page.items, a.publishedAt = item.publishedAt
  settled : ∀ item ∈ page.items, ∀ id, c.idOf item = some id →
    id ∈ idsOf news ∨ id ∈ w.ingestor.seen

variable {page : FeedPage} {content : FeedContent} {news : List AnnouncementReceived}
  {w' : FeedWorld} {steps : List FeedStep} {upto size : ℕ}

/-- A page that can be read to its end is, if nothing that is emitted fails. -/
theorem read_steady (hpace : ∀ e, pace w.ingestor.minInterval page.ttlS ≠ .error e)
    (htexts : ∀ item ∈ page.items, ∀ id, c.idOf item = some id → item.text = "" →
      id ∈ w.ingestor.seen) (now : Instant) (validators : Validators) :
    ∃ stats news w', c.read steady now validators page w = .ok stats w' ∧ stats.ok = true ∧
      c.Reads w validators page news w' := by
  rcases read_cases c steady now validators page w with
    ⟨e, w', -, -, -, hearly⟩ |
    ⟨w₁, news, emits, hseen, hreceived, hgaps, hvalidators, hnewest, hnews, hrest⟩
  · rcases hearly with ⟨e, he⟩ | ⟨g, -, hraises⟩
    · exact absurd he (hpace e)
    · cases hraises
  · rcases hrest with ⟨hok, hsettled⟩ |
      ⟨e, before, item, after, id, hitems, hid, -, hunseen, -, -, hwhy⟩
    · refine ⟨_, news, _, hok, rfl, ?_, ?_, ?_, rfl, hvalidators, ?_, ?_⟩
      · exact congrArg _ hseen
      · exact (FeedWorld.took_received w₁ news emits).trans (by rw [hreceived])
      · exact (FeedWorld.took_gaps w₁ news emits).trans hgaps
      · intro a ha
        obtain ⟨item, hitem, -, hpublished, -⟩ := hnews.ofItem a ha
        exact ⟨item, mem_inOrder.mp hitem, hpublished⟩
      · intro item hitem id hid
        rw [← hseen]
        exact hsettled item (mem_inOrder.mpr hitem) id hid
    · have hitem : item ∈ page.items := by
        rw [← mem_inOrder, hitems]
        simp
      rcases hwhy with htext | ⟨n, a, hraises⟩
      · exact absurd (htexts item hitem id hid htext) hunseen
      · cases hraises

/-- Nothing on a page is later than what is still to come. -/
theorem page_le (hordered : stream.Pairwise fun a b => a.publishedAt.instant ≤ b.publishedAt.instant)
    (hpage : page.items.Perm ((stream.take upto).drop (upto - size))) {item later : FeedItem}
    (hitem : item ∈ page.items) (hlater : later ∈ stream.drop upto) :
    item.publishedAt.instant ≤ later.publishedAt.instant := by
  obtain ⟨i, -, hi, hget⟩ := mem_window.mp (hpage.mem_iff.mp hitem)
  obtain ⟨j, hj, hget'⟩ := mem_drop.mp hlater
  have hij : i ≤ j := by omega
  exact key_le (fun item => item.publishedAt.instant) hordered hij hget hget'

theorem mem_drop_mono {first latest : ℕ} (h : first ≤ latest) {item : FeedItem}
    (hitem : item ∈ stream.drop latest) : item ∈ stream.drop first := by
  obtain ⟨i, hi, hget⟩ := mem_drop.mp hitem
  exact mem_drop.mpr ⟨i, h.trans hi, hget⟩

/-- A gap that is reported spans what came between the latest fetch and the page. -/
theorem gap_spans (hordered : stream.Pairwise fun a b =>
      a.publishedAt.instant ≤ b.publishedAt.instant)
    (hpage : page.items.Perm ((stream.take upto).drop (upto - size))) {lastNewest : Option Instant}
    {position : ℕ} (hnewest : ∀ t, lastNewest = some t → ∀ item ∈ stream.drop position,
      t ≤ item.publishedAt.instant) (hgap : gapOf lastNewest page.oldest ≠ none) {item : FeedItem}
    (hitem : item ∈ (stream.take (upto - size)).drop position) :
    ∃ g, gapOf lastNewest page.oldest = some g ∧ g.gapFrom ≤ item.publishedAt.instant ∧
      item.publishedAt.instant ≤ g.gapTo := by
  obtain ⟨i, hi, hlt, hget⟩ := mem_window.mp hitem
  cases hlast : lastNewest with
  | none =>
    rw [hlast] at hgap
    exact absurd rfl hgap
  | some last =>
    cases holdest : page.oldest with
    | none =>
      rw [hlast, holdest] at hgap
      exact absurd rfl hgap
    | some old =>
      rw [hlast, holdest] at hgap
      have hbefore : last < old := by
        by_contra hnot
        exact hgap (if_neg hnot)
      refine ⟨_, if_pos hbefore, hnewest last hlast item (mem_drop.mpr ⟨i, hi, hget⟩), ?_⟩
      -- the oldest time of the page is that of one of its items
      obtain ⟨oldest, hon, rfl⟩ := List.mem_map.mp (List.min?_eq_some_iff.mp holdest).1
      obtain ⟨j, hj, -, hget'⟩ := mem_window.mp (hpage.mem_iff.mp hon)
      have hij : i ≤ j := by omega
      exact key_le (fun item => item.publishedAt.instant) hordered hij hget hget'

theorem mem_idsOf_append {id : String} {old : List AnnouncementReceived} :
    id ∈ idsOf (old ++ news) ↔ id ∈ idsOf old ∨ id ∈ idsOf news := by
  rw [idsOf, List.map_append, List.mem_append]
  rfl

/-- **A page that is read.** What came since the latest fetch is on it, or was recorded, or lies in
the gap that is reported. -/
theorem Tracks.reads (h : c.Tracks stream steps s)
    (hordered : stream.Pairwise fun a b => a.publishedAt.instant ≤ b.publishedAt.instant)
    (hpage : page.items.Perm ((stream.take upto).drop (upto - size)))
    (hgrown : s.position ≤ upto) (hside : v.side = .up content)
    (hreads : c.Reads s.world content.validators page news w')
    (hbridges : ∀ first latest, s.span = some (first, latest) →
      ∀ item ∈ (stream.take (upto - size)).drop latest, ∀ id, c.idOf item = some id →
        id ∈ idsOf s.world.received ∨ gapOf s.world.ingestor.lastNewest page.oldest ≠ none) :
    c.Tracks stream (steps ++ [.poll v upto size]) { world := w', span := s.fetched upto } where
  seen := by
    intro id hid
    dsimp only at hid ⊢
    rw [hreads.seen, List.mem_append, List.mem_reverse] at hid
    rw [hreads.received, mem_idsOf_append]
    exact hid.symm.imp_left (h.seen id)
  newest := by
    intro t ht item hitem
    have hlater : item ∈ stream.drop s.position := mem_drop_mono hgrown hitem
    dsimp only at ht
    rw [hreads.lastNewest] at ht
    cases hnewest : page.newest with
    | none =>
      rw [hnewest] at ht
      exact h.newest t ht item hlater
    | some newest =>
      obtain ⟨on, hon, rfl⟩ := List.mem_map.mp (List.max?_eq_some_iff.mp hnewest).1
      have hle := page_le hordered hpage hon hitem
      rw [hnewest] at ht
      cases hlast : s.world.ingestor.lastNewest with
      | none =>
        rw [hlast] at ht
        cases ht
        exact max_le hle hle
      | some last =>
        rw [hlast] at ht
        cases ht
        exact max_le hle (h.newest last hlast item hlater)
  recorded := by
    intro a ha item hitem
    dsimp only at ha
    rw [hreads.received, List.mem_append] at ha
    rcases ha with hold | hnew
    · exact h.recorded a hold item (mem_drop_mono hgrown hitem)
    · obtain ⟨on, hon, hpublished⟩ := hreads.ofItem a hnew
      rw [hpublished]
      exact page_le hordered hpage hon hitem
  fetched := by
    intro first latest hspan
    cases hspan
    simp [FeedStep.upto]
  held := fun _ => ⟨_, v, upto, size, content, by simp, hside, hreads.validators.symm, rfl⟩
  covered := by
    intro first latest hspan item hitem id hid
    dsimp only
    rw [hreads.received, mem_idsOf_append, hreads.gaps]
    obtain ⟨i, hfirst, hlt, hget⟩ := mem_window.mp hitem
    cases hspan
    by_cases hon : upto - size ≤ i
    · -- on the page
      have hitem' : item ∈ page.items :=
        hpage.mem_iff.mpr (mem_window.mpr ⟨i, hon, hlt, hget⟩)
      rcases hreads.settled item hitem' id hid with hnew | hseen
      · exact .inl (.inr hnew)
      · exact .inl (.inl (h.seen id hseen))
    · cases hspan' : s.span with
      | none =>
        rw [hspan', Option.map_none, Option.getD_none] at hfirst
        omega
      | some span =>
        rw [hspan', Option.map_some, Option.getD_some] at hfirst
        by_cases hlatest : i < span.2
        · -- before the latest fetch
          rcases h.covered span.1 span.2 hspan' item (mem_window.mpr ⟨i, hfirst, hlatest, hget⟩)
            id hid with hold | ⟨g, hg, hspans⟩
          · exact .inl (.inl hold)
          · exact .inr ⟨g, List.mem_append_left _ hg, hspans⟩
        · -- between the latest fetch and the page
          have hbetween : item ∈ (stream.take (upto - size)).drop span.2 :=
            mem_window.mpr ⟨i, not_lt.mp hlatest, not_le.mp hon, hget⟩
          rcases hbridges span.1 span.2 hspan' item hbetween id hid with hold | hgap
          · exact .inl (.inl hold)
          · have hposition : s.position = span.2 := by
              rw [Watch.position, hspan']
              rfl
            obtain ⟨g, hg, hspans⟩ := gap_spans hordered hpage h.newest hgap
              (by rw [hposition]; exact hbetween)
            exact .inr ⟨g, List.mem_append_right _ (by simp [hg]), hspans⟩

/-- **One poll.** -/
theorem Tracks.poll {after : List FeedStep} (h : c.Tracks stream steps s)
    (hfollows : c.Follows stream (steps ++ .poll v upto size :: after))
    (hbridges : c.Bridges stream s v upto size) :
    c.Tracks stream (steps ++ [.poll v upto size]) (c.watch s (.poll v upto size)) := by
  have hstep : FeedStep.poll v upto size ∈ steps ++ .poll v upto size :: after := by simp
  unfold watch
  dsimp only
  rcases poll_cases c steady v.now v.force v.side.server s.world with ⟨hquiet, hwhy⟩ |
    ⟨hearly, content, page, hfetches, hread⟩
  · have hkept := h.quiet (.poll v upto size) hquiet.alike hquiet.validators
    split
    · rename_i hsucceeded
      -- the feed is unchanged, and so is the position of the latest fetch
      have hnot : ∀ content page, ¬c.Fetches v.side.server s.world content page := by
        rcases hwhy with hearly | hnone
        · unfold succeeded at hsucceeded
          split at hsucceeded
          · simp [hearly] at hsucceeded
          · cases hsucceeded
        · exact hnone
      obtain ⟨hheld, content, hside, hsame⟩ := held_of_succeeded hsucceeded hnot
      obtain ⟨first, v', upto', size', content', hstep', hside', hsame', hspan⟩ := h.held hheld
      obtain rfl : upto = upto' := hfollows.unchanged v upto size v' upto' size' hstep
        (List.mem_append_left _ hstep') content content' hside hside' (hsame.trans hsame'.symm)
        (by rw [hsame]; exact hheld)
      have hsame : s.fetched upto = s.span := by
        rw [Watch.fetched, hspan]
        rfl
      rw [hsame]
      exact hkept
    · exact hkept
  · obtain ⟨hpace, htexts, hover⟩ := hbridges hearly content page hfetches
    obtain ⟨stats, news, w', hok, hstats, hreads⟩ := read_steady
      (w := s.world.withIngestor { s.world.ingestor with lastFetch := some v.now }) hpace htexts v.now
      content.validators
    have hsucceeded : succeeded s.world.ingestor v
        (c.poll steady v.now v.force v.side.server s.world) = true := by
      rw [hread, hok]
      simp [succeeded, hstats, hearly]
    rw [if_pos hsucceeded, hread, hok]
    have hgrown : s.position ≤ upto := by
      cases hspan : s.span with
      | none => simp [Watch.position, hspan]
      | some span =>
        have hlatest := h.fetched span.1 span.2 hspan
        have hgrowing := hfollows.growing
        rw [List.filterMap_append, List.pairwise_append] at hgrowing
        have hle := hgrowing.2.2 span.2 hlatest upto (by simp [FeedStep.upto])
        simpa [Watch.position, hspan] using hle
    have hserves := hfetches.serves
    have hreads' : c.Reads s.world content.validators page news w' :=
      ⟨hreads.seen, hreads.received, hreads.gaps, hreads.lastNewest, hreads.validators,
        hreads.ofItem, hreads.settled⟩
    exact h.reads hfollows.ordered ((hfollows.window v upto size hstep).2.2 content page hserves)
      hgrown hserves.1 hreads' hover

/-! ## Runs -/

theorem watchAll_append (c : IngestorConfig) (minInterval : ℤ) (steps : List FeedStep)
    (step : FeedStep) :
    c.watchAll minInterval (steps ++ [step]) = c.watch (c.watchAll minInterval steps) step :=
  List.foldl_concat _ _ _ _

/-- Up to any step of a run whose polls bridge what they leave out. -/
theorem Tracks.run {minInterval : ℤ} (hfollows : c.Follows stream steps)
    (hbridges : ∀ before v upto size after, steps = before ++ .poll v upto size :: after →
      c.Bridges stream (c.watchAll minInterval before) v upto size)
    {before after : List FeedStep} (hsplit : steps = before ++ after) :
    c.Tracks stream before (c.watchAll minInterval before) := by
  induction before using List.reverseRecOn generalizing after with
  | nil => exact .start c stream minInterval
  | append_singleton before step ih =>
    rw [List.append_assoc, List.singleton_append] at hsplit
    rw [watchAll_append]
    cases step with
    | restart interval => exact (ih hsplit).restart interval
    | poll v upto size =>
      rw [hsplit] at hfollows
      exact (ih hsplit).poll hfollows (hbridges before v upto size after hsplit)

/-- **Gaps are complete where every gap shows in the two times compared.** In a run of polls and
restarts each of whose fetches reads its page to the end, and remembers a time before the oldest of
the page wherever the page leaves out an announcement of the universe, every announcement of the
universe between the first and the latest successful fetch is recorded or lies in a reported gap. -/
theorem coverage_complete (c : IngestorConfig) (stream : List FeedItem) (minInterval : ℤ)
    (steps : List FeedStep) (hfollows : c.Follows stream steps)
    (hbridges : ∀ before v upto size after, steps = before ++ .poll v upto size :: after →
      c.Bridges stream (c.watchAll minInterval before) v upto size)
    (before after : List FeedStep) (hsplit : steps = before ++ after) :
    c.Covered stream (c.watchAll minInterval before) :=
  (Tracks.run hfollows hbridges hsplit).covered

end IngestorConfig

/-! ## A window that moved -/

namespace MovedWindow

def other (pubDate : String) : FeedNode :=
  { title := some "Bajaj Electricals Limited", pubDate := some pubDate
    description := some "Updates |SUBJECT: Updates", link := none }

/-- An announcement of the universe between two others. -/
def nodes (first : String) : List FeedNode :=
  [other first, BoardMeeting.meeting, other "05-Oct-2026 09:30:01"]

def stream (first : String) : List FeedItem := (nodes first).filterMap BoardMeeting.text.feedItem

def content (etag : String) (node : FeedNode) : FeedContent :=
  { etag := some etag, lastModified := none, body := .channel [node] none }

def visit (etag : String) (node : FeedNode) : Visit :=
  { now := 1791173400000000, force := true, side := .up (content etag node) }

/-- The feed holds one item, and two came since the first poll. -/
def steps (first : String) : List FeedStep :=
  [.poll (visit "2f1c" (other first)) 1 1,
    .poll (visit "2f1d" (other "05-Oct-2026 09:30:01")) 3 1]

def watched (first : String) : Watch :=
  BoardMeeting.config.watchAll 300000000 (steps first)

def page (node : FeedNode) : FeedPage :=
  { items := [node].filterMap BoardMeeting.text.feedItem, ttlS := BoardMeeting.text.ttlSeconds none }

theorem page_of_serves {etag : String} {node : FeedNode} {content' : FeedContent} {page' : FeedPage}
    (h : BoardMeeting.config.Serves (visit etag node) content' page') : page' = page node := by
  have hserves : BoardMeeting.config.Serves (visit etag node) (content etag node) (page node) :=
    ⟨rfl, rfl⟩
  exact (hserves.unique h).2

theorem validators_ne (node node' : FeedNode) :
    (content "2f1c" node).validators ≠ (content "2f1d" node').validators := by
  intro h
  have hetag : (some "2f1c").filter (· ≠ "") = (some "2f1d").filter (· ≠ "") :=
    congrArg Validators.etag h
  exact absurd hetag (by decide)

/-- The three items of the stream. -/
theorem stream_eq (first : String)
    (h : (BoardMeeting.text.feedItem (other first)).isSome = true) :
    ∃ i m l, BoardMeeting.text.feedItem (other first) = some i ∧
      BoardMeeting.text.feedItem (other "05-Oct-2026 09:30:01") = some l ∧
      stream first = [i, m, l] := by
  have hmeeting : (BoardMeeting.text.feedItem BoardMeeting.meeting).isSome = true := by
    decide +kernel
  have hlast : (BoardMeeting.text.feedItem (other "05-Oct-2026 09:30:01")).isSome = true := by
    decide +kernel
  obtain ⟨i, hi⟩ := Option.isSome_iff_exists.mp h
  obtain ⟨m, hm⟩ := Option.isSome_iff_exists.mp hmeeting
  obtain ⟨l, hl⟩ := Option.isSome_iff_exists.mp hlast
  exact ⟨i, m, l, hi, hl, by simp [stream, nodes, hi, hm, hl]⟩

theorem follows (first : String) (h : (BoardMeeting.text.feedItem (other first)).isSome = true)
    (hordered : (stream first).Pairwise fun a b => a.publishedAt.instant ≤ b.publishedAt.instant) :
    BoardMeeting.config.Follows (stream first) (steps first) := by
  obtain ⟨i, m, l, hi, hl, hstream⟩ := stream_eq first h
  have hgrowing : [1, 3].Pairwise (· ≤ ·) := by decide
  refine ⟨hordered, ?_, hgrowing, ?_⟩
  · intro v upto size hstep
    rcases List.mem_pair.mp hstep with hfirst | hlast
    · cases hfirst
      refine ⟨by decide, by simp [hstream], fun content page hserves => ?_⟩
      rw [page_of_serves hserves, hstream]
      simp [MovedWindow.page, hi]
    · cases hlast
      refine ⟨by decide, by simp [hstream], fun content page hserves => ?_⟩
      rw [page_of_serves hserves, hstream]
      simp [MovedWindow.page, hl]
  · intro v upto size v' upto' size' hstep hstep' content content' hside hside' hsame _
    rcases List.mem_pair.mp hstep with hstep | hstep <;>
      rcases List.mem_pair.mp hstep' with hstep' | hstep' <;>
      cases hstep <;> cases hstep' <;> cases hside <;> cases hside'
    · rfl
    · exact absurd hsame (validators_ne _ _)
    · exact absurd hsame.symm (validators_ne _ _)
    · rfl

end MovedWindow

/-- Where the times differ the announcement that was left out lies in the gap. -/
theorem IngestorConfig.coverage_complete_moved :
    BoardMeeting.config.Covered (MovedWindow.stream "05-Oct-2026 09:30:00")
      (BoardMeeting.config.watchAll 300000000 (MovedWindow.steps "05-Oct-2026 09:30:00")) := by
  have hordered : (MovedWindow.stream "05-Oct-2026 09:30:00").Pairwise
      fun a b => a.publishedAt.instant ≤ b.publishedAt.instant := by
    decide +kernel
  have hfirst : (BoardMeeting.text.feedItem (MovedWindow.other "05-Oct-2026 09:30:00")).isSome =
      true := by
    decide +kernel
  -- neither page has an announcement of the universe
  have houtside : ∀ item ∈ (MovedWindow.page (MovedWindow.other "05-Oct-2026 09:30:00")).items,
      BoardMeeting.config.idOf item = none := by
    decide +kernel
  have houtside' : ∀ item ∈ (MovedWindow.page (MovedWindow.other "05-Oct-2026 09:30:01")).items,
      BoardMeeting.config.idOf item = none := by
    decide +kernel
  have hpace : ∀ m e, pace m (BoardMeeting.text.ttlSeconds none) ≠ .error e := by
    intro m e he
    cases he
  refine coverage_complete BoardMeeting.config _ 300000000 _ (MovedWindow.follows _ hfirst hordered) ?_
    (MovedWindow.steps "05-Oct-2026 09:30:00") [] (List.append_nil _).symm
  intro before v upto size after hsplit hearly content page hfetches
  cases before with
  | nil =>
    cases hsplit
    rw [MovedWindow.page_of_serves hfetches.serves]
    refine ⟨hpace _, fun item hitem id hid => ?_, fun first latest hspan => by cases hspan⟩
    rw [houtside item hitem] at hid
    cases hid
  | cons step rest =>
    obtain ⟨rfl, hrest⟩ := List.cons.inj hsplit
    cases rest with
    | cons step' rest' => simp at hrest
    | nil =>
      cases hrest
      rw [MovedWindow.page_of_serves hfetches.serves]
      refine ⟨hpace _, fun item hitem id hid => ?_, fun first latest _ item _ id _ => .inr ?_⟩
      · rw [houtside' item hitem] at hid
        cases hid
      · decide +kernel

/-- Three items share a second: the one of the universe is left out, and no gap is reported. -/
theorem coverage_gap_unreported :
    ¬∀ (c : IngestorConfig) (stream : List FeedItem) (minInterval : ℤ) (steps : List FeedStep),
      c.Follows stream steps → c.Covered stream (c.watchAll minInterval steps) := by
  intro h
  have hordered : (MovedWindow.stream "05-Oct-2026 09:30:01").Pairwise
      fun a b => a.publishedAt.instant ≤ b.publishedAt.instant := by
    decide +kernel
  have hfirst : (BoardMeeting.text.feedItem (MovedWindow.other "05-Oct-2026 09:30:01")).isSome =
      true := by
    decide +kernel
  have hspan : (MovedWindow.watched "05-Oct-2026 09:30:01").span = some (1, 3) := by decide +kernel
  have hnone : idsOf (MovedWindow.watched "05-Oct-2026 09:30:01").world.received = [] := by
    decide +kernel
  have hgaps : (MovedWindow.watched "05-Oct-2026 09:30:01").world.gaps.length = 0 := by
    decide +kernel
  obtain ⟨item, hitem, hid⟩ : ∃ item ∈
      ((MovedWindow.stream "05-Oct-2026 09:30:01").take 3).drop 1,
      (BoardMeeting.config.idOf item).isSome = true := by
    decide +kernel
  obtain ⟨id, hid⟩ := Option.isSome_iff_exists.mp hid
  rcases h BoardMeeting.config _ 300000000 _ (MovedWindow.follows _ hfirst hordered) 1 3 hspan item
    hitem id hid with hrecorded | ⟨g, hg, -⟩
  · change id ∈ idsOf (MovedWindow.watched "05-Oct-2026 09:30:01").world.received at hrecorded
    rw [hnone] at hrecorded
    cases hrecorded
  · change g ∈ (MovedWindow.watched "05-Oct-2026 09:30:01").world.gaps at hg
    rw [List.eq_nil_of_length_eq_zero hgaps] at hg
    cases hg

end RakshaQuant
