import RakshaQuant.Marketdata.Ingesting

/-! Announcements over a run of polls. Each is recorded at most once. A page that a poll could not
finish is answered with its validators the next time, and what was left of it stays unrecorded. -/

namespace RakshaQuant

/-- What a poll finds: no connection, a status that is no page, or a feed. -/
inductive FeedSide
  | unreachable (name : String)
  | refusing (status : ℕ) (content : FeedContent) (h : status ≠ 200 ∧ status ≠ 304)
  | up (content : FeedContent)

/-- A feed answers with a 304 where the validators sent are those of its page. -/
def FeedSide.server : FeedSide → Validators → FeedReply
  | .unreachable name, _ => .httpError name
  | .refusing status content _, _ => .response status content
  | .up content, sent =>
    if sent ≠ noValidators ∧ sent = content.validators then .response 304 content
    else .response 200 content

structure Visit where
  now : Instant
  force : Bool
  side : FeedSide

/-- An ingestor that starts on what is stored. -/
def FeedWorld.start (stored : List AnnouncementReceived) (minInterval : ℤ) : FeedWorld :=
  { ingestor := .start stored minInterval, recorded := stored.map .received, emits := 0 }

namespace IngestorConfig

def visit (c : IngestorConfig) (raises : Sink) (w : FeedWorld) (v : Visit) : FeedWorld :=
  (c.poll raises v.now v.force v.side.server w).state

def run (c : IngestorConfig) (raises : Sink) (w : FeedWorld) (visits : List Visit) : FeedWorld :=
  visits.foldl (c.visit raises) w

/-- The page behind a visit. -/
def Serves (c : IngestorConfig) (v : Visit) (content : FeedContent) (page : FeedPage) : Prop :=
  v.side = .up content ∧ c.text.parseFeed content.body = .ok page

/-- A visit has one page behind it. -/
theorem Serves.unique {c : IngestorConfig} {v : Visit} {content content' : FeedContent}
    {page page' : FeedPage} (h : c.Serves v content page) (h' : c.Serves v content' page') :
    content' = content ∧ page' = page := by
  obtain ⟨hside, hpage⟩ := h
  obtain ⟨hside', hpage'⟩ := h'
  cases hside.symm.trans hside'
  cases hpage.symm.trans hpage'
  exact ⟨rfl, rfl⟩

/-- Every announcement of the universe on a page, of those with a text, is recorded. -/
def Recorded (c : IngestorConfig) (w : FeedWorld) (page : FeedPage) : Prop :=
  ∀ item ∈ page.items, ∀ id, c.idOf item = some id → item.text ≠ "" → id ∈ idsOf w.received

/-- Pages with the same validators are the same page. -/
def Unchanged (c : IngestorConfig) (visits : List Visit) : Prop :=
  ∀ v ∈ visits, ∀ v' ∈ visits, ∀ content page content' page', c.Serves v content page →
    c.Serves v' content' page' → content.validators = content'.validators →
    content.validators ≠ noValidators → page = page'

/-- No announcement without a text has the id of one with a text. -/
def NoClash (c : IngestorConfig) (visits : List Visit) : Prop :=
  ∀ v ∈ visits, ∀ v' ∈ visits, ∀ content page content' page', c.Serves v content page →
    c.Serves v' content' page' → ∀ item ∈ page.items, ∀ item' ∈ page'.items, ∀ id,
    c.idOf item = some id → c.idOf item' = some id → item.text = "" → item'.text = ""

/-- A page with validators that a poll cannot finish has nothing left to record: not where the
poll is stopped before its items, and not after an unseen item without a text. -/
def Finishes (c : IngestorConfig) (raises : Sink) (w : FeedWorld) (v : Visit) : Prop :=
  ∀ content page, c.Serves v content page → content.validators = noValidators ∨
    ((RaisesEarly raises w page → c.Recorded w page) ∧
      ∀ before item after id, inOrder page = before ++ item :: after → c.idOf item = some id →
        item.text = "" → id ∉ w.ingestor.seen →
        ∀ later ∈ after, ∀ id', c.idOf later = some id' → later.text ≠ "" →
          id' ∈ idsOf w.received)

/-! ## Once -/

/-- Everything recorded is seen, and recorded once. -/
structure Once (w : FeedWorld) : Prop where
  nodup : (idsOf w.received).Nodup
  seen : ∀ id ∈ idsOf w.received, id ∈ w.ingestor.seen

section once

variable {c : IngestorConfig} {raises : Sink} {w w' : FeedWorld} {v : Visit}

theorem Once.alike (h : Once w) (hlike : Alike w w') : Once w' := by
  constructor
  · rw [hlike.received]
    exact h.nodup
  · rw [hlike.received, hlike.seen]
    exact h.seen

theorem idsOf_took (w : FeedWorld) (news : List AnnouncementReceived) (emits : ℕ) :
    idsOf (w.took news emits).received = idsOf w.received ++ idsOf news := by
  rw [FeedWorld.took_received, idsOf, List.map_append]
  rfl

/-- What is new is recorded once more, and seen. -/
theorem Once.took {items : List FeedItem} {news : List AnnouncementReceived} (h : Once w)
    (hnews : c.News items w news) (emits : ℕ) : Once (w.took news emits) := by
  have hids := idsOf_took w news emits
  constructor
  · rw [hids, List.nodup_append]
    refine ⟨h.nodup, hnews.nodup, ?_⟩
    rintro a ha b hb rfl
    exact hnews.fresh a hb (h.seen a ha)
  · intro id hid
    rw [hids, List.mem_append] at hid
    simp only [FeedWorld.took_seen, List.mem_append, List.mem_reverse]
    rcases hid with hid | hid
    · exact .inr (h.seen id hid)
    · exact .inl hid

theorem Once.see (h : Once w) (id : String) : Once (w.see id) :=
  ⟨h.nodup, fun id' hid => List.mem_cons_of_mem _ (h.seen id' hid)⟩

/-- A poll records nothing twice, whatever it raises. -/
theorem Once.visit (h : Once w) (c : IngestorConfig) (raises : Sink) (v : Visit) :
    Once (c.visit raises w v) := by
  unfold IngestorConfig.visit
  rcases poll_cases c raises v.now v.force v.side.server w with ⟨hquiet, -⟩ |
    ⟨-, content, page, -, hread⟩
  · exact h.alike hquiet.alike
  · have hfetching : Once (w.withIngestor { w.ingestor with lastFetch := some v.now }) :=
      ⟨h.nodup, h.seen⟩
    rw [hread]
    rcases read_cases c raises v.now content.validators page
      (w.withIngestor { w.ingestor with lastFetch := some v.now }) with
      ⟨e, w', herror, hlike, -⟩ | ⟨w₁, news, emits, hseen, hreceived, -, -, -, hnews, hrest⟩
    · rw [herror]
      exact hfetching.alike hlike
    · have hbefore : Once w₁ := by
        constructor
        · rw [hreceived]
          exact h.nodup
        · rw [hreceived, hseen]
          exact h.seen
      rcases hrest with ⟨hok, -⟩ | ⟨e, before, item, after, id, -, -, -, -, -, herror, -⟩
      · rw [hok]
        have htook := hbefore.took hnews emits
        exact ⟨htook.nodup, htook.seen⟩
      · rw [herror]
        exact (hbefore.took hnews emits).see id

theorem Once.run (h : Once w) (c : IngestorConfig) (raises : Sink) (visits : List Visit) :
    Once (c.run raises w visits) := by
  induction visits generalizing w with
  | nil => exact h
  | cons v rest ih => exact ih (h.visit c raises v)

theorem received_start (stored : List AnnouncementReceived) (minInterval : ℤ) :
    (FeedWorld.start stored minInterval).received = stored := by
  show (stored.map FeedEvent.received).filterMap FeedEvent.announcement = stored
  induction stored with
  | nil => rfl
  | cons a rest ih => exact congrArg (List.cons a) ih

theorem Once.start {stored : List AnnouncementReceived} (h : (idsOf stored).Nodup)
    (minInterval : ℤ) : Once (.start stored minInterval) := by
  constructor
  · rw [received_start]
    exact h
  · intro id hid
    rw [received_start] at hid
    exact hid

end once

/-! ## Never lost -/

/-- What is seen is recorded, or has no text; and the page whose validators are held is recorded. -/
structure Complete (c : IngestorConfig) (visits : List Visit) (w : FeedWorld) : Prop where
  seen : ∀ id ∈ w.ingestor.seen, id ∈ idsOf w.received ∨
    ∃ v ∈ visits, ∃ content page, c.Serves v content page ∧
      ∃ item ∈ page.items, c.idOf item = some id ∧ item.text = ""
  validators : w.ingestor.validators ≠ noValidators →
    ∃ v ∈ visits, ∃ content page, c.Serves v content page ∧
      content.validators = w.ingestor.validators ∧ c.Recorded w page

section complete

variable {c : IngestorConfig} {raises : Sink} {visits : List Visit} {w w' : FeedWorld} {v : Visit}
  {content : FeedContent} {page : FeedPage}

theorem mem_inOrder {item : FeedItem} : item ∈ inOrder page ↔ item ∈ page.items :=
  List.mem_insertionSort _

theorem Recorded.mono (h : c.Recorded w page)
    (hmono : ∀ id ∈ idsOf w.received, id ∈ idsOf w'.received) : c.Recorded w' page :=
  fun item hitem id hid htext => hmono id (h item hitem id hid htext)

theorem Complete.start (c : IngestorConfig) (visits : List Visit)
    (stored : List AnnouncementReceived) (minInterval : ℤ) :
    c.Complete visits (.start stored minInterval) where
  seen := by
    intro id hid
    rw [received_start]
    exact .inl hid
  validators := fun h => absurd rfl h

/-- Only a page that is up is fetched. -/
theorem Fetches.serves (h : c.Fetches v.side.server w content page) : c.Serves v content page := by
  obtain ⟨hreply, hpage⟩ := h
  cases hside : v.side with
  | unreachable name =>
    rw [hside] at hreply
    cases hreply
  | refusing status content' hstatus =>
    rw [hside] at hreply
    cases hreply
    exact absurd rfl hstatus.1
  | up content' =>
    rw [hside, FeedSide.server] at hreply
    split at hreply
    · cases hreply
    · cases hreply
      exact ⟨hside, hpage⟩

/-- A page that is up and not fetched is the one whose validators are held. -/
theorem Serves.held (h : c.Serves v content page)
    (hnot : ¬c.Fetches v.side.server w content page) :
    w.ingestor.validators ≠ noValidators ∧ w.ingestor.validators = content.validators := by
  by_contra hheld
  refine hnot ⟨?_, h.2⟩
  rw [h.1, FeedSide.server, if_neg hheld]

/-- A page whose items are all settled is recorded, besides what has no text. -/
theorem Complete.recorded (h : c.Complete visits w) (hclash : c.NoClash visits) (hv : v ∈ visits)
    (hserves : c.Serves v content page) {item : FeedItem} (hitem : item ∈ page.items) {id : String}
    (hid : c.idOf item = some id) (htext : item.text ≠ "") (hseen : id ∈ w.ingestor.seen) :
    id ∈ idsOf w.received := by
  rcases h.seen id hseen with
    hreceived | ⟨v', hv', content', page', hserves', item', hitem', hid', hempty⟩
  · exact hreceived
  · exact absurd (hclash v' hv' v hv content' page' content page hserves' hserves item' hitem' item
      hitem id hid' hid hempty) htext

/-- Where nothing is recorded and the validators stay, all is as it was. -/
theorem Complete.alike (h : c.Complete visits w) (hlike : Alike w w')
    (hvalidators : w'.ingestor.validators = w.ingestor.validators) : c.Complete visits w' := by
  constructor
  · rw [hlike.seen, hlike.received]
    exact h.seen
  · intro hheld
    rw [hvalidators] at hheld ⊢
    obtain ⟨v', hv', content, page, hserves, hsame, hrecorded⟩ := h.validators hheld
    exact ⟨v', hv', content, page, hserves, hsame,
      hrecorded.mono (by rw [hlike.received]; simp)⟩

/-- The page of a feed that is up and is not fetched is recorded. -/
theorem Complete.unread (h : c.Complete visits w) (hunchanged : c.Unchanged visits)
    (hv : v ∈ visits) (hserves : c.Serves v content page)
    (hnot : ¬c.Fetches v.side.server w content page) : c.Recorded w page := by
  obtain ⟨hheld, hsame⟩ := hserves.held hnot
  obtain ⟨v', hv', content', page', hserves', hsame', hrecorded⟩ := h.validators hheld
  obtain rfl : page' = page := hunchanged v' hv' v hv content' page' content page hserves' hserves
    (hsame'.trans hsame) (hsame' ▸ hheld)
  exact hrecorded

section items

variable {w₁ : FeedWorld} {news : List AnnouncementReceived} {emits : ℕ}

/-- After items are taken, what is seen is recorded, or has no text. -/
theorem Complete.seen_took (h : c.Complete visits w) (news : List AnnouncementReceived)
    (emits : ℕ) (hseen : w₁.ingestor.seen = w.ingestor.seen)
    (hreceived : w₁.received = w.received) :
    ∀ id ∈ (w₁.took news emits).ingestor.seen, id ∈ idsOf (w₁.took news emits).received ∨
      ∃ v ∈ visits, ∃ content page, c.Serves v content page ∧
        ∃ item ∈ page.items, c.idOf item = some id ∧ item.text = "" := by
  intro id hid
  rw [idsOf_took, hreceived, List.mem_append]
  rw [FeedWorld.took_seen, List.mem_append, List.mem_reverse, hseen] at hid
  rcases hid with hnew | hold
  · exact .inl (.inr hnew)
  · exact (h.seen id hold).imp_left .inl

/-- An item with a text that is settled is recorded. -/
theorem Complete.recorded_took (h : c.Complete visits w) (hclash : c.NoClash visits)
    (hv : v ∈ visits) (hserves : c.Serves v content page)
    (hseen : w₁.ingestor.seen = w.ingestor.seen) (hreceived : w₁.received = w.received)
    {items : List FeedItem} (hsettled : c.Settled items w₁ news) {item : FeedItem}
    (hitem : item ∈ items) (hof : item ∈ page.items) {id : String} (hid : c.idOf item = some id)
    (htext : item.text ≠ "") : id ∈ idsOf (w₁.took news emits).received := by
  rw [idsOf_took, hreceived, List.mem_append]
  rcases hsettled item hitem id hid with hnew | hold
  · exact .inr hnew
  · rw [hseen] at hold
    exact .inl (h.recorded hclash hv hserves hof hid htext hold)

end items

/-- **One poll.** -/
theorem Complete.visit (h : c.Complete visits w) (hsink : ∀ n a, raises n (.received a) = false)
    (hunchanged : c.Unchanged visits) (hclash : c.NoClash visits) (hv : v ∈ visits)
    (hfinishes : c.Finishes raises w v) :
    c.Complete visits (c.visit raises w v) ∧
      ∀ content page stats w', c.Serves v content page →
        tooEarly w.ingestor v.now v.force = false →
        c.poll raises v.now v.force v.side.server w = .ok stats w' → c.Recorded w' page := by
  unfold IngestorConfig.visit
  rcases poll_cases c raises v.now v.force v.side.server w with ⟨hquiet, hwhy⟩ |
    ⟨-, content, page, hfetches, hread⟩
  · -- nothing is read: the feed is down, or unchanged
    refine ⟨h.alike hquiet.alike hquiet.validators, ?_⟩
    intro content page stats w' hserves hnow hok
    have hnot : ¬c.Fetches v.side.server w content page := by
      rcases hwhy with hearly | hnone
      · rw [hearly] at hnow
        cases hnow
      · exact hnone content page
    have hw' : (c.poll raises v.now v.force v.side.server w).state = w' := by
      rw [hok]
      rfl
    refine (h.unread hunchanged hv hserves hnot).mono ?_
    rw [← hw', hquiet.alike.received]
    simp
  · have hserves := hfetches.serves
    rw [hread]
    rcases read_cases c raises v.now content.validators page
      (w.withIngestor { w.ingestor with lastFetch := some v.now }) with
      ⟨e, w', herror, hlike, hvalidators, hearly⟩ |
      ⟨w₁, news, emits, hseen, hreceived, -, hvalidators, -, hnews, hrest⟩
    · -- the poll is stopped before the items, which were recorded or come again
      have hreceived : w'.received = w.received := hlike.received
      have hseen : w'.ingestor.seen = w.ingestor.seen := hlike.seen
      rw [herror]
      refine ⟨⟨?_, fun hheld => ?_⟩, fun _ _ _ _ _ _ hok => by cases hok⟩
      · show ∀ id ∈ w'.ingestor.seen, id ∈ idsOf w'.received ∨ _
        rw [hseen, hreceived]
        exact h.seen
      · change w'.ingestor.validators ≠ noValidators at hheld
        rw [hvalidators] at hheld
        refine ⟨v, hv, content, page, hserves, hvalidators.symm, ?_⟩
        rcases hfinishes content page hserves with hnone | ⟨hrecorded, -⟩
        · exact absurd hnone hheld
        · exact (hrecorded hearly).mono (by simp [hreceived])
    · have hkept := h.seen_took news emits hseen hreceived
      have hsettle : ∀ items, c.Settled items w₁ news → ∀ item ∈ items, item ∈ page.items →
          ∀ id, c.idOf item = some id → item.text ≠ "" →
          id ∈ idsOf (w₁.took news emits).received := fun items hsettled item hitem hof id =>
        h.recorded_took hclash hv hserves hseen hreceived hsettled hitem hof
      rcases hrest with ⟨hok, hsettled⟩ |
        ⟨e, before, item, after, id, hitems, hid, -, hunseen, hsettled, herror, hcause⟩
      · have hrecorded : c.Recorded (w₁.took news emits) page := fun item hitem =>
          hsettle _ hsettled item (mem_inOrder.mpr hitem) hitem
        rw [hok]
        refine ⟨⟨hkept, fun _ => ⟨v, hv, content, page, hserves, hvalidators.symm, hrecorded⟩⟩, ?_⟩
        intro content' page' stats w' hserves' _ hresult
        cases hresult
        obtain ⟨hside, hparsed⟩ := hserves
        rw [hserves'.1] at hside
        cases hside
        rw [hserves'.2] at hparsed
        cases hparsed
        exact hrecorded
      · -- only an item without a text stops the rest
        have htext : item.text = "" := by
          rcases hcause with htext | ⟨n, a, hraises⟩
          · exact htext
          · rw [hsink] at hraises
            cases hraises
        have hitem : item ∈ page.items := by
          rw [← mem_inOrder, hitems]
          simp
        rw [herror]
        refine ⟨⟨?_, fun hheld => ⟨v, hv, content, page, hserves, hvalidators.symm, ?_⟩⟩,
          fun _ _ _ _ _ _ hresult => by cases hresult⟩
        · intro id' hid'
          rcases List.mem_cons.mp hid' with rfl | hid'
          · exact .inr ⟨v, hv, content, page, hserves, item, hitem, hid, htext⟩
          · exact hkept id' hid'
        · change (w₁.took news emits).ingestor.validators ≠ noValidators at hheld
          rcases hfinishes content page hserves with hnone | ⟨-, hlater⟩
          · exact absurd (hvalidators.trans hnone) hheld
          · intro item' hitem' id' hid' htext'
            have hmem := hitem'
            rw [← mem_inOrder, hitems, List.mem_append, List.mem_cons] at hmem
            rcases hmem with hbefore | rfl | hafter
            · exact hsettle _ hsettled item' hbefore hitem' id' hid' htext'
            · exact absurd htext htext'
            · have hold := hlater before item after id hitems hid htext hunseen item' hafter id'
                hid' htext'
              show id' ∈ idsOf (w₁.took news emits).received
              rw [idsOf_took, hreceived]
              exact List.mem_append_left _ hold

theorem run_append (c : IngestorConfig) (raises : Sink) (w : FeedWorld) (visits : List Visit)
    (v : Visit) : c.run raises w (visits ++ [v]) = c.visit raises (c.run raises w visits) v :=
  List.foldl_concat _ _ _ _

/-- Up to any poll of a run whose polls finish. -/
theorem Complete.run (stored : List AnnouncementReceived) (minInterval : ℤ)
    (hsink : ∀ n a, raises n (.received a) = false) (hunchanged : c.Unchanged visits)
    (hclash : c.NoClash visits)
    (hfinishes : ∀ before v after, visits = before ++ v :: after →
      c.Finishes raises (c.run raises (.start stored minInterval) before) v)
    {before after : List Visit} (hsplit : visits = before ++ after) :
    c.Complete visits (c.run raises (.start stored minInterval) before) := by
  induction before using List.reverseRecOn generalizing after with
  | nil => exact .start c visits stored minInterval
  | append_singleton before v ih =>
    rw [List.append_assoc, List.singleton_append] at hsplit
    rw [run_append]
    exact ((ih hsplit).visit hsink hunchanged hclash (by simp [hsplit])
      (hfinishes before v after hsplit)).1

/-- **Announcements are recorded once, and none is lost where every poll finishes its page.** The
ids are recorded at most once in any run; a poll that does not raise leaves every announcement of
its page recorded, if the sink takes the announcements and no poll leaves a page with validators
before it has recorded what was left of it. -/
theorem announcements_recorded (c : IngestorConfig) (raises : Sink)
    {stored : List AnnouncementReceived} (hstored : (idsOf stored).Nodup) (minInterval : ℤ)
    (visits : List Visit) :
    (idsOf (c.run raises (.start stored minInterval) visits).received).Nodup ∧
      ((∀ n a, raises n (.received a) = false) → c.Unchanged visits → c.NoClash visits →
        (∀ before v after, visits = before ++ v :: after →
          c.Finishes raises (c.run raises (.start stored minInterval) before) v) →
        ∀ before v after, visits = before ++ v :: after →
          ∀ content page stats w', c.Serves v content page →
          tooEarly (c.run raises (.start stored minInterval) before).ingestor v.now v.force = false →
          c.poll raises v.now v.force v.side.server
            (c.run raises (.start stored minInterval) before) = .ok stats w' →
          c.Recorded w' page) := by
  constructor
  · exact ((Once.start hstored minInterval).run c raises visits).nodup
  · intro hsink hunchanged hclash hfinishes before v after hsplit
    have hbefore := Complete.run stored minInterval hsink hunchanged hclash hfinishes hsplit
    exact (hbefore.visit hsink hunchanged hclash (by simp [hsplit])
      (hfinishes before v after hsplit)).2

end complete

end IngestorConfig

/-! ## A page with an item without a text -/

namespace BoardMeeting

def strptime (text fmt : String) : Option (ℤ × Option ℤ) :=
  if fmt = "%d-%b-%Y %H:%M:%S" then
    if text = "05-Oct-2026 09:30:00" then some (1791192600000000, none)
    else if text = "05-Oct-2026 09:30:01" then some (1791192601000000, none)
    else none
  else none

def isoformat (t : Instant) (_ : ℤ) : String :=
  if t = 1791172800000000 then "2026-10-05T09:30:00+05:30" else "2026-10-05T09:30:01+05:30"

def sha256 (text : String) : String :=
  if text = "NSE:EQ:INFY|2026-10-05T09:30:00+05:30|" then
    "5f9e0caf6d13822badf0a5b66165e6da037442cda788bf2bda28d6436e921c72"
  else "bf5c00fbec8763378f60d4a85422593f72f2c11dc9d9733a87b8cc96ca1cc617"

theorem sha256_ne (text : String) : (sha256 text).toList.take 24 ≠ [] := by
  unfold sha256
  split <;> decide

def text : FeedText :=
  { unicode := .ascii, lower := fun s => String.ofList (s.toList.map Char.toLower), strptime
    isoformat, sha256, sha256_ne }

theorem tick_pos : (0 : ℚ) < 1 / 20 := by norm_num

theorem lot_pos : (0 : ℤ) < 1 := by decide

theorem no_band (b : ℚ) (h : b ∈ (none : Option ℚ)) : 0 < b := absurd h (Option.not_mem_none b)

def infosys : NamedInstrument :=
  { exchange := "NSE", series := "EQ", symbol := "INFY", sector := none, tickSize := 1 / 20
    lotSize := 1, misAllowed := true, bandPct := none, tickSize_pos := tick_pos
    lotSize_pos := lot_pos, bandPct_pos := no_band, name := some "Infosys Ltd." }

def config : IngestorConfig := { text, byName := companies text [infosys] }

def node (pubDate description : String) : FeedNode :=
  { title := some "Infosys Limited", pubDate := some pubDate, description := some description
    link := none }

def meeting : FeedNode :=
  node "05-Oct-2026 09:30:01" "Board meeting on results |SUBJECT: Board Meeting Intimation"

/-- It comes earlier, and has a subject alone. -/
def untitled : FeedNode := node "05-Oct-2026 09:30:00" "|SUBJECT: Updates"

def content (nodes : List FeedNode) : FeedContent :=
  { etag := some "2f1c", lastModified := none, body := .channel nodes (some "5") }

def page (nodes : List FeedNode) : FeedPage :=
  { items := nodes.filterMap text.feedItem, ttlS := text.ttlSeconds (some "5") }

def visit (nodes : List FeedNode) : Visit :=
  { now := 1791173400000000, force := true, side := .up (content nodes) }

/-- A sink that never raises. -/
def sink : Sink := fun _ _ => false

def start : FeedWorld := .start [] 300000000

theorem serves (nodes : List FeedNode) : config.Serves (visit nodes) (content nodes) (page nodes) :=
  ⟨rfl, rfl⟩

section unchanging

variable {v₀ v : Visit} {content content' : FeedContent} {page page' : FeedPage}
  {visits : List Visit}

/-- The feed has one page. -/
theorem of_serves (hserves : config.Serves v₀ content page) (hvisits : ∀ v ∈ visits, v = v₀)
    (hv : v ∈ visits) (h : config.Serves v content' page') : content' = content ∧ page' = page := by
  rw [hvisits v hv] at h
  exact hserves.unique h

theorem unchanged (hserves : config.Serves v₀ content page) (hvisits : ∀ v ∈ visits, v = v₀) :
    config.Unchanged visits := by
  intro v hv v' hv' content page content' page' h h' _ _
  rw [(of_serves hserves hvisits hv h).2, (of_serves hserves hvisits hv' h').2]

theorem noClash (hserves : config.Serves v₀ content page) (hvisits : ∀ v ∈ visits, v = v₀)
    (hpage : ∀ item ∈ page.items, ∀ item' ∈ page.items,
      config.idOf item = config.idOf item' → item.text = "" → item'.text = "") :
    config.NoClash visits := by
  intro v hv v' hv' content page content' page' h h' item hitem item' hitem' id hid hid'
  rw [(of_serves hserves hvisits hv h).2] at hitem
  rw [(of_serves hserves hvisits hv' h').2] at hitem'
  exact hpage item hitem item' hitem' (hid.trans hid'.symm)

end unchanging

/-- The item without a text is published first. -/
def nodes : List FeedNode := [meeting, untitled]

theorem nodes_clash : ∀ item ∈ (page nodes).items, ∀ item' ∈ (page nodes).items,
    config.idOf item = config.idOf item' → item.text = "" → item'.text = "" := by
  decide +kernel

/-- What two polls of the page leave. -/
def twice : FeedWorld := config.run sink start [visit nodes, visit nodes]

/-- The second of them. -/
def again : EStateM.Result PollExc FeedWorld PollStats :=
  config.poll sink 1791173400000000 true (visit nodes).side.server
    (config.run sink start [visit nodes])

/-- The page without its validator. -/
def bare : FeedContent := { content nodes with etag := none }

def bareVisit : Visit := { visit nodes with side := .up bare }

theorem bare_serves : config.Serves bareVisit bare (page nodes) := ⟨rfl, rfl⟩

end BoardMeeting

open BoardMeeting in
/-- The first poll of a page without a validator raises at the item without a text and records
nothing, the second records what was left. -/
theorem IngestorConfig.announcements_recorded_meeting :
    (config.poll sink 1791173400000000 true bareVisit.side.server start).raised ≠ none ∧
    idsOf (config.run sink start [bareVisit]).received = [] ∧
    config.Recorded (config.run sink start [bareVisit, bareVisit]) (page nodes) := by
  have hfirst : (config.poll sink 1791173400000000 true bareVisit.side.server
      start).raised.isSome = true ∧ idsOf (config.run sink start [bareVisit]).received = [] := by
    decide +kernel
  refine ⟨Option.isSome_iff_ne_none.mp hfirst.1, hfirst.2, ?_⟩
  have hvisits : ∀ v ∈ [bareVisit, bareVisit], v = bareVisit := by simp
  have hstored : (idsOf ([] : List AnnouncementReceived)).Nodup := List.nodup_nil
  have hrun := (announcements_recorded config sink hstored 300000000 [bareVisit, bareVisit]).2
    (fun _ _ => rfl) (unchanged bare_serves hvisits) (noClash bare_serves hvisits nodes_clash)
  have hfinishes : ∀ before v after, [bareVisit, bareVisit] = before ++ v :: after →
      config.Finishes sink (config.run sink start before) v := by
    intro before v after hsplit content page hserves
    have hv : v ∈ [bareVisit, bareVisit] := by simp [hsplit]
    rw [(of_serves bare_serves hvisits hv hserves).1]
    exact .inl rfl
  have hsecond := hrun hfinishes [bareVisit] bareVisit [] rfl bare (page nodes)
  cases hpoll : config.poll sink 1791173400000000 true bareVisit.side.server
    (config.run sink start [bareVisit]) with
  | error e w' =>
    have hraised : (config.poll sink 1791173400000000 true bareVisit.side.server
        (config.run sink start [bareVisit])).raised = none := by
      decide +kernel
    rw [hpoll] at hraised
    cases hraised
  | ok stats w' =>
    have hstate : config.run sink start [bareVisit, bareVisit] = w' := by
      show (config.poll sink 1791173400000000 true bareVisit.side.server
        (config.run sink start [bareVisit])).state = w'
      rw [hpoll]
      rfl
    rw [hstate]
    exact hsecond stats w' bare_serves rfl hpoll

/-- An item without a text ends a poll, the page is unchanged the next time, and the announcement
after it is never recorded. -/
theorem announcement_lost :
    ¬∀ (c : IngestorConfig) (raises : Sink) (minInterval : ℤ) (visits : List Visit),
      c.Unchanged visits → c.NoClash visits →
      ∀ before v after, visits = before ++ v :: after →
        ∀ content page stats w', c.Serves v content page →
        IngestorConfig.tooEarly (c.run raises (.start [] minInterval) before).ingestor v.now
          v.force = false →
        c.poll raises v.now v.force v.side.server
          (c.run raises (.start [] minInterval) before) = .ok stats w' →
        c.Recorded w' page := by
  intro h
  have hvisits : ∀ v ∈ [BoardMeeting.visit BoardMeeting.nodes, BoardMeeting.visit BoardMeeting.nodes],
      v = BoardMeeting.visit BoardMeeting.nodes := by
    simp
  have hserves := BoardMeeting.serves BoardMeeting.nodes
  have hlost := h BoardMeeting.config BoardMeeting.sink 300000000 _
    (BoardMeeting.unchanged hserves hvisits)
    (BoardMeeting.noClash hserves hvisits BoardMeeting.nodes_clash)
    [BoardMeeting.visit BoardMeeting.nodes] _ [] rfl (BoardMeeting.content BoardMeeting.nodes)
    (BoardMeeting.page BoardMeeting.nodes)
  have hpolled : BoardMeeting.again.raised = none ∧ idsOf BoardMeeting.twice.received = [] := by
    decide +kernel
  cases hpoll : BoardMeeting.again with
  | error e w' =>
    rw [hpoll] at hpolled
    cases hpolled.1
  | ok stats w' =>
    have hrecorded := hlost stats w' (BoardMeeting.serves _) rfl hpoll
    have hstate : BoardMeeting.twice = w' := by
      show BoardMeeting.again.state = w'
      rw [hpoll]
      rfl
    have hnone : idsOf w'.received = [] := hstate ▸ hpolled.2
    obtain ⟨item, hitem, hid, htext⟩ : ∃ item ∈ (BoardMeeting.page BoardMeeting.nodes).items,
        (BoardMeeting.config.idOf item).isSome ∧ item.text ≠ "" := by
      decide +kernel
    obtain ⟨id, hid⟩ := Option.isSome_iff_exists.mp hid
    have hmem := hrecorded item hitem id hid htext
    rw [hnone] at hmem
    cases hmem

end RakshaQuant
