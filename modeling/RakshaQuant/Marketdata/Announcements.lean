import Mathlib.Data.List.Sort
import RakshaQuant.Domain.Events
import RakshaQuant.Lib.Decimal
import RakshaQuant.Lib.Dict
import RakshaQuant.Lib.Effect
import RakshaQuant.Marketdata.FeedText

/-! Announcement ingestion. A poll fetches the feed under the validators of the last page, reports
a gap in the coverage, and records each announcement of the universe that it has not seen. What
the sink raises ends a poll where it stands. -/

namespace RakshaQuant

structure NamedInstrument extends Instrument where
  name : Option String

theorem NamedInstrument.key_ne (i : NamedInstrument) : i.key ≠ "" := by
  intro h
  have hlength := congrArg String.length h
  simp [Instrument.key] at hlength

/-! ## Events -/

structure AnnouncementReceived where
  announcementId : String
  instrumentKey : String
  company : String
  publishedAt : PublishedAt
  receivedAt : Instant
  title : String
  subject : String
  url : Option String
  source : String
  announcementId_ne : announcementId ≠ ""
  instrumentKey_ne : instrumentKey ≠ ""
  company_ne : company ≠ ""
  title_ne : title ≠ ""
  source_ne : source ≠ ""

structure AnnouncementCoverageGap where
  source : String
  gapFrom : Instant
  gapTo : Instant
  reason : String

/-- What an ingestor emits. -/
inductive FeedEvent
  | received (a : AnnouncementReceived)
  | gap (g : AnnouncementCoverageGap)
  | alert (a : Alert)

def feedSource : String := "nse_rss"

theorem feedSource_ne : feedSource ≠ "" := by decide

/-! ## The ingestor -/

/-- `CompanyMatcher`: the instruments of the universe by normalised name. -/
def companies (t : FeedText) (instruments : List NamedInstrument) : Dict String NamedInstrument :=
  instruments.foldl (fun byName i =>
    [i.name.getD "", i.symbol].foldl (fun byName name =>
      if name = "" then byName else byName.setdefault (t.normaliseName name) i) byName) .empty

/-- What an ingestor is built with. -/
structure IngestorConfig where
  text : FeedText
  byName : Dict String NamedInstrument

structure Validators where
  etag : Option String
  lastModified : Option String
deriving DecidableEq

structure Ingestor where
  seen : List String
  validators : Validators
  lastNewest : Option Instant
  lastFetch : Option Instant
  failingSince : Option Instant
  /-- In microseconds. -/
  minInterval : ℤ

/-- The ingestor, what was recorded, and how often the sink was called. -/
structure FeedWorld where
  ingestor : Ingestor
  recorded : List FeedEvent
  emits : ℕ

/-- What ends a poll: the sink, an event that cannot be built, or a pace that no `timedelta` is. -/
inductive PollExc
  | sink
  | validation
  | overflow
deriving DecidableEq

structure PollStats where
  ok : Bool
  fetched : ℕ
  new : List AnnouncementReceived
  notModified : Bool
  error : Option String

/-- The headers and the body of a reply. -/
structure FeedContent where
  etag : Option String
  lastModified : Option String
  body : FeedBody

inductive FeedReply
  | httpError (name : String)
  | response (status : ℕ) (content : FeedContent)

def noValidators : Validators := { etag := none, lastModified := none }

/-- The validators a page comes with; an empty header is none. -/
def FeedContent.validators (content : FeedContent) : Validators :=
  { etag := content.etag.filter (· ≠ ""), lastModified := content.lastModified.filter (· ≠ "") }

namespace IngestorConfig

def «match» (c : IngestorConfig) (company : String) : Option NamedInstrument :=
  c.byName.get? (c.text.normaliseName company)

/-- `announcement_id`. -/
def announcementId (c : IngestorConfig) (instrumentKey : String) (publishedAt : PublishedAt)
    (title : String) : String :=
  String.ofList ((c.text.sha256 (instrumentKey ++ "|" ++
    c.text.isoformat publishedAt.instant publishedAt.offset ++ "|" ++
      c.text.lower (c.text.squeeze title))).toList.take 24)

/-- The id of an item of the universe. -/
def idOf (c : IngestorConfig) (item : FeedItem) : Option String :=
  (c.match item.company).map fun i => c.announcementId i.key item.publishedAt item.text

theorem announcementId_ne (c : IngestorConfig) (key : String) (publishedAt : PublishedAt)
    (title : String) : c.announcementId key publishedAt title ≠ "" := by
  intro h
  have hlist := congrArg String.toList h
  rw [announcementId, String.toList_ofList] at hlist
  exact c.text.sha256_ne _ hlist

/-- The text of an event is cut, and no text is made empty by that. -/
def cut (n : ℕ) (text : String) : String := String.ofList (text.toList.take n)

theorem cut_ne {n : ℕ} {text : String} (hn : 0 < n) (h : text ≠ "") : cut n text ≠ "" := by
  intro hcut
  have hlist := congrArg String.toList hcut
  rw [cut, String.toList_ofList, String.toList_empty, List.take_eq_nil_iff] at hlist
  rcases hlist with rfl | hnil
  · exact absurd hn (lt_irrefl 0)
  · exact h (String.toList_inj.mp hnil)

theorem title_length_pos : 0 < 2000 := by decide

/-- An item of the universe as an event. Only a text can be missing. -/
def received (c : IngestorConfig) (i : NamedInstrument) (item : FeedItem) (now : Instant) :
    Except PollExc AnnouncementReceived :=
  if h : item.text ≠ "" then
    .ok { announcementId := c.announcementId i.key item.publishedAt item.text
          instrumentKey := i.key, company := item.company, publishedAt := item.publishedAt
          receivedAt := now, title := cut 2000 item.text, subject := cut 200 item.subject
          url := item.url, source := feedSource
          announcementId_ne := c.announcementId_ne i.key item.publishedAt item.text
          instrumentKey_ne := NamedInstrument.key_ne i, company_ne := item.company_ne
          title_ne := cut_ne title_length_pos h, source_ne := feedSource_ne }
  else .error .validation

end IngestorConfig

/-! ## A poll -/

/-- A sink that raises at some calls, with some events. -/
abbrev Sink := ℕ → FeedEvent → Bool

namespace FeedWorld

/-- `emit`: a call that raises records nothing. -/
def emit (raises : Sink) (event : FeedEvent) : EStateM PollExc FeedWorld PUnit := fun w =>
  if raises w.emits event then .error .sink { w with emits := w.emits + 1 }
  else .ok ⟨⟩ { w with recorded := w.recorded ++ [event], emits := w.emits + 1 }

def withIngestor (w : FeedWorld) (i : Ingestor) : FeedWorld := { w with ingestor := i }

def see (w : FeedWorld) (id : String) : FeedWorld :=
  w.withIngestor { w.ingestor with seen := id :: w.ingestor.seen }

end FeedWorld

/-- The longest `timedelta`, in microseconds. -/
def maxInterval : ℤ := 86399999999999999999

/-- The pace a page asks for, if it is slower than this one. -/
def pace (minInterval : ℤ) : Option Seconds → Except PollExc ℤ
  | some (.finite s) =>
    if s ≠ 0 ∧ (minInterval : ℚ) / 1000000 < s then
      if maxInterval < Decimal.roundHalfEven (s * 1000000) then .error .overflow
      else .ok (Decimal.roundHalfEven (s * 1000000))
    else .ok minInterval
  | some (.infinite false) => .error .overflow
  | _ => .ok minInterval

namespace IngestorConfig

/-- `_accept`: record an announcement that was not seen. It is seen before it is recorded. -/
def accept (c : IngestorConfig) (raises : Sink) (now : Instant) (item : FeedItem) :
    EStateM PollExc FeedWorld (Option AnnouncementReceived) :=
  match c.match item.company with
  | none => return none
  | some i => do
    let id := c.announcementId i.key item.publishedAt item.text
    if id ∈ (← get).ingestor.seen then return none
    modify (FeedWorld.see · id)
    let event ← ofExcept (c.received i item now)
    FeedWorld.emit raises (.received event)
    return some event

/-- The items of a page, one by one. -/
def acceptAll (c : IngestorConfig) (raises : Sink) (now : Instant) :
    List FeedItem → EStateM PollExc FeedWorld (List AnnouncementReceived)
  | [] => return []
  | item :: rest => do
    let event ← c.accept raises now item
    let later ← c.acceptAll raises now rest
    return event.toList ++ later

/-- `_check_coverage`: the gap between what was last seen and the oldest item of a page. -/
def gapOf (lastNewest oldest : Option Instant) : Option AnnouncementCoverageGap :=
  lastNewest.bind fun last => oldest.bind fun old =>
    if last < old then
      some { source := feedSource, gapFrom := last, gapTo := old, reason := "feed_window_exceeded" }
    else none

def checkCoverage (raises : Sink) (page : FeedPage) : EStateM PollExc FeedWorld PUnit := do
  match gapOf (← get).ingestor.lastNewest page.oldest with
  | none => return ⟨⟩
  | some g => FeedWorld.emit raises (.gap g)

/-- `_failed`: the first failure of an outage alerts. -/
def failed (raises : Sink) (now : Instant) (error : String) :
    EStateM PollExc FeedWorld PollStats := do
  if (← get).ingestor.failingSince.isNone then
    modify fun w => w.withIngestor { w.ingestor with failingSince := some now }
    FeedWorld.emit raises (.alert { level := "WARNING", key := "announcements_feed_down"
                                    message := "announcement feed unavailable: " ++ error })
  return { ok := false, fetched := 0, new := [], notModified := false, error := some error }

def recovered (w : FeedWorld) : FeedWorld :=
  w.withIngestor { w.ingestor with failingSince := none }

/-- The items in the order they were published. -/
def inOrder (page : FeedPage) : List FeedItem :=
  page.items.insertionSort fun a b => a.publishedAt.instant ≤ b.publishedAt.instant

/-- `max(page.newest, last_newest or page.newest)`, of a page that is not empty. -/
def newer (lastNewest newest : Option Instant) : Option Instant :=
  match newest with
  | none => lastNewest
  | some t => some (max t (lastNewest.getD t))

/-- A page that was fetched. -/
def read (c : IngestorConfig) (raises : Sink) (now : Instant) (validators : Validators)
    (page : FeedPage) : EStateM PollExc FeedWorld PollStats := do
  modify fun w => w.withIngestor { w.ingestor with validators }
  let minInterval ← ofExcept (pace (← get).ingestor.minInterval page.ttlS)
  modify fun w => w.withIngestor { w.ingestor with minInterval }
  checkCoverage raises page
  modify recovered
  let new ← c.acceptAll raises now (inOrder page)
  modify fun w => w.withIngestor
    { w.ingestor with lastNewest := newer w.ingestor.lastNewest page.newest }
  return { ok := true, fetched := page.items.length, new, notModified := false, error := none }

def notModified : PollStats :=
  { ok := true, fetched := 0, new := [], notModified := true, error := none }

/-- Whether a poll is too early to fetch. -/
def tooEarly (i : Ingestor) (now : Instant) (force : Bool) : Bool :=
  ¬force ∧ ∃ t ∈ i.lastFetch, now - t < i.minInterval

/-- `AnnouncementIngestor.poll`, with what the server replies to some validators. -/
def poll (c : IngestorConfig) (raises : Sink) (now : Instant) (force : Bool)
    (server : Validators → FeedReply) : EStateM PollExc FeedWorld PollStats := do
  if tooEarly (← get).ingestor now force then return notModified
  modify fun w => w.withIngestor { w.ingestor with lastFetch := some now }
  match server (← get).ingestor.validators with
  | .httpError name => failed raises now name
  | .response status content =>
    if status = 304 then
      modify recovered
      return notModified
    else if status ≠ 200 then failed raises now ("HTTP " ++ toString status)
    else
      match c.text.parseFeed content.body with
      | .error error => failed raises now error
      | .ok page => c.read raises now content.validators page

end IngestorConfig

/-- `watermark`: the ids and the newest time of stored announcements. -/
def watermark (events : List AnnouncementReceived) : List String × Option Instant :=
  (events.map AnnouncementReceived.announcementId,
    (events.map fun a => a.publishedAt.instant).max?)

/-- An ingestor that starts on what is stored. -/
def Ingestor.start (stored : List AnnouncementReceived) (minInterval : ℤ) : Ingestor :=
  { seen := (watermark stored).1, validators := noValidators, lastNewest := (watermark stored).2
    lastFetch := none, failingSince := none, minInterval }

end RakshaQuant
