import RakshaQuant.Domain.Types
import RakshaQuant.Llm.Durations

/-! The announcement feed as a document: its items with their texts, and the page read from it.
Malformed items are skipped, and what is no feed at all is an error. -/

namespace RakshaQuant

/-- What the program knows of texts and times from its language and its standard library.
`strptime` gives a wall clock in microseconds and the offset from UTC, if the text has one. -/
structure FeedText where
  unicode : Unicode
  lower : String → String
  strptime : String → String → Option (ℤ × Option ℤ)
  isoformat : Instant → ℤ → String
  sha256 : String → String
  sha256_ne : ∀ text, (sha256 text).toList.take 24 ≠ []

/-- `datetime`: an instant, read at an offset from UTC. -/
structure PublishedAt where
  instant : Instant
  offset : ℤ
deriving DecidableEq

def istOffset : ℤ := 19800000000

namespace FeedText

variable (t : FeedText)

def strip (text : String) : String := String.ofList (t.unicode.strip text.toList)

/-- `split`, with the word read so far. -/
def wordsFrom : List Char → List Char → List (List Char)
  | word, [] => if word = [] then [] else [word]
  | word, c :: rest =>
    if t.unicode.isSpace c then
      if word = [] then wordsFrom [] rest else word :: wordsFrom [] rest
    else wordsFrom (word ++ [c]) rest

def words (text : String) : List String := (t.wordsFrom [] text.toList).map String.ofList

/-- `" ".join(text.split())`. -/
def squeeze (text : String) : String := " ".intercalate (t.words text)

/-- What stands before and after a separator; everything and nothing without one. -/
def partitionAt (sep : List Char) : List Char → List Char × List Char
  | [] => ([], [])
  | c :: rest =>
    if sep.isPrefixOf (c :: rest) then ([], (c :: rest).drop sep.length)
    else
      let later := partitionAt sep rest
      (c :: later.1, later.2)

/-! ## Names -/

def suffixes : List String := ["limited", "ltd", "the"]

/-- `normalise_name`. Every character that no name keeps becomes a space. -/
def normaliseName (name : String) : String :=
  let text := (t.lower name).toList.flatMap fun c => if c = '&' then " and ".toList else [c]
  let kept := text.map fun c =>
    if 'a' ≤ c ∧ c ≤ 'z' ∨ '0' ≤ c ∧ c ≤ '9' ∨ c = ' ' then c else ' '
  " ".intercalate ((t.words (String.ofList kept)).filter (· ∉ suffixes))

/-! ## Items -/

/-- `_parse_ts`: a time without a zone is of India. -/
def parseTs (text : String) : Option PublishedAt :=
  let text := t.strip text
  let read (fmt : String) : Option PublishedAt :=
    (t.strptime text fmt).map fun wall =>
      let offset := wall.2.getD istOffset
      { instant := wall.1 - offset, offset }
  (read "%d-%b-%Y %H:%M:%S").orElse fun _ => read "%a, %d %b %Y %H:%M:%S %z"

end FeedText

/-- The texts of an item in the document. -/
structure FeedNode where
  title : Option String
  pubDate : Option String
  description : Option String
  link : Option String

structure FeedItem where
  company : String
  publishedAt : PublishedAt
  text : String
  subject : String
  url : Option String
  company_ne : company ≠ ""

/-- A page of the feed; `ttlS` is the pace it asks for, in seconds. -/
structure FeedPage where
  items : List FeedItem
  ttlS : Option Seconds

/-- The body of a reply: no XML, XML without a channel, or a channel. -/
inductive FeedBody
  | notXml (error : String)
  | noChannel
  | channel (nodes : List FeedNode) (ttl : Option String)

def Seconds.ofMinutes : Seconds → Seconds
  | .finite minutes => .finite (minutes * 60)
  | s => s

namespace FeedText

variable (t : FeedText)

/-- An item, unless it is malformed. -/
def feedItem (node : FeedNode) : Option FeedItem :=
  let company := t.strip (node.title.getD "")
  let description := t.strip (node.description.getD "")
  match t.parseTs (node.pubDate.getD "") with
  | none => none
  | some publishedAt =>
    if h : company ≠ "" then
      if description = "" then none
      else
        let parts := partitionAt "|SUBJECT:".toList description.toList
        let link := t.strip (node.link.getD "")
        some { company, publishedAt, text := t.squeeze (String.ofList parts.1)
               subject := t.strip (String.ofList parts.2)
               url := if link = "" then none else some link, company_ne := h }
    else none

/-- `float(ttl) * 60`. -/
def ttlSeconds (ttl : Option String) : Option Seconds :=
  (ttl.filter (· ≠ "")).bind fun text => (t.unicode.float text.toList).map Seconds.ofMinutes

/-- `parse_feed`. -/
def parseFeed : FeedBody → Except String FeedPage
  | .notXml error => .error ("announcement feed is not XML: " ++ error)
  | .noChannel => .error "announcement feed has no <channel>"
  | .channel nodes ttl => .ok { items := nodes.filterMap t.feedItem, ttlS := t.ttlSeconds ttl }

end FeedText

namespace FeedPage

/-- The latest time of a page. -/
def newest (p : FeedPage) : Option Instant := (p.items.map (·.publishedAt.instant)).max?

def oldest (p : FeedPage) : Option Instant := (p.items.map (·.publishedAt.instant)).min?

end FeedPage

end RakshaQuant
