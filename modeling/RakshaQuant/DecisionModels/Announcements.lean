import RakshaQuant.DecisionModels.Cascade
import RakshaQuant.Marketdata.Announcements
import RakshaQuant.Risk.Events

/-! The announcement classifier. The exchange's own subject sets the type of an event where it is
unambiguous, and the cascade answers the rest; a question it abstains from stays unknown. -/

namespace RakshaQuant

namespace DecisionModels

/-! ## What is asked -/

theorem announcements_ne : "announcements" ≠ "" := by decide

def announcementsTask : Task :=
  { name := "announcements", decisionId := none, bookId := none, name_ne := announcements_ne }

def eventTypes : Dict String String :=
  .ofList [("results", "the company reports its financial results (quarterly or annual)"),
    ("results_date", "the company announces the date of a board meeting to consider results"),
    ("dividend", "a dividend is declared, recommended or its record date is set"),
    ("split_bonus", "a stock split or bonus issue"),
    ("pledge", "promoter shares are pledged, released or encumbered"),
    ("insider_or_promoter", "insiders or promoters buy or sell shares"),
    ("order_win", "the company wins a contract or order"),
    ("litigation_or_regulatory", "a lawsuit, penalty, regulatory action or investigation"),
    ("management_change", "a director, CEO, CFO or auditor joins, resigns or is replaced"),
    ("rating_change", "a credit rating is assigned, upgraded or downgraded"),
    ("fundraise", "shares, debentures or other securities are issued to raise money"),
    ("other", "anything else")]

def relevance : Dict String String :=
  .ofList [("false", "routine or immaterial filing"), ("true", "price-relevant news")]

def directions : Dict String String :=
  .ofList [("positive", "good news for shareholders"), ("negative", "bad news for shareholders"),
    ("neutral", "no material effect"), ("unclear", "cannot tell")]

def materialityLevels : List String := ["minor", "moderate", "major"]

theorem eventTypes_fit : Criteria.Fit .choice (some (.labelled eventTypes)) := by
  unfold Criteria.Fit
  decide +kernel

theorem directions_fit : Criteria.Fit .choice (some (.labelled directions)) := by
  unfold Criteria.Fit
  decide +kernel

theorem materiality_fit : Criteria.Fit .score (some (.levels materialityLevels)) := by
  unfold Criteria.Fit
  decide

theorem relevance_fit : Criteria.Fit .noul (some (.labelled relevance)) := trivial

def announcementQuestions : Dict String Question :=
  .ofList [
    ("relevant", { type := .noul, criteria := some (.labelled relevance), fit := relevance_fit
                   instructions := "Could this announcement move the company's share price?" }),
    ("event_type", { type := .choice, criteria := some (.labelled eventTypes), fit := eventTypes_fit
                     instructions := "What kind of corporate event is this?" }),
    ("direction", { type := .choice, criteria := some (.labelled directions), fit := directions_fit
                    instructions := "What is the likely effect on the share price?" }),
    ("materiality", { type := .score, criteria := some (.levels materialityLevels)
                      fit := materiality_fit
                      instructions := "How material is this event for the company?" })]

/-- `announcement_state`: the public fields, cut to fit the context. -/
def announcementState (a : AnnouncementReceived) (maxTokens : ℤ) : Dict String String :=
  let budget := (max 64 (maxTokens - 96) * 4).toNat
  let state := Dict.ofList [("instrument", a.company), ("post", IngestorConfig.cut budget a.title)]
  if a.subject = "" then state else state.set "subject" a.subject

/-! ## What the texts tell -/

/-- A match of a date pattern: its groups, of which a month is one. -/
structure DateMatch where
  y : String
  m : Option String
  mn : Option String
  d : String

/-- What the classifier knows of regular expressions. `search` does not tell cases apart. -/
structure Patterns where
  unicode : Unicode
  lower : String → String
  search : String → String → Bool
  finditer : String → String → List DateMatch

/-- What the subject of the exchange makes unambiguous, in order. -/
def subjectRules : List (String × AnnouncementType) :=
  [("board meeting", .resultsDate),
    ("financial result|integrated filing.*financial", .results),
    ("dividend|record date", .dividend),
    ("\\bbonus\\b|sub-?division|split", .splitBonus),
    ("pledge|encumbrance", .pledge),
    ("insider trading|sast", .insiderOrPromoter)]

def resultsWords : String :=
  "financial results|audited|unaudited|quarter(ly)? results"

def months : Dict String ℤ :=
  .ofList [("jan", 1), ("feb", 2), ("mar", 3), ("apr", 4), ("may", 5), ("jun", 6), ("jul", 7),
    ("aug", 8), ("sep", 9), ("oct", 10), ("nov", 11), ("dec", 12)]

def datePatterns : List String :=
  ["\\b(?P<m>[A-Za-z]\x7b3,9\x7d)\\.? (?P<d>\\d\x7b1,2\x7d),? (?P<y>20\\d\\d)\\b",
    "\\b(?P<d>\\d\x7b1,2\x7d)(?:st|nd|rd|th)? (?P<m>[A-Za-z]\x7b3,9\x7d),? (?P<y>20\\d\\d)\\b",
    "\\b(?P<d>\\d\x7b1,2\x7d)-(?P<m>[A-Za-z]\x7b3\x7d)-(?P<y>20\\d\\d)\\b",
    "\\b(?P<d>\\d\x7b1,2\x7d)[/.](?P<mn>\\d\x7b1,2\x7d)[/.](?P<y>20\\d\\d)\\b"]

namespace Patterns

variable (p : Patterns)

/-- `subject_type`: the first rule that the subject meets. A board meeting has to be about
results. -/
def subjectType (subject text : String) : Option AnnouncementType :=
  match subjectRules.find? fun rule => p.search rule.1 subject with
  | none => none
  | some rule =>
    if rule.2 = .resultsDate then if p.search resultsWords text then some rule.2 else none
    else some rule.2

/-- `int` of a text of digits. -/
def number (text : String) : ℤ :=
  text.toList.foldl (fun n c => n * 10 + ((p.unicode.decimal c).getD 0 : ℕ)) 0

def month (d : DateMatch) : Option ℤ :=
  match d.mn.filter (· ≠ "") with
  | some mn => some (p.number mn)
  | none => months.get? (p.lower (String.ofList ((d.m.getD "").toList.take 3)))

def date (d : DateMatch) : Option Day :=
  (p.month d).bind fun month => Day.ofCivil (p.number d.y) month (p.number d.d)

/-- `extract_event_date`: the first date of a text on or after a day. -/
def extractEventDate (text : String) (after : Day) : Option Day :=
  ((datePatterns.flatMap fun pattern => (p.finditer pattern text).filterMap p.date).filter
    fun day => after ≤ day).min?

end Patterns

/-! ## What the answers tell -/

def announcementType? : String → Option AnnouncementType
  | "results" => some .results
  | "results_date" => some .resultsDate
  | "dividend" => some .dividend
  | "split_bonus" => some .splitBonus
  | "pledge" => some .pledge
  | "insider_or_promoter" => some .insiderOrPromoter
  | "order_win" => some .orderWin
  | "litigation_or_regulatory" => some .litigationOrRegulatory
  | "management_change" => some .managementChange
  | "rating_change" => some .ratingChange
  | "fundraise" => some .fundraise
  | "other" => some .other
  | _ => none

def eventDirection? : String → Option EventDirection
  | "positive" => some .positive
  | "negative" => some .negative
  | "neutral" => some .neutral
  | "unclear" => some .unclear
  | _ => none

def materiality? : String → Option Materiality
  | "minor" => some .minor
  | "moderate" => some .moderate
  | "major" => some .major
  | _ => none

/-- `_choice`: a label that is a member of an enumeration. -/
def choiceOf {α : Type} (member? : String → Option α) (answer : Option Answer) : Option α :=
  answer.bind fun a =>
    match a.value with
    | .label value => member? value
    | _ => none

/-- `bool(value)`. -/
def AnswerValue.truth : AnswerValue → Bool
  | flag value => value
  | label value => value ≠ ""
  | level value => value ≠ .finite 0

/-- `round(value)`. -/
def roundOf : Double → Except ModelExc ℤ
  | .finite value => .ok (Decimal.roundHalfEven value)
  | .infinite _ => .error (.other "OverflowError" "cannot convert float infinity to integer")
  | .nan => .error (.other "ValueError" "cannot convert float NaN to integer")

/-- The first of the greatest. -/
def greatest : String × Double → List (String × Double) → String
  | best, [] => best.1
  | best, e :: rest => greatest (if best.2.Lt e.2 then e else best) rest

/-- `_materiality`. -/
def materialityOf (answer : Option Answer) : Except ModelExc (Option Materiality) :=
  match answer with
  | none => .ok none
  | some a =>
    match a.probabilities.entries.filter fun e => e.1 ∈ materialityLevels with
    | e :: rest => .ok (materiality? (greatest e rest))
    | [] =>
      match a.value with
      | .level value => do
        let n ← roundOf value
        return materiality? (materialityLevels.getD (min 2 (max 0 n)).toNat "")
      | _ => .ok none

/-! ## Classifying -/

/-- A classified announcement as it is stored. -/
structure ClassifiedEvent extends TypedEvent where
  url : Option String
  source : String
  probabilities : Dict String (Dict String Double)
  model : String
  calibrated : Bool
  classifiedAt : Instant
  eventId_ne : eventId ≠ ""
  instrumentKey_ne : instrumentKey ≠ ""
  title_ne : title ≠ ""
  source_ne : source ≠ ""
  model_ne : model ≠ ""

/-- The models, and the classified events in the store. -/
structure ClassifierWorld (σ : Type) where
  models : σ
  typed : List ClassifiedEvent

/-- Whatever answers the questions. -/
abbrev DecisionCascade (σ : Type) :=
  Task → Dict String String → Dict String Question → EStateM ModelExc σ CascadeResult

structure EventClassifier (σ : Type) where
  cascade : DecisionCascade σ
  patterns : Patterns
  clock : σ → Instant
  contextTokens : ℤ

def orNone (name : String) : String := if name = "" then "none" else name

theorem orNone_ne (name : String) : orNone name ≠ "" := by
  unfold orNone
  split
  · decide
  · assumption

/-- The models that answered, and the rules, if they did. -/
def modelName (answers : Dict String Answer) (rule : Option AnnouncementType) : String :=
  let models := ((answers.values.filter fun a => a.model ≠ "").map fun a =>
    String.ofList (a.model.toList.takeWhile (· ≠ ':'))).dedup.insertionSort (· ≤ ·)
  orNone ("+".intercalate (models ++ if rule.isSome then ["rules"] else []))

theorem modelName_ne (answers : Dict String Answer) (rule : Option AnnouncementType) :
    modelName answers rule ≠ "" :=
  orNone_ne _

namespace EventClassifier

variable {σ : Type} (k : EventClassifier σ)

/-- Results are always relevant, and what is unknown is kept visible. -/
def relevantOf (rule : Option AnnouncementType) (answers : Dict String Answer) : Bool :=
  if rule = some .results ∨ rule = some .resultsDate then true
  else match answers.get? "relevant" with
    | some a => a.value.truth
    | none => true

/-- The day a scheduled event happens, if it is known. -/
def eventDate (kind : Option AnnouncementType) (a : AnnouncementReceived) : Option Day :=
  let published := a.publishedAt.instant.istDate
  if kind = some .resultsDate then k.patterns.extractEventDate a.title published
  else if kind = some .results then some published
  else none

def extraOf (rule kind : Option AnnouncementType) (a : AnnouncementReceived)
    (result : CascadeResult) : Dict String ExtraValue :=
  let source := if rule.isSome then "exchange_subject" else "model"
  .ofList ([("subject", .text a.subject), ("type_source", .text source)] ++
    ((k.eventDate kind a).map fun day => ("event_date", ExtraValue.text (Day.isoformat day))).toList ++
    (if result.abstained.entries = [] then [] else [("abstained", .other)]) ++
    if result.escalated.entries = [] then [] else [("escalated", .other)])

def probabilitiesOf (answers : Dict String Answer) : Dict String (Dict String Double) :=
  .ofList ((answers.entries.filter fun e => e.2.probabilities.entries ≠ []).map fun e =>
    (e.1, .ofList (e.2.probabilities.entries.map fun q => (q.1, q.2.clamp01))))

/-- The event of an announcement, from what the cascade decided. -/
def eventOf (a : AnnouncementReceived) (result : CascadeResult) (materiality : Option Materiality)
    (now : Instant) : ClassifiedEvent :=
  let answers := result.answers
  let rule := k.patterns.subjectType a.subject a.title
  let kind := rule.orElse fun _ => choiceOf announcementType? (answers.get? "event_type")
  { eventId := a.announcementId, instrumentKey := a.instrumentKey
    publishedAt := a.publishedAt.instant, title := a.title, relevant := relevantOf rule answers
    announcementType := kind, direction := choiceOf eventDirection? (answers.get? "direction")
    materiality, extra := k.extraOf rule kind a result, url := a.url, source := a.source
    probabilities := probabilitiesOf answers, model := modelName answers rule
    calibrated := answers.entries ≠ [] ∧ answers.values.all Answer.calibrated, classifiedAt := now
    eventId_ne := a.announcementId_ne, instrumentKey_ne := a.instrumentKey_ne
    title_ne := a.title_ne, source_ne := a.source_ne, model_ne := modelName_ne answers rule }

/-- `classify`. -/
def classify (a : AnnouncementReceived) : EStateM ModelExc (ClassifierWorld σ) ClassifiedEvent :=
  fun w =>
    match k.cascade announcementsTask (announcementState a k.contextTokens) announcementQuestions
      w.models with
    | .error e models => .error e { w with models }
    | .ok result models =>
      match materialityOf (result.answers.get? "materiality") with
      | .error e => .error e { w with models }
      | .ok materiality =>
        let event := k.eventOf a result materiality (k.clock models)
        .ok event { models, typed := w.typed ++ [event] }

end EventClassifier

end DecisionModels

end RakshaQuant
