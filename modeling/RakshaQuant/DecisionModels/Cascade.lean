import Mathlib.Data.List.Dedup
import Mathlib.Data.List.Sort
import RakshaQuant.Domain.Doubles
import RakshaQuant.Lib.Effect
import RakshaQuant.Llm.Router

/-! The decision-model cascade: Laya answers first, and Jev is asked where Laya should not be
trusted. The models and the calibrator may do anything to their world and raise anything; an
answer that nobody is sure of is abstained from. -/

namespace RakshaQuant

namespace DecisionModels

/-! ## Questions and answers -/

inductive QuestionType
  | noul
  | choice
  | score
deriving DecidableEq

/-- Labels with what they mean, or levels in order. -/
inductive Criteria
  | labelled (labels : Dict String String)
  | levels (names : List String)

def Criteria.size : Criteria → ℕ
  | labelled labels => labels.keys.length
  | levels names => names.length

def maxLabels : ℕ := 255

/-- The criteria a question of a type can have. -/
def Criteria.Fit : QuestionType → Option Criteria → Prop
  | .choice, some (.labelled labels) => 2 ≤ labels.keys.length ∧ labels.keys.length ≤ maxLabels
  | .choice, _ => False
  | .score, some (.levels names) => 2 ≤ names.length
  | .score, _ => False
  | .noul, _ => True

structure Question where
  type : QuestionType
  instructions : String
  criteria : Option Criteria
  fit : Criteria.Fit type criteria

def Question.cardinality (q : Question) : ℕ :=
  match q.criteria with
  | some criteria => criteria.size
  | none => 2

inductive AnswerValue
  | flag (value : Bool)
  | label (value : String)
  | level (value : Double)
deriving DecidableEq

structure Answer where
  type : QuestionType
  value : AnswerValue
  probabilities : Dict String Double
  confidence : Double
  model : String
  calibrated : Bool

/-- What an event tells of an answer. -/
structure AnswerSummary where
  value : AnswerValue
  confidence : Double
  probabilities : Dict String Double

def Answer.summary (a : Answer) : AnswerSummary :=
  { value := a.value, confidence := a.confidence.round4
    probabilities := .ofList (a.probabilities.entries.map fun e => (e.1, e.2.round4)) }

/-- A conservative estimate of the tokens of a state. -/
def estimateTokens (state : Dict String String) : ℤ :=
  ((state.entries.map fun e => e.1.length + e.2.length).sum / 4 + 8 * state.entries.length : ℕ)

/-! ## The models -/

/-- What a model or a calibrator raises. -/
inductive ModelExc
  | decisionModelError (message : String)
  | other (name message : String)

/-- The error text of a failed call. -/
def ModelExc.text : ModelExc → String
  | decisionModelError message => message
  | other name message => name ++ ": " ++ message

/-- A model that may do anything in its world when it is asked. -/
structure DecisionModel (σ : Type) where
  name : String
  checkpoint : String
  device : Option String
  contextTokens : Option ℤ
  decide : Dict String String → Dict String Question → EStateM ModelExc σ (Dict String Answer)
  name_ne : name ≠ ""
  checkpoint_ne : checkpoint ≠ ""

/-- What is decided, under which decision and book. -/
structure Task where
  name : String
  decisionId : Option String
  bookId : Option String
  name_ne : name ≠ ""

/-- `DecisionModelCall`, besides its latency. -/
structure DecisionModelCall where
  decisionId : Option String
  bookId : Option String
  task : String
  model : String
  checkpoint : String
  device : Option String
  questionCount : ℕ
  escalated : Bool
  escalationReason : Option String
  shadow : Bool
  calibrated : Bool
  answers : Dict String AnswerSummary
  outcome : LLMOutcome
  error : Option String

structure CascadeConfig where
  low : ℚ
  high : ℚ
  maxChoices : ℤ
  shadowPct : ℚ
  band : 0 ≤ low ∧ low ≤ high ∧ high ≤ 1
  shadow : 0 ≤ shadowPct ∧ shadowPct ≤ 1

structure CascadeResult where
  answers : Dict String Answer
  /-- Why a question is abstained from. -/
  abstained : Dict String String
  /-- Why a question went to Jev. -/
  escalated : Dict String String
  shadow : Bool

/-- `bucket` is the hash, below 10 000, of a task, a state and the names of its questions. -/
structure Cascade (σ : Type) where
  laya : Option (DecisionModel σ)
  jev : Option (DecisionModel σ)
  emit : DecisionModelCall → σ → σ
  config : CascadeConfig
  calibrate : String → String → Answer → EStateM ModelExc σ Answer
  bucket : String → Dict String String → List String → ℕ
  some_model : laya.isSome ∨ jev.isSome

/-- What came of a call: no answers where there was an error. -/
structure Heard where
  answers : Dict String Answer
  error : Option String

def Heard.of {σ : Type} : EStateM.Result ModelExc σ (Dict String Answer) → Heard
  | .ok answers _ => { answers, error := none }
  | .error e _ => { answers := .empty, error := some e.text }

namespace Cascade

variable {σ : Type}

/-! ## One call -/

def calibrateAll (calibrate : String → Answer → EStateM ModelExc σ Answer) :
    List (String × Answer) → EStateM ModelExc σ (List (String × Answer))
  | [] => return []
  | e :: rest => do
    let answer ← calibrate e.1 e.2
    let later ← calibrateAll calibrate rest
    return (e.1, answer) :: later

/-- The calibrated answers of a model. -/
def ask (c : Cascade σ) (m : DecisionModel σ) (task : Task) (state : Dict String String)
    (questions : Dict String Question) : EStateM ModelExc σ (Dict String Answer) := do
  let raw ← m.decide state questions
  let answers ← calibrateAll (c.calibrate task.name) raw.entries
  return .ofList answers

def callEvent (m : DecisionModel σ) (task : Task) (questions : Dict String Question)
    (escalation : Option String) (shadow : Bool) (heard : Heard) : DecisionModelCall :=
  { decisionId := task.decisionId, bookId := task.bookId, task := task.name, model := m.name
    checkpoint := m.checkpoint, device := m.device, questionCount := questions.entries.length
    escalated := escalation.isSome, escalationReason := escalation, shadow
    calibrated := heard.answers.values.any Answer.calibrated
    answers := .ofList (heard.answers.entries.map fun e => (e.1, e.2.summary))
    outcome := if heard.error.isNone then .ok else .error, error := heard.error }

/-- `_call`: whatever is raised is heard as an error. -/
def call (c : Cascade σ) (m : DecisionModel σ) (task : Task) (state : Dict String String)
    (questions : Dict String Question) (escalation : Option String) (shadow : Bool) :
    EStateM Exc σ Heard := fun w =>
  let asked := c.ask m task state questions w
  let heard := Heard.of asked
  .ok heard (c.emit (callEvent m task questions escalation shadow heard) asked.state)

/-! ## Which questions go to Jev -/

/-- Every question for one reason. -/
def fromKeys (questions : Dict String Question) (reason : String) : Dict String String :=
  .ofList (questions.keys.map fun name => (name, reason))

def highCardinality (c : Cascade σ) (q : Question) : Bool :=
  q.type = .choice ∧ c.config.maxChoices < q.cardinality

/-- Why the answer of Laya to a question is not used, if it is not. -/
def doubt (c : Cascade σ) (answers : Dict String Answer) (name : String) (q : Question) :
    Option String :=
  if c.highCardinality q then some "high_cardinality"
  else
    match answers.get? name with
    | none => some "laya_error"
    | some a => if a.confidence.Within c.config.low c.config.high then some "uncertain" else none

/-- `_uncertain`. -/
def uncertain (c : Cascade σ) (questions : Dict String Question) (answers : Dict String Answer) :
    Dict String String :=
  .ofList (questions.entries.filterMap fun e =>
    (c.doubt answers e.1 e.2).map fun reason => (e.1, reason))

def exceeds (m : DecisionModel σ) (state : Dict String String) : Bool :=
  match m.contextTokens with
  | some limit => limit < estimateTokens state
  | none => false

/-- What Laya said, and which questions are escalated. -/
structure First where
  answers : Dict String Answer
  escalate : Dict String String

def first (c : Cascade σ) (task : Task) (state : Dict String String)
    (questions : Dict String Question) : EStateM Exc σ First :=
  match c.laya with
  | none => return { answers := .empty, escalate := fromKeys questions "no_laya" }
  | some laya => do
    if exceeds laya state then
      return { answers := .empty, escalate := fromKeys questions "state_exceeds_context" }
    let heard ← c.call laya task state questions none false
    if heard.error.isSome then
      return { answers := heard.answers, escalate := fromKeys questions "laya_error" }
    return { answers := heard.answers, escalate := c.uncertain questions heard.answers }

/-! ## Deciding -/

/-- `questions[name]` for each name. -/
def askedOf (questions : Dict String Question) : List String → Except Exc (List (String × Question))
  | [] => .ok []
  | name :: rest => do
    match questions.get? name with
    | none => throw (.keyError name)
    | some q =>
      let later ← askedOf questions rest
      return (name, q) :: later

/-- The reasons of an escalation, each once, in order. -/
def reasons (escalate : Dict String String) : String :=
  ", ".intercalate (escalate.values.dedup.insertionSort (· ≤ ·))

/-- What Jev said, and why a question it left is abstained from. -/
structure Second where
  answers : Dict String Answer
  reason : String

def second (c : Cascade σ) (task : Task) (state : Dict String String)
    (asked : Dict String Question) (escalation : String) : EStateM Exc σ Second :=
  match c.jev with
  | none => return { answers := .empty, reason := "jev_not_configured" }
  | some jev => do
    let heard ← c.call jev task state asked (some escalation) false
    return { answers := heard.answers
             reason := if heard.error.isSome then "jev_unavailable" else "jev_not_configured" }

/-- Take what Jev said of a question, or abstain. -/
def settle (s : Second) (result : CascadeResult) (name : String) : CascadeResult :=
  match s.answers.get? name with
  | some a => { result with answers := result.answers.set name a }
  | none => { result with abstained := result.abstained.set name s.reason }

def sampled (c : Cascade σ) (task : Task) (state : Dict String String)
    (questions : Dict String Question) : Bool :=
  0 < c.config.shadowPct ∧
    c.bucket task.name state (questions.keys.insertionSort (· ≤ ·)) < c.config.shadowPct * 10000

/-- The answers of Laya that no question is escalated from. -/
def kept (f : First) : Dict String Answer :=
  .ofList (f.answers.entries.filter fun e => e.1 ∉ f.escalate.keys)

/-- `Cascade.decide`. -/
def decide (c : Cascade σ) (task : Task) (state : Dict String String)
    (questions : Dict String Question) : EStateM Exc σ CascadeResult := do
  let f ← c.first task state questions
  let result : CascadeResult :=
    { answers := kept f, abstained := .empty, escalated := .empty, shadow := false }
  if f.escalate.entries ≠ [] then
    let asked ← ofExcept (askedOf questions f.escalate.keys)
    let s ← c.second task state (.ofList asked) (reasons f.escalate)
    return (asked.map Prod.fst).foldl (settle s) { result with escalated := f.escalate }
  else
    match c.jev with
    | none => return result
    | some jev =>
      if c.sampled task state questions then
        let _ ← c.call jev task state questions none true
        return { result with shadow := true }
      else return result

end Cascade

end DecisionModels

end RakshaQuant
