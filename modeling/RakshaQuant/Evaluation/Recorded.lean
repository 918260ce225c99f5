import RakshaQuant.Decision.Cycle
import RakshaQuant.DecisionModels.Cascade
import RakshaQuant.Lib.Dict

/-! The events of the store as a report reads them: the payloads that a section of the report
looks at, the envelope, and the one query that all sections go through. -/

namespace RakshaQuant.DailyReport

inductive AdvisorKind
  | none
  | typedVeto
  | llmVeto
deriving DecidableEq

def AdvisorKind.value : AdvisorKind → String
  | .none => "none"
  | typedVeto => "typed_veto"
  | llmVeto => "llm_veto"

/-! ## Payloads -/

/-- `MarkToMarket`, besides its book and the day's P&L. -/
structure MarkToMarket where
  equity : ℚ
  cash : ℚ
  positionsValue : ℚ
  unrealizedPnl : ℚ

structure FillReceived where
  fill : Fill
  orderFilledQty : ℤ
  orderAvgPrice : ℚ

/-- A risk decision with what it was made for and against. -/
structure RecordedDecision extends RiskDecision where
  clientOrderId : Option String
  refPrice : Option ℚ
  quoteAgeS : Option ℚ
  dataSource : Option MarketDataSource

structure AdvisorVerdict where
  decisionId : String
  advisor : AdvisorKind
  verdict : Verdict

structure ShadowTradeClosed where
  signalId : String
  decisionId : String
  netPnl : ℚ

structure KillSwitchChanged where
  bookId : String
  name : String
  previous : KillSwitchState
  current : KillSwitchState
  reason : String

/-- What a recorded event says. The report counts some kinds and looks into others; of the kinds
that it has no section for only the name and the decision are kept. -/
inductive Payload
  | markToMarket (mark : MarkToMarket)
  | dailyRiskStateRolled (istDate : Day) (state : DailyRiskState)
  | tradeClosed (trade : TradeClosed)
  | orderSubmitted (order : Order)
  | fillReceived (fill : FillReceived)
  | riskDecision (decision : RecordedDecision)
  | signalGenerated (signal : Signal)
  | orderIntentProposed (intent : OrderIntent)
  | orderRejected (ref : OrderRef) (reason : String)
  | signalDisposition (disposition : SignalDisposition)
  | advisorRequested (decisionId : String)
  | advisorVerdict (verdict : AdvisorVerdict)
  | advisorFallback (decisionId : String)
  | llmCall (call : LLMFields)
  | decisionModelCall (call : DecisionModels.DecisionModelCall)
  | shadowTradeClosed (trade : ShadowTradeClosed)
  | reconciliationResult (result : ReconciliationResult)
  | heartbeat (loopLagMs : Option ℚ)
  | processStarted
  | alert (raised : Alert)
  | killSwitchChanged (change : KillSwitchChanged)
  | feedStale
  | announcementCoverageGap
  | other (type : String) (decisionId : Option String)

namespace Payload

/-- `event_type`. -/
def type : Payload → String
  | markToMarket _ => "MarkToMarket"
  | dailyRiskStateRolled .. => "DailyRiskStateRolled"
  | tradeClosed _ => "TradeClosed"
  | orderSubmitted _ => "OrderSubmitted"
  | fillReceived _ => "FillReceived"
  | riskDecision _ => "RiskDecision"
  | signalGenerated _ => "SignalGenerated"
  | orderIntentProposed _ => "OrderIntentProposed"
  | orderRejected .. => "OrderRejected"
  | signalDisposition _ => "SignalDisposition"
  | advisorRequested _ => "AdvisorRequested"
  | advisorVerdict _ => "AdvisorVerdict"
  | advisorFallback _ => "AdvisorFallback"
  | llmCall _ => "LLMCall"
  | decisionModelCall _ => "DecisionModelCall"
  | shadowTradeClosed _ => "ShadowTradeClosed"
  | reconciliationResult _ => "ReconciliationResult"
  | heartbeat _ => "Heartbeat"
  | processStarted => "ProcessStarted"
  | alert _ => "Alert"
  | killSwitchChanged _ => "KillSwitchChanged"
  | feedStale => "FeedStale"
  | announcementCoverageGap => "AnnouncementCoverageGap"
  | other type _ => type

/-- The decision that a payload is about. -/
def decision : Payload → Option String
  | tradeClosed trade => some trade.decisionId
  | orderSubmitted order => some order.intent.decisionId
  | fillReceived fill => some fill.fill.decisionId
  | riskDecision decision => some decision.decisionId
  | signalGenerated signal => some signal.decisionId
  | orderIntentProposed intent => some intent.decisionId
  | orderRejected ref _ => some ref.decisionId
  | signalDisposition disposition => some disposition.decisionId
  | advisorRequested decisionId => some decisionId
  | advisorVerdict verdict => some verdict.decisionId
  | advisorFallback decisionId => some decisionId
  | llmCall call => call.decisionId
  | decisionModelCall call => call.decisionId
  | shadowTradeClosed trade => some trade.decisionId
  | other _ decisionId => decisionId
  | _ => none

/-! ## The payload of an event, if it is of a kind -/

def markToMarket? : Payload → Option MarkToMarket
  | markToMarket mark => some mark
  | _ => none

/-- The date of the state that was rolled, and the state. -/
def dailyRiskStateRolled? : Payload → Option (Day × DailyRiskState)
  | dailyRiskStateRolled istDate state => some (istDate, state)
  | _ => none

def tradeClosed? : Payload → Option TradeClosed
  | tradeClosed trade => some trade
  | _ => none

def orderSubmitted? : Payload → Option Order
  | orderSubmitted order => some order
  | _ => none

def fillReceived? : Payload → Option FillReceived
  | fillReceived fill => some fill
  | _ => none

def riskDecision? : Payload → Option RecordedDecision
  | riskDecision decision => some decision
  | _ => none

def signalGenerated? : Payload → Option Signal
  | signalGenerated signal => some signal
  | _ => none

/-- The reason of a rejection. -/
def orderRejected? : Payload → Option String
  | orderRejected _ reason => some reason
  | _ => none

def signalDisposition? : Payload → Option SignalDisposition
  | signalDisposition disposition => some disposition
  | _ => none

/-- The decision that a review was asked for. -/
def advisorRequested? : Payload → Option String
  | advisorRequested decisionId => some decisionId
  | _ => none

def advisorVerdict? : Payload → Option AdvisorVerdict
  | advisorVerdict verdict => some verdict
  | _ => none

def advisorFallback? : Payload → Option String
  | advisorFallback decisionId => some decisionId
  | _ => none

def llmCall? : Payload → Option LLMFields
  | llmCall call => some call
  | _ => none

def decisionModelCall? : Payload → Option DecisionModels.DecisionModelCall
  | decisionModelCall call => some call
  | _ => none

def shadowTradeClosed? : Payload → Option ShadowTradeClosed
  | shadowTradeClosed trade => some trade
  | _ => none

def reconciliationResult? : Payload → Option ReconciliationResult
  | reconciliationResult result => some result
  | _ => none

/-- The loop lag that a beat tells, if it tells one. -/
def heartbeat? : Payload → Option (Option ℚ)
  | heartbeat loopLagMs => some loopLagMs
  | _ => none

def processStarted? : Payload → Option Unit
  | processStarted => some ()
  | _ => none

def alert? : Payload → Option Alert
  | alert raised => some raised
  | _ => none

def killSwitchChanged? : Payload → Option KillSwitchChanged
  | killSwitchChanged change => some change
  | _ => none

def feedStale? : Payload → Option Unit
  | feedStale => some ()
  | _ => none

def announcementCoverageGap? : Payload → Option Unit
  | announcementCoverageGap => some ()
  | _ => none

/-! Some kinds are always of a decision. -/

section decision

variable {p : Payload}

theorem decision_of_tradeClosed {trade : TradeClosed} (h : p.tradeClosed? = some trade) :
    p.decision = some trade.decisionId := by
  cases p <;> simp_all [tradeClosed?, decision]

theorem decision_of_orderSubmitted {order : Order} (h : p.orderSubmitted? = some order) :
    p.decision = some order.intent.decisionId := by
  cases p <;> simp_all [orderSubmitted?, decision]

theorem decision_of_signalGenerated {signal : Signal} (h : p.signalGenerated? = some signal) :
    p.decision = some signal.decisionId := by
  cases p <;> simp_all [signalGenerated?, decision]

end decision

end Payload

/-! ## The store -/

/-- A recorded event: its payload in the envelope, as far as a report reads it. -/
structure Event where
  payload : Payload
  tsUtc : Instant
  istDate : Day
  decisionId : Option String
  bookId : Option String

/-- The decisions that an event is filed under or tells of. -/
def Event.Carries (e : Event) (decisionId : String) : Prop :=
  e.decisionId = some decisionId ∨ e.payload.decision = some decisionId

/-- The filters of a query; those that are not given let everything pass. -/
structure Query where
  book : Option String := none
  day : Option Day := none
  till : Option Day := none
  since : Option Day := none

def Query.admits (q : Query) (e : Event) : Bool :=
  (∀ book ∈ q.book, e.bookId = some book) ∧ (∀ day ∈ q.day, e.istDate = day) ∧
    (∀ till ∈ q.till, e.istDate ≤ till) ∧ ∀ since ∈ q.since, since ≤ e.istDate

/-- What passes a filter by day is not of a later one. -/
theorem Query.le_of_admits {q : Query} {e : Event} {day : Day} (h : q.admits e = true)
    (hday : q.day = some day ∨ q.till = some day) : e.istDate ≤ day := by
  obtain ⟨_, honly, htill, _⟩ := of_decide_eq_true h
  rcases hday with hday | hday
  · exact le_of_eq (honly day hday)
  · exact htill day hday

/-- `_Events.of`: the events of one kind that pass the filters, oldest first. -/
def of {α : Type} (kind : Payload → Option α) (q : Query) (ev : List Event) : List (Event × α) :=
  ev.filterMap fun e => if q.admits e then (kind e.payload).map fun p => (e, p) else none

/-- The payloads of those events. -/
def payloads {α : Type} (kind : Payload → Option α) (q : Query) (ev : List Event) : List α :=
  (of kind q ev).map fun e => e.2

/-! ## Up to a day -/

/-- The events up to a day. -/
def early (day : Day) (ev : List Event) : List Event := ev.filter fun e => e.istDate ≤ day

section early

variable {day : Day} {ev : List Event}

theorem mem_early {e : Event} : e ∈ early day ev ↔ e ∈ ev ∧ e.istDate ≤ day := by
  simp [early]

/-- A selection that picks nothing of later days is the same from the events up to the day. -/
theorem filterMap_early {α : Type} {pick : Event → Option α}
    (h : ∀ e ∈ ev, day < e.istDate → pick e = none) :
    (early day ev).filterMap pick = ev.filterMap pick := by
  rw [early, List.filterMap_filter]
  refine List.filterMap_congr ?_
  intro e he
  by_cases hday : e.istDate ≤ day
  · rw [if_pos (by simpa using hday)]
  · rw [if_neg (by simpa using hday), h e he (lt_of_not_ge hday)]

section kind

variable {α : Type} (kind : Payload → Option α) {q : Query}

/-- A query bounded by the day does not see later events. -/
theorem of_early (h : q.day = some day ∨ q.till = some day) :
    of kind q (early day ev) = of kind q ev := by
  refine filterMap_early ?_
  intro e _ hlate
  have hrefused : q.admits e ≠ true := by
    intro hq
    exact absurd (Query.le_of_admits hq h) (not_le_of_gt hlate)
  rw [if_neg hrefused]

@[simp] theorem of_early_day (b : Option String) (u s : Option Day) :
    of kind ⟨b, some day, u, s⟩ (early day ev) = of kind ⟨b, some day, u, s⟩ ev :=
  of_early kind (.inl rfl)

@[simp] theorem of_early_till (b : Option String) (d s : Option Day) :
    of kind ⟨b, d, some day, s⟩ (early day ev) = of kind ⟨b, d, some day, s⟩ ev :=
  of_early kind (.inr rfl)

@[simp] theorem payloads_early_day (b : Option String) (u s : Option Day) :
    payloads kind ⟨b, some day, u, s⟩ (early day ev) =
      payloads kind ⟨b, some day, u, s⟩ ev := by
  rw [payloads, payloads, of_early_day]

@[simp] theorem payloads_early_till (b : Option String) (d s : Option Day) :
    payloads kind ⟨b, d, some day, s⟩ (early day ev) =
      payloads kind ⟨b, d, some day, s⟩ ev := by
  rw [payloads, payloads, of_early_till]

end kind

theorem mem_payloads {α : Type} {kind : Payload → Option α} {q : Query} {p : α} :
    p ∈ payloads kind q ev ↔ ∃ e ∈ ev, q.admits e = true ∧ kind e.payload = some p := by
  simp only [payloads, of, List.mem_map, List.mem_filterMap, Option.ite_none_right_eq_some,
    Option.map_eq_some_iff]
  constructor
  · intro ⟨_, ⟨e, he, hq, p', hp, heq⟩, hproj⟩
    subst heq
    exact ⟨e, he, hq, hproj ▸ hp⟩
  · intro ⟨e, he, hq, hp⟩
    exact ⟨(e, p), ⟨e, he, hq, p, hp, rfl⟩, rfl⟩

end early

end RakshaQuant.DailyReport
