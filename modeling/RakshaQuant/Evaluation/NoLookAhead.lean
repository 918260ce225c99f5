import RakshaQuant.Evaluation.DailyReport
import RakshaQuant.Lib.Traverse
import RakshaQuant.Oms.Lifecycle

/-! The report of a day does not look ahead: it is the same from all the recorded events as from
those up to the day. Two sections join events of all days by decision, so this takes that later
events are not of decisions that were already recorded. -/

namespace RakshaQuant.DailyReport

/-- No later event is of a decision that an event up to the day is of. -/
def LaterFresh (day : Day) (ev : List Event) : Prop :=
  ∀ e ∈ ev, day < e.istDate → ∀ id, e.Carries id → ∀ e' ∈ early day ev, ¬e'.Carries id

/-- The low of the day is given for every book. -/
def ReportInputs.LowsGiven (inputs : ReportInputs) : Prop :=
  ∀ b ∈ inputs.books, (inputs.intradayLowEquity.get? b).isSome

/-- No event after the day is of the decision. -/
def Settled (day : Day) (ev : List Event) (id : String) : Prop :=
  ∀ e ∈ ev, day < e.istDate → ¬e.Carries id

section early

variable {day : Day} {ev : List Event} {id : String}

/-- The decision of an event up to the day is settled. -/
theorem LaterFresh.settled (h : LaterFresh day ev) {e : Event} (he : e ∈ ev)
    (hday : e.istDate ≤ day) (hid : e.Carries id) : Settled day ev id := by
  intro e' he' hlate hid'
  exact h e' he' hlate id hid' e (mem_early.mpr ⟨he, hday⟩) hid

/-! ## Joins by decision -/

/-- The time that an event tells for the signal of a decision. -/
def signalTime (id : String) (e : Event) : Option Instant :=
  e.payload.signalGenerated?.bind fun s => if s.decisionId = id then some s.generatedAt else none

theorem get?_decidedAt (ev : List Event) (id : String) :
    (decidedAt ev).get? id = (ev.filterMap (signalTime id)).getLast? := by
  rw [decidedAt, Dict.get?_ofList_under, Dict.under, payloads, of, List.map_map,
    List.map_filterMap, List.filterMap_filterMap]
  congr 1
  refine List.filterMap_congr ?_
  intro e _
  unfold signalTime
  cases e.payload.signalGenerated? <;> simp [Query.admits]

theorem get?_decidedAt_early (h : Settled day ev id) :
    (decidedAt (early day ev)).get? id = (decidedAt ev).get? id := by
  rw [get?_decidedAt, get?_decidedAt, filterMap_early]
  intro e he hlate
  cases hsignal : e.payload.signalGenerated? with
  | none => rw [signalTime, hsignal, Option.bind_none]
  | some s =>
    have hother : s.decisionId ≠ id := by
      intro heq
      exact h e he hlate (.inr (heq ▸ Payload.decision_of_signalGenerated hsignal))
    rw [signalTime, hsignal, Option.bind_some, if_neg hother]

/-- The kind of an event that is filed under a decision. -/
def filedKind (id : String) (e : Event) : Option String :=
  if e.decisionId = some id ∧ id ≠ "" then some e.payload.type else none

theorem get?_byDecision (ev : List Event) (id : String) :
    ((byDecision ev).get? id).getD [] = ev.filterMap (filedKind id) := by
  rw [byDecision, Dict.getD_get?_collect, Dict.under, List.filterMap_filterMap]
  refine List.filterMap_congr ?_
  intro e _
  unfold filedKind
  cases e.decisionId with
  | none => rfl
  | some id' =>
    by_cases hid : id' = id
    · subst hid
      by_cases hempty : id' = "" <;> simp [Option.filter, hempty]
    · by_cases hempty : id' = "" <;> simp [Option.filter, hempty, hid]

theorem get?_byDecision_early (h : Settled day ev id) :
    ((byDecision (early day ev)).get? id).getD [] = ((byDecision ev).get? id).getD [] := by
  rw [get?_byDecision, get?_byDecision, filterMap_early]
  intro e he hlate
  have hother : e.decisionId ≠ some id := fun heq => h e he hlate (.inl heq)
  rw [filedKind, if_neg fun hboth => hother hboth.1]

/-! ## Sections -/

variable (lib : Libraries) (b : String) (start : Day) (inputs : ReportInputs)
  (calendar : NSECalendar)

@[simp] theorem arrivals_early : arrivals (early day ev) b day = arrivals ev b day := by
  simp [arrivals]

@[simp] theorem fillsOf_early : fillsOf (early day ev) b day = fillsOf ev b day := by
  simp [fillsOf]

@[simp] theorem equityByDay_early :
    equityByDay (early day ev) b start day = equityByDay ev b start day := by
  simp [equityByDay]

@[simp] theorem rejections_early :
    rejections lib (early day ev) b day = rejections lib ev b day := by
  simp [rejections]

@[simp] theorem vetoPrecision_early :
    vetoPrecision lib (early day ev) b start day = vetoPrecision lib ev b start day := by
  simp [vetoPrecision]

theorem ai_early (hday : inputs.day = day) (closedMtd : ℕ) :
    ai lib (early day ev) b inputs start closedMtd = ai lib ev b inputs start closedMtd := by
  subst hday
  simp [ai]

theorem infrastructure_early (hday : inputs.day = day) :
    infrastructure lib (early day ev) inputs = infrastructure lib ev inputs := by
  subst hday
  simp only [infrastructure]
  rw [of_early_day]
  simp only [payloads_early_day]

theorem figuresOf_early {submitted : List Order}
    (h : ∀ order ∈ submitted, Settled day ev order.intent.decisionId) :
    figuresOf (early day ev) b day submitted = figuresOf ev b day submitted := by
  unfold figuresOf
  refine List.map_congr_left ?_
  intro order horder
  rw [arrivals_early, fillsOf_early, get?_decidedAt_early (h order horder)]

theorem execution_early {submitted : List Order}
    (h : ∀ order ∈ submitted, Settled day ev order.intent.decisionId) :
    execution lib (early day ev) b day submitted = execution lib ev b day submitted := by
  rw [execution, execution, figuresOf_early b h]

theorem integrity_early {closed : List TradeClosed}
    (h : ∀ trade ∈ closed, Settled day ev trade.decisionId) :
    integrity (early day ev) b day closed = integrity ev b day closed := by
  have hexplained : closed.countP (fun t =>
        explains (((byDecision (early day ev)).get? t.decisionId).getD [])) =
      closed.countP fun t => explains (((byDecision ev).get? t.decisionId).getD []) := by
    refine List.countP_congr ?_
    intro trade htrade
    rw [get?_byDecision_early (h trade htrade)]
  rw [integrity, integrity, hexplained, payloads_early_day]

/-- A given low is the low, whatever is recorded. -/
theorem intradayLow_early (h : (inputs.intradayLowEquity.get? b).isSome) :
    intradayLow (early day ev) inputs b = intradayLow ev inputs b := by
  obtain ⟨low, hlow⟩ := Option.isSome_iff_exists.mp h
  rw [intradayLow, intradayLow, hlow]

/-! ## The report -/

theorem settled_of_submitted (hfresh : LaterFresh day ev) (order : Order)
    (h : order ∈ payloads Payload.orderSubmitted? { book := some b, day := some day } ev) :
    Settled day ev order.intent.decisionId := by
  obtain ⟨e, he, hadmits, horder⟩ := mem_payloads.mp h
  exact hfresh.settled he (Query.le_of_admits hadmits (.inl rfl)) (.inr
    (Payload.decision_of_orderSubmitted horder))

theorem settled_of_closed (hfresh : LaterFresh day ev) (trade : TradeClosed)
    (h : trade ∈ payloads Payload.tradeClosed? { book := some b, day := some day } ev) :
    Settled day ev trade.decisionId := by
  obtain ⟨e, he, hadmits, htrade⟩ := mem_payloads.mp h
  exact hfresh.settled he (Query.le_of_admits hadmits (.inl rfl)) (.inr
    (Payload.decision_of_tradeClosed htrade))

theorem bookReport_early (hday : inputs.day = day) (hfresh : LaterFresh day ev)
    (hlow : (inputs.intradayLowEquity.get? b).isSome) :
    bookReport lib (early day ev) b inputs start calendar =
      bookReport lib ev b inputs start calendar := by
  subst hday
  have hexecution := execution_early lib b (settled_of_submitted b hfresh)
  have hintegrity := integrity_early b (settled_of_closed b hfresh)
  simp only [bookReport, equityByDay_early, payloads_early_day, payloads_early_till,
    rejections_early, ai_early lib b start inputs rfl, hexecution, hintegrity,
    intradayLow_early b inputs hlow]

theorem daysTo_early : daysTo (early day ev) day = daysTo ev day := by
  rw [daysTo, daysTo, early, early, List.filter_filter]
  simp

/-- A report from all the recorded events is that from the events up to the day. -/
theorem buildReport_early (hday : inputs.day = day) (hfresh : LaterFresh day ev)
    (hlows : inputs.LowsGiven) :
    buildReport lib (early day ev) inputs calendar = buildReport lib ev inputs calendar := by
  subst hday
  have hbooks : ∀ start, (inputs.books.mapM fun b =>
        bookEntry lib (early inputs.day ev) b inputs start calendar) =
      inputs.books.mapM fun b => bookEntry lib ev b inputs start calendar := by
    intro start
    refine Traverse.mapM_congr ?_
    intro b hb
    rw [bookEntry, bookEntry, bookReport_early lib b start inputs calendar rfl hfresh (hlows b hb)]
  simp only [buildReport, daysTo_early, hbooks, infrastructure_early lib inputs rfl]

end early

/-- Two logs with the same events up to a day give the same report of the day. -/
theorem build_report_no_look_ahead (lib : Libraries) (inputs : ReportInputs)
    (calendar : NSECalendar) {log log' : List Event} (hlows : inputs.LowsGiven)
    (hsame : early inputs.day log = early inputs.day log') (hfresh : LaterFresh inputs.day log)
    (hfresh' : LaterFresh inputs.day log') :
    buildReport lib log inputs calendar = buildReport lib log' inputs calendar := by
  rw [← buildReport_early lib inputs calendar rfl hfresh hlows, hsame,
    buildReport_early lib inputs calendar rfl hfresh' hlows]

/-! A day with one order, and the same day in a store that goes on: there tomorrow's signal and
mark are recorded too, the mark between events of the day. -/

namespace OneOrder

theorem named : "S1" ≠ "" ∧ "D1" ≠ "" ∧ "NSE:EQ:INFY" ≠ "" ∧ "momentum" ≠ "" := by decide

theorem named_next : "S2" ≠ "" ∧ "D2" ≠ "" ∧ "NSE:EQ:INFY" ≠ "" ∧ "momentum" ≠ "" := by decide

theorem score_mem : (0 : ℚ) ≤ 1 / 2 ∧ (1 / 2 : ℚ) ≤ 1 := by norm_num

theorem mults_pos : (0 : ℚ) < 2 ∧ (0 : ℚ) < 3 := by norm_num

theorem preOpen_le_opening : (32400000000 : ℤ) ≤ 33300000000 := by decide

theorem opening_lt_close : (33300000000 : ℤ) < 55800000000 := by decide

def calendar : NSECalendar :=
  { default := ⟨32400000000, 33300000000, 55800000000, preOpen_le_opening, opening_lt_close⟩
    years := [1970], holidays := [], specials := .empty }

/-- Two seconds before its order. -/
def signal : Signal :=
  { signalId := "S1", decisionId := "D1", instrumentKey := "NSE:EQ:INFY", strategy := "momentum"
    side := .buy, barDate := -1, agreementScore := 1 / 2, stopAtrMult := 2, targetAtrMult := 3
    isShadow := false, generatedAt := -2000000, named, score_mem, mults_pos }

def nextSignal : Signal :=
  { signalId := "S2", decisionId := "D2", instrumentKey := "NSE:EQ:INFY", strategy := "momentum"
    side := .buy, barDate := 0, agreementScore := 1 / 2, stopAtrMult := 2, targetAtrMult := 3
    isShadow := false, generatedAt := 86400000000, named := named_next, score_mem, mults_pos }

def signalled : Event := ⟨.signalGenerated signal, -2000000, 0, some "D1", none⟩

def submitted : Event :=
  ⟨.orderSubmitted { Sample.order with submittedAt := some 0 }, 0, 0, some "D1", some "main"⟩

def filled : Event :=
  ⟨.fillReceived ⟨Sample.fill 1 10 Sample.ten_pos, 10, 100⟩, 0, 0, some "D1", some "main"⟩

def marked : Event := ⟨.markToMarket ⟨100500, 99000, 1500, 500⟩, 0, 0, none, some "main"⟩

def markedNext : Event :=
  ⟨.markToMarket ⟨90000, 99000, -9000, -10000⟩, 86400000000, 1, none, some "main"⟩

def signalledNext : Event := ⟨.signalGenerated nextSignal, 86400000000, 1, some "D2", none⟩

def log : List Event := [signalled, submitted, filled, marked]

def longer : List Event := [signalled, submitted, markedNext, filled, marked, signalledNext]

def inputs : ReportInputs :=
  { day := 0, capital := 100000, books := ["main"], advisors := .empty
    intradayLowEquity := Dict.empty.set "main" 99500 }

/-- As numpy answers for at most one value. -/
def lib : Libraries :=
  { std := fun _ => 0, sqrt := id, percentile := fun l _ => l.headD 0
    choiceMeans := fun _ _ _ => [], permutations := fun _ _ _ => [], choices := fun _ _ _ => []
    isalnum := Char.isAlphanum }

theorem lows : inputs.LowsGiven := by
  intro b hb
  rw [List.mem_singleton.mp hb]
  rfl

theorem same_early : early inputs.day log = early inputs.day longer := by rfl

theorem fresh : LaterFresh inputs.day log := by
  intro e he hlate
  have hnone : ∀ e ∈ log, e.istDate = 0 := by simp [log, signalled, submitted, filled, marked]
  exact absurd hlate (by rw [hnone e he]; decide)

theorem fresh_longer : LaterFresh inputs.day longer := by
  intro e he hlate id hid e' he' hid'
  have hearly : e' ∈ log := by
    rw [← same_early] at he'
    exact (mem_early.mp he').1
  have hfirst : id = "D1" := by
    simp only [log, List.mem_cons, List.not_mem_nil, or_false] at hearly
    rcases hearly with rfl | rfl | rfl | rfl <;> rcases hid' with h | h <;> cases h <;> rfl
  subst hfirst
  simp only [longer, List.mem_cons, List.not_mem_nil, or_false] at he
  rcases he with rfl | rfl | rfl | rfl | rfl | rfl
  · exact absurd hlate (by decide)
  · exact absurd hlate (by decide)
  · rcases hid with h | h <;> cases h
  · exact absurd hlate (by decide)
  · exact absurd hlate (by decide)
  · rcases hid with h | h <;> exact absurd h (by decide)

/-- The time from a signal to its order. -/
def decisionToOrder (r : Report) : Option (Option ℚ) :=
  (r.books.get? "main").map fun b => b.execution.decisionToOrderS.1

theorem build_report_no_look_ahead_one_order :
    (buildReport lib log inputs calendar).bind decisionToOrder = some (some 2) ∧
      buildReport lib log inputs calendar = buildReport lib longer inputs calendar :=
  ⟨by decide +kernel,
    build_report_no_look_ahead lib inputs calendar lows same_early fresh fresh_longer⟩

end OneOrder

end RakshaQuant.DailyReport
