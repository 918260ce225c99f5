import RakshaQuant.Brokers.Simulated.FillModel
import RakshaQuant.Domain.Risk
import RakshaQuant.Lib.Caps
import RakshaQuant.Oms.Oms

/-! The risk engine, and the gate that puts it before the OMS. An order that
increases risk fails closed: any block rejects it, and a check that raises is a
block. The checks are a parameter here, except those of an order against its own
record and the position; what a decision approves is the largest size that every
check admits. -/

namespace RakshaQuant

namespace IntentKind

/-- `OPENS`. -/
def opens : IntentKind → Bool
  | .open | .increase => true
  | _ => false

theorem opens_eq (k : IntentKind) : k.opens = !k.reducesRisk := by
  cases k <;> rfl

end IntentKind

/-- What a check sees: `position` is the signed quantity held in the instrument,
`facts` the rest of the snapshot, the limits and the reservations. -/
structure RiskContext (Φ : Type) where
  intent : OrderIntent
  requestedQty : Option ℤ
  allowShort : Bool
  position : Option ℤ
  facts : Φ

/-- A check: the kinds it applies to and its result, if it has one. -/
structure Check (Φ : Type) where
  code : ReasonCode
  appliesTo : IntentKind → Bool
  fn : RiskContext Φ → Except Exc (Option RiskCheckResult)

namespace Check

variable {Φ : Type}

def block (code : ReasonCode) (message : String) : RiskCheckResult :=
  ⟨code, .block, message, none, by simp, by simp⟩

/-- An allowance that is still recorded on the decision. -/
def info (code : ReasonCode) (message : String) : RiskCheckResult :=
  ⟨code, .allow, message, none, by simp, by simp⟩

def resize (code : ReasonCode) (maxQty : ℤ) (message : String) : RiskCheckResult :=
  ⟨code, .resize, message, some (max 0 maxQty), by simp, by simp⟩

def qtyNonpos : Check Φ :=
  ⟨.ordQtyNonpos, fun _ => true, fun ctx =>
    if ctx.requestedQty.any (· ≤ 0) then
      .ok (some (block .ordQtyNonpos "quantity must be positive"))
    else .ok none⟩

/-- The text of a price that is off its tick. -/
def offTick (label : String) (price tickSize : ℚ) : RiskCheckResult :=
  block .ordTick (label ++ " " ++ toString price ++ " is off the " ++ toString tickSize ++ " tick")

def tick : Check Φ :=
  ⟨.ordTick, fun _ => true, fun ctx =>
    let tickSize := ctx.intent.instrument.tickSize
    let off (label : String) (price : Option ℚ) : Option RiskCheckResult :=
      price.bind fun p => if onTick p tickSize then none else some (offTick label p tickSize)
    .ok (off "limit" ctx.intent.limitPrice <|> off "trigger" ctx.intent.triggerPrice)⟩

def shortNotAllowed : Check Φ :=
  ⟨.ordShortNotAllowed, IntentKind.opens, fun ctx =>
    if ctx.intent.side.sign < 0 ∧ ctx.allowShort = false then
      .ok (some (block .ordShortNotAllowed "opening a short is not allowed (CNC long-only)"))
    else .ok none⟩

def reduceExceedsPos : Check Φ :=
  ⟨.ordReduceExceedsPos, IntentKind.reducesRisk, fun ctx =>
    let held := ctx.position.getD 0
    let reducible := if ctx.intent.side.sign < 0 then held else -held
    if reducible ≤ 0 then .ok (some (block .ordReduceExceedsPos "nothing to reduce"))
    else .ok (some (resize .ordReduceExceedsPos reducible
      "a reduction never exceeds the position"))⟩

end Check

/-- The engine: whether shorting is allowed, and its checks in the order they run;
the check on shorts is one of them. -/
structure RiskEngine (Φ : Type) where
  allowShort : Bool
  checks : List (Check Φ)
  shorts : Check.shortNotAllowed ∈ checks

namespace RiskEngine

variable {Φ : Type} (engine : RiskEngine Φ) (ctx : RiskContext Φ)

/-- One check as `evaluate` runs it: a check that raises blocks an opening order
and lets a reduction pass. -/
def runCheck (check : Check Φ) : Option RiskCheckResult :=
  match check.fn ctx with
  | .ok result => result
  | .error e =>
    let message := check.code.value ++ " raised " ++ e.name ++ ": " ++ e.message
    if ctx.intent.kind.reducesRisk then
      some (Check.info .sysCheckError message)
    else some (Check.block .sysCheckError message)

/-- The checks that apply. -/
def applicable : List (Check Φ) := engine.checks.filter fun c => c.appliesTo ctx.intent.kind

def results : List RiskCheckResult := (engine.applicable ctx).filterMap (runCheck ctx)

/-- `cap_values`. -/
def capValues (results : List RiskCheckResult) : List ℤ := results.filterMap RiskCheckResult.maxQty

/-- The size before the blocks are looked at: the request or the smallest cap,
down to a whole number of lots. -/
def sized (lot : ℤ) (requested : Option ℤ) (results : List RiskCheckResult) : Option ℤ :=
  (Caps.smallest requested (capValues results)).map (Caps.roundDown lot)

def haltCodes : List ReasonCode := [.sysKillGlobal, .sysKillBroker, .strHalted]

/-- The decision record with what every outcome shares. -/
def record (ran : List String) (outcome : RiskOutcome) (qty : ℤ) (reasons : List RiskCheckResult)
    (h0 : 0 ≤ qty) (hout : (outcome = .approved ∨ outcome = .resized) ↔ 0 < qty)
    (hr : qty = 0 → reasons ≠ []) : RiskDecision :=
  { decisionId := ctx.intent.decisionId, intentId := ctx.intent.intentId
    bookId := ctx.intent.bookId, strategy := ctx.intent.strategy
    instrumentKey := ctx.intent.instrument.key, side := ctx.intent.side
    product := ctx.intent.product, kind := ctx.intent.kind
    qtyRequested := ctx.requestedQty.filter fun q => 0 < q, qtyApproved := qty
    outcome := outcome, reasons := reasons, checksRun := ran
    qtyApproved_nonneg := h0, outcome_consistent := hout, reasons_given := hr }

/-- `_decide`. -/
def decide (results : List RiskCheckResult) (ran : List String) : RiskDecision :=
  let blocks := results.filter fun r => r.outcome = .block
  let resizes := results.filter fun r => r.outcome = .resize
  let informational := results.filter fun r => r.outcome = .allow
  let nothing := Check.block .ordQtyNonpos "nothing sized the order"
  if hb : blocks ≠ [] then
    let outcome :=
      if blocks.any fun b => b.code ∈ haltCodes then RiskOutcome.halted else RiskOutcome.rejected
    record ctx ran outcome 0 (blocks ++ informational) le_rfl
      (by
        have : outcome = .halted ∨ outcome = .rejected := by
          unfold outcome
          split <;> simp
        rcases this with h | h <;> simp [h])
      (by simp [hb])
  else
    let qty := (sized ctx.intent.instrument.lotSize ctx.requestedQty results).getD 0
    if hq : qty ≤ 0 then
      record ctx ran .rejected 0 ((if resizes = [] then [nothing] else resizes) ++ informational) le_rfl
        (by simp) (by split <;> simp_all)
    else
      let outcome :=
        if ctx.requestedQty.any fun requested => qty < requested then RiskOutcome.resized
        else RiskOutcome.approved
      let binding :=
        if Caps.binds ctx.requestedQty (capValues results) then
          resizes.filter fun c => c.maxQty = (capValues results).min?
        else []
      record ctx ran outcome qty (binding ++ informational) (by omega)
        (by
          have : outcome = .approved ∨ outcome = .resized := by
            unfold outcome
            split <;> simp
          simp [this]
          omega)
        (by omega)

/-- `evaluate`. -/
def evaluate : RiskDecision :=
  decide ctx (engine.results ctx) ((engine.applicable ctx).map fun c => c.code.value)

end RiskEngine

/-! ## The gate -/

/-- What a gate does when the OMS asks it: it records decisions and answers, or raises. -/
structure GateAnswer where
  decisions : List RiskDecision
  result : Except Exc GateResult

/-- A gate reads the OMS and the order it is asked about. -/
abbrev Gate := OMS → OrderIntent → Option ℤ → GateAnswer

/-- A gate that records its decisions in the log of the desk it stands before. -/
def Gate.asOrderGate {B T : Type} (gate : Gate) : OrderGate (World B (Desk T)) :=
  fun intent qty => do
    let answer := gate (← get).desk.oms intent qty
    modify (World.mapOms fun o =>
      { o with sink := o.sink ++ answer.decisions.map fun d => .event (.riskDecision d) })
    match answer.result with
    | .ok result => return result
    | .error e => throw e

namespace RiskGate

variable {Φ : Type}

/-- `positions` by instrument: the last open one in the book's order. -/
def held (o : OMS) (instrumentKey : String) (now : Instant) : Option ℤ :=
  ((o.book.positions now).filter fun p =>
    p.quantity ≠ 0 ∧ p.instrumentKey = instrumentKey).getLast?.map Position.quantity

/-- `__call__`: evaluate against a fresh snapshot, record the decision, answer.
Taking the snapshot may raise. -/
def call (engine : RiskEngine Φ) (now : Instant) (snapshot : OMS → OrderIntent → Except Exc Φ) :
    Gate := fun o intent qty =>
  match snapshot o intent with
  | .error e => ⟨[], .error e⟩
  | .ok facts =>
    let decision := engine.evaluate
      { intent := intent, requestedQty := qty <|> intent.quantity, allowShort := engine.allowShort
        position := held o intent.instrument.key now, facts := facts }
    let reasons := ", ".intercalate (decision.reasons.map fun r => r.code.value)
    ⟨[decision], .ok (if decision.qtyApproved ≤ 0 then
        ⟨0, decision.outcome.value ++ ": " ++ reasons⟩
      else ⟨decision.qtyApproved, decision.outcome.value⟩)⟩

end RiskGate

/-! ## What the gate never approves -/

namespace RiskEngine

variable {Φ : Type}

/-- A block among the results rejects. -/
theorem decide_of_block {ctx : RiskContext Φ} {results : List RiskCheckResult}
    {ran : List String} {r : RiskCheckResult} (hr : r ∈ results) (hblock : r.outcome = .block) :
    (decide ctx results ran).qtyApproved = 0 := by
  have hne : results.filter (fun r => r.outcome = .block) ≠ [] :=
    List.ne_nil_of_mem (List.mem_filter.mpr ⟨hr, by simp [hblock]⟩)
  unfold decide
  dsimp only
  rw [dif_pos hne]
  rfl

/-- With shorting off no opening sell is approved. -/
theorem evaluate_short (engine : RiskEngine Φ) (ctx : RiskContext Φ)
    (hshort : ctx.allowShort = false) (hside : ctx.intent.side = .sell)
    (hopens : ctx.intent.kind.reducesRisk = false) : (engine.evaluate ctx).qtyApproved = 0 := by
  have happ : Check.shortNotAllowed ∈ engine.applicable ctx := by
    refine List.mem_filter.mpr ⟨engine.shorts, ?_⟩
    show ctx.intent.kind.opens = true
    rw [IntentKind.opens_eq, hopens]
    rfl
  have hrun : runCheck ctx Check.shortNotAllowed = some
      (Check.block .ordShortNotAllowed "opening a short is not allowed (CNC long-only)") := by
    simp [runCheck, Check.shortNotAllowed, hside, hshort]
  exact decide_of_block (List.mem_filterMap.mpr ⟨_, happ, hrun⟩) rfl

end RiskEngine

/-- With shorting off, what the gate answers a positive quantity to is a buy or a
reduction. -/
theorem RiskGate.call_long {Φ : Type} {engine : RiskEngine Φ} (hshort : engine.allowShort = false)
    {now : Instant} {snapshot : OMS → OrderIntent → Except Exc Φ} {o : OMS} {intent : OrderIntent}
    {qty : Option ℤ} {result : GateResult}
    (h : (call engine now snapshot o intent qty).result = .ok result) (hq : 0 < result.quantity) :
    intent.reduceOnly = true ∨ intent.side = .buy := by
  unfold call at h
  cases hs : snapshot o intent with
  | error e =>
    rw [hs] at h
    cases h
  | ok facts =>
    rw [hs] at h
    cases hside : intent.side with
    | buy => exact .inr rfl
    | sell =>
      left
      rw [intent.reduceOnly_eq]
      by_contra hreduces
      have hzero := engine.evaluate_short ⟨intent, qty <|> intent.quantity, engine.allowShort,
        held o intent.instrument.key now, facts⟩ hshort hside (by simpa using hreduces)
      dsimp only at h
      rw [hzero, if_pos le_rfl, Except.ok.injEq] at h
      rw [← h] at hq
      exact absurd hq (lt_irrefl 0)

end RakshaQuant
