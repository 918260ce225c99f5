import RakshaQuant.Decision.Signals
import RakshaQuant.Domain.Years
import RakshaQuant.Lib.Numeral

/-! The trade policy: the one place where a signal becomes an order proposal. Only
a BUY signal of a strategy that may trade becomes an unsized entry; its stop and
target are multiples of the ATR around the arrival price. -/

namespace RakshaQuant

/-- `intent_id`, a raised error naming the part it rejects. -/
def intentId (bookId strategy instrumentKey : String) (signalBarDate : Day) (leg : String) :
    Except Exc String :=
  let parts := [("book_id", bookId), ("strategy", strategy), ("leg", leg)]
  match parts.find? fun part => ¬Plain part.2 with
  | some part => .error (.valueError
      (part.1 ++ " must be non-empty and contain no ':' (got '" ++ part.2 ++ "')"))
  | none =>
    if instrumentKey = "" then .error (.valueError "instrument_key must be non-empty")
    else .ok (bookId ++ ":" ++ strategy ++ ":" ++ instrumentKey ++ ":" ++
      Day.isoformat signalBarDate ++ ":" ++ leg)

theorem entry_plain : Plain "entry" := by decide

theorem intentId_entry {bookId strategy instrumentKey : String} (day : Day)
    (hbook : Plain bookId) (hstrategy : Plain strategy) (hkey : instrumentKey ≠ "") :
    intentId bookId strategy instrumentKey day "entry" =
      .ok (bookId ++ ":" ++ strategy ++ ":" ++ instrumentKey ++ ":" ++
        Day.isoformat day ++ ":" ++ "entry") := by
  simp [intentId, hbook, hstrategy, hkey, entry_plain]

/-- What an intent id is made of. -/
theorem intentId_eq {bookId strategy instrumentKey leg id : String} {day : Day}
    (h : intentId bookId strategy instrumentKey day leg = .ok id) :
    Plain bookId ∧ Plain strategy ∧ Plain leg ∧ id = bookId ++ ":" ++ strategy ++ ":" ++
      instrumentKey ++ ":" ++ Day.isoformat day ++ ":" ++ leg := by
  unfold intentId at h
  dsimp only at h
  split at h
  · cases h
  rename_i hplain
  split at h
  · cases h
  cases h
  have hpart : ∀ part ∈ [("book_id", bookId), ("strategy", strategy), ("leg", leg)],
      Plain part.2 := by
    intro part hmem
    simpa using List.find?_eq_none.mp hplain part hmem
  exact ⟨hpart ("book_id", bookId) (by simp), hpart ("strategy", strategy) (by simp),
    hpart ("leg", leg) (by simp), rfl⟩

/-- An intent id says what it is made of: the leg and the date behind the last two separators,
the book and the strategy before the first two, and the instrument key in between. -/
theorem intentId_injective {bookId bookId' strategy strategy' instrumentKey instrumentKey' : String}
    {leg leg' id : String} {day day' : Day} (h : intentId bookId strategy instrumentKey day leg = .ok id)
    (h' : intentId bookId' strategy' instrumentKey' day' leg' = .ok id) :
    bookId = bookId' ∧ strategy = strategy' ∧ instrumentKey = instrumentKey' ∧ day = day' ∧
      leg = leg' := by
  obtain ⟨⟨-, hbook⟩, ⟨-, hstrategy⟩, ⟨-, hleg⟩, hid⟩ := intentId_eq h
  obtain ⟨⟨-, hbook'⟩, ⟨-, hstrategy'⟩, ⟨-, hleg'⟩, hid'⟩ := intentId_eq h'
  have hno : ∀ {text : String}, ':' ∉ text.toList → ∀ c ∈ text.toList, (c ≠ ':' : Bool) = true := by
    intro text hnot c hc
    simp only [ne_eq, decide_not, Bool.not_eq_true', decide_eq_false_iff_not]
    rintro rfl
    exact hnot hc
  have hlists := congrArg String.toList (hid.symm.trans hid')
  simp only [String.toList_append] at hlists
  have hcolon : (":" : String).toList = [':'] := rfl
  have hcut : ∀ l r : List Char, l ++ [':'] ++ r = l ++ ':' :: r := by simp
  simp only [hcolon, hcut] at hlists
  have hkind : (':' ≠ ':' : Bool) = false := by simp
  -- from the right end
  obtain ⟨hrest, hlegs⟩ := Numeral.split_last (p := fun c => c ≠ ':') hkind (hno hleg)
    (hno hleg') hlists
  obtain ⟨hfront, hdays⟩ := Numeral.split_last (p := fun c => c ≠ ':') hkind
    (hno (Day.colon_not_mem_isoformat day)) (hno (Day.colon_not_mem_isoformat day')) hrest
  -- and from the left
  simp only [List.append_assoc, List.cons_append] at hfront
  obtain ⟨hbooks, hbehind⟩ := Numeral.split_first (p := fun c => c ≠ ':') hkind (hno hbook)
    (hno hbook') hfront
  obtain ⟨hstrategies, hkeys⟩ := Numeral.split_first (p := fun c => c ≠ ':') hkind (hno hstrategy)
    (hno hstrategy') hbehind
  exact ⟨String.toList_inj.mp hbooks, String.toList_inj.mp hstrategies, String.toList_inj.mp hkeys,
    Day.isoformat_injective (String.toList_inj.mp hdays), String.toList_inj.mp hlegs⟩

/-- What entries take from the configuration of the policy; only CNC is traded. -/
structure TradePolicyConfig where
  kStopAtr : ℚ
  kTargetAtr : ℚ
  product : Product
  kStopAtr_pos : 0 < kStopAtr
  kTargetAtr_pos : 0 < kTargetAtr
  product_eq : product = .cnc

/-- An entry the policy proposes, with the ATR the exit manager anchors to the fill. -/
structure Proposal where
  intent : OrderIntent
  signal : Signal
  atr : ℚ

structure Skipped where
  signal : Signal
  reason : String

theorem no_quantity : ∀ q ∈ (none : Option ℤ), 0 < q := by simp

theorem no_price : ∀ p ∈ (none : Option ℚ), 0 < p := by simp

theorem market_needs_no_price {price : Option ℚ} : OrderType.market = .limit → price.isSome := by
  simp

theorem market_needs_no_trigger {price : Option ℚ} :
    OrderType.market = .sl ∨ OrderType.market = .slM → price.isSome := by simp

theorem market_is_no_sl {price : Option ℚ} : OrderType.market = .sl → price.isSome := by simp

/-- The intent of an entry, sized by the risk engine later. -/
def TradePolicyConfig.entry (config : TradePolicyConfig) (id bookId : String) (signal : Signal)
    (instrument : Instrument) (stop target price : ℚ) (decisionTs : Instant)
    (price_pos : 0 < price) : OrderIntent :=
  { intentId := id, decisionId := signal.decisionId, parentDecisionId := none, bookId
    strategy := signal.strategy, signalId := some signal.signalId, instrument, side := .buy
    kind := .open, quantity := none, orderType := .market, product := config.product
    validity := .day
    limitPrice := none, triggerPrice := none, stopPrice := some stop, targetPrice := some target
    reduceOnly := false, decisionPrice := price, decisionTs, reason := .entry
    source := .signalEngine
    quantity_pos := no_quantity, limitPrice_pos := no_price, triggerPrice_pos := no_price
    decisionPrice_pos := price_pos, reduceOnly_eq := rfl
    limit_needs_price := market_needs_no_price, sl_needs_trigger := market_needs_no_trigger
    sl_needs_price := market_is_no_sl }

/-- `TradePolicy.propose`, without the event of a proposal, which its caller emits. -/
def TradePolicyConfig.propose (config : TradePolicyConfig) (signal : Signal)
    (instrument : Instrument) (bookId : String) (price : ℚ) (arrivalPrice atr : Option ℚ)
    (decisionTs : Instant) : Except Exc (Skipped ⊕ Proposal) :=
  let anchor := arrivalPrice.getD price
  if signal.instrumentKey ≠ instrument.key then
    .error (.valueError
      ("signal for " ++ signal.instrumentKey ++ ", instrument " ++ instrument.key))
  else if signal.isShadow then .ok (.inl ⟨signal, "shadow"⟩)
  else if signal.side ≠ .buy then .ok (.inl ⟨signal, "long_only"⟩)
  else match atr with
    | none => .ok (.inl ⟨signal, "no_atr"⟩)
    | some atr =>
      if price_pos : 0 < price then
        if atr ≤ 0 ∨ anchor ≤ 0 ∨ anchor - signal.stopAtrMult * atr ≤ 0 then
          .ok (.inl ⟨signal, "no_atr"⟩)
        else do
          let id ← intentId bookId signal.strategy instrument.key signal.barDate "entry"
          let intent := config.entry id bookId signal instrument
            (anchor - signal.stopAtrMult * atr) (anchor + signal.targetAtrMult * atr) price
            decisionTs price_pos
          return .inr ⟨intent, signal, atr⟩
      else .ok (.inl ⟨signal, "no_atr"⟩)

/-! ## What a proposal carries -/

/-- Which signal a record belongs to. -/
structure Origin where
  signalId : Option String
  decisionId : String
  instrumentKey : String
  strategy : String
deriving DecidableEq

def Signal.origin (s : Signal) : Origin :=
  ⟨some s.signalId, s.decisionId, s.instrumentKey, s.strategy⟩

def OrderIntent.origin (i : OrderIntent) : Origin :=
  ⟨i.signalId, i.decisionId, i.instrument.key, i.strategy⟩

/-- A proposal made from a signal. -/
structure Proposal.From (p : Proposal) (s : Signal) (i : Instrument) : Prop where
  signal : p.signal = s
  instrument : p.intent.instrument = i
  origin : p.intent.origin = s.origin
  atr : 0 < p.atr

theorem Instrument.key_ne (i : Instrument) : i.key ≠ "" := by
  intro h
  have := congrArg String.length h
  simp [Instrument.key] at this

/-- For a book and a strategy with plain names the policy raises nothing. -/
theorem propose_cases (config : TradePolicyConfig) {signal : Signal} {instrument : Instrument}
    {bookId : String} (price : ℚ) (arrivalPrice atr : Option ℚ) (decisionTs : Instant)
    (hkey : signal.instrumentKey = instrument.key) (hbook : Plain bookId)
    (hstrategy : Plain signal.strategy) :
    (∃ reason, config.propose signal instrument bookId price arrivalPrice atr decisionTs =
        .ok (.inl ⟨signal, reason⟩)) ∨
      ∃ p : Proposal, config.propose signal instrument bookId price arrivalPrice atr decisionTs =
        .ok (.inr p) ∧ p.From signal instrument := by
  simp only [TradePolicyConfig.propose, hkey, ne_eq, not_true_eq_false, if_false]
  split
  · exact .inl ⟨_, rfl⟩
  split
  · exact .inl ⟨_, rfl⟩
  cases atr with
  | none => exact .inl ⟨_, rfl⟩
  | some atr =>
    simp only
    split
    · split
      · exact .inl ⟨_, rfl⟩
      · rename_i hvalid
        rw [intentId_entry _ hbook hstrategy instrument.key_ne]
        refine .inr ⟨_, rfl, rfl, rfl, ?_, ?_⟩
        · rw [OrderIntent.origin, Signal.origin, hkey]
          rfl
        · exact lt_of_not_ge fun hatr => hvalid (.inl hatr)
    · exact .inl ⟨_, rfl⟩

end RakshaQuant
