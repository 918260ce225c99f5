import RakshaQuant.Domain.Calendar
import RakshaQuant.Lib.Blocks
import RakshaQuant.Lib.Decimal

/-! Signals on settled bars. A strategy looks at one instrument's features and may
detect a side with a base score; the detection becomes a validated signal whose
agreement score blends that base with the votes of independent indicators. The
indicators themselves come from the numerical libraries and are inputs. -/

namespace RakshaQuant

/-- The market regime: context, never an exit trigger. -/
inductive Regime
  | trendingUp
  | trendingDown
  | ranging
  | volatile
deriving DecidableEq

def Regime.value : Regime → String
  | trendingUp => "trending_up"
  | trendingDown => "trending_down"
  | ranging => "ranging"
  | volatile => "volatile"

inductive Verdict
  | approve
  | veto
  | abstain
deriving DecidableEq

/-- What a part of an intent id must be: non-empty and without the separator. -/
def Plain (text : String) : Prop := text ≠ "" ∧ ':' ∉ text.toList

instance (text : String) : Decidable (Plain text) := inferInstanceAs (Decidable (_ ∧ _))

structure Signal where
  signalId : String
  decisionId : String
  instrumentKey : String
  strategy : String
  side : Side
  barDate : Day
  agreementScore : ℚ
  stopAtrMult : ℚ
  targetAtrMult : ℚ
  isShadow : Bool
  generatedAt : Instant
  named : signalId ≠ "" ∧ decisionId ≠ "" ∧ instrumentKey ≠ "" ∧ strategy ≠ ""
  score_mem : 0 ≤ agreementScore ∧ agreementScore ≤ 1
  mults_pos : 0 < stopAtrMult ∧ 0 < targetAtrMult
deriving DecidableEq

/-! ## Features -/

/-- The indicators of a series' last bar that decisions read; a value still in
warm-up is missing. -/
structure Indicators where
  barDate : Day
  close : ℚ
  rsi14 : Option ℚ
  macdHist : Option ℚ
  plusDi14 : Option ℚ
  minusDi14 : Option ℚ
  atr14 : Option ℚ
  ema21 : Option ℚ
  sma20 : Option ℚ

structure Features extends Indicators where
  instrumentKey : String

/-- One instrument's settled daily bars: the last raw close, and what computing
the indicators of the adjusted bars gives or raises. -/
structure DailySeries where
  lastClose : ℚ
  adjusted : Except Exc Indicators

/-- `compute_features`. -/
def computeFeatures (series : DailySeries) (instrumentKey : String) : Except Exc Features := do
  return { (← series.adjusted) with instrumentKey }

/-! ## Strategies -/

structure Detection where
  side : Side
  baseScore : ℚ

structure Strategy where
  name : String
  rsiContrarian : Bool
  detect : Features → Except Exc (Option Detection)
  plain : Plain name

/-- `registry`: the strategies by their names. -/
structure Registry where
  strategies : List Strategy
  nodup_names : (strategies.map Strategy.name).Nodup

def Registry.get? (known : Registry) (name : String) : Option Strategy :=
  known.strategies.find? (·.name = name)

theorem Registry.get?_name {known : Registry} {name : String} {strategy : Strategy}
    (h : known.get? name = some strategy) : strategy.name = name := by
  simpa using List.find?_some h

def scoreCap : ℚ := 95 / 100

/-- The moving average that the close is compared with; a zero counts as missing. -/
def Indicators.reference (f : Indicators) : Option ℚ :=
  match f.ema21 with
  | some ema => if ema = 0 then f.sma20 else some ema
  | none => f.sma20

/-- The votes of the indicators there are. -/
def votes (f : Indicators) (side : Side) (rsiContrarian : Bool) : List Bool :=
  let favours (left right : ℚ) : Bool :=
    match side with
    | .buy => right < left
    | .sell => left < right
  let rsi := f.rsi14.map fun rsi => if rsiContrarian then favours 50 rsi else favours rsi 50
  let macd := f.macdHist.map fun hist => favours hist 0
  let di := f.plusDi14.bind fun plus => f.minusDi14.map fun minus => favours plus minus
  let average := f.reference.map fun ref => favours f.close ref
  [rsi, macd, di, average].filterMap id

/-- The fraction of the votes that agree with the side; a half when there is none. -/
def agreement (f : Indicators) (side : Side) (rsiContrarian : Bool) : ℚ :=
  let cast := votes f side rsiContrarian
  if cast = [] then 1 / 2 else (cast.count true : ℚ) / cast.length

def agreementScore (f : Indicators) (detection : Detection) (rsiContrarian : Bool) : ℚ :=
  let blended := 4 / 10 * detection.baseScore +
    6 / 10 * (35 / 100 + 55 / 100 * agreement f detection.side rsiContrarian)
  Decimal.quantize (1 / 100) (min scoreCap blended)

/-- `signal_id`: the same strategy on the same settled bar is the same signal. -/
def signalId (strategy : String) (f : Features) : String :=
  strategy ++ ":" ++ f.instrumentKey ++ ":" ++ Day.isoformat f.barDate

/-- What a cycle gives every signal of one instrument. -/
structure SignalContext where
  decisionId : String
  generatedAt : Instant
  stopAtrMult : ℚ
  targetAtrMult : ℚ

/-- The model's fields are validated; a bad one raises. -/
def makeSignal (strategy : Strategy) (f : Features) (detection : Detection) (c : SignalContext)
    (isShadow : Bool) : Except Exc Signal :=
  let id := signalId strategy.name f
  let score := agreementScore f.toIndicators detection strategy.rsiContrarian
  if named : id ≠ "" ∧ c.decisionId ≠ "" ∧ f.instrumentKey ≠ "" ∧ strategy.name ≠ "" then
    if score_mem : 0 ≤ score ∧ score ≤ 1 then
      if mults_pos : 0 < c.stopAtrMult ∧ 0 < c.targetAtrMult then
        .ok
          { signalId := id, decisionId := c.decisionId, instrumentKey := f.instrumentKey
            strategy := strategy.name, side := detection.side, barDate := f.barDate
            agreementScore := score, stopAtrMult := c.stopAtrMult
            targetAtrMult := c.targetAtrMult, isShadow, generatedAt := c.generatedAt
            named, score_mem, mults_pos }
      else .error (.validationError "Input should be greater than 0")
    else .error (.validationError "Input should be between 0 and 1")
  else .error (.validationError "String should have at least 1 character")

/-- The loop of `generate_signals` over the strategies' names, with whether each
only shadows. -/
def detectAll (known : Registry) (f : Features) (c : SignalContext) :
    List (String × Bool) → Except Exc (List Signal)
  | [] => .ok []
  | (name, isShadow) :: rest =>
    match known.get? name with
    | none => .error (.keyError name)
    | some strategy => do
      match ← strategy.detect f with
      | none => detectAll known f c rest
      | some detection =>
        let signal ← makeSignal strategy f detection c isShadow
        return signal :: (← detectAll known f c rest)

/-- Enabled strategies first, then the shadow ones. -/
def generateSignals (known : Registry) (f : Features) (enabled shadow : List String)
    (c : SignalContext) : Except Exc (List Signal) :=
  let enabledNames := Blocks.firsts id [] enabled
  let shadowNames := (Blocks.firsts id [] shadow).filter (· ∉ enabledNames)
  let unknown := (enabledNames ++ shadowNames).filter fun name => known.get? name = none
  if unknown ≠ [] then
    .error (.valueError ("unknown strategies: ['" ++ "', '".intercalate unknown ++ "']"))
  else detectAll known f c (enabledNames.map (·, false) ++ shadowNames.map (·, true))

/-! ## What generated signals carry -/

/-- A signal says where it comes from. -/
structure Signal.Of (s : Signal) (f : Features) (c : SignalContext) : Prop where
  decisionId : s.decisionId = c.decisionId
  instrumentKey : s.instrumentKey = f.instrumentKey
  plain : Plain s.strategy

theorem makeSignal_ok {strategy : Strategy} {f : Features} {detection : Detection}
    {c : SignalContext} {isShadow : Bool} {s : Signal}
    (h : makeSignal strategy f detection c isShadow = .ok s) :
    s.Of f c ∧ s.strategy = strategy.name := by
  simp only [makeSignal] at h
  split at h
  · split at h
    · split at h
      · cases h
        exact ⟨⟨rfl, rfl, strategy.plain⟩, rfl⟩
      · cases h
    · cases h
  · cases h

theorem detectAll_ok {known : Registry} {f : Features} {c : SignalContext}
    {names : List (String × Bool)} {signals : List Signal}
    (h : detectAll known f c names = .ok signals) :
    (∀ s ∈ signals, s.Of f c) ∧
      List.Sublist (signals.map Signal.strategy) (names.map Prod.fst) := by
  -- by induction on the strategies: each adds one signal of its name, or none
  induction names generalizing signals with
  | nil =>
    cases h
    simp
  | cons entry rest ih =>
    obtain ⟨name, isShadow⟩ := entry
    rw [detectAll] at h
    cases hget : known.get? name with
    | none =>
      rw [hget] at h
      cases h
    | some strategy =>
      simp only [hget] at h
      cases hdetect : strategy.detect f with
      | error e =>
        rw [hdetect] at h
        cases h
      | ok found =>
        rw [hdetect] at h
        cases found with
        | none =>
          obtain ⟨hof, hsub⟩ := ih h
          exact ⟨hof, hsub.cons _⟩
        | some detection =>
          simp only [bind, Except.bind] at h
          cases hmake : makeSignal strategy f detection c isShadow with
          | error e =>
            rw [hmake] at h
            cases h
          | ok signal =>
            rw [hmake] at h
            cases hrest : detectAll known f c rest with
            | error e =>
              rw [hrest] at h
              cases h
            | ok others =>
              rw [hrest] at h
              cases h
              obtain ⟨hof, hsub⟩ := ih hrest
              obtain ⟨hnew, hname⟩ := makeSignal_ok hmake
              have hhead : signal.strategy = name := hname.trans (Registry.get?_name hget)
              refine ⟨fun s hs => ?_, ?_⟩
              · rcases List.mem_cons.mp hs with hs | hs
                · rw [hs]
                  exact hnew
                · exact hof s hs
              · simp only [List.map_cons, hhead]
                exact hsub.cons_cons name

/-- The signals of one instrument are of different strategies. -/
theorem generateSignals_ok {known : Registry} {f : Features} {enabled shadow : List String}
    {c : SignalContext} {signals : List Signal}
    (h : generateSignals known f enabled shadow c = .ok signals) :
    (∀ s ∈ signals, s.Of f c) ∧ (signals.map Signal.strategy).Nodup := by
  simp only [generateSignals] at h
  split at h
  · cases h
  · obtain ⟨hof, hsub⟩ := detectAll_ok h
    refine ⟨hof, hsub.nodup ?_⟩
    have henabled := Blocks.nodup_firsts id [] enabled
    have hshadow := Blocks.nodup_firsts id [] shadow
    rw [List.map_id] at henabled hshadow
    simp only [List.map_append, List.map_map, Function.comp_def, List.map_id']
    refine henabled.append (hshadow.filter _) fun name hname hother => ?_
    simpa [hname] using (List.mem_filter.mp hother).2

end RakshaQuant
