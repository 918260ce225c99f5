import Mathlib.Data.List.Sort
import RakshaQuant.Lib.Grouping
import RakshaQuant.Lib.Traverse
import RakshaQuant.Marketdata.History
import RakshaQuant.Store.Tape

/-! Daily history on the tape. A series is written as its raw bars and its adjusted ones, and read
back from them: the factor of a date is the quotient of the two closes. -/

namespace RakshaQuant

namespace History

/-- A bar of a series, which is validated. -/
def dailyBar (key : String) (adjusted : Bool) (day : Day) (row : PriceRow) : Except Exc Bar :=
  if h : key ≠ "" ∧ (0 < row.open ∧ 0 < row.high ∧ 0 < row.low ∧ 0 < row.close) ∧
      0 ≤ row.volume ∧ max (max row.open row.close) row.low ≤ row.high ∧
      row.low ≤ min row.open row.close then
    .ok
      { instrumentKey := key, timeframe := .d1, sessionDate := day, «open» := row.open
        high := row.high, low := row.low, close := row.close, volume := row.volume
        isSettled := true, adjusted := adjusted, source := .yfinance
        instrumentKey_ne := h.1, open_pos := h.2.1.1, high_pos := h.2.1.2.1
        low_pos := h.2.1.2.2.1, close_pos := h.2.1.2.2.2, volume_nonneg := h.2.2.1
        high_max := h.2.2.2.1, low_min := h.2.2.2.2 }
  else .error (.validationError "Bar")

/-- `DailySeries.bars`. -/
def DailySeries.bars (s : DailySeries) (adjusted : Bool) : Except Exc (List Bar) :=
  (if adjusted then s.adjusted else s.raw).mapM fun r =>
    dailyBar s.instrumentKey adjusted r.1 r.2

/-- `HistoryResult`: what the day's history is, and the instruments it is missing. A series is
kept under its own key. -/
structure HistoryResult where
  series : Dict String DailySeries
  failed : Dict String String
  repaired : Dict String ℕ
  lagging : Dict String Day
  keyed : ∀ key s, series.get? key = some s → s.instrumentKey = key

/-- The series that end before the last session expected. -/
def laggingOf (expectedLast : Option Day) (series : Dict String DailySeries) : Dict String Day :=
  match expectedLast with
  | none => .empty
  | some expected => .ofList (series.entries.filterMap fun e =>
      (e.2.lastDate.filter fun last => last < expected).map fun last => (e.1, last))

/-! ## Writing -/

/-- The bars of some series, the raw ones of each before the adjusted. -/
def barsOf : List DailySeries → Except Exc (List Bar)
  | [] => .ok []
  | s :: rest => do
    let raw ← s.bars false
    let adjusted ← s.bars true
    let later ← barsOf rest
    return raw ++ adjusted ++ later

/-- `record_history`: the bars it adds to the tape. -/
def recordHistory (result : HistoryResult) : Except Exc (List Bar) := barsOf result.series.values

/-! ## Reading back -/

/-- A row of the raw bar of a date, and the adjusted one if there is one. -/
def FrameRow.ofBars (bar : Bar) (adjusted : Option Bar) : FrameRow :=
  { «open» := bar.open, high := bar.high, low := bar.low, close := bar.close, volume := bar.volume
    dividend := 0, split := 0
    factor := match adjusted with
      | some adj => adj.close / bar.close
      | none => 1 }

/-- The frame of an instrument, by date. -/
def frameOf (raw adjusted : Dict Day Bar) : List (Day × FrameRow) :=
  (raw.keys.insertionSort (· ≤ ·)).filterMap fun d =>
    (raw.get? d).map fun bar => (d, FrameRow.ofBars bar (adjusted.get? d))

/-- The bars of a kind before a date, by instrument and date. -/
def settledBars (bars : List Bar) (settledBefore : Day) (adjusted : Bool) :
    Dict String (Dict Day Bar) :=
  Dict.group Bar.instrumentKey Bar.sessionDate (bars.filter fun bar =>
    bar.sessionDate < settledBefore ∧ bar.isSettled ∧ bar.adjusted = adjusted)

/-- The series of an instrument, if its raw bars are enough for one. -/
def replayed (minBars : ℕ) (key : String) (raw adjusted : Dict Day Bar) : Option DailySeries :=
  if raw.keys.length < minBars then none else some ⟨key, frameOf raw adjusted⟩

def tooShort (minBars : ℕ) (raw : Dict Day Bar) : Option String :=
  if raw.keys.length < minBars then
    some ("only " ++ toString raw.keys.length ++ " settled bars (need " ++ toString minBars ++ ")")
  else none

def seriesOf (bars : List Bar) (settledBefore : Day) (minBars : ℕ) : Dict String DailySeries :=
  let adjusted := settledBars bars settledBefore true
  .ofList ((settledBars bars settledBefore false).entries.filterMap fun e =>
    (replayed minBars e.1 e.2 ((adjusted.get? e.1).getD .empty)).map fun s => (e.1, s))

def failedOf (bars : List Bar) (settledBefore : Day) (minBars : ℕ) : Dict String String :=
  .ofList ((settledBars bars settledBefore false).entries.filterMap fun e =>
    (tooShort minBars e.2).map fun reason => (e.1, reason))

theorem seriesOf_get (bars : List Bar) (settledBefore : Day) (minBars : ℕ) (key : String) :
    (seriesOf bars settledBefore minBars).get? key =
      ((settledBars bars settledBefore false).get? key).bind fun raw =>
        replayed minBars key raw
          (((settledBars bars settledBefore true).get? key).getD .empty) :=
  Dict.get?_ofList_filterMap (settledBars bars settledBefore false) (fun key raw =>
    replayed minBars key raw (((settledBars bars settledBefore true).get? key).getD .empty)) key

theorem failedOf_get (bars : List Bar) (settledBefore : Day) (minBars : ℕ) (key : String) :
    (failedOf bars settledBefore minBars).get? key =
      ((settledBars bars settledBefore false).get? key).bind (tooShort minBars) :=
  Dict.get?_ofList_filterMap (settledBars bars settledBefore false)
    (fun _ raw => tooShort minBars raw) key

theorem seriesOf_keyed (bars : List Bar) (settledBefore : Day) (minBars : ℕ) (key : String)
    (s : DailySeries) (h : (seriesOf bars settledBefore minBars).get? key = some s) :
    s.instrumentKey = key := by
  rw [seriesOf_get, Option.bind_eq_some_iff] at h
  obtain ⟨raw, -, h⟩ := h
  unfold replayed at h
  split at h
  · cases h
  · cases h
    rfl

/-- `series_from_bars`. -/
def seriesFromBars (bars : List Bar) (settledBefore : Day) (minBars : ℕ)
    (expectedLast : Option Day) : HistoryResult :=
  { series := seriesOf bars settledBefore minBars
    failed := failedOf bars settledBefore minBars
    repaired := .empty
    lagging := laggingOf expectedLast (seriesOf bars settledBefore minBars)
    keyed := seriesOf_keyed bars settledBefore minBars }

/-! ## The bars on the tape -/

section bars

variable {key : String} {adjusted : Bool} {day : Day} {row : PriceRow} {bar : Bar}

/-- A bar holds what it is made of. -/
structure Holds (bar : Bar) (key : String) (adjusted : Bool) (day : Day) (row : PriceRow) :
    Prop where
  instrumentKey : bar.instrumentKey = key
  sessionDate : bar.sessionDate = day
  kind : bar.adjusted = adjusted
  settled : bar.isSettled = true
  prices : row = ⟨bar.open, bar.high, bar.low, bar.close, bar.volume⟩

theorem holds_of_dailyBar (h : dailyBar key adjusted day row = .ok bar) :
    Holds bar key adjusted day row := by
  unfold dailyBar at h
  split at h
  · cases h
    exact ⟨rfl, rfl, rfl, rfl, rfl⟩
  · cases h

/-- The rows of a series of either kind. -/
def DailySeries.rows (s : DailySeries) (adjusted : Bool) : List (Day × PriceRow) :=
  if adjusted then s.adjusted else s.raw

end bars

section written

variable {ss : List DailySeries} {written : List Bar}

/-- What is written is a bar of each kind for every row of every series. -/
theorem barsOf_spec (h : barsOf ss = .ok written) :
    (∀ bar, bar ∈ written ↔ ∃ s ∈ ss, ∃ adjusted, ∃ r ∈ s.rows adjusted,
      dailyBar s.instrumentKey adjusted r.1 r.2 = .ok bar) ∧
    ∀ s ∈ ss, ∀ adjusted, ∀ r ∈ s.rows adjusted,
      ∃ bar, dailyBar s.instrumentKey adjusted r.1 r.2 = .ok bar := by
  induction ss generalizing written with
  | nil =>
    cases h
    simp
  | cons s ss ih =>
    rw [barsOf] at h
    -- a refused bar of either kind, or of a later symbol, refuses the whole write
    cases hraw : s.bars false with
    | error e =>
      rw [hraw] at h
      cases h
    | ok raw =>
      cases hadjusted : s.bars true with
      | error e =>
        rw [hraw, hadjusted] at h
        cases h
      | ok adjusted =>
        cases hlater : barsOf ss with
        | error e =>
          rw [hraw, hadjusted, hlater] at h
          cases h
        | ok later =>
          rw [hraw, hadjusted, hlater] at h
          cases h
          obtain ⟨hmem, hall⟩ := ih hlater
          constructor
          · intro bar
            rw [List.mem_append, List.mem_append, Traverse.mem_mapM_iff hraw,
              Traverse.mem_mapM_iff hadjusted, hmem,
              List.exists_mem_cons_iff, Bool.exists_bool]
            rfl
          · refine List.forall_mem_cons.mpr ⟨fun kind => ?_, hall⟩
            cases kind with
            | false => exact Traverse.exists_mapM_ok_iff.mp ⟨raw, hraw⟩
            | true => exact Traverse.exists_mapM_ok_iff.mp ⟨adjusted, hadjusted⟩

end written

/-- A row of prices that a bar takes. -/
structure Priced (row : FrameRow) : Prop where
  low_pos : 0 < row.low
  low_le : row.low ≤ row.open ∧ row.low ≤ row.close
  le_high : row.open ≤ row.high ∧ row.close ≤ row.high
  volume_nonneg : 0 ≤ row.volume
  factor_pos : 0 < row.factor

theorem dailyBar_ok {key : String} {day : Day} {row : PriceRow} (adjusted : Bool)
    (hkey : key ≠ "") (hlow : 0 < row.low) (hle : row.low ≤ row.open ∧ row.low ≤ row.close)
    (hhigh : row.open ≤ row.high ∧ row.close ≤ row.high) (hvolume : 0 ≤ row.volume) :
    ∃ bar, dailyBar key adjusted day row = .ok bar := by
  have hvalid : key ≠ "" ∧ (0 < row.open ∧ 0 < row.high ∧ 0 < row.low ∧ 0 < row.close) ∧
      0 ≤ row.volume ∧ max (max row.open row.close) row.low ≤ row.high ∧
      row.low ≤ min row.open row.close := by
    have hopen := hlow.trans_le hle.1
    exact ⟨hkey, ⟨hopen, hopen.trans_le hhigh.1, hlow, hlow.trans_le hle.2⟩, hvolume,
      max_le (max_le hhigh.1 hhigh.2) (hle.1.trans hhigh.1), le_min hle.1 hle.2⟩
  rw [dailyBar, dif_pos hvalid]
  exact ⟨_, rfl⟩

/-- A history of such rows is written. -/
theorem recordHistory_ok {result : HistoryResult}
    (h : ∀ s ∈ result.series.values, s.instrumentKey ≠ "" ∧ ∀ r ∈ s.frame, Priced r.2) :
    ∃ written, recordHistory result = .ok written := by
  have hseries : ∀ s : DailySeries, s.instrumentKey ≠ "" → (∀ r ∈ s.frame, Priced r.2) →
      ∀ adjusted, ∃ bars, s.bars adjusted = .ok bars := by
    intro s hkey hrows adjusted
    refine Traverse.exists_mapM_ok_iff.mpr fun r hr => ?_
    cases adjusted with
    | false =>
      obtain ⟨r', hr', rfl⟩ := List.mem_map.mp hr
      have hrow := hrows r' hr'
      exact dailyBar_ok false hkey hrow.low_pos hrow.low_le hrow.le_high hrow.volume_nonneg
    | true =>
      obtain ⟨r', hr', rfl⟩ := List.mem_map.mp hr
      have hrow := hrows r' hr'
      have hscale : ∀ {x y : ℚ}, x ≤ y → x * r'.2.factor ≤ y * r'.2.factor := fun hxy =>
        mul_le_mul_of_nonneg_right hxy hrow.factor_pos.le
      exact dailyBar_ok true hkey (mul_pos hrow.low_pos hrow.factor_pos)
        ⟨hscale hrow.low_le.1, hscale hrow.low_le.2⟩ ⟨hscale hrow.le_high.1, hscale hrow.le_high.2⟩
        hrow.volume_nonneg
  unfold recordHistory
  generalize result.series.values = ss at h
  induction ss with
  | nil => exact ⟨[], rfl⟩
  | cons s ss ih =>
    obtain ⟨⟨hkey, hrows⟩, hrest⟩ := List.forall_mem_cons.mp h
    obtain ⟨raw, hraw⟩ := hseries s hkey hrows false
    obtain ⟨adjusted, hadjusted⟩ := hseries s hkey hrows true
    obtain ⟨later, hlater⟩ := ih hrest
    exact ⟨raw ++ adjusted ++ later, by rw [barsOf, hraw, hadjusted, hlater]; rfl⟩

/-! ## The round trip -/

/-- The series as a replay shows it. -/
def DailySeries.view (s : DailySeries) :
    List (Day × PriceRow) × List (Day × PriceRow) × Option ℚ :=
  (s.raw, s.adjusted, s.lastClose)

/-- What the history of a day is: enough bars of each instrument, at increasing dates before it. -/
structure Settled (s : DailySeries) (settledBefore : Day) (minBars : ℕ) : Prop where
  nonempty : s.frame ≠ []
  enough : minBars ≤ s.frame.length
  sorted : (s.frame.map Prod.fst).Pairwise (· < ·)
  before : ∀ d ∈ s.frame.map Prod.fst, d < settledBefore

section replay

variable {result : HistoryResult} {written bars : List Bar} {settledBefore : Day} {minBars : ℕ}

/-- A date is one row. -/
theorem Settled.row_eq {s : DailySeries} (h : Settled s settledBefore minBars) {d : Day}
    {row row' : FrameRow} (hrow : (d, row) ∈ s.frame) (hrow' : (d, row') ∈ s.frame) :
    row = row' := by
  have hnodup : (s.frame.map Prod.fst).Nodup := h.sorted.imp fun hlt => ne_of_lt hlt
  have heq := List.inj_on_of_nodup_map hnodup hrow hrow' rfl
  exact (Prod.mk.inj heq).2

/-- The bar of a kind of a row, as its own row gives it. -/
def DailySeries.priceRow (adjusted : Bool) (row : FrameRow) : PriceRow :=
  if adjusted then scaled row else row.prices

theorem DailySeries.mem_rows {s : DailySeries} {adjusted : Bool} {r : Day × PriceRow} :
    r ∈ s.rows adjusted ↔ ∃ row, (r.1, row) ∈ s.frame ∧ r.2 = priceRow adjusted row := by
  cases adjusted <;> simp [rows, raw, DailySeries.adjusted, priceRow, Prod.ext_iff, eq_comm]

/-- A bar of the tape is that of a row of the series of its instrument. -/
theorem bar_origin (hrecord : recordHistory result = .ok written) (hperm : bars.Perm written)
    {bar : Bar} (hbar : bar ∈ bars) : ∃ s row, result.series.get? bar.instrumentKey = some s ∧
      (bar.sessionDate, row) ∈ s.frame ∧ bar.isSettled = true ∧
      dailyBar bar.instrumentKey bar.adjusted bar.sessionDate
        (DailySeries.priceRow bar.adjusted row) = .ok bar := by
  obtain ⟨hmem, -⟩ := barsOf_spec hrecord
  obtain ⟨s, hs, kind, r, hr, hof⟩ := (hmem bar).mp (hperm.mem_iff.mp hbar)
  obtain ⟨row, hrow, hprices⟩ := DailySeries.mem_rows.mp hr
  obtain ⟨key, hkey⟩ := result.series.mem_values_iff.mp hs
  have hholds := holds_of_dailyBar hof
  rw [hprices] at hof
  rw [hholds.instrumentKey, hholds.sessionDate, hholds.kind, result.keyed key s hkey] at *
  exact ⟨s, row, hkey, hrow, hholds.settled, hof⟩

/-- On the tape there is, of each kind, the bar of every row and no other bar of the instrument. -/
theorem settledBars_get (hrecord : recordHistory result = .ok written) (hperm : bars.Perm written)
    (hsettled : ∀ key s, result.series.get? key = some s → Settled s settledBefore minBars)
    {key : String} {s : DailySeries} (hs : result.series.get? key = some s) (adjusted : Bool)
    (d : Day) (bar : Bar) :
    ((settledBars bars settledBefore adjusted).get? key).bind (fun days => days.get? d) =
        some bar ↔
      ∃ row, (d, row) ∈ s.frame ∧
        dailyBar key adjusted d (DailySeries.priceRow adjusted row) = .ok bar := by
  obtain ⟨hmem, -⟩ := barsOf_spec hrecord
  -- a settled series has one row a date, so at most one bar a key, date and kind
  have hone : ∀ a ∈ bars.filter (fun bar =>
        bar.sessionDate < settledBefore ∧ bar.isSettled ∧ bar.adjusted = adjusted),
      ∀ b ∈ bars.filter (fun bar =>
        bar.sessionDate < settledBefore ∧ bar.isSettled ∧ bar.adjusted = adjusted),
      a.instrumentKey = b.instrumentKey → a.sessionDate = b.sessionDate → a = b := by
    intro a ha b hb hkey hday
    obtain ⟨ha, hakind⟩ := List.mem_filter.mp ha
    obtain ⟨hb, hbkind⟩ := List.mem_filter.mp hb
    obtain ⟨sa, rowa, hsa, hrowa, -, hbara⟩ := bar_origin hrecord hperm ha
    obtain ⟨sb, rowb, hsb, hrowb, -, hbarb⟩ := bar_origin hrecord hperm hb
    rw [hkey, hsb, Option.some.injEq] at hsa
    subst hsa
    rw [hday] at hrowa
    have hkind : a.adjusted = b.adjusted :=
      (of_decide_eq_true hakind).2.2.trans (of_decide_eq_true hbkind).2.2.symm
    rw [(hsettled _ _ hsb).row_eq hrowa hrowb, hkey, hday, hkind, hbarb] at hbara
    exact (Except.ok.inj hbara).symm
  rw [settledBars, Dict.get?_group_iff hone, List.mem_filter, decide_eq_true_eq]
  constructor
  · rintro ⟨⟨hbar, -, -, rfl⟩, rfl, rfl⟩
    obtain ⟨s', row, hs', hrow, -, hof⟩ := bar_origin hrecord hperm hbar
    rw [hs, Option.some.injEq] at hs'
    subst hs'
    exact ⟨row, hrow, hof⟩
  · rintro ⟨row, hrow, hof⟩
    have hholds := holds_of_dailyBar hof
    have hkey := result.keyed key s hs
    have hwritten : bar ∈ written := (hmem bar).mpr ⟨s, result.series.mem_values_iff.mpr ⟨key, hs⟩,
      adjusted, (d, DailySeries.priceRow adjusted row),
      DailySeries.mem_rows.mpr ⟨row, hrow, rfl⟩, by rw [hkey]; exact hof⟩
    refine ⟨⟨hperm.mem_iff.mpr hwritten, ?_, hholds.settled, hholds.kind⟩, hholds.instrumentKey,
      hholds.sessionDate⟩
    rw [hholds.sessionDate]
    exact (hsettled key s hs).before d (List.mem_map.mpr ⟨(d, row), hrow, rfl⟩)

/-- Nothing is on the tape of an instrument without a series. -/
theorem settledBars_none (hrecord : recordHistory result = .ok written) (hperm : bars.Perm written)
    {key : String} (hs : result.series.get? key = none) :
    (settledBars bars settledBefore false).get? key = none := by
  obtain ⟨hmem, -⟩ := barsOf_spec hrecord
  rw [← Option.not_isSome_iff_eq_none, settledBars, Dict.isSome_group]
  rintro ⟨bar, hbar, rfl⟩
  obtain ⟨s, hin, kind, r, -, hof⟩ :=
    (hmem bar).mp (hperm.mem_iff.mp (List.mem_filter.mp hbar).1)
  obtain ⟨key', hkey'⟩ := result.series.mem_values_iff.mp hin
  rw [(holds_of_dailyBar hof).instrumentKey, result.keyed key' s hkey', hkey'] at hs
  cases hs

/-- A row without what the tape does not keep. -/
def keptRow (row : FrameRow) : FrameRow := { row with dividend := 0, split := 0 }

/-- The factor of a row comes back from the closes of its two bars. -/
theorem ofBars_eq {key : String} {d : Day} {row : FrameRow} {bar adj : Bar}
    (hraw : dailyBar key false d (DailySeries.priceRow false row) = .ok bar)
    (hadj : dailyBar key true d (DailySeries.priceRow true row) = .ok adj) :
    FrameRow.ofBars bar (some adj) = keptRow row := by
  have hprices : row.prices = ⟨bar.open, bar.high, bar.low, bar.close, bar.volume⟩ :=
    (holds_of_dailyBar hraw).prices
  have hscaled : DailySeries.scaled row = ⟨adj.open, adj.high, adj.low, adj.close, adj.volume⟩ :=
    (holds_of_dailyBar hadj).prices
  have hclose : row.close = bar.close := congrArg PriceRow.close hprices
  have hadjusted : row.close * row.factor = adj.close := congrArg PriceRow.close hscaled
  have hfactor : adj.close / bar.close = row.factor := by
    rw [← hadjusted, hclose, mul_div_cancel_left₀ _ bar.close_pos.ne']
  unfold FrameRow.ofBars keptRow
  simp only [hfactor]
  cases row
  simp only [FrameRow.prices, PriceRow.mk.injEq] at hprices
  obtain ⟨rfl, rfl, rfl, rfl, rfl⟩ := hprices
  rfl

/-- The series that is read back of an instrument. -/
theorem seriesOf_replays (hrecord : recordHistory result = .ok written)
    (hperm : bars.Perm written)
    (hsettled : ∀ key s, result.series.get? key = some s → Settled s settledBefore minBars)
    {key : String} {s : DailySeries} (hs : result.series.get? key = some s) :
    (seriesOf bars settledBefore minBars).get? key =
      some ⟨key, s.frame.map fun r => (r.1, keptRow r.2)⟩ := by
  obtain ⟨-, hall⟩ := barsOf_spec hrecord
  have hkey := result.keyed key s hs
  have hbar : ∀ adjusted, ∀ r ∈ s.frame, ∃ bar,
      dailyBar key adjusted r.1 (DailySeries.priceRow adjusted r.2) = .ok bar := by
    intro adjusted r hr
    have hrow : (r.1, DailySeries.priceRow adjusted r.2) ∈ s.rows adjusted :=
      DailySeries.mem_rows.mpr ⟨r.2, hr, rfl⟩
    rw [← hkey]
    exact hall s (result.series.mem_values_iff.mpr ⟨key, hs⟩) adjusted _ hrow
  have hget := settledBars_get hrecord hperm hsettled hs
  obtain ⟨hnonempty, henough, hsorted, -⟩ := hsettled key s hs
  -- the raw bars of the instrument
  obtain ⟨raw, hraw⟩ : ∃ raw, (settledBars bars settledBefore false).get? key = some raw := by
    obtain ⟨r, hr⟩ := List.exists_mem_of_ne_nil _ hnonempty
    obtain ⟨bar, hof⟩ := hbar false r hr
    obtain ⟨raw, hraw, -⟩ := Option.bind_eq_some_iff.mp ((hget false r.1 bar).mpr ⟨r.2, hr, hof⟩)
    exact ⟨raw, hraw⟩
  have hrawbar : ∀ d bar, raw.get? d = some bar ↔ ∃ row, (d, row) ∈ s.frame ∧
      dailyBar key false d (DailySeries.priceRow false row) = .ok bar := by
    intro d bar
    rw [← hget false d bar, hraw, Option.bind_some]
  have hadjbar : ∀ d bar, (((settledBars bars settledBefore true).get? key).getD .empty).get? d =
      some bar ↔ ∃ row, (d, row) ∈ s.frame ∧
        dailyBar key true d (DailySeries.priceRow true row) = .ok bar := by
    intro d bar
    rw [← hget true d bar]
    cases (settledBars bars settledBefore true).get? key <;> rfl
  have hdays : raw.keys.insertionSort (· ≤ ·) = s.frame.map Prod.fst := by
    refine Dict.insertionSort_keys hsorted fun d => ?_
    rw [Dict.mem_keys_iff, List.mem_map]
    constructor
    · rintro ⟨bar, h⟩
      obtain ⟨row, hrow, -⟩ := (hrawbar d bar).mp h
      exact ⟨(d, row), hrow, rfl⟩
    · rintro ⟨r, hr, rfl⟩
      obtain ⟨bar, hof⟩ := hbar false r hr
      exact ⟨bar, (hrawbar r.1 bar).mpr ⟨r.2, hr, hof⟩⟩
  have hlength : raw.keys.length = s.frame.length := by
    rw [← List.length_insertionSort (· ≤ ·) raw.keys, hdays, List.length_map]
  rw [seriesOf_get, hraw, Option.bind_some, replayed, if_neg (by omega)]
  congr 2
  rw [frameOf, hdays, List.filterMap_map]
  refine (List.filterMap_congr fun r hr => ?_).trans
    (congrFun List.filterMap_eq_map s.frame)
  obtain ⟨bar, hof⟩ := hbar false r hr
  obtain ⟨adj, hadj⟩ := hbar true r hr
  rw [Function.comp_apply, (hrawbar r.1 bar).mpr ⟨r.2, hr, hof⟩,
    (hadjbar r.1 adj).mpr ⟨r.2, hr, hadj⟩, Option.map_some, ofBars_eq hof hadj]
  rfl

/-- Nothing fails of an instrument with a series, and of one without there is nothing. -/
theorem failedOf_none (hrecord : recordHistory result = .ok written) (hperm : bars.Perm written)
    (hsettled : ∀ key s, result.series.get? key = some s → Settled s settledBefore minBars)
    (key : String) : (failedOf bars settledBefore minBars).get? key = none := by
  rw [failedOf_get]
  cases hs : result.series.get? key with
  | none => rw [settledBars_none hrecord hperm hs, Option.bind_none]
  | some s =>
    have hseries := seriesOf_replays hrecord hperm hsettled hs
    rw [seriesOf_get] at hseries
    obtain ⟨raw, hraw, hreplayed⟩ := Option.bind_eq_some_iff.mp hseries
    rw [hraw, Option.bind_some, tooShort]
    unfold replayed at hreplayed
    split at hreplayed
    · cases hreplayed
    next henough => rw [if_neg henough]

end replay

theorem laggingOf_get (expectedLast : Option Day) (series : Dict String DailySeries)
    (key : String) : (laggingOf expectedLast series).get? key =
      expectedLast.bind fun expected => (series.get? key).bind fun s =>
        s.lastDate.filter fun last => last < expected := by
  cases expectedLast with
  | none => rfl
  | some expected =>
    exact Dict.get?_ofList_filterMap series
      (fun _ s => s.lastDate.filter fun last => last < expected) key

/-- What the tape keeps of a series shows as the series does. -/
theorem view_kept (key : String) (s : DailySeries) :
    (DailySeries.mk key (s.frame.map fun r => (r.1, keptRow r.2))).view = s.view ∧
      (DailySeries.mk key (s.frame.map fun r => (r.1, keptRow r.2))).lastDate = s.lastDate := by
  refine ⟨?_, ?_⟩
  · simp only [DailySeries.view, DailySeries.raw, DailySeries.adjusted, DailySeries.lastClose,
      List.map_map, List.getLast?_map, Option.map_map]
    rfl
  · simp only [DailySeries.lastDate, List.getLast?_map, Option.map_map]
    rfl

/-- **Taped history replays exactly**, whatever order the tape gives its bars in. -/
theorem series_from_bars_record_history {result : HistoryResult} {written bars : List Bar}
    {settledBefore : Day} {minBars : ℕ} (expectedLast : Option Day)
    (hsettled : ∀ key s, result.series.get? key = some s → Settled s settledBefore minBars)
    (hrecord : recordHistory result = .ok written) (hperm : bars.Perm written) (key : String) :
    ((seriesFromBars bars settledBefore minBars expectedLast).series.get? key).map
        DailySeries.view = (result.series.get? key).map DailySeries.view ∧
      (seriesFromBars bars settledBefore minBars expectedLast).lagging.get? key =
        (laggingOf expectedLast result.series).get? key ∧
      (seriesFromBars bars settledBefore minBars expectedLast).failed.get? key = none := by
  refine ⟨?_, ?_, failedOf_none hrecord hperm hsettled key⟩
  · show ((seriesOf bars settledBefore minBars).get? key).map DailySeries.view = _
    cases hs : result.series.get? key with
    | none =>
      rw [seriesOf_get, settledBars_none hrecord hperm hs, Option.bind_none, Option.map_none]
    | some s =>
      rw [seriesOf_replays hrecord hperm hsettled hs, Option.map_some, (view_kept key s).1]
      rfl
  · show (laggingOf expectedLast (seriesOf bars settledBefore minBars)).get? key = _
    rw [laggingOf_get, laggingOf_get]
    cases hs : result.series.get? key with
    | none => rw [seriesOf_get, settledBars_none hrecord hperm hs, Option.bind_none]
    | some s =>
      rw [seriesOf_replays hrecord hperm hsettled hs]
      simp only [Option.bind_some, (view_kept key s).2]

/-! Two instruments, one of them with an ex-date between its bars and the other behind. -/

namespace TwoStreams

def row (close factor : ℚ) : FrameRow := ⟨close, close, close, close, 1000, 0, 0, factor⟩

def infy : DailySeries := ⟨"NSE:EQ:INFY", [(20000, row 100 (9 / 10)), (20001, row 90 1)]⟩

def tcs : DailySeries := ⟨"NSE:EQ:TCS", [(19999, row 50 1), (20000, row 51 1)]⟩

def series : Dict String DailySeries := .ofList [("NSE:EQ:INFY", infy), ("NSE:EQ:TCS", tcs)]

theorem series_keyed (key : String) (s : DailySeries) (h : series.get? key = some s) :
    s.instrumentKey = key := by
  rcases List.mem_cons.mp (Dict.mem_of_ofList h) with heq | hmem
  · cases heq
    rfl
  · cases List.mem_singleton.mp hmem
    rfl

def result : HistoryResult := ⟨series, .empty, .empty, .empty, series_keyed⟩

theorem priced (close : ℚ) {factor : ℚ} (hclose : 0 < close) (hfactor : 0 < factor) :
    Priced (row close factor) :=
  ⟨hclose, ⟨le_rfl, le_rfl⟩, ⟨le_rfl, le_rfl⟩, Int.natCast_nonneg 1000, hfactor⟩

theorem series_from_bars_record_history_reversed : ∃ written, recordHistory result = .ok written ∧
    ((seriesFromBars written.reverse 20002 2 (some 20001)).series.get? "NSE:EQ:INFY").map
        DailySeries.view = some infy.view ∧
      (seriesFromBars written.reverse 20002 2 (some 20001)).lagging.get? "NSE:EQ:INFY" = none := by
  have hvalues : ∀ s ∈ result.series.values, s = infy ∨ s = tcs := by
    intro s hs
    obtain ⟨key, hkey⟩ := result.series.mem_values_iff.mp hs
    rcases List.mem_cons.mp (Dict.mem_of_ofList hkey) with heq | hmem
    · cases heq
      exact .inl rfl
    · cases List.mem_singleton.mp hmem
      exact .inr rfl
  obtain ⟨written, hwritten⟩ := @recordHistory_ok result (by
    intro s hs
    rcases hvalues s hs with rfl | rfl
    · refine ⟨by decide, ?_⟩
      simp only [infy, List.forall_mem_cons]
      exact ⟨priced 100 (by norm_num) (by norm_num), priced 90 (by norm_num) (by norm_num), by simp⟩
    · refine ⟨by decide, ?_⟩
      simp only [tcs, List.forall_mem_cons]
      exact ⟨priced 50 (by norm_num) (by norm_num), priced 51 (by norm_num) (by norm_num), by simp⟩)
  have hsettled : ∀ key s, result.series.get? key = some s → Settled s 20002 2 := by
    intro key s hs
    rcases hvalues s (result.series.mem_values_iff.mpr ⟨key, hs⟩) with rfl | rfl
    · exact ⟨by simp [infy], le_rfl, by decide, by decide⟩
    · exact ⟨by simp [tcs], le_rfl, by decide, by decide⟩
  obtain ⟨hview, hlagging, -⟩ := series_from_bars_record_history (some 20001) hsettled hwritten
    (List.reverse_perm written) "NSE:EQ:INFY"
  exact ⟨written, hwritten, hview, hlagging.trans (by decide +kernel)⟩

end TwoStreams

end History

end RakshaQuant
