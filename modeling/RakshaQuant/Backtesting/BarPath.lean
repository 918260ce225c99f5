import Mathlib.Data.List.Zip
import RakshaQuant.Backtesting.Bars
import RakshaQuant.Engine.Lifecycle
import RakshaQuant.Lib.Decimal
import RakshaQuant.Lib.Interpolation
import RakshaQuant.Lib.Traverse

/-! A daily bar as the quotes of its session: the open twice, then in equal steps down to the low,
up to the high and on to the close. A stop inside the bar is met before a target. Prices and
volumes are exact rationals here. -/

namespace RakshaQuant

namespace BarPath

def opening : ℤ := 33300000000

/-- 09:21, the first quote after the decision at 09:20. -/
def firstFill : ℤ := 33660000000

/-- 15:25. -/
def lastQuote : ℤ := 55500000000

/-- `round(x, 2)`. -/
def round2 (x : ℚ) : ℚ := Decimal.quantize (1 / 100) x

/-- `_prices`. -/
def prices (bar : Bar) (legs : ℕ) : List ℚ :=
  [bar.open, bar.open] ++ Interpolation.leg bar.open bar.low legs ++
    Interpolation.leg bar.low bar.high legs ++ Interpolation.leg bar.high bar.close legs

/-- How long after the first fill the step at `i` ends. A part of a duration is rounded to the
microsecond. -/
def elapsed (steps i : ℕ) : ℤ :=
  Decimal.roundHalfEven (((lastQuote - firstFill : ℤ) : ℚ) * (i + 1) / steps)

def times (day : Day) (steps : ℕ) : List Instant :=
  day.at opening :: day.at firstFill ::
    (List.range steps).map fun i : ℕ => day.at firstFill + elapsed steps i

/-- `replace(microsecond=0)`. -/
def toSecond (ts : Instant) : Instant := ts / 1000000 * 1000000

/-- The volume up to the quote at `i` of `n`. -/
def accrued (bar : Bar) (n i : ℕ) : ℤ := bar.volume * (i + 1) / n

theorem accrued_nonneg (bar : Bar) (n i : ℕ) : 0 ≤ accrued bar n i :=
  Int.ediv_nonneg (mul_nonneg bar.volume_nonneg (by positivity)) (Int.natCast_nonneg n)

theorem no_price : ∀ p ∈ (none : Option ℚ), 0 < p := by simp

/-- A quote of the path, which is validated. -/
def quote (bar : Bar) (prevClose : Option ℚ) (source : MarketDataSource) (n i : ℕ) (ts : Instant)
    (price : ℚ) : Except Exc RecordedQuote :=
  if h : 0 < round2 price ∧ ∀ p ∈ prevClose, 0 < p then
    .ok
      { instrumentKey := bar.instrumentKey, ltp := round2 price, prevClose
        volumeCum := accrued bar n i, exchangeTs := toSecond ts, receiptTs := toSecond ts
        bid := none, ask := none, source, isDelayed := false, qualityFlags := []
        ltp_pos := h.1, prevClose_pos := h.2, volumeCum_nonneg := accrued_nonneg bar n i
        instrumentKey_ne := bar.instrumentKey_ne, bid_pos := no_price
        ask_pos := no_price }
  else .error (.validationError "Quote")

end BarPath

open BarPath in
/-- `bar_path`. -/
def barPath (bar : Bar) (prevClose : Option ℚ) (legs : ℕ) (source : MarketDataSource) :
    Except Exc (List RecordedQuote) :=
  let ps := prices bar legs
  ((times bar.sessionDate (ps.length - 2)).zip ps).zipIdx.mapM fun e =>
    quote bar prevClose source ps.length e.2 e.1.1 e.1.2

namespace BarPath

/-! ## Rounding -/

theorem round2_mono {x y : ℚ} (h : x ≤ y) : round2 x ≤ round2 y :=
  Decimal.quantize_mono (by norm_num) h

theorem toSecond_lt {a b : ℤ} (h : a + 1000000 ≤ b) : toSecond a < toSecond b := by
  show a / 1000000 * 1000000 < (b / 1000000 * 1000000 : ℤ)
  omega

theorem toSecond_mono {a b : ℤ} (h : a ≤ b) : toSecond a ≤ toSecond b := by
  show a / 1000000 * 1000000 ≤ (b / 1000000 * 1000000 : ℤ)
  omega

/-- A whole second of a day stays as it is. -/
theorem toSecond_at (day : Day) (seconds : ℤ) :
    toSecond (day.at (seconds * 1000000)) = day.at (seconds * 1000000) := by
  have hwhole : ∀ d : ℤ, (d * 86400000000 - 19800000000 + seconds * 1000000) / 1000000 * 1000000 =
      d * 86400000000 - 19800000000 + seconds * 1000000 := by
    intro d
    omega
  exact hwhole day

/-! ## The lists of a path -/

section path

variable {bar : Bar} {legs : ℕ} {day : Day}

theorem length_prices (bar : Bar) (legs : ℕ) : (prices bar legs).length = 3 * legs + 2 := by
  simp [prices]
  omega

theorem length_times (day : Day) (steps : ℕ) : (times day steps).length = steps + 2 := by
  simp [times]

theorem low_le_high (bar : Bar) : bar.low ≤ bar.high :=
  (le_max_right _ _).trans bar.high_max

theorem open_mem (bar : Bar) : bar.open ∈ Set.Icc bar.low bar.high :=
  ⟨bar.low_min.trans (min_le_left _ _),
    (le_max_left _ _).trans ((le_max_left _ _).trans bar.high_max)⟩

theorem close_mem (bar : Bar) : bar.close ∈ Set.Icc bar.low bar.high :=
  ⟨bar.low_min.trans (min_le_right _ _),
    (le_max_right _ _).trans ((le_max_left _ _).trans bar.high_max)⟩

theorem prices_mem {x : ℚ} (hx : x ∈ prices bar legs) : x ∈ Set.Icc bar.low bar.high := by
  have hlow : bar.low ∈ Set.Icc bar.low bar.high := ⟨le_rfl, low_le_high bar⟩
  have hhigh : bar.high ∈ Set.Icc bar.low bar.high := ⟨low_le_high bar, le_rfl⟩
  simp only [prices, List.mem_append] at hx
  rcases hx with ((hx | hx) | hx) | hx
  · simp only [List.mem_cons, List.not_mem_nil, or_false, or_self] at hx
    rw [hx]
    exact open_mem bar
  · exact Interpolation.mem_leg_Icc (open_mem bar) hlow hx
  · exact Interpolation.mem_leg_Icc hlow hhigh hx
  · exact Interpolation.mem_leg_Icc hhigh (close_mem bar) hx

theorem low_mem_prices (hlegs : 0 < legs) : bar.low ∈ prices bar legs := by
  have hend := Interpolation.end_mem_leg bar.open bar.low hlegs
  simp [prices, hend]

theorem high_mem_prices (hlegs : 0 < legs) : bar.high ∈ prices bar legs := by
  have hend := Interpolation.end_mem_leg bar.low bar.high hlegs
  simp [prices, hend]

theorem getLast?_prices (hlegs : 0 < legs) : (prices bar legs).getLast? = some bar.close := by
  rw [prices, List.getLast?_append, Interpolation.getLast?_leg _ _ hlegs]
  rfl

/-- The path down to the low is not above the open. -/
theorem fall_le_open {x : ℚ}
    (hx : x ∈ [bar.open, bar.open] ++ Interpolation.leg bar.open bar.low legs) :
    x ≤ bar.open := by
  have hopen : bar.open ∈ Set.Icc bar.low bar.open := ⟨(open_mem bar).1, le_rfl⟩
  have hlow : bar.low ∈ Set.Icc bar.low bar.open := ⟨le_rfl, (open_mem bar).1⟩
  rcases List.mem_append.mp hx with hx | hx
  · simp only [List.mem_cons, List.not_mem_nil, or_false, or_self] at hx
    exact hx.le
  · exact (Interpolation.mem_leg_Icc hopen hlow hx).2

section elapsed

variable {steps i j : ℕ}

/-- A step takes a second or more. -/
theorem elapsed_lt (hsteps : steps ≤ 21840) (hi : i < steps) (hij : i < j) :
    elapsed steps i + 1000000 ≤ elapsed steps j := by
  have hpos : (0 : ℚ) < steps := by exact_mod_cast (by omega : 0 < steps)
  have hsteps' : (steps : ℚ) ≤ 21840 := by exact_mod_cast hsteps
  have hij' : (i : ℚ) + 1 ≤ j := by exact_mod_cast hij
  have hlater : ((lastQuote - firstFill : ℤ) : ℚ) * (i + 1) / steps + (1000000 : ℤ) ≤
      ((lastQuote - firstFill : ℤ) : ℚ) * (j + 1) / steps := by
    rw [← sub_nonneg, ← sub_sub, ← sub_div]
    have hlength : ((lastQuote - firstFill : ℤ) : ℚ) = 21840000000 := by
      norm_num [lastQuote, firstFill]
    rw [hlength, sub_nonneg, Int.cast_ofNat, le_div_iff₀ hpos]
    nlinarith
  calc elapsed steps i + 1000000
      = Decimal.roundHalfEven
          (((lastQuote - firstFill : ℤ) : ℚ) * (i + 1) / steps + (1000000 : ℤ)) :=
        (Decimal.roundHalfEven_add_even _ (by decide)).symm
    _ ≤ elapsed steps j := Decimal.roundHalfEven_mono hlater

theorem elapsed_bounds (hsteps : steps ≤ 21840) (hi : i < steps) :
    1000000 ≤ elapsed steps i ∧ elapsed steps i ≤ lastQuote - firstFill := by
  have hpos : (0 : ℚ) < steps := by exact_mod_cast (by omega : 0 < steps)
  have hsteps' : (steps : ℚ) ≤ 21840 := by exact_mod_cast hsteps
  have hi' : (i : ℚ) + 1 ≤ steps := by exact_mod_cast hi
  have hi0 : (0 : ℚ) ≤ i := by positivity
  have hlength : ((lastQuote - firstFill : ℤ) : ℚ) = 21840000000 := by
    norm_num [lastQuote, firstFill]
  constructor
  · rw [← Decimal.roundHalfEven_intCast 1000000]
    refine Decimal.roundHalfEven_mono ?_
    rw [hlength, Int.cast_ofNat, le_div_iff₀ hpos]
    nlinarith
  · rw [← Decimal.roundHalfEven_intCast (lastQuote - firstFill)]
    refine Decimal.roundHalfEven_mono ?_
    rw [hlength, div_le_iff₀ hpos]
    nlinarith

end elapsed

/-- With a second or more for each step the times increase, from the open to 15:25. -/
theorem times_spec (day : Day) {steps : ℕ} (hsteps : steps ≤ 21840) :
    ((times day steps).map toSecond).Pairwise (· < ·) ∧
      ∀ t ∈ (times day steps).map toSecond, day.at opening ≤ t ∧ t ≤ day.at lastQuote := by
  have hlater : ∀ t ∈ (List.range steps).map (fun i => day.at firstFill + elapsed steps i),
      day.at firstFill + 1000000 ≤ t ∧ t ≤ day.at lastQuote := by
    intro t ht
    obtain ⟨i, hi, rfl⟩ := List.mem_map.mp ht
    obtain ⟨hlo, hhi⟩ := elapsed_bounds hsteps (List.mem_range.mp hi)
    unfold lastQuote firstFill at *
    unfold Day.at
    constructor <;> grind
  -- a second apart before truncation is apart after it
  have hgap : (times day steps).Pairwise fun a b => a + 1000000 ≤ b := by
    refine List.pairwise_cons.mpr ⟨fun t ht => ?_, List.pairwise_cons.mpr ⟨fun t ht => ?_, ?_⟩⟩
    · rcases List.mem_cons.mp ht with rfl | ht
      · unfold Day.at opening firstFill
        grind
      · have := (hlater t ht).1
        unfold Day.at opening firstFill at *
        grind
    · exact (hlater t ht).1
    · refine List.pairwise_map.mpr (List.pairwise_lt_range.imp_of_mem fun hi _ hij => ?_)
      have := elapsed_lt hsteps (List.mem_range.mp hi) hij
      grind
  have hinside : ∀ t ∈ times day steps, day.at opening ≤ t ∧ t ≤ day.at lastQuote := by
    intro t ht
    rcases List.mem_cons.mp ht with rfl | ht
    · unfold Day.at opening lastQuote
      grind
    · rcases List.mem_cons.mp ht with rfl | ht
      · unfold Day.at opening firstFill lastQuote
        grind
      · obtain ⟨hlo, hhi⟩ := hlater t ht
        refine ⟨?_, hhi⟩
        unfold Day.at opening firstFill at *
        grind
  refine ⟨List.pairwise_map.mpr (hgap.imp fun h => toSecond_lt h), fun t' ht' => ?_⟩
  obtain ⟨t, ht, rfl⟩ := List.mem_map.mp ht'
  obtain ⟨hlo, hhi⟩ := hinside t ht
  have hopening : toSecond (day.at opening) = day.at opening := toSecond_at day 33300
  have hlast : toSecond (day.at lastQuote) = day.at lastQuote := toSecond_at day 55500
  exact ⟨hopening ▸ toSecond_mono hlo, hlast ▸ toSecond_mono hhi⟩

end path

/-! ## The quotes -/

section quotes

variable {bar : Bar} {prevClose : Option ℚ} {legs : ℕ} {source : MarketDataSource}
  {quotes : List RecordedQuote}

theorem quote_ok {n i : ℕ} {ts : Instant} {price : ℚ} {q : RecordedQuote}
    (h : quote bar prevClose source n i ts price = .ok q) :
    q.ltp = round2 price ∧ q.receiptTs = toSecond ts ∧ q.volumeCum = accrued bar n i := by
  unfold quote at h
  split at h
  · cases h
    exact ⟨rfl, rfl, rfl⟩
  · cases h

/-- The parts of two lists walked together with a count. -/
theorem zip_parts {α β : Type*} {l : List α} {r : List β} (h : l.length = r.length) :
    ((l.zip r).zipIdx.map fun e => e.1.1) = l ∧ ((l.zip r).zipIdx.map fun e => e.1.2) = r ∧
      ((l.zip r).zipIdx.map fun e => e.2) = List.range r.length := by
  have hpairs := List.zipIdx_map_fst 0 (l.zip r)
  refine ⟨?_, ?_, ?_⟩
  · calc ((l.zip r).zipIdx.map fun e => e.1.1)
        = ((l.zip r).zipIdx.map Prod.fst).map Prod.fst := by rw [List.map_map]; rfl
      _ = l := by rw [hpairs, List.map_fst_zip h.le]
  · calc ((l.zip r).zipIdx.map fun e => e.1.2)
        = ((l.zip r).zipIdx.map Prod.fst).map Prod.snd := by rw [List.map_map]; rfl
      _ = r := by rw [hpairs, List.map_snd_zip h.ge]
  · calc ((l.zip r).zipIdx.map fun e => e.2)
        = List.range' 0 (l.zip r).length := List.zipIdx_map_snd 0 (l.zip r)
      _ = List.range r.length := by rw [List.length_zip, h, Nat.min_self, List.range_eq_range']

/-- The prices, times and volumes of the quotes. -/
theorem barPath_lists (h : barPath bar prevClose legs source = .ok quotes) :
    quotes.map (fun q => q.ltp) = (prices bar legs).map round2 ∧
      quotes.map (fun q => q.receiptTs) = (times bar.sessionDate (3 * legs)).map toSecond ∧
      quotes.map (fun q => q.volumeCum) =
        (List.range (3 * legs + 2)).map (accrued bar (3 * legs + 2)) := by
  have hlength := length_prices bar legs
  have htimes := length_times bar.sessionDate (3 * legs)
  have hsteps : (prices bar legs).length - 2 = 3 * legs := by omega
  unfold barPath at h
  dsimp only at h
  rw [hsteps] at h
  generalize times bar.sessionDate (3 * legs) = ts at *
  generalize prices bar legs = ps at *
  obtain ⟨hfirst, hsecond, hcount⟩ := zip_parts (htimes.trans hlength.symm)
  rw [hlength] at h hcount
  refine ⟨?_, ?_, ?_⟩
  · calc (quotes.map fun q => q.ltp)
        = (ts.zip ps).zipIdx.map fun e => round2 e.1.2 :=
          Traverse.map_of_mapM h fun e q hq => (quote_ok hq).1
      _ = ((ts.zip ps).zipIdx.map fun e => e.1.2).map round2 := by rw [List.map_map]; rfl
      _ = ps.map round2 := by rw [hsecond]
  · calc (quotes.map fun q => q.receiptTs)
        = (ts.zip ps).zipIdx.map fun e => toSecond e.1.1 :=
          Traverse.map_of_mapM h fun e q hq => (quote_ok hq).2.1
      _ = ((ts.zip ps).zipIdx.map fun e => e.1.1).map toSecond := by rw [List.map_map]; rfl
      _ = ts.map toSecond := by rw [hfirst]
  · calc (quotes.map fun q => q.volumeCum)
        = (ts.zip ps).zipIdx.map fun e => accrued bar (3 * legs + 2) e.2 :=
          Traverse.map_of_mapM h fun e q hq => (quote_ok hq).2.2
      _ = ((ts.zip ps).zipIdx.map fun e => e.2).map (accrued bar (3 * legs + 2)) := by
          rw [List.map_map]; rfl
      _ = (List.range (3 * legs + 2)).map (accrued bar (3 * legs + 2)) := by rw [hcount]

/-- There is a path exactly where the low is not rounded to nothing: no quote has a price of
zero. -/
theorem exists_barPath_iff (hlegs : 0 < legs) (hprev : ∀ p ∈ prevClose, 0 < p) :
    (∃ quotes, barPath bar prevClose legs source = .ok quotes) ↔ 0 < round2 bar.low := by
  have hlength := length_prices bar legs
  have htimes := length_times bar.sessionDate (3 * legs)
  have hsteps : (prices bar legs).length - 2 = 3 * legs := by omega
  have hparts := (zip_parts (htimes.trans hlength.symm)).2.1
  have hvalid : ∀ n i ts price, (∃ q, quote bar prevClose source n i ts price = .ok q) ↔
      0 < round2 price := by
    intro n i ts price
    unfold quote
    by_cases hprice : 0 < round2 price
    · rw [dif_pos ⟨hprice, hprev⟩]
      exact iff_of_true ⟨_, rfl⟩ hprice
    · rw [dif_neg fun h => hprice h.1]
      simp [hprice]
  unfold barPath
  dsimp only
  rw [hsteps, Traverse.exists_mapM_ok_iff]
  simp only [hvalid]
  -- the low is the least price of the path and stands on it
  constructor
  · intro h
    have hlow : bar.low ∈ prices bar legs := low_mem_prices hlegs
    rw [← hparts] at hlow
    obtain ⟨e, he, heq⟩ := List.mem_map.mp hlow
    rw [← heq]
    exact h e he
  · intro hlow e he
    have hmem : e.1.2 ∈ prices bar legs := by
      rw [← hparts]
      exact List.mem_map.mpr ⟨e, he, rfl⟩
    exact hlow.trans_le (round2_mono (prices_mem hmem).1)

/-- What the quotes of a bar are held to. -/
structure Faithful (bar : Bar) (quotes : List RecordedQuote) : Prop where
  later : (quotes.map fun q => q.receiptTs).Pairwise (· < ·)
  inside : ∀ q ∈ quotes, bar.sessionDate.at standardHours.opening ≤ q.receiptTs ∧
    q.receiptTs < bar.sessionDate.at standardHours.close
  accrues : (quotes.map fun q => q.volumeCum).Pairwise (· ≤ ·)
  whole : (quotes.map fun q => q.volumeCum).getLast? = some bar.volume
  between : ∀ q ∈ quotes, round2 bar.low ≤ q.ltp ∧ q.ltp ≤ round2 bar.high
  low : ∃ q ∈ quotes, q.ltp = round2 bar.low
  high : ∃ q ∈ quotes, q.ltp = round2 bar.high
  first : (quotes.map fun q => q.ltp).take 2 = [round2 bar.open, round2 bar.open]
  last : (quotes.map fun q => q.ltp).getLast? = some (round2 bar.close)
  adverse : ∀ stop target, stop < round2 bar.open → round2 bar.open < target →
    round2 bar.low ≤ stop → ∃ (i : ℕ) (q : RecordedQuote), quotes[i]? = some q ∧ q.ltp ≤ stop ∧
      (∀ (j : ℕ) (q' : RecordedQuote), quotes[j]? = some q' → q'.ltp ≤ stop → i ≤ j) ∧
      ∀ (j : ℕ) (q' : RecordedQuote), quotes[j]? = some q' → target ≤ q'.ltp → i < j

theorem accrued_mono (bar : Bar) {n i j : ℕ} (hn : 0 < n) (h : i ≤ j) :
    accrued bar n i ≤ accrued bar n j := by
  have hij : (i : ℤ) + 1 ≤ j + 1 := by omega
  exact Int.ediv_le_ediv (by omega) (mul_le_mul_of_nonneg_left hij bar.volume_nonneg)

/-- A stop that the low reaches is met on the way down, before any target above the open. -/
theorem stop_first (hlegs : 0 < legs)
    (hprices : quotes.map (fun q => q.ltp) = (prices bar legs).map round2) {stop target : ℚ}
    (htarget : round2 bar.open < target) (hlow : round2 bar.low ≤ stop) :
    ∃ (i : ℕ) (q : RecordedQuote), quotes[i]? = some q ∧ q.ltp ≤ stop ∧
      (∀ (j : ℕ) (q' : RecordedQuote), quotes[j]? = some q' → q'.ltp ≤ stop → i ≤ j) ∧
      ∀ (j : ℕ) (q' : RecordedQuote), quotes[j]? = some q' → target ≤ q'.ltp → i < j := by
  -- the way down reaches the stop before any price of the way up can reach the target
  have hfall : ∃ back, quotes.map (fun q => q.ltp) =
      ([bar.open, bar.open] ++ Interpolation.leg bar.open bar.low legs).map round2 ++ back := by
    refine ⟨(Interpolation.leg bar.low bar.high legs ++
      Interpolation.leg bar.high bar.close legs).map round2, ?_⟩
    rw [hprices, prices, ← List.map_append, List.append_assoc]
  obtain ⟨back, hltp⟩ := hfall
  have hmeets : ∃ x ∈ ([bar.open, bar.open] ++
      Interpolation.leg bar.open bar.low legs).map round2, x ≤ stop :=
    ⟨round2 bar.low, List.mem_map.mpr ⟨bar.low, List.mem_append_right _
      (Interpolation.end_mem_leg bar.open bar.low hlegs), rfl⟩, hlow⟩
  have hbelow : ∀ x ∈ ([bar.open, bar.open] ++
      Interpolation.leg bar.open bar.low legs).map round2, ¬target ≤ x := by
    intro x hx
    obtain ⟨price, hprice, rfl⟩ := List.mem_map.mp hx
    exact not_le.mpr (lt_of_le_of_lt (round2_mono (fall_le_open hprice)) htarget)
  obtain ⟨i, x, hi, hx, hfirst, hbefore⟩ := List.first_before back hmeets hbelow
  rw [← hltp] at hi hfirst hbefore
  rw [List.getElem?_map, Option.map_eq_some_iff] at hi
  obtain ⟨q, hq, rfl⟩ := hi
  have hget : ∀ (j : ℕ) (q' : RecordedQuote), quotes[j]? = some q' →
      (quotes.map fun q => q.ltp)[j]? = some q'.ltp := by
    intro j q' hj
    rw [List.getElem?_map, hj, Option.map_some]
  exact ⟨i, q, hq, hx, fun j q' hj => hfirst j q'.ltp (hget j q' hj),
    fun j q' hj => hbefore j q'.ltp (hget j q' hj)⟩

theorem faithful_of_barPath (hlegs : 0 < legs) (hsteps : 3 * legs ≤ 21840)
    (h : barPath bar prevClose legs source = .ok quotes) : Faithful bar quotes := by
  obtain ⟨hprices, htimes, hvolumes⟩ := barPath_lists h
  obtain ⟨hlater, hinside⟩ := times_spec bar.sessionDate hsteps
  have hltp : ∀ q ∈ quotes, ∃ x ∈ prices bar legs, round2 x = q.ltp := by
    intro q hq
    have hmem : q.ltp ∈ quotes.map fun q => q.ltp := List.mem_map.mpr ⟨q, hq, rfl⟩
    rw [hprices] at hmem
    exact List.mem_map.mp hmem
  have hattained : ∀ x ∈ prices bar legs, ∃ q ∈ quotes, q.ltp = round2 x := by
    intro x hx
    have hmem : round2 x ∈ (prices bar legs).map round2 := List.mem_map.mpr ⟨x, hx, rfl⟩
    rw [← hprices] at hmem
    exact List.mem_map.mp hmem
  refine ⟨?_, fun q hq => ?_, ?_, ?_, fun q hq => ?_, hattained _ (low_mem_prices hlegs),
    hattained _ (high_mem_prices hlegs), ?_, ?_, fun stop target _ htarget hlow =>
      stop_first hlegs hprices htarget hlow⟩
  · rw [htimes]
    exact hlater
  · have hmem : q.receiptTs ∈ quotes.map fun q => q.receiptTs := List.mem_map.mpr ⟨q, hq, rfl⟩
    rw [htimes] at hmem
    obtain ⟨hlo, hhi⟩ := hinside _ hmem
    refine ⟨hlo, lt_of_le_of_lt hhi ?_⟩
    unfold Day.at lastQuote standardHours
    grind
  · rw [hvolumes]
    exact List.pairwise_map.mpr (List.pairwise_lt_range.imp fun hij =>
      accrued_mono bar (by omega) hij.le)
  · rw [hvolumes, List.range_succ, List.map_append, List.map_singleton, List.getLast?_concat]
    -- the last share is the whole
    have hwhole : ((3 * legs + 1 : ℕ) : ℤ) + 1 = (3 * legs + 2 : ℕ) := by omega
    rw [accrued, hwhole, Int.mul_ediv_cancel _ (by omega)]
  · obtain ⟨x, hx, hround⟩ := hltp q hq
    obtain ⟨hlo, hhi⟩ := prices_mem hx
    rw [← hround]
    exact ⟨round2_mono hlo, round2_mono hhi⟩
  · rw [hprices]
    rfl
  · rw [hprices, List.getLast?_map, getLast?_prices hlegs]
    rfl

/-- **A bar's quote path is faithful and adverse first**, wherever its low is a price. -/
theorem bar_path_faithful (bar : Bar) {prevClose : Option ℚ} {legs : ℕ}
    (source : MarketDataSource) (hlegs : 1 ≤ legs)
    (hsteps : 3 * (legs : ℤ) ≤ (lastQuote - firstFill) / 1000000)
    (hprev : ∀ p ∈ prevClose, 0 < p) :
    ((∃ quotes, barPath bar prevClose legs source = .ok quotes) ↔ 0 < round2 bar.low) ∧
      ∀ quotes, barPath bar prevClose legs source = .ok quotes → Faithful bar quotes := by
  refine ⟨exists_barPath_iff hlegs hprev, fun quotes h => faithful_of_barPath hlegs ?_ h⟩
  unfold lastQuote firstFill at hsteps
  omega

end quotes

/-! A bar of a price below half a paisa, and one that opens at its high. -/

namespace HalfPaisa

theorem key_ne : "NSE:EQ:INFY" ≠ "" := by decide

theorem low_pos : (0 : ℚ) < 1 / 250 := by norm_num

theorem high_pos : (0 : ℚ) < 1 / 100 := by norm_num

theorem volume_nonneg : (0 : ℤ) ≤ 1000 := by decide

theorem high_max : max (max (1 / 100 : ℚ) (1 / 100)) (1 / 250) ≤ 1 / 100 := by norm_num

theorem low_min : (1 / 250 : ℚ) ≤ min (1 / 100) (1 / 100) := by norm_num

def bar : Bar where
  instrumentKey := "NSE:EQ:INFY"
  timeframe := .d1
  sessionDate := 20000
  «open» := 1 / 100
  high := 1 / 100
  low := 1 / 250
  close := 1 / 100
  volume := 1000
  isSettled := true
  adjusted := false
  source := .yfinance
  instrumentKey_ne := key_ne
  open_pos := high_pos
  high_pos := high_pos
  low_pos := low_pos
  close_pos := high_pos
  volume_nonneg := volume_nonneg
  high_max := high_max
  low_min := low_min

theorem no_bar_path : ¬∀ (bar : Bar) (prevClose : Option ℚ) (legs : ℕ) (source : MarketDataSource),
    1 ≤ legs → 3 * (legs : ℤ) ≤ (lastQuote - firstFill) / 1000000 → (∀ p ∈ prevClose, 0 < p) →
      ∃ quotes, barPath bar prevClose legs source = .ok quotes ∧ Faithful bar quotes := by
  intro h
  obtain ⟨quotes, hrun, -⟩ := h bar none 8 .replay (by decide) (by decide) no_price
  have hlow := (exists_barPath_iff (by decide) no_price).mp ⟨quotes, hrun⟩
  exact absurd hlow (by decide +kernel)

theorem hundred_pos : (0 : ℚ) < 100 := by norm_num

theorem fallen_pos : (0 : ℚ) < 961 / 10 := by norm_num

theorem fallen_le : max (max (100 : ℚ) (961 / 10)) (961 / 10) ≤ 100 := by norm_num

theorem fallen_min : (961 / 10 : ℚ) ≤ min 100 (961 / 10) := by norm_num

def falling : Bar where
  instrumentKey := "NSE:EQ:INFY"
  timeframe := .d1
  sessionDate := 20000
  «open» := 100
  high := 100
  low := 961 / 10
  close := 961 / 10
  volume := 1000
  isSettled := true
  adjusted := false
  source := .yfinance
  instrumentKey_ne := key_ne
  open_pos := hundred_pos
  high_pos := hundred_pos
  low_pos := fallen_pos
  close_pos := fallen_pos
  volume_nonneg := volume_nonneg
  high_max := fallen_le
  low_min := fallen_min

theorem bar_path_faithful_falling :
    ∃ quotes, barPath falling (some 101) 8 .replay = .ok quotes ∧ Faithful falling quotes := by
  have hprev : ∀ p ∈ some (101 : ℚ), 0 < p := by decide +kernel
  obtain ⟨hreturns, hfaithful⟩ :=
    bar_path_faithful falling .replay (by decide : 1 ≤ 8) (by decide) hprev
  obtain ⟨quotes, hrun⟩ := hreturns.mpr (by decide +kernel)
  exact ⟨quotes, hrun, hfaithful quotes hrun⟩

end HalfPaisa

end BarPath

end RakshaQuant
