import Mathlib.Algebra.BigOperators.Intervals
import Mathlib.Algebra.Order.BigOperators.Ring.Finset
import Mathlib.Algebra.Order.Field.Basic
import Mathlib.Data.List.GetD
import Mathlib.Tactic.FieldSimp
import Mathlib.Tactic.Linarith
import RakshaQuant.Domain.Errors
import RakshaQuant.Domain.Types

/-! Daily history. The raw prices are as they traded; the adjusted ones scale the bars before
each ex-date down by what the dividend took out of the close before it. Prices are exact
rationals here. -/

namespace RakshaQuant

/-! ## The factors -/

/-- The loop of `dividend_factors`, from the bar at `i` down to the second: the factors so far
and the product of the dividends met. -/
def adjustFrom (close dividends : List ℚ) : ℕ → List ℚ → ℚ → Except Exc (List ℚ × ℚ)
  | 0, factors, running => .ok (factors, running)
  | i + 1, factors, running =>
    let factors := factors.set (i + 1) running
    let d := dividends.getD (i + 1) 0
    if 0 < d then
      let prev := close.getD i 0
      if d < prev then adjustFrom close dividends i factors (running * (1 - d / prev))
      else
        .error (.valueError ("cannot adjust a dividend of " ++ toString d ++
          " against a prior close of " ++ toString prev))
    else adjustFrom close dividends i factors running

/-- `dividend_factors`: the newest bar's factor is 1, and a dividend on the first bar is ignored. -/
def dividendFactors (close dividends : List ℚ) : Except Exc (List ℚ) := do
  if close.length ≠ dividends.length then
    throw (.valueError "close and dividends must be the same length")
  let (factors, running) ← adjustFrom close dividends (close.length - 1)
    (List.replicate close.length 1) 1
  return if close.length = 0 then factors else factors.set 0 running

/-- What the dividend of a bar leaves of the close before it. -/
def kept (close dividends : List ℚ) (j : ℕ) : ℚ := 1 - dividends.getD j 0 / close.getD (j - 1) 0

/-- The product of what the dividends after a bar, up to bar `m`, leave. -/
def keptAfter (close dividends : List ℚ) (i m : ℕ) : ℚ :=
  ∏ j ∈ Finset.Ico (i + 1) (m + 1), kept close dividends j

section factors

variable {close dividends : List ℚ} {i m : ℕ}

@[simp] theorem keptAfter_self (m : ℕ) : keptAfter close dividends m m = 1 := by
  simp [keptAfter]

theorem keptAfter_succ (h : i ≤ m) :
    keptAfter close dividends i (m + 1) =
      keptAfter close dividends i m * kept close dividends (m + 1) :=
  Finset.prod_Ico_succ_top (by omega) _

/-- One dividend more is between a bar and the bar before it. -/
theorem keptAfter_pred (h : i < m) :
    keptAfter close dividends i m =
      kept close dividends (i + 1) * keptAfter close dividends (i + 1) m :=
  Finset.prod_eq_prod_Ico_succ_bot (by omega) _

/-- Without a dividend nothing is taken. -/
theorem kept_of_not_pos (hnonneg : ∀ d ∈ dividends, 0 ≤ d) {j : ℕ} (h : ¬0 < dividends.getD j 0) :
    kept close dividends j = 1 := by
  have hzero : dividends.getD j 0 = 0 := by
    rw [List.getD_eq_getElem?_getD] at h ⊢
    cases hget : dividends[j]? with
    | none => rfl
    | some d =>
      rw [hget] at h
      exact le_antisymm (not_lt.mp h) (hnonneg d (List.mem_of_getElem? hget))
  rw [kept, hzero, zero_div, sub_zero]

/-- The loop from bar `m`, where every dividend it meets is below the close before it: each
bar it passes gets the product of the dividends after it. -/
theorem adjustFrom_ok (hnonneg : ∀ d ∈ dividends, 0 ≤ d)
    (hbelow : ∀ i, i < m → 0 < dividends.getD (i + 1) 0 →
      dividends.getD (i + 1) 0 < close.getD i 0) (factors : List ℚ) (running : ℚ) :
    ∃ factors', adjustFrom close dividends m factors running =
        .ok (factors', running * keptAfter close dividends 0 m) ∧
      factors'.length = factors.length ∧
      (∀ k, m < k → factors'[k]? = factors[k]?) ∧
      ∀ k, 0 < k → k ≤ m → k < factors.length →
        factors'[k]? = some (running * keptAfter close dividends k m) := by
  induction m generalizing factors running with
  | zero => exact ⟨factors, by simp [adjustFrom], rfl, fun _ _ => rfl, by omega⟩
  | succ m ih =>
    have hstep : adjustFrom close dividends (m + 1) factors running =
        adjustFrom close dividends m (factors.set (m + 1) running)
          (running * kept close dividends (m + 1)) := by
      rw [adjustFrom]
      dsimp only
      split
      · rename_i hpos
        rw [if_pos (hbelow m (by omega) hpos), kept, Nat.add_sub_cancel]
      · rename_i hzero
        rw [kept_of_not_pos hnonneg hzero, mul_one]
    obtain ⟨factors', hrun, hlength, hlater, hpassed⟩ :=
      ih (fun i hi => hbelow i (by omega)) (factors.set (m + 1) running)
        (running * kept close dividends (m + 1))
    have hproduct : ∀ k, k ≤ m →
        running * kept close dividends (m + 1) * keptAfter close dividends k m =
          running * keptAfter close dividends k (m + 1) := by
      intro k hk
      rw [keptAfter_succ hk, mul_assoc, mul_comm (kept close dividends (m + 1))]
    refine ⟨factors', ?_, by rw [hlength, List.length_set], fun k hk => ?_, fun k hpos hk hlt => ?_⟩
    · rw [hstep, hrun, hproduct 0 (by omega)]
    · rw [hlater k (by omega), List.getElem?_set_ne (by omega)]
    · rcases Nat.lt_or_ge m k with hnew | hold
      · -- the bar the loop starts at
        obtain rfl : k = m + 1 := by omega
        rw [hlater _ (by omega), List.getElem?_set_self hlt, keptAfter_self, mul_one]
      · rw [hpassed k hpos hold (by rw [List.length_set]; exact hlt), hproduct k hold]

/-- The loop raises at a dividend that is not below the close before it. -/
theorem adjustFrom_error (h : ∃ i, i < m ∧ 0 < dividends.getD (i + 1) 0 ∧
    close.getD i 0 ≤ dividends.getD (i + 1) 0) (factors : List ℚ) (running : ℚ) :
    ∃ e, adjustFrom close dividends m factors running = .error e := by
  induction m generalizing factors running with
  | zero => omega
  | succ m ih =>
    obtain ⟨i, hi, hpos, hle⟩ := h
    unfold adjustFrom
    dsimp only
    rcases Nat.lt_or_ge i m with hlater | hhere
    · have hrest := ih ⟨i, hlater, hpos, hle⟩
      split
      · split
        · exact hrest _ _
        · exact ⟨_, rfl⟩
      · exact hrest _ _
    · obtain rfl : i = m := by omega
      rw [if_pos hpos, if_neg (not_lt.mpr hle)]
      exact ⟨_, rfl⟩

/-- Every dividend from the second bar on is below the close before it. -/
def Coverable (close dividends : List ℚ) : Prop :=
  ∀ i, i + 1 < close.length → dividends.getD (i + 1) 0 < close.getD i 0

/-- The factors are computed exactly where every dividend is covered, and then each is the
product of what the later dividends leave. -/
theorem dividendFactors_ok (hlength : close.length = dividends.length)
    (hnonneg : ∀ d ∈ dividends, 0 ≤ d) (hcovers : Coverable close dividends) :
    ∃ factors, dividendFactors close dividends = .ok factors ∧ factors.length = close.length ∧
      ∀ k, k < close.length →
        factors[k]? = some (keptAfter close dividends k (close.length - 1)) := by
  have hbelow : ∀ i, i < close.length - 1 → 0 < dividends.getD (i + 1) 0 →
      dividends.getD (i + 1) 0 < close.getD i 0 := fun i hi _ => hcovers i (by omega)
  obtain ⟨factors, hrun, hlen, -, hpassed⟩ :=
    adjustFrom_ok hnonneg hbelow (List.replicate close.length 1) 1
  rw [List.length_replicate] at hlen hpassed
  have hpassed' : ∀ k, 0 < k → k < close.length →
      factors[k]? = some (keptAfter close dividends k (close.length - 1)) := by
    intro k hpos hlt
    rw [hpassed k hpos (by omega) hlt, one_mul]
  unfold dividendFactors
  rw [if_neg (not_not.mpr hlength), hrun]
  rcases Nat.eq_zero_or_pos close.length with hempty | hsome
  · refine ⟨factors, ?_, hlen, by omega⟩
    simp [hempty, bind, Except.bind, pure, Except.pure]
  · refine ⟨factors.set 0 (keptAfter close dividends 0 (close.length - 1)), ?_, ?_, fun k hk => ?_⟩
    · simp [hsome.ne', bind, Except.bind, pure, Except.pure]
    · rw [List.length_set, hlen]
    · rcases Nat.eq_zero_or_pos k with rfl | hpos
      · rw [List.getElem?_set_self (by rw [hlen]; exact hk)]
      · rw [List.getElem?_set_ne (by omega), hpassed' k hpos hk]

theorem dividendFactors_error (hlength : close.length = dividends.length)
    (hpositive : ∀ c ∈ close, 0 < c) (h : ¬Coverable close dividends) :
    ∃ e, dividendFactors close dividends = .error e := by
  unfold Coverable at h
  push Not at h
  obtain ⟨i, hi, hle⟩ := h
  have hprev : 0 < close.getD i 0 := by
    rw [List.getD_eq_getElem _ _ (by omega : i < close.length)]
    exact hpositive _ (List.getElem_mem _)
  have hmet : ∃ i, i < close.length - 1 ∧ 0 < dividends.getD (i + 1) 0 ∧
      close.getD i 0 ≤ dividends.getD (i + 1) 0 := ⟨i, by omega, hprev.trans_le hle, hle⟩
  obtain ⟨e, hrun⟩ := adjustFrom_error hmet (List.replicate close.length 1) 1
  refine ⟨e, ?_⟩
  unfold dividendFactors
  rw [if_neg (not_not.mpr hlength), hrun]
  rfl

/-- A covered dividend leaves something. -/
theorem kept_pos_le (hlength : close.length = dividends.length)
    (hpositive : ∀ c ∈ close, 0 < c) (hnonneg : ∀ d ∈ dividends, 0 ≤ d)
    (hcovers : Coverable close dividends) {j : ℕ} (hpos : 0 < j) (hlt : j < close.length) :
    0 < kept close dividends j ∧ kept close dividends j ≤ 1 := by
  obtain ⟨i, rfl⟩ : ∃ i, j = i + 1 := ⟨j - 1, by omega⟩
  have hprev : 0 < close.getD i 0 := by
    rw [List.getD_eq_getElem _ _ (by omega : i < close.length)]
    exact hpositive _ (List.getElem_mem _)
  have hd : 0 ≤ dividends.getD (i + 1) 0 := by
    rw [List.getD_eq_getElem _ _ (by omega : i + 1 < dividends.length)]
    exact hnonneg _ (List.getElem_mem _)
  have hbelow := (div_lt_one hprev).mpr (hcovers i hlt)
  have hratio := div_nonneg hd hprev.le
  rw [kept, Nat.add_sub_cancel]
  constructor <;> linarith

/-- What the covered dividends of some bars leave lies in the unit interval. -/
theorem keptAfter_pos_le (hlength : close.length = dividends.length)
    (hpositive : ∀ c ∈ close, 0 < c) (hnonneg : ∀ d ∈ dividends, 0 ≤ d)
    (hcovers : Coverable close dividends) (i : ℕ) :
    0 < keptAfter close dividends i (close.length - 1) ∧
      keptAfter close dividends i (close.length - 1) ≤ 1 := by
  have heach : ∀ j ∈ Finset.Ico (i + 1) (close.length - 1 + 1),
      0 < kept close dividends j ∧ kept close dividends j ≤ 1 := by
    intro j hj
    rw [Finset.mem_Ico] at hj
    exact kept_pos_le hlength hpositive hnonneg hcovers (by omega) (by omega)
  exact ⟨Finset.prod_pos fun j hj => (heach j hj).1,
    Finset.prod_le_one (fun j hj => (heach j hj).1.le) fun j hj => (heach j hj).2⟩

/-- A later bar is scaled down by fewer dividends. -/
theorem keptAfter_mono (hlength : close.length = dividends.length)
    (hpositive : ∀ c ∈ close, 0 < c) (hnonneg : ∀ d ∈ dividends, 0 ≤ d)
    (hcovers : Coverable close dividends) {j : ℕ} (hij : i ≤ j) (hj : j < close.length) :
    keptAfter close dividends i (close.length - 1) ≤
      keptAfter close dividends j (close.length - 1) := by
  induction j, hij using Nat.le_induction with
  | base => exact le_rfl
  | succ j hij ih =>
    refine (ih (by omega)).trans ?_
    rw [keptAfter_pred (by omega : j < close.length - 1)]
    have hkept := kept_pos_le hlength hpositive hnonneg hcovers (by omega : 0 < j + 1) hj
    have hrest := keptAfter_pos_le hlength hpositive hnonneg hcovers (j + 1)
    exact mul_le_of_le_one_left hrest.1.le hkept.2

end factors

/-! ## The series -/

/-- A row of a series' frame. -/
structure FrameRow where
  «open» : ℚ
  high : ℚ
  low : ℚ
  close : ℚ
  volume : ℤ
  dividend : ℚ
  split : ℚ
  factor : ℚ

structure PriceRow where
  «open» : ℚ
  high : ℚ
  low : ℚ
  close : ℚ
  volume : ℤ

def FrameRow.prices (row : FrameRow) : PriceRow :=
  ⟨row.open, row.high, row.low, row.close, row.volume⟩

namespace History

/-- `DailySeries`: the settled daily bars of an instrument by session date, oldest first. -/
structure DailySeries where
  instrumentKey : String
  frame : List (Day × FrameRow)

namespace DailySeries

/-- The prices of a row, scaled by its factor. -/
def scaled (row : FrameRow) : PriceRow :=
  ⟨row.open * row.factor, row.high * row.factor, row.low * row.factor, row.close * row.factor,
    row.volume⟩

def raw (s : DailySeries) : List (Day × PriceRow) := s.frame.map fun r => (r.1, r.2.prices)

def adjusted (s : DailySeries) : List (Day × PriceRow) := s.frame.map fun r => (r.1, scaled r.2)

def lastDate (s : DailySeries) : Option Day := s.frame.getLast?.map fun r => r.1

/-- The latest settled raw close. -/
def lastClose (s : DailySeries) : Option ℚ := s.frame.getLast?.map fun r => r.2.close

/-- The adjusted close of a bar. -/
theorem adjusted_close (s : DailySeries) {i : ℕ} {c f : ℚ}
    (hclose : (s.frame.map fun r => r.2.close)[i]? = some c)
    (hfactor : (s.frame.map fun r => r.2.factor)[i]? = some f) :
    (s.adjusted.map fun r => r.2.close).getD i 0 = c * f := by
  rw [List.getElem?_map] at hclose hfactor
  obtain ⟨row, hrow, rfl⟩ := Option.map_eq_some_iff.mp hclose
  rw [hrow, Option.map_some, Option.some.injEq] at hfactor
  rw [← hfactor, List.getD_eq_getElem?_getD, adjusted, List.map_map, List.getElem?_map, hrow]
  rfl

end DailySeries

end History

section adjusted

variable {close dividends : List ℚ}

/-- Across an ex-date the adjusted closes move as the close moved against what the dividend
left of the close before it. -/
theorem adjusted_ratio (hlength : close.length = dividends.length)
    (hpositive : ∀ c ∈ close, 0 < c) (hnonneg : ∀ d ∈ dividends, 0 ≤ d)
    (hcovers : Coverable close dividends) {factors : List ℚ}
    (hfactors : ∀ k, k < close.length →
      factors[k]? = some (keptAfter close dividends k (close.length - 1)))
    {s : History.DailySeries} (hclose : (s.frame.map fun r => r.2.close) = close)
    (hfactor : (s.frame.map fun r => r.2.factor) = factors) {i : ℕ} (hi : i + 1 < close.length) :
    (s.adjusted.map fun r => r.2.close).getD (i + 1) 0 /
        (s.adjusted.map fun r => r.2.close).getD i 0 =
      close.getD (i + 1) 0 / (close.getD i 0 - dividends.getD (i + 1) 0) := by
  have hget : ∀ k, k < close.length → close[k]? = some (close.getD k 0) := by
    intro k hk
    rw [List.getElem?_eq_getElem hk, List.getD_eq_getElem _ _ hk]
  have hadjusted : ∀ k, k < close.length → (s.adjusted.map fun r => r.2.close).getD k 0 =
      close.getD k 0 * keptAfter close dividends k (close.length - 1) := by
    intro k hk
    exact s.adjusted_close (hclose ▸ hget k hk) (hfactor ▸ hfactors k hk)
  have hprev : close.getD i 0 ≠ 0 := by
    rw [List.getD_eq_getElem _ _ (by omega : i < close.length)]
    exact (hpositive _ (List.getElem_mem _)).ne'
  have hrest := (keptAfter_pos_le hlength hpositive hnonneg hcovers (i + 1)).1.ne'
  calc (s.adjusted.map fun r => r.2.close).getD (i + 1) 0 /
        (s.adjusted.map fun r => r.2.close).getD i 0
      = close.getD (i + 1) 0 * keptAfter close dividends (i + 1) (close.length - 1) /
          ((close.getD i 0 - dividends.getD (i + 1) 0) *
            keptAfter close dividends (i + 1) (close.length - 1)) := by
        rw [hadjusted (i + 1) hi, hadjusted i (by omega),
          keptAfter_pred (by omega : i < close.length - 1), kept, Nat.add_sub_cancel, ← mul_assoc,
          mul_sub, mul_one, mul_div_cancel₀ _ hprev]
    _ = close.getD (i + 1) 0 / (close.getD i 0 - dividends.getD (i + 1) 0) :=
        mul_div_mul_right _ _ hrest

/-- **Dividend adjustment preserves total return.** -/
theorem dividendFactors_preserve_return (hlength : close.length = dividends.length)
    (hpositive : ∀ c ∈ close, 0 < c) (hnonneg : ∀ d ∈ dividends, 0 ≤ d) :
    ((∃ e, dividendFactors close dividends = .error e) ↔
      ∃ i, i + 1 < close.length ∧ close.getD i 0 ≤ dividends.getD (i + 1) 0) ∧
    ∀ factors, dividendFactors close dividends = .ok factors →
      factors.length = close.length ∧ (close ≠ [] → factors.getLast? = some 1) ∧
      (∀ f ∈ factors, 0 < f ∧ f ≤ 1) ∧ factors.Pairwise (· ≤ ·) ∧
      (∀ i, i < close.length → factors[i]? = some (∏ j ∈ Finset.Ico (i + 1) close.length,
        (1 - dividends.getD j 0 / close.getD (j - 1) 0))) ∧
      ∀ s : History.DailySeries, (s.frame.map fun r => r.2.close) = close →
        (s.frame.map fun r => r.2.factor) = factors → ∀ i, i + 1 < close.length →
        (s.adjusted.map fun r => r.2.close).getD (i + 1) 0 /
            (s.adjusted.map fun r => r.2.close).getD i 0 =
          close.getD (i + 1) 0 / (close.getD i 0 - dividends.getD (i + 1) 0) := by
  -- each dividend is below the close before it, or the function raises
  by_cases hcovers : Coverable close dividends
  · obtain ⟨factors, hrun, hlen, hfactors⟩ := dividendFactors_ok hlength hnonneg hcovers
    have hbounds := keptAfter_pos_le hlength hpositive hnonneg hcovers
    refine ⟨⟨fun h => ?_, fun h => ?_⟩, fun factors' hrun' => ?_⟩
    · obtain ⟨e, herror⟩ := h
      rw [hrun] at herror
      cases herror
    · obtain ⟨i, hi, hle⟩ := h
      exact absurd (hcovers i hi) (not_lt.mpr hle)
    · rw [hrun] at hrun'
      cases hrun'
      have hvalue : ∀ k (hk : k < factors.length),
          factors[k] = keptAfter close dividends k (close.length - 1) := by
        intro k hk
        have hsome := hfactors k (hlen ▸ hk)
        rw [List.getElem?_eq_getElem hk] at hsome
        exact Option.some.inj hsome
      refine ⟨hlen, fun hne => ?_, fun f hf => ?_, ?_, fun i hi => ?_, fun s hclose hfactor i hi =>
        adjusted_ratio hlength hpositive hnonneg hcovers hfactors hclose hfactor hi⟩
      · have hpos := List.length_pos_of_ne_nil hne
        rw [List.getLast?_eq_getElem?, hlen, hfactors _ (by omega), keptAfter_self]
      · obtain ⟨k, hk, rfl⟩ := List.mem_iff_getElem.mp hf
        rw [hvalue k hk]
        exact hbounds k
      · refine List.pairwise_iff_getElem.mpr fun i j hi hj hij => ?_
        rw [hvalue i hi, hvalue j hj]
        exact keptAfter_mono hlength hpositive hnonneg hcovers hij.le (hlen ▸ hj)
      · rw [hfactors i hi, keptAfter, Nat.sub_add_cancel (by omega)]
        rfl
  · obtain ⟨e, hrun⟩ := dividendFactors_error hlength hpositive hcovers
    refine ⟨⟨fun _ => ?_, fun _ => ⟨e, hrun⟩⟩, fun factors' hrun' => ?_⟩
    · unfold Coverable at hcovers
      push Not at hcovers
      exact hcovers
    · rw [hrun] at hrun'
      cases hrun'

/-- Two ex-dates; the dividend on the first bar is ignored. -/
theorem dividendFactors_preserve_return_twice :
    ∃ factors, dividendFactors [100, 98, 110] [5, 2, 11] = .ok factors ∧
      factors = [87 / 100, 87 / 98, 1] ∧ factors.getLast? = some 1 ∧ factors.Pairwise (· ≤ ·) := by
  have hvalue : (dividendFactors [100, 98, 110] [5, 2, 11]).toOption =
      some [87 / 100, 87 / 98, 1] := by decide +kernel
  cases hrun : dividendFactors [100, 98, 110] [5, 2, 11] with
  | error e =>
    rw [hrun] at hvalue
    cases hvalue
  | ok factors =>
    rw [hrun] at hvalue
    have hlength : ([100, 98, 110] : List ℚ).length = ([5, 2, 11] : List ℚ).length := rfl
    have hpositive : ∀ c ∈ ([100, 98, 110] : List ℚ), 0 < c := by decide +kernel
    have hnonneg : ∀ d ∈ ([5, 2, 11] : List ℚ), 0 ≤ d := by decide +kernel
    obtain ⟨-, hlast, -, hsorted, -⟩ :=
      (dividendFactors_preserve_return hlength hpositive hnonneg).2 factors hrun
    exact ⟨factors, rfl, Option.some.inj hvalue, hlast (by decide), hsorted⟩

end adjusted

end RakshaQuant
