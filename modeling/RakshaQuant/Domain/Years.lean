import Mathlib.Order.Monotone.Basic
import Mathlib.Order.SuccPred.IntervalSucc
import Mathlib.Tactic.Linarith
import RakshaQuant.Domain.Calendar

/-! Years of the calendar. A date is of a year exactly from the first of January of it up to the
next one. -/

namespace RakshaQuant

namespace Day

/-- `date(year, 1, 1)`. -/
def ofYear (year : ℤ) : Day :=
  365 * (year - 1) + (year - 1) / 4 - (year - 1) / 100 + (year - 1) / 400 - 719162

/-- `date.max`. -/
def maxDay : Day := 2932896

example : ofYear 2024 = 19723 := by decide

theorem ofYear_succ (year : ℤ) : ofYear year + 365 ≤ ofYear (year + 1) := by
  -- a year that ends a century ends a leap cycle too
  have hdays : ∀ y : ℤ, 365 * y + y / 4 - y / 100 + y / 400 + 365 ≤
      365 * (y + 1) + (y + 1) / 4 - (y + 1) / 100 + (y + 1) / 400 := by
    intro y
    have hcycle : (y + 1) / 100 - y / 100 ≤ (y + 1) / 4 - y / 4 := by omega
    have hera : y / 400 ≤ (y + 1) / 400 := by omega
    linarith
  have hyear := hdays (year - 1)
  rw [sub_add_cancel] at hyear
  unfold ofYear
  rw [add_sub_cancel_right]
  linarith

/-- The year of the era of a day, from its century, its leap cycle there and its year of that. -/
theorem yearOfEra_eq {c q r d doe : ℤ} (hc : 0 ≤ c ∧ c ≤ 3) (hq : 0 ≤ q ∧ q ≤ 24)
    (hr : 0 ≤ r ∧ r ≤ 3) (hd : 0 ≤ d ∧ d ≤ 365) (hleap : d = 365 → r = 3 ∧ (q = 24 → c = 3))
    (hdoe : doe = 36524 * c + 1461 * q + 365 * r + d) :
    (doe - doe / 1460 + doe / 36524 - doe / 146096) / 365 = 100 * c + 4 * q + r := by
  -- only the last day of an era is a whole century on from its own, and the two corrections meet
  have hcentury : doe / 36524 - doe / 146096 = c := by
    by_cases hlast : d = 365 ∧ q = 24
    · obtain ⟨rfl, hlast⟩ := hleap hlast.1
      obtain rfl := hlast ‹_ ∧ _›.2
      omega
    · have hwithin : 1461 * q + 365 * r + d < 36524 := by omega
      have hone : doe / 36524 = c := by omega
      have hnone : doe / 146096 = 0 := by omega
      rw [hone, hnone, sub_zero]
  have hcycle : doe / 1460 = 25 * c + q + (24 * c + q + 365 * r + d) / 1460 := by
    have hdoe' : doe = 1460 * (25 * c + q) + (24 * c + q + 365 * r + d) := by linarith
    rw [hdoe', Int.mul_add_ediv_left _ _ (by decide)]
  have hday : 0 ≤ d - (24 * c + q + 365 * r + d) / 1460 ∧
      d - (24 * c + q + 365 * r + d) / 1460 < 365 := by
    by_cases hwhole : 24 * c + q + 365 * r + d < 1460
    · have hu : (24 * c + q + 365 * r + d) / 1460 = 0 := Int.ediv_eq_zero_of_lt (by omega) hwhole
      omega
    · have hu : (24 * c + q + 365 * r + d) / 1460 = 1 := by
        clear hcentury hcycle hdoe hleap
        omega
      omega
  generalize (24 * c + q + 365 * r + d) / 1460 = u at hcycle hday
  have hsum : doe - doe / 1460 + doe / 36524 - doe / 146096 =
      (d - u) + 365 * (100 * c + 4 * q + r) := by linarith
  rw [hsum, Int.add_mul_ediv_left _ _ (by decide), Int.ediv_eq_zero_of_lt hday.1 hday.2, zero_add]

/-- Every day of an era has a century, a leap cycle and a year. -/
theorem exists_cycles {doe : ℤ} (hdoe : 0 ≤ doe ∧ doe < 146097) :
    ∃ c q r d, (0 ≤ c ∧ c ≤ 3) ∧ (0 ≤ q ∧ q ≤ 24) ∧ (0 ≤ r ∧ r ≤ 3) ∧ (0 ≤ d ∧ d ≤ 365) ∧
      (d = 365 → r = 3 ∧ (q = 24 → c = 3)) ∧ doe = 36524 * c + 1461 * q + 365 * r + d := by
  -- the last day of an era is in no century of its own, nor that of a leap cycle in a year
  obtain ⟨c, n, hc, hcentury, hn⟩ : ∃ c n, (0 ≤ c ∧ c ≤ 3) ∧ doe = 36524 * c + n ∧
      0 ≤ n ∧ (n < 36524 ∨ c = 3 ∧ n = 36524) :=
    ⟨min (doe / 36524) 3, doe - 36524 * min (doe / 36524) 3, by omega, by omega, by omega⟩
  obtain ⟨q, m, hq, hcycle, hm⟩ : ∃ q m, (0 ≤ q ∧ q ≤ 24) ∧ n = 1461 * q + m ∧
      0 ≤ m ∧ m < 1461 := by
    clear hcentury hdoe
    exact ⟨n / 1461, n - 1461 * (n / 1461), by omega, by omega, by omega⟩
  obtain ⟨r, d, hr, hyear, hd⟩ : ∃ r d, (0 ≤ r ∧ r ≤ 3) ∧ m = 365 * r + d ∧
      0 ≤ d ∧ (d < 365 ∨ r = 3 ∧ d = 365) := by
    clear hcentury hdoe hcycle hn hc
    exact ⟨min (m / 365) 3, m - 365 * min (m / 365) 3, by omega, by omega, by omega⟩
  refine ⟨c, q, r, d, hc, hq, hr, by omega, ?_, by linarith⟩
  intro hlast
  have hthree : r = 3 := by omega
  refine ⟨hthree, fun hq24 => ?_⟩
  subst hlast hthree hq24
  omega

/-- The first of January after a year of an era. -/
theorem ofYear_era {era c q r : ℤ} (hc : 0 ≤ c ∧ c ≤ 3) (hq : 0 ≤ q ∧ q ≤ 24)
    (hr : 0 ≤ r ∧ r ≤ 3) : ofYear (100 * c + 4 * q + r + era * 400 + 1) =
      146097 * era + 36524 * c + 1461 * q + 365 * r + 306 - 719468 := by
  have hfour : (100 * c + 4 * q + r + era * 400) / 4 = 25 * c + q + 100 * era := by omega
  have hhundred : (100 * c + 4 * q + r + era * 400) / 100 = c + 4 * era := by omega
  have hera : (100 * c + 4 * q + r + era * 400) / 400 = era := by omega
  unfold ofYear
  rw [add_sub_cancel_right, hfour, hhundred, hera]
  linarith

/-- The year of a day, from its era and its cycles there: it turns after 306 days of March on. -/
theorem year_eq {day c q r d : ℤ} (hc : 0 ≤ c ∧ c ≤ 3) (hq : 0 ≤ q ∧ q ≤ 24) (hr : 0 ≤ r ∧ r ≤ 3)
    (hd : 0 ≤ d ∧ d ≤ 365) (hleap : d = 365 → r = 3 ∧ (q = 24 → c = 3))
    (hdoe : (day + 719468) % 146097 = 36524 * c + 1461 * q + 365 * r + d) :
    year day = 100 * c + 4 * q + r + (day + 719468) / 146097 * 400 + if d < 306 then 0 else 1 := by
  have hdoy : (day + 719468) % 146097 - (365 * (100 * c + 4 * q + r) +
      (100 * c + 4 * q + r) / 4 - (100 * c + 4 * q + r) / 100) = d := by
    have hfour : (100 * c + 4 * q + r) / 4 = 25 * c + q := by clear hdoe; omega
    have hhundred : (100 * c + 4 * q + r) / 100 = c := by clear hdoe; omega
    rw [hfour, hhundred, hdoe]
    linarith
  unfold year civil
  dsimp only
  rw [yearOfEra_eq hc hq hr hd hleap hdoe, hdoy]
  congr 1
  clear hdoe hdoy hleap hc hq hr
  by_cases hnew : d < 306
  · have hmonth : (5 * d + 2) / 153 < 10 := by omega
    rw [if_pos hnew, if_pos hmonth, if_neg]
    show ¬(5 * d + 2) / 153 + 3 ≤ (2 : ℤ)
    omega
  · have hmonth : ¬(5 * d + 2) / 153 < 10 := by omega
    rw [if_neg hnew, if_neg hmonth, if_pos]
    show (5 * d + 2) / 153 - 9 ≤ (2 : ℤ)
    omega

/-- A day is between the first days of its year and of the next. -/
theorem year_spec (day : Day) : ofYear (year day) ≤ day ∧ day < ofYear (year day + 1) := by
  obtain ⟨c, q, r, d, hc, hq, hr, hd, hleap, hdoe⟩ :=
    exists_cycles ⟨Int.emod_nonneg _ (by decide), Int.emod_lt_of_pos _ (by decide)⟩
  have hday := Int.mul_ediv_add_emod (day + 719468) 146097
  have hnext : ofYear (100 * c + 4 * q + r + (day + 719468) / 146097 * 400 + 1) =
      146097 * ((day + 719468) / 146097) + 36524 * c + 1461 * q + 365 * r + 306 - 719468 :=
    ofYear_era hc hq hr
  rw [year_eq hc hq hr hd hleap hdoe]
  rw [hdoe] at hday
  split
  · rename_i hold
    have hstep := ofYear_succ (100 * c + 4 * q + r + (day + 719468) / 146097 * 400)
    rw [add_zero]
    constructor <;> linarith
  · rename_i hnew
    have hstep := ofYear_succ (100 * c + 4 * q + r + (day + 719468) / 146097 * 400 + 1)
    constructor <;> linarith

theorem ofYear_lt_iff {y z : ℤ} : ofYear y < ofYear z ↔ y < z := by
  have hmono : StrictMono ofYear := strictMono_int_of_lt_succ fun year =>
    lt_of_lt_of_le (lt_add_of_pos_right _ (by decide)) (ofYear_succ year)
  exact hmono.lt_iff_lt

/-- A day is of a year from the first of January of it to the day before the next one's. -/
theorem year_eq_iff {day : Day} {y : ℤ} :
    year day = y ↔ ofYear y ≤ day ∧ day < ofYear (y + 1) := by
  obtain ⟨hlow, hhigh⟩ := year_spec day
  constructor
  · rintro rfl
    exact ⟨hlow, hhigh⟩
  · rintro ⟨hle, hlt⟩
    have h₁ : y < year day + 1 := ofYear_lt_iff.mp (lt_of_le_of_lt hle hhigh)
    have h₂ : year day < y + 1 := ofYear_lt_iff.mp (lt_of_le_of_lt hlow hlt)
    omega

theorem ofYear_le {day : Day} {y : ℤ} (h : year day = y) : ofYear y ≤ day := (year_eq_iff.mp h).1

/-- A day from its era, the year of it and the day of that year, which starts in March. -/
theorem civil_spec (day : Day) : ∃ era yoe doy : ℤ, (0 ≤ yoe ∧ yoe ≤ 399) ∧ (0 ≤ doy ∧ doy ≤ 365) ∧
    day + 719468 = 146097 * era + 365 * yoe + yoe / 4 - yoe / 100 + doy ∧
    civil day =
      (yoe + era * 400 + (if (5 * doy + 2) / 153 < 10 then 0 else 1),
        (if (5 * doy + 2) / 153 < 10 then (5 * doy + 2) / 153 + 3 else (5 * doy + 2) / 153 - 9),
        doy - (153 * ((5 * doy + 2) / 153) + 2) / 5 + 1) := by
  obtain ⟨c, q, r, d, hc, hq, hr, hd, hleap, hdoe⟩ :=
    exists_cycles ⟨Int.emod_nonneg (day + 719468) (by decide), Int.emod_lt_of_pos _ (by decide)⟩
  have hday := Int.mul_ediv_add_emod (day + 719468) 146097
  have hfour : (100 * c + 4 * q + r) / 4 = 25 * c + q := by clear hdoe hday; omega
  have hhundred : (100 * c + 4 * q + r) / 100 = c := by clear hdoe hday; omega
  have hdoy : (day + 719468) % 146097 - (365 * (100 * c + 4 * q + r) +
      (100 * c + 4 * q + r) / 4 - (100 * c + 4 * q + r) / 100) = d := by
    rw [hfour, hhundred, hdoe]
    linarith
  refine ⟨(day + 719468) / 146097, 100 * c + 4 * q + r, d, by omega, hd, by linarith, ?_⟩
  unfold civil
  dsimp only
  rw [yearOfEra_eq hc hq hr hd hleap hdoe, hdoy]
  clear hdoe hday hdoy hleap hc hq hr hfour hhundred
  refine Prod.ext ?_ rfl
  congr 1
  by_cases hnew : (5 * d + 2) / 153 < 10
  · rw [if_pos hnew, if_pos hnew, if_neg]
    show ¬(5 * d + 2) / 153 + 3 ≤ (2 : ℤ)
    omega
  · rw [if_neg hnew, if_neg hnew, if_pos]
    show (5 * d + 2) / 153 - 9 ≤ (2 : ℤ)
    omega

/-- No two dates have the same text. -/
theorem isoformat_injective {a b : Day} (h : isoformat a = isoformat b) : a = b := by
  have hsigns : ∀ day, 0 ≤ (civil day).2.1 ∧ 0 ≤ (civil day).2.2 := by
    intro day
    obtain ⟨era, yoe, doy, hyoe, hdoy, hday, hcivil⟩ := civil_spec day
    rw [hcivil]
    dsimp only
    clear hcivil hday hyoe
    constructor <;> omega
  obtain ⟨era, yoe, doy, hyoe, hdoy, hday, ha⟩ := civil_spec a
  obtain ⟨era', yoe', doy', hyoe', hdoy', hday', hb⟩ := civil_spec b
  have hsame := civil_of_isoformat (hsigns a) (hsigns b) h
  rw [ha, hb, Prod.mk.injEq, Prod.mk.injEq] at hsame
  obtain ⟨hyear, hmonth, hdom⟩ := hsame
  have hmp : (5 * doy + 2) / 153 = (5 * doy' + 2) / 153 := by
    clear hyear hdom hday hday' ha hb
    omega
  rw [hmp] at hdom hyear
  obtain rfl : doy = doy' := by
    clear hyear hday hday' ha hb hmp
    omega
  have hera : era = era' := by
    clear ha hb hmp hday hday' hdom hmonth
    omega
  have hyearOfEra : yoe = yoe' := by
    clear ha hb hmp hday hday' hdom hmonth
    omega
  subst hera hyearOfEra
  exact add_right_cancel (hday.trans hday'.symm)

end Day

end RakshaQuant
