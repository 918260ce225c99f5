import Mathlib.Data.List.Sort
import RakshaQuant.Domain.Errors
import RakshaQuant.Domain.Types
import RakshaQuant.Lib.Dict
import RakshaQuant.Lib.Numeral

/-! The NSE trading calendar. A weekday is a trading day unless it is a holiday,
a special session trades at its own notified times on any day, and a day of a
year the calendar does not cover raises: the calendar never guesses. -/

namespace RakshaQuant

namespace Day

/-- Year, month and day of month in the proleptic Gregorian calendar. -/
def civil (day : Day) : ℤ × ℤ × ℤ :=
  -- days since 0000-03-01, in eras of 400 years
  let z := day + 719468
  let era := z / 146097
  let doe := z % 146097
  let yoe := (doe - doe / 1460 + doe / 36524 - doe / 146096) / 365
  let doy := doe - (365 * yoe + yoe / 4 - yoe / 100)
  let mp := (5 * doy + 2) / 153
  let month := if mp < 10 then mp + 3 else mp - 9
  (yoe + era * 400 + if month ≤ 2 then 1 else 0, month, doy - (153 * mp + 2) / 5 + 1)

def year (day : Day) : ℤ := (civil day).1

/-- `weekday()`: Monday is 0. -/
def weekday (day : Day) : ℤ := (day + 3) % 7

private def twoDigits (n : ℤ) : String := if n < 10 then "0" ++ toString n else toString n

/-- The years a date has are not negative. -/
private def fourDigits (n : ℤ) : String := if n < 0 then toString n else Numeral.padded 4 n.toNat

/-- `isoformat()`. -/
def isoformat (day : Day) : String :=
  let (y, m, d) := civil day
  fourDigits y ++ "-" ++ twoDigits m ++ "-" ++ twoDigits d

/-- No numeral holds a separator. -/
theorem colon_not_mem_toString (n : ℤ) : ':' ∉ (toString n).toList := by
  have hdigits : ∀ m : ℕ, ':' ∉ m.repr.toList := by
    intro m hm
    rw [Nat.toList_repr] at hm
    exact absurd (Nat.isDigit_of_mem_toDigits (by decide) (by decide) hm) (by decide)
  cases n with
  | ofNat m => exact hdigits m
  | negSucc m =>
    show ':' ∉ ("-" ++ (m + 1).repr).toList
    rw [String.toList_append, List.mem_append, not_or]
    exact ⟨by decide, hdigits (m + 1)⟩

theorem colon_not_mem_isoformat (day : Day) : ':' ∉ (isoformat day).toList := by
  have htwo : ∀ n : ℤ, ':' ∉ (twoDigits n).toList := by
    intro n
    unfold twoDigits
    split
    · rw [String.toList_append, List.mem_append, not_or]
      exact ⟨by decide, colon_not_mem_toString n⟩
    · exact colon_not_mem_toString n
  have hfour : ∀ n : ℤ, ':' ∉ (fourDigits n).toList := by
    intro n
    unfold fourDigits
    split
    · exact colon_not_mem_toString n
    · exact fun hc => absurd (Numeral.isDigit_padded hc) (by decide)
  simp only [isoformat, String.toList_append, List.mem_append, not_or]
  exact ⟨⟨⟨⟨hfour _, by decide⟩, htwo _⟩, by decide⟩, htwo _⟩

private theorem twoDigits_ofNat (n : ℕ) :
    twoDigits n = if n < 10 then "0" ++ toString n else toString n := by
  have hten : (n : ℤ) < 10 ↔ n < 10 := by omega
  simp only [twoDigits, hten]
  rfl

private theorem value_twoDigits {n : ℤ} (h : 0 ≤ n) : (Numeral.value (twoDigits n) : ℤ) = n := by
  obtain ⟨m, rfl⟩ := Int.eq_ofNat_of_zero_le h
  rw [twoDigits_ofNat]
  split
  · simp [Numeral.value, Nat.ofDigitChars_cons]
  · simp [Numeral.value]

private theorem isDigit_twoDigits {n : ℤ} (h : 0 ≤ n) :
    ∀ c ∈ (twoDigits n).toList, c.isDigit = true := by
  obtain ⟨m, rfl⟩ := Int.eq_ofNat_of_zero_le h
  have hdigits : ∀ c ∈ (toString m).toList, c.isDigit = true := by
    intro c hc
    rw [Nat.toString_eq_repr, Nat.toList_repr] at hc
    exact Nat.isDigit_of_mem_toDigits (by decide) (by decide) hc
  rw [twoDigits_ofNat]
  split
  · intro c hc
    rw [String.toList_append, List.mem_append] at hc
    cases hc with
    | inl hzero =>
      obtain rfl : c = '0' := by simpa using hzero
      rfl
    | inr hdigit => exact hdigits c hdigit
  · exact hdigits

private theorem fourDigits_neg {n : ℤ} (h : n < 0) : fourDigits n = "-" ++ toString n.natAbs := by
  unfold fourDigits
  rw [if_pos h]
  cases n with
  | ofNat m => exact absurd h (by simp)
  | negSucc m => rfl

private theorem fourDigits_injective {m n : ℤ} (h : fourDigits m = fourDigits n) : m = n := by
  have hsign : ∀ {k l : ℤ}, k < 0 → ¬l < 0 → fourDigits k ≠ fourDigits l := by
    intro k l hk hl heq
    have hmem : '-' ∈ (fourDigits k).toList := by simp [fourDigits_neg hk]
    rw [heq, fourDigits, if_neg hl] at hmem
    exact absurd (Numeral.isDigit_padded hmem) (by decide)
  by_cases hm : m < 0 <;> by_cases hn : n < 0
  · rw [fourDigits_neg hm, fourDigits_neg hn] at h
    have habs := Numeral.toString_injective (String.append_right_inj _ |>.mp h)
    omega
  · exact absurd h (hsign hm hn)
  · exact absurd h.symm (hsign hn hm)
  · rw [fourDigits, fourDigits, if_neg hm, if_neg hn] at h
    have hnat := Numeral.padded_injective h
    omega

/-- A date's text says its year, its month and its day of the month. -/
theorem civil_of_isoformat {a b : Day} (ha : 0 ≤ (civil a).2.1 ∧ 0 ≤ (civil a).2.2)
    (hb : 0 ≤ (civil b).2.1 ∧ 0 ≤ (civil b).2.2) (h : isoformat a = isoformat b) :
    civil a = civil b := by
  have hlists : ∀ day, (isoformat day).toList = ((fourDigits (civil day).1).toList ++
      '-' :: (twoDigits (civil day).2.1).toList) ++ '-' :: (twoDigits (civil day).2.2).toList := by
    intro day
    simp [isoformat]
  have hdash : Char.isDigit '-' = false := rfl
  have htwo : ∀ {m n : ℤ}, 0 ≤ m → 0 ≤ n → twoDigits m = twoDigits n → m = n := by
    intro m n hm hn heq
    rw [← value_twoDigits hm, heq, value_twoDigits hn]
  have htexts := congrArg String.toList h
  rw [hlists, hlists] at htexts
  obtain ⟨hrest, hdom⟩ := Numeral.split_last hdash (isDigit_twoDigits ha.2) (isDigit_twoDigits hb.2)
    htexts
  obtain ⟨hyear, hmonth⟩ := Numeral.split_last hdash (isDigit_twoDigits ha.1)
    (isDigit_twoDigits hb.1) hrest
  refine Prod.ext (fourDigits_injective (String.toList_inj.mp hyear)) (Prod.ext ?_ ?_)
  · exact htwo ha.1 hb.1 (String.toList_inj.mp hmonth)
  · exact htwo ha.2 hb.2 (String.toList_inj.mp hdom)

end Day

example : Day.isoformat 20728 = "2026-10-02" := by decide +kernel

example : Day.isoformat (-718500) = "0002-10-25" := by decide +kernel

example : Day.weekday 20728 = 4 := by decide

/-- Opening and closing of a session, in microseconds of the IST day. -/
structure SessionTimes where
  preOpen : ℤ
  opening : ℤ
  close : ℤ
  preOpen_le : preOpen ≤ opening
  opening_lt : opening < close
deriving DecidableEq

/-- A special session whose times are not notified yet has none. -/
structure NSECalendar where
  default : SessionTimes
  years : List ℤ
  holidays : List Day
  specials : Dict Day (Option SessionTimes)

namespace NSECalendar

def maxScanDays : ℕ := 31

def covers (c : NSECalendar) (day : Day) : Bool := Day.year day ∈ c.years

/-- `_require`. -/
def require (c : NSECalendar) (day : Day) : Except Exc PUnit :=
  if c.covers day then .ok ⟨⟩
  else .error (.calendarCoverageError
    (Day.isoformat day ++ " is outside the NSE calendar (covered years: [" ++
      ", ".intercalate ((c.years.insertionSort (· ≤ ·)).map toString) ++
      "]); update src/config/nse_calendar.json from the NSE holiday circular"))

/-- The session on a day, if the market trades then. -/
def session (c : NSECalendar) (day : Day) : Except Exc (Option SessionTimes) := do
  c.require day
  match c.specials.get? day with
  | some times => return times
  | none =>
    if 5 ≤ Day.weekday day ∨ day ∈ c.holidays then return none
    return some c.default

def isTradingDay (c : NSECalendar) (day : Day) : Except Exc Bool := do
  return (← c.session day).isSome

/-- `_scan` forward: the first trading day within `n` days after `day`. -/
def scan (c : NSECalendar) (start : Day) : ℕ → Day → Except Exc Day
  | 0, _ => .error (.calendarCoverageError
      ("no trading day within " ++ toString maxScanDays ++ " days of " ++ Day.isoformat start))
  | n + 1, day => do
    if ← c.isTradingDay (day + 1) then return day + 1
    c.scan start n (day + 1)

def nextTradingDay (c : NSECalendar) (day : Day) : Except Exc Day := c.scan day maxScanDays day

/-- `_scan` backward: the last trading day within `n` days before `day`. -/
def scanBack (c : NSECalendar) (start : Day) : ℕ → Day → Except Exc Day
  | 0, _ => .error (.calendarCoverageError
      ("no trading day within " ++ toString maxScanDays ++ " days of " ++ Day.isoformat start))
  | n + 1, day => do
    if ← c.isTradingDay (day - 1) then return day - 1
    c.scanBack start n (day - 1)

def previousTradingDay (c : NSECalendar) (day : Day) : Except Exc Day :=
  c.scanBack day maxScanDays day

/-- The trading days among `n` days from `day`. -/
def tradingDaysFrom (c : NSECalendar) (day : Day) : ℕ → Except Exc (List Day)
  | 0 => .ok []
  | n + 1 => do
    let trading ← c.isTradingDay day
    let rest ← c.tradingDaysFrom (day + 1) n
    return if trading then day :: rest else rest

/-- The trading days from `start` to `last`, both included. -/
def tradingDays (c : NSECalendar) (start last : Day) : Except Exc (List Day) :=
  c.tradingDaysFrom start (last + 1 - start).toNat

/-- Whether the normal market of a session is open at an instant. -/
def isMarketOpen (c : NSECalendar) (ts : Instant) : Except Exc Bool := do
  let timeOfDay := (ts + 19800000000) % 86400000000
  match ← c.session ts.istDate with
  | none => return false
  | some times => return times.opening ≤ timeOfDay ∧ timeOfDay < times.close

/-- The next trading day lies strictly ahead, within the scan's reach. -/
theorem scan_spec {c : NSECalendar} {start day next : ℤ} {n : ℕ}
    (h : c.scan start n day = .ok next) : day < next ∧ next ≤ day + n := by
  induction n generalizing day with
  | zero => cases h
  | succ n ih =>
    simp only [scan, bind, Except.bind] at h
    cases ht : c.isTradingDay (day + 1) with
    | error e =>
      rw [ht] at h
      cases h
    | ok trading =>
      rw [ht] at h
      cases trading with
      | true =>
        cases h
        constructor <;> push_cast <;> omega
      | false =>
        obtain ⟨hlt, hle⟩ := ih h
        push_cast
        constructor <;> omega

theorem nextTradingDay_spec {c : NSECalendar} {day next : ℤ}
    (h : c.nextTradingDay day = .ok next) : day < next ∧ next ≤ day + 31 :=
  scan_spec h

end NSECalendar

end RakshaQuant
