import RakshaQuant.Lib.Steps
import RakshaQuant.Risk.EventWindows

/-! Session arithmetic. The scans ahead and back find the same neighbours, since what one passes
over the other does, so trading days are steps along one relation; `shift_sessions` goes so many of
them, and `trading_days` lists the ones it passes. -/

namespace RakshaQuant

namespace NSECalendar

variable {c : NSECalendar} {a b : Day}

/-- The scan of one round of `shift_sessions`. -/
def seek (c : NSECalendar) (step : ℤ) (day : Day) : Except Exc Day :=
  if 0 < step then c.nextTradingDay day else c.previousTradingDay day

/-- So many scans from a day find a session each: the days they ask for are covered, and none
asks beyond its limit. -/
def finds (c : NSECalendar) (step : ℤ) : ℕ → Day → Bool
  | 0, _ => true
  | n + 1, day =>
    match c.seek step day with
    | .ok session => c.finds step n session
    | .error _ => false

/-- The scans of `shift_sessions`. -/
def scans (c : NSECalendar) (day : Day) (sessions : ℤ) : Bool :=
  c.finds (if 0 < sessions then 1 else -1) sessions.natAbs day

/-- Trading days next to each other, the gap between them within the limit of a scan. -/
structure Adjacent (c : NSECalendar) (a b : Day) : Prop where
  first : c.isTradingDay a = .ok true
  last : c.isTradingDay b = .ok true
  next : c.nextTradingDay a = .ok b

/-- What a scan passes over from one side is passed over from the other. -/
theorem trades_back {k : ℕ} (ha : c.isTradingDay a = .ok true) (h : c.Trades 1 a k) :
    c.Trades (-1) (a + k) k := by
  have hplace : ∀ j : ℕ, j ≤ k → a + (k : ℤ) + -1 * (j : ℤ) = a + 1 * ((k - j : ℕ) : ℤ) := by
    intro j hj
    rw [Nat.cast_sub hj]
    ring
  refine ⟨h.pos, h.reach, ?_, fun j hpos hlt => ?_⟩
  · rw [hplace k (Nat.le_refl k), Nat.sub_self, Nat.cast_zero, mul_zero, add_zero, ha]
  · rw [hplace j hlt.le]
    exact h.no (k - j) (by omega) (by omega)

theorem trades_ahead {k : ℕ} (hb : c.isTradingDay b = .ok true) (h : c.Trades (-1) b k) :
    c.Trades 1 (b - k) k := by
  have hplace : ∀ j : ℕ, j ≤ k → b - (k : ℤ) + 1 * (j : ℤ) = b + -1 * ((k - j : ℕ) : ℤ) := by
    intro j hj
    rw [Nat.cast_sub hj]
    ring
  refine ⟨h.pos, h.reach, ?_, fun j hpos hlt => ?_⟩
  · rw [hplace k (Nat.le_refl k), Nat.sub_self, Nat.cast_zero, mul_zero, add_zero, hb]
  · rw [hplace j hlt.le]
    exact h.no (k - j) (by omega) (by omega)

/-- **The two scans agree** between trading days. -/
theorem next_iff_previous (ha : c.isTradingDay a = .ok true) (hb : c.isTradingDay b = .ok true) :
    c.nextTradingDay a = .ok b ↔ c.previousTradingDay b = .ok a := by
  rw [nextTradingDay_iff, previousTradingDay_iff]
  constructor
  · rintro ⟨k, htrades, rfl⟩
    rw [one_mul]
    exact ⟨k, trades_back ha htrades, by ring⟩
  · rintro ⟨k, htrades, rfl⟩
    have hplace : b + -1 * (k : ℤ) = b - k := by ring
    rw [hplace]
    exact ⟨k, trades_ahead hb htrades, by ring⟩

/-- A scan ends at a trading day. -/
theorem trading_of_seek {step : ℤ} (hstep : step = 1 ∨ step = -1) (h : c.seek step a = .ok b) :
    c.isTradingDay b = .ok true := by
  rcases hstep with rfl | rfl
  · obtain ⟨k, htrades, rfl⟩ := (nextTradingDay_iff a b).mp h
    exact htrades.yes
  · obtain ⟨k, htrades, rfl⟩ := (previousTradingDay_iff a b).mp h
    exact htrades.yes

theorem adjacent_biUnique : Relator.BiUnique c.Adjacent := by
  constructor
  · intro a a' b h h'
    have hprev := (next_iff_previous h.first h.last).mp h.next
    have hprev' := (next_iff_previous h'.first h'.last).mp h'.next
    rw [hprev] at hprev'
    cases hprev'
    rfl
  · intro a b b' h h'
    have hnext := h.next
    rw [h'.next] at hnext
    cases hnext
    rfl

theorem adjacent_lt (a b : Day) (h : c.Adjacent a b) : a < b := (nextTradingDay_spec h.next).1

theorem shiftOne_of_seek {step : ℤ} (h : c.seek step a = .ok b) : shiftOne c step a = b := by
  have hseek : shiftOne c step a = match c.seek step a with
    | .ok session => session
    | .error _ => nextWeekday step a := rfl
  rw [hseek, h]

/-- Rounds that find their sessions end at one. -/
theorem trading_of_finds {step : ℤ} {n : ℕ} (hstep : step = 1 ∨ step = -1)
    (ha : c.isTradingDay a = .ok true) (h : c.finds step n a = true) :
    c.isTradingDay ((shiftOne c step)^[n] a) = .ok true := by
  induction n generalizing a with
  | zero => exact ha
  | succ n ih =>
    cases hseek : c.seek step a with
    | error e =>
      rw [finds, hseek] at h
      cases h
    | ok session =>
      rw [finds, hseek] at h
      rw [Function.iterate_succ_apply, shiftOne_of_seek hseek]
      exact ih (trading_of_seek hstep hseek) h

/-- Rounds that find their sessions go along the trading days, ahead. -/
theorem ahead_of_finds {n : ℕ} (ha : c.isTradingDay a = .ok true) (h : c.finds 1 n a = true) :
    Steps.Ahead c.Adjacent n a ((shiftOne c 1)^[n] a) := by
  induction n generalizing a with
  | zero => rfl
  | succ n ih =>
    cases hseek : c.seek 1 a with
    | error e =>
      rw [finds, hseek] at h
      cases h
    | ok session =>
      rw [finds, hseek] at h
      have hsession := trading_of_seek (.inl rfl) hseek
      rw [Function.iterate_succ_apply, shiftOne_of_seek hseek]
      exact ⟨session, ⟨ha, hsession, hseek⟩, ih hsession h⟩

/-- And back. -/
theorem back_of_finds {n : ℕ} (ha : c.isTradingDay a = .ok true) (h : c.finds (-1) n a = true) :
    Steps.Ahead c.Adjacent n ((shiftOne c (-1))^[n] a) a := by
  induction n generalizing a with
  | zero => rfl
  | succ n ih =>
    cases hseek : c.seek (-1) a with
    | error e =>
      rw [finds, hseek] at h
      cases h
    | ok session =>
      rw [finds, hseek] at h
      have hsession := trading_of_seek (.inr rfl) hseek
      have hadjacent : c.Adjacent session a :=
        ⟨hsession, ha, (next_iff_previous hsession ha).mpr hseek⟩
      rw [Function.iterate_succ_apply, shiftOne_of_seek hseek]
      exact Steps.ahead_add.mpr ⟨session, ih hsession h, a, hadjacent, rfl⟩

/-- `shift_sessions` goes so many trading days. -/
theorem apart_shiftSessions {sessions : ℤ} (ha : c.isTradingDay a = .ok true)
    (h : c.scans a sessions = true) :
    Steps.Apart c.Adjacent sessions a (shiftSessions c a sessions) := by
  unfold scans at h
  unfold shiftSessions
  obtain ⟨n, rfl | rfl⟩ := sessions.eq_nat_or_neg
  · rw [Int.natAbs_natCast] at h ⊢
    rw [Steps.apart_natCast]
    cases n with
    | zero => rfl
    | succ n =>
      have hpos : 0 < ((n + 1 : ℕ) : ℤ) := by omega
      rw [if_pos hpos] at h ⊢
      exact ahead_of_finds ha h
  · have hneg : ¬0 < -(n : ℤ) := by omega
    rw [if_neg hneg, Int.natAbs_neg, Int.natAbs_natCast] at h ⊢
    rw [Steps.apart_neg_natCast]
    exact back_of_finds ha h

/-- Going so many trading days is what `shift_sessions` does. -/
theorem shiftSessions_of_apart {sessions : ℤ} (h : Steps.Apart c.Adjacent sessions a b) :
    shiftSessions c a sessions = b := by
  have hahead : ∀ {n : ℕ} {a b : Day}, Steps.Ahead c.Adjacent n a b → (shiftOne c 1)^[n] a = b := by
    intro n
    induction n with
    | zero => exact fun h => h
    | succ n ih =>
      rintro a b ⟨x, hax, hxb⟩
      have hnext : c.seek 1 a = .ok x := hax.next
      rw [Function.iterate_succ_apply, shiftOne_of_seek hnext]
      exact ih hxb
  have hback : ∀ {n : ℕ} {a b : Day}, Steps.Ahead c.Adjacent n b a →
      (shiftOne c (-1))^[n] a = b := by
    intro n
    induction n with
    | zero => exact fun h => h.symm
    | succ n ih =>
      intro a b h
      obtain ⟨x, hbx, y, hxa, rfl⟩ := Steps.ahead_add.mp h
      have hprevious : c.seek (-1) y = .ok x := (next_iff_previous hxa.first hxa.last).mp hxa.next
      rw [Function.iterate_succ_apply, shiftOne_of_seek hprevious]
      exact ih hbx
  unfold shiftSessions
  obtain ⟨n, rfl | rfl⟩ := sessions.eq_nat_or_neg
  · rw [Steps.apart_natCast] at h
    rw [Int.natAbs_natCast]
    cases n with
    | zero => exact h
    | succ n =>
      have hpos : 0 < ((n + 1 : ℕ) : ℤ) := by omega
      rw [if_pos hpos]
      exact hahead h
  · have hneg : ¬0 < -(n : ℤ) := by omega
    rw [Steps.apart_neg_natCast] at h
    rw [if_neg hneg, Int.natAbs_neg, Int.natAbs_natCast]
    exact hback h

/-! ## The list of trading days -/

/-- The days before the next trading day are not listed. -/
theorem tradingDaysFrom_skip {k n : ℕ} {rest : List Day} (hpos : 0 < k) (hk : k ≤ n)
    (hyes : c.isTradingDay (a + k) = .ok true)
    (hno : ∀ j : ℕ, 0 < j → j < k → c.isTradingDay (a + j) = .ok false)
    (h : c.tradingDaysFrom (a + 1) n = .ok rest) :
    ∃ later, rest = (a + k) :: later ∧ c.tradingDaysFrom (a + k + 1) (n - k) = .ok later := by
  induction k generalizing a n with
  | zero => exact absurd hpos (Nat.lt_irrefl 0)
  | succ k ih =>
    obtain ⟨n, rfl⟩ : ∃ m, n = m + 1 := ⟨n - 1, by omega⟩
    simp only [tradingDaysFrom, bind, Except.bind] at h
    -- the day after is the next session itself, or is skipped
    cases k with
    | zero =>
      have hyes' : c.isTradingDay (a + 1) = .ok true := by simpa using hyes
      simp only [hyes'] at h
      cases hlater : c.tradingDaysFrom (a + 1 + 1) n with
      | error e =>
        rw [hlater] at h
        cases h
      | ok later =>
        rw [hlater] at h
        cases h
        exact ⟨later, by simp, by simpa using hlater⟩
    | succ k =>
      have hno' : c.isTradingDay (a + 1) = .ok false := by simpa using hno 1 (by omega) (by omega)
      have hplace : ∀ j : ℕ, a + 1 + (j : ℤ) = a + ((j + 1 : ℕ) : ℤ) := by
        intro j
        push_cast
        ring
      simp only [hno'] at h
      cases hrest : c.tradingDaysFrom (a + 1 + 1) n with
      | error e =>
        rw [hrest] at h
        cases h
      | ok later =>
        rw [hrest] at h
        cases h
        have hih := ih (a := a + 1) (n := n) (by omega) (by omega) (by rw [hplace]; exact hyes)
          (fun j hj hlt => by rw [hplace]; exact hno (j + 1) (by omega) (by omega)) hrest
        rw [hplace (k + 1)] at hih
        rw [Nat.add_sub_add_right]
        exact hih

/-- A trading day among the days is listed. -/
theorem tradingDaysFrom_ne_nil {n : ℕ} {rest : List Day}
    (hlast : c.isTradingDay (a + n) = .ok true) (h : c.tradingDaysFrom a (n + 1) = .ok rest) :
    rest ≠ [] := by
  induction n generalizing a rest with
  | zero =>
    have hfirst : c.isTradingDay a = .ok true := by simpa using hlast
    simp only [tradingDaysFrom, bind, Except.bind, hfirst] at h
    cases h
    exact List.cons_ne_nil _ _
  | succ n ih =>
    rw [tradingDaysFrom] at h
    simp only [bind, Except.bind] at h
    cases hfirst : c.isTradingDay a with
    | error e =>
      rw [hfirst] at h
      cases h
    | ok trading =>
      cases hrest : c.tradingDaysFrom (a + 1) (n + 1) with
      | error e =>
        rw [hfirst, hrest] at h
        cases h
      | ok later =>
        rw [hfirst, hrest] at h
        have hlater : later ≠ [] := by
          refine ih ?_ hrest
          have hplace : a + 1 + (n : ℤ) = a + ((n + 1 : ℕ) : ℤ) := by
            push_cast
            ring
          rw [hplace]
          exact hlast
        cases trading <;> cases h
        · exact hlater
        · exact List.cons_ne_nil _ _

/-- The trading days listed behind a day are the ones stepped over to the last of them. -/
theorem ahead_of_tradingDaysFrom {n : ℕ} {rest : List Day} (ha : c.isTradingDay a = .ok true)
    (hlast : c.isTradingDay (a + n) = .ok true) (h : c.tradingDaysFrom (a + 1) n = .ok rest)
    (hscans : c.finds 1 rest.length a = true) : Steps.Ahead c.Adjacent rest.length a (a + n) := by
  induction n using Nat.strong_induction_on generalizing a rest with
  | _ n ih =>
    cases n with
    | zero =>
      cases h
      simp
    | succ n =>
      -- the last day is listed, so a first is, and the scan finds it
      have hne : rest ≠ [] := by
        refine tradingDaysFrom_ne_nil (a := a + 1) ?_ h
        have hplace : a + 1 + (n : ℤ) = a + ((n + 1 : ℕ) : ℤ) := by
          push_cast
          ring
        rw [hplace]
        exact hlast
      obtain ⟨x, later, rfl⟩ := List.exists_cons_of_ne_nil hne
      rw [List.length_cons, finds] at hscans
      cases hseek : c.seek 1 a with
      | error e =>
        rw [hseek] at hscans
        cases hscans
      | ok session =>
        rw [hseek] at hscans
        have hsession := trading_of_seek (.inl rfl) hseek
        obtain ⟨k, htrades, hk⟩ := (nextTradingDay_iff a session).mp hseek
        rw [one_mul] at hk
        subst hk
        have hreach : k ≤ n + 1 := by
          by_contra hlt
          have hno := htrades.no (n + 1) (by omega) (by omega)
          rw [one_mul, hlast] at hno
          cases hno
        obtain ⟨later', hrest, hlater⟩ := tradingDaysFrom_skip htrades.pos hreach hsession
          (fun j hpos hlt => by simpa using htrades.no j hpos hlt) h
        cases hrest
        have hend : a + (k : ℤ) + ((n + 1 - k : ℕ) : ℤ) = a + ((n + 1 : ℕ) : ℤ) := by
          rw [Nat.cast_sub hreach]
          ring
        have hrec := ih (n + 1 - k) (by have := htrades.pos; omega) hsession
          (by rw [hend]; exact hlast) hlater hscans
        rw [hend] at hrec
        exact ⟨a + k, ⟨ha, hsession, hseek⟩, hrec⟩

/-- `trading_days` from one trading day to another lists as many days as there are steps, and one
more. -/
theorem apart_of_tradingDays {days : List Day} (ha : c.isTradingDay a = .ok true)
    (hb : c.isTradingDay b = .ok true) (hab : a < b) (h : c.tradingDays a b = .ok days)
    (hscans : c.scans a (days.length - 1) = true) :
    Steps.Apart c.Adjacent (days.length - 1) a b := by
  obtain ⟨n, hn⟩ := Int.eq_ofNat_of_zero_le (show (0 : ℤ) ≤ b - a from sub_nonneg.mpr hab.le)
  obtain rfl : b = a + (n : ℤ) := by rw [← hn]; ring
  have hcount : ((a + (n : ℤ) + 1 - a : ℤ)).toNat = n + 1 := by
    have hn : (a + (n : ℤ) + 1 - a : ℤ) = ((n + 1 : ℕ) : ℤ) := by
      push_cast
      ring
    rw [hn, Int.toNat_natCast]
  unfold tradingDays at h
  rw [hcount] at h
  simp only [tradingDaysFrom, bind, Except.bind, ha] at h
  cases hrest : c.tradingDaysFrom (a + 1) n with
  | error e =>
    rw [hrest] at h
    cases h
  | ok rest =>
    rw [hrest] at h
    obtain rfl : a :: rest = days := by simpa [pure, Except.pure] using h
    have hlength : ((a :: rest).length : ℤ) - 1 = rest.length := by simp
    rw [hlength] at hscans ⊢
    rw [Steps.apart_natCast]
    refine ahead_of_tradingDaysFrom ha hb hrest ?_
    unfold scans at hscans
    rw [Int.natAbs_natCast] at hscans
    split at hscans
    · exact hscans
    · have hzero : rest.length = 0 := by omega
      rw [hzero]
      rfl

end NSECalendar

/-- **Session arithmetic.** For every calendar and trading day, where the scans find their
sessions: no session is the day itself, sessions add up whichever way they go, more sessions lead
further on, and between two trading days there are as many sessions as trading days after the
first. -/
theorem shift_sessions_add (c : NSECalendar) (d : Day) (hd : c.isTradingDay d = .ok true) :
    shiftSessions c d 0 = d ∧
    (∀ m n : ℤ, c.scans d m = true → c.scans (shiftSessions c d m) n = true →
      shiftSessions c (shiftSessions c d m) n = shiftSessions c d (m + n)) ∧
    (∀ m n : ℤ, c.scans d m = true → c.scans d n = true → m < n →
      shiftSessions c d m < shiftSessions c d n) ∧
    ∀ (e : Day) (days : List Day), c.isTradingDay e = .ok true → d < e →
      c.tradingDays d e = .ok days → c.scans d ((days.length : ℤ) - 1) = true →
      shiftSessions c d ((days.length : ℤ) - 1) = e := by
  have htrading : ∀ m, c.scans d m = true → c.isTradingDay (shiftSessions c d m) = .ok true := by
    intro m hm
    refine NSECalendar.trading_of_finds ?_ hd hm
    split
    · exact .inl rfl
    · exact .inr rfl
  refine ⟨rfl, fun m n hm hn => ?_, fun m n hm hn hlt => ?_, fun e days he hde hdays hscans => ?_⟩
  · have hfirst := NSECalendar.apart_shiftSessions hd hm
    have hsecond := NSECalendar.apart_shiftSessions (htrading m hm) hn
    exact (NSECalendar.shiftSessions_of_apart
      (hfirst.trans NSECalendar.adjacent_biUnique hsecond)).symm
  · exact (NSECalendar.apart_shiftSessions hd hm).lt NSECalendar.adjacent_biUnique
      NSECalendar.adjacent_lt (NSECalendar.apart_shiftSessions hd hn) hlt
  · exact NSECalendar.shiftSessions_of_apart
      (NSECalendar.apart_of_tradingDays hd he hde hdays hscans)

/-! ## A weekend with a special session -/

namespace OddWeekend

/-- In 2026, with a holiday on Friday 2 October, a session on the Saturday and none on the
Monday. -/
def calendar : NSECalendar :=
  ⟨BadResults.calendar.default, [2026], [20728],
    Dict.empty.set 20729 (some BadResults.calendar.default) |>.set 20731 none⟩

theorem thursday : calendar.isTradingDay 20727 = .ok true := by rfl

theorem tuesday : calendar.isTradingDay 20732 = .ok true := by rfl

theorem listed : calendar.tradingDays 20727 20732 = .ok [20727, 20729, 20732] := by rfl

/-- Two sessions on from the Thursday, and three back from there. -/
theorem shift_sessions_add_thursday :
    shiftSessions calendar 20727 0 = 20727 ∧
    shiftSessions calendar (shiftSessions calendar 20727 2) (-3) =
      shiftSessions calendar 20727 (2 + -3) ∧
    shiftSessions calendar 20727 (-1) < shiftSessions calendar 20727 2 ∧
    shiftSessions calendar 20727 (([20727, 20729, 20732] : List Day).length - 1) = 20732 := by
  obtain ⟨hzero, hadd, hlt, hlist⟩ := shift_sessions_add calendar 20727 thursday
  exact ⟨hzero, hadd 2 (-3) (by decide +kernel) (by decide +kernel),
    hlt (-1) 2 (by decide +kernel) (by decide +kernel) (by decide),
    hlist 20732 _ tuesday (by decide) listed (by decide +kernel)⟩

end OddWeekend

end RakshaQuant
