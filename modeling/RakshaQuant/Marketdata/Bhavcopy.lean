import Mathlib.Algebra.BigOperators.Ring.List
import Mathlib.Algebra.Order.Field.Basic
import Mathlib.Data.List.Sort
import Mathlib.Tactic.Linarith
import RakshaQuant.Domain.Types
import RakshaQuant.Lib.Dict
import RakshaQuant.Lib.Products

/-! Corporate actions over the exchange's own daily files. Each session before an ex-date is
scaled by the action; the scales are collected by ex-date and then met on the way back through
the sessions. Prices are exact rationals here. -/

namespace RakshaQuant

inductive ActionKind
  | split
  | bonus
  | dividend
  | other
deriving DecidableEq

/-- `ratio` is shares after by shares before, of a split or a bonus; `amount` is paid per share. -/
structure CorporateAction where
  symbol : String
  exDate : Day
  kind : ActionKind
  ratio : Option ℚ
  amount : Option ℚ
  purpose : String

/-- The sessions in order. -/
def sessionDays (closes : Dict Day ℚ) : List Day := closes.keys.insertionSort (· ≤ ·)

/-- The scales by ex-date, with one more action. -/
def addAction (closes : Dict Day ℚ) (events : Dict Day ℚ) (a : CorporateAction) : Dict Day ℚ :=
  match ((sessionDays closes).filter (· < a.exDate)).getLast? with
  | none => events
  | some last =>
    let ratio := a.ratio.getD 0
    let amount := a.amount.getD 0
    if (a.kind = .split ∨ a.kind = .bonus) ∧ ratio ≠ 0 then
      events.set a.exDate ((events.get? a.exDate).getD 1 / ratio)
    else if a.kind = .dividend ∧ amount ≠ 0 then
      let prev := (closes.get? last).getD 0
      if amount < prev then
        events.set a.exDate ((events.get? a.exDate).getD 1 * (1 - amount / prev))
      else events
    else events

/-- The sessions' factors, from the last session back. -/
def walkBack (events : Dict Day ℚ) (walked : Dict Day ℚ × ℚ) (day : Day) : Dict Day ℚ × ℚ :=
  (walked.1.set day walked.2, walked.2 * (events.get? day).getD 1)

/-- `adjustment_factors`. -/
def adjustmentFactors (actions : List CorporateAction) (closes : Dict Day ℚ) : Dict Day ℚ :=
  let events := actions.foldl (addAction closes) .empty
  ((sessionDays closes).reverse.foldl (walkBack events) (.empty, 1)).1

/-! ## What an action scales by -/

/-- The last close before an ex-date. -/
def closeBefore (closes : Dict Day ℚ) (exDate : Day) : Option ℚ :=
  (((sessionDays closes).filter (· < exDate)).getLast?).bind closes.get?

/-- What an action makes of a price before its ex-date. -/
def CorporateAction.scale (closes : Dict Day ℚ) (a : CorporateAction) : ℚ :=
  match a.kind with
  | .split | .bonus => if a.ratio.getD 0 = 0 then 1 else 1 / a.ratio.getD 0
  | .dividend =>
    match closeBefore closes a.exDate with
    | none => 1
    | some prev => if a.amount.getD 0 < prev then 1 - a.amount.getD 0 / prev else 1
  | .other => 1

section scales

variable {closes events : Dict Day ℚ} {actions : List CorporateAction}

@[simp] theorem mem_sessionDays {day : Day} : day ∈ sessionDays closes ↔ day ∈ closes.keys :=
  List.mem_insertionSort _

theorem sessionDays_sorted : (sessionDays closes).Pairwise (· < ·) := by
  have hsorted : (sessionDays closes).Pairwise (· ≤ ·) := List.pairwise_insertionSort _ _
  have hnodup : (sessionDays closes).Nodup :=
    (List.perm_insertionSort _ _).nodup_iff.mpr closes.nodup_keys
  exact hsorted.imp₂ (fun _ _ hle hne => lt_of_le_of_ne hle hne) hnodup

/-- The last session before an ex-date has a close. -/
theorem closeBefore_of_last {exDate last : Day}
    (h : ((sessionDays closes).filter (· < exDate)).getLast? = some last) :
    closeBefore closes exDate = some ((closes.get? last).getD 0) := by
  have hmem := List.mem_of_getLast? h
  rw [List.mem_filter, mem_sessionDays, Dict.mem_keys_iff] at hmem
  obtain ⟨⟨c, hc⟩, -⟩ := hmem
  rw [closeBefore, h, Option.bind_some, hc]
  rfl

/-- An action scales no price where a session precedes it: it is dropped otherwise. -/
theorem addAction_get (a : CorporateAction) (e : Day) :
    ((addAction closes events a).get? e).getD 1 =
      (events.get? e).getD 1 *
        if a.exDate = e ∧ (∃ d ∈ closes.keys, d < a.exDate) then a.scale closes else 1 := by
  unfold addAction
  cases hlast : ((sessionDays closes).filter (· < a.exDate)).getLast? with
  | none =>
    have hnone : ¬∃ d ∈ closes.keys, d < a.exDate := by
      rintro ⟨d, hd, hlt⟩
      have hmem : d ∈ (sessionDays closes).filter (· < a.exDate) :=
        List.mem_filter.mpr ⟨mem_sessionDays.mpr hd, decide_eq_true hlt⟩
      rw [List.getLast?_eq_none_iff.mp hlast] at hmem
      cases hmem
    rw [if_neg fun h => hnone h.2, mul_one]
  | some last =>
    have hmem := List.mem_of_getLast? hlast
    rw [List.mem_filter, mem_sessionDays, decide_eq_true_eq] at hmem
    have hsome : ∃ d ∈ closes.keys, d < a.exDate := ⟨last, hmem⟩
    -- an action that scales adds its scale at its ex-date, and another one adds nothing
    have hset : ∀ k, a.scale closes = k →
        ((events.set a.exDate ((events.get? a.exDate).getD 1 * k)).get? e).getD 1 =
          (events.get? e).getD 1 *
            if a.exDate = e ∧ (∃ d ∈ closes.keys, d < a.exDate) then a.scale closes else 1 := by
      rintro k rfl
      rw [Dict.get?_set]
      by_cases he : e = a.exDate
      · rw [if_pos he, if_pos ⟨he.symm, hsome⟩, he]
        rfl
      · rw [if_neg he, if_neg fun h => he h.1.symm, mul_one]
    have hkeep : a.scale closes = 1 → (events.get? e).getD 1 = (events.get? e).getD 1 *
        if a.exDate = e ∧ (∃ d ∈ closes.keys, d < a.exDate) then a.scale closes else 1 := by
      intro hone
      rw [hone, ite_self, mul_one]
    have hbefore := closeBefore_of_last hlast
    dsimp only
    split
    · rename_i hratio
      rw [div_eq_mul_one_div]
      refine hset _ ?_
      unfold CorporateAction.scale
      rcases hratio with ⟨hkind | hkind, hne⟩ <;> rw [hkind] <;> exact if_neg hne
    · rename_i hratio
      split
      · rename_i hamount
        have hscale : a.scale closes =
            if a.amount.getD 0 < (closes.get? last).getD 0 then
              1 - a.amount.getD 0 / (closes.get? last).getD 0
            else 1 := by
          unfold CorporateAction.scale
          rw [hamount.1, hbefore]
        split
        · rename_i hlt
          exact hset _ (by rw [hscale, if_pos hlt])
        · rename_i hge
          exact hkeep (by rw [hscale, if_neg hge])
      · rename_i hamount
        refine hkeep ?_
        unfold CorporateAction.scale
        cases hkind : a.kind with
        | split => exact if_pos (not_not.mp fun hne => hratio ⟨.inl hkind, hne⟩)
        | bonus => exact if_pos (not_not.mp fun hne => hratio ⟨.inr hkind, hne⟩)
        | dividend =>
          have hzero : a.amount.getD 0 = 0 := not_not.mp fun hne => hamount ⟨hkind, hne⟩
          simp [hbefore, hzero]
        | other => rfl

/-- The scale of a date is the product of the actions of that date that a session precedes. -/
theorem events_get (e : Day) :
    ((actions.foldl (addAction closes) events).get? e).getD 1 =
      (events.get? e).getD 1 * Products.within actions
        (fun a => a.exDate = e ∧ ∃ d ∈ closes.keys, d < a.exDate) (fun a => a.scale closes) := by
  induction actions generalizing events with
  | nil => simp
  | cons a rest ih =>
    rw [List.foldl_cons, ih, addAction_get, Products.within_cons, mul_assoc]
    simp only [decide_eq_true_eq]

/-- What the way back through some sessions has met. -/
theorem walkBack_met (events : Dict Day ℚ) (days : List Day) :
    (days.foldr (fun day walked => walkBack events walked day) (.empty, 1)).2 =
      (days.map fun e => (events.get? e).getD 1).prod := by
  induction days with
  | nil => rfl
  | cons day rest ih =>
    rw [List.foldr_cons, walkBack, ih, List.map_cons, List.prod_cons, mul_comm]

/-- Each session gets the product of the scales of the sessions after it. -/
theorem walkBack_get (events : Dict Day ℚ) {days : List Day} (hsorted : days.Pairwise (· < ·))
    {day : Day} (hday : day ∈ days) :
    (days.reverse.foldl (walkBack events) (.empty, 1)).1.get? day =
      some (((days.filter (day < ·)).map fun e => (events.get? e).getD 1).prod) := by
  rw [List.foldl_reverse]
  induction days with
  | nil => cases hday
  | cons first rest ih =>
    obtain ⟨hfirst, hrest⟩ := List.pairwise_cons.mp hsorted
    rw [List.foldr_cons, walkBack, Dict.get?_set]
    rcases List.mem_cons.mp hday with rfl | hlater
    · -- the sessions after the first one are all the others
      have hall : rest.filter (day < ·) = rest :=
        List.filter_eq_self.mpr fun e he => decide_eq_true (hfirst e he)
      rw [if_pos rfl, walkBack_met, List.filter_cons_of_neg (by simp), hall]
    · have hlt := hfirst day hlater
      rw [if_neg hlt.ne', ih hrest hlater, List.filter_cons_of_neg (by simpa using hlt.le)]

/-- **What the code computes.** A session gets the scales of the actions with an ex-date after
it that is a session. -/
theorem adjustmentFactors_get {day : Day} (hday : day ∈ closes.keys) :
    (adjustmentFactors actions closes).get? day = some (Products.within actions
      (fun a => a.exDate ∈ closes.keys ∧ day < a.exDate) fun a => a.scale closes) := by
  have hnodup : ((sessionDays closes).filter (day < ·)).Nodup :=
    (sessionDays_sorted.imp fun h => ne_of_lt h).filter _
  unfold adjustmentFactors
  rw [walkBack_get _ sessionDays_sorted (mem_sessionDays.mpr hday)]
  congr 1
  calc (((sessionDays closes).filter (day < ·)).map fun e =>
          ((actions.foldl (addAction closes) .empty).get? e).getD 1).prod
      = (((sessionDays closes).filter (day < ·)).map fun e => Products.within actions
          (fun a => a.exDate = e) fun a => a.scale closes).prod := by
        congr 1
        refine List.map_congr_left fun e he => ?_
        rw [List.mem_filter, mem_sessionDays, decide_eq_true_eq] at he
        rw [events_get, Dict.get?_empty, Option.getD_none, one_mul]
        refine Products.within_congr _ fun a _ => ?_
        by_cases hex : a.exDate = e
        · simp only [hex, true_and]
          exact (decide_eq_true ⟨day, hday, he.2⟩).trans (decide_eq_true trivial).symm
        · simp [hex]
    _ = Products.within actions (fun a => a.exDate ∈ (sessionDays closes).filter (day < ·))
          fun a => a.scale closes :=
        Products.prod_keys actions CorporateAction.exDate _ hnodup
    _ = Products.within actions (fun a => a.exDate ∈ closes.keys ∧ day < a.exDate)
          fun a => a.scale closes := by
        refine Products.within_congr _ fun a _ => ?_
        simp [List.mem_filter]

theorem closeBefore_pos (hpositive : ∀ d c, closes.get? d = some c → 0 < c) {exDate : Day}
    {prev : ℚ} (h : closeBefore closes exDate = some prev) : 0 < prev := by
  obtain ⟨last, -, hprev⟩ := Option.bind_eq_some_iff.mp h
  exact hpositive last prev hprev

/-- No scale is zero. -/
theorem scale_ne_zero (hpositive : ∀ d c, closes.get? d = some c → 0 < c) (a : CorporateAction) :
    a.scale closes ≠ 0 := by
  have hratio : (if a.ratio.getD 0 = 0 then 1 else 1 / a.ratio.getD 0) ≠ 0 := by
    split
    · exact one_ne_zero
    · rename_i hne
      exact one_div_ne_zero hne
  unfold CorporateAction.scale
  cases a.kind with
  | split => exact hratio
  | bonus => exact hratio
  | other => exact one_ne_zero
  | dividend =>
    dsimp only
    split
    · exact one_ne_zero
    · rename_i prev hprev
      split
      · rename_i hlt
        have hpos := closeBefore_pos hpositive hprev
        exact (sub_pos.mpr ((div_lt_one hpos).mpr hlt)).ne'
      · exact one_ne_zero

/-- The ex-date of an action is after a session, among the sessions. -/
def CorporateAction.Due (closes : Dict Day ℚ) (day : Day) (a : CorporateAction) : Prop :=
  day < a.exDate ∧ (∃ last ∈ closes.keys, a.exDate ≤ last) ∧ ∃ first ∈ closes.keys, first < a.exDate

instance (closes : Dict Day ℚ) (day : Day) (a : CorporateAction) : Decidable (a.Due closes day) :=
  inferInstanceAs (Decidable (_ ∧ _))

/-- Of the actions due, those whose ex-date is a session are met. -/
theorem due_split {day : Day} (hday : day ∈ closes.keys) :
    Products.within actions (fun a => a.Due closes day) (fun a => a.scale closes) =
      Products.within actions (fun a => a.exDate ∈ closes.keys ∧ day < a.exDate)
          (fun a => a.scale closes) *
        Products.within actions (fun a => a.Due closes day ∧ a.exDate ∉ closes.keys)
          fun a => a.scale closes := by
  rw [Products.within_split _ _ fun a => a.exDate ∈ closes.keys]
  congr 1
  · refine Products.within_congr _ fun a _ => ?_
    rw [← Bool.decide_and, decide_eq_decide]
    constructor
    · rintro ⟨hdue, hmem⟩
      exact ⟨hmem, hdue.1⟩
    · rintro ⟨hmem, hlt⟩
      exact ⟨⟨hlt, ⟨a.exDate, hmem, le_rfl⟩, day, hday, hlt⟩, hmem⟩
  · refine Products.within_congr _ fun a _ => ?_
    simp

/-- **Every earlier session is adjusted exactly where no action is lost.** An ex-date that is no
session is passed over on the way back, so the actions due then must leave prices alone together. -/
theorem adjustmentFactors_iff (actions : List CorporateAction)
    (hpositive : ∀ d c, closes.get? d = some c → 0 < c) :
    ((∀ day ∈ closes.keys, (adjustmentFactors actions closes).get? day =
        some (Products.within actions (fun a => a.Due closes day) fun a => a.scale closes)) ∧
      ∀ last ∈ closes.keys, (∀ d ∈ closes.keys, d ≤ last) →
        (adjustmentFactors actions closes).get? last = some 1) ↔
    ∀ day ∈ closes.keys, Products.within actions
      (fun a => a.Due closes day ∧ a.exDate ∉ closes.keys) (fun a => a.scale closes) = 1 := by
  have hne : ∀ day, Products.within actions
      (fun a => a.exDate ∈ closes.keys ∧ day < a.exDate) (fun a => a.scale closes) ≠ 0 := by
    intro day hzero
    obtain ⟨a, -, ha⟩ := List.mem_map.mp (List.prod_eq_zero_iff.mp hzero)
    exact scale_ne_zero hpositive a ha
  constructor
  · rintro ⟨hall, -⟩ day hday
    have heq := hall day hday
    rw [adjustmentFactors_get hday, due_split hday, Option.some.injEq, eq_comm,
      mul_eq_left₀ (hne day)] at heq
    exact heq
  · intro hlost
    refine ⟨fun day hday => ?_, fun last hlast hmax => ?_⟩
    · rw [adjustmentFactors_get hday, due_split hday, hlost day hday, mul_one]
    · rw [adjustmentFactors_get hlast, Products.within_congr (q := fun _ => false),
        Products.within_false]
      intro a _
      refine decide_eq_false fun h => ?_
      exact absurd (hmax _ h.1) (not_le.mpr h.2)

end scales

/-! ## A split -/

namespace OneSplit

/-- Two shares for one, with an ex-date. -/
def action (exDate : Day) : CorporateAction := ⟨"INFY", exDate, .split, some 2, none, ""⟩

def closes : Dict Day ℚ := .ofList [(1, 100), (3, 50)]

theorem closes_pos (d : Day) (c : ℚ) (h : closes.get? d = some c) : 0 < c := by
  have hmem := Dict.mem_of_ofList h
  simp only [List.mem_cons, Prod.mk.injEq, List.not_mem_nil, or_false] at hmem
  rcases hmem with ⟨-, rfl⟩ | ⟨-, rfl⟩ <;> decide +kernel

end OneSplit

/-- The split is on a session. -/
theorem adjustmentFactors_iff_session :
    (adjustmentFactors [OneSplit.action 3] OneSplit.closes).get? 1 = some (1 / 2) := by
  have hadjusted := (adjustmentFactors_iff [OneSplit.action 3] OneSplit.closes_pos).mpr
    (by decide +kernel)
  rw [hadjusted.1 1 (by decide +kernel)]
  decide +kernel

/-- Nothing trades on the ex-date, and the split is lost. -/
theorem split_lost :
    ¬∀ (actions : List CorporateAction) (closes : Dict Day ℚ),
      (∀ d c, closes.get? d = some c → 0 < c) →
      ∀ day ∈ closes.keys, (adjustmentFactors actions closes).get? day =
        some (Products.within actions (fun a => a.Due closes day) fun a => a.scale closes) := by
  intro h
  have heq := h [OneSplit.action 2] OneSplit.closes OneSplit.closes_pos 1 (by decide +kernel)
  exact absurd heq (by decide +kernel)

end RakshaQuant
