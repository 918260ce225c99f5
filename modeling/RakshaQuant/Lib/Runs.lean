import Mathlib.Data.List.Induction
import Mathlib.Data.List.SplitBy

/-! The maximal runs of equal elements in a list, and the element of the last run that is long
enough. One more element lengthens the last run or starts a new one, which is all that the element
of the last long run depends on. -/

namespace Runs

variable {α : Type*} [DecidableEq α] {a : α} {l p : List α} {n : ℤ}

/-- The maximal runs of equal elements. -/
def runs (l : List α) : List (List α) := l.splitBy (· == ·)

/-- The length of the last run. -/
def trailing (l : List α) : ℕ := ((runs l).getLast?.map List.length).getD 0

/-- The element of the last run of at least `n`. -/
def lastLong (n : ℤ) (l : List α) : Option α :=
  ((runs l).filter fun run => n ≤ run.length).getLast?.bind List.head?

/-- A list ends in so many of an element. -/
theorem exists_trailing (a : α) (l : List α) :
    ∃ p k, l = p ++ List.replicate k a ∧ p.getLast? ≠ some a := by
  induction l using List.reverseRecOn with
  | nil => exact ⟨[], 0, rfl, by simp⟩
  | append_singleton l b ih =>
    by_cases hb : b = a
    · subst hb
      obtain ⟨p, k, rfl, hp⟩ := ih
      exact ⟨p, k + 1, by rw [List.append_assoc, List.replicate_succ'], hp⟩
    · exact ⟨l ++ [b], 0, by simp, by simpa using hb⟩

theorem runs_append_replicate (hp : p.getLast? ≠ some a) (k : ℕ) :
    runs (p ++ List.replicate (k + 1) a) = runs p ++ [List.replicate (k + 1) a] := by
  have hrun : (List.replicate (k + 1) a).splitBy (· == ·) = [List.replicate (k + 1) a] := by
    exact List.splitBy_of_isChain (by simp) (List.isChain_replicate_of_rel _ (by simp))
  unfold runs
  rw [List.splitBy_append, hrun]
  intro x hx y hy
  have hy' : a = y := by simpa [List.replicate_succ] using hy
  subst hy'
  have hne : x ≠ a := by
    rintro rfl
    exact hp hx
  simpa using hne

/-- One more element lengthens a last run of it, or starts a run. -/
theorem trailing_concat (l : List α) (a : α) :
    trailing (l ++ [a]) = if l.getLast? = some a then trailing l + 1 else 1 := by
  obtain ⟨p, k, rfl, hp⟩ := exists_trailing a l
  have hconcat : p ++ List.replicate k a ++ [a] = p ++ List.replicate (k + 1) a := by
    rw [List.append_assoc, List.replicate_succ']
  rw [hconcat, trailing, runs_append_replicate hp]
  cases k with
  | zero => simp [hp]
  | succ k =>
    rw [trailing, runs_append_replicate hp, if_pos (by simp [List.replicate_succ'])]
    simp

/-- Only a last run that is long enough changes the last long run. -/
theorem lastLong_concat (n : ℤ) (l : List α) (a : α) :
    lastLong n (l ++ [a]) = if n ≤ trailing (l ++ [a]) then some a else lastLong n l := by
  obtain ⟨p, k, rfl, hp⟩ := exists_trailing a l
  have hconcat : p ++ List.replicate k a ++ [a] = p ++ List.replicate (k + 1) a := by
    rw [List.append_assoc, List.replicate_succ']
  have hlong : ∀ k : ℕ, lastLong n (p ++ List.replicate (k + 1) a) =
      if n ≤ ((k + 1 : ℕ) : ℤ) then some a else lastLong n p := by
    intro k
    rw [lastLong, runs_append_replicate hp, List.filter_append]
    by_cases hk : n ≤ ((k + 1 : ℕ) : ℤ)
    · rw [if_pos hk, List.filter_cons_of_pos (by simpa using hk)]
      simp [List.replicate_succ]
    · rw [if_neg hk, List.filter_cons_of_neg (by simpa using hk)]
      simp [lastLong]
  have htrailing : trailing (p ++ List.replicate (k + 1) a) = k + 1 := by
    rw [trailing, runs_append_replicate hp]
    simp
  rw [hconcat, hlong, htrailing]
  by_cases hk : n ≤ ((k + 1 : ℕ) : ℤ)
  · rw [if_pos hk, if_pos hk]
  · rw [if_neg hk, if_neg hk]
    cases k with
    | zero => simp
    | succ k => rw [hlong, if_neg (by omega)]

end Runs
