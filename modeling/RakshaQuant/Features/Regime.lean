import RakshaQuant.Decision.Signals
import RakshaQuant.Lib.Runs

/-! The regime of the index: the label confirmed from the raw labels of the bars, and whether the
last bar changed it. The confirmed label is that of the last run of raw labels that is long enough,
where bars without a label do not end a run. -/

namespace RakshaQuant

/-- The variables of the loop of `hysteresis`. -/
structure Hysteresis where
  confirmed : Option Regime
  candidate : Option Regime
  streak : ℕ
  changed : Bool
deriving DecidableEq

namespace Hysteresis

def init : Hysteresis := ⟨none, none, 0, false⟩

/-- One round of the loop. -/
def step (confirm : ℤ) (s : Hysteresis) : Option Regime → Hysteresis
  | none => { s with changed := false }
  | some raw =>
    if s.confirmed = none then { s with confirmed := some raw, changed := true }
    else if s.confirmed = some raw then { s with candidate := none, streak := 0, changed := false }
    else
      let streak := if s.candidate = some raw then s.streak + 1 else 1
      if confirm ≤ streak then ⟨some raw, none, 0, true⟩
      else { s with candidate := some raw, streak := streak, changed := false }

def run (confirm : ℤ) (raws : List (Option Regime)) : Hysteresis :=
  raws.foldl (step confirm) init

end Hysteresis

/-- `hysteresis`: the confirmed label, and whether the last bar changed it. -/
def hysteresis (raws : List (Option Regime)) (confirm : ℤ) : Option Regime × Bool :=
  ((Hysteresis.run confirm raws).confirmed, (Hysteresis.run confirm raws).changed)

/-! ## What it says of the runs -/

/-- The label of the last run that is long enough, or the first label. -/
def confirmedLabel (confirm : ℤ) (labels : List Regime) : Option Regime :=
  (Runs.lastLong confirm labels).or labels.head?

namespace Hysteresis

variable {confirm : ℤ} {labels : List Regime} {s : Hysteresis} {raw : Regime}

/-- After some labels: the confirmed one is the runs' one; where the last label is another, it is
the candidate and its run the streak. -/
structure Tracks (confirm : ℤ) (labels : List Regime) (s : Hysteresis) : Prop where
  confirmed : s.confirmed = confirmedLabel confirm labels
  settled : labels.getLast? = s.confirmed → s.candidate = none
  pending : labels.getLast? ≠ s.confirmed →
    s.candidate = labels.getLast? ∧ s.streak = Runs.trailing labels

theorem Tracks.init : Tracks confirm [] init := ⟨rfl, fun _ => rfl, fun h => absurd rfl h⟩

theorem confirmedLabel_concat (hne : labels ≠ []) : confirmedLabel confirm (labels ++ [raw]) =
    if confirm ≤ Runs.trailing (labels ++ [raw]) then some raw
    else confirmedLabel confirm labels := by
  unfold confirmedLabel
  rw [Runs.lastLong_concat, List.head?_append_of_ne_nil labels hne]
  split <;> rfl

theorem confirmedLabel_ne_none (hne : labels ≠ []) : confirmedLabel confirm labels ≠ none := by
  obtain ⟨a, rest, rfl⟩ := List.exists_cons_of_ne_nil hne
  simp [confirmedLabel]

/-- A label keeps the track. -/
theorem Tracks.step (h : Tracks confirm labels s) (raw : Regime) :
    Tracks confirm (labels ++ [raw]) (s.step confirm (some raw)) := by
  have hlast : (labels ++ [raw]).getLast? = some raw := List.getLast?_concat
  by_cases hne : labels = []
  · -- the first label is confirmed at once
    subst hne
    have hnone : s.confirmed = none := h.confirmed
    have hstep : s.step confirm (some raw) = { s with confirmed := some raw, changed := true } := by
      rw [Hysteresis.step, if_pos hnone]
    have hfirst : confirmedLabel confirm ([] ++ [raw]) = some raw := by
      rw [confirmedLabel, Runs.lastLong_concat]
      split <;> rfl
    rw [hstep]
    exact ⟨hfirst.symm, fun _ => h.settled hnone.symm, fun hpending => absurd hlast hpending⟩
  · have hsome : s.confirmed ≠ none := by
      rw [h.confirmed]
      exact confirmedLabel_ne_none hne
    rw [Hysteresis.step, if_neg hsome]
    by_cases hraw : s.confirmed = some raw
    · rw [if_pos hraw]
      refine ⟨?_, fun _ => rfl, fun hpending => absurd (hlast.trans hraw.symm) hpending⟩
      rw [confirmedLabel_concat hne, ← h.confirmed, hraw]
      split <;> rfl
    · rw [if_neg hraw]
      -- the candidate is the last label, and the streak its run
      have hstreak : (if s.candidate = some raw then s.streak + 1 else 1) =
          Runs.trailing (labels ++ [raw]) := by
        rw [Runs.trailing_concat]
        by_cases hsame : labels.getLast? = some raw
        · obtain ⟨hcandidate, hrun⟩ := h.pending (fun heq => hraw (heq.symm.trans hsame))
          rw [if_pos (hcandidate.trans hsame), if_pos hsame, hrun]
        · have hcandidate : s.candidate ≠ some raw := by
            by_cases hsettled : labels.getLast? = s.confirmed
            · rw [h.settled hsettled]
              exact Option.some_ne_none raw |>.symm
            · rw [(h.pending hsettled).1]
              exact hsame
          rw [if_neg hcandidate, if_neg hsame]
      dsimp only
      rw [hstreak]
      split
      next hlong =>
        refine ⟨?_, fun _ => rfl, fun hpending => absurd hlast hpending⟩
        rw [confirmedLabel_concat hne, if_pos hlong]
      next hshort =>
        refine ⟨?_, fun hsettled => absurd (hsettled.symm.trans hlast) hraw,
          fun _ => ⟨hlast.symm, rfl⟩⟩
        rw [confirmedLabel_concat hne, if_neg hshort]
        exact h.confirmed

/-- Bars without a label are as if they were not there. -/
theorem tracks_run (confirm : ℤ) (raws : List (Option Regime)) :
    Tracks confirm (raws.filterMap id) (run confirm raws) := by
  induction raws using List.reverseRecOn with
  | nil => exact .init
  | append_singleton raws raw ih =>
    rw [run, List.foldl_append, List.filterMap_append]
    cases raw with
    | none =>
      obtain ⟨hconfirmed, hsettled, hpending⟩ := ih
      simp only [List.filterMap_cons, id_eq, List.filterMap_nil, List.append_nil]
      exact ⟨hconfirmed, hsettled, hpending⟩
    | some label => exact ih.step label

/-- A round says it changed the label exactly when it did. -/
theorem step_changed (confirm : ℤ) (s : Hysteresis) (raw : Regime) :
    (s.step confirm (some raw)).changed = true ↔
      s.confirmed ≠ (s.step confirm (some raw)).confirmed := by
  unfold step
  dsimp only
  split
  next hnone => simp [hnone]
  next hsome =>
    split
    next hraw => simp
    next hraw =>
      generalize (if s.candidate = some raw then s.streak + 1 else 1) = streak
      split <;> simp [hraw]

end Hysteresis

/-- **Hysteresis by runs.** The label confirmed is that of the last run of raw labels that is long
enough, or else the first label; and the last bar changed it exactly when it has a label and the
bars before it confirm another one. -/
theorem hysteresis_runs (raws : List (Option Regime)) (confirm : ℤ) :
    (hysteresis raws confirm).1 = confirmedLabel confirm (raws.filterMap id) ∧
    ((hysteresis raws confirm).2 = true ↔
      (∃ label, raws.getLast? = some (some label)) ∧
        (hysteresis raws.dropLast confirm).1 ≠ (hysteresis raws confirm).1) := by
  refine ⟨(Hysteresis.tracks_run confirm raws).confirmed, ?_⟩
  cases raws using List.reverseRecOn with
  | nil => simp [hysteresis, Hysteresis.run, Hysteresis.init]
  | append_singleton raws raw =>
    have hrun : Hysteresis.run confirm (raws ++ [raw]) =
        (Hysteresis.run confirm raws).step confirm raw := by
      rw [Hysteresis.run, List.foldl_append]
      rfl
    simp only [hysteresis, hrun, List.getLast?_concat, List.dropLast_concat]
    cases raw with
    | none => simp [Hysteresis.step]
    | some label =>
      rw [Hysteresis.step_changed]
      simp

/-- A blip, a bar without a label and a change that holds for two bars. -/
example : hysteresis [some .ranging, some .volatile, some .trendingUp, none, some .trendingUp] 2 =
    (some .trendingUp, true) := by decide

end RakshaQuant
