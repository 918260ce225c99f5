import RakshaQuant.Risk.Days
import RakshaQuant.Risk.Latch

/-! What holds of the daily risk state in every run of the tracker, with crashes anywhere:
the start-of-day equity stands for the day, a breach is returned once a day, the peak is the
greatest equity ever started with or ticked. -/

namespace RakshaQuant

namespace DailyRiskState

variable {a b : DailyRiskState}

/-- The same day, marked the same. -/
structure SameMarks (a b : DailyRiskState) : Prop where
  istDate : b.istDate = a.istDate
  sodEquity : b.sodEquity = a.sodEquity
  peakEquity : b.peakEquity = a.peakEquity
  lastEquity : b.lastEquity = a.lastEquity
  lowEquity : b.lowEquity = a.lowEquity

/-- Recording an event marks nothing and raises nothing. -/
theorem recording_same {limits : RiskLimits} {now : Instant} {payload : EventPayload}
    {change : DailyRiskState → DailyRiskState}
    (h : recording limits now payload = some change) (a : DailyRiskState) :
    SameMarks a (change a) ∧ (change a).breaches = a.breaches := by
  cases payload with
  | orderSubmitted order =>
    cases h
    unfold withOrder
    dsimp only
    split <;> exact ⟨⟨rfl, rfl, rfl, rfl, rfl⟩, rfl⟩
  | orderRejected =>
    cases h
    exact ⟨⟨rfl, rfl, rfl, rfl, rfl⟩, rfl⟩
  | tradeClosed trade =>
    cases h
    exact ⟨⟨rfl, rfl, rfl, rfl, rfl⟩, rfl⟩
  | _ => cases h

/-- An acknowledgement takes back at most the breach of its streak. -/
theorem acknowledged_same (strategy : String) (a : DailyRiskState) :
    SameMarks a (acknowledged strategy a) ∧ ∀ key ∈ a.breaches,
      key ≠ (.strConsecLosses, strategy) → key ∈ (acknowledged strategy a).breaches := by
  unfold acknowledged
  split
  · exact ⟨⟨rfl, rfl, rfl, rfl, rfl⟩, fun _ h _ => h⟩
  · split
    · exact ⟨⟨rfl, rfl, rfl, rfl, rfl⟩, fun _ h _ => h⟩
    · refine ⟨⟨rfl, rfl, rfl, rfl, rfl⟩, fun key h hne => ?_⟩
      exact (List.mem_erase_of_ne hne).mpr h

theorem raised_same (new : List Breach) (a : DailyRiskState) : SameMarks a (a.raised new) :=
  ⟨rfl, rfl, rfl, rfl, rfl⟩

theorem mem_raised (new : List Breach) (a : DailyRiskState) (key : ReasonCode × String) :
    key ∈ (a.raised new).breaches ↔ key ∈ a.breaches ∨ key ∈ new.map Breach.key := by
  have hfold : ∀ keys : List (ReasonCode × String),
      key ∈ new.foldl (fun keys b => keys.insert b.key) keys ↔
        key ∈ keys ∨ key ∈ new.map Breach.key := by
    intro keys
    induction new generalizing keys with
    | nil => simp
    | cons b rest ih =>
      rw [List.foldl_cons, ih, List.mem_insert_iff, List.map_cons, List.mem_cons]
      tauto
  exact hfold a.breaches

/-- Today's state is the one there is, or one rolled from an earlier day. -/
theorem today_cases {bookId : String} {now : Instant} {hint : Option ℚ}
    {s : Option DailyRiskState} (h : today bookId now hint s = some a) :
    (s = some a ∧ a.istDate = now.istDate) ∨
      ∃ equity, a = rolled bookId now.istDate equity s ∧ ∀ p ∈ s, p.istDate < now.istDate := by
  cases s with
  | none =>
    obtain ⟨equity, -, rfl⟩ := Option.map_eq_some_iff.mp h
    exact .inr ⟨equity, rfl, by simp⟩
  | some p =>
    rw [today] at h
    by_cases hday : p.istDate = now.istDate
    · rw [if_pos hday, Option.some.injEq] at h
      rw [← h]
      exact .inl ⟨rfl, hday⟩
    · rw [if_neg hday] at h
      by_cases hold : now.istDate < p.istDate
      · rw [if_pos hold] at h
        cases h
      · rw [if_neg hold, Option.some.injEq] at h
        refine .inr ⟨_, h.symm, ?_⟩
        rintro q ⟨⟩
        exact lt_of_le_of_ne (not_lt.mp hold) hday

theorem today_istDate {bookId : String} {now : Instant} {hint : Option ℚ}
    {s : Option DailyRiskState} (h : today bookId now hint s = some a) :
    a.istDate = now.istDate := by
  rcases today_cases h with ⟨-, hday⟩ | ⟨equity, rfl, -⟩
  · exact hday
  · rfl

/-! ## The start-of-day equity -/

/-- A state goes on to a later day, or to the same day with the same start. -/
def Leads (s s' : Option DailyRiskState) : Prop :=
  ∀ a ∈ s, ∃ b ∈ s', a.istDate < b.istDate ∨ (a.istDate = b.istDate ∧ a.sodEquity = b.sodEquity)

theorem Leads.refl (s : Option DailyRiskState) : Leads s s := fun a ha => ⟨a, ha, .inr ⟨rfl, rfl⟩⟩

theorem Leads.trans {s s' s'' : Option DailyRiskState} (h : Leads s s') (h' : Leads s' s'') :
    Leads s s'' := by
  intro a ha
  obtain ⟨b, hb, hab⟩ := h a ha
  obtain ⟨c, hc, hbc⟩ := h' b hb
  refine ⟨c, hc, ?_⟩
  rcases hab with hlt | ⟨hday, hsod⟩
  · left
    rcases hbc with hlt' | ⟨hday', -⟩
    · exact lt_trans hlt hlt'
    · exact hday' ▸ hlt
  · rw [hday, hsod]
    exact hbc

theorem SameMarks.leads (h : SameMarks a b) : Leads (some a) (some b) := by
  rintro c ⟨⟩
  exact ⟨b, rfl, .inr ⟨h.istDate.symm, h.sodEquity.symm⟩⟩

theorem today_leads {bookId : String} {now : Instant} {hint : Option ℚ}
    {s : Option DailyRiskState} (h : today bookId now hint s = some a) : Leads s (some a) := by
  rcases today_cases h with ⟨rfl, -⟩ | ⟨equity, rfl, hlater⟩
  · exact .refl _
  · exact fun p hp => ⟨_, rfl, .inl (hlater p hp)⟩

theorem marked_leads (equity : ℚ) (now : Instant) (a : DailyRiskState) :
    Leads (some a) (some (a.marked equity now)) := by
  rintro c ⟨⟩
  exact ⟨_, rfl, .inr ⟨rfl, rfl⟩⟩

/-! ## The marks in order -/

/-- The last equity lies between the day's low and the peak. -/
def Ordered (s : DailyRiskState) : Prop :=
  s.lowEquity ≤ s.lastEquity ∧ s.lastEquity ≤ s.peakEquity

theorem SameMarks.ordered (h : SameMarks a b) (ha : a.Ordered) : b.Ordered := by
  unfold Ordered
  rw [h.lowEquity, h.lastEquity, h.peakEquity]
  exact ha

theorem rolled_ordered (bookId : String) (day : Day) (equity : ℚ) (s : Option DailyRiskState) :
    (rolled bookId day equity s).Ordered := by
  refine ⟨le_refl _, ?_⟩
  cases s with
  | none => exact le_refl _
  | some p => exact le_max_right _ _

theorem marked_ordered (equity : ℚ) (now : Instant) (a : DailyRiskState) :
    (a.marked equity now).Ordered :=
  ⟨min_le_right _ _, le_max_right _ _⟩

/-- The marks of the day there is, if any, are in order. -/
def AllOrdered (s : Option DailyRiskState) : Prop := ∀ a ∈ s, a.Ordered

theorem today_ordered {bookId : String} {now : Instant} {hint : Option ℚ}
    {s : Option DailyRiskState} (h : today bookId now hint s = some a) (hs : AllOrdered s) :
    a.Ordered := by
  rcases today_cases h with ⟨rfl, -⟩ | ⟨equity, rfl, -⟩
  · exact hs a rfl
  · exact rolled_ordered _ _ _ _

/-! ## The breaches of a day -/

/-- A breach of a day was raised, and the day may be over. -/
def HasRaised (day : Day) (key : ReasonCode × String) (s : Option DailyRiskState) : Prop :=
  ∃ a ∈ s, day < a.istDate ∨ (a.istDate = day ∧ key ∈ a.breaches)

theorem today_hasRaised {bookId : String} {now : Instant} {hint : Option ℚ}
    {s : Option DailyRiskState} {day : Day} {key : ReasonCode × String}
    (h : today bookId now hint s = some a) (hs : HasRaised day key s) :
    HasRaised day key (some a) := by
  rcases today_cases h with ⟨rfl, -⟩ | ⟨equity, rfl, hlater⟩
  · exact hs
  · obtain ⟨p, hp, hday⟩ := hs
    have hlt := hlater p hp
    refine ⟨_, rfl, .inl ?_⟩
    rcases hday with hday | ⟨hday, -⟩
    · exact lt_trans hday hlt
    · exact hday ▸ hlt

theorem HasRaised.same {day : Day} {key : ReasonCode × String} (h : HasRaised day key (some a))
    (hday : b.istDate = a.istDate) (hkept : key ∈ a.breaches → key ∈ b.breaches) :
    HasRaised day key (some b) := by
  obtain ⟨c, ⟨⟩, hc⟩ := h
  refine ⟨b, rfl, ?_⟩
  rw [hday]
  exact hc.imp_right fun hin => ⟨hin.1, hkept hin.2⟩

section found

variable (s : DailyRiskState) (limits : RiskLimits)

theorem breachIf_keys (p : Prop) [Decidable p] (b : Breach) :
    ((breachIf p b).map Breach.key).Sublist [b.key] := by
  unfold breachIf
  split <;> simp

/-- The limits found crossed have keys of their own. -/
theorem found_nodup (now : Instant) (unrealized : Dict String ℚ) :
    ((s.found limits now unrealized).map Breach.key).Nodup := by
  have hglobal : ((s.globalBreaches limits now).map Breach.key).Sublist
      [(.pfDailyLossMtm, "global"), (.pfDrawdown, "global"), (.sysRejectStorm, "global")] := by
    unfold globalBreaches
    rw [List.map_append, List.map_append]
    exact ((breachIf_keys _ _).append (breachIf_keys _ _)).append (breachIf_keys _ _)
  have hstrategy : ∀ name, ((s.strategyBreaches limits unrealized name).map Breach.key).Sublist
      [(.strDailyLoss, name), (.strConsecLosses, name)] := by
    intro name
    unfold strategyBreaches
    rw [List.map_append]
    exact (breachIf_keys _ _).append (breachIf_keys _ _)
  set names := (s.strategies.keys ++ unrealized.keys).dedup.insertionSort (· ≤ ·) with hnames
  have hdistinct : names.Nodup :=
    (List.perm_insertionSort _ _).nodup_iff.mpr (List.nodup_dedup _)
  unfold found
  rw [List.map_append, List.map_flatMap, List.nodup_append]
  refine ⟨hglobal.nodup (by decide), ?_, ?_⟩
  · rw [List.nodup_flatMap]
    refine ⟨fun name _ => (hstrategy name).nodup (by simp), ?_⟩
    refine hdistinct.imp fun hne key hkey hkey' => ?_
    have h := (hstrategy _).subset hkey
    have h' := (hstrategy _).subset hkey'
    simp only [List.mem_cons, List.not_mem_nil, or_false] at h h'
    rcases h with rfl | rfl <;> rcases h' with h' | h' <;> cases h' <;> exact hne rfl
  · intro key hkey key' hkey' heq
    obtain ⟨name, -, hname⟩ := List.mem_flatMap.mp hkey'
    have h := hglobal.subset hkey
    have h' := (hstrategy name).subset hname
    simp only [List.mem_cons, List.not_mem_nil, or_false] at h h'
    subst heq
    rcases h with rfl | rfl | rfl <;> rcases h' with h' | h' <;> cases h'

theorem fresh_nodup (now : Instant) (unrealized : Dict String ℚ) :
    ((s.fresh limits now unrealized).map Breach.key).Nodup :=
  (found_nodup s limits now unrealized).sublist (List.filter_sublist.map _)

theorem fresh_new {now : Instant} {unrealized : Dict String ℚ} {key : ReasonCode × String}
    (h : key ∈ (s.fresh limits now unrealized).map Breach.key) : key ∉ s.breaches := by
  obtain ⟨b, hb, rfl⟩ := List.mem_map.mp h
  simpa using (List.mem_filter.mp hb).2

end found

/-! ## The peak -/

/-- The equity a new state's day started with. -/
def started (s : Option DailyRiskState) : Option DailyRiskState → List ℚ
  | none => []
  | some b => if s.map DailyRiskState.istDate = some b.istDate then [] else [b.sodEquity]

/-- The peak is the greatest of some equities. -/
def Peaks (equities : List ℚ) : Option DailyRiskState → Prop
  | none => equities = []
  | some a => IsGreatest {e | e ∈ equities} a.peakEquity

theorem isGreatest_append {equities : List ℚ} {peak : ℚ} (h : IsGreatest {e | e ∈ equities} peak)
    (equity : ℚ) : IsGreatest {e | e ∈ equities ++ [equity]} (max peak equity) := by
  constructor
  · rcases max_choice peak equity with hmax | hmax
    · rw [hmax]
      exact List.mem_append_left _ h.1
    · rw [hmax]
      exact List.mem_append_right _ List.mem_cons_self
  · intro e he
    rcases List.mem_append.mp he with he | he
    · exact le_max_of_le_left (h.2 he)
    · rw [List.mem_singleton.mp he]
      exact le_max_right _ _

theorem started_same (h : b.istDate = a.istDate) (s : Option DailyRiskState)
    (hsod : b.sodEquity = a.sodEquity) : started s (some b) = started s (some a) := by
  simp only [started, h, hsod]

theorem started_self (s : Option DailyRiskState) : started s s = [] := by
  cases s <;> simp [started]

theorem today_peaks {bookId : String} {now : Instant} {hint : Option ℚ}
    {s : Option DailyRiskState} {equities : List ℚ} (h : today bookId now hint s = some a)
    (hs : Peaks equities s) : Peaks (equities ++ started s (some a)) (some a) := by
  rcases today_cases h with ⟨rfl, -⟩ | ⟨equity, rfl, hlater⟩
  · rw [started_self, List.append_nil]
    exact hs
  · cases s with
    | none =>
      obtain rfl : equities = [] := hs
      constructor
      · simp [started, rolled]
      · intro e he
        simpa [started, rolled] using (le_of_eq (by simpa [started, rolled] using he) : e ≤ equity)
    | some p =>
      have hne : p.istDate ≠ now.istDate := (hlater p rfl).ne
      have hstarted : started (some p) (some (rolled bookId now.istDate equity (some p))) =
          [equity] := by
        simp [started, rolled, hne]
      rw [hstarted]
      exact isGreatest_append hs equity

end DailyRiskState

namespace TrackerOp

/-- The equity an op that returned has ticked. -/
def ticked : TrackerOp → List ℚ
  | tick equity _ => [equity]
  | startDay _ | event _ | acknowledge _ | restart => []

/-- The op acknowledges a streak, and the key is of the streak's breach. -/
def Resets (s : Option DailyRiskState) (key : ReasonCode × String) (op : TrackerOp) : Prop :=
  ∃ strategy a day, op = .acknowledge strategy ∧ key = (.strConsecLosses, strategy) ∧
    s = some a ∧ a.strategies.get? strategy = some day ∧ day.consecutiveLosses ≠ 0

namespace Does

open DailyRiskState

variable {config : RiskConfig} {now : Instant} {op : TrackerOp} {s s' : Option DailyRiskState}
  {breaches : List Breach}

theorem leads (h : op.Does config now s s' breaches) : Leads s s' := by
  cases h with
  | startDay h => exact today_leads h
  | event recorded h => exact (today_leads h).trans (recording_same recorded _).1.leads
  | ignored => exact .refl s
  | @acknowledge strategy =>
    cases s with
    | none => exact .refl none
    | some a => exact (acknowledged_same strategy a).1.leads
  | tick h => exact ((today_leads h).trans (marked_leads _ now _)).trans (raised_same _ _).leads
  | restart => exact .refl s

theorem ordered (h : op.Does config now s s' breaches) (hs : AllOrdered s) : AllOrdered s' := by
  cases h with
  | startDay h =>
    rintro a ⟨⟩
    exact today_ordered h hs
  | event recorded h =>
    rintro a ⟨⟩
    exact (recording_same recorded _).1.ordered (today_ordered h hs)
  | ignored => exact hs
  | @acknowledge strategy =>
    intro a ha
    obtain ⟨b, hb, rfl⟩ := Option.map_eq_some_iff.mp ha
    exact (acknowledged_same strategy b).1.ordered (hs b hb)
  | tick h =>
    rintro a ⟨⟩
    exact (raised_same _ _).ordered (marked_ordered _ now _)
  | restart => exact hs

/-- A breach stays raised unless its streak is acknowledged. -/
theorem hasRaised {day : Day} {key : ReasonCode × String} (h : op.Does config now s s' breaches)
    (hack : ¬op.Resets s key) (hs : HasRaised day key s) : HasRaised day key s' := by
  cases h with
  | startDay h => exact today_hasRaised h hs
  | event recorded h =>
    obtain ⟨hsame, hbreaches⟩ := recording_same recorded _
    exact (today_hasRaised h hs).same hsame.istDate fun hin => hbreaches ▸ hin
  | ignored => exact hs
  | @acknowledge strategy =>
    obtain ⟨a, rfl, hday⟩ := hs
    obtain ⟨hsame, hkept⟩ := acknowledged_same strategy a
    refine HasRaised.same ⟨a, rfl, hday⟩ hsame.istDate fun hin => ?_
    by_cases hkey : key = (.strConsecLosses, strategy)
    · -- there was no streak to acknowledge
      have hstill : ∀ d, a.strategies.get? strategy = some d → d.consecutiveLosses = 0 := by
        intro d hd
        by_contra hne
        exact hack ⟨strategy, a, d, rfl, hkey, rfl, hd, hne⟩
      have hsame : acknowledged strategy a = a := by
        unfold acknowledged
        split
        · rfl
        · rename_i d hd
          rw [if_pos (hstill d hd)]
      rw [hsame]
      exact hin
    · exact hkept key hin hkey
  | tick h =>
    exact (today_hasRaised h hs).same rfl fun hin => (mem_raised _ _ _).mpr (.inl hin)
  | restart => exact hs

/-- What a tick returns is raised on its day, and was not raised before. -/
theorem returns (h : op.Does config now s s' breaches) {key : ReasonCode × String}
    (hkey : key ∈ breaches.map Breach.key) :
    HasRaised now.istDate key s' ∧ ¬HasRaised now.istDate key s := by
  cases h with
  | tick h =>
    have hdate := today_istDate h
    constructor
    · exact ⟨_, rfl, .inr ⟨hdate, (mem_raised _ _ _).mpr (.inr hkey)⟩⟩
    · intro hs
      obtain ⟨a, ⟨⟩, hday⟩ := today_hasRaised h hs
      rcases hday with hlt | ⟨-, hin⟩
      · exact absurd hdate hlt.ne'
      · exact fresh_new _ _ hkey hin
  | _ => cases hkey

theorem nodup (h : op.Does config now s s' breaches) : (breaches.map Breach.key).Nodup := by
  cases h with
  | tick => exact fresh_nodup _ _ _ _
  | _ => exact List.nodup_nil

/-- Each start of a day and each tick counts for the peak. -/
theorem peaks (h : op.Does config now s s' breaches) {equities : List ℚ}
    (hs : Peaks equities s) : Peaks (equities ++ (started s s' ++ op.ticked)) s' := by
  cases h with
  | startDay h =>
    rw [ticked, List.append_nil]
    exact today_peaks h hs
  | @event payload change _ state recorded h =>
    obtain ⟨hsame, -⟩ := recording_same recorded state
    rw [ticked, List.append_nil, started_same hsame.istDate s hsame.sodEquity]
    have hpeaks : IsGreatest _ state.peakEquity := today_peaks h hs
    rw [← hsame.peakEquity] at hpeaks
    exact hpeaks
  | ignored =>
    rw [ticked, List.append_nil, started_self, List.append_nil]
    exact hs
  | @acknowledge strategy =>
    cases s with
    | none => exact (List.append_nil _).trans hs
    | some a =>
      obtain ⟨hsame, -⟩ := acknowledged_same strategy a
      rw [Option.map_some, ticked, List.append_nil,
        started_same hsame.istDate _ hsame.sodEquity, started_self, List.append_nil]
      have hpeaks : IsGreatest _ a.peakEquity := hs
      rw [← hsame.peakEquity] at hpeaks
      exact hpeaks
  | tick h =>
    rw [ticked, ← List.append_assoc]
    exact isGreatest_append (today_peaks h hs) _
  | restart =>
    rw [ticked, List.append_nil, started_self, List.append_nil]
    exact hs

end Does

end TrackerOp

namespace TrackerStep

open DailyRiskState

variable (config : RiskConfig) {w : RiskWorld} {s : Option DailyRiskState}

/-- The equities a step starts a day with or ticks. -/
def equities (config : RiskConfig) (w : RiskWorld) (step : TrackerStep) : List ℚ :=
  started w.tracker (step.after config w).tracker ++
    if (step.returned config w).isSome then step.op.ticked else []

def allEquities (config : RiskConfig) : RiskWorld → List TrackerStep → List ℚ
  | _, [] => []
  | w, step :: rest => step.equities config w ++ allEquities config (step.after config w) rest

/-- What the tracker's state, the same in memory and store, and the steps so far keep. -/
structure Sound (w : RiskWorld) (equities : List ℚ) : Prop where
  saved : w.trackerStore = w.tracker
  ordered : AllOrdered w.tracker
  peaks : Peaks equities w.tracker

theorem Sound.tracks {equities : List ℚ} (h : Sound w equities) : w.Tracks w.tracker w.tracker :=
  ⟨rfl, h.saved⟩

/-- **The step lemma.** -/
theorem Sound.after {equities : List ℚ} (h : Sound w equities) (step : TrackerStep) :
    Sound (step.after config w) (equities ++ step.equities config w) ∧
      Leads w.tracker (step.after config w).tracker := by
  obtain ⟨s', hw', ⟨breaches, hreturned, hdoes⟩ | ⟨hreturned, -, hstate⟩⟩ :=
    after_cases config h.tracks step
  all_goals
    unfold TrackerStep.equities
    rw [hreturned, hw'.1]
  · exact ⟨⟨hw'.2.trans hw'.1.symm, hw'.1 ▸ hdoes.ordered h.ordered,
      hw'.1 ▸ hdoes.peaks h.peaks⟩, hdoes.leads⟩
  · have hsaved := hw'.2.trans hw'.1.symm
    rcases hstate with rfl | ⟨a, ha, rfl⟩
    · refine ⟨⟨hsaved, hw'.1 ▸ h.ordered, ?_⟩, .refl _⟩
      rw [started_self, hw'.1]
      simpa using h.peaks
    · refine ⟨⟨hsaved, ?_, ?_⟩, today_leads ha⟩
      · rw [hw'.1]
        rintro b ⟨⟩
        exact today_ordered ha h.ordered
      · rw [hw'.1]
        simpa using today_peaks ha h.peaks

/-- **The run lemma.** -/
theorem Sound.run {equities : List ℚ} (h : Sound w equities) (steps : List TrackerStep) :
    Sound (TrackerStep.run config w steps) (equities ++ allEquities config w steps) ∧
      Leads w.tracker (TrackerStep.run config w steps).tracker := by
  induction steps generalizing w equities with
  | nil =>
    rw [allEquities, List.append_nil]
    exact ⟨h, .refl _⟩
  | cons step rest ih =>
    obtain ⟨hstep, hleads⟩ := h.after config step
    obtain ⟨hrest, hleads'⟩ := ih hstep
    rw [allEquities, ← List.append_assoc]
    exact ⟨hrest, hleads.trans hleads'⟩

/-- A breach stays raised over a run up to an acknowledgement of its streak. -/
theorem hasRaised_run {equities : List ℚ} (h : Sound w equities) {day : Day}
    {key : ReasonCode × String} (hraised : HasRaised day key w.tracker)
    (steps : List TrackerStep) :
    HasRaised day key (TrackerStep.run config w steps).tracker ∨
      ∃ us step vs, steps = us ++ step :: vs ∧
        step.op.Resets (TrackerStep.run config w us).tracker key := by
  induction steps generalizing w equities with
  | nil => exact .inl hraised
  | cons step rest ih =>
    by_cases hack : step.op.Resets w.tracker key
    · exact .inr ⟨[], step, rest, rfl, hack⟩
    have hstill : HasRaised day key (step.after config w).tracker := by
      obtain ⟨s', hw', ⟨breaches, -, hdoes⟩ | ⟨-, -, hstate⟩⟩ :=
        after_cases config h.tracks step
      · rw [hw'.1]
        exact hdoes.hasRaised hack hraised
      · rw [hw'.1]
        rcases hstate with rfl | ⟨a, ha, rfl⟩
        · exact hraised
        · exact today_hasRaised ha hraised
    rcases ih (h.after config step).1 hstill with hend | ⟨us, other, vs, rfl, hresets⟩
    · exact .inl hend
    · exact .inr ⟨step :: us, other, vs, rfl, hresets⟩

/-- The keys of the breaches a step returns. -/
def returnedKeys (config : RiskConfig) (w : RiskWorld) (step : TrackerStep) :
    List (ReasonCode × String) :=
  ((step.returned config w).getD []).map Breach.key

theorem returnedKeys_spec {equities : List ℚ} (h : Sound w equities) (step : TrackerStep) :
    (step.returnedKeys config w).Nodup ∧ ∀ key ∈ step.returnedKeys config w,
      HasRaised step.now.istDate key (step.after config w).tracker ∧
        ¬HasRaised step.now.istDate key w.tracker := by
  unfold returnedKeys
  obtain ⟨s', hw', ⟨breaches, hreturned, hdoes⟩ | ⟨hreturned, -⟩⟩ :=
    after_cases config h.tracks step
  · rw [hreturned, hw'.1]
    exact ⟨hdoes.nodup, fun key hkey => hdoes.returns hkey⟩
  · rw [hreturned]
    exact ⟨List.nodup_nil, by simp⟩

theorem run_append (config : RiskConfig) (w : RiskWorld) (xs ys : List TrackerStep) :
    run config w (xs ++ ys) = run config (run config w xs) ys :=
  List.foldl_append

/-- **The daily risk state over runs.** From an empty store, whatever is called, however the
clock moves and wherever the process dies: the marks are in order and the peak is the
greatest equity started with or ticked; a day keeps its start-of-day equity; no tick returns
a breach twice, and two ticks of a day return the same breach only around an acknowledgement
of its streak. -/
theorem day_runs (config : RiskConfig) (w : RiskWorld) (hw : w.Tracks none none)
    (steps : List TrackerStep) :
    (∀ s, (run config w steps).tracker = some s →
      (s.lowEquity ≤ s.lastEquity ∧ s.lastEquity ≤ s.peakEquity) ∧
        IsGreatest {e | e ∈ allEquities config w steps} s.peakEquity) ∧
    (∀ xs ys s s', steps = xs ++ ys → (run config w xs).tracker = some s →
      (run config w steps).tracker = some s' → s.istDate = s'.istDate →
        s.sodEquity = s'.sodEquity) ∧
    (∀ xs x ys, steps = xs ++ x :: ys → (x.returnedKeys config (run config w xs)).Nodup) ∧
    ∀ xs x ys y zs key, steps = xs ++ x :: (ys ++ y :: zs) → x.now.istDate = y.now.istDate →
      key ∈ x.returnedKeys config (run config w xs) →
      key ∈ y.returnedKeys config (run config w (xs ++ x :: ys)) →
        ∃ us step vs, ys = us ++ step :: vs ∧
          step.op.Resets (run config w (xs ++ x :: us)).tracker key := by
  have hcreated : Sound w [] := by
    obtain ⟨hnone, hstore⟩ := hw
    refine ⟨hstore.trans hnone.symm, ?_, ?_⟩
    · rw [hnone]
      intro a ha
      cases ha
    · rw [hnone]
      rfl
  have hrun : ∀ xs, Sound (run config w xs) (allEquities config w xs) := fun xs =>
    (hcreated.run config xs).1
  refine ⟨fun s hs => ?_, ?_, ?_, ?_⟩
  · have h := hrun steps
    constructor
    · exact h.ordered s hs
    · have hpeaks := h.peaks
      rw [hs] at hpeaks
      exact hpeaks
  · rintro xs ys s s' rfl hs hs' hday
    rw [run_append] at hs'
    obtain ⟨b, hb, hlt | ⟨-, hsod⟩⟩ := ((hrun xs).run config ys).2 s hs
    · obtain rfl : s' = b := Option.some.inj (hs'.symm.trans hb)
      exact absurd hday hlt.ne
    · obtain rfl : s' = b := Option.some.inj (hs'.symm.trans hb)
      exact hsod
  · rintro xs x ys rfl
    exact (returnedKeys_spec config (hrun xs) x).1
  · rintro xs x ys y zs key rfl hday hx hy
    have hraised := ((returnedKeys_spec config (hrun xs) x).2 key hx).1
    have hafter := ((hrun xs).after config x).1
    -- a key that is still raised is not returned again, so it was reset between the two ticks
    have hnot : ¬HasRaised y.now.istDate key (run config w (xs ++ x :: ys)).tracker :=
      ((returnedKeys_spec config (hrun _) y).2 key hy).2
    have hsplit : ∀ us, run config w (xs ++ x :: us) =
        run config (x.after config (run config w xs)) us := fun us => run_append config w xs _
    rcases hasRaised_run config hafter hraised ys with hstill | ⟨us, step, vs, rfl, hresets⟩
    · rw [hsplit, ← hday] at hnot
      exact absurd hstill hnot
    · exact ⟨us, step, vs, rfl, by rw [hsplit]; exact hresets⟩

end TrackerStep

/-! ## A day with a crash -/

namespace Sample

/-- Ten lakh at the start, one percent gained, and a crash in the next tick's save. -/
def gainDay : List TrackerStep :=
  [⟨0, .startDay 1000000, none⟩, ⟨1000000, .tick 1010000 .empty, none⟩,
    ⟨2000000, .tick 1020000 .empty, some 0⟩, ⟨3000000, .tick 990000 .empty, none⟩]

theorem gainDay_tracked : (TrackerStep.run riskConfig stores gainDay).tracker.isSome = true := by
  decide +kernel

/-- The lost tick does not count. -/
theorem gainDay_equities :
    TrackerStep.allEquities riskConfig stores gainDay = [1000000, 1010000, 990000] := by
  decide +kernel

end Sample

theorem TrackerStep.day_runs_gain :
    ∃ s, (run Sample.riskConfig Sample.stores Sample.gainDay).tracker = some s ∧
      IsGreatest {e | e ∈ [1000000, 1010000, 990000]} s.peakEquity := by
  obtain ⟨s, hs⟩ := Option.isSome_iff_exists.mp Sample.gainDay_tracked
  have hpeak := ((day_runs Sample.riskConfig Sample.stores ⟨rfl, rfl⟩ Sample.gainDay).1 s hs).2
  rw [Sample.gainDay_equities] at hpeak
  exact ⟨s, hs, hpeak⟩

end RakshaQuant
