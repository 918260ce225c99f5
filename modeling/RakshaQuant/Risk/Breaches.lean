import RakshaQuant.Risk.Monitor

/-! A breach that the risk tick recorded trips its switch. The tick marks a breach as
raised before it trips the switch, in another store, and never looks at it again that
day. So a recorded breach is sure to trip exactly where no write fails from its
announcement to the save of the trip. -/

namespace RakshaQuant

/-! ## What a recorded breach asks for -/

/-- The scope of the switch a code's breaches trip. -/
def ReasonCode.killScope : ReasonCode → KillScope
  | strDailyLoss | strConsecLosses => .strategy
  | _ => .global

/-- The action of a code's breaches. -/
def RiskLimits.breachAction (limits : RiskLimits) : ReasonCode → KillAction
  | .pfDailyLossMtm => limits.dailyLossAction
  | .pfDrawdown => limits.drawdownAction
  | _ => .haltNew

/-- The breach is one that its key tells: of the key's switch, with the key's action. -/
def Breach.Told (limits : RiskLimits) (b : Breach) : Prop :=
  b.scope = b.code.killScope ∧ b.action = limits.breachAction b.code

namespace DailyRiskState

variable (s : DailyRiskState) (limits : RiskLimits)

theorem mem_breachIf {p : Prop} [Decidable p] {b c : Breach} (h : c ∈ breachIf p b) : c = b := by
  unfold breachIf at h
  split at h
  · exact List.mem_singleton.mp h
  · cases h

theorem globalBreaches_told {now : Instant} {b : Breach} (h : b ∈ s.globalBreaches limits now) :
    b.Told limits := by
  simp only [globalBreaches, List.mem_append] at h
  rcases h with (h | h) | h
  · rw [mem_breachIf h]
    exact ⟨rfl, rfl⟩
  · rw [mem_breachIf h]
    exact ⟨rfl, rfl⟩
  · rw [mem_breachIf h]
    exact ⟨rfl, rfl⟩

theorem strategyBreaches_told {unrealized : Dict String ℚ} {name : String} {b : Breach}
    (h : b ∈ s.strategyBreaches limits unrealized name) : b.Told limits := by
  simp only [strategyBreaches, List.mem_append] at h
  rcases h with h | h
  · rw [mem_breachIf h]
    exact ⟨rfl, rfl⟩
  · rw [mem_breachIf h]
    exact ⟨rfl, rfl⟩

theorem fresh_told {now : Instant} {unrealized : Dict String ℚ} {b : Breach}
    (h : b ∈ s.fresh limits now unrealized) : b.Told limits := by
  obtain ⟨hfound, -⟩ := List.mem_filter.mp h
  rcases List.mem_append.mp hfound with hglobal | hstrategy
  · exact s.globalBreaches_told limits hglobal
  · obtain ⟨name, -, hname⟩ := List.mem_flatMap.mp hstrategy
    exact s.strategyBreaches_told limits hname

end DailyRiskState

/-- The breaches raised on a day, as far as the tracker knows. -/
def RiskWorld.raised (w : RiskWorld) (today : Day) : List (ReasonCode × String) :=
  w.tracker.elim [] fun s => if s.istDate = today then s.breaches else []

/-- A record at an action or above, that no new day's re-arm takes back today. -/
def SwitchRecord.Stands (config : RiskConfig) (today : Day) (target : KillSwitchState)
    (r : SwitchRecord) : Prop :=
  target ≤ r.state ∧ ¬ (config.limits.rearmOnNewDay = true ∧ r.rearms today)

instance (config : RiskConfig) (today : Day) (target : KillSwitchState) (r : SwitchRecord) :
    Decidable (r.Stands config today target) :=
  inferInstanceAs (Decidable (_ ∧ ¬ (_ ∧ _)))

/-- A switch stands at an action, in memory and in the store. -/
structure RiskWorld.Secured (config : RiskConfig) (today : Day) (scope : KillScope)
    (name : String) (target : KillSwitchState) (w : RiskWorld) : Prop where
  memory : (w.switches.record scope name).Stands config today target
  stored : ((w.switchStore.getD .initial).record scope name).Stands config today target

/-! ## What keeps a switch at an action -/

section secured

open Fault

variable {config : RiskConfig} {today : Day} {scope : KillScope} {name : String}
  {target : KillSwitchState}

/-- A trip's record is not one a new day takes back the same day. -/
theorem Trip.record_stands {t : Trip} {now : Instant} (hnow : now.istDate = today)
    (h : target ≤ t.target) : (t.record now).Stands config today target := by
  refine ⟨h, ?_⟩
  intro hrearms
  obtain ⟨-, -, -, date, hdate, hlt⟩ := hrearms
  cases hdate
  exact absurd hnow hlt.ne

theorem RiskWorld.secured_switchesOnly :
    RiskWorld.SwitchesOnly (RiskWorld.Secured config today scope name target) := by
  intro w w' hswitches hstore _ hw
  exact ⟨hswitches ▸ hw.memory, hstore ▸ hw.stored⟩

/-- Every change of another switch, or to a record that stands, keeps a switch where it is. -/
theorem RiskWorld.secured_kept :
    KeptBySwitches (RiskWorld.Secured config today scope name target) fun _ scope' name' record =>
      Switches.Same scope' name' scope name → record.Stands config today target where
  emitted _ _ hw := ⟨hw.memory, hw.stored⟩
  saved _ hw := ⟨hw.memory, hw.memory⟩
  put w scope' name' record hw hok := by
    refine ⟨?_, hw.stored⟩
    show ((w.switches.put scope' name' record).record scope name).Stands config today target
    rw [Switches.record_put]
    split
    · exact hok ‹_›
    · exact hw.memory

variable {now : Instant} (hnow : now.istDate = today)

include hnow

/-- A trip of a switch below its target only raises it. -/
theorem Trip.raises {t : Trip} {w : RiskWorld}
    (hw : w.Secured config today scope name target)
    (hrank : (w.switches.record t.scope t.name).state.rank < t.target.rank)
    (hsame : Switches.Same t.scope t.name scope name) :
    (t.record now).Stands config today target := by
  rw [Switches.record_same w.switches hsame] at hrank
  exact t.record_stands hnow (hw.memory.1.trans (KillSwitchState.le_iff_rank.mpr hrank.le))

theorem keeps_apply (breaches : List Breach) :
    Keeps (RiskWorld.Secured config today scope name target)
      (KillSwitchRegistry.apply config now breaches) := by
  apply RiskWorld.secured_kept.apply config now breaches
  intro b _ w hw hrank hsame
  exact b.trip.raises hnow hw hrank hsame

theorem keeps_checkHaltFile : Keeps (RiskWorld.Secured config today scope name target)
    (KillSwitchRegistry.checkHaltFile config now) := by
  apply RiskWorld.secured_kept.checkHaltFile config now
  intro text w hw hrank hsame
  exact (haltFileTrip text).raises hnow hw hrank hsame

theorem keeps_newDay : Keeps (RiskWorld.Secured config today scope name target)
    (KillSwitchRegistry.newDay config now) := by
  by_cases hconfigured : config.limits.rearmOnNewDay = true
  · apply RiskWorld.secured_kept.newDay config now
    intro w scope' name' record hw hrearms _ hsame
    rw [Switches.record_same w.switches hsame, hnow] at hrearms
    exact absurd ⟨hconfigured, hrearms⟩ hw.memory.2
  · unfold KillSwitchRegistry.newDay
    rw [if_neg hconfigured]
    exact .pure _

theorem keeps_tick (v : Valuation) : Keeps (RiskWorld.Secured config today scope name target)
    (RiskMonitor.tick config now v) := by
  have honly : RiskWorld.SwitchesOnly (RiskWorld.Secured config today scope name target) :=
    RiskWorld.secured_switchesOnly
  exact .bind (keeps_newDay hnow) fun _ => .bind (keeps_checkHaltFile hnow) fun _ =>
    .bind (RiskWorld.secured_kept.alertAll v.alerts) fun _ =>
      .bind (DailyRiskTracker.keeps_riskTick honly config now v.equity v.unrealized) fun _ =>
        .bind (keeps_apply hnow _) fun _ => .pure _

end secured

/-! ## What the trips of new breaches need -/

namespace Switches

variable (now : Instant)

/-- A trip's change of the switches. -/
def tripped (s : Switches) (t : Trip) : Switches :=
  if t.target.rank ≤ (s.record t.scope t.name).state.rank then s
  else s.put t.scope t.name (t.record now)

/-- The changes of some breaches' trips. -/
def trippedAll (s : Switches) (breaches : List Breach) : Switches :=
  breaches.foldl (fun s b => s.tripped now b.trip) s

/-- The writes of some breaches' trips, up to the last save of the switches: a trip saves,
then emits twice, and one of a switch that stands there already does nothing. -/
def tripWrites (s : Switches) : List Breach → ℕ
  | [] => 0
  | b :: rest =>
    let later := (s.tripped now b.trip).tripWrites rest
    if b.trip.target.rank ≤ (s.record b.scope b.name).state.rank then later
    else if later = 0 then 1
    else later + 3

variable {now} {s : Switches}

theorem tripped_absorbed {t : Trip} (h : t.target.rank ≤ (s.record t.scope t.name).state.rank) :
    s.tripped now t = s := if_pos h

theorem tripped_changes {t : Trip} (h : ¬ t.target.rank ≤ (s.record t.scope t.name).state.rank) :
    s.tripped now t = s.put t.scope t.name (t.record now) := if_neg h

theorem tripWrites_absorbed {b : Breach} {rest : List Breach}
    (h : b.trip.target.rank ≤ (s.record b.scope b.name).state.rank) :
    s.tripWrites now (b :: rest) = s.tripWrites now rest := by
  simp only [tripWrites, if_pos h]
  rw [tripped_absorbed h]

theorem tripWrites_changes {b : Breach} {rest : List Breach}
    (h : ¬ b.trip.target.rank ≤ (s.record b.scope b.name).state.rank) :
    s.tripWrites now (b :: rest) =
      if (s.tripped now b.trip).tripWrites now rest = 0 then 1
      else (s.tripped now b.trip).tripWrites now rest + 3 := by
  simp only [tripWrites, if_neg h]

/-- Without a write every switch stands at its breach's action already. -/
theorem absorbed_of_tripWrites {breaches : List Breach} (h : s.tripWrites now breaches = 0) :
    ∀ b ∈ breaches, b.trip.target.rank ≤ (s.record b.scope b.name).state.rank := by
  induction breaches with
  | nil => simp
  | cons b rest ih =>
    by_cases hb : b.trip.target.rank ≤ (s.record b.scope b.name).state.rank
    · rw [tripWrites_absorbed hb] at h
      exact List.forall_mem_cons.mpr ⟨hb, ih h⟩
    · rw [tripWrites_changes hb] at h
      split at h <;> simp at h

theorem trippedAll_absorbed {breaches : List Breach}
    (h : ∀ b ∈ breaches, b.trip.target.rank ≤ (s.record b.scope b.name).state.rank) :
    s.trippedAll now breaches = s := by
  induction breaches with
  | nil => rfl
  | cons b rest ih =>
    obtain ⟨hb, hrest⟩ := List.forall_mem_cons.mp h
    rw [trippedAll, List.foldl_cons, tripped_absorbed hb]
    exact ih hrest

/-- Every trip leaves the switches, as the pure trip says. -/
theorem tripped_stands {config : RiskConfig} {today : Day} (hnow : now.istDate = today)
    {scope : KillScope} {name : String} {target : KillSwitchState} (t : Trip)
    (h : (s.record scope name).Stands config today target) :
    ((s.tripped now t).record scope name).Stands config today target := by
  by_cases hrank : t.target.rank ≤ (s.record t.scope t.name).state.rank
  · rw [tripped_absorbed hrank]
    exact h
  · rw [tripped_changes hrank, record_put]
    split
    · rename_i hsame
      rw [record_same s hsame] at hrank
      exact t.record_stands hnow (h.1.trans (KillSwitchState.le_iff_rank.mpr (not_le.mp hrank).le))
    · exact h

theorem trippedAll_stands {config : RiskConfig} {today : Day} (hnow : now.istDate = today)
    {scope : KillScope} {name : String} {target : KillSwitchState} (breaches : List Breach)
    (h : (s.record scope name).Stands config today target) :
    ((s.trippedAll now breaches).record scope name).Stands config today target := by
  induction breaches generalizing s with
  | nil => exact h
  | cons b rest ih => exact ih (tripped_stands hnow b.trip h)

/-- After its trips each breach's switch stands at its action, if no new day's re-arm was due. -/
theorem trippedAll_reaches {config : RiskConfig} {today : Day} (hnow : now.istDate = today)
    {breaches : List Breach}
    (hrearms : ∀ b ∈ breaches,
      ¬ (config.limits.rearmOnNewDay = true ∧ (s.record b.scope b.name).rearms today)) :
    ∀ b ∈ breaches, ((s.trippedAll now breaches).record b.scope b.name).Stands config today
      b.trip.target := by
  induction breaches generalizing s with
  | nil => simp
  | cons b rest ih =>
    obtain ⟨hb, hrest⟩ := List.forall_mem_cons.mp hrearms
    rw [List.forall_mem_cons]
    constructor
    · -- the first trip reaches its target, and the others keep it
      apply trippedAll_stands hnow rest
      show ((s.tripped now b.trip).record b.scope b.name).Stands config today b.trip.target
      by_cases hrank : b.trip.target.rank ≤ (s.record b.scope b.name).state.rank
      · rw [tripped_absorbed hrank]
        exact ⟨KillSwitchState.le_iff_rank.mpr hrank, hb⟩
      · rw [tripped_changes hrank]
        show ((s.put b.scope b.name (b.trip.record now)).record b.scope b.name).Stands _ _ _
        rw [record_put_self]
        exact b.trip.record_stands hnow le_rfl
    · apply ih
      intro c hc
      have hstands : (s.record c.scope c.name).Stands config today .armed :=
        ⟨KillSwitchState.armed_le _, hrest c hc⟩
      exact (tripped_stands hnow b.trip hstands).2

end Switches

namespace KillSwitchRegistry

open Fault

variable (config : RiskConfig) (now : Instant)

theorem apply_absorbed {breaches : List Breach} {w : Faulty Exc RiskWorld}
    (h : ∀ b ∈ breaches, b.trip.target.rank ≤ (w.state.switches.record b.scope b.name).state.rank) :
    apply config now breaches w = .ok [] w := by
  induction breaches with
  | nil => rfl
  | cons b rest ih =>
    obtain ⟨hb, hrest⟩ := List.forall_mem_cons.mp h
    rw [apply, Effect.run_bind_ok (trip_absorbed config now (breach_target_ne b) hb),
      Effect.run_bind_ok (ih hrest)]
    rfl

/-- The switches in memory and in the store. -/
def Holds (s : Switches) (w : RiskWorld) : Prop := w.switches = s ∧ w.switchStore = some s

variable {config now}

theorem keeps_holds (s : Switches) (payload : EventPayload) :
    Keeps (Holds s) (RiskM.emit payload) :=
  .write fun _ h => h

/-- With room for its save a trip that changes a switch leaves it saved, and with room for
all its writes it also returns. -/
theorem trip_room {t : Trip} {w : Faulty Exc RiskWorld} (ht : t.target ≠ .armed)
    (h : ¬ t.target.rank ≤ (w.state.switches.record t.scope t.name).state.rank)
    {n : ℕ} (hroom : Room (n + 1) w) :
    Holds (w.state.switches.tripped now t) (trip config now t w).state.state ∧
      (2 ≤ n → ∃ w', trip config now t w = .ok true w' ∧ Room (n - 2) w') := by
  rw [Switches.tripped_changes h]
  let current := w.state.switches.record t.scope t.name
  let changed : EventPayload := .killSwitchChanged config.bookId t.scope t.name current.state
    t.target t.reason t.actor
  let alerted : EventPayload := .alert (tripAlert t current)
  let switches := w.state.switches.put t.scope t.name (t.record now)
  obtain ⟨w1, hsave, hstate, hroom1⟩ := write_room (w := ⟨{ w.state with switches }, w.fuse⟩)
    hroom fun u => { u with switchStore := some u.switches }
  have hrun : trip config now t w =
      (RiskM.emit changed >>= fun _ => RiskM.emit alerted >>= fun _ => pure true) w1 := by
    rw [trip_changes config now ht h]
    change ((Fault.write _ >>= fun _ => RiskM.emit changed) >>= fun _ => RiskM.emit alerted >>=
      fun _ => pure true : RiskM Bool) ⟨{ w.state with switches }, w.fuse⟩ = _
    rw [bind_assoc, Effect.run_bind_ok hsave]
  have hholds : Holds switches w1.state := by
    rw [hstate]
    exact ⟨rfl, rfl⟩
  rw [hrun]
  constructor
  · exact Keeps.bind (keeps_holds switches changed)
      (fun _ => .bind (keeps_holds switches alerted) fun _ => .pure true) w1 hholds
  · intro hn
    obtain ⟨m, rfl⟩ := Nat.exists_eq_add_of_le' hn
    obtain ⟨w2, hemit, -, hroom2⟩ := write_room hroom1 (RiskWorld.emitted changed)
    obtain ⟨w3, halert, -, hroom3⟩ := write_room hroom2 (RiskWorld.emitted alerted)
    refine ⟨w3, ?_, hroom3⟩
    exact (Effect.run_bind_ok hemit).trans (Effect.run_bind_ok halert)

/-- With room for its writes up to the last save, `apply` leaves the switches as its trips
without a failure, and saved if any of them changed one. -/
theorem apply_room (config : RiskConfig) {breaches : List Breach} {w : Faulty Exc RiskWorld}
    (h : Room (w.state.switches.tripWrites now breaches) w) :
    (w.state.switches.tripWrites now breaches = 0 ∧ apply config now breaches w = .ok [] w) ∨
      Holds (w.state.switches.trippedAll now breaches)
        (apply config now breaches w).state.state := by
  -- by induction on the breaches: a trip that changes nothing writes nothing
  induction breaches generalizing w with
  | nil => exact .inl ⟨rfl, rfl⟩
  | cons b rest ih =>
    by_cases hb : b.trip.target.rank ≤ (w.state.switches.record b.scope b.name).state.rank
    · have htrip := trip_absorbed config now (breach_target_ne b) hb
      rw [Switches.tripWrites_absorbed hb] at h ⊢
      have hall : w.state.switches.trippedAll now (b :: rest) =
          w.state.switches.trippedAll now rest := by
        rw [Switches.trippedAll, List.foldl_cons, Switches.tripped_absorbed hb]
        rfl
      rw [hall, apply, Effect.run_bind_ok htrip]
      rcases ih h with ⟨hnone, hrest⟩ | hholds
      · exact .inl ⟨hnone, Effect.run_bind_ok hrest⟩
      · exact .inr (Keeps.bindAt hholds fun _ => .pure _)
    · right
      have hall : w.state.switches.trippedAll now (b :: rest) =
          (w.state.switches.tripped now b.trip).trippedAll now rest := rfl
      rw [Switches.tripWrites_changes hb] at h
      rw [hall, apply]
      split at h
      · -- this trip's save is the last: nothing after it changes a switch
        rename_i hlater
        have habsorbed := Switches.absorbed_of_tripWrites hlater
        rw [Switches.trippedAll_absorbed habsorbed]
        apply Keeps.bindAt (trip_room (breach_target_ne b) hb h).1
        intro changed
        refine .bind ?_ fun _ => .pure _
        intro u hu
        rw [apply_absorbed config now (w := u) (by rw [hu.1]; exact habsorbed)]
        exact hu
      · obtain ⟨hholds, hreturns⟩ := trip_room (breach_target_ne b) hb (n := _ + 2) h
        obtain ⟨w', htrip, hroom⟩ := hreturns (Nat.le_add_left 2 _)
        rw [htrip] at hholds
        rw [Effect.run_bind_ok htrip]
        have hswitches : w'.state.switches = w.state.switches.tripped now b.trip := hholds.1
        apply Keeps.bindAt ?_ fun _ => .pure _
        rcases ih (w := w') (by rw [hswitches]; exact hroom) with ⟨hnone, -⟩ | hrest
        · rw [hswitches] at hnone
          exact absurd hnone ‹_›
        · rw [hswitches] at hrest
          exact hrest

end KillSwitchRegistry

/-! ## A new day's re-arm has nothing left to do -/

/-- No switch that a breach can trip is due for today's re-arm. -/
def RiskWorld.NoneDue (today : Day) (w : RiskWorld) : Prop :=
  ∀ scope name, scope ≠ .broker → ¬ (w.switches.record scope name).rearms today

/-- The same where the re-arm is configured. -/
def RiskWorld.Cleared (config : RiskConfig) (today : Day) (w : RiskWorld) : Prop :=
  config.limits.rearmOnNewDay = true → w.NoneDue today

section cleared

open Fault

variable {config : RiskConfig} {today : Day}

theorem SwitchRecord.not_rearms_armed {r : SwitchRecord} (h : r.state = .armed) :
    ¬ r.rearms today := fun hrearms => hrearms.1 h

theorem RiskWorld.cleared_kept : KeptBySwitches (RiskWorld.Cleared config today)
    fun _ _ _ record => ¬ record.rearms today where
  emitted _ _ hw := hw
  saved _ hw := hw
  put w scope' name' record hw hok := by
    intro hconfigured scope name hscope
    show ¬ ((w.switches.put scope' name' record).record scope name).rearms today
    rw [Switches.record_put]
    split
    · exact hok
    · exact hw hconfigured scope name hscope

variable {now : Instant} (hnow : now.istDate = today)

include hnow

omit hnow in
theorem set_ends (s : Switches) (scope : KillScope) (name : String)
    (current record : SwitchRecord) : Ends (fun w : RiskWorld => w.switches = s)
      (KillSwitchRegistry.set config scope name current record)
      fun _ w => w.switches = s.put scope name record := by
  have hrest : Keeps (fun w : RiskWorld => w.switches = s.put scope name record) (do
      Fault.write fun w => { w with switchStore := some w.switches }
      RiskM.emit (.killSwitchChanged config.bookId scope name current.state record.state
        record.reason record.actor)) :=
    .bind (.write fun _ h => h) fun _ => .write fun _ h => h
  refine .bind (.change ?_) fun _ => hrest.ends
  intro w hw
  show w.switches.put scope name record = s.put scope name record
  rw [hw]

/-- The loop's step: the candidate is armed, or was not due. -/
theorem rearm_cleared (candidates : List (KillScope × String)) :
    Ends (fun w : RiskWorld => ∀ scope name, scope ≠ .broker →
        (∀ c ∈ candidates, ¬ Switches.Same c.1 c.2 scope name) →
          ¬ (w.switches.record scope name).rearms today)
      (KillSwitchRegistry.rearm config now candidates) fun _ w => w.NoneDue today := by
  induction candidates with
  | nil =>
    apply Ends.pure
    intro w hw scope name hscope
    exact hw scope name hscope (by simp)
  | cons c rest ih =>
    intro w hw names w' hrun
    rw [KillSwitchRegistry.rearm_cons] at hrun
    split at hrun
    · rename_i hdue
      refine Ends.bind (R := fun _ u => u.NoneDue today)
        (set_ends w.state.switches c.1 c.2 (w.state.switches.record c.1 c.2) _)
        (fun _ => .bind (ih.mono ?_) fun _ => .pure fun _ h => h) w rfl names w' hrun
      intro u hu scope name hscope hrest
      rw [hu, Switches.record_put]
      split
      · exact SwitchRecord.not_rearms_armed rfl
      · rename_i hsame
        exact hw scope name hscope (List.forall_mem_cons.mpr ⟨hsame, hrest⟩)
    · rename_i hdue
      refine ih w ?_ names w' hrun
      intro scope name hscope hrest
      by_cases hsame : Switches.Same c.1 c.2 scope name
      · rw [← Switches.record_same w.state.switches hsame, ← hnow]
        exact hdue
      · exact hw scope name hscope (List.forall_mem_cons.mpr ⟨hsame, hrest⟩)

/-- Where `new_day` returns, it left nothing due. -/
theorem newDay_cleared : Ends (fun _ : RiskWorld => True) (KillSwitchRegistry.newDay config now)
    fun _ w => w.Cleared config today := by
  unfold KillSwitchRegistry.newDay
  split
  · intro w _ names w' hrun hconfigured
    refine rearm_cleared hnow _ w ?_ names w' hrun
    intro scope name hscope hnone
    rw [List.forall_mem_cons] at hnone
    cases scope with
    | global => exact absurd ⟨rfl, fun h => by cases h⟩ hnone.1
    | broker => exact absurd rfl hscope
    | strategy =>
      -- a strategy without a record is armed
      have habsent : w.state.switches.strategies.get? name = none := by
        by_contra hsome
        obtain ⟨r, hr⟩ := Option.ne_none_iff_exists'.mp hsome
        refine hnone.2 (.strategy, name) (List.mem_map.mpr ⟨name, ?_, rfl⟩) ⟨rfl, fun _ => rfl⟩
        exact (Dict.mem_keys_iff _).mpr ⟨r, hr⟩
      apply SwitchRecord.not_rearms_armed
      rw [Switches.record, habsent]
      rfl
  · rename_i hoff
    apply Ends.pure
    intro w _ hconfigured
    exact absurd hconfigured hoff

/-- The trips of a day leave nothing due that day. -/
theorem cleared_checkHaltFile : Keeps (RiskWorld.Cleared config today)
    (KillSwitchRegistry.checkHaltFile config now) := by
  apply RiskWorld.cleared_kept.checkHaltFile config now
  intro text _ _ _ hrearms
  obtain ⟨-, -, date, hdate, hlt⟩ := hrearms
  cases hdate
  exact absurd hnow hlt.ne

theorem search_cleared (v : Valuation) : Ends (fun _ : RiskWorld => True)
    (RiskMonitor.search config now v) fun _ w => w.Cleared config today := by
  have honly : RiskWorld.SwitchesOnly (RiskWorld.Cleared config today) := by
    intro w w' hswitches _ _ hw
    rw [RiskWorld.Cleared, RiskWorld.NoneDue, hswitches]
    exact hw
  have hcurrent := DailyRiskTracker.keeps_current honly config now (some v.equity)
  refine .bind (newDay_cleared hnow) fun _ => .bind (cleared_checkHaltFile hnow).ends fun _ => ?_
  refine .bind (RiskWorld.cleared_kept.alertAll v.alerts).ends fun _ => ?_
  refine .bind hcurrent.ends fun state => .bind (.change ?_) fun _ => .pure fun _ h => h
  intro w hw
  exact hw

end cleared

/-! ## What a tick records -/

/-- What the tracker has raised on a day is among some keys. -/
def RiskWorld.RaisedIn (today : Day) (keys : List (ReasonCode × String)) (w : RiskWorld) : Prop :=
  w.raised today ⊆ keys

section raised

open Fault

variable {today : Day} {keys : List (ReasonCode × String)} (config : RiskConfig) (now : Instant)

theorem RiskWorld.raisedIn_kept : KeptBySwitches (RiskWorld.RaisedIn today keys)
    fun _ _ _ _ => True where
  emitted _ _ hw := hw
  saved _ hw := hw
  put _ _ _ _ hw _ := hw

namespace DailyRiskTracker

theorem raisedIn_save : Keeps (RiskWorld.RaisedIn today keys) save := by
  refine .bind .read fun w => ?_
  split
  · exact .write fun _ hw => hw
  · exact .pure _

/-- A new day starts with nothing raised. -/
theorem raisedIn_roll (equity : ℚ) :
    Keeps (RiskWorld.RaisedIn today keys) (roll config now equity) := by
  have hstart : ∀ previous, Keeps (RiskWorld.RaisedIn today keys) (do
      let state := DailyRiskState.rolled config.bookId now.istDate equity previous
      Fault.change fun w => { w with tracker := some state }
      save
      return state) := by
    intro previous
    refine .bind (.change ?_) fun _ => .bind raisedIn_save fun _ => .pure _
    intro w _
    simp [RiskWorld.RaisedIn, RiskWorld.raised, DailyRiskState.rolled]
  refine .bind .read fun w => ?_
  dsimp only
  cases w.tracker with
  | none => exact hstart none
  | some p =>
    dsimp only
    split
    · exact .throw _
    · exact .bind (.write fun _ hw => hw) fun _ => hstart (some p)

theorem raisedIn_startDay (equity : ℚ) :
    Keeps (RiskWorld.RaisedIn today keys) (startDay config now equity) := by
  refine .bind .read fun w => ?_
  cases w.tracker with
  | none => exact raisedIn_roll config now equity
  | some state =>
    dsimp only
    split
    · exact .pure _
    · exact raisedIn_roll config now equity

theorem raisedIn_current (equity : ℚ) :
    Keeps (RiskWorld.RaisedIn today keys) (current config now (some equity)) := by
  refine .bind .read fun w => ?_
  cases w.tracker with
  | none => exact raisedIn_startDay config now equity
  | some state =>
    dsimp only
    split
    · exact .pure _
    · exact raisedIn_startDay config now equity

/-- What `roll` returns is the day in memory. -/
theorem roll_returns (equity : ℚ) : Ends (fun _ : RiskWorld => True) (roll config now equity)
    fun state w => w.tracker = some state := by
  have hstart : ∀ state : DailyRiskState, Ends (fun _ : RiskWorld => True) (do
      Fault.change fun w => { w with tracker := some state }
      save
      return state) fun state w => w.tracker = some state := by
    intro state
    have hsave : Keeps (fun w : RiskWorld => w.tracker = some state) save := by
      refine .bind .read fun w => ?_
      split
      · exact .write fun _ hw => hw
      · exact .pure _
    exact .bind (.change fun _ _ => rfl) fun _ => .bind hsave.ends fun _ => .pure fun _ h => h
  refine .bind (Keeps.read.ends) fun w => ?_
  dsimp only
  cases w.tracker with
  | none => exact hstart _
  | some p =>
    dsimp only
    split
    · intro w _ state w' hrun
      cases hrun
    · exact .bind (Q := fun _ _ => True) (fun _ _ _ _ _ => trivial) fun _ => hstart _

theorem startDay_returns (equity : ℚ) : Ends (fun _ : RiskWorld => True)
    (startDay config now equity) fun state w => w.tracker = some state := by
  intro w _ state w' hrun
  unfold startDay at hrun
  rw [run_read_bind] at hrun
  cases htracker : w.state.tracker with
  | none =>
    rw [htracker] at hrun
    exact roll_returns config now equity w trivial state w' hrun
  | some day =>
    rw [htracker] at hrun
    dsimp only at hrun
    split at hrun
    · cases hrun
      exact htracker
    · exact roll_returns config now equity w trivial state w' hrun

theorem current_returns (equity : ℚ) : Ends (fun _ : RiskWorld => True)
    (current config now (some equity)) fun state w => w.tracker = some state := by
  intro w _ state w' hrun
  unfold current at hrun
  rw [run_read_bind] at hrun
  cases htracker : w.state.tracker with
  | none =>
    rw [htracker] at hrun
    exact startDay_returns config now equity w trivial state w' hrun
  | some day =>
    rw [htracker] at hrun
    dsimp only at hrun
    split at hrun
    · cases hrun
      exact htracker
    · exact startDay_returns config now equity w trivial state w' hrun

theorem raisedIn_raiseAll {breaches : List Breach} (h : ∀ b ∈ breaches, b.key ∈ keys) :
    Keeps (RiskWorld.RaisedIn today keys) (raiseAll config breaches) := by
  induction breaches with
  | nil => exact .pure _
  | cons b rest ih =>
    obtain ⟨hb, hrest⟩ := List.forall_mem_cons.mp h
    refine .bind (.change ?_) fun _ => .bind (.write fun _ hw => hw) fun _ => ih hrest
    intro w hw
    unfold RiskWorld.RaisedIn RiskWorld.raised at hw ⊢
    cases htracker : w.tracker with
    | none => simp
    | some s =>
      rw [htracker] at hw
      dsimp only [Option.map_some, Option.elim_some] at hw ⊢
      split at hw
      · rename_i hdate
        rw [if_pos hdate]
        intro key hkey
        rcases List.mem_insert_iff.mp hkey with rfl | hold
        · exact hb
        · exact hw hold
      · rename_i hdate
        rw [if_neg hdate]
        exact hw

end DailyRiskTracker

namespace RiskMonitor

/-- Up to where the new breaches are found nothing is raised. -/
theorem raisedIn_search (v : Valuation) :
    Keeps (RiskWorld.RaisedIn today keys) (search config now v) := by
  have hkept : KeptBySwitches (RiskWorld.RaisedIn today keys) _ := RiskWorld.raisedIn_kept
  refine .bind (hkept.newDay config now fun _ _ _ _ _ _ _ => trivial) fun _ => ?_
  refine .bind (hkept.checkHaltFile config now fun _ _ _ _ => trivial) fun _ => ?_
  refine .bind (hkept.alertAll v.alerts) fun _ => ?_
  intro w hw
  have hcurrent := DailyRiskTracker.raisedIn_current config now v.equity w hw
  rw [Effect.run_bind]
  cases hrun : DailyRiskTracker.current config now (some v.equity) w with
  | error e w' =>
    rw [hrun] at hcurrent
    exact hcurrent
  | ok state w' =>
    -- the mark changes neither the date nor what is raised
    rw [hrun] at hcurrent
    have htracker := DailyRiskTracker.current_returns config now v.equity w trivial state w' hrun
    have hraised : w'.state.raised today = if state.istDate = today then state.breaches else [] := by
      rw [RiskWorld.raised, htracker]
      rfl
    change w'.state.raised today ⊆ keys at hcurrent
    rw [hraised] at hcurrent
    exact hcurrent

theorem search_told (v : Valuation) : Ends (fun _ : RiskWorld => True) (search config now v)
    fun new _ => ∀ b ∈ new, b.Told config.limits := by
  have hany : ∀ {α : Type} (m : RiskM α), Ends (fun _ => True) m fun _ _ => True :=
    fun _ _ _ _ _ _ => trivial
  refine .bind (hany _) fun _ => .bind (hany _) fun _ => .bind (hany _) fun _ => ?_
  refine .bind (hany _) fun state => .bind (hany _) fun _ => .pure ?_
  intro _ _ b hb
  exact DailyRiskState.fresh_told _ config.limits hb

theorem raisedIn_act {new : List Breach} (h : ∀ b ∈ new, b.key ∈ keys) :
    Keeps (RiskWorld.RaisedIn today keys) (act config now new) := by
  have hkept : KeptBySwitches (RiskWorld.RaisedIn today keys) _ := RiskWorld.raisedIn_kept
  exact .bind (DailyRiskTracker.raisedIn_raiseAll config h) fun _ =>
    .bind DailyRiskTracker.raisedIn_save fun _ =>
      hkept.apply config now new fun _ _ _ _ _ => trivial

end RiskMonitor

end raised

/-! ## When a tick's breaches are sure to trip -/

namespace RiskMonitor

open Fault

variable {config : RiskConfig} {now : Instant}

/-- The tick acts on its new breaches: no write fails from the announcement of the first to
the last save of their trips. Where every switch stands at its breach's action already,
so that no trip saves anything, what is stored must stand there too. -/
def Acts (config : RiskConfig) (now : Instant) (w : Faulty Exc RiskWorld) (new : List Breach) :
    Prop :=
  let writes := w.state.switches.tripWrites now new
  if writes = 0 then
    ∀ b ∈ new, ((w.state.switchStore.getD .initial).record b.scope b.name).Stands config
      now.istDate b.action.target
  else Room (new.length + (writes + 1)) w

instance (w : Faulty Exc RiskWorld) (new : List Breach) : Decidable (Acts config now w new) :=
  inferInstanceAs (Decidable (if w.state.switches.tripWrites now new = 0 then ∀ b ∈ new, _
    else Room _ w))

/-- The same for what a search ended with. -/
def ActsOn (config : RiskConfig) (now : Instant) :
    EStateM.Result Exc (Faulty Exc RiskWorld) (List Breach) → Prop
  | .ok new w => Acts config now w new
  | .error _ _ => True

instance : (found : EStateM.Result Exc (Faulty Exc RiskWorld) (List Breach)) →
    Decidable (ActsOn config now found)
  | .ok new w => inferInstanceAs (Decidable (Acts config now w new))
  | .error _ _ => inferInstanceAs (Decidable True)

theorem raiseAll_room (config : RiskConfig) {new : List Breach} {w : Faulty Exc RiskWorld} {n : ℕ}
    (h : Room (new.length + n) w) :
    ∃ w', DailyRiskTracker.raiseAll config new w = .ok ⟨⟩ w' ∧ Room n w' := by
  induction new generalizing w with
  | nil =>
    rw [List.length_nil, Nat.zero_add] at h
    exact ⟨w, rfl, h⟩
  | cons b rest ih =>
    rw [List.length_cons, Nat.add_right_comm] at h
    let marked (u : RiskWorld) : RiskWorld :=
      { u with tracker := u.tracker.map fun s => { s with breaches := s.breaches.insert b.key } }
    obtain ⟨w1, hemit, -, hroom⟩ := write_room (w := ⟨marked w.state, w.fuse⟩) h
      (RiskWorld.emitted (.limitBreached config.bookId b.code b.observed b.limit b.message))
    obtain ⟨w', hrest, hroom'⟩ := ih hroom
    exact ⟨w', (Effect.run_bind_ok hemit).trans hrest, hroom'⟩

theorem save_room {w : Faulty Exc RiskWorld} {n : ℕ} (h : Room (n + 1) w) :
    ∃ w', DailyRiskTracker.save w = .ok ⟨⟩ w' ∧ Room n w' := by
  unfold DailyRiskTracker.save
  rw [run_read_bind]
  split
  · obtain ⟨w', hwrite, -, hroom⟩ := write_room h fun u => { u with trackerStore := u.tracker }
    exact ⟨w', hwrite, hroom⟩
  · exact ⟨w, rfl, h.mono (Nat.le_succ n)⟩

variable {today : Day} (hnow : now.istDate = today)

include hnow

/-- After a tick that acts, each new breach's switch stands at its action. -/
theorem act_secures {new : List Breach} {w : Faulty Exc RiskWorld}
    (hscope : ∀ b ∈ new, b.scope ≠ .broker) (hcleared : w.state.Cleared config today)
    (hacts : Acts config now w new) : ∀ b ∈ new,
      (act config now new w).state.state.Secured config today b.scope b.name b.action.target := by
  intro b hb
  have hdue : ∀ c ∈ new, ¬ (config.limits.rearmOnNewDay = true ∧
      (w.state.switches.record c.scope c.name).rearms today) :=
    fun c hc hrearms => hcleared hrearms.1 c.scope c.name (hscope c hc) hrearms.2
  unfold Acts at hacts
  dsimp only at hacts
  split at hacts
  · -- the switch stands there already, and whatever fails leaves it there
    rename_i hnone
    have hrank := Switches.absorbed_of_tripWrites hnone b hb
    have hstart : w.state.Secured config today b.scope b.name b.action.target :=
      ⟨⟨KillSwitchState.le_iff_rank.mpr hrank, hdue b hb⟩, hnow ▸ hacts b hb⟩
    have honly : RiskWorld.SwitchesOnly
        (RiskWorld.Secured config today b.scope b.name b.action.target) :=
      RiskWorld.secured_switchesOnly
    exact Keeps.bind (DailyRiskTracker.keeps_raiseAll honly config new) (fun _ =>
      .bind (DailyRiskTracker.keeps_save honly) fun _ => keeps_apply hnow new) w hstart
  · -- every write up to the last save succeeds
    rename_i hsome
    obtain ⟨w1, hraise, hroom1⟩ := raiseAll_room config hacts
    obtain ⟨w2, hsave, hroom2⟩ := save_room hroom1
    have honly : RiskWorld.SwitchesOnly fun u => u.switches = w.state.switches :=
      fun u u' hs _ _ hu => hs.trans hu
    have hswitches : w2.state.switches = w.state.switches := by
      have hkeeps := (Keeps.bind (DailyRiskTracker.keeps_raiseAll honly config new) fun _ =>
        DailyRiskTracker.keeps_save honly).ends
      exact hkeeps w rfl _ _ ((Effect.run_bind_ok hraise).trans hsave)
    have hrun : act config now new w = KillSwitchRegistry.apply config now new w2 :=
      (Effect.run_bind_ok hraise).trans (Effect.run_bind_ok hsave)
    rw [hrun]
    rw [← hswitches] at hroom2 hsome hdue
    rcases KillSwitchRegistry.apply_room config hroom2 with ⟨hnone, -⟩ | hholds
    · exact absurd hnone hsome
    · have hstands := Switches.trippedAll_reaches hnow hdue b hb
      constructor
      · rw [hholds.1]
        exact hstands
      · rw [hholds.2]
        exact hstands

end RiskMonitor

/-! ## Runs -/

namespace MonitorOp

open Fault

/-- An operator re-arms the switch of a recorded breach. -/
def resumes (w : RiskWorld) (key : ReasonCode × String) : MonitorOp → Prop
  | switch (.resume scope name _ _) =>
    Switches.Same scope name key.1.killScope key.2 ∧
      (w.switches.record scope name).state ≠ .armed ∧
      ¬ (scope = .global ∧ w.haltFile.isSome = true)
  | _ => False

instance (w : RiskWorld) (key : ReasonCode × String) : (op : MonitorOp) →
    Decidable (op.resumes w key)
  | switch (.resume ..) => inferInstanceAs (Decidable (_ ∧ _ ∧ ¬ (_ ∧ _)))
  | switch (.trip _) | switch (.apply _) | switch .checkHaltFile | switch (.haltFile _)
  | switch .newDay | switch .restart => inferInstanceAs (Decidable False)
  | tick _ | startDay _ | event _ => inferInstanceAs (Decidable False)

variable (config : RiskConfig) (today : Day)

/-- What a step adds to the breaches the risk tick has recorded. -/
def recorded (w : RiskWorld) (step : MonitorStep) : List (ReasonCode × String) :=
  match step.op with
  | tick _ => ((after config w step).raised today).filter fun key => !(w.raised today).contains key
  | _ => []

/-- The breaches recorded in a run, without those whose switch an operator resumed since. -/
def owed : RiskWorld → List (ReasonCode × String) → List MonitorStep → List (ReasonCode × String)
  | _, keys, [] => keys
  | w, keys, step :: rest =>
    owed (after config w step)
      ((keys.filter fun key => ¬ step.op.resumes w key) ++ recorded config today w step) rest

/-- The switch of a recorded breach stands at the breach's action. -/
def Trips (key : ReasonCode × String) (w : RiskWorld) : Prop :=
  w.Secured config today key.1.killScope key.2 (config.limits.breachAction key.1).target

variable {config today} {key : ReasonCode × String}

/-- The step lemma for what was recorded before: whatever fails, only a resume takes a
switch back. -/
theorem keeps_trips {now : Instant} (hnow : now.istDate = today) {w : Faulty Exc RiskWorld}
    (op : MonitorOp) (hresumes : ¬ op.resumes w.state key) (hw : Trips config today key w.state) :
    Trips config today key (op.exec config now w).state.state := by
  have honly : RiskWorld.SwitchesOnly (Trips config today key) := RiskWorld.secured_switchesOnly
  have hkept : KeptBySwitches (Trips config today key) _ := RiskWorld.secured_kept
  cases op with
  | tick v => exact Keeps.bindAt (keeps_tick hnow v w hw) fun _ => .pure _
  | startDay equity =>
    exact Keeps.bindAt (DailyRiskTracker.keeps_startDay honly config now equity w hw) fun _ =>
      .pure _
  | event payload => exact DailyRiskTracker.keeps_onEvent honly config now payload w hw
  | switch op =>
    cases op with
    | trip t =>
      refine Keeps.bindAt (hkept.trip config now t ?_ w hw) fun _ => .pure _
      intro u hu hrank hsame
      exact t.raises hnow hu hrank hsame
    | apply breaches => exact Keeps.bindAt (keeps_apply hnow breaches w hw) fun _ => .pure _
    | checkHaltFile => exact Keeps.bindAt (keeps_checkHaltFile hnow w hw) fun _ => .pure _
    | haltFile text => exact ⟨hw.memory, hw.stored⟩
    | resume scope name actor reason =>
      refine Keeps.bindAt ?_ fun _ => .pure _
      apply hkept.resume config now (DailyRiskTracker.keeps_acknowledgeStreak honly) hw
      intro harmed hfile hsame
      exact absurd ⟨hsame, harmed, hfile⟩ hresumes
    | newDay => exact Keeps.bindAt (keeps_newDay hnow w hw) fun _ => .pure _
    | restart => exact ⟨hw.stored, hw.stored⟩

variable (config) in
/-- A tick acts on what it newly finds. -/
def Acts (w : RiskWorld) (step : MonitorStep) : Prop :=
  match step.op with
  | tick v =>
    RiskMonitor.ActsOn config step.now (RiskMonitor.search config step.now v ⟨w, step.fault⟩)
  | _ => True

instance (w : RiskWorld) : (step : MonitorStep) → Decidable (Acts config w step)
  | ⟨now, tick v, fault⟩ =>
    inferInstanceAs (Decidable (RiskMonitor.ActsOn config now
      (RiskMonitor.search config now v ⟨w, fault⟩)))
  | ⟨_, startDay _, _⟩ | ⟨_, event _, _⟩ | ⟨_, switch _, _⟩ => inferInstanceAs (Decidable True)

variable (config) in
/-- Every tick of a run does. -/
def AllAct : RiskWorld → List MonitorStep → Prop
  | _, [] => True
  | w, step :: rest => Acts config w step ∧ AllAct (after config w step) rest

/-- The step lemma for what a tick records: if the tick acts, its switch stands there. -/
theorem recorded_trips {w : RiskWorld} {step : MonitorStep} (hnow : step.now.istDate = today)
    (hacts : Acts config w step) (hkey : key ∈ recorded config today w step) :
    Trips config today key (after config w step) := by
  obtain ⟨now, op, fault⟩ := step
  cases op with
  | tick v =>
    obtain ⟨hraised, hnew⟩ := List.mem_filter.mp hkey
    have hnew' : key ∉ w.raised today := by simpa using hnew
    have hafter : after config w ⟨now, .tick v, fault⟩ =
        ((RiskMonitor.search config now v >>= fun new =>
          RiskMonitor.act config now new) ⟨w, fault⟩).state.state :=
      (Fault.after_bind_pure _ _ _ _).trans
        (congrArg Faulty.state (RiskMonitor.tick_state config now v ⟨w, fault⟩))
    rw [hafter] at hraised ⊢
    have hstart : w.RaisedIn today (w.raised today) := List.Subset.refl _
    have hkeeps := RiskMonitor.raisedIn_search config now v ⟨w, fault⟩ hstart
    unfold Acts at hacts
    rw [Effect.run_bind] at hraised ⊢
    cases hsearch : RiskMonitor.search config now v ⟨w, fault⟩ with
    | error e found =>
      rw [hsearch] at hraised hkeeps
      exact absurd (hkeeps hraised) hnew'
    | ok new found =>
      simp only [hsearch] at hraised hkeeps hacts ⊢
      change RiskMonitor.Acts config now found new at hacts
      have htold := RiskMonitor.search_told config now v ⟨w, fault⟩ trivial new found hsearch
      have hcleared := search_cleared hnow v ⟨w, fault⟩ trivial new found hsearch
      -- what the tick recorded it has newly found
      have hin : found.state.RaisedIn today (w.raised today ++ new.map Breach.key) :=
        fun k hk => List.mem_append_left _ (hkeeps hk)
      have hmem := RiskMonitor.raisedIn_act config now
        (fun b hb => List.mem_append_right _ (List.mem_map_of_mem hb)) found hin hraised
      obtain ⟨b, hb, rfl⟩ := List.mem_map.mp ((List.mem_append.mp hmem).resolve_left hnew')
      have hscope : ∀ c ∈ new, c.scope ≠ .broker := by
        intro c hc
        rw [(htold c hc).1]
        cases c.code <;> simp [ReasonCode.killScope]
      have hsecured := RiskMonitor.act_secures hnow hscope hcleared hacts b hb
      rw [(htold b hb).1, (htold b hb).2] at hsecured
      exact hsecured
  | startDay equity => cases hkey
  | event payload => cases hkey
  | switch op => cases hkey

/-- The run lemma, by induction on the steps. -/
theorem owed_trips {w : RiskWorld} {keys : List (ReasonCode × String)} (steps : List MonitorStep)
    (hday : ∀ step ∈ steps, step.now.istDate = today) (hacts : AllAct config w steps)
    (hkeys : ∀ key ∈ keys, Trips config today key w) :
    ∀ key ∈ owed config today w keys steps, Trips config today key (run config w steps) := by
  induction steps generalizing w keys with
  | nil => exact hkeys
  | cons step rest ih =>
    obtain ⟨hnow, hrest⟩ := List.forall_mem_cons.mp hday
    apply ih hrest hacts.2
    intro key hkey
    rcases List.mem_append.mp hkey with hold | hnew
    · obtain ⟨hmem, hresumes⟩ := List.mem_filter.mp hold
      exact keeps_trips hnow step.op (of_decide_eq_true hresumes) (hkeys key hmem)
    · exact recorded_trips hnow hacts.1 hnew

/-- **A recorded breach trips its switch.** From whatever the stores hold, in every run of
one IST day, with failing writes, crashes and restarts, in which each tick acts on what it
newly finds: every breach that a tick recorded, and whose switch no operator resumed
since, has its switch at the breach's action or above. -/
theorem recorded_breaches_trip (config : RiskConfig) (stores : RiskWorld) (today : Day)
    (steps : List MonitorStep) (hday : ∀ step ∈ steps, step.now.istDate = today)
    (hacts : AllAct config stores.restart steps) :
    ∀ key ∈ owed config today stores.restart [] steps,
      (config.limits.breachAction key.1).target ≤
        ((run config stores.restart steps).switches.record key.1.killScope key.2).state := by
  intro key hkey
  have hnone : ∀ key ∈ ([] : List (ReasonCode × String)), Trips config today key stores.restart := by
    simp
  exact (owed_trips steps hday hacts hnone key hkey).memory.1

end MonitorOp

/-! ## A daily loss whose trip is lost -/

namespace Sample

/-- A tick at an equity, and the write of it that fails. -/
def tickAt (equity : ℚ) (fault : Option (ℕ × Exc)) : MonitorStep :=
  ⟨0, .tick ⟨[], equity, .empty⟩, fault⟩

def lost : Exc := .runtimeError "disk full"

/-- The day starts at ten lakh, and four percent are lost. -/
def losing (fault : Option (ℕ × Exc)) : List MonitorStep :=
  [tickAt 1000000 none, tickAt 960000 fault]

/-- The process crashes at the save of the trip. -/
def crashed : List MonitorStep := losing (some (2, lost)) ++ [⟨0, .switch .restart, none⟩]

/-- The announcement of the breach fails. -/
def unannounced : List MonitorStep := losing (some (0, lost))

end Sample

namespace MonitorOp

theorem recorded_breaches_trip_loss :
    (Sample.riskConfig.limits.breachAction .pfDailyLossMtm).target ≤
      ((run Sample.riskConfig Sample.stores.restart
        (Sample.losing (some (3, Sample.lost)))).switches.record .global "global").state :=
  recorded_breaches_trip Sample.riskConfig Sample.stores (Instant.istDate 0)
    (Sample.losing (some (3, Sample.lost)))
    (by decide +kernel) ⟨by decide +kernel, by decide +kernel, trivial⟩
    (.pfDailyLossMtm, "global") (by decide +kernel)

/-- A tick completes and leaves the switch of a recorded breach below its action. -/
abbrev Lost (config : RiskConfig) (w : RiskWorld) (key : ReasonCode × String)
    (steps : List MonitorStep) (tick : MonitorStep) : Prop :=
  key ∈ owed config tick.now.istDate w [] (steps ++ [tick]) ∧
    completes config (run config w steps) tick = true ∧
    ((run config w (steps ++ [tick])).switches.record key.1.killScope key.2).state <
      (config.limits.breachAction key.1).target

/-- Lost after a crash before the trip is saved, and after a failing announcement. -/
theorem recorded_breach_lost :
    Lost Sample.riskConfig Sample.stores.restart (.pfDailyLossMtm, "global") Sample.crashed
        (Sample.tickAt 960000 none) ∧
      Lost Sample.riskConfig Sample.stores.restart (.pfDailyLossMtm, "global") Sample.unannounced
        (Sample.tickAt 960000 none) := by
  decide +kernel

end MonitorOp

end RakshaQuant
