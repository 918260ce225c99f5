import RakshaQuant.Risk.Latch

/-! The automatic re-arm. A new day looks at the code a switch stands with, and a trip
that is absorbed leaves the code as it is. So a switch that was also tripped for another
reason than a daily loss is kept tripped exactly as long as its code tells that reason. -/

namespace RakshaQuant

/-- The code is a daily loss's. -/
def isDaily (code : Option String) : Bool := code.any fun c => c ∈ dailyCodes

theorem SwitchRecord.rearms_daily {r : SwitchRecord} {today : Day} (h : r.rearms today) :
    r.state ≠ .armed ∧ isDaily r.code = true := by
  obtain ⟨hstate, ⟨code, hcode, hdaily⟩, -⟩ := h
  refine ⟨hstate, ?_⟩
  rw [Option.mem_def.mp hcode]
  exact decide_eq_true hdaily

/-- A switch that stands tripped for another reason than a daily loss. -/
def SwitchRecord.Held (r : SwitchRecord) : Prop := r.state ≠ .armed ∧ isDaily r.code = false

/-- A trip for another reason than a daily loss. -/
def Trip.other (t : Trip) : Bool := t.target ≠ .armed ∧ isDaily t.code = false

/-- The trip leaves a switch with a code that tells of both: a daily loss escalates only a
switch that is armed or stands for a daily loss, and another reason is absorbed only by
a switch that stands for another reason. -/
def Trip.Tells (t : Trip) (r : SwitchRecord) : Prop :=
  t.target = .armed ∨
    if isDaily t.code then t.target.rank ≤ r.state.rank ∨ r.state = .armed ∨ isDaily r.code = true
    else r.state.rank < t.target.rank ∨ isDaily r.code = false

instance (t : Trip) (r : SwitchRecord) : Decidable (t.Tells r) :=
  inferInstanceAs (Decidable (_ ∨ _))

/-- Another reason than a daily loss asks for a switch. -/
def askedOther (scope : KillScope) (name : String) (trips : List Trip) : Bool :=
  trips.any fun t => Switches.Same t.scope t.name scope name ∧ t.other = true

namespace KillSwitchRegistry

variable (config : RiskConfig) (now : Instant)

/-- Each of some trips tells, one after the other. -/
def AllTell : RiskWorld → List Trip → Prop
  | _, [] => True
  | w, t :: rest =>
    t.Tells (w.switches.record t.scope t.name) ∧ AllTell (tripped config now w t) rest

variable {config now} {w : RiskWorld} {scope : KillScope} {name : String}

/-- The step lemma: after a trip that tells, a switch is held that was held, or that the
trip asked for another reason. -/
theorem tripped_held {t : Trip} (htells : t.Tells (w.switches.record t.scope t.name))
    (h : (w.switches.record scope name).Held ∨
      Switches.Same t.scope t.name scope name ∧ t.other = true) :
    ((tripped config now w t).switches.record scope name).Held := by
  rw [tripped_record]
  by_cases hsame : Switches.Same t.scope t.name scope name
  · rw [Switches.record_same w.switches hsame] at htells
    by_cases hlt : (w.switches.record scope name).state < t.target
    · -- the trip's code replaces the one that stood there
      rw [if_pos ⟨hsame, hlt⟩]
      have hne : t.target ≠ .armed := by
        intro harmed
        rw [harmed] at hlt
        exact absurd (KillSwitchState.armed_le _) (not_le.mpr hlt)
      refine ⟨hne, ?_⟩
      rcases h with ⟨hstate, hcode⟩ | ⟨-, hother⟩
      · by_contra hdaily
        have hdaily' : isDaily t.code = true := (Bool.not_eq_false _).mp hdaily
        rcases htells with harmed | htells
        · exact hne harmed
        · rw [if_pos hdaily'] at htells
          rcases htells with hle | harmed | hcode'
          · exact absurd hlt (not_lt.mpr (KillSwitchState.le_iff_rank.mpr hle))
          · exact hstate harmed
          · rw [hcode] at hcode'
            cases hcode'
      · exact (of_decide_eq_true hother).2
    · -- the trip is absorbed, and the code stays
      rw [if_neg fun hc => hlt hc.2]
      rcases h with hheld | ⟨-, hother⟩
      · exact hheld
      · obtain ⟨hne, hcode⟩ := of_decide_eq_true hother
        have hle := KillSwitchState.le_iff_rank.mp (not_lt.mp hlt)
        rcases htells with harmed | htells
        · exact absurd harmed hne
        · rw [if_neg (by simp [hcode])] at htells
          refine ⟨?_, htells.resolve_left (not_lt.mpr hle)⟩
          intro harmed
          rw [harmed] at hlt
          have := not_lt.mp hlt
          exact hne (le_antisymm this (KillSwitchState.armed_le _))
  · rw [if_neg fun hc => hsame hc.1]
    exact h.resolve_right fun hc => hsame hc.1

theorem trips_held {trips : List Trip} (htell : AllTell config now w trips)
    (h : (w.switches.record scope name).Held ∨ askedOther scope name trips = true) :
    ((trips.foldl (tripped config now) w).switches.record scope name).Held := by
  induction trips generalizing w with
  | nil => simpa [askedOther] using h
  | cons t rest ih =>
    obtain ⟨ht, hrest⟩ := htell
    refine ih hrest ?_
    rw [askedOther, List.any_cons, Bool.or_eq_true, decide_eq_true_iff] at h
    rcases h with hheld | hasked | hasked
    · exact .inl (tripped_held ht (.inl hheld))
    · exact .inl (tripped_held ht (.inr hasked))
    · exact .inr hasked

/-! ## What re-arms -/

/-- A switch is as before, or was re-armed. -/
def Rearmed (before after : SwitchRecord) : Prop :=
  after = before ∨ before.state ≠ .armed ∧ after.state = .armed

theorem Saved.assigned (w : RiskWorld) (scope : KillScope) (name : String)
    (record : SwitchRecord) : Saved (assigned config w scope name record) := rfl

theorem assigned_record (w : RiskWorld) (scope scope' : KillScope) (name name' : String)
    (record : SwitchRecord) : (assigned config w scope name record).switches.record scope' name' =
      if Switches.Same scope name scope' name' then record else w.switches.record scope' name' :=
  Switches.record_put w.switches scope scope' name name' record

/-- Replacing a tripped switch's record by one that is armed re-arms it and nothing else. -/
theorem assigned_rearmed (w : RiskWorld) {record : SwitchRecord}
    (htripped : (w.switches.record scope name).state ≠ .armed) (harmed : record.state = .armed)
    (scope' : KillScope) (name' : String) : Rearmed (w.switches.record scope' name')
      ((assigned config w scope name record).switches.record scope' name') := by
  rw [assigned_record]
  split
  · rename_i hsame
    rw [Switches.record_same w.switches hsame] at htripped
    exact .inr ⟨htripped, harmed⟩
  · exact .inl rfl

theorem resume_spec (config : RiskConfig) (now : Instant) (scope : KillScope) (name : String)
    (hsaved : Saved w) (actor reason : String) :
    Saved (Fault.after (resume config now scope name actor reason) none w) ∧
      ∀ scope' name', Rearmed (w.switches.record scope' name')
        ((Fault.after (resume config now scope name actor reason) none w).switches.record
          scope' name') := by
  have hresume := resume_eq config now scope name actor reason ⟨w, none⟩
  dsimp only at hresume
  by_cases harmed : (w.switches.record scope name).state = .armed
  · rw [if_pos harmed] at hresume
    rw [Fault.after, hresume]
    exact ⟨hsaved, fun _ _ => .inl rfl⟩
  by_cases hfile : scope = .global ∧ w.haltFile.isSome = true
  · rw [if_neg harmed, if_pos hfile] at hresume
    rw [Fault.after, hresume]
    exact ⟨hsaved, fun _ _ => .inl rfl⟩
  -- the switch is re-armed, and the tracker may acknowledge a streak
  rw [if_neg harmed, if_neg hfile] at hresume
  let record : SwitchRecord := ⟨.armed, reason, actor, some now, none, some now.istDate⟩
  let w' := assigned config w scope name record
  have hrun : ∃ m : RiskM Bool, Fault.after (resume config now scope name actor reason) none w =
      Fault.after m none w' ∧ Fault.Keeps
        (fun u : RiskWorld => u.switches = w'.switches ∧ u.switchStore = w'.switchStore) m := by
    have honly : RiskWorld.SwitchesOnly fun u : RiskWorld =>
        u.switches = w'.switches ∧ u.switchStore = w'.switchStore :=
      fun u u' hs hst _ hu => ⟨hs.trans hu.1, hst.trans hu.2⟩
    let m : RiskM Bool :=
      if scope = .strategy then DailyRiskTracker.acknowledgeStreak name >>= fun _ => pure true
      else pure true
    refine ⟨m, ?_, ?_⟩
    · rw [Fault.after, hresume, Effect.run_bind_ok (set_none config w scope name record)]
      rfl
    · unfold m
      split
      · exact .bind (DailyRiskTracker.keeps_acknowledgeStreak honly name) fun _ => .pure _
      · exact .pure _
  obtain ⟨m, hrun, hkeeps⟩ := hrun
  obtain ⟨hswitches, hstore⟩ := hkeeps.after none ⟨rfl, rfl⟩
  rw [hrun]
  refine ⟨?_, fun scope' name' => ?_⟩
  · rw [Saved, hswitches, hstore]
    rfl
  · rw [hswitches]
    exact assigned_rearmed w harmed rfl scope' name'

/-- The loop of `new_day` re-arms only what a new day re-arms. -/
theorem rearm_spec (config : RiskConfig) (now : Instant) (candidates : List (KillScope × String))
    (hsaved : Saved w) :
    ∃ names w', rearm config now candidates ⟨w, none⟩ = .ok names ⟨w', none⟩ ∧ Saved w' ∧
      ∀ scope' name', w'.switches.record scope' name' = w.switches.record scope' name' ∨
        (w.switches.record scope' name').rearms now.istDate ∧
          (w'.switches.record scope' name').state = .armed := by
  induction candidates generalizing w with
  | nil => exact ⟨[], w, rfl, hsaved, fun _ _ => .inl rfl⟩
  | cons candidate rest ih =>
    obtain ⟨scope, name⟩ := candidate
    by_cases hrearms : (w.switches.record scope name).rearms now.istDate
    · let record : SwitchRecord :=
        ⟨.armed, "new IST day after " ++ (w.switches.record scope name).code.getD "", "rearm",
          some now, none, some now.istDate⟩
      obtain ⟨names, w', hrun, hsaved', hrecords⟩ :=
        ih (w := assigned config w scope name record) (Saved.assigned w scope name record)
      refine ⟨name :: names, w', ?_, hsaved', fun scope' name' => ?_⟩
      · refine (rearm_cons config now _ _ _).trans ?_
        rw [if_pos hrearms]
        refine (Effect.run_bind_ok (set_none config w scope name record)).trans ?_
        exact Effect.run_bind_ok hrun
      · have hold : (assigned config w scope name record).switches.record scope' name' = _ :=
          assigned_record w scope scope' name name' record
        rcases hrecords scope' name' with heq | ⟨hagain, harmed⟩
        · rw [heq, hold]
          split
          · rename_i hsame
            rw [Switches.record_same w.switches hsame] at hrearms
            exact .inr ⟨hrearms, rfl⟩
          · exact .inl rfl
        · rw [hold] at hagain
          split at hagain
          · exact absurd rfl hagain.1
          · exact .inr ⟨hagain, harmed⟩
    · obtain ⟨names, w', hrun, hsaved', hrecords⟩ := ih hsaved
      refine ⟨names, w', ?_, hsaved', hrecords⟩
      refine (rearm_cons config now _ _ _).trans ?_
      rw [if_neg hrearms]
      exact hrun

theorem newDay_spec (config : RiskConfig) (now : Instant) (hsaved : Saved w) :
    Saved (Fault.after (newDay config now) none w) ∧
    ∀ scope' name', (Fault.after (newDay config now) none w).switches.record scope' name' =
        w.switches.record scope' name' ∨
      (w.switches.record scope' name').rearms now.istDate ∧
        ((Fault.after (newDay config now) none w).switches.record scope' name').state =
          .armed := by
  by_cases hconfigured : config.limits.rearmOnNewDay = true
  · obtain ⟨names, w', hrun, hsaved', hrecords⟩ := rearm_spec config now
      ((.global, "global") :: w.switches.strategies.keys.map fun name => (.strategy, name)) hsaved
    have hnew : newDay config now ⟨w, none⟩ = .ok names ⟨w', none⟩ := by
      unfold newDay
      rw [if_pos hconfigured]
      exact hrun
    rw [Fault.after, hnew]
    exact ⟨hsaved', hrecords⟩
  · have hnew : newDay config now ⟨w, none⟩ = .ok [] ⟨w, none⟩ := by
      unfold newDay
      rw [if_neg hconfigured]
      rfl
    rw [Fault.after, hnew]
    exact ⟨hsaved, fun _ _ => .inl rfl⟩

end KillSwitchRegistry

/-! ## Runs -/

namespace SwitchOp

open KillSwitchRegistry

variable (config : RiskConfig) (scope : KillScope) (name : String)

/-- Whether another reason than a daily loss asked for a switch since it was last
re-armed, after an op. -/
def pendingAfter (w : RiskWorld) (op : Instant × SwitchOp) (pending : Bool) : Bool :=
  if (w.switches.record scope name).state ≠ .armed ∧
      ((after config w op).switches.record scope name).state = .armed then false
  else pending || askedOther scope name (op.2.trips w)

/-- The same at the end of a run. -/
def pending : RiskWorld → Bool → List (Instant × SwitchOp) → Bool
  | _, p, [] => p
  | w, p, op :: rest => pending (after config w op) (pendingAfter config scope name w op p) rest

/-- Every trip of a run tells. -/
def Tells : RiskWorld → List (Instant × SwitchOp) → Prop
  | _, [] => True
  | w, op :: rest => AllTell config op.1 w (op.2.trips w) ∧ Tells (after config w op) rest

variable {config scope name} {w : RiskWorld}

/-- The step lemma: a switch is held after an op whose trips tell if another reason still
stands since it was last re-armed. -/
theorem after_held (hsaved : Saved w) (op : Instant × SwitchOp)
    (htells : AllTell config op.1 w (op.2.trips w)) {p : Bool}
    (h : p = true → (w.switches.record scope name).Held) :
    Saved (after config w op) ∧ (pendingAfter config scope name w op p = true →
      ((after config w op).switches.record scope name).Held) := by
  obtain ⟨now, op⟩ := op
  have htrips : after config w (now, op) = (op.trips w).foldl (tripped config now) w →
      Saved (after config w (now, op)) ∧ (pendingAfter config scope name w (now, op) p = true →
        ((after config w (now, op)).switches.record scope name).Held) := by
    intro heq
    rw [heq]
    refine ⟨hsaved.trips config now _, fun hpending => trips_held htells ?_⟩
    unfold pendingAfter at hpending
    split at hpending
    · cases hpending
    · exact (Bool.or_eq_true _ _ ▸ hpending).imp_left h
  -- an op without trips keeps the switch, or re-arms it
  have hquiet : op.trips w = [] → Saved (after config w (now, op)) →
      Rearmed (w.switches.record scope name)
        ((after config w (now, op)).switches.record scope name) →
      Saved (after config w (now, op)) ∧ (pendingAfter config scope name w (now, op) p = true →
        ((after config w (now, op)).switches.record scope name).Held) := by
    intro hnone hsaved' hrearmed
    refine ⟨hsaved', fun hpending => ?_⟩
    unfold pendingAfter at hpending
    rcases hrearmed with heq | ⟨htripped, harmed⟩
    · rw [heq]
      split at hpending
      · cases hpending
      · rw [hnone, askedOther, List.any_nil, Bool.or_false] at hpending
        exact h hpending
    · rw [if_pos ⟨htripped, harmed⟩] at hpending
      cases hpending
  cases op with
  | trip t => exact htrips (exec_trips config now (.inl ⟨t, rfl⟩))
  | apply breaches => exact htrips (exec_trips config now (.inr (.inl ⟨breaches, rfl⟩)))
  | checkHaltFile => exact htrips (exec_trips config now (.inr (.inr rfl)))
  | haltFile text => exact hquiet rfl hsaved (.inl rfl)
  | resume scope' name' actor reason =>
    have hresume : after config w (now, resume scope' name' actor reason) =
        Fault.after (KillSwitchRegistry.resume config now scope' name' actor reason) none w :=
      Fault.after_bind_pure _ _ _ _
    obtain ⟨hsaved', hrearmed⟩ := resume_spec config now scope' name' hsaved actor
      reason
    rw [← hresume] at hsaved' hrearmed
    exact hquiet rfl hsaved' (hrearmed scope name)
  | newDay =>
    have hnew : after config w (now, newDay) =
        Fault.after (KillSwitchRegistry.newDay config now) none w :=
      Fault.after_bind_pure _ _ _ _
    obtain ⟨hsaved', hrecords⟩ := newDay_spec config now hsaved
    rw [← hnew] at hsaved' hrecords
    exact hquiet rfl hsaved' ((hrecords scope name).imp_right fun hr => ⟨hr.1.1, hr.2⟩)
  | restart =>
    refine hquiet rfl (Saved.restart w) (.inl ?_)
    show (w.switchStore.getD .initial).record scope name = _
    rw [hsaved]

/-- The run lemma, by induction on the ops. -/
theorem run_held (scope : KillScope) (name : String) (hsaved : Saved w)
    (ops : List (Instant × SwitchOp)) (htells : Tells config w ops) {p : Bool} (h : p = true → (w.switches.record scope name).Held) :
    Saved (run config w ops) ∧ (pending config scope name w p ops = true →
      ((run config w ops).switches.record scope name).Held) := by
  induction ops generalizing w p with
  | nil => exact ⟨hsaved, h⟩
  | cons op rest ih =>
    obtain ⟨hsaved', hheld⟩ := after_held hsaved op htells.1 h
    exact ih hsaved' htells.2 hheld

/-- **Automatic re-arm.** From whatever the stores hold, in every run whose trips tell: a
switch that another reason than a daily loss asked for since it was last re-armed is
left as it is by a new day. -/
theorem newDay_keeps_others (config : RiskConfig) (stores : RiskWorld)
    (ops : List (Instant × SwitchOp)) (now : Instant) (scope : KillScope) (name : String)
    (htells : Tells config stores.restart ops)
    (hpending : pending config scope name stores.restart false ops = true) :
    let w := run config stores.restart ops
    (after config w (now, .newDay)).switches.record scope name = w.switches.record scope name := by
  intro w
  obtain ⟨hsaved, hheld⟩ := run_held scope name (Saved.restart stores) ops
    htells (p := false) (fun h => absurd h (by simp))
  obtain ⟨hstate, hcode⟩ := hheld hpending
  have hnew : after config w (now, newDay) =
      Fault.after (KillSwitchRegistry.newDay config now) none w :=
    Fault.after_bind_pure _ _ _ _
  rw [hnew]
  rcases (newDay_spec config now hsaved).2 scope name with heq | ⟨hrearms, -⟩
  · exact heq
  · rw [(SwitchRecord.rearms_daily hrearms).2] at hcode
    cases hcode

end SwitchOp

/-! ## A daily loss and an operator, in both orders -/

namespace Sample

def rearming : RiskConfig := ⟨"main", { RiskLimits.default with rearmOnNewDay := true }⟩

def dailyLoss : Trip :=
  ⟨.global, "global", .flatten, "day loss", "monitor", some ReasonCode.pfDailyLossMtm.value⟩

/-- A daily loss flattens, then an operator halts. -/
def lossThenHalt : List (Instant × SwitchOp) :=
  [(0, .trip dailyLoss), (0, .trip (operatorTrip .haltNew "API_HALT"))]

/-- An operator halts, then a daily loss flattens. -/
def haltThenLoss : List (Instant × SwitchOp) :=
  [(0, .trip (operatorTrip .haltNew "API_HALT")), (0, .trip dailyLoss)]

/-- An operator flattens, and a daily loss is absorbed. -/
def flattenThenLoss : List (Instant × SwitchOp) :=
  [(0, .trip (operatorTrip .flatten "API_FLATTEN")), (0, .trip dailyLoss)]

/-- The next IST day. -/
def tomorrow : Instant := 86400000000

end Sample

namespace SwitchOp

theorem newDay_keeps_others_flatten :
    let w := run Sample.rearming Sample.stores.restart Sample.flattenThenLoss
    (after Sample.rearming w (Sample.tomorrow, .newDay)).switches.record .global "global" =
        w.switches.record .global "global" ∧
      (w.switches.record .global "global").state = .flatten := by
  refine ⟨newDay_keeps_others Sample.rearming Sample.stores Sample.flattenThenLoss Sample.tomorrow
    .global "global" ?_ (by decide +kernel), by decide +kernel⟩
  exact ⟨⟨by decide +kernel, trivial⟩, ⟨by decide +kernel, trivial⟩, trivial⟩

/-- In both orders the operator's halt is pending, and the new day re-arms the switch. -/
theorem newDay_releases_halt :
    let start := Sample.stores.restart
    (pending Sample.rearming .global "global" start false Sample.lossThenHalt = true ∧
      ((after Sample.rearming (run Sample.rearming start Sample.lossThenHalt)
        (Sample.tomorrow, .newDay)).switches.record .global "global").state = .armed) ∧
    pending Sample.rearming .global "global" start false Sample.haltThenLoss = true ∧
      ((after Sample.rearming (run Sample.rearming start Sample.haltThenLoss)
        (Sample.tomorrow, .newDay)).switches.record .global "global").state = .armed := by
  decide +kernel

end SwitchOp

end RakshaQuant
