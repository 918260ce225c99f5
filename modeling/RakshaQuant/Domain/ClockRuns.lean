import RakshaQuant.Domain.Clock

/-! Runs of the replay clock, whatever the tasks do. A task that sleeps is woken at its
instant, in the order of the instants and of asking, unless it was cancelled before; and
for tasks that wait on nothing but the clock it makes no difference in how many steps the
driver moves the time. -/

namespace RakshaQuant

namespace ReplayClock

/-- The sleepers a mark selects, in the order of the notes. -/
def Mark.slept? : Mark → Option Sleeper
  | .slept s => some s
  | _ => none

def Mark.cancelled? : Mark → Option Sleeper
  | .cancelled s => some s
  | _ => none

def Mark.woke? : Mark → Option Sleeper
  | .woke s => some s
  | _ => none

namespace Note

def slept (notes : List Note) : List Sleeper := notes.filterMap fun n => n.mark.slept?

def cancelled (notes : List Note) : List Sleeper := notes.filterMap fun n => n.mark.cancelled?

def woken (notes : List Note) : List Sleeper := notes.filterMap fun n => n.mark.woke?

@[simp] theorem slept_append (l r : List Note) : slept (l ++ r) = slept l ++ slept r :=
  List.filterMap_append

@[simp] theorem cancelled_append (l r : List Note) :
    cancelled (l ++ r) = cancelled l ++ cancelled r :=
  List.filterMap_append

@[simp] theorem woken_append (l r : List Note) : woken (l ++ r) = woken l ++ woken r :=
  List.filterMap_append

@[simp] theorem slept_slept (t : Instant) (s : Sleeper) : slept [⟨t, .slept s⟩] = [s] := rfl

@[simp] theorem slept_cancelled (t : Instant) (s : Sleeper) : slept [⟨t, .cancelled s⟩] = [] := rfl

@[simp] theorem slept_woke (t : Instant) (s : Sleeper) : slept [⟨t, .woke s⟩] = [] := rfl

@[simp] theorem cancelled_slept (t : Instant) (s : Sleeper) : cancelled [⟨t, .slept s⟩] = [] := rfl

@[simp] theorem cancelled_cancelled (t : Instant) (s : Sleeper) :
    cancelled [⟨t, .cancelled s⟩] = [s] := rfl

@[simp] theorem cancelled_woke (t : Instant) (s : Sleeper) : cancelled [⟨t, .woke s⟩] = [] := rfl

@[simp] theorem woken_slept (t : Instant) (s : Sleeper) : woken [⟨t, .slept s⟩] = [] := rfl

@[simp] theorem woken_cancelled (t : Instant) (s : Sleeper) : woken [⟨t, .cancelled s⟩] = [] := rfl

@[simp] theorem woken_woke (t : Instant) (s : Sleeper) : woken [⟨t, .woke s⟩] = [s] := rfl

theorem mem_woken {notes : List Note} {s : Sleeper} :
    s ∈ woken notes ↔ ∃ n ∈ notes, n.mark = .woke s := by
  rw [woken, List.mem_filterMap]
  refine exists_congr fun n => and_congr_right fun _ => ?_
  cases n.mark <;> simp [Mark.woke?]

end Note

/-- The sleepers whose futures are not done. -/
def live (l : List Sleeper) : List Sleeper := l.filter fun s => s.done = false

open Note

/-- What the notes of a clock tell. -/
structure Told (c : ReplayClock) (notes : List Note) : Prop where
  ordered : (notes.map Note.time).Pairwise (· ≤ ·)
  past : ∀ n ∈ notes, n.time ≤ c.now
  onTime : ∀ n ∈ notes, ∀ s, n.mark = .woke s → n.time = s.wake
  ahead : ∀ n ∈ notes, ∀ s, n.mark = .slept s → n.time < s.wake
  counted : (slept notes).map Sleeper.order = List.range c.order
  inTurn : (woken notes).Pairwise fun s t => s.key < t.key
  next : ∀ s ∈ woken notes, ∀ t ∈ c.sleepers.entries, s.key < t.key
  accounted : (slept notes).Perm (live c.sleepers.entries ++ (woken notes ++ cancelled notes))

theorem filter_order {l : List Sleeper} (hl : (l.map Sleeper.order).Nodup) {s : Sleeper}
    (hs : s ∈ l) : (l.filter fun t => t.order = s.order) = [s] := by
  induction l with
  | nil => exact absurd hs List.not_mem_nil
  | cons t l ih =>
    obtain ⟨hnot, hl⟩ := List.nodup_cons.mp hl
    rcases List.mem_cons.mp hs with rfl | hs
    · have hrest : (l.filter fun t => t.order = s.order) = [] :=
        List.filter_eq_nil_iff.mpr fun u hu h =>
          hnot (List.mem_map.mpr ⟨u, hu, of_decide_eq_true h⟩)
      rw [List.filter_cons_of_pos (by simp), hrest]
    · have hne : t.order ≠ s.order := fun h => hnot (List.mem_map.mpr ⟨s, hs, h.symm⟩)
      rw [List.filter_cons_of_neg (by simpa using hne), ih hl hs]

namespace Told

variable {c : ReplayClock} {notes : List Note}

theorem init (now : Instant) : Told (.init now) [] where
  ordered := List.Pairwise.nil
  past _ h := absurd h List.not_mem_nil
  onTime _ h := absurd h List.not_mem_nil
  ahead _ h := absurd h List.not_mem_nil
  counted := rfl
  inTurn := List.Pairwise.nil
  next _ h := absurd h List.not_mem_nil
  accounted := List.Perm.nil

theorem ordered_concat (h : Told c notes) {n : Note} (hn : c.now ≤ n.time) :
    ((notes ++ [n]).map Note.time).Pairwise (· ≤ ·) := by
  rw [List.map_append, List.pairwise_append]
  refine ⟨h.ordered, List.pairwise_singleton _ _, fun t ht t' ht' => ?_⟩
  obtain ⟨m, hm, rfl⟩ := List.mem_map.mp ht
  rw [List.map_singleton, List.mem_singleton] at ht'
  rw [ht']
  exact (h.past m hm).trans hn

theorem past_concat (h : Told c notes) {c' : ReplayClock} {n : Note} (hc : c.now ≤ c'.now)
    (hn : n.time = c'.now) : ∀ m ∈ notes ++ [n], m.time ≤ c'.now := by
  intro m hm
  rcases List.mem_append.mp hm with hm | hm
  · exact (h.past m hm).trans hc
  · rw [List.mem_singleton.mp hm, hn]

theorem onTime_concat (h : Told c notes) {n : Note} (hn : ∀ s, n.mark = .woke s → n.time = s.wake) :
    ∀ m ∈ notes ++ [n], ∀ s, m.mark = .woke s → m.time = s.wake := by
  intro m hm s hs
  rcases List.mem_append.mp hm with hm | hm
  · exact h.onTime m hm s hs
  · rw [List.mem_singleton.mp hm] at hs ⊢
    exact hn s hs

theorem ahead_concat (h : Told c notes) {n : Note} (hn : ∀ s, n.mark = .slept s → n.time < s.wake) :
    ∀ m ∈ notes ++ [n], ∀ s, m.mark = .slept s → m.time < s.wake := by
  intro m hm s hs
  rcases List.mem_append.mp hm with hm | hm
  · exact h.ahead m hm s hs
  · rw [List.mem_singleton.mp hm] at hs ⊢
    exact hn s hs

/-- No one was woken later than now. -/
theorem wake_le_now (h : Told c notes) {s : Sleeper} (hs : s ∈ woken notes) : s.wake ≤ c.now := by
  obtain ⟨n, hn, hmark⟩ := mem_woken.mp hs
  rw [← h.onTime n hn s hmark]
  exact h.past n hn

/-- A task goes to sleep. -/
theorem register (h : Told c notes) {ts : Instant} (hts : ¬ts ≤ c.now) :
    Told (c.register ts hts) (notes ++ [⟨c.now, .slept ⟨ts, c.order, false⟩⟩]) where
  ordered := h.ordered_concat le_rfl
  past := h.past_concat le_rfl rfl
  onTime := h.onTime_concat fun s hs => by cases hs
  ahead := h.ahead_concat fun s hs => by
    cases hs
    exact not_le.mp hts
  counted := by
    rw [slept_append, slept_slept, List.map_append, h.counted]
    exact List.range_succ.symm
  inTurn := by simpa using h.inTurn
  next s hs t ht := by
    rw [woken_append, woken_slept, List.append_nil] at hs
    rcases Agenda.mem_place.mp ht with rfl | ht
    · exact Sleeper.key_lt_iff.mpr (.inl ((h.wake_le_now hs).trans_lt (not_le.mp hts)))
    · exact h.next s hs t ht
  accounted := by
    have hlive : (live (c.register ts hts).sleepers.entries).Perm
        (⟨ts, c.order, false⟩ :: live c.sleepers.entries) :=
      (Agenda.perm_place _ _).filter _
    rw [slept_append, slept_slept, woken_append, woken_slept, cancelled_append, cancelled_slept,
      List.append_nil, List.append_nil]
    exact (List.perm_append_singleton _ _).trans
      ((h.accounted.cons _).trans (hlive.symm.append_right _))

/-- Those that sleep have different places. -/
theorem nodup_live (h : Told c notes) :
    ((live c.sleepers.entries).map Sleeper.order).Nodup := by
  have hslept : ((slept notes).map Sleeper.order).Nodup := h.counted ▸ List.nodup_range
  rw [(h.accounted.map Sleeper.order).nodup_iff, List.map_append] at hslept
  exact (List.nodup_append.mp hslept).1

/-- A task that sleeps is cancelled. -/
theorem stop (h : Told c notes) {s : Sleeper} (hs : s ∈ c.sleepers.entries) (hdone : s.done = false) :
    Told (c.stop s.order) (notes ++ [⟨c.now, .cancelled s⟩]) where
  ordered := h.ordered_concat le_rfl
  past := h.past_concat le_rfl rfl
  onTime := h.onTime_concat fun s hs => by cases hs
  ahead := h.ahead_concat fun s hs => by cases hs
  counted := by
    rw [slept_append, slept_cancelled, List.append_nil]
    exact h.counted
  inTurn := by simpa using h.inTurn
  next t ht u hu := by
    rw [woken_append, woken_cancelled, List.append_nil] at ht
    obtain ⟨v, hv, rfl⟩ := List.mem_map.mp hu
    rw [Sleeper.key_stop]
    exact h.next t ht v hv
  accounted := by
    have hmem : s ∈ live c.sleepers.entries := List.mem_filter.mpr ⟨hs, by simp [hdone]⟩
    have hrest : live (c.stop s.order).sleepers.entries =
        (live c.sleepers.entries).filter fun t => ¬t.order = s.order := by
      show live (c.sleepers.entries.map _) = _
      induction c.sleepers.entries with
      | nil => rfl
      | cons t l ih =>
        by_cases ht : t.order = s.order <;> by_cases htdone : t.done = false <;>
          simp_all [live, Sleeper.stop]
    have hlive : (live c.sleepers.entries).Perm (s :: live (c.stop s.order).sleepers.entries) := by
      have hsplit := List.filter_append_perm (fun t : Sleeper => t.order = s.order)
        (live c.sleepers.entries)
      rw [filter_order h.nodup_live hmem] at hsplit
      rw [hrest]
      simpa using hsplit.symm
    rw [slept_append, slept_cancelled, woken_append, woken_cancelled, cancelled_append,
      cancelled_cancelled, List.append_nil, List.append_nil]
    refine h.accounted.trans ((hlive.append_right _).trans ?_)
    rw [List.cons_append, ← List.append_assoc, ← List.append_assoc, ← List.append_assoc]
    exact (List.perm_append_singleton s _).symm

/-- A future that is done leaves the heap. -/
theorem skip (h : Told c notes) {s : Sleeper} (hs : c.sleepers.entries.head? = some s)
    (hdone : s.done) : Told c.skip notes where
  ordered := h.ordered
  past := h.past
  onTime := h.onTime
  ahead := h.ahead
  counted := h.counted
  inTurn := h.inTurn
  next t ht u hu := h.next t ht u (List.mem_of_mem_tail hu)
  accounted := by
    have hlive : live c.skip.sleepers.entries = live c.sleepers.entries := by
      show c.sleepers.rest.entries.filter _ = _
      rw [Agenda.entries_eq hs, live, List.filter_cons_of_neg (by simp [hdone])]
    rw [hlive]
    exact h.accounted

/-- A sleeper is woken. -/
theorem wake (h : Told c notes) {s : Sleeper} (hs : c.sleepers.entries.head? = some s)
    (hdone : ¬s.done) : Told (c.wake s hs) (notes ++ [⟨s.wake, .woke s⟩]) := by
  have hentries := Agenda.entries_eq hs
  have hmem : s ∈ c.sleepers.entries := by
    rw [hentries]
    exact List.mem_cons_self
  constructor
  case ordered => exact h.ordered_concat (c.due s hmem)
  case past => exact h.past_concat (c.due s hmem) rfl
  case onTime =>
    refine h.onTime_concat fun t ht => ?_
    cases ht
    rfl
  case ahead => exact h.ahead_concat fun t ht => by cases ht
  case counted =>
    rw [slept_append, slept_woke, List.append_nil]
    exact h.counted
  case inTurn =>
    rw [woken_append, woken_woke, List.pairwise_append]
    refine ⟨h.inTurn, List.pairwise_singleton _ _, fun t ht u hu => ?_⟩
    rw [List.mem_singleton.mp hu]
    exact h.next t ht s hmem
  case next =>
    intro t ht u hu
    rw [woken_append, woken_woke] at ht
    rcases List.mem_append.mp ht with ht | ht
    · exact h.next t ht u (List.mem_of_mem_tail hu)
    · rw [List.mem_singleton.mp ht]
      exact Agenda.head_lt hs hu
  case accounted =>
    have hlive : live c.sleepers.entries = s :: live (c.wake s hs).sleepers.entries := by
      rw [hentries, live, List.filter_cons_of_pos (by simpa using hdone)]
      rfl
    rw [slept_append, slept_woke, woken_append, woken_woke, cancelled_append, cancelled_woke,
      List.append_nil, List.append_nil]
    refine h.accounted.trans ?_
    rw [hlive, List.cons_append, List.append_assoc]
    exact (List.perm_middle.symm).trans (List.perm_middle.symm.append_left _)

theorem moveTo (h : Told c notes) {target : Instant}
    (hdue : ∀ s ∈ c.sleepers.entries, target ≤ s.wake) (hnow : c.now ≤ target) :
    Told (c.moveTo target hdue) notes where
  ordered := h.ordered
  past n hn := (h.past n hn).trans hnow
  onTime := h.onTime
  ahead := h.ahead
  counted := h.counted
  inTurn := h.inTurn
  next := h.next
  accounted := h.accounted

theorem sleepUntil (h : Told c notes) (ts : Instant) :
    Told (c.sleepUntil ts).1 (notes ++ (c.sleepUntil ts).2.map (⟨c.now, ·⟩)) := by
  unfold ReplayClock.sleepUntil
  split
  · rw [List.map_nil, List.append_nil]
    exact h
  · rename_i hts
    exact h.register hts

/-- **The step lemma**: whatever a task asks. -/
theorem perform (h : Told c notes) (a : Act) :
    Told (c.perform a).1 (notes ++ (c.perform a).2.map (⟨c.now, ·⟩)) := by
  cases a with
  | sleep seconds =>
    unfold ReplayClock.perform ReplayClock.sleep
    dsimp only
    split
    · rw [List.map_nil, List.append_nil]
      exact h
    · exact h.sleepUntil _
  | sleepUntil ts => exact h.sleepUntil ts
  | cancel order =>
    unfold ReplayClock.perform ReplayClock.cancel
    dsimp only
    split
    · rw [List.map_nil, List.append_nil]
      exact h
    · rename_i s hs
      have hfound := List.find?_some hs
      obtain ⟨rfl, hdone⟩ := of_decide_eq_true hfound
      exact h.stop (List.mem_of_find?_eq_some hs) hdone

theorem settle (h : Told c notes) (as : List Act) :
    Told (c.settle as).1 (notes ++ (c.settle as).2) := by
  induction as generalizing c notes with
  | nil =>
    rw [ReplayClock.settle, List.append_nil]
    exact h
  | cons a as ih =>
    rw [ReplayClock.settle, ← List.append_assoc]
    exact ih (h.perform a)

end Told

end ReplayClock

namespace Playback

open ReplayClock ReplayClock.Note

variable {σ : Type*} (turn : Turn σ)

theorem told_settle {r : Playback σ} (h : Told r.clock r.notes) (woken : Option Sleeper) :
    Told (r.settle turn woken).clock (r.settle turn woken).notes :=
  h.settle _

theorem wakeDue_now_le {target : Instant} {r : Playback σ} (h : r.clock.now ≤ target) :
    (r.wakeDue turn target).clock.now ≤ target := by
  induction r using wakeDue.induct turn target with
  | case1 r hnone =>
    rw [wakeDue_none turn hnone]
    exact h
  | case2 r s hs hdue hdone ih =>
    rw [wakeDue_skip turn hs hdue hdone]
    exact ih h
  | case3 r s hs hdue hdone ih =>
    rw [wakeDue_wake turn hs hdue hdone]
    exact ih ((ReplayClock.settle_now _ _).trans_le hdue)
  | case4 r s hs hdue =>
    rw [wakeDue_stay turn hs hdue]
    exact h

theorem told_wakeDue (target : Instant) {r : Playback σ} (h : Told r.clock r.notes) :
    Told (r.wakeDue turn target).clock (r.wakeDue turn target).notes := by
  induction r using wakeDue.induct turn target with
  | case1 r hnone =>
    rw [wakeDue_none turn hnone]
    exact h
  | case2 r s hs hdue hdone ih =>
    rw [wakeDue_skip turn hs hdue hdone]
    exact ih (h.skip hs hdone)
  | case3 r s hs hdue hdone ih =>
    rw [wakeDue_wake turn hs hdue hdone]
    exact ih (told_settle turn (h.wake hs hdone) _)
  | case4 r s hs hdue =>
    rw [wakeDue_stay turn hs hdue]
    exact h

/-- What an advance that is not refused leaves. -/
theorem advanceTo_ok {target : Instant} {r r' : Playback σ} (h : r.advanceTo turn target = .ok r') :
    r.clock.now ≤ target ∧ r' = (r.settle turn none).reach turn target := by
  unfold advanceTo at h
  split at h
  · cases h
  · rename_i hle
    cases h
    exact ⟨not_lt.mp hle, rfl⟩

theorem told_reach {target : Instant} {r : Playback σ} (h : Told r.clock r.notes)
    (hle : r.clock.now ≤ target) : Told (r.reach turn target).clock (r.reach turn target).notes :=
  (told_wakeDue turn target h).moveTo _ (wakeDue_now_le turn hle)

/-- A replay between two advances: what happened is told, and nobody is due. -/
structure Rested (r : Playback σ) : Prop where
  told : Told r.clock r.notes
  later : ∀ s ∈ r.clock.sleepers.entries, r.clock.now < s.wake

theorem Rested.advanceTo {target : Instant} {r r' : Playback σ} (h : Rested r)
    (hadvance : r.advanceTo turn target = .ok r') : Rested r' := by
  obtain ⟨hle, rfl⟩ := advanceTo_ok turn hadvance
  exact ⟨told_reach turn (told_settle turn h.told none)
    ((ReplayClock.settle_now _ _).trans_le hle), wakeDue_later turn target _⟩

theorem Rested.start (tasks : σ) (now : Instant) : Rested (start tasks now) where
  told := .init now
  later _ h := absurd h List.not_mem_nil

theorem Rested.call {r : Playback σ} (h : Rested r) (target : Instant) :
    Rested (r.call turn target) := by
  unfold Playback.call
  split
  · rename_i hadvance
    exact h.advanceTo turn hadvance
  · exact h

/-- **The run lemma**, by induction on the driver's calls. -/
theorem Rested.run {r : Playback σ} (h : Rested r) (targets : List Instant) :
    Rested (r.run turn targets) := by
  induction targets generalizing r with
  | nil => exact h
  | cons target targets ih => exact ih (h.call turn target)

theorem call_now (r : Playback σ) (target : Instant) :
    (r.call turn target).clock.now = max r.clock.now target := by
  unfold Playback.call Playback.advanceTo
  by_cases hlt : target < r.clock.now
  · rw [if_pos hlt, max_eq_left hlt.le]
  · rw [if_neg hlt, max_eq_right (not_lt.mp hlt)]
    rfl

theorem run_now (r : Playback σ) (targets : List Instant) :
    (r.run turn targets).clock.now = targets.foldl max r.clock.now := by
  induction targets generalizing r with
  | nil => rfl
  | cons target targets ih =>
    rw [List.foldl_cons, ← call_now turn r target]
    exact ih (r.call turn target)

/-- Whatever the tasks do and however the driver moves the time: what happens is in the
order of time, which ends where the driver last moved it; a task is woken at its instant,
the tasks in the order of their instants and then of asking; and each that asked is woken
or cancelled by then, never both, and no other is woken. -/
theorem run_wakes (tasks : σ) (now : Instant) (targets : List Instant) :
    let r := (Playback.start tasks now).run turn targets
    r.clock.now = targets.foldl max now ∧
    (r.notes.map Note.time).Pairwise (· ≤ ·) ∧
    (∀ n ∈ r.notes, ∀ s, n.mark = .woke s → n.time = s.wake) ∧
    (woken r.notes).Pairwise (fun s t => s.key < t.key) ∧
    (∀ s ∈ slept r.notes, s.wake ≤ r.clock.now → (s ∈ woken r.notes ↔ s ∉ cancelled r.notes)) ∧
    ∀ s ∈ woken r.notes, s ∈ slept r.notes ∧ s.wake ≤ r.clock.now := by
  intro r
  obtain ⟨htold, hlater⟩ := (Rested.start tasks now).run turn targets
  have hnodup : (slept r.notes).Nodup :=
    List.Nodup.of_map Sleeper.order (htold.counted ▸ List.nodup_range)
  rw [htold.accounted.nodup_iff] at hnodup
  have hapart := (List.nodup_append.mp (List.nodup_append.mp hnodup).2.1).2.2
  refine ⟨run_now turn _ targets, htold.ordered, htold.onTime, htold.inTurn, fun s hs hdue => ?_,
    fun s hs => ⟨?_, htold.wake_le_now hs⟩⟩
  · constructor
    · exact fun hwoke hcancelled => hapart s hwoke s hcancelled rfl
    · intro hcancelled
      have hsomewhere := htold.accounted.mem_iff.mp hs
      rw [List.mem_append, List.mem_append] at hsomewhere
      rcases hsomewhere with hlive | hwoke | hstopped
      · exact absurd hdue (not_le.mpr (hlater s (List.mem_filter.mp hlive).1))
      · exact hwoke
      · exact absurd hstopped hcancelled
  · rw [htold.accounted.mem_iff, List.mem_append, List.mem_append]
    exact .inr (.inl hs)

/-! ## Any number of steps -/

/-- Two replays that differ at most in what the clock reads. -/
structure Alike (r r' : Playback σ) : Prop where
  tasks : r.tasks = r'.tasks
  notes : r.notes = r'.notes
  sleepers : r.clock.sleepers = r'.clock.sleepers
  order : r.clock.order = r'.clock.order

theorem Alike.skip {r r' : Playback σ} (h : Alike r r') : Alike r.skip r'.skip where
  tasks := h.tasks
  notes := h.notes
  sleepers := congrArg Agenda.rest h.sleepers
  order := h.order

theorem Alike.eq {r r' : Playback σ} (h : Alike r r') (hnow : r.clock.now = r'.clock.now) : r = r' := by
  obtain ⟨tasks, ⟨now, sleepers, order, fresh, due⟩, notes⟩ := r
  obtain ⟨tasks', ⟨now', sleepers', order', fresh', due'⟩, notes'⟩ := r'
  obtain ⟨rfl, rfl, hsleepers, rfl⟩ := h
  obtain rfl : now = now' := hnow
  obtain rfl : sleepers = sleepers' := hsleepers
  rfl

/-- A wake sets the time, whatever it was. -/
theorem Alike.wake {r r' : Playback σ} (h : Alike r r') {s : Sleeper}
    (hs : r.clock.sleepers.entries.head? = some s)
    (hs' : r'.clock.sleepers.entries.head? = some s) : r.wake s hs = r'.wake s hs' := by
  refine Alike.eq ⟨h.tasks, ?_, congrArg Agenda.rest h.sleepers, h.order⟩ rfl
  exact congrArg (· ++ _) h.notes

theorem Alike.head {r r' : Playback σ} (h : Alike r r') {s : Option Sleeper}
    (hs : r.clock.sleepers.entries.head? = s) : r'.clock.sleepers.entries.head? = s := by
  rw [← h.sleepers]
  exact hs

theorem Alike.wakeDue {target : Instant} {r r' : Playback σ} (h : Alike r r') :
    Alike (r.wakeDue turn target) (r'.wakeDue turn target) := by
  induction r using wakeDue.induct turn target generalizing r' with
  | case1 r hnone =>
    rw [wakeDue_none turn hnone, wakeDue_none turn (h.head hnone)]
    exact h
  | case2 r s hs hdue hdone ih =>
    rw [wakeDue_skip turn hs hdue hdone, wakeDue_skip turn (h.head hs) hdue hdone]
    exact ih h.skip
  | case3 r s hs hdue hdone ih =>
    rw [wakeDue_wake turn hs hdue hdone, wakeDue_wake turn (h.head hs) hdue hdone,
      ← h.wake hs]
    exact ⟨rfl, rfl, rfl, rfl⟩
  | case4 r s hs hdue =>
    rw [wakeDue_stay turn hs hdue, wakeDue_stay turn (h.head hs) hdue]
    exact h

theorem wakeDue_wakeDue {near far : Instant} (hle : near ≤ far) (r : Playback σ) :
    (r.wakeDue turn near).wakeDue turn far = r.wakeDue turn far := by
  induction r using wakeDue.induct turn near with
  | case1 r hnone => rw [wakeDue_none turn hnone]
  | case2 r s hs hdue hdone ih =>
    rw [wakeDue_skip turn hs hdue hdone, ih, ← wakeDue_skip turn hs (hdue.trans hle) hdone]
  | case3 r s hs hdue hdone ih =>
    rw [wakeDue_wake turn hs hdue hdone, ih, ← wakeDue_wake turn hs (hdue.trans hle) hdone]
  | case4 r s hs hdue => rw [wakeDue_stay turn hs hdue]

theorem reach_reach {near far : Instant} (hle : near ≤ far) (r : Playback σ) :
    (r.reach turn near).reach turn far = r.reach turn far := by
  have hmoved : Alike (r.reach turn near) (r.wakeDue turn near) := ⟨rfl, rfl, rfl, rfl⟩
  have halike : Alike ((r.reach turn near).wakeDue turn far) ((r.wakeDue turn near).wakeDue turn far) :=
    hmoved.wakeDue turn
  rw [wakeDue_wakeDue turn hle] at halike
  exact Alike.eq ⟨halike.tasks, halike.notes, halike.sleepers, halike.order⟩ rfl

/-- Tasks that wait on nothing but the clock: unless one is woken, they do nothing. -/
structure Waiting (I : σ → Prop) : Prop where
  rests : ∀ st c, I st → turn st c none = (st, [])
  keeps : ∀ st c s, I st → I (turn st c (some s)).1

variable {turn} {I : σ → Prop}

theorem Waiting.settle (h : Waiting turn I) {r : Playback σ} (hr : I r.tasks) :
    r.settle turn none = r := by
  unfold Playback.settle
  rw [h.rests _ _ hr]
  show (⟨r.tasks, r.clock, r.notes ++ []⟩ : Playback σ) = r
  rw [List.append_nil]

theorem Waiting.wakeDue (h : Waiting turn I) {target : Instant} {r : Playback σ} (hr : I r.tasks) :
    I (r.wakeDue turn target).tasks := by
  induction r using wakeDue.induct turn target with
  | case1 r hnone =>
    rw [wakeDue_none turn hnone]
    exact hr
  | case2 r s hs hdue hdone ih =>
    rw [wakeDue_skip turn hs hdue hdone]
    exact ih hr
  | case3 r s hs hdue hdone ih =>
    rw [wakeDue_wake turn hs hdue hdone]
    exact ih (h.keeps _ _ _ hr)
  | case4 r s hs hdue =>
    rw [wakeDue_stay turn hs hdue]
    exact hr

theorem Waiting.call (h : Waiting turn I) {target : Instant} {r : Playback σ} (hr : I r.tasks)
    (hle : r.clock.now ≤ target) : r.call turn target = r.reach turn target := by
  unfold Playback.call Playback.advanceTo
  rw [if_neg (not_lt.mpr hle), h.settle hr]

/-- It makes no difference in how many steps the driver moves the time. -/
theorem advance_in_steps (h : Waiting turn I) {r : Playback σ} (hr : I r.tasks) {targets : List Instant}
    {target : Instant} (hsteps : (r.clock.now :: targets).Pairwise (· ≤ ·))
    (hlast : ∀ t ∈ r.clock.now :: targets, t ≤ target) :
    r.run turn (targets ++ [target]) = r.call turn target := by
  have hnow := hlast _ List.mem_cons_self
  induction targets generalizing r with
  | nil => rfl
  | cons t targets ih =>
    obtain ⟨hfrom, hrest⟩ := List.pairwise_cons.mp hsteps
    have hle := hfrom t List.mem_cons_self
    have hmoved : I (r.reach turn t).tasks := h.wakeDue hr
    have hlater := ih (r := r.reach turn t) hmoved hrest
      (fun t' ht' => hlast t' (List.mem_cons_of_mem _ ht')) (hlast t (by simp))
    calc r.run turn (t :: targets ++ [target])
        = (r.call turn t).run turn (targets ++ [target]) := rfl
      _ = (r.reach turn t).run turn (targets ++ [target]) := by rw [h.call hr hle]
      _ = (r.reach turn t).call turn target := hlater
      _ = (r.reach turn t).reach turn target := h.call hmoved (hlast t (by simp))
      _ = r.reach turn target := reach_reach turn (hlast t (by simp)) r
      _ = r.call turn target := (h.call hr hnow).symm

/-- A task that counts minutes. -/
def minutely : Turn ℕ := fun n _ woken =>
  match woken with
  | none => (n, [])
  | some _ => (n + 1, [.sleep 60])

theorem waiting_minutely : Waiting minutely fun _ => True := ⟨fun _ _ _ => rfl, fun _ _ _ _ => trivial⟩

theorem advance_in_steps_minutely :
    let r : Playback ℕ := ⟨0, ((ReplayClock.init 0).sleep 60).1, []⟩
    r.run minutely ([30000000, 90000000] ++ [120000000]) = r.call minutely 120000000 :=
  advance_in_steps waiting_minutely trivial (by decide +kernel) (by decide +kernel)

end Playback

end RakshaQuant
