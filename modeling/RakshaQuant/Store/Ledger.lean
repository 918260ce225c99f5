import RakshaQuant.Store.EventStore

/-! What the event store is for: a log, views of it and a dictionary. The views are independent of
each other, and each is its projector's work over the log, from where it was registered or from the
beginning. Whatever is called and whatever raises, the store shows such a ledger, reads as it reads
and refuses what the ledger refuses, leaving itself as it was. -/

namespace RakshaQuant.Store

namespace EventStore

variable {ι : Type} {C : ι → Type} {α : Type}

/-- What changes a store. -/
inductive Call (C : ι → Type) (α : Type)
  | register (p : Projector C α)
  | append (es : List (Event α))
  /-- `append` of one event. -/
  | one (e : Event α)
  | rebuild
  | put (ns key value : String) (ts : Instant)
  | putMany (ns : String) (rows : Dict String String) (ts : Instant)

def call [DecidableEq ι] [∀ i, Inhabited (C i)] (name : ι → String) :
    Call C α → EStateM Exc (EventStore C α) (List ℕ)
  | .register p => do
    registerProjector name p
    return []
  | .append es => appendMany es
  | .one e => do return [← append e]
  | .rebuild => do return [← rebuildProjections]
  | .put ns key value ts => do
    kvPut ns key value ts
    return []
  | .putMany ns rows ts => do
    kvPutMany ns rows ts
    return []

def run [DecidableEq ι] [∀ i, Inhabited (C i)] (name : ι → String) (calls : List (Call C α)) :
    EventStore C α :=
  calls.foldl (fun s c => (call name c s).state) init

end EventStore

open Store.EventStore

/-- A log, its views, each with the place in the log it goes back to, and a dictionary. -/
structure Ledger {ι : Type} (C : ι → Type) (α : Type) where
  log : List (Event α)
  views : List (Projector C α × ℕ)
  kv : String → String → Option (String × Instant)

namespace Ledger

variable {ι : Type} {C : ι → Type} [∀ i, Inhabited (C i)] {α : Type}

def empty : Ledger C α := ⟨[], [], fun _ _ => none⟩

/-- The events of a log, numbered from 1. -/
def stored (log : List (Event α)) : List (Event α) := numbered 0 log

/-- A projector's work over a log, from a place on. -/
def view (p : Projector C α) (since : ℕ) (log : List (Event α)) : Except Exc (∀ i, C i) :=
  p.stored.project (fun _ => default) ((stored log).drop since)

/-- A batch of events; none where it is refused. -/
def append (l : Ledger C α) (es : List (Event α)) : Option (List ℕ × Ledger C α) :=
  if (∀ e ∈ es, e.seq = none) ∧ ∀ v ∈ l.views, (view v.1 v.2 (l.log ++ es)).isOk then
    some (List.range' (l.log.length + 1) es.length, { l with log := l.log ++ es })
  else none

/-- A call; none where it is refused. -/
def call [DecidableEq ι] (l : Ledger C α) : Call C α → Option (List ℕ × Ledger C α)
  | .register p =>
    if ∀ i ∈ p.tables, ∀ v ∈ l.views, i ∉ v.1.tables then
      some ([], { l with views := l.views ++ [(p, l.log.length)] })
    else none
  | .append es => l.append es
  | .one e => l.append [e]
  | .rebuild =>
    if ∀ v ∈ l.views, (view v.1 0 l.log).isOk then
      some ([l.log.length], { l with views := l.views.map fun v => (v.1, 0) })
    else none
  | .put ns key value ts =>
    some ([], { l with kv := fun ns' key' =>
      if ns' = ns ∧ key' = key then some (value, ts) else l.kv ns' key' })
  | .putMany ns rows ts =>
    some ([], { l with kv := fun ns' key' =>
      if ns' = ns then ((rows.get? key').map (·, ts)).or (l.kv ns' key') else l.kv ns' key' })

def run [DecidableEq ι] (calls : List (Call C α)) : Ledger C α :=
  calls.foldl (fun l c => ((l.call c).map Prod.snd).getD l) empty

end Ledger

namespace EventStore

variable {ι : Type} {C : ι → Type} [∀ i, Inhabited (C i)] {α : Type}
  {s s' : EventStore C α} {l l' : Ledger C α}

/-- A store that shows a ledger: its events are those of the log, numbered from 1, and each
projector's tables are its view. -/
structure Shows (s : EventStore C α) (l : Ledger C α) : Prop where
  events : s.db.events = Ledger.stored l.log
  sequence : s.db.sequence = l.log.length
  projectors : s.projectors = l.views.map Prod.fst
  apart : View.Apart s.views
  tables : ∀ v ∈ l.views, Agree v.1.tables (Ledger.view v.1 v.2 l.log) (.ok s.db.tables)
  since : ∀ v ∈ l.views, v.2 ≤ l.log.length
  untouched : ∀ i, (∀ v ∈ s.views, i ∉ v.owns) → s.db.tables i = default
  kv : ∀ ns key, s.db.kv.get? (ns, key) = l.kv ns key

theorem shows_init : Shows (init : EventStore C α) .empty where
  events := rfl
  sequence := rfl
  projectors := rfl
  apart := .nil
  tables _ h := nomatch h
  since _ h := nomatch h
  untouched _ _ := rfl
  kv _ _ := rfl

/-- How a call goes: as in the ledger, or it is refused and nothing has changed. -/
inductive Follows (s : EventStore C α) :
    EStateM.Result Exc (EventStore C α) (List ℕ) → Option (List ℕ × Ledger C α) → Prop
  | ok {seqs : List ℕ} {s' : EventStore C α} {l' : Ledger C α} (now : Shows s' l') :
    Follows s (.ok seqs s') (some (seqs, l'))
  | refused (e : Exc) : Follows s (.error e s) none

theorem mem_views (h : Shows s l) {view : View C (Event α) Exc} :
    view ∈ s.views ↔ ∃ v ∈ l.views, v.1.stored = view := by
  rw [views, h.projectors, List.map_map, List.mem_map]
  rfl

/-! ## Appending -/

/-- A view of a longer log is what its projector makes of the rest, from the tables there are. -/
theorem Shows.view_append (h : Shows s l) {v : Projector C α × ℕ} (hv : v ∈ l.views)
    (es : List (Event α)) : Agree v.1.tables (Ledger.view v.1 v.2 (l.log ++ es))
      (v.1.stored.project s.db.tables (numbered s.db.sequence es)) := by
  have hlog : (Ledger.stored (l.log ++ es)).drop v.2 =
      (Ledger.stored l.log).drop v.2 ++ numbered s.db.sequence es := by
    have hlength : v.2 ≤ (Ledger.stored l.log).length := by
      rw [Ledger.stored, length_numbered]
      exact h.since v hv
    rw [Ledger.stored, numbered_append, h.sequence, Nat.zero_add]
    exact List.drop_append_of_le_length hlength
  have hbefore := h.tables v hv
  rw [Ledger.view, hlog, View.project_append]
  unfold Ledger.view at hbefore
  generalize v.1.stored.project (fun _ => default) ((Ledger.stored l.log).drop v.2) = r at hbefore
  cases hbefore with
  | ok same =>
    have hreads : ∀ i ∈ v.1.stored.owns, _ = _ := same
    exact View.project_reads hreads _

theorem Shows.extended (h : Shows s l) {es : List (Event α)} {tables : ∀ i, C i}
    (htaken : View.projectAll s.views s.db.tables (numbered s.db.sequence es) = .ok tables) :
    Shows (s.extended es tables) { l with log := l.log ++ es } where
  events := by
    rw [Ledger.stored, numbered_append, Nat.zero_add, ← h.sequence]
    exact congrArg (· ++ _) h.events
  sequence := by
    rw [List.length_append, ← h.sequence]
    rfl
  projectors := h.projectors
  apart := h.apart
  tables v hv := by
    have hshown := View.projectAll_shows h.apart s.db.tables (numbered s.db.sequence es)
    rw [htaken] at hshown
    cases hshown with
    | ok agree =>
      exact (h.view_append hv es).trans (agree v.1.stored ((mem_views h).mpr ⟨v, hv, rfl⟩))
  since v hv := by
    rw [List.length_append]
    exact (h.since v hv).trans (Nat.le_add_right _ _)
  untouched i hi := (View.projectAll_frame htaken i hi).trans (h.untouched i hi)
  kv := h.kv

omit [∀ i, Inhabited (C i)] in
theorem appendMany_eq (es : List (Event α)) (s : EventStore C α) :
    appendMany es s = transaction (insertAll es) s := by
  cases es with
  | nil => rfl
  | cons e es => rfl

omit [∀ i, Inhabited (C i)] in
theorem rolled_back (same : s'.projectors = s.projectors) :
    ({ s' with db := s.db } : EventStore C α) = s := by
  rw [same]

theorem Shows.append (h : Shows s l) (es : List (Event α)) :
    Follows s (appendMany es s) (l.append es) := by
  have hinserted := inserted es s
  have hshown := View.projectAll_shows h.apart s.db.tables (numbered s.db.sequence es)
  rw [appendMany_eq, transaction, Ledger.append]
  generalize insertAll es s = r at hinserted
  cases hinserted with
  | @ok tables fresh taken =>
    rw [taken] at hshown
    cases hshown with
    | ok agree =>
      have htakes : ∀ v ∈ l.views, (Ledger.view v.1 v.2 (l.log ++ es)).isOk := fun v hv =>
        ((h.view_append hv es).trans (agree v.1.stored ((mem_views h).mpr ⟨v, hv, rfl⟩))).isOk_eq
      rw [if_pos ⟨fresh, htakes⟩, ← h.sequence]
      exact .ok (h.extended taken)
  | stale mem old s' same =>
    rw [if_neg fun hall => old (hall.1 _ mem)]
    dsimp only
    rw [rolled_back same]
    exact .refused _
  | refused s' raised same =>
    rw [raised] at hshown
    cases hshown with
    | error mem refused =>
      obtain ⟨v, hv, rfl⟩ := (mem_views h).mp mem
      have hview := (h.view_append hv es).isOk_eq
      rw [refused] at hview
      rw [if_neg fun hall => Bool.false_ne_true (hview.symm.trans (hall.2 v hv))]
      dsimp only
      rw [rolled_back same]
      exact .refused _

/-- One event gets the next number. -/
theorem Shows.one [DecidableEq ι] (h : Shows s l) (name : ι → String) (e : Event α) :
    Follows s (call name (.one e) s) (l.call (.one e)) := by
  have hmany := h.append [e]
  have hlength : ∀ {seqs : List ℕ} {l' : Ledger C α}, l.append [e] = some (seqs, l') →
      seqs = [l.log.length + 1] := by
    intro seqs l' heq
    unfold Ledger.append at heq
    split at heq
    · cases heq
      rfl
    · cases heq
  show Follows s (((do return [← EventStore.append e]) :
    EStateM Exc (EventStore C α) (List ℕ)) s) (l.append [e])
  unfold EventStore.append
  simp only [Effect.run_bind]
  generalize appendMany [e] s = r at hmany
  generalize hcall : l.append [e] = o at hmany
  cases hmany with
  | ok now =>
    obtain rfl := hlength hcall
    exact .ok now
  | refused e => exact .refused e

/-! ## Rebuilding -/

theorem Shows.cleared [DecidableEq ι] (h : Shows s l) :
    s.cleared = { s with db := { s.db with tables := fun _ => default } } := by
  have htables : ∀ i, (if i ∈ s.projectionTables then default else s.db.tables i) = default := by
    intro i
    split
    · rfl
    · rename_i hi
      refine h.untouched i fun view hview hmem => hi ?_
      obtain ⟨p, hp, rfl⟩ := List.mem_map.mp hview
      exact List.mem_flatMap.mpr ⟨p, hp, hmem⟩
  unfold EventStore.cleared
  simp only [htables]

theorem Shows.rebuilt (h : Shows s l) {tables : ∀ i, C i}
    (htaken : View.projectAll s.views (fun _ => default) (Ledger.stored l.log) = .ok tables) :
    Shows { s with db := { s.db with tables := tables } }
      { l with views := l.views.map fun v => (v.1, 0) } where
  events := h.events
  sequence := h.sequence
  projectors := by
    rw [List.map_map]
    exact h.projectors
  apart := h.apart
  tables v hv := by
    obtain ⟨w, hw, rfl⟩ := List.mem_map.mp hv
    have hshown := View.projectAll_shows h.apart (fun _ => default) (Ledger.stored l.log)
    rw [htaken] at hshown
    cases hshown with
    | ok agree => exact agree w.1.stored ((mem_views h).mpr ⟨w, hw, rfl⟩)
  since v hv := by
    obtain ⟨w, hw, rfl⟩ := List.mem_map.mp hv
    exact Nat.zero_le _
  untouched i hi := View.projectAll_frame htaken i hi
  kv := h.kv

theorem Shows.rebuild [DecidableEq ι] (h : Shows s l) (name : ι → String) :
    Follows s (call name .rebuild s) (l.call .rebuild) := by
  have hcall : l.call .rebuild =
      if ∀ v ∈ l.views, (Ledger.view v.1 0 l.log).isOk then
        some ([l.log.length], { l with views := l.views.map fun v => (v.1, 0) })
      else none := rfl
  have hrun : call name .rebuild s = match projectEach s.db.events s.cleared with
      | .ok _ s' => .ok [s.db.events.length] s'
      | .error e s' => .error e { s' with db := s.db } := by
    show ((do return [← rebuildProjections]) : EStateM Exc (EventStore C α) (List ℕ)) s = _
    simp only [rebuildProjections, Effect.run_bind, transaction, Effect.run_modify,
      Effect.run_get]
    have hevents : s.cleared.db.events = s.db.events := rfl
    rw [hevents]
    cases projectEach s.db.events s.cleared <;> rfl
  have hshown := View.projectAll_shows h.apart (fun _ => default) (Ledger.stored l.log)
  rw [hrun, hcall, h.cleared]
  have hlength : s.db.events.length = l.log.length := by
    rw [h.events]
    exact length_numbered 0 l.log
  -- all projectors take the log again, or one raises and the tables are rolled back
  rcases projectEach_run s.db.events { s with db := { s.db with tables := fun _ => default } } with
    ⟨tables, htaken, heach⟩ | ⟨err, err', s', htaken, heach, same⟩
  · have hprojected : View.projectAll s.views (fun _ => default) (Ledger.stored l.log) =
        .ok tables := h.events ▸ htaken
    rw [hprojected] at hshown
    cases hshown with
    | ok agree =>
      have htakes : ∀ v ∈ l.views, (Ledger.view v.1 0 l.log).isOk := fun v hv =>
        (agree v.1.stored ((mem_views h).mpr ⟨v, hv, rfl⟩)).isOk_eq
      rw [heach, if_pos htakes, hlength]
      exact .ok (h.rebuilt hprojected)
  · have hprojected : View.projectAll s.views (fun _ => default) (Ledger.stored l.log) =
        .error err := h.events ▸ htaken
    rw [hprojected] at hshown
    cases hshown with
    | error mem refused =>
      obtain ⟨v, hv, rfl⟩ := (mem_views h).mp mem
      have hview : (Ledger.view v.1 0 l.log).isOk = false := by
        unfold Ledger.view
        rw [List.drop_zero, refused]
        rfl
      rw [heach, if_neg fun hall => Bool.false_ne_true (hview.symm.trans (hall v hv))]
      dsimp only
      rw [rolled_back (s := s) same]
      exact .refused _

/-! ## Registering -/

theorem clash_eq_nil [DecidableEq ι] (h : Shows s l) (p : Projector C α) :
    s.clash p = [] ↔ ∀ i ∈ p.tables, ∀ v ∈ l.views, i ∉ v.1.tables := by
  unfold clash projectionTables
  rw [List.filter_eq_nil_iff, h.projectors]
  constructor
  · intro hnone i hi v hv hmem
    refine hnone i hi (decide_eq_true (List.mem_flatMap.mpr ⟨v.1, ?_, hmem⟩))
    exact List.mem_map_of_mem hv
  · intro hapart i hi hmem
    obtain ⟨p', hp', hmem⟩ := List.mem_flatMap.mp (of_decide_eq_true hmem)
    obtain ⟨v, hv, rfl⟩ := List.mem_map.mp hp'
    exact hapart i hi v hv hmem

/-- A projector that comes late has an empty view, of a log that has yet to go on. -/
theorem Shows.register [DecidableEq ι] (h : Shows s l) (name : ι → String) (p : Projector C α) :
    Follows s (call name (.register p) s) (l.call (.register p)) := by
  have hcall : l.call (.register p) =
      if ∀ i ∈ p.tables, ∀ v ∈ l.views, i ∉ v.1.tables then
        some ([], { l with views := l.views ++ [(p, l.log.length)] })
      else none := rfl
  rw [hcall]
  simp only [call, registerProjector, Effect.run_bind, Effect.run_get]
  by_cases hclash : s.clash p = []
  · have hnew := (clash_eq_nil h p).mp hclash
    rw [if_neg (not_not.mpr hclash), if_pos hnew]
    refine .ok ⟨h.events, h.sequence, ?_, ?_, fun v hv => ?_, fun v hv => ?_, fun i hi => ?_, h.kv⟩
    · show s.projectors ++ [p] = _
      rw [List.map_append, h.projectors]
      rfl
    · show View.Apart ((s.projectors ++ [p]).map Projector.stored)
      rw [List.map_append]
      refine List.pairwise_append.mpr ⟨h.apart, List.pairwise_singleton _ _, ?_⟩
      intro view hview view' hview' i hi hmem
      obtain ⟨v, hv, rfl⟩ := (mem_views h).mp hview
      rw [List.map_singleton, List.mem_singleton] at hview'
      subst hview'
      exact hnew i hmem v hv hi
    · rcases List.mem_append.mp hv with hold | hself
      · exact h.tables v hold
      · obtain rfl := List.mem_singleton.mp hself
        have hnone : (Ledger.stored l.log).drop l.log.length = [] :=
          List.drop_eq_nil_of_le (length_numbered 0 l.log).le
        unfold Ledger.view
        rw [hnone]
        -- its tables were nobody's, so they are still empty
        refine .ok fun i hi => (h.untouched i fun view hview hmem => ?_).symm
        obtain ⟨v, hv, rfl⟩ := (mem_views h).mp hview
        exact hnew i hi v hv hmem
    · rcases List.mem_append.mp hv with hold | hself
      · exact h.since v hold
      · obtain rfl := List.mem_singleton.mp hself
        exact le_rfl
    · refine h.untouched i fun view hview => hi view ?_
      show view ∈ (s.projectors ++ [p]).map Projector.stored
      rw [List.map_append]
      exact List.mem_append_left _ hview
  · rw [if_pos hclash, if_neg fun hnew => hclash ((clash_eq_nil h p).mpr hnew)]
    exact .refused _

/-! ## Key-value state -/

theorem Shows.of_kv (h : Shows s l) {db : Db C α} {kv : String → String → Option (String × Instant)}
    (hsame : db = { s.db with kv := db.kv }) (hkv : ∀ ns key, db.kv.get? (ns, key) = kv ns key) :
    Shows { s with db := db } { l with kv := kv } := by
  rw [hsame] at hkv ⊢
  exact ⟨h.events, h.sequence, h.projectors, h.apart, h.tables, h.since, h.untouched, hkv⟩

omit [∀ i, Inhabited (C i)] in
/-- The rows put, one after the other. -/
theorem putRows_run (ns : String) (ts : Instant) {rows : List (String × String)}
    (hnodup : (rows.map Prod.fst).Nodup) (s : EventStore C α) :
    let s' := rows.foldl (fun s row => s.putRow ns row.1 row.2 ts) s
    s' = { s with db := { s.db with kv := s'.db.kv } } ∧ ∀ ns' key', s'.db.kv.get? (ns', key') =
      if ns' = ns then ((rows.lookup key').map (·, ts)).or (s.db.kv.get? (ns', key'))
      else s.db.kv.get? (ns', key') := by
  induction rows generalizing s with
  | nil =>
    refine ⟨rfl, fun ns' key' => ?_⟩
    split <;> rfl
  | cons row rows ih =>
    rw [List.map_cons, List.nodup_cons] at hnodup
    obtain ⟨hsame, hget⟩ := ih hnodup.2 (s.putRow ns row.1 row.2 ts)
    refine ⟨hsame, fun ns' key' => (hget ns' key').trans ?_⟩
    have hput : (s.putRow ns row.1 row.2 ts).db.kv.get? (ns', key') =
        if ns' = ns ∧ key' = row.1 then some (row.2, ts) else s.db.kv.get? (ns', key') := by
      refine (Dict.get?_set _ _ _ _).trans ?_
      simp only [Prod.mk.injEq]
    rw [hput, List.lookup_cons]
    by_cases hns : ns' = ns
    · by_cases hkey : key' = row.1
      · have hnone : rows.lookup row.1 = none := by
          rw [List.lookup_eq_none_iff]
          rintro row' hmem
          simpa using fun heq => hnodup.1 (List.mem_map.mpr ⟨row', hmem, heq.symm⟩)
        simp [hns, hkey, hnone]
      · have hne : (key' == row.1) = false := beq_false_of_ne hkey
        simp [hns, hkey, hne]
    · simp [hns]

theorem Shows.put [DecidableEq ι] (h : Shows s l) (name : ι → String) (ns key value : String)
    (ts : Instant) :
    Follows s (call name (.put ns key value ts) s) (l.call (.put ns key value ts)) := by
  refine .ok (h.of_kv rfl fun ns' key' => (Dict.get?_set _ _ _ _).trans ?_)
  rw [h.kv ns' key']
  simp only [Prod.mk.injEq]

theorem Shows.putMany [DecidableEq ι] (h : Shows s l) (name : ι → String) (ns : String)
    (rows : Dict String String) (ts : Instant) :
    Follows s (call name (.putMany ns rows ts) s) (l.call (.putMany ns rows ts)) := by
  obtain ⟨hsame, hget⟩ := putRows_run ns ts rows.nodup_keys s
  have hput : kvPutMany ns rows ts s =
      .ok ⟨⟩ (rows.entries.foldl (fun s row => s.putRow ns row.1 row.2 ts) s) := by
    unfold kvPutMany
    split
    · rename_i hempty
      rw [hempty]
      rfl
    · rfl
  have hrun : call name (.putMany ns rows ts) s =
      .ok [] (rows.entries.foldl (fun s row => s.putRow ns row.1 row.2 ts) s) :=
    Effect.run_bind_ok hput
  rw [hrun, hsame]
  refine .ok (h.of_kv rfl fun ns' key' => (hget ns' key').trans ?_)
  rw [h.kv ns' key']
  rfl

/-! ## Reading -/

/-- What is read from a store that shows a ledger: the number of the last event; the events that a
query matches, in the order of the log; the events after a number, up to a limit; and the values of
the dictionary. -/
structure Reads (s : EventStore C α) (l : Ledger C α) : Prop where
  last : s.lastSeq = l.log.length
  matched : ∀ q : Query, q.limit = none → s.read q = .ok ((Ledger.stored l.log).filter q.matches)
  after : ∀ seq, s.read (.since seq none) = .ok ((Ledger.stored l.log).drop seq)
  page : ∀ seq (limit : ℕ),
    s.read (.since seq (some limit)) = .ok (((Ledger.stored l.log).drop seq).take limit)
  value : ∀ ns key, s.kvGet ns key = (l.kv ns key).map Prod.fst
  items : ∀ ns key, (s.kvItems ns).get? key = (l.kv ns key).map Prod.fst

omit [∀ i, Inhabited (C i)] in
theorem max?_range' (n : ℕ) : ((List.range' 1 n).max?).getD 0 = n := by
  cases n with
  | zero => rfl
  | succ n =>
    have hmax : (List.range' 1 (n + 1)).max? = some (n + 1) := by
      rw [List.max?_eq_some_iff]
      refine ⟨List.mem_range'_1.mpr ⟨by omega, by omega⟩, fun b hb => ?_⟩
      have hb := List.mem_range'_1.mp hb
      omega
    rw [hmax]
    rfl

omit [∀ i, Inhabited (C i)] in
/-- The values of a namespace, by their keys. -/
theorem kvItems_get (s : EventStore C α) (ns key : String) :
    (s.kvItems ns).get? key = s.kvGet ns key := by
  have hmem : ∀ value, (key, value) ∈ (s.db.kv.entries.filter fun e => e.1.1 = ns).map
      (fun e => (e.1.2, e.2.1)) ↔ s.kvGet ns key = some value := by
    intro value
    rw [kvGet, Option.map_eq_some_iff, List.mem_map]
    constructor
    · rintro ⟨⟨⟨ns', key'⟩, row⟩, he, heq⟩
      obtain ⟨hentry, hns⟩ := List.mem_filter.mp he
      obtain rfl : ns' = ns := of_decide_eq_true hns
      obtain ⟨rfl, rfl⟩ := Prod.mk.inj heq
      exact ⟨row, s.db.kv.mem_entries_iff.mp hentry, rfl⟩
    · rintro ⟨row, hrow, rfl⟩
      exact ⟨((ns, key), row), List.mem_filter.mpr
        ⟨s.db.kv.mem_entries_iff.mpr hrow, decide_eq_true rfl⟩, rfl⟩
  cases hget : s.kvGet ns key with
  | none =>
    cases hitem : (s.kvItems ns).get? key with
    | none => rfl
    | some value =>
      rw [(hmem value).mp (Dict.mem_of_ofList hitem)] at hget
      cases hget
  | some value =>
    refine (Dict.get?_ofList_iff fun value' hvalue' => ?_).mpr ((hmem value).mpr hget)
    exact Option.some.inj (((hmem value').mp hvalue').symm.trans hget)

theorem Shows.reads (h : Shows s l) : Reads s l := by
  have hsince : ∀ seq limit, s.db.events.filter (Query.since seq limit).matches =
      (Ledger.stored l.log).drop seq := by
    intro seq limit
    have hmatches : (Query.since seq limit).matches (α := α) =
        fun e => e.seq.any (seq < ·) := by
      funext e
      show (e.seq.any (seq < ·) && true && true && true && true && true) = _
      simp only [Bool.and_true]
    rw [h.events, hmatches]
    exact filter_since seq 0 l.log
  have hvalue : ∀ ns key, s.kvGet ns key = (l.kv ns key).map Prod.fst := by
    intro ns key
    rw [kvGet, h.kv]
  refine ⟨?_, fun q hlimit => ?_, fun seq => ?_, fun seq limit => ?_, hvalue, fun ns key => ?_⟩
  · rw [lastSeq, h.events, Ledger.stored, seqs_numbered]
    exact max?_range' l.log.length
  · unfold EventStore.read
    rw [hlimit, h.events]
    split
    · -- no type is wanted, so none matches
      rename_i hnone
      have hno : (Ledger.stored l.log).filter q.matches = [] :=
        List.filter_eq_nil_iff.mpr fun e _ => by simp [Query.matches, hnone]
      rw [hno]
    · rfl
  · unfold EventStore.read
    rw [if_neg (by simp [Query.since])]
    exact congrArg Except.ok (hsince seq none)
  · unfold EventStore.read
    rw [if_neg (by simp [Query.since])]
    show (if (limit : ℤ) < 0 then _ else _) = _
    rw [if_neg (by omega), hsince]
    rfl
  · rw [kvItems_get, hvalue]

/-! ## Any calls -/

theorem Shows.call [DecidableEq ι] (h : Shows s l) (name : ι → String) (c : Call C α) :
    Follows s (call name c s) (l.call c) := by
  cases c with
  | register p => exact h.register name p
  | append es => exact h.append es
  | one e => exact h.one name e
  | rebuild => exact h.rebuild name
  | put ns key value ts => exact h.put name ns key value ts
  | putMany ns rows ts => exact h.putMany name ns rows ts

/-- **The run lemma**, by induction on the calls. -/
theorem shows_run [DecidableEq ι] (name : ι → String) (calls : List (Call C α)) :
    Shows (run name calls) (Ledger.run calls) := by
  induction calls using List.reverseRecOn with
  | nil => exact shows_init
  | append_singleton calls c ih =>
    have hstep := ih.call name c
    rw [run, Ledger.run, List.foldl_append, List.foldl_append]
    show Shows (EventStore.call name c (run name calls)).state
      ((((Ledger.run calls).call c).map Prod.snd).getD (Ledger.run calls))
    generalize EventStore.call name c (run name calls) = r at hstep
    generalize (Ledger.run calls).call c = o at hstep
    cases hstep with
    | ok now => exact now
    | refused e => exact ih

/-- Whatever is called, and whatever raises on the way, the store is a log, independent views of it
and a dictionary: its events are numbered from 1 without gaps; each projector's tables are what that
projector alone makes of the log, from where it was registered or, once they are rebuilt, from the
beginning; what is read is what the log and the dictionary hold; and a call does what it does to the
ledger, or raises and leaves the store as it was. -/
theorem refines_ledger [DecidableEq ι] (name : ι → String) (calls : List (Call C α)) :
    Shows (run name calls) (Ledger.run calls) ∧ Reads (run name calls) (Ledger.run calls) ∧
      ∀ c, Follows (run name calls) (EventStore.call name c (run name calls))
        ((Ledger.run calls).call c) :=
  ⟨shows_run name calls, (shows_run name calls).reads, fun c => (shows_run name calls).call name c⟩

end EventStore

end RakshaQuant.Store
