import RakshaQuant.Domain.Clock
import RakshaQuant.Domain.Errors
import RakshaQuant.Lib.Dict
import RakshaQuant.Lib.Effect
import RakshaQuant.Lib.Views

/-! The event store: an append-only log, projections of it kept in step in the transactions that
append to it, and the key-value state of components. The payloads and the tables of the projectors
are any. -/

namespace RakshaQuant.Store

namespace EventStore

/-- `isoformat` of an instant in UTC. -/
def isoformat (t : Instant) : String := t.str.map fun c => if c = ' ' then 'T' else c

/-- The envelope of an event; `seq` is none until it is stored. -/
structure Event (α : Type) where
  type : String
  payload : α
  tsUtc : Instant
  istDate : Day
  source : String
  schemaVersion : ℕ
  seq : Option ℕ
  decisionId : Option String
  cycleId : Option String
  bookId : Option String
  symbol : Option String

def Event.withSeq {α : Type} (e : Event α) (seq : ℕ) : Event α := { e with seq := some seq }

variable {ι : Type} {C : ι → Type} {α : Type}

/-- A projector: the types of event it handles, and what it does with those to its tables. -/
structure Projector (C : ι → Type) (α : Type) where
  handles : List String
  view : View C (Event α) Exc

namespace Projector

def tables (p : Projector C α) : List ι := p.view.owns

/-- What a projector is made to do with an event that is stored. -/
def takes (p : Projector C α) (db : ∀ i, C i) (e : Event α) : Except Exc (∀ i, C i) :=
  if e.type ∈ p.handles then p.view.apply db e else .ok db

theorem takes_frame (p : Projector C α) {a b : ∀ i, C i} {e : Event α} (h : p.takes a e = .ok b) :
    ∀ i ∉ p.tables, b i = a i := by
  unfold takes at h
  split at h
  · exact p.view.frame h
  · cases h
    exact fun i _ => rfl

theorem takes_reads (p : Projector C α) {a b : ∀ i, C i} (h : ∀ i ∈ p.tables, a i = b i)
    (e : Event α) : Agree p.tables (p.takes a e) (p.takes b e) := by
  unfold takes
  split
  · exact p.view.reads h e
  · exact .ok h

/-- The projector as the store runs it. -/
def stored (p : Projector C α) : View C (Event α) Exc :=
  ⟨p.tables, p.takes, p.takes_frame, p.takes_reads⟩

end Projector

/-- The database: the events in the order of their `seq`, the last of which SQLite remembers, the
tables of the projectors, and `kv_state`. -/
structure Db (C : ι → Type) (α : Type) where
  events : List (Event α)
  sequence : ℕ
  tables : ∀ i, C i
  kv : Dict (String × String) (String × Instant)

end EventStore

structure EventStore {ι : Type} (C : ι → Type) (α : Type) where
  db : EventStore.Db C α
  projectors : List (EventStore.Projector C α)

namespace EventStore

variable {ι : Type} {C : ι → Type} {α : Type}

def init [∀ i, Inhabited (C i)] : EventStore C α :=
  { db := { events := [], sequence := 0, tables := fun _ => default, kv := .empty }
    projectors := [] }

/-- What raises between `BEGIN IMMEDIATE` and `COMMIT` rolls the database back. -/
def transaction {β : Type} (m : EStateM Exc (EventStore C α) β) : EStateM Exc (EventStore C α) β :=
  fun s => match m s with
    | .ok a s' => .ok a s'
    | .error e s' => .error e { s' with db := s.db }

/-! ## Writing -/

def projectionTables (s : EventStore C α) : List ι := s.projectors.flatMap Projector.tables

/-- `[...]` of some names. -/
def listed (names : List String) : String :=
  "[" ++ ", ".intercalate (names.map fun name => "'" ++ name ++ "'") ++ "]"

/-- The tables of a projector that have one already. -/
def clash [DecidableEq ι] (s : EventStore C α) (p : Projector C α) : List ι :=
  p.tables.filter fun i => i ∈ s.projectionTables

def registerProjector [DecidableEq ι] (name : ι → String) (p : Projector C α) :
    EStateM Exc (EventStore C α) PUnit := do
  let s ← get
  if s.clash p ≠ [] then
    throw (.valueError ("tables " ++ listed (((s.clash p).map name).dedup.insertionSort (· ≤ ·)) ++
      " already have a projector"))
  else set { s with projectors := s.projectors ++ [p] }

/-- `_project`; what the projectors before one that raises did is rolled back with the rest. -/
def project (e : Event α) : EStateM Exc (EventStore C α) PUnit := do
  let s ← get
  match View.applyAll (s.projectors.map Projector.stored) s.db.tables e with
  | .error err => throw err
  | .ok tables => set { s with db := { s.db with tables := tables } }

/-- `_insert`. -/
def insert (e : Event α) : EStateM Exc (EventStore C α) ℕ := do
  match e.seq with
  | some seq => throw (.valueError ("event already stored (seq=" ++ toString seq ++ ")"))
  | none =>
    let s ← get
    let seq := s.db.sequence + 1
    set { s with db := { s.db with events := s.db.events ++ [e.withSeq seq], sequence := seq } }
    project (e.withSeq seq)
    return seq

def insertAll : List (Event α) → EStateM Exc (EventStore C α) (List ℕ)
  | [] => return []
  | e :: es => do
    let seq ← insert e
    let seqs ← insertAll es
    return seq :: seqs

def appendMany (es : List (Event α)) : EStateM Exc (EventStore C α) (List ℕ) :=
  match es with
  | [] => return []
  | _ => transaction (insertAll es)

/-- `append`, whose one event has one `seq`. -/
def append (e : Event α) : EStateM Exc (EventStore C α) ℕ := do
  return (← appendMany [e]).headD 0

def projectEach : List (Event α) → EStateM Exc (EventStore C α) PUnit
  | [] => return ⟨⟩
  | e :: es => do
    project e
    projectEach es

/-- Every projection empty. -/
def cleared [DecidableEq ι] [∀ i, Inhabited (C i)] (s : EventStore C α) : EventStore C α :=
  { s with db := { s.db with
    tables := fun i => if i ∈ s.projectionTables then default else s.db.tables i } }

def rebuildProjections [DecidableEq ι] [∀ i, Inhabited (C i)] : EStateM Exc (EventStore C α) ℕ :=
  transaction do
    modify cleared
    let s ← get
    projectEach s.db.events
    return s.db.events.length

/-! ## Reading -/

def lastSeq (s : EventStore C α) : ℕ := ((s.db.events.filterMap Event.seq).max?).getD 0

/-- `WHERE column = ?`, where a value is given. -/
def given {β : Type} [DecidableEq β] (wanted : Option β) (column : Option β) : Bool :=
  wanted.all fun value => column = some value

structure Query where
  sinceSeq : ℕ
  types : Option (List String)
  decisionId : Option String
  symbol : Option String
  bookId : Option String
  istDate : Option Day
  limit : Option ℤ

/-- `since_seq` and `limit`, and nothing else asked for. -/
def Query.since (seq : ℕ) (limit : Option ℤ) : Query := ⟨seq, none, none, none, none, none, limit⟩

def Query.matches (q : Query) (e : Event α) : Bool :=
  e.seq.any (q.sinceSeq < ·) && q.types.all (e.type ∈ ·) && given q.decisionId e.decisionId &&
    given q.symbol e.symbol && given q.bookId e.bookId && given q.istDate (some e.istDate)

def read (q : Query) (s : EventStore C α) : Except Exc (List (Event α)) :=
  if q.types = some [] then .ok []
  else match q.limit with
    | none => .ok (s.db.events.filter q.matches)
    | some limit =>
      if limit < 0 then .error (.valueError "limit must be >= 0")
      else .ok ((s.db.events.filter q.matches).take limit.toNat)

/-! ## Key-value state -/

def putRow (ns key value : String) (ts : Instant) (s : EventStore C α) : EventStore C α :=
  { s with db := { s.db with kv := s.db.kv.set (ns, key) (value, ts) } }

def kvPut (ns key value : String) (ts : Instant) : EStateM Exc (EventStore C α) PUnit :=
  modify (putRow ns key value ts)

def kvPutMany (ns : String) (rows : Dict String String) (ts : Instant) :
    EStateM Exc (EventStore C α) PUnit :=
  if rows.entries = [] then return ⟨⟩
  else transaction
    (modify fun s => rows.entries.foldl (fun s row => s.putRow ns row.1 row.2 ts) s)

def kvGet (ns key : String) (s : EventStore C α) : Option String :=
  (s.db.kv.get? (ns, key)).map Prod.fst

def kvItems (ns : String) (s : EventStore C α) : Dict String String :=
  .ofList ((s.db.kv.entries.filter fun e => e.1.1 = ns).map fun e => (e.1.2, e.2.1))

/-! ## What a transaction comes to -/

variable {s : EventStore C α}

def views (s : EventStore C α) : List (View C (Event α) Exc) := s.projectors.map Projector.stored

/-- Events with the numbers after `n`. -/
def numbered (n : ℕ) : List (Event α) → List (Event α)
  | [] => []
  | e :: es => e.withSeq (n + 1) :: numbered (n + 1) es

theorem numbered_append (n : ℕ) (es es' : List (Event α)) :
    numbered n (es ++ es') = numbered n es ++ numbered (n + es.length) es' := by
  induction es generalizing n with
  | nil => rfl
  | cons e es ih =>
    rw [List.cons_append, numbered, numbered, ih, List.length_cons, List.cons_append]
    congr 3
    omega

@[simp] theorem length_numbered (n : ℕ) (es : List (Event α)) :
    (numbered n es).length = es.length := by
  induction es generalizing n with
  | nil => rfl
  | cons e es ih => rw [numbered, List.length_cons, List.length_cons, ih]

theorem seqs_numbered (n : ℕ) (es : List (Event α)) :
    (numbered n es).filterMap Event.seq = List.range' (n + 1) es.length := by
  induction es generalizing n with
  | nil => rfl
  | cons e es ih =>
    have hseq : Event.seq (e.withSeq (n + 1)) = some (n + 1) := rfl
    rw [numbered, List.filterMap_cons_some hseq, ih, List.length_cons, List.range'_succ]

theorem mem_numbered {n : ℕ} {es : List (Event α)} {e : Event α} (h : e ∈ numbered n es) :
    ∃ e₀ ∈ es, ∃ seq, e = e₀.withSeq seq := by
  induction es generalizing n with
  | nil => cases h
  | cons e₀ es ih =>
    rcases List.mem_cons.mp h with rfl | h
    · exact ⟨e₀, List.mem_cons_self, n + 1, rfl⟩
    · obtain ⟨e₁, he₁, hseq⟩ := ih h
      exact ⟨e₁, List.mem_cons_of_mem _ he₁, hseq⟩

/-- The numbered events after a number. -/
theorem filter_since (n m : ℕ) (es : List (Event α)) :
    (numbered m es).filter (fun e => e.seq.any (n < ·)) = (numbered m es).drop (n - m) := by
  induction es generalizing m with
  | nil => rw [numbered, List.filter_nil, List.drop_nil]
  | cons e es ih =>
    have hseq : ((e.withSeq (m + 1)).seq.any (n < ·)) = decide (n < m + 1) := rfl
    rw [numbered, List.filter_cons, hseq, ih]
    by_cases hn : n < m + 1
    · have hdrop : n - m = 0 ∧ n - (m + 1) = 0 := by omega
      rw [if_pos (decide_eq_true hn), hdrop.1, hdrop.2, List.drop_zero, List.drop_zero]
    · have hdrop : n - m = n - (m + 1) + 1 := by omega
      rw [if_neg (by simpa using hn), hdrop, List.drop_succ_cons]

/-- The store with more events, which left these tables. -/
def extended (s : EventStore C α) (es : List (Event α)) (tables : ∀ i, C i) : EventStore C α :=
  { s with db := { s.db with
    events := s.db.events ++ numbered s.db.sequence es
    sequence := s.db.sequence + es.length
    tables := tables } }

theorem project_run (e : Event α) (s : EventStore C α) : project e s =
    match View.applyAll s.views s.db.tables e with
    | .error err => .error err s
    | .ok tables => .ok ⟨⟩ { s with db := { s.db with tables := tables } } := by
  simp only [project, Effect.run_bind, Effect.run_get]
  show (match View.applyAll s.views s.db.tables e with
    | .error err => (throw err : EStateM Exc (EventStore C α) PUnit)
    | .ok tables => set { s with db := { s.db with tables := tables } }) s = _
  cases View.applyAll s.views s.db.tables e <;> rfl

/-- Inserting some events: they are all new and every projector takes them, or it raises. -/
inductive Inserted (s : EventStore C α) (es : List (Event α)) :
    EStateM.Result Exc (EventStore C α) (List ℕ) → Prop
  | ok {tables : ∀ i, C i} (fresh : ∀ e ∈ es, e.seq = none)
    (taken : View.projectAll s.views s.db.tables (numbered s.db.sequence es) = .ok tables) :
    Inserted s es (.ok (List.range' (s.db.sequence + 1) es.length) (s.extended es tables))
  | stale {err : Exc} {e : Event α} (mem : e ∈ es) (old : e.seq ≠ none) (s' : EventStore C α)
    (same : s'.projectors = s.projectors) : Inserted s es (.error err s')
  | refused {err err' : Exc} (s' : EventStore C α)
    (raised : View.projectAll s.views s.db.tables (numbered s.db.sequence es) = .error err')
    (same : s'.projectors = s.projectors) : Inserted s es (.error err s')

theorem insert_run (e : Event α) (s : EventStore C α) : insert e s =
    match e.seq with
    | some seq => .error (.valueError ("event already stored (seq=" ++ toString seq ++ ")")) s
    | none =>
      match View.applyAll s.views s.db.tables (e.withSeq (s.db.sequence + 1)) with
      | .error err => .error err (s.extended [e] s.db.tables)
      | .ok tables => .ok (s.db.sequence + 1) (s.extended [e] tables) := by
  unfold insert
  cases e.seq with
  | some seq => rfl
  | none =>
    simp only [Effect.run_bind, Effect.run_get, Effect.run_set, project_run]
    have hviews : ∀ db : Db C α, ({ s with db := db } : EventStore C α).views = s.views :=
      fun _ => rfl
    simp only [hviews]
    cases View.applyAll s.views s.db.tables (e.withSeq (s.db.sequence + 1)) <;> rfl

theorem extended_extended (s : EventStore C α) (es es' : List (Event α))
    (tables tables' : ∀ i, C i) :
    (s.extended es tables).extended es' tables' = s.extended (es ++ es') tables' := by
  simp only [extended, numbered_append, List.append_assoc, List.length_append, Nat.add_assoc]

theorem inserted (es : List (Event α)) (s : EventStore C α) : Inserted s es (insertAll es s) := by
  induction es generalizing s with
  | nil =>
    have hsame : s.extended [] s.db.tables = s := by
      simp only [extended, numbered, List.append_nil, List.length_nil, Nat.add_zero]
    have hok : Inserted s [] (.ok [] (s.extended [] s.db.tables)) :=
      .ok (fun e h => (nomatch h)) rfl
    rw [hsame] at hok
    exact hok
  | cons e es ih =>
    unfold insertAll
    rw [Effect.run_bind, insert_run]
    cases hseq : e.seq with
    | some seq => exact .stale List.mem_cons_self (by rw [hseq]; simp) _ rfl
    | none =>
      dsimp only
      cases htaken : View.applyAll s.views s.db.tables (e.withSeq (s.db.sequence + 1)) with
      | error err =>
        have hraised : View.projectAll s.views s.db.tables
            (numbered s.db.sequence (e :: es)) = .error err := by
          rw [numbered, View.projectAll_cons, htaken]
          rfl
        exact .refused _ hraised rfl
      | ok tables =>
        have hrest : View.projectAll s.views s.db.tables (numbered s.db.sequence (e :: es)) =
            View.projectAll s.views tables (numbered (s.db.sequence + 1) es) := by
          rw [numbered, View.projectAll_cons, htaken]
          rfl
        have hlater := ih (s.extended [e] tables)
        dsimp only
        rw [Effect.run_bind]
        generalize insertAll es (s.extended [e] tables) = r at hlater
        cases hlater with
        | @ok tables' fresh taken =>
          rw [extended_extended]
          refine .ok (fun e' he' => ?_) (hrest.trans taken)
          rcases List.mem_cons.mp he' with rfl | he'
          · exact hseq
          · exact fresh e' he'
        | stale mem old s' same => exact .stale (List.mem_cons_of_mem _ mem) old s' same
        | refused s' raised same => exact .refused s' (hrest.trans raised) same

theorem projectEach_run (es : List (Event α)) (s : EventStore C α) :
    (∃ tables, View.projectAll s.views s.db.tables es = .ok tables ∧
      projectEach es s = .ok ⟨⟩ { s with db := { s.db with tables := tables } }) ∨
    ∃ err err' s', View.projectAll s.views s.db.tables es = .error err ∧
      projectEach es s = .error err' s' ∧ s'.projectors = s.projectors := by
  induction es generalizing s with
  | nil => exact .inl ⟨s.db.tables, rfl, rfl⟩
  | cons e es ih =>
    unfold projectEach
    rw [Effect.run_bind, project_run, View.projectAll_cons]
    cases htaken : View.applyAll s.views s.db.tables e with
    | error err => exact .inr ⟨err, err, s, rfl, rfl, rfl⟩
    | ok tables => exact ih { s with db := { s.db with tables := tables } }

end EventStore

end RakshaQuant.Store
