import Mathlib.Data.List.Pairwise
import Mathlib.Logic.Function.Basic

/-! Views of a log: each owns some tables of a database and changes them, record by record, by what
they hold; a record it cannot take is an error. Views that own different tables do not notice each
other: run together over a log, each leaves in its tables what it leaves there alone, and the log is
refused exactly where one of them refuses it alone. -/

universe u v w x

variable {ι : Type u} {C : ι → Type v} {ρ : Type w} {ε : Type x}

/-- Two runs that end alike: both in the same error, or with the same in some tables. -/
inductive Agree (owns : List ι) : Except ε (∀ i, C i) → Except ε (∀ i, C i) → Prop
  | ok {a b : ∀ i, C i} (same : ∀ i ∈ owns, a i = b i) : Agree owns (.ok a) (.ok b)
  | error (e : ε) : Agree owns (.error e) (.error e)

theorem Agree.trans {owns : List ι} {r s t : Except ε (∀ i, C i)} (h : Agree owns r s)
    (h' : Agree owns s t) : Agree owns r t := by
  cases h with
  | error e => exact h'
  | ok same =>
    cases h' with
    | ok same' => exact .ok fun i hi => (same i hi).trans (same' i hi)

theorem Agree.error_left {owns : List ι} {r : Except ε (∀ i, C i)} {e : ε}
    (h : Agree owns r (.error e)) : r = .error e := by
  cases h
  rfl

theorem Agree.isOk_eq {owns : List ι} {r s : Except ε (∀ i, C i)} (h : Agree owns r s) :
    r.isOk = s.isOk := by
  cases h <;> rfl

/-- A view: it changes no table but its own, and reads no other. -/
structure View (C : ι → Type v) (ρ : Type w) (ε : Type x) where
  owns : List ι
  apply : (∀ i, C i) → ρ → Except ε (∀ i, C i)
  frame : ∀ {a b r}, apply a r = .ok b → ∀ i ∉ owns, b i = a i
  reads : ∀ {a b}, (∀ i ∈ owns, a i = b i) → ∀ r, Agree owns (apply a r) (apply b r)

namespace View

variable {view : View C ρ ε} {views : List (View C ρ ε)} {a b : ∀ i, C i}

/-- A view alone over some records. -/
def project (view : View C ρ ε) (a : ∀ i, C i) (rs : List ρ) : Except ε (∀ i, C i) :=
  rs.foldlM view.apply a

/-- All views, one after the other, on a record. -/
def applyAll (views : List (View C ρ ε)) (a : ∀ i, C i) (r : ρ) : Except ε (∀ i, C i) :=
  views.foldlM (fun a view => view.apply a r) a

def projectAll (views : List (View C ρ ε)) (a : ∀ i, C i) (rs : List ρ) : Except ε (∀ i, C i) :=
  rs.foldlM (applyAll views) a

/-- Views of which no two own a table together. -/
def Apart (views : List (View C ρ ε)) : Prop :=
  views.Pairwise fun view view' => ∀ i ∈ view.owns, i ∉ view'.owns

/-- What a run ends in shows what each view makes of it alone: its tables, or an error. -/
inductive Shows (views : List (View C ρ ε)) (alone : View C ρ ε → Except ε (∀ i, C i)) :
    Except ε (∀ i, C i) → Prop
  | ok {b : ∀ i, C i} (agree : ∀ view ∈ views, Agree view.owns (alone view) (.ok b)) :
    Shows views alone (.ok b)
  | error {e e' : ε} {view : View C ρ ε} (mem : view ∈ views) (refused : alone view = .error e') :
    Shows views alone (.error e)

theorem Shows.of_agree {alone alone' : View C ρ ε → Except ε (∀ i, C i)}
    {r : Except ε (∀ i, C i)} (hsame : ∀ view ∈ views, Agree view.owns (alone view) (alone' view))
    (h : Shows views alone' r) : Shows views alone r := by
  cases h with
  | ok agree => exact .ok fun view hv => (hsame view hv).trans (agree view hv)
  | error mem refused =>
    have halike := hsame _ mem
    rw [refused] at halike
    exact .error mem halike.error_left

/-! ## One view -/

theorem project_cons (view : View C ρ ε) (a : ∀ i, C i) (r : ρ) (rs : List ρ) :
    view.project a (r :: rs) = (view.apply a r).bind fun b => view.project b rs :=
  List.foldlM_cons

theorem project_append (view : View C ρ ε) (a : ∀ i, C i) (rs rs' : List ρ) :
    view.project a (rs ++ rs') = (view.project a rs).bind fun b => view.project b rs' :=
  List.foldlM_append

theorem project_reads (h : ∀ i ∈ view.owns, a i = b i) (rs : List ρ) :
    Agree view.owns (view.project a rs) (view.project b rs) := by
  induction rs generalizing a b with
  | nil => exact .ok h
  | cons r rs ih =>
    have hone := view.reads h r
    rw [project_cons, project_cons]
    generalize view.apply a r = ra, view.apply b r = rb at hone
    cases hone with
    | ok same => exact ih same
    | error e => exact .error e

/-! ## A view of one table -/

section table

variable [DecidableEq ι] (i : ι) (work : C i → ρ → Except ε (C i))

/-- The view of one table, from what a record makes of that table. -/
def ofTable : View C ρ ε where
  owns := [i]
  apply a r := (work (a i) r).map (Function.update a i)
  frame {a b r} h j hj := by
    cases hr : work (a i) r with
    | error e =>
      rw [hr] at h
      cases h
    | ok t =>
      rw [hr] at h
      cases h
      have hji : j ≠ i := fun heq => hj (List.mem_singleton.mpr heq)
      exact Function.update_of_ne hji t a
  reads {a b} h r := by
    have hi : a i = b i := h i (List.mem_singleton_self i)
    rw [hi]
    cases work (b i) r with
    | error e => exact .error e
    | ok t =>
      refine .ok fun j hj => ?_
      obtain rfl := List.mem_singleton.mp hj
      rw [Function.update_self, Function.update_self]

/-- Where each record of a log makes something of one table, the log makes of it what they make
one after the other. -/
theorem project_update {view : View C ρ ε} {i : ι} {make : C i → ρ → C i} {rs : List ρ}
    (h : ∀ a, ∀ r ∈ rs, view.apply a r = .ok (Function.update a i (make (a i) r))) (a : ∀ i, C i) :
    view.project a rs = .ok (Function.update a i (rs.foldl make (a i))) := by
  induction rs generalizing a with
  | nil => exact congrArg Except.ok (Function.update_eq_self i a).symm
  | cons r rs ih =>
    have hlater := ih (fun a r' hr' => h a r' (List.mem_cons_of_mem _ hr'))
      (Function.update a i (make (a i) r))
    rw [project_cons, h a r List.mem_cons_self, List.foldl_cons]
    refine hlater.trans ?_
    rw [Function.update_self, Function.update_idem]

end table

/-! ## All of them -/

theorem applyAll_cons (view : View C ρ ε) (views : List (View C ρ ε)) (a : ∀ i, C i) (r : ρ) :
    applyAll (view :: views) a r = (view.apply a r).bind fun b => applyAll views b r :=
  List.foldlM_cons

theorem projectAll_cons (views : List (View C ρ ε)) (a : ∀ i, C i) (r : ρ) (rs : List ρ) :
    projectAll views a (r :: rs) = (applyAll views a r).bind fun b => projectAll views b rs :=
  List.foldlM_cons

/-- No view changes a table that none of them owns. -/
theorem applyAll_frame {r : ρ} (h : applyAll views a r = .ok b) :
    ∀ i, (∀ view ∈ views, i ∉ view.owns) → b i = a i := by
  induction views generalizing a with
  | nil =>
    cases h
    exact fun i _ => rfl
  | cons view views ih =>
    rw [applyAll_cons] at h
    cases hone : view.apply a r with
    | error e =>
      rw [hone] at h
      cases h
    | ok a' =>
      rw [hone] at h
      intro i hi
      rw [ih h i fun view' h' => hi view' (List.mem_cons_of_mem _ h'),
        view.frame hone i (hi view List.mem_cons_self)]

/-- **The step lemma.** On a record each view does to its tables what it does alone. -/
theorem applyAll_shows (hapart : Apart views) (a : ∀ i, C i) (r : ρ) :
    Shows views (fun view => view.apply a r) (applyAll views a r) := by
  induction views generalizing a with
  | nil => exact .ok fun view h => (nomatch h)
  | cons view views ih =>
    obtain ⟨hfirst, hrest⟩ := List.pairwise_cons.mp hapart
    rw [applyAll_cons]
    cases hone : view.apply a r with
    | error e => exact .error List.mem_cons_self hone
    | ok a' =>
      have hlater : Shows views (fun view => view.apply a r) (applyAll views a' r) := by
        refine .of_agree (fun view' h' => view'.reads (fun i hi => ?_) r) (ih hrest a')
        exact (view.frame hone i fun hmem => hfirst view' h' i hmem hi).symm
      show Shows _ _ (applyAll views a' r)
      cases hall : applyAll views a' r with
      | error e =>
        rw [hall] at hlater
        cases hlater with
        | error mem refused => exact .error (List.mem_cons_of_mem _ mem) refused
      | ok b =>
        rw [hall] at hlater
        cases hlater with
        | ok agree =>
          refine .ok fun view' h' => ?_
          rcases List.mem_cons.mp h' with rfl | h'
          · rw [hone]
            exact .ok fun i hi => (applyAll_frame hall i fun view hv hmem =>
              hfirst view hv i hi hmem).symm
          · exact agree view' h'

/-- **The run lemma.** Over a log each view leaves in its tables what it leaves there alone, and
the log is refused where one of them refuses it. -/
theorem projectAll_shows (hapart : Apart views) (a : ∀ i, C i) (rs : List ρ) :
    Shows views (fun view => view.project a rs) (projectAll views a rs) := by
  induction rs generalizing a with
  | nil => exact .ok fun view _ => .ok fun i _ => rfl
  | cons r rs ih =>
    rw [projectAll_cons]
    have hone := applyAll_shows hapart a r
    cases hall : applyAll views a r with
    | error e =>
      rw [hall] at hone
      cases hone with
      | error mem refused => exact .error mem (by rw [project_cons, refused]; rfl)
    | ok a' =>
      rw [hall] at hone
      cases hone with
      | ok agree =>
        refine .of_agree (fun view h => ?_) (ih a')
        have hagree := agree view h
        rw [project_cons]
        generalize view.apply a r = ra at hagree
        cases hagree with
        | ok same => exact project_reads same rs

theorem projectAll_frame {rs : List ρ} (h : projectAll views a rs = .ok b) :
    ∀ i, (∀ view ∈ views, i ∉ view.owns) → b i = a i := by
  induction rs generalizing a with
  | nil =>
    cases h
    exact fun i _ => rfl
  | cons r rs ih =>
    rw [projectAll_cons] at h
    cases hone : applyAll views a r with
    | error e =>
      rw [hone] at h
      cases h
    | ok a' =>
      rw [hone] at h
      exact fun i hi => (ih h i hi).trans (applyAll_frame hone i hi)

end View
