import Mathlib.Logic.Relation

/-! Computations that read and write a state and may raise, keeping the state
they had reached. A raised exception ends a computation in the middle, so a
property of every state it can leave behind is stated over elementary moves:
whatever the outcome, the final state is reached by moves of a step relation. -/

universe u

variable {ε σ α β : Type u}

/-- The state a computation ends in, whether it returned or raised. -/
def EStateM.Result.state : EStateM.Result ε σ α → σ
  | .ok _ s => s
  | .error _ s => s

/-- The exception that a computation raised. -/
def EStateM.Result.raised : EStateM.Result ε σ α → Option ε
  | .ok _ _ => none
  | .error e _ => some e

@[simp] theorem EStateM.Result.state_ok (a : α) (s : σ) :
    (EStateM.Result.ok a s : EStateM.Result ε σ α).state = s := rfl

@[simp] theorem EStateM.Result.state_error (e : ε) (s : σ) :
    (EStateM.Result.error e s : EStateM.Result ε σ α).state = s := rfl

namespace Effect

/-! ## Running the primitives -/

section run

variable (s s' : σ) (a : α)

@[simp] theorem run_pure : (pure a : EStateM ε σ α) s = .ok a s := rfl

@[simp] theorem run_get : (get : EStateM ε σ σ) s = .ok s s := rfl

@[simp] theorem run_set : (set s' : EStateM ε σ PUnit) s = .ok ⟨⟩ s' := rfl

@[simp] theorem run_modify (f : σ → σ) : (modify f : EStateM ε σ PUnit) s = .ok ⟨⟩ (f s) := rfl

@[simp] theorem run_throw (e : ε) : (throw e : EStateM ε σ α) s = .error e s := rfl

theorem run_bind (m : EStateM ε σ α) (f : α → EStateM ε σ β) :
    (m >>= f) s = match m s with
      | .ok a s' => f a s'
      | .error e s' => .error e s' := rfl

@[simp] theorem run_bind_ok {m : EStateM ε σ α} {f : α → EStateM ε σ β} {s s' : σ} {a : α}
    (h : m s = .ok a s') : (m >>= f) s = f a s' := by
  rw [run_bind, h]

@[simp] theorem run_bind_error {m : EStateM ε σ α} {f : α → EStateM ε σ β} {s s' : σ} {e : ε}
    (h : m s = .error e s') : (m >>= f) s = .error e s' := by
  rw [run_bind, h]

/-- What is returned at the end does not matter to the final state. -/
theorem state_bind_pure (m : EStateM ε σ α) (f : α → β) (s : σ) :
    ((m >>= fun a => pure (f a)) s).state = (m s).state := by
  rw [run_bind]
  cases m s <;> rfl

/-- Two ways to go on that end alike, end alike. -/
theorem state_bind_congr {α' β : Type u} (m : EStateM ε σ α) {f : α → EStateM ε σ α'}
    {g : α → EStateM ε σ β} (h : ∀ a s', (f a s').state = (g a s').state) (s : σ) :
    ((m >>= f) s).state = ((m >>= g) s).state := by
  rw [run_bind, run_bind]
  cases m s with
  | ok a s' => exact h a s'
  | error e s' => rfl

end run

/-- A check that raises was passed. -/
theorem passes {c : Prop} [Decidable c] {e : ε} {raised : β → Except ε α} {rest : Except ε α}
    {a : α} (h : (if c then (throw e : Except ε β) >>= raised else rest) = .ok a) :
    ¬c ∧ rest = .ok a := by
  by_cases hc : c
  · rw [if_pos hc] at h
    cases h
  · rw [if_neg hc] at h
    exact ⟨hc, h⟩

/-! ## Exceptions as values, and moves -/

/-- Run `m` and hand its exception back as a value (`try … except`): the state
changes made before the exception stay. -/
def attempt (m : EStateM ε σ α) : EStateM ε σ (Except ε α) := fun s =>
  match m s with
  | .ok a s' => .ok (.ok a) s'
  | .error e s' => .ok (.error e) s'

/-- From every state satisfying `P`, `m` moves by `R`-steps only; it ends in a
state satisfying `Q a` when it returns `a`, and `E e` when it raises `e`. -/
def Moves (R : σ → σ → Prop) (P : σ → Prop) (m : EStateM ε σ α) (Q : α → σ → Prop)
    (E : ε → σ → Prop) : Prop :=
  ∀ s, P s → Relation.ReflTransGen R s (m s).state ∧
    match m s with
    | .ok a s' => Q a s'
    | .error e s' => E e s'

section rules

variable {R : σ → σ → Prop} {P M : σ → Prop} {Q V : α → σ → Prop} {E F : ε → σ → Prop}
  {S : β → σ → Prop} {U : Except ε α → σ → Prop}

theorem Moves.pure {a : α} (h : ∀ s, P s → Q a s) :
    Moves R P (Pure.pure a : EStateM ε σ α) Q E :=
  fun s hs => ⟨.refl, h s hs⟩

theorem Moves.throw {e : ε} (h : ∀ s, P s → E e s) :
    Moves R P (MonadExcept.throw e : EStateM ε σ α) Q E :=
  fun s hs => ⟨.refl, h s hs⟩

/-- A change of the state that is some moves. -/
theorem Moves.change {f : σ → σ} {Q : PUnit → σ → Prop}
    (h : ∀ s, P s → Relation.ReflTransGen R s (f s) ∧ Q ⟨⟩ (f s)) :
    Moves R P (modify f : EStateM ε σ PUnit) Q E :=
  h

theorem Moves.bind {m : EStateM ε σ α} {f : α → EStateM ε σ β}
    (hm : Moves R P m Q E) (hf : ∀ a, Moves R (Q a) (f a) S E) : Moves R P (m >>= f) S E := by
  intro s hs
  obtain ⟨hr, hq⟩ := hm s hs
  rw [run_bind]
  cases hms : m s with
  | error e s' =>
    rw [hms] at hr hq
    exact ⟨hr, hq⟩
  | ok a s' =>
    rw [hms] at hr hq
    obtain ⟨hr', hq'⟩ := hf a s' hq
    exact ⟨hr.trans hr', hq'⟩

/-- Continue after reading the state. -/
theorem Moves.read {f : σ → EStateM ε σ α} (h : ∀ s, P s → Moves R (Eq s) (f s) Q E) :
    Moves R P (get >>= f) Q E :=
  fun s hs => h s hs s rfl

/-- Continue after a change of the state. -/
theorem Moves.after {f : σ → σ} {m : PUnit → EStateM ε σ α}
    (h : ∀ s, P s → Relation.ReflTransGen R s (f s) ∧ M (f s))
    (hm : Moves R M (m ⟨⟩) Q E) : Moves R P (modify f >>= m) Q E :=
  Moves.bind (Q := fun _ => M) (Moves.change h) fun _ => hm

theorem Moves.conseq {m : EStateM ε σ α} (hm : Moves R P m Q E) (hp : ∀ s, M s → P s)
    (hq : ∀ a s, Q a s → V a s) (he : ∀ e s, E e s → F e s) : Moves R M m V F := by
  intro s hs
  obtain ⟨hr, h⟩ := hm s (hp s hs)
  refine ⟨hr, ?_⟩
  cases hms : m s with
  | ok a s' =>
    rw [hms] at h
    exact hq a s' h
  | error e s' =>
    rw [hms] at h
    exact he e s' h

/-- What is returned from a known state is what running there returns. -/
theorem Moves.run {m : EStateM ε σ α} {s : σ} (hm : Moves R (Eq s) m Q E) :
    Moves R (Eq s) m (fun a s' => Q a s' ∧ m s = .ok a s') E := by
  rintro _ rfl
  obtain ⟨hr, h⟩ := hm s rfl
  refine ⟨hr, ?_⟩
  cases hms : m s with
  | ok a s' =>
    rw [hms] at h
    exact ⟨h, rfl⟩
  | error e s' =>
    rw [hms] at h
    exact h

/-- What holds however a computation ends holds of the state it ends in. -/
theorem Moves.holds {m : EStateM ε σ α} {I : σ → Prop}
    (hm : Moves R P m (fun _ => I) (fun _ => I)) {s : σ} (hs : P s) : I (m s).state := by
  have h := (hm s hs).2
  cases hms : m s with
  | ok a s' =>
    rw [hms] at h
    exact h
  | error e s' =>
    rw [hms] at h
    exact h

/-- Where it ends, whatever it moves by. -/
abbrev Ends (P : σ → Prop) (m : EStateM ε σ α) (Q : α → σ → Prop) (E : ε → σ → Prop) : Prop :=
  Moves (fun _ _ => True) P m Q E

/-- What is known of where a computation ends holds together. -/
theorem Moves.and {m : EStateM ε σ α} (hm : Moves R P m Q E) (hends : Ends P m V F) :
    Moves R P m (fun a s => Q a s ∧ V a s) (fun e s => E e s ∧ F e s) := by
  intro s hs
  obtain ⟨hr, h⟩ := hm s hs
  have hend := (hends s hs).2
  refine ⟨hr, ?_⟩
  cases hms : m s with
  | ok a s' =>
    rw [hms] at h hend
    exact ⟨h, hend⟩
  | error e s' =>
    rw [hms] at h hend
    exact ⟨h, hend⟩

theorem Ends.all {ι : Sort*} {p : ι → Prop} {m : EStateM ε σ α} {Q : ι → α → σ → Prop}
    {E : ι → ε → σ → Prop} (h : ∀ i, p i → Ends P m (Q i) (E i)) :
    Ends P m (fun a s => ∀ i, p i → Q i a s) (fun e s => ∀ i, p i → E i e s) := by
  intro s hs
  refine ⟨.single trivial, ?_⟩
  cases hms : m s with
  | ok a s' =>
    intro i hi
    have hend := (h i hi s hs).2
    rw [hms] at hend
    exact hend
  | error e s' =>
    intro i hi
    have hend := (h i hi s hs).2
    rw [hms] at hend
    exact hend

/-- Moves of one relation are moves of a wider one. -/
theorem Moves.lift {R' : σ → σ → Prop} {m : EStateM ε σ α} (h : ∀ s s', R s s' → R' s s')
    (hm : Moves R P m Q E) : Moves R' P m Q E :=
  fun s hs => ⟨(hm s hs).1.lift id h, (hm s hs).2⟩

/-- Handing the exception back turns what holds when it is raised into what holds then. -/
theorem Moves.attempt {m : EStateM ε σ α} (hm : Moves R P m Q E)
    (hq : ∀ a s, Q a s → U (.ok a) s) (he : ∀ e s, E e s → U (.error e) s) :
    Moves R P (Effect.attempt m) U F := by
  intro s hs
  obtain ⟨hr, h⟩ := hm s hs
  unfold Effect.attempt
  cases hms : m s with
  | error e s' =>
    rw [hms] at hr h
    exact ⟨hr, he e s' h⟩
  | ok a s' =>
    rw [hms] at hr h
    exact ⟨hr, hq a s' h⟩

end rules

/-- A property that every move keeps holds wherever moves lead. -/
theorem invariant {R : σ → σ → Prop} {I : σ → Prop} (keeps : ∀ s s', R s s' → I s → I s')
    {s s' : σ} (hr : Relation.ReflTransGen R s s') (hs : I s) : I s' := by
  induction hr with
  | refl => exact hs
  | tail _ hstep ih => exact keeps _ _ hstep ih

/-- The same of a computation: what its moves keep holds at both of its ends. -/
theorem Moves.keeping {R : σ → σ → Prop} {P I : σ → Prop} {m : EStateM ε σ α} {Q : α → σ → Prop}
    {E : ε → σ → Prop} (hm : Moves R P m Q E) (keeps : ∀ s s', R s s' → I s → I s') :
    Moves R (fun s => P s ∧ I s) m (fun a s => Q a s ∧ I s) (fun e s => E e s ∧ I s) := by
  rintro s ⟨hp, hi⟩
  obtain ⟨hr, h⟩ := hm s hp
  have hend : I (m s).state := invariant keeps hr hi
  refine ⟨hr, ?_⟩
  cases hms : m s with
  | ok a s' =>
    rw [hms] at h hend
    exact ⟨h, hend⟩
  | error e s' =>
    rw [hms] at h hend
    exact ⟨h, hend⟩

/-- Moves that keep what holds at the start are each made where it holds. -/
theorem guarded {R : σ → σ → Prop} {I : σ → Prop} (keeps : ∀ s s', R s s' → I s → I s')
    {s s' : σ} (hr : Relation.ReflTransGen R s s') (hs : I s) :
    Relation.ReflTransGen (fun s s' => R s s' ∧ I s) s s' := by
  induction hr with
  | refl => exact .refl
  | tail hmoves hstep ih => exact ih.tail ⟨hstep, invariant keeps hmoves hs⟩

theorem Moves.guarded {R : σ → σ → Prop} {P I : σ → Prop} {m : EStateM ε σ α} {Q : α → σ → Prop}
    {E : ε → σ → Prop} (hm : Moves R P m Q E) (keeps : ∀ s s', R s s' → I s → I s')
    (hi : ∀ s, P s → I s) : Moves (fun s s' => R s s' ∧ I s) P m Q E :=
  fun s hs => ⟨Effect.guarded keeps (hm s hs).1 (hi s hs), (hm s hs).2⟩

end Effect
