import Mathlib.Data.Nat.Notation
import RakshaQuant.Lib.Effect

/-! Computations that change a state in memory and write to durable stores. A change in
memory never fails. Every write may: it then raises, nothing of it is durable, and what
was changed before stays. One write at most fails in a computation, since what a failed
write raises ends it; a crash between two writes is the failure of the later one with
the memory loaded again. -/

universe u

/-- A state, and how many writes still succeed before one raises, if one does. -/
structure Faulty (ε σ : Type u) where
  state : σ
  fuse : Option (ℕ × ε)

abbrev FaultM (ε σ : Type u) := EStateM ε (Faulty ε σ)

namespace Fault

variable {ε σ α β : Type u}

/-- The state in memory and in the stores. -/
def read : FaultM ε σ σ := fun w => .ok w.state w

/-- A change in memory. -/
def change (f : σ → σ) : FaultM ε σ PUnit := fun w => .ok ⟨⟩ { w with state := f w.state }

/-- A write to a durable store. -/
def write (f : σ → σ) : FaultM ε σ PUnit := fun w =>
  match w.fuse with
  | none => .ok ⟨⟩ ⟨f w.state, none⟩
  | some (0, e) => .error e w
  | some (n + 1, e) => .ok ⟨⟩ ⟨f w.state, some (n, e)⟩

/-- What a computation leaves behind under a fault. -/
def after (m : FaultM ε σ α) (fault : Option (ℕ × ε)) (s : σ) : σ := (m ⟨s, fault⟩).state.state

/-! ## Running without a fault -/

section run

variable (s : σ) (f : σ → σ)

theorem run_read_bind (w : Faulty ε σ) (g : σ → FaultM ε σ α) :
    (read >>= g) w = g w.state w := rfl

end run

/-- What is returned at the end does not matter to what is left behind. -/
theorem after_bind_pure (m : FaultM ε σ α) (b : β) (fault : Option (ℕ × ε)) (s : σ) :
    after (m >>= fun _ => pure b) fault s = after m fault s :=
  congrArg Faulty.state (Effect.state_bind_pure m (fun _ => b) ⟨s, fault⟩)

/-! ## What holds whatever fails -/

/-- `m` keeps `I`, whether it returns or raises. -/
def Keeps (I : σ → Prop) (m : FaultM ε σ α) : Prop :=
  ∀ w : Faulty ε σ, I w.state → I (m w).state.state

section rules

variable {I : σ → Prop} {m : FaultM ε σ α} {f : α → FaultM ε σ β}

theorem Keeps.after (h : Keeps I m) (fault : Option (ℕ × ε)) {s : σ} (hs : I s) :
    I (after m fault s) :=
  h ⟨s, fault⟩ hs

theorem Keeps.pure (a : α) : Keeps I (Pure.pure a : FaultM ε σ α) := fun _ h => h

theorem Keeps.throw (e : ε) : Keeps I (MonadExcept.throw e : FaultM ε σ α) := fun _ h => h

theorem Keeps.read : Keeps I (Fault.read : FaultM ε σ σ) := fun _ h => h

theorem Keeps.change {g : σ → σ} (h : ∀ s, I s → I (g s)) :
    Keeps I (change g : FaultM ε σ PUnit) :=
  fun w hw => h w.state hw

theorem Keeps.write {g : σ → σ} (h : ∀ s, I s → I (g s)) :
    Keeps I (write g : FaultM ε σ PUnit) := by
  intro w hw
  obtain ⟨s, _ | ⟨_ | n, e⟩⟩ := w
  · exact h s hw
  · exact hw
  · exact h s hw

/-- The rule of a bind from one state. -/
theorem Keeps.bindAt {w : Faulty ε σ} (hm : I (m w).state.state) (hf : ∀ a, Keeps I (f a)) :
    I ((m >>= f) w).state.state := by
  rw [Effect.run_bind]
  cases hms : m w with
  | error e w' =>
    rw [hms] at hm
    exact hm
  | ok a w' =>
    rw [hms] at hm
    exact hf a w' hm

theorem Keeps.bind (hm : Keeps I m) (hf : ∀ a, Keeps I (f a)) : Keeps I (m >>= f) :=
  fun w hw => Keeps.bindAt (hm w hw) hf

end rules

/-! ## What holds where a computation returns -/

/-- From every state with `P` where `m` returns, `Q` holds of what it returns and leaves. -/
def Ends (P : σ → Prop) (m : FaultM ε σ α) (Q : α → σ → Prop) : Prop :=
  ∀ w : Faulty ε σ, P w.state → ∀ a w', m w = .ok a w' → Q a w'.state

section rules

variable {P : σ → Prop} {m : FaultM ε σ α} {f : α → FaultM ε σ β} {Q : α → σ → Prop}
  {R : β → σ → Prop}

theorem Keeps.ends (h : Keeps P m) : Ends P m fun _ => P := by
  intro w hw a w' hrun
  have hend := h w hw
  rw [hrun] at hend
  exact hend

theorem Ends.pure {a : α} (h : ∀ s, P s → Q a s) : Ends P (Pure.pure a : FaultM ε σ α) Q := by
  intro w hw b w' hrun
  cases hrun
  exact h w.state hw

theorem Ends.change {g : σ → σ} {Q : PUnit → σ → Prop} (h : ∀ s, P s → Q ⟨⟩ (g s)) :
    Ends P (Fault.change g : FaultM ε σ PUnit) Q := by
  intro w hw a w' hrun
  cases hrun
  exact h w.state hw

theorem Ends.mono {P' : σ → Prop} (h : Ends P m Q) (hP : ∀ s, P' s → P s) : Ends P' m Q :=
  fun w hw => h w (hP w.state hw)

theorem Ends.bind (hm : Ends P m Q) (hf : ∀ a, Ends (Q a) (f a) R) : Ends P (m >>= f) R := by
  intro w hw b w'' hrun
  rw [Effect.run_bind] at hrun
  cases hms : m w with
  | error e w' =>
    rw [hms] at hrun
    cases hrun
  | ok a w' =>
    rw [hms] at hrun
    exact hf a w' (hm w hw a w' hms) b w'' hrun

end rules

/-! ## How a computation ends -/

/-- From every state with `P`, `m` returns with `Q` or raises with `E`; where `sound` is
true no write fails. -/
def Triple (sound : Prop) (P : σ → Prop) (m : FaultM ε σ α) (Q : α → σ → Prop) (E : σ → Prop) :
    Prop :=
  ∀ w : Faulty ε σ, (sound → w.fuse = none) → P w.state →
    match m w with
    | .ok a w' => Q a w'.state ∧ (sound → w'.fuse = none)
    | .error _ w' => E w'.state

section rules

variable {sound : Prop} {P : σ → Prop} {m : FaultM ε σ α} {f : α → FaultM ε σ β}
  {Q : α → σ → Prop} {R : β → σ → Prop} {E : σ → Prop}

theorem Triple.pure {a : α} (h : ∀ s, P s → Q a s) :
    Triple sound P (Pure.pure a : FaultM ε σ α) Q E :=
  fun w hsound hw => ⟨h w.state hw, hsound⟩

theorem Triple.throw {e : ε} (h : ∀ s, P s → E s) :
    Triple sound P (MonadExcept.throw e : FaultM ε σ α) Q E :=
  fun w _ hw => h w.state hw

theorem Triple.change {g : σ → σ} {Q : PUnit → σ → Prop} (h : ∀ s, P s → Q ⟨⟩ (g s)) :
    Triple sound P (Fault.change g : FaultM ε σ PUnit) Q E :=
  fun w hsound hw => ⟨h w.state hw, hsound⟩

/-- A write that fails leaves everything as it was. -/
theorem Triple.write {g : σ → σ} {Q : PUnit → σ → Prop} (h : ∀ s, P s → Q ⟨⟩ (g s))
    (he : ¬sound → ∀ s, P s → E s) : Triple sound P (Fault.write g : FaultM ε σ PUnit) Q E := by
  intro w hsound hw
  obtain ⟨s, _ | ⟨_ | n, e⟩⟩ := w
  · exact ⟨h s hw, fun _ => rfl⟩
  · exact he (fun hs => by cases hsound hs) s hw
  · exact ⟨h s hw, fun hs => by cases hsound hs⟩

theorem Triple.bind (hm : Triple sound P m Q E) (hf : ∀ a, Triple sound (Q a) (f a) R E) :
    Triple sound P (m >>= f) R E := by
  intro w hsound hw
  have hfirst := hm w hsound hw
  rw [Effect.run_bind]
  cases hms : m w with
  | error e w' =>
    rw [hms] at hfirst
    exact hfirst
  | ok a w' =>
    rw [hms] at hfirst
    exact hf a w' hfirst.2 hfirst.1

/-- Continue after reading the state. -/
theorem Triple.read {f : σ → FaultM ε σ β} (h : ∀ s, P s → Triple sound (Eq s) (f s) R E) :
    Triple sound P (Fault.read >>= f) R E :=
  fun w hsound hw => h w.state hw w hsound rfl

theorem Triple.conseq {P' : σ → Prop} {Q' : α → σ → Prop} {E' : σ → Prop}
    (hm : Triple sound P m Q E) (hp : ∀ s, P' s → P s) (hq : ∀ a s, Q a s → Q' a s)
    (he : ∀ s, E s → E' s) : Triple sound P' m Q' E' := by
  intro w hsound hw
  have hend := hm w hsound (hp w.state hw)
  split at hend
  · exact ⟨hq _ _ hend.1, hend.2⟩
  · exact he _ hend

end rules

/-! ## Writes that still succeed -/

/-- The next `n` writes succeed. -/
def Room (n : ℕ) (w : Faulty ε σ) : Prop := ∀ f ∈ w.fuse, n ≤ f.1

instance (n : ℕ) (w : Faulty ε σ) : Decidable (Room n w) :=
  inferInstanceAs (Decidable (∀ f ∈ w.fuse, n ≤ f.1))

theorem Room.mono {n k : ℕ} {w : Faulty ε σ} (h : Room n w) (hk : k ≤ n) : Room k w :=
  fun f hf => Nat.le_trans hk (h f hf)

theorem write_room {n : ℕ} {w : Faulty ε σ} (h : Room (n + 1) w) (f : σ → σ) :
    ∃ w', write f w = .ok ⟨⟩ w' ∧ w'.state = f w.state ∧ Room n w' := by
  obtain ⟨s, _ | ⟨_ | k, e⟩⟩ := w
  · exact ⟨⟨f s, none⟩, rfl, rfl, fun f hf => absurd hf (by simp)⟩
  · exact absurd (h (0, e) rfl) (by simp)
  · refine ⟨⟨f s, some (k, e)⟩, rfl, rfl, ?_⟩
    intro g hg
    cases hg
    exact Nat.le_of_succ_le_succ (h (k + 1, e) rfl)

end Fault
