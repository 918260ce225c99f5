import RakshaQuant.Lib.Effect

/-! What a computation leaves as it was: a view of the state that is the same at both of its ends,
whether it returned or raised. -/

universe u

variable {ε σ α β : Type u} {γ : Type*} {view : σ → γ}

namespace Effect

/-- Both ends of a computation look alike. -/
def Leaves (view : σ → γ) (m : EStateM ε σ α) : Prop := ∀ s, view (m s).state = view s

namespace Leaves

theorem pure (a : α) : Leaves view (Pure.pure a : EStateM ε σ α) := fun _ => rfl

theorem throw (e : ε) : Leaves view (MonadExcept.throw e : EStateM ε σ α) := fun _ => rfl

theorem read {f : σ → EStateM ε σ α} (h : ∀ s, Leaves view (f s)) : Leaves view (get >>= f) :=
  fun s => h s s

theorem change {f : σ → σ} (h : ∀ s, view (f s) = view s) :
    Leaves view (modify f : EStateM ε σ PUnit) := h

theorem bind {m : EStateM ε σ α} {f : α → EStateM ε σ β} (hm : Leaves view m)
    (hf : ∀ a, Leaves view (f a)) : Leaves view (m >>= f) := by
  intro s
  have hfirst := hm s
  rw [run_bind]
  cases hrun : m s with
  | error e s' =>
    rw [hrun] at hfirst
    exact hfirst
  | ok a s' =>
    rw [hrun] at hfirst
    exact (hf a s').trans hfirst

theorem ite {c : Prop} [Decidable c] {m m' : EStateM ε σ α} (h : Leaves view m)
    (h' : Leaves view m') : Leaves view (if c then m else m') := by
  split
  · exact h
  · exact h'

end Leaves

end Effect
