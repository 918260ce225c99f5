import RakshaQuant.Lib.Effect

/-! Two computations side by side, on states of their own. From related states they both
return, related values in related states, or both raise the same. -/

universe u

namespace Effect

variable {ε σ τ α β γ δ : Type u}

/-- From states in `P` the computations end alike: in `Q` if they return, in `E` if they
raise. -/
def Relates (P : σ → τ → Prop) (m : EStateM ε σ α) (m' : EStateM ε τ β)
    (Q : α → β → σ → τ → Prop) (E : σ → τ → Prop) : Prop :=
  ∀ s t, P s t → match m s, m' t with
    | .ok a s', .ok b t' => Q a b s' t'
    | .error e s', .error e' t' => e = e' ∧ E s' t'
    | _, _ => False

namespace Relates

variable {P M : σ → τ → Prop} {Q : α → β → σ → τ → Prop} {V : γ → δ → σ → τ → Prop}
  {E : σ → τ → Prop}

theorem pure {a : α} {b : β} (h : ∀ s t, P s t → Q a b s t) :
    Relates P (Pure.pure a : EStateM ε σ α) (Pure.pure b : EStateM ε τ β) Q E :=
  h

theorem throw {e : ε} (h : ∀ s t, P s t → E s t) :
    Relates P (MonadExcept.throw e : EStateM ε σ α) (MonadExcept.throw e : EStateM ε τ β) Q E :=
  fun s t hst => ⟨rfl, h s t hst⟩

theorem change {f : σ → σ} {g : τ → τ} {Q : PUnit → PUnit → σ → τ → Prop}
    (h : ∀ s t, P s t → Q ⟨⟩ ⟨⟩ (f s) (g t)) :
    Relates P (modify f : EStateM ε σ PUnit) (modify g : EStateM ε τ PUnit) Q E :=
  h

theorem ends {m : EStateM ε σ α} {m' : EStateM ε τ β} (hm : Relates P m m' Q E) {s : σ} {t : τ}
    (hst : P s t) : (∃ a b s' t', m s = .ok a s' ∧ m' t = .ok b t' ∧ Q a b s' t') ∨
      ∃ e s' t', m s = .error e s' ∧ m' t = .error e t' ∧ E s' t' := by
  have h := hm s t hst
  cases hs : m s with
  | ok a s' =>
    cases ht : m' t with
    | ok b t' =>
      rw [hs, ht] at h
      exact .inl ⟨a, b, s', t', rfl, rfl, h⟩
    | error e t' =>
      rw [hs, ht] at h
      exact h.elim
  | error e s' =>
    cases ht : m' t with
    | ok b t' =>
      rw [hs, ht] at h
      exact h.elim
    | error e' t' =>
      rw [hs, ht] at h
      obtain ⟨rfl, hends⟩ := h
      exact .inr ⟨e, s', t', rfl, rfl, hends⟩

theorem bind {m : EStateM ε σ α} {m' : EStateM ε τ β} {f : α → EStateM ε σ γ}
    {g : β → EStateM ε τ δ} (hm : Relates P m m' Q E)
    (hf : ∀ a b, Relates (Q a b) (f a) (g b) V E) : Relates P (m >>= f) (m' >>= g) V E := by
  intro s t hst
  rcases hm.ends hst with ⟨a, b, s', t', hs, ht, hq⟩ | ⟨e, s', t', hs, ht, he⟩
  · rw [run_bind_ok hs, run_bind_ok ht]
    exact hf a b s' t' hq
  · rw [run_bind_error hs, run_bind_error ht]
    exact ⟨rfl, he⟩

/-- Continue after a change on each side. -/
theorem after {f : σ → σ} {g : τ → τ} {m : PUnit → EStateM ε σ γ} {m' : PUnit → EStateM ε τ δ}
    (h : ∀ s t, P s t → M (f s) (g t)) (hm : Relates M (m ⟨⟩) (m' ⟨⟩) V E) :
    Relates P (modify f >>= m) (modify g >>= m') V E :=
  bind (Q := fun _ _ => M) (change h) fun _ _ => hm

/-- Continue after reading both states. -/
theorem read {f : σ → EStateM ε σ γ} {g : τ → EStateM ε τ δ}
    (h : ∀ s t, P s t → Relates (fun s' t' => s' = s ∧ t' = t) (f s) (g t) V E) :
    Relates P (get >>= f) (get >>= g) V E :=
  fun s t hst => h s t hst s t ⟨rfl, rfl⟩

theorem conseq {m : EStateM ε σ γ} {m' : EStateM ε τ δ} {W : γ → δ → σ → τ → Prop}
    (hm : Relates P m m' V E) (hp : ∀ s t, M s t → P s t)
    (hq : ∀ a b s t, V a b s t → W a b s t) : Relates M m m' W E := by
  intro s t hst
  rcases hm.ends (hp s t hst) with ⟨a, b, s', t', hs, ht, hv⟩ | ⟨e, s', t', hs, ht, he⟩
  · rw [hs, ht]
    exact hq a b s' t' hv
  · rw [hs, ht]
    exact ⟨rfl, he⟩

/-- However they end, they end in related states. -/
theorem states {m : EStateM ε σ γ} {m' : EStateM ε τ δ} {R : σ → τ → Prop}
    (hm : Relates P m m' (fun _ _ => R) R) {s : σ} {t : τ} (hst : P s t) :
    R (m s).state (m' t).state := by
  rcases hm.ends hst with ⟨a, b, s', t', hs, ht, h⟩ | ⟨e, s', t', hs, ht, h⟩
  · rw [hs, ht]
    exact h
  · rw [hs, ht]
    exact h

end Relates

end Effect
