import Mathlib.Data.List.Forall2

/-! Walking a list with a step that may raise: what the walk returns is, element by element, what
the steps return. -/

universe u

namespace Traverse

/-- Steps that agree on the elements walk a list alike. -/
theorem mapM_congr {m : Type u → Type*} [Monad m] [LawfulMonad m] {α : Type*} {β : Type u}
    {f g : α → m β} {l : List α} (h : ∀ a ∈ l, f a = g a) : l.mapM f = l.mapM g := by
  induction l with
  | nil => rw [List.mapM_nil, List.mapM_nil]
  | cons a l ih =>
    obtain ⟨hfirst, hrest⟩ := List.forall_mem_cons.mp h
    rw [List.mapM_cons, List.mapM_cons, hfirst, ih hrest]

variable {α : Type*} {ε β : Type u} {f : α → Except ε β} {l : List α} {l' : List β}

theorem mapM_ok_iff : l.mapM f = .ok l' ↔ List.Forall₂ (fun a b => f a = .ok b) l l' := by
  induction l generalizing l' with
  | nil =>
    rw [List.mapM_nil, List.forall₂_nil_left_iff]
    constructor
    · intro h
      cases h
      rfl
    · rintro rfl
      rfl
  | cons a l ih =>
    rw [List.mapM_cons, List.forall₂_cons_left_iff]
    constructor
    · intro h
      cases hfirst : f a with
      | error e =>
        rw [hfirst] at h
        cases h
      | ok b =>
        cases hrest : l.mapM f with
        | error e =>
          rw [hfirst, hrest] at h
          cases h
        | ok rest =>
          rw [hfirst, hrest] at h
          cases h
          exact ⟨b, rest, rfl, ih.mp hrest, rfl⟩
    · rintro ⟨b, rest, hfirst, hrest, rfl⟩
      rw [hfirst, ih.mpr hrest]
      rfl

/-- A walk returns exactly when every step does. -/
theorem exists_mapM_ok_iff : (∃ l', l.mapM f = .ok l') ↔ ∀ a ∈ l, ∃ b, f a = .ok b := by
  simp only [mapM_ok_iff]
  induction l with
  | nil => simp
  | cons a l ih =>
    rw [List.forall_mem_cons, ← ih]
    constructor
    · rintro ⟨l', h⟩
      obtain ⟨b, rest, hfirst, hrest, rfl⟩ := List.forall₂_cons_left_iff.mp h
      exact ⟨⟨b, hfirst⟩, rest, hrest⟩
    · rintro ⟨⟨b, hfirst⟩, rest, hrest⟩
      exact ⟨b :: rest, .cons hfirst hrest⟩

/-- What is returned comes of the steps. -/
theorem mem_mapM_iff (h : l.mapM f = .ok l') {b : β} : b ∈ l' ↔ ∃ a ∈ l, f a = .ok b := by
  have hrel := mapM_ok_iff.mp h
  clear h
  induction hrel with
  | nil => simp
  | cons hfirst _ ih =>
    rw [List.mem_cons, List.exists_mem_cons_iff, hfirst, Except.ok.injEq]
    exact or_congr eq_comm ih

/-- What is read off the results, where each step says it of its own. -/
theorem map_of_mapM {γ : Type*} {g : β → γ} {k : α → γ} (h : l.mapM f = .ok l')
    (hstep : ∀ a b, f a = .ok b → g b = k a) : l'.map g = l.map k := by
  have hrel := mapM_ok_iff.mp h
  clear h
  induction hrel with
  | nil => rfl
  | cons hfirst _ ih => rw [List.map_cons, List.map_cons, hstep _ _ hfirst, ih]

end Traverse
