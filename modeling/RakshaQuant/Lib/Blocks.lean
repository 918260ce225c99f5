import Mathlib.Data.List.Basic

/-! Counting keys in a list by watching a mark change. The mark depends on the key, and
remembers one key only; so it counts each key once exactly where it changes at the first
element of each key and nowhere else. -/

namespace Blocks

variable {α κ ρ : Type*} [DecidableEq κ] [DecidableEq ρ]

/-- The elements whose key was not seen before them. -/
def firsts (key : α → κ) : List κ → List α → List α
  | _, [] => []
  | seen, a :: rest =>
    if key a ∈ seen then firsts key seen rest else a :: firsts key (key a :: seen) rest

/-- The elements whose mark is not the one before. -/
def changes (mark : α → ρ) : Option ρ → List α → List α
  | _, [] => []
  | last, a :: rest =>
    if last = some (mark a) then changes mark last rest else a :: changes mark (some (mark a)) rest

/-- The mark changes exactly at the first element of each key. -/
def InTurn (mark : α → ρ) (key : α → κ) : Option ρ → List κ → List α → Prop
  | _, _, [] => True
  | last, seen, a :: rest =>
    (last = some (mark a) ↔ key a ∈ seen) ∧
      InTurn mark key (some (mark a)) (if key a ∈ seen then seen else key a :: seen) rest

instance decidableInTurn (mark : α → ρ) (key : α → κ) :
    ∀ (last : Option ρ) (seen : List κ) (l : List α), Decidable (InTurn mark key last seen l)
  | _, _, [] => .isTrue trivial
  | _, seen, a :: rest =>
    have := decidableInTurn mark key (some (mark a))
      (if key a ∈ seen then seen else key a :: seen) rest
    inferInstanceAs (Decidable (_ ∧ _))

variable {mark : α → ρ} {key : α → κ} {f : κ → ρ}

/-- After a change the next change has another mark. -/
theorem changes_head {r : ρ} {l rest : List α} {a : α}
    (h : changes mark (some r) l = a :: rest) : mark a ≠ r := by
  induction l with
  | nil => cases h
  | cons b l ih =>
    rw [changes] at h
    by_cases hb : some r = some (mark b)
    · rw [if_pos hb] at h
      exact ih h
    · rw [if_neg hb, List.cons.injEq] at h
      rw [← h.1]
      exact fun hc => hb (congrArg some hc.symm)

theorem not_mem_firsts {seen : List κ} {l : List α} {k : κ} (h : k ∈ seen) :
    k ∉ (firsts key seen l).map key := by
  induction l generalizing seen with
  | nil => simp [firsts]
  | cons a rest ih =>
    rw [firsts]
    by_cases ha : key a ∈ seen
    · rw [if_pos ha]
      exact ih h
    · rw [if_neg ha, List.map_cons, List.mem_cons, not_or]
      exact ⟨fun hc => ha (hc ▸ h), ih (List.mem_cons_of_mem _ h)⟩

theorem nodup_firsts (key : α → κ) (seen : List κ) (l : List α) :
    ((firsts key seen l).map key).Nodup := by
  induction l generalizing seen with
  | nil => simp [firsts]
  | cons a rest ih =>
    rw [firsts]
    by_cases ha : key a ∈ seen
    · rw [if_pos ha]
      exact ih seen
    · rw [if_neg ha, List.map_cons, List.nodup_cons]
      exact ⟨not_mem_firsts (List.mem_cons_self ..), ih _⟩

theorem InTurn.changes_eq {last : Option ρ} {seen : List κ} {l : List α}
    (h : InTurn mark key last seen l) : changes mark last l = firsts key seen l := by
  induction l generalizing last seen with
  | nil => rfl
  | cons a rest ih =>
    obtain ⟨hfirst, hrest⟩ := h
    rw [changes, firsts]
    by_cases ha : key a ∈ seen
    · have hlast := hfirst.mpr ha
      rw [if_pos ha] at hrest
      rw [if_pos hlast, if_pos ha, hlast]
      exact ih hrest
    · have hlast : last ≠ some (mark a) := fun hc => ha (hfirst.mp hc)
      rw [if_neg ha] at hrest
      rw [if_neg hlast, if_neg ha, ih hrest]

/-- **Counting by changes.** The changes count each key once, in order, exactly if the mark
changes at the first element of each key and nowhere else. -/
theorem changes_keys_iff (hmark : ∀ a, mark a = f (key a)) {last : Option ρ} {seen : List κ}
    {l : List α} : (changes mark last l).map key = (firsts key seen l).map key ↔
      InTurn mark key last seen l := by
  refine ⟨fun h => ?_, fun h => congrArg _ h.changes_eq⟩
  induction l generalizing last seen with
  | nil => trivial
  | cons a rest ih =>
    rw [changes, firsts] at h
    by_cases hlast : last = some (mark a)
    · by_cases ha : key a ∈ seen
      · rw [if_pos hlast, if_pos ha, hlast] at h
        refine ⟨iff_of_true hlast ha, ?_⟩
        rw [if_pos ha]
        exact ih h
      · -- the key is new and not counted: the next change has another key
        rw [if_pos hlast, if_neg ha, hlast, List.map_cons] at h
        obtain ⟨b, more, hchanges, hkey, -⟩ := List.map_eq_cons_iff.mp h
        refine absurd ?_ (changes_head hchanges)
        rw [hmark b, hmark a, hkey]
    · by_cases ha : key a ∈ seen
      · -- the key is counted again
        rw [if_neg hlast, if_pos ha, List.map_cons] at h
        have hnot : key a ∉ (firsts key seen rest).map key := not_mem_firsts ha
        refine absurd ?_ hnot
        rw [← h]
        exact List.mem_cons_self
      · rw [if_neg hlast, if_neg ha, List.map_cons, List.map_cons, List.cons.injEq] at h
        refine ⟨iff_of_false hlast ha, ?_⟩
        rw [if_neg ha]
        exact ih h.2

end Blocks
