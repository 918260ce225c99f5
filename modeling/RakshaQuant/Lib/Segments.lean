import Mathlib.Data.List.Basic
import Mathlib.Logic.Function.Basic
import Mathlib.Algebra.Order.Group.Nat

/-! A sequence kept as a merged base and numbered parts after it. The base is
stamped with the last number it absorbed; a part up to the stamp may still lie
about and is not read. Adding a part, merging and removing an absorbed part are
what a writer does, and only the first changes what is read. -/

/-- The base, its stamp and the parts, by number. -/
structure Segments (α : Type*) where
  base : List α
  stamp : ℕ
  part : ℕ → Option (List α)

namespace Segments

variable {α β : Type*} {s : Segments α} {limit n m : ℕ} {rows : List α}

/-- What the part numbered `n` adds to a reading. -/
def live (s : Segments α) (n : ℕ) : List α :=
  if s.stamp < n then (s.part n).getD [] else []

/-- The contents; a part numbered `limit` or more is not found. -/
def read (limit : ℕ) (s : Segments α) : List α :=
  s.base ++ (List.range limit).flatMap s.live

/-- No number above `n` is in use. -/
def Within (s : Segments α) (n : ℕ) : Prop :=
  s.stamp ≤ n ∧ ∀ m, s.part m ≠ none → m ≤ n

theorem Within.mono (h : s.Within n) (hn : n ≤ m) : s.Within m :=
  ⟨h.1.trans hn, fun k hk => (h.2 k hk).trans hn⟩

theorem Within.unused (h : s.Within n) (hn : n < m) : s.part m = none := by
  by_contra hm
  have := h.2 m hm
  omega

/-! ## The three steps -/

def add (n : ℕ) (rows : List α) (s : Segments α) : Segments α :=
  { s with part := Function.update s.part n (some rows) }

/-- Everything found goes into the base, stamped `n`. -/
def merge (limit n : ℕ) (s : Segments α) : Segments α :=
  { s with base := s.read limit, stamp := n }

def remove (n : ℕ) (s : Segments α) : Segments α :=
  { s with part := Function.update s.part n none }

/-- Parts from a number on that are not in use add nothing. -/
theorem flatMap_unused (h : s.Within n) (start k : ℕ) (hstart : n < start) :
    ((List.range k).map (start + ·)).flatMap s.live = [] := by
  rw [List.flatMap_eq_nil_iff]
  intro j hj
  obtain ⟨i, -, rfl⟩ := List.mem_map.mp hj
  simp [live, h.unused (show n < start + i by omega)]

/-- A new part with an unused number, the largest so far, is read last. -/
theorem read_add (h : s.Within n) (hn : n < m) (hm : m < limit) :
    (s.add m rows).read limit = s.read limit ++ rows := by
  obtain ⟨k, rfl⟩ : ∃ k, limit = m + (1 + k) := ⟨limit - m - 1, by omega⟩
  have hbelow : (List.range m).flatMap (s.add m rows).live = (List.range m).flatMap s.live := by
    apply List.flatMap_congr
    intro j hj
    have hne : j ≠ m := (List.mem_range.mp hj).ne
    simp [live, add, Function.update_of_ne hne]
  have hat : (s.add m rows).live m = rows := by
    have hstamp : s.stamp < m := Nat.lt_of_le_of_lt h.1 hn
    simp [live, add, hstamp]
  have habove : ((List.range k).map (m + 1 + ·)).flatMap (s.add m rows).live = [] := by
    rw [← flatMap_unused (h.mono hn.le) (m + 1) k (Nat.lt_succ_self m)]
    apply List.flatMap_congr
    intro j hj
    obtain ⟨i, -, rfl⟩ := List.mem_map.mp hj
    simp [live, add, show m + 1 + i ≠ m by omega]
  have hsplit : List.range (m + (1 + k)) =
      List.range m ++ m :: (List.range k).map (m + 1 + ·) := by
    rw [List.range_add, List.range_add]
    simp [Nat.add_assoc, Function.comp_def]
  have hold : s.live m = [] := by simp [live, h.unused hn]
  have hold' : ((List.range k).map (m + 1 + ·)).flatMap s.live = [] :=
    flatMap_unused h (m + 1) k (by omega)
  simp only [read, hsplit, List.flatMap_append, List.flatMap_cons, hbelow, hat, habove, hold,
    hold', List.append_nil]
  rw [← List.append_assoc]
  rfl

/-- Merging everything in use loses and repeats nothing. -/
theorem read_merge (h : s.Within n) : (s.merge limit n).read limit = s.read limit := by
  have hnone : (List.range limit).flatMap (s.merge limit n).live = [] := by
    rw [List.flatMap_eq_nil_iff]
    intro j _
    by_cases hj : n < j
    · simp [live, merge, hj, h.unused hj]
    · simp [live, merge, hj]
  simp [read, hnone]
  rfl

/-- An absorbed part is not missed. -/
theorem read_remove (hn : n ≤ s.stamp) : (s.remove n).read limit = s.read limit := by
  have hlive : (s.remove n).live = s.live := by
    funext j
    by_cases hj : s.stamp < j
    · simp [live, remove, hj, Function.update_of_ne (show j ≠ n by omega)]
    · simp [live, remove, hj]
  simp only [read, hlive]
  rfl

theorem Within.add (h : s.Within n) (hn : n ≤ m) : (s.add m rows).Within m := by
  refine ⟨h.1.trans hn, fun j hj => ?_⟩
  by_cases heq : j = m
  · exact heq.le
  · have hold : s.part j ≠ none := by simpa [Segments.add, Function.update_of_ne heq] using hj
    exact (h.2 j hold).trans hn

theorem Within.merge (h : s.Within n) : (s.merge limit n).Within n :=
  ⟨le_rfl, h.2⟩

theorem Within.remove (h : s.Within n) (k : ℕ) : (s.remove k).Within n := by
  refine ⟨h.1, fun j hj => h.2 j (fun hnone => hj ?_)⟩
  by_cases heq : j = k <;> simp [Segments.remove, heq, hnone]

end Segments

/-! ## Batches -/

/-- What is kept of batches that were finished or interrupted: every finished one,
and an interrupted one whole or not at all, in their order. -/
inductive Kept {β : Type*} : List (Bool × β) → List β → Prop
  | nil : Kept [] []
  | finished {b bs kept} : Kept bs kept → Kept ((true, b) :: bs) (b :: kept)
  | whole {b bs kept} : Kept bs kept → Kept ((false, b) :: bs) (b :: kept)
  | lost {b bs kept} : Kept bs kept → Kept ((false, b) :: bs) kept

namespace Kept

variable {β γ : Type*} {bs bs' : List (Bool × β)} {kept kept' : List β}

theorem append (h : Kept bs kept) (h' : Kept bs' kept') : Kept (bs ++ bs') (kept ++ kept') := by
  induction h with
  | nil => exact h'
  | finished _ ih => exact .finished ih
  | whole _ ih => exact .whole ih
  | lost _ ih => exact .lost ih

/-- Batches that are written in another form are kept in that form. -/
theorem of_map {f : β → γ} {kept : List γ}
    (h : Kept (bs.map fun b => (b.1, f b.2)) kept) : ∃ original, Kept bs original ∧
      kept = original.map f := by
  induction bs generalizing kept with
  | nil =>
    cases h
    exact ⟨[], .nil, rfl⟩
  | cons b bs ih =>
    obtain ⟨done, b⟩ := b
    cases h with
    | finished h =>
      obtain ⟨original, hkept, rfl⟩ := ih h
      exact ⟨b :: original, .finished hkept, rfl⟩
    | whole h =>
      obtain ⟨original, hkept, rfl⟩ := ih h
      exact ⟨b :: original, .whole hkept, rfl⟩
    | lost h =>
      obtain ⟨original, hkept, rfl⟩ := ih h
      exact ⟨original, .lost hkept, rfl⟩

end Kept
