import Mathlib.Data.List.Sort

/-! A queue kept in the order of a key: the entry at its head has the least. No two
entries share a key, so the order in which they leave is the order of their keys. -/

namespace RakshaQuant

structure Agenda {α κ : Type*} [LinearOrder κ] (key : α → κ) where
  entries : List α
  sorted : entries.Pairwise fun a b => key a < key b

namespace Agenda

variable {α κ : Type*} [LinearOrder κ] {key : α → κ}

/-- A new entry goes before the first one that is later. -/
def place (key : α → κ) (a : α) (l : List α) : List α :=
  l.orderedInsert (fun a b => key a ≤ key b) a

theorem perm_place (a : α) (l : List α) : (place key a l).Perm (a :: l) :=
  List.perm_orderedInsert _ a l

theorem mem_place {a b : α} {l : List α} : b ∈ place key a l ↔ b = a ∨ b ∈ l := by
  rw [(perm_place a l).mem_iff, List.mem_cons]

theorem pairwise_place {a : α} {l : List α} (hl : l.Pairwise fun a b => key a < key b)
    (hnew : ∀ b ∈ l, key b ≠ key a) : (place key a l).Pairwise fun a b => key a < key b := by
  induction l with
  | nil => exact List.pairwise_singleton _ a
  | cons b l ih =>
    obtain ⟨hb, hl⟩ := List.pairwise_cons.mp hl
    have hne := hnew b List.mem_cons_self
    unfold place at ih ⊢
    rw [List.orderedInsert_cons]
    split
    · rename_i hle
      have hlt : key a < key b := lt_of_le_of_ne hle hne.symm
      refine List.pairwise_cons.mpr ⟨fun c hc => ?_, List.pairwise_cons.mpr ⟨hb, hl⟩⟩
      rcases List.mem_cons.mp hc with rfl | hc
      · exact hlt
      · exact hlt.trans (hb c hc)
    · rename_i hle
      refine List.pairwise_cons.mpr ⟨fun c hc => ?_, ih hl fun c hc =>
        hnew c (List.mem_cons_of_mem _ hc)⟩
      rcases mem_place.mp hc with rfl | hc
      · exact not_le.mp hle
      · exact hb c hc

theorem pairwise_relabel {f : α → α} (hf : ∀ a, key (f a) = key a) {l : List α}
    (hl : l.Pairwise fun a b => key a < key b) : (l.map f).Pairwise fun a b => key a < key b :=
  List.pairwise_map.mpr (hl.imp fun h => by rwa [hf, hf])

def empty : Agenda key := ⟨[], List.Pairwise.nil⟩

def push (q : Agenda key) (a : α) (hnew : ∀ b ∈ q.entries, key b ≠ key a) : Agenda key :=
  ⟨place key a q.entries, pairwise_place q.sorted hnew⟩

/-- The entries changed in place. -/
def relabel (q : Agenda key) (f : α → α) (hf : ∀ a, key (f a) = key a) : Agenda key :=
  ⟨q.entries.map f, pairwise_relabel hf q.sorted⟩

/-- All but the first. -/
def rest (q : Agenda key) : Agenda key :=
  ⟨q.entries.tail, q.sorted.tail⟩

@[simp] theorem entries_rest (q : Agenda key) : q.rest.entries = q.entries.tail := rfl

theorem entries_eq {q : Agenda key} {a : α} (h : q.entries.head? = some a) :
    q.entries = a :: q.rest.entries := by
  obtain ⟨l, hl⟩ := List.head?_eq_some_iff.mp h
  rw [entries_rest, hl, List.tail_cons]

theorem head_lt {q : Agenda key} {a : α} (h : q.entries.head? = some a) {b : α}
    (hb : b ∈ q.rest.entries) : key a < key b := by
  have hsorted := q.sorted
  rw [entries_eq h] at hsorted
  exact (List.pairwise_cons.mp hsorted).1 b hb

theorem head_le {q : Agenda key} {a : α} (h : q.entries.head? = some a) {b : α}
    (hb : b ∈ q.entries) : key a ≤ key b := by
  rw [entries_eq h] at hb
  rcases List.mem_cons.mp hb with rfl | hb
  · exact le_rfl
  · exact (head_lt h hb).le

end Agenda

end RakshaQuant
