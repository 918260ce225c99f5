import Mathlib.Data.List.Induction
import Mathlib.Data.List.Sort
import RakshaQuant.Lib.Dict

/-! Lists grouped under keys. Under one key, all its values in order, or the last of them. Under
two keys: a dictionary of dictionaries, where of the items with the same two keys the last one is
kept. -/

variable {α κ μ : Type*} [DecidableEq κ] [DecidableEq μ]

namespace Dict

/-- The values of pairs, appended under their keys. -/
def collect (items : List (κ × α)) : Dict κ (List α) :=
  items.foldl (fun d e => d.set e.1 ((d.get? e.1).getD [] ++ [e.2])) .empty

/-- The values of the pairs with a key. -/
def under (k : κ) (items : List (κ × α)) : List α :=
  items.filterMap fun e => if e.1 = k then some e.2 else none

theorem under_append (k : κ) (items : List (κ × α)) (e : κ × α) :
    under k (items ++ [e]) = under k items ++ if e.1 = k then [e.2] else [] := by
  rw [under, under, List.filterMap_append]
  by_cases hk : e.1 = k <;> simp [hk]

theorem getD_get?_collect (k : κ) (items : List (κ × α)) :
    ((collect items).get? k).getD [] = under k items := by
  induction items using List.reverseRecOn with
  | nil => rfl
  | append_singleton items e ih =>
    have hlast : collect (items ++ [e]) =
        (collect items).set e.1 (((collect items).get? e.1).getD [] ++ [e.2]) := by
      rw [collect, List.foldl_append]
      rfl
    rw [hlast, get?_set, under_append]
    by_cases hk : k = e.1
    · subst hk
      rw [if_pos rfl, if_pos rfl, Option.getD_some, ih]
    · have hother : e.1 ≠ k := fun h => hk h.symm
      rw [if_neg hk, if_neg hother, ih, List.append_nil]

/-- Of the pairs with a key a dictionary keeps the last. -/
theorem get?_ofList_under (k : κ) (items : List (κ × α)) :
    (ofList items).get? k = (under k items).getLast? := by
  induction items using List.reverseRecOn with
  | nil => rfl
  | append_singleton items e ih =>
    have hlast : ofList (items ++ [e]) = (ofList items).set e.1 e.2 := by
      rw [ofList, List.foldl_append]
      rfl
    rw [hlast, get?_set, under_append]
    by_cases hk : k = e.1
    · subst hk
      simp
    · have hother : e.1 ≠ k := fun h => hk h.symm
      rw [if_neg hk, if_neg hother, ih, List.append_nil]

/-- The sorted keys of a dictionary are the sorted list that has the same members. -/
theorem insertionSort_keys {κ ν : Type*} [LinearOrder κ] {d : Dict κ ν} {l : List κ}
    (hsorted : l.Pairwise (· < ·)) (hmem : ∀ k, k ∈ d.keys ↔ k ∈ l) :
    d.keys.insertionSort (· ≤ ·) = l := by
  have hperm : d.keys.Perm l :=
    (List.perm_ext_iff_of_nodup d.nodup_keys (hsorted.imp fun h => ne_of_lt h)).mpr hmem
  exact List.Perm.eq_of_pairwise (fun _ _ _ _ hab hba => le_antisymm hab hba)
    (List.pairwise_insertionSort _ _) (hsorted.imp fun h => le_of_lt h)
    ((List.perm_insertionSort _ _).trans hperm)

/-- The items by a first key and then by a second. -/
def group (key : α → κ) (label : α → μ) (items : List α) : Dict κ (Dict μ α) :=
  items.foldl (fun d a => d.set (key a) (((d.get? (key a)).getD .empty).set (label a) a)) .empty

variable {key : α → κ} {label : α → μ} {items : List α} {k : κ} {j : μ}

theorem group_append (a : α) : group key label (items ++ [a]) =
    (group key label items).set (key a)
      ((((group key label items).get? (key a)).getD .empty).set (label a) a) := by
  rw [group, List.foldl_append]
  rfl

theorem isSome_group : ((group key label items).get? k).isSome ↔ ∃ a ∈ items, key a = k := by
  induction items using List.reverseRecOn with
  | nil => simp [group]
  | append_singleton items a ih =>
    rw [group_append, get?_set]
    by_cases hk : k = key a
    · simp [hk]
    · rw [if_neg hk, ih]
      have hother : key a ≠ k := fun h => hk h.symm
      simp [hother]

/-- What is kept under two keys is the last of the items that have them. -/
theorem get?_group : ((group key label items).get? k).bind (fun d => d.get? j) =
    (items.filter fun a => key a = k ∧ label a = j).getLast? := by
  induction items using List.reverseRecOn with
  | nil => simp [group]
  | append_singleton items a ih =>
    rw [group_append, get?_set, List.filter_append]
    by_cases hk : k = key a
    · subst hk
      rw [if_pos rfl, Option.bind_some, get?_set]
      by_cases hj : j = label a
      · subst hj
        simp
      · have hother : label a ≠ j := fun h => hj h.symm
        have hnone : [a].filter (fun b => key b = key a ∧ label b = j) = [] := by simp [hother]
        rw [if_neg hj, hnone, List.append_nil, ← ih]
        cases (group key label items).get? (key a) <;> rfl
    · have hother : key a ≠ k := fun h => hk h.symm
      rw [if_neg hk, ih]
      simp [hother]

/-- Where no two items have the same two keys, each is kept. -/
theorem get?_group_iff
    (hone : ∀ a ∈ items, ∀ b ∈ items, key a = key b → label a = label b → a = b) {a : α} :
    ((group key label items).get? k).bind (fun d => d.get? j) = some a ↔
      a ∈ items ∧ key a = k ∧ label a = j := by
  rw [get?_group]
  constructor
  · intro h
    have hmem := List.mem_of_getLast? h
    rw [List.mem_filter] at hmem
    exact ⟨hmem.1, of_decide_eq_true hmem.2⟩
  · rintro ⟨hmem, rfl, rfl⟩
    have hne : (items.filter fun b => key b = key a ∧ label b = label a) ≠ [] :=
      List.ne_nil_of_mem (List.mem_filter.mpr ⟨hmem, by simp⟩)
    rw [List.getLast?_eq_some_getLast hne, Option.some.injEq]
    have hlast := List.mem_filter.mp (List.getLast_mem hne)
    obtain ⟨hkey, hlabel⟩ := of_decide_eq_true hlast.2
    exact hone _ hlast.1 a hmem hkey hlabel

end Dict
