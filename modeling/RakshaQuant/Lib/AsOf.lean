import Mathlib.Data.List.Sort

/-! Reading a list as of a moment: of the items in the order of a time, the last that is
not after it. -/

namespace RakshaQuant

namespace AsOf

variable {α κ : Type*} [LinearOrder κ] {time : α → κ} {l : List α}

/-- Where `x` goes in a sorted list, after what is equal to it. -/
def bisectRight (l : List κ) (x : κ) : ℕ := (l.takeWhile (· ≤ x)).length

/-- The items in the order of their times, those of one time as they stood. -/
def sorted (time : α → κ) (l : List α) : List α := l.insertionSort fun a b => time a ≤ time b

/-- The item before the place of `x`. -/
def latest (time : α → κ) (l : List α) (x : κ) : Option α :=
  let i := bisectRight (l.map time) x
  if i = 0 then none else l[i - 1]?

theorem perm_sorted (time : α → κ) (l : List α) : (sorted time l).Perm l :=
  List.perm_insertionSort _ l

theorem pairwise_sorted (time : α → κ) (l : List α) :
    (sorted time l).Pairwise fun a b => time a ≤ time b := by
  have : Std.Total fun a b : α => time a ≤ time b := ⟨fun a b => le_total _ _⟩
  have : IsTrans α fun a b => time a ≤ time b := ⟨fun _ _ _ => le_trans⟩
  exact List.pairwise_insertionSort _ l

theorem takeWhile_eq_filter (hl : l.Pairwise fun a b => time a ≤ time b) (x : κ) :
    l.takeWhile (fun a => time a ≤ x) = l.filter fun a => time a ≤ x := by
  induction l with
  | nil => rfl
  | cons a l ih =>
    obtain ⟨ha, hl⟩ := List.pairwise_cons.mp hl
    by_cases hle : time a ≤ x
    · rw [List.takeWhile_cons_of_pos (by simpa using hle), List.filter_cons_of_pos (by simpa using hle),
        ih hl]
    · have hnone : l.filter (fun a => time a ≤ x) = [] :=
        List.filter_eq_nil_iff.mpr fun b hb h => hle ((ha b hb).trans (of_decide_eq_true h))
      rw [List.takeWhile_cons_of_neg (by simpa using hle), List.filter_cons_of_neg (by simpa using hle),
        hnone]

theorem latest_eq (hl : l.Pairwise fun a b => time a ≤ time b) (x : κ) :
    latest time l x = (l.filter fun a => time a ≤ x).getLast? := by
  have hlength : bisectRight (l.map time) x = (l.takeWhile fun a => time a ≤ x).length := by
    unfold bisectRight
    rw [List.takeWhile_map, List.length_map]
    rfl
  unfold latest
  rw [hlength, ← takeWhile_eq_filter hl, List.getLast?_eq_getElem?]
  dsimp only
  obtain ⟨rest, hrest⟩ := List.takeWhile_prefix (l := l) fun a => decide (time a ≤ x)
  split
  · rename_i hnil
    rw [List.length_eq_zero_iff.mp hnil]
    rfl
  · rename_i hne
    have hlt : (l.takeWhile fun a => time a ≤ x).length - 1
        < (l.takeWhile fun a => time a ≤ x).length := by omega
    calc l[(l.takeWhile fun a => time a ≤ x).length - 1]?
        = (l.takeWhile (fun a => time a ≤ x) ++ rest)[
            (l.takeWhile fun a => time a ≤ x).length - 1]? := by rw [hrest]
      _ = _ := List.getElem?_append_left hlt

/-- What was there at a moment is there later, or something after it. -/
theorem latest_or (hl : l.Pairwise fun a b => time a ≤ time b) {x y : κ} (hle : x ≤ y) :
    (latest time l y).or (latest time l x) = latest time l y := by
  rw [latest_eq hl, latest_eq hl]
  cases hlast : (l.filter fun a => time a ≤ y).getLast? with
  | some a => rfl
  | none =>
    have hnone : l.filter (fun a => time a ≤ x) = [] := by
      refine List.filter_eq_nil_iff.mpr fun a ha h => ?_
      have hlater := List.filter_eq_nil_iff.mp (List.getLast?_eq_none_iff.mp hlast) a ha
      exact hlater (decide_eq_true ((of_decide_eq_true h).trans hle))
    rw [hnone]
    rfl

/-- Items of different times have one order. -/
theorem sorted_of_perm {l' : List α} (hperm : l'.Perm l)
    (hl : l.Pairwise fun a b => time a < time b) : sorted time l' = l := by
  have hinj : ∀ a ∈ l, ∀ b ∈ l, time a = time b → a = b := by
    have hnodup : (l.map time).Nodup := List.pairwise_map.mpr (hl.imp ne_of_lt)
    exact fun a ha b hb => List.inj_on_of_nodup_map hnodup ha hb
  refine ((perm_sorted time l').trans hperm).eq_of_pairwise (fun a b ha hb hab hba => ?_)
    (pairwise_sorted time l') (hl.imp le_of_lt)
  have ha : a ∈ l := hperm.mem_iff.mp ((perm_sorted time l').mem_iff.mp ha)
  exact hinj a ha b hb (le_antisymm hab hba)

end AsOf

end RakshaQuant
