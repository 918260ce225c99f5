import Mathlib.Algebra.Order.Field.Basic
import Mathlib.Data.List.Basic
import Mathlib.Order.Interval.Set.Defs
import Mathlib.Tactic.FieldSimp
import Mathlib.Tactic.Linarith

/-! Walking a line in equal steps, from one value (left out) to another (reached by the last step).
A walk between two values of an interval stays in it. -/

namespace Interpolation

variable {K : Type*} [Field K]

/-- The values of `n` equal steps from `a` to `b`. -/
def leg (a b : K) (n : ℕ) : List K := (List.range n).map fun i : ℕ => a + (b - a) * (i + 1) / n

@[simp] theorem length_leg (a b : K) (n : ℕ) : (leg a b n).length = n := by simp [leg]

variable [LinearOrder K] [IsStrictOrderedRing K]

theorem mem_leg_Icc {a b lo hi x : K} {n : ℕ} (ha : a ∈ Set.Icc lo hi) (hb : b ∈ Set.Icc lo hi)
    (hx : x ∈ leg a b n) : x ∈ Set.Icc lo hi := by
  obtain ⟨i, hi, rfl⟩ := List.mem_map.mp hx
  have hlt : i < n := List.mem_range.mp hi
  have hn : (0 : K) < n := by exact_mod_cast (by omega : 0 < n)
  -- the share of the way gone
  have hnonneg : (0 : K) ≤ (i + 1) / n := by positivity
  have hone : ((i : K) + 1) / n ≤ 1 := by
    rw [div_le_one hn]
    exact_mod_cast hlt
  rw [mul_div_assoc]
  generalize ((i : K) + 1) / n = t at hnonneg hone
  constructor
  · nlinarith [mul_le_mul_of_nonneg_left hb.1 hnonneg,
      mul_le_mul_of_nonneg_left ha.1 (sub_nonneg.mpr hone)]
  · nlinarith [mul_le_mul_of_nonneg_left hb.2 hnonneg,
      mul_le_mul_of_nonneg_left ha.2 (sub_nonneg.mpr hone)]

theorem getLast?_leg (a b : K) {n : ℕ} (hn : 0 < n) : (leg a b n).getLast? = some b := by
  obtain ⟨m, rfl⟩ : ∃ m, n = m + 1 := ⟨n - 1, by omega⟩
  have hne : ((m : K) + 1) ≠ 0 := by positivity
  rw [leg, List.range_succ, List.map_append, List.map_singleton, List.getLast?_concat,
    Nat.cast_add, Nat.cast_one, mul_div_assoc, div_self hne, mul_one, add_sub_cancel]

theorem end_mem_leg (a b : K) {n : ℕ} (hn : 0 < n) : b ∈ leg a b n :=
  List.mem_of_getLast? (getLast?_leg a b hn)

end Interpolation

/-- Where some element at the front of a list has a property and none there has another, the first
that has the one comes before every one that has the other. -/
theorem List.first_before {α : Type*} {p q : α → Prop} {front : List α} (back : List α)
    (hp : ∃ x ∈ front, p x) (hq : ∀ x ∈ front, ¬q x) :
    ∃ (i : ℕ) (x : α), (front ++ back)[i]? = some x ∧ p x ∧
      (∀ (j : ℕ) (y : α), (front ++ back)[j]? = some y → p y → i ≤ j) ∧
      ∀ (j : ℕ) (y : α), (front ++ back)[j]? = some y → q y → i < j := by
  classical
  have hfront : ∀ j : ℕ, j < front.length → (front ++ back)[j]? = front[j]? := fun j hj =>
    List.getElem?_append_left hj
  have hsome : ∃ i : ℕ, ∃ x, (front ++ back)[i]? = some x ∧ p x := by
    obtain ⟨x, hx, hpx⟩ := hp
    obtain ⟨i, (hi : i < front.length), rfl⟩ := List.mem_iff_getElem.mp hx
    exact ⟨i, front[i], by rw [hfront i hi, List.getElem?_eq_getElem hi], hpx⟩
  obtain ⟨x, hget, hpx⟩ := Nat.find_spec hsome
  refine ⟨Nat.find hsome, x, hget, hpx, fun j y hj hpy => Nat.find_min' hsome ⟨y, hj, hpy⟩,
    fun j y hj hqy => ?_⟩
  have hback : front.length ≤ j := by
    by_contra hlt
    rw [hfront j (by omega)] at hj
    exact hq y (List.mem_of_getElem? hj) hqy
  obtain ⟨x', hx', hpx'⟩ := hp
  obtain ⟨i, hi, rfl⟩ := List.mem_iff_getElem.mp hx'
  have hle : Nat.find hsome ≤ i :=
    Nat.find_min' hsome ⟨front[i], by rw [hfront i hi, List.getElem?_eq_getElem hi], hpx'⟩
  omega
