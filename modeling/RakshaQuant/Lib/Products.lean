import Mathlib.Algebra.BigOperators.Group.List.Basic
import Mathlib.Data.List.Nodup

/-! Products over the elements of a list that satisfy a predicate, in a commutative monoid:
the parts of a product by disjoint predicates, and by the keys its elements have. -/

namespace Products

variable {α κ M : Type*} [CommMonoid M]

/-- The product over the elements of a list that satisfy a predicate. -/
def within (l : List α) (p : α → Bool) (g : α → M) : M := ((l.filter p).map g).prod

@[simp] theorem within_nil (p : α → Bool) (g : α → M) : within [] p g = 1 := rfl

theorem within_cons (a : α) (l : List α) (p : α → Bool) (g : α → M) :
    within (a :: l) p g = (if p a then g a else 1) * within l p g := by
  unfold within
  cases h : p a with
  | false => rw [List.filter_cons_of_neg (by simp [h]), if_neg (by simp), one_mul]
  | true => rw [List.filter_cons_of_pos h, if_pos rfl, List.map_cons, List.prod_cons]

/-- Predicates that agree on the list have the same product. -/
theorem within_congr {l : List α} {p q : α → Bool} (g : α → M) (h : ∀ a ∈ l, p a = q a) :
    within l p g = within l q g := by
  rw [within, within, List.filter_congr h]

@[simp] theorem within_false (l : List α) (g : α → M) : within l (fun _ => false) g = 1 := by
  simp [within]

/-- A product splits by a second predicate. -/
theorem within_split (l : List α) (p q : α → Bool) (g : α → M) :
    within l p g = within l (fun a => p a && q a) g * within l (fun a => p a && !q a) g := by
  induction l with
  | nil => simp
  | cons a l ih =>
    rw [within_cons, within_cons, within_cons, ih]
    cases p a <;> cases q a <;> simp [mul_assoc, mul_left_comm]

/-- A product by the keys of its elements is the product over the elements with these keys. -/
theorem prod_keys [DecidableEq κ] (l : List α) (key : α → κ) (g : α → M) {keys : List κ}
    (hnodup : keys.Nodup) :
    (keys.map fun k => within l (fun a => key a = k) g).prod =
      within l (fun a => key a ∈ keys) g := by
  induction keys with
  | nil => simp
  | cons k keys ih =>
    obtain ⟨hnew, hrest⟩ := List.nodup_cons.mp hnodup
    rw [List.map_cons, List.prod_cons, ih hrest,
      within_split l (fun a => key a ∈ k :: keys) (fun a => key a = k)]
    congr 1
    · refine within_congr g fun a _ => ?_
      by_cases hk : key a = k <;> simp [hk]
    · refine within_congr g fun a _ => ?_
      by_cases hk : key a = k
      · simp [hk, hnew]
      · simp [hk]

end Products
