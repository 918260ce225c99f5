import Mathlib.Logic.Relator
import Mathlib.Algebra.Order.Ring.Int
import Mathlib.Data.Int.Cast.Lemmas

/-! Steps along a relation that leads from each element to at most one and comes to each from at
most one. Going any number of steps, back where the number is negative, adds up; and where every
step goes up, more steps go further up. -/

namespace Steps

variable {α : Type*} {R : α → α → Prop} {m n : ℕ} {a b c : α}

/-- `n` steps lead from one element to the other. -/
def Ahead (R : α → α → Prop) : ℕ → α → α → Prop
  | 0, a, b => a = b
  | n + 1, a, b => ∃ x, R a x ∧ Ahead R n x b

/-- So many steps lead from one element to the other, back where the number is negative. -/
def Apart (R : α → α → Prop) (n : ℤ) (a b : α) : Prop :=
  if 0 ≤ n then Ahead R n.toNat a b else Ahead R (-n).toNat b a

@[simp] theorem ahead_zero : Ahead R 0 a b ↔ a = b := Iff.rfl

theorem ahead_add : Ahead R (m + n) a c ↔ ∃ b, Ahead R m a b ∧ Ahead R n b c := by
  induction m generalizing a with
  | zero => simp
  | succ m ih =>
    rw [Nat.succ_add]
    constructor
    · rintro ⟨x, hax, hxc⟩
      obtain ⟨b, hxb, hbc⟩ := ih.mp hxc
      exact ⟨b, ⟨x, hax, hxb⟩, hbc⟩
    · rintro ⟨b, ⟨x, hax, hxb⟩, hbc⟩
      exact ⟨x, hax, ih.mpr ⟨b, hxb, hbc⟩⟩

theorem Ahead.unique (hR : Relator.BiUnique R) {b' : α} (h : Ahead R n a b) (h' : Ahead R n a b') :
    b = b' := by
  induction n generalizing a with
  | zero => exact h.symm.trans h'
  | succ n ih =>
    obtain ⟨x, hx, hb⟩ := h
    obtain ⟨x', hx', hb'⟩ := h'
    obtain rfl := hR.2 hx hx'
    exact ih hb hb'

theorem Ahead.injective (hR : Relator.BiUnique R) {a' : α} (h : Ahead R n a b)
    (h' : Ahead R n a' b) : a = a' := by
  induction n generalizing a a' with
  | zero => exact h.trans h'.symm
  | succ n ih =>
    obtain ⟨x, hx, hb⟩ := h
    obtain ⟨x', hx', hb'⟩ := h'
    obtain rfl := ih hb hb'
    exact hR.1 hx hx'

/-! ## Steps either way -/

theorem apart_natCast : Apart R n a b ↔ Ahead R n a b := by
  rw [Apart, if_pos (Int.natCast_nonneg n), Int.toNat_natCast]

theorem apart_neg_natCast : Apart R (-n) a b ↔ Ahead R n b a := by
  cases n with
  | zero => simp [Apart, eq_comm]
  | succ n =>
    rw [Apart, if_neg (by omega), neg_neg, Int.toNat_natCast]

theorem apart_neg {z : ℤ} : Apart R (-z) a b ↔ Apart R z b a := by
  obtain ⟨k, rfl | rfl⟩ := z.eq_nat_or_neg
  · rw [apart_neg_natCast, apart_natCast]
  · rw [neg_neg, apart_natCast, apart_neg_natCast]

/-- Steps ahead and then fewer or more of them back. -/
theorem apart_sub (hR : Relator.BiUnique R) (hab : Ahead R m a b) (hcb : Ahead R n c b) :
    Apart R (m - n) a c := by
  rcases le_total n m with hle | hle
  · obtain ⟨k, rfl⟩ := Nat.exists_eq_add_of_le' hle
    obtain ⟨x, hax, hxb⟩ := ahead_add.mp hab
    obtain rfl := hxb.injective hR hcb
    rw [Nat.cast_add, add_sub_cancel_right, apart_natCast]
    exact hax
  · obtain ⟨k, rfl⟩ := Nat.exists_eq_add_of_le' hle
    obtain ⟨x, hcx, hxb⟩ := ahead_add.mp hcb
    obtain rfl := hxb.injective hR hab
    rw [Nat.cast_add, sub_add_cancel_right, apart_neg_natCast]
    exact hcx

/-- **Steps add up**, whichever way they go. -/
theorem Apart.trans (hR : Relator.BiUnique R) {x y : ℤ} (hab : Apart R x a b)
    (hbc : Apart R y b c) : Apart R (x + y) a c := by
  obtain ⟨m, rfl | rfl⟩ := x.eq_nat_or_neg <;> obtain ⟨n, rfl | rfl⟩ := y.eq_nat_or_neg
  · rw [apart_natCast] at hab hbc
    rw [← Nat.cast_add, apart_natCast]
    exact ahead_add.mpr ⟨b, hab, hbc⟩
  · rw [apart_natCast] at hab
    rw [apart_neg_natCast] at hbc
    exact apart_sub hR hab hbc
  · -- back to `b` and ahead from there: `b` is behind both ends
    rw [apart_neg_natCast] at hab
    rw [apart_natCast] at hbc
    rcases le_total m n with hle | hle
    · obtain ⟨k, rfl⟩ := Nat.exists_eq_add_of_le hle
      obtain ⟨x, hbx, hxc⟩ := ahead_add.mp hbc
      obtain rfl := hbx.unique hR hab
      rw [Nat.cast_add, neg_add_cancel_left, apart_natCast]
      exact hxc
    · obtain ⟨k, rfl⟩ := Nat.exists_eq_add_of_le hle
      obtain ⟨x, hbx, hxa⟩ := ahead_add.mp hab
      obtain rfl := hbx.unique hR hbc
      have hback : -((n + k : ℕ) : ℤ) + n = -k := by omega
      rw [hback, apart_neg_natCast]
      exact hxa
  · rw [apart_neg_natCast] at hab hbc
    rw [← neg_add, ← Nat.cast_add, apart_neg_natCast, add_comm]
    exact ahead_add.mpr ⟨b, hbc, hab⟩

/-! ## Steps that go up -/

variable [LinearOrder α]

theorem Ahead.lt (hup : ∀ a b, R a b → a < b) (h : Ahead R (n + 1) a b) : a < b := by
  induction n generalizing a with
  | zero =>
    obtain ⟨x, hx, rfl⟩ := h
    exact hup _ _ hx
  | succ n ih =>
    obtain ⟨x, hx, hb⟩ := h
    exact (hup _ _ hx).trans (ih hb)

theorem Apart.lt (hR : Relator.BiUnique R) (hup : ∀ a b, R a b → a < b) {x y : ℤ}
    (hab : Apart R x a b) (hac : Apart R y a c) (hxy : x < y) : b < c := by
  have hbc : Apart R (-x + y) b c := (apart_neg.mpr hab).trans hR hac
  obtain ⟨n, hn⟩ := Int.eq_ofNat_of_zero_le (show 0 ≤ -x + y - 1 by omega)
  have hsucc : -x + y = ((n + 1 : ℕ) : ℤ) := by push_cast; omega
  rw [hsucc, apart_natCast] at hbc
  exact hbc.lt hup

end Steps
