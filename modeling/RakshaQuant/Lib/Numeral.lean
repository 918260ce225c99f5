import Mathlib.Algebra.Order.Ring.Nat
import Mathlib.Data.List.Basic
import Mathlib.Data.List.Induction

/-! Decimal numerals in strings: a numeral, padded with zeros or not, determines
its number, and a text ending in a separator and a numeral determines both. -/

namespace Numeral

/-- A numeral of at least `width` digits, padded with zeros. -/
def padded (width n : ℕ) : String :=
  String.ofList (List.replicate (width - (toString n).length) '0') ++ toString n

/-- The number a text of digits stands for. -/
def value (s : String) : ℕ := Nat.ofDigitChars 10 s.toList 0

@[simp] theorem value_padded (width n : ℕ) : value (padded width n) = n := by
  simp [value, padded, Nat.ofDigitChars_append]

theorem padded_injective {width m n : ℕ} (h : padded width m = padded width n) : m = n := by
  rw [← value_padded width m, h, value_padded]

theorem toString_injective {m n : ℕ} (h : toString m = toString n) : m = n := by
  have hvalue : ∀ n : ℕ, value (toString n) = n := fun n => by simp [value]
  rw [← hvalue m, h, hvalue]

/-! ## Padded numerals as texts of digits -/

/-- The list of characters of a padded numeral. -/
theorem toList_padded (width n : ℕ) : (padded width n).toList =
    List.replicate (width - (Nat.toDigits 10 n).length) '0' ++ Nat.toDigits 10 n := by
  simp [padded, ← String.length_toList]

theorem length_padded {width n : ℕ} (hwidth : 0 < width) (hn : n < 10 ^ width) :
    (padded width n).length = width := by
  have hlength : (Nat.toDigits 10 n).length ≤ width :=
    (Nat.length_toDigits_le_iff (by decide) hwidth).mpr hn
  rw [← String.length_toList, toList_padded, List.length_append, List.length_replicate]
  omega

theorem isDigit_padded {width n : ℕ} {c : Char} (hc : c ∈ (padded width n).toList) :
    c.isDigit = true := by
  rw [toList_padded, List.mem_append, List.mem_replicate] at hc
  cases hc with
  | inl hzero => rw [hzero.2]; rfl
  | inr hdigit => exact Nat.isDigit_of_mem_toDigits (by decide) (by decide) hdigit

theorem toNat_of_isDigit {c : Char} (hc : c.isDigit = true) : 48 ≤ c.toNat ∧ c.toNat ≤ 57 := by
  simpa [Char.isDigit, UInt32.le_iff_toNat_le] using hc

/-- A digit is the figure of a number below ten. -/
theorem digitChar_of_isDigit {c : Char} (hc : c.isDigit = true) :
    ∃ d < 10, c.toNat - '0'.toNat = d ∧ Nat.toDigits 10 d = [c] := by
  have hrange := toNat_of_isDigit hc
  have hlt : c.toNat - 48 < 10 := by omega
  have hsame : (c.toNat - 48).digitChar = c := by
    apply Char.toNat_inj.mp
    rw [Nat.toNat_digitChar_of_lt_ten hlt]
    omega
  exact ⟨c.toNat - 48, hlt, rfl, by rw [Nat.toDigits_of_lt_base hlt, hsame]⟩

/-- A text of digits is the numeral of its number, padded to the text's length. -/
theorem padded_value {l : List Char} (hne : l ≠ []) (hl : ∀ c ∈ l, c.isDigit = true) :
    (padded l.length (Nat.ofDigitChars 10 l 0)).toList = l := by
  induction l using List.reverseRecOn with
  | nil => exact absurd rfl hne
  | append_singleton l c ih =>
    obtain ⟨d, hd, hvalue, hfigure⟩ := digitChar_of_isDigit (hl c (by simp))
    have hih : l ≠ [] → (padded l.length (Nat.ofDigitChars 10 l 0)).toList = l :=
      fun h => ih h (fun a ha => hl a (by simp [ha]))
    have htotal : Nat.ofDigitChars 10 (l ++ [c]) 0 = 10 * Nat.ofDigitChars 10 l 0 + d := by
      rw [Nat.ofDigitChars_append, Nat.ofDigitChars_cons, Nat.ofDigitChars_nil, hvalue]
    rw [htotal, toList_padded, List.length_append, List.length_singleton]
    cases hl₀ : l with
    | nil => simp [hfigure]
    | cons a rest =>
      rw [← hl₀]
      have hprev := hih (by rw [hl₀]; exact List.cons_ne_nil a rest)
      rw [toList_padded] at hprev
      by_cases hzero : Nat.ofDigitChars 10 l 0 = 0
      · -- only zeros before: they are all padding
        rw [hzero, Nat.toDigits_zero, ← List.replicate_succ'] at hprev
        have hlength : l.length - ['0'].length + 1 = l.length := by simp [hl₀]
        rw [hlength] at hprev
        rw [hzero, Nat.mul_zero, Nat.zero_add, hfigure, List.length_singleton,
          Nat.add_sub_cancel, hprev]
      · rw [← Nat.toDigits_append_toDigits (by decide) (Nat.pos_of_ne_zero hzero) hd, hfigure,
          List.length_append, List.length_singleton, Nat.add_sub_add_right, ← List.append_assoc,
          hprev]

/-- A text of digits stands for a number of at most that many digits. -/
theorem value_lt {l : List Char} (hne : l ≠ []) (hl : ∀ c ∈ l, c.isDigit = true) :
    Nat.ofDigitChars 10 l 0 < 10 ^ l.length := by
  have hlength := congrArg List.length (padded_value hne hl)
  rw [toList_padded, List.length_append, List.length_replicate] at hlength
  apply (Nat.length_toDigits_le_iff (by decide) (List.length_pos_of_ne_nil hne)).mp
  omega

/-- Texts of digits of one length are ordered as their numbers. -/
theorem lt_of_value_lt {l l' : List Char} (hlength : l.length = l'.length)
    (hl : ∀ c ∈ l, c.isDigit = true) (hl' : ∀ c ∈ l', c.isDigit = true)
    (h : Nat.ofDigitChars 10 l 0 < Nat.ofDigitChars 10 l' 0) : l < l' := by
  induction l generalizing l' with
  | nil =>
    obtain rfl := List.length_eq_zero_iff.mp hlength.symm
    exact absurd h (lt_irrefl _)
  | cons a l ih =>
    cases l' with
    | nil => cases hlength
    | cons b l' =>
      obtain ⟨d, -, hd, -⟩ := digitChar_of_isDigit (hl a List.mem_cons_self)
      obtain ⟨e, -, he, -⟩ := digitChar_of_isDigit (hl' b List.mem_cons_self)
      have hrest : ∀ c ∈ l, c.isDigit = true := fun c hc => hl c (List.mem_cons_of_mem _ hc)
      have hrest' : ∀ c ∈ l', c.isDigit = true := fun c hc => hl' c (List.mem_cons_of_mem _ hc)
      have hlengths : l.length = l'.length := by simpa using hlength
      rw [Nat.ofDigitChars_cons, Nat.ofDigitChars_cons, Nat.mul_zero, Nat.zero_add, Nat.zero_add, hd,
        he, Nat.ofDigitChars_eq_ofDigitChars_zero, Nat.ofDigitChars_eq_ofDigitChars_zero (l := l'),
        hlengths] at h
      have hsmall : Nat.ofDigitChars 10 l' 0 < 10 ^ l'.length := by
        cases hempty : l' with
        | nil => simp
        | cons c t => exact value_lt (List.cons_ne_nil c t) (hempty ▸ hrest')
      have ha := toNat_of_isDigit (hl a List.mem_cons_self)
      have hb := toNat_of_isDigit (hl' b List.mem_cons_self)
      have hzero : '0'.toNat = 48 := rfl
      rw [List.cons_lt_cons_iff]
      rcases lt_trichotomy d e with hlt | rfl | hgt
      · left
        rw [Char.lt_def, UInt32.lt_iff_toNat_lt]
        show a.toNat < b.toNat
        omega
      · right
        have hsame : a.toNat = b.toNat := by omega
        exact ⟨Char.toNat_inj.mp hsame, ih hlengths hrest hrest' (by omega)⟩
      · -- a larger first digit outweighs the rest
        have hmul : 10 ^ l'.length * (e + 1) ≤ 10 ^ l'.length * d := Nat.mul_le_mul_left _ hgt
        rw [Nat.mul_add, Nat.mul_one] at hmul
        omega

theorem padded_lt {width m n : ℕ} (hwidth : 0 < width) (hmn : m < n) (hn : n < 10 ^ width) :
    padded width m < padded width n := by
  have hlength : ∀ k, k < 10 ^ width → (padded width k).toList.length = width := fun k hk => by
    rw [String.length_toList]
    exact length_padded hwidth hk
  have hvalue : ∀ k, Nat.ofDigitChars 10 (padded width k).toList 0 = k := value_padded width
  refine String.lt_iff.mpr (lt_of_value_lt ?_ (fun _ => isDigit_padded) (fun _ => isDigit_padded) ?_)
  · rw [hlength m (hmn.trans hn), hlength n hn]
  · rw [hvalue, hvalue]
    exact hmn

/-! ## Numerals behind a separator -/

/-- What ends in a separator and then elements of another kind splits there. -/
theorem split_last {α : Type*} {p : α → Bool} {l₁ l₂ d₁ d₂ : List α} {c : α} (hc : p c = false)
    (h₁ : ∀ a ∈ d₁, p a = true) (h₂ : ∀ a ∈ d₂, p a = true)
    (h : l₁ ++ c :: d₁ = l₂ ++ c :: d₂) : l₁ = l₂ ∧ d₁ = d₂ := by
  have hrev : ∀ l d : List α, (l ++ c :: d).reverse = d.reverse ++ c :: l.reverse := by simp
  have htake : ∀ l d : List α, (∀ a ∈ d, p a = true) →
      (l ++ c :: d).reverse.takeWhile p = d.reverse := by
    intro l d hd
    rw [hrev, List.takeWhile_append_of_pos (by simpa using hd)]
    simp [hc]
  have hd : d₁ = d₂ := by
    have := htake l₁ d₁ h₁
    rw [h, htake l₂ d₂ h₂] at this
    exact (List.reverse_injective this).symm
  subst hd
  exact ⟨List.append_cancel_right h, rfl⟩

/-- What begins with elements of another kind and then a separator splits there. -/
theorem split_first {α : Type*} {p : α → Bool} {l₁ l₂ d₁ d₂ : List α} {c : α} (hc : p c = false)
    (h₁ : ∀ a ∈ d₁, p a = true) (h₂ : ∀ a ∈ d₂, p a = true)
    (h : d₁ ++ c :: l₁ = d₂ ++ c :: l₂) : d₁ = d₂ ∧ l₁ = l₂ := by
  have hrev : ∀ d l : List α, (d ++ c :: l).reverse = l.reverse ++ c :: d.reverse := by simp
  have hreversed : l₁.reverse ++ c :: d₁.reverse = l₂.reverse ++ c :: d₂.reverse := by
    rw [← hrev, h, hrev]
  obtain ⟨hl, hd⟩ := split_last hc (by simpa using h₁) (by simpa using h₂) hreversed
  exact ⟨List.reverse_injective hd, List.reverse_injective hl⟩

/-- A text, a separator that does not end in a digit, and a numeral. -/
theorem tagged_injective {s t sep : String} (rest : List Char) (c : Char) {m n : ℕ}
    (hsep : sep.toList = rest ++ [c]) (hc : c.isDigit = false)
    (h : s ++ sep ++ toString m = t ++ sep ++ toString n) : s = t ∧ m = n := by
  have hdigits : ∀ n : ℕ, ∀ a ∈ (toString n).toList, a.isDigit = true := by
    intro n a ha
    rw [Nat.toString_eq_repr, Nat.toList_repr] at ha
    exact Nat.isDigit_of_mem_toDigits (by decide) (by decide) ha
  have hlists : (s.toList ++ rest) ++ c :: (toString m).toList =
      (t.toList ++ rest) ++ c :: (toString n).toList := by
    have := congrArg String.toList h
    simpa only [String.toList_append, hsep, List.append_assoc, List.singleton_append] using this
  obtain ⟨hs, hn⟩ := split_last hc (hdigits m) (hdigits n) hlists
  exact ⟨String.toList_inj.mp (List.append_cancel_right hs),
    toString_injective (String.toList_inj.mp hn)⟩

end Numeral
