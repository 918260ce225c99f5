import Mathlib.Data.List.Infix
import Mathlib.Data.List.Sort

/-! Logs whose entries are numbered in increasing order: the entries up to a
number, those after it, and reading on from where a reader stands. -/

namespace Log

variable {α : Type*} (seq : α → ℕ)

def InOrder (l : List α) : Prop := l.Pairwise fun a b => seq a < seq b

def upTo (n : ℕ) (l : List α) : List α := l.filter fun a => seq a ≤ n

def after (n : ℕ) (l : List α) : List α := l.filter fun a => n < seq a

/-- The number of the last entry, 0 of none. -/
def last (l : List α) : ℕ := (l.getLast?.map seq).getD 0

section filters

variable (l : List α) {m n : ℕ}

theorem upTo_upTo (h : m ≤ n) : upTo seq m (upTo seq n l) = upTo seq m l := by
  unfold upTo
  rw [List.filter_filter]
  apply List.filter_congr
  intro a _
  simp only [Bool.and_eq_left_iff_imp, decide_eq_true_eq]
  omega

theorem after_after (h : m ≤ n) : after seq n (after seq m l) = after seq n l := by
  unfold after
  rw [List.filter_filter]
  apply List.filter_congr
  intro a _
  simp only [Bool.and_eq_left_iff_imp, decide_eq_true_eq]
  omega

theorem upTo_after (m n : ℕ) : upTo seq n (after seq m l) = after seq m (upTo seq n l) := by
  unfold upTo after
  rw [List.filter_filter, List.filter_filter]
  simp only [Bool.and_comm]

theorem after_upTo_of_le (h : n ≤ m) : after seq m (upTo seq n l) = [] := by
  unfold upTo after
  rw [List.filter_filter, List.filter_eq_nil_iff]
  intro a _
  simp only [Bool.and_eq_true, decide_eq_true_eq]
  omega

theorem upTo_concat {x : α} (h : n < seq x) : upTo seq n (l ++ [x]) = upTo seq n l := by
  simp [upTo, h]

theorem after_concat (n : ℕ) (x : α) : after seq n l <+: after seq n (l ++ [x]) := by
  unfold after
  rw [List.filter_append]
  exact List.prefix_append _ _

end filters

namespace InOrder

variable {seq} {l : List α} {m n : ℕ}

theorem upTo (h : InOrder seq l) (n : ℕ) : InOrder seq (upTo seq n l) :=
  h.sublist List.filter_sublist

theorem after (h : InOrder seq l) (n : ℕ) : InOrder seq (after seq n l) :=
  h.sublist List.filter_sublist

/-- A number has one entry. -/
theorem eq_of_seq (h : InOrder seq l) {a b : α} (ha : a ∈ l) (hb : b ∈ l) (hab : seq a = seq b) :
    a = b := by
  have hnodup : (l.map seq).Nodup := List.pairwise_map.mpr (h.imp fun hlt => hlt.ne)
  exact List.inj_on_of_nodup_map hnodup ha hb hab

/-- Logs with the same entries are the same. -/
theorem ext {l' : List α} (h : InOrder seq l) (h' : InOrder seq l') (hmem : ∀ a, a ∈ l ↔ a ∈ l') :
    l = l' := by
  have hirrefl : Std.Irrefl fun a b : α => seq a < seq b := ⟨fun a => lt_irrefl (seq a)⟩
  have hanti : Std.Antisymm fun a b : α => seq a < seq b :=
    ⟨fun _ _ hab hba => absurd hab hba.not_gt⟩
  exact List.Pairwise.eq_of_mem_iff h h' hmem

/-- The entries up to a number come first. -/
theorem split (h : InOrder seq l) (n : ℕ) : Log.upTo seq n l ++ Log.after seq n l = l := by
  induction l with
  | nil => rfl
  | cons a rest ih =>
    obtain ⟨hlater, hrest⟩ := List.pairwise_cons.mp h
    by_cases ha : seq a ≤ n
    · have hnot : ¬n < seq a := by omega
      have hih := ih hrest
      simp only [Log.upTo, Log.after] at hih ⊢
      simp [ha, hnot, hih]
    · have hall : ∀ b ∈ rest, ¬seq b ≤ n := by
        intro b hb
        have := hlater b hb
        omega
      have hup : Log.upTo seq n (a :: rest) = [] := by
        simp [Log.upTo, ha] at hall ⊢
        exact hall
      have hafter : Log.after seq n (a :: rest) = a :: rest := by
        simp [Log.after] at hall ⊢
        exact ⟨by omega, hall⟩
      rw [hup, hafter, List.nil_append]

/-- A reader that has come to a number reads on from there. -/
theorem upTo_after_append (h : InOrder seq l) (hmn : m ≤ n) :
    Log.upTo seq m l ++ Log.after seq m (Log.upTo seq n l) = Log.upTo seq n l := by
  have hsplit := (h.upTo n).split m
  rwa [upTo_upTo seq l hmn] at hsplit

theorem after_append {k : ℕ} (h : InOrder seq l) (hkm : k ≤ m) (hmn : m ≤ n) :
    Log.after seq k (Log.upTo seq m l) ++ Log.after seq m (Log.upTo seq n l) =
      Log.after seq k (Log.upTo seq n l) := by
  have hsplit := ((h.upTo n).after k).split m
  rwa [upTo_after, upTo_upTo seq l hmn, after_after seq _ hkm] at hsplit

theorem upTo_prefix (h : InOrder seq l) (n : ℕ) : Log.upTo seq n l <+: l :=
  ⟨Log.after seq n l, h.split n⟩

theorem le_last (h : InOrder seq l) {a : α} (ha : a ∈ l) : seq a ≤ last seq l := by
  induction l generalizing a with
  | nil => cases ha
  | cons b rest ih =>
    obtain ⟨hlater, hrest⟩ := List.pairwise_cons.mp h
    cases rest with
    | nil =>
      rw [List.mem_singleton.mp ha]
      exact le_rfl
    | cons c more =>
      have hlast : last seq (b :: c :: more) = last seq (c :: more) := by simp [last]
      rw [hlast]
      rcases List.mem_cons.mp ha with rfl | ha
      · exact (hlater c List.mem_cons_self).le.trans (ih hrest List.mem_cons_self)
      · exact ih hrest ha

theorem concat (h : InOrder seq l) {x : α} (hx : last seq l < seq x) : InOrder seq (l ++ [x]) := by
  refine List.pairwise_append.mpr ⟨h, List.pairwise_singleton _ _, fun a ha b hb => ?_⟩
  rw [List.mem_singleton.mp hb]
  exact (h.le_last ha).trans_lt hx

/-- What is read next is the next entry, and the rest is read after it. -/
theorem next (h : InOrder seq l) {a : α} {rest : List α} (ha : a :: rest <+: Log.after seq n l) :
    Log.after seq n (Log.upTo seq (seq a) l) = [a] ∧ rest <+: Log.after seq (seq a) l := by
  obtain ⟨more, hmore⟩ := ha
  have horder := h.after n
  rw [← hmore, List.cons_append] at horder
  obtain ⟨hlater, -⟩ := List.pairwise_cons.mp horder
  have hmem : a ∈ Log.after seq n l := by simp [← hmore]
  have hn : n ≤ seq a := by
    have := (List.mem_filter.mp hmem).2
    simp only [decide_eq_true_eq] at this
    exact this.le
  rw [← upTo_after, ← after_after seq l hn, ← hmore]
  have hup : Log.upTo seq (seq a) (a :: rest ++ more) = [a] := by
    simp only [Log.upTo, List.cons_append, List.filter_cons, le_refl, decide_true, if_true]
    rw [List.filter_eq_nil_iff.mpr]
    intro b hb
    have := hlater b hb
    simpa using this
  have hafter : Log.after seq (seq a) (a :: rest ++ more) = rest ++ more := by
    simp only [Log.after, List.cons_append, List.filter_cons, lt_irrefl, decide_false,
      Bool.false_eq_true, if_false]
    rw [List.filter_eq_self.mpr]
    intro b hb
    simpa using hlater b hb
  rw [hup, hafter]
  exact ⟨rfl, List.prefix_append _ _⟩

/-- What is read, and is not empty, is what is after the number up to its own last one. -/
theorem read (h : InOrder seq l) {read : List α} (hread : read <+: Log.after seq n l)
    (hne : read ≠ []) :
    n ≤ last seq read ∧ Log.after seq n (Log.upTo seq (last seq read) l) = read := by
  induction read generalizing n with
  | nil => exact absurd rfl hne
  | cons a rest ih =>
    obtain ⟨hfirst, hrest⟩ := h.next hread
    have hn : n < seq a := by
      have hmem : a ∈ Log.after seq n l := hread.subset List.mem_cons_self
      simpa using (List.mem_filter.mp hmem).2
    cases rest with
    | nil => exact ⟨hn.le, hfirst⟩
    | cons b more =>
      have hlast : last seq (a :: b :: more) = last seq (b :: more) := by simp [last]
      obtain ⟨hle, heq⟩ := ih hrest (by simp)
      rw [hlast, ← h.after_append hn.le hle, hfirst, heq]
      exact ⟨hn.le.trans hle, rfl⟩

/-- Where the next entry lies beyond a number, nothing is left up to it. -/
theorem passed (h : InOrder seq l) {a : α} {rest : List α} (ha : a :: rest <+: Log.after seq m l)
    (hn : n < seq a) : Log.after seq m (Log.upTo seq n l) = [] := by
  obtain ⟨hfirst, -⟩ := h.next ha
  rw [← upTo_upTo seq l hn.le, ← upTo_after, hfirst]
  simp [Log.upTo, hn]

end InOrder

end Log
