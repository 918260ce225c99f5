import Mathlib.Data.List.Infix

/-! Replacing a pattern in a text, and cutting a text at a pattern. The first element of the patterns
here stands nowhere else in them, as the `<` of a tag: then no occurrence overlaps another, and a
replaced pattern does not come up again. -/

namespace Replace

variable {α : Type*} [DecidableEq α]

/-- The text after `k` more elements of a replaced pattern. -/
def replaceFrom (old new : List α) : ℕ → List α → List α
  | _, [] => []
  | 0, c :: rest =>
    if old <+: c :: rest then new ++ replaceFrom old new (old.length - 1) rest
    else c :: replaceFrom old new 0 rest
  | k + 1, _ :: rest => replaceFrom old new k rest

/-- `str.replace`, of a pattern that is not empty. -/
def replace (old new text : List α) : List α := replaceFrom old new 0 text

/-- What stands before the first pattern in a text, and what after it. -/
def cut (p : List α) : List α → Option (List α × List α)
  | [] => none
  | c :: rest =>
    if p <+: c :: rest then some ([], (c :: rest).drop p.length)
    else (cut p rest).map fun parts => (c :: parts.1, parts.2)

variable {a : α} {p n old text : List α}

omit [DecidableEq α] in
/-- A pattern does not begin in a part without its first element. -/
theorem infix_of_append {l : List α} (hn : a ∉ n) (h : a :: p <:+: n ++ l) : a :: p <:+: l := by
  induction n with
  | nil => exact h
  | cons c n ih =>
    rw [List.cons_append, List.infix_cons_iff] at h
    rcases h with h | h
    · exact absurd (List.cons_prefix_cons.mp h).1 (List.ne_of_not_mem_cons hn)
    · exact ih (List.not_mem_of_not_mem_cons hn) h

omit [DecidableEq α] in
/-- A part without the first element of a pattern ends before the pattern. -/
theorem prefix_of_append {s l r : List α} (hs : a ∉ s) (h : s <+: l ++ a :: r) : s <+: l := by
  induction l generalizing s with
  | nil =>
    rcases List.prefix_cons_iff.mp h with rfl | ⟨t, rfl, -⟩
    · exact List.nil_prefix
    · exact absurd List.mem_cons_self hs
  | cons c l ih =>
    rcases List.prefix_cons_iff.mp h with rfl | ⟨t, rfl, ht⟩
    · exact List.nil_prefix
    · exact List.cons_prefix_cons.mpr ⟨rfl, ih (List.not_mem_of_not_mem_cons hs) ht⟩

/-- What begins with nothing new stood there before. -/
theorem prefix_of_replaceFrom {s : List α} (hs : a ∉ s)
    (h : s <+: replaceFrom old (a :: n) 0 text) : s <+: text := by
  induction text generalizing s with
  | nil => exact h
  | cons c rest ih =>
    rw [replaceFrom] at h
    split at h
    · rcases List.prefix_cons_iff.mp h with rfl | ⟨t, rfl, -⟩
      · exact List.nil_prefix
      · exact absurd List.mem_cons_self hs
    · rcases List.prefix_cons_iff.mp h with rfl | ⟨t, rfl, ht⟩
      · exact List.nil_prefix
      · exact List.cons_prefix_cons.mpr ⟨rfl, ih (List.not_mem_of_not_mem_cons hs) ht⟩

theorem absent_replaceFrom (hp : a ∉ p) (hn : a ∉ n) (hnew : ∀ l, ¬a :: p <+: a :: n ++ l) (k : ℕ)
    (h : old = a :: p ∨ ¬a :: p <:+: text) : ¬a :: p <:+: replaceFrom old (a :: n) k text := by
  induction text generalizing k with
  | nil => cases k <;> simp [replaceFrom]
  | cons c rest ih =>
    have hrest : old = a :: p ∨ ¬a :: p <:+: rest :=
      h.imp_right fun habsent hin => habsent (hin.trans (List.suffix_cons c rest).isInfix)
    cases k with
    | succ k => exact ih k hrest
    | zero =>
      rw [replaceFrom]
      split
      · intro hin
        rw [List.cons_append, List.infix_cons_iff] at hin
        rcases hin with hin | hin
        · exact hnew _ hin
        · exact ih _ hrest (infix_of_append hn hin)
      · rename_i hmiss
        intro hin
        rcases List.infix_cons_iff.mp hin with hin | hin
        · -- it would have begun here before
          obtain ⟨rfl, htail⟩ := List.cons_prefix_cons.mp hin
          have hbefore : a :: p <+: a :: rest :=
            List.cons_prefix_cons.mpr ⟨rfl, prefix_of_replaceFrom hp htail⟩
          rcases h with rfl | habsent
          · exact hmiss hbefore
          · exact habsent hbefore.isInfix
        · exact ih 0 hrest hin

/-- A pattern that was replaced does not come up again, and one that was not there does not come
up either. -/
theorem absent_replace (hp : a ∉ p) (hn : a ∉ n) (hnew : ∀ l, ¬a :: p <+: a :: n ++ l)
    (h : old = a :: p ∨ ¬a :: p <:+: text) : ¬a :: p <:+: replace old (a :: n) text :=
  absent_replaceFrom hp hn hnew 0 h

/-- A text is cut where its pattern is written. -/
theorem cut_append (hp : a ∉ p) {body : List α} (hbody : ¬a :: p <:+: body) (rest : List α) :
    cut (a :: p) (body ++ (a :: p ++ rest)) = some (body, rest) := by
  induction body with
  | nil => simp [cut]
  | cons c body ih =>
    have hmiss : ¬a :: p <+: c :: (body ++ (a :: p ++ rest)) := by
      intro hpre
      obtain ⟨rfl, htail⟩ := List.cons_prefix_cons.mp hpre
      have hin : p <+: body := prefix_of_append hp htail
      exact hbody (List.cons_prefix_cons.mpr ⟨rfl, hin⟩).isInfix
    have hrest : ¬a :: p <:+: body := fun hin => hbody (hin.trans (List.suffix_cons c body).isInfix)
    rw [List.cons_append, cut, if_neg hmiss, ih hrest]
    rfl

end Replace
