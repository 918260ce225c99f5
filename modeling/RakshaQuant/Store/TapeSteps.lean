import RakshaQuant.Store.PartFiles

/-! Single steps on the tape directory, seen from one stream: the next number is above
every number in use, so is a compaction's stamp, and a path belongs to one stream at
most, so that what is done to another stream or to a temporary file is not seen. -/

namespace RakshaQuant

namespace Tape

variable {files files' : Files} {key other : Key} {n k : ℕ}

/-! ## Numbers -/

theorem mem_allParts_of_part (h : (view files key).part n ≠ none) (hn : n < limit) :
    (n, partName key.2 n) ∈ allParts files key := by
  refine mem_allParts.mpr ⟨?_, rfl, hn⟩
  intro hnone
  exact h (by simp [view, hnone])

theorem part_ne_none {part : ℕ × String} (h : part ∈ allParts files key) :
    (view files key).part part.1 ≠ none := by
  simp [view, (mem_allParts.mp h).1]

theorem nextPart_le (h : (view files key).Within n) : nextPart files key ≤ n + 1 := by
  have hlast : lastNumber (allParts files key) ≤ n := by
    by_cases hparts : allParts files key = []
    · simp [hparts, lastNumber]
    · obtain ⟨part, hpart, heq⟩ := exists_lastNumber hparts
      rw [← heq]
      exact h.2 part.1 (part_ne_none hpart)
  have hstamp : compactedMaxPart files key ≤ n := h.1
  rw [nextPart]
  omega

/-- The next number is above every number in use. -/
theorem within_before_nextPart (h : (view files key).Within n) (hn : n < limit) :
    (view files key).Within (nextPart files key - 1) := by
  refine ⟨?_, fun m hm => ?_⟩
  · show compactedMaxPart files key ≤ nextPart files key - 1
    rw [nextPart]
    omega
  · have hmem := mem_allParts_of_part hm (Nat.lt_of_le_of_lt (h.2 m hm) hn)
    have hlast := le_lastNumber (pairwise_allParts files key) hmem
    rw [nextPart]
    omega

/-- The stamp of a compaction is above every number in use, and is in use. -/
theorem within_lastNumber (h : (view files key).Within n) (hn : n < limit)
    (hparts : liveParts files key ≠ []) :
    (view files key).Within (lastNumber (liveParts files key)) ∧
      lastNumber (liveParts files key) ≤ n := by
  obtain ⟨last, hlast, heq⟩ := exists_lastNumber hparts
  obtain ⟨hmem, hlive⟩ := List.mem_filter.mp hlast
  have habsorbed : compactedMaxPart files key < last.1 := of_decide_eq_true hlive
  have hsorted : (liveParts files key).Pairwise byNumber := (pairwise_allParts files key).filter _
  rw [← heq]
  refine ⟨⟨habsorbed.le, fun m hm => ?_⟩, h.2 last.1 (part_ne_none hmem)⟩
  by_cases hm' : compactedMaxPart files key < m
  · have hm'' := mem_allParts_of_part hm (Nat.lt_of_le_of_lt (h.2 m hm) hn)
    rw [heq]
    exact le_lastNumber hsorted (List.mem_filter.mpr ⟨hm'', decide_eq_true hm'⟩)
  · omega

/-- The numbers in use are seen in the view. -/
theorem nextPart_congr (h : view files' key = view files key) :
    nextPart files' key = nextPart files key := by
  have hpart : ∀ n, files'.get? (key.1, partName key.2 n) = none ↔
      files.get? (key.1, partName key.2 n) = none := by
    intro n
    have hsame : (files'.get? (key.1, partName key.2 n)).map File.rows =
        (files.get? (key.1, partName key.2 n)).map File.rows :=
      congrFun (congrArg Segments.part h) n
    rw [← Option.map_eq_none_iff (f := File.rows), hsame, Option.map_eq_none_iff]
  have hheld : held files' key = held files key := by
    funext n
    simp only [held, hpart n]
  have hstamp : compactedMaxPart files' key = compactedMaxPart files key :=
    congrArg Segments.stamp h
  rw [nextPart, nextPart, allParts_eq, allParts_eq, hheld, hstamp]

/-! ## Steps on one stream -/

/-- A path a reading of `key` looks at. -/
def Reads (key : Key) (path : Path) : Prop :=
  path.1 = key.1 ∧ (path.2 = compactedName key.2 ∨ ∃ n, path.2 = partName key.2 n)

theorem reads_part (key : Key) (n : ℕ) : Reads key (key.1, partName key.2 n) :=
  ⟨rfl, .inr ⟨n, rfl⟩⟩

theorem reads_compacted (key : Key) : Reads key (key.1, compactedName key.2) :=
  ⟨rfl, .inl rfl⟩

/-- No path is looked at for two streams. -/
theorem Reads.unique {path : Path} (h : Reads key path) (h' : Reads other path) :
    key = other := by
  obtain ⟨hday, hname⟩ := h
  obtain ⟨hday', hname'⟩ := h'
  have hstream : key.2 = other.2 := by
    cases hname with
    | inl hc =>
      cases hname' with
      | inl hc' => exact compactedName_inj (hc.symm.trans hc')
      | inr hp' =>
        obtain ⟨n, hp'⟩ := hp'
        exact absurd (hp'.symm.trans hc) (partName_ne_compactedName _ _ _)
    | inr hp =>
      obtain ⟨n, hp⟩ := hp
      cases hname' with
      | inl hc' => exact absurd (hp.symm.trans hc') (partName_ne_compactedName _ _ _)
      | inr hp' =>
        obtain ⟨m, hp'⟩ := hp'
        exact (partName_inj (hp.symm.trans hp')).1
  exact Prod.ext (hday.symm.trans hday') hstream

theorem not_reads_tmp (key : Key) (day : Day) (name : String) :
    ¬ Reads key (day, name ++ ".tmp") := by
  rintro ⟨-, hname | ⟨n, hname⟩⟩
  · exact parquet_ne_tmp _ _ hname.symm
  · exact parquet_ne_tmp _ _ hname.symm

/-- A reading depends on the paths it looks at. -/
theorem view_congr (h : ∀ path, Reads key path → files'.get? path = files.get? path) :
    view files' key = view files key := by
  simp only [view, rowsAt, compactedMaxPart, h _ (reads_compacted key),
    fun n => h _ (reads_part key n)]

theorem view_set_other {path : Path} (file : File) (h : ¬ Reads key path) :
    view (files.set path file) key = view files key := by
  apply view_congr
  intro path' hpath'
  have hne : path' ≠ path := fun heq => h (heq ▸ hpath')
  rw [Dict.get?_set, if_neg hne]

theorem view_pop_other {path : Path} (h : ¬ Reads key path) :
    view (files.pop path) key = view files key := by
  apply view_congr
  intro path' hpath'
  have hne : path' ≠ path := fun heq => h (heq ▸ hpath')
  rw [Dict.get?_pop, if_neg hne]

theorem part_path_ne (key : Key) {n m : ℕ} (h : m ≠ n) :
    (key.1, partName key.2 m) ≠ (key.1, partName key.2 n) :=
  fun heq => h (partName_inj (congrArg Prod.snd heq)).2

theorem compacted_path_ne (key : Key) (n : ℕ) :
    (key.1, compactedName key.2) ≠ (key.1, partName key.2 n) :=
  fun heq => partName_ne_compactedName _ _ _ (congrArg Prod.snd heq).symm

/-- A new part file. -/
theorem view_set_part (rows : List Row) : view
    (files.set (key.1, partName key.2 n) ⟨rows, none⟩) key = (view files key).add n rows := by
  have hpart : ∀ m, ((files.set (key.1, partName key.2 n) ⟨rows, none⟩).get?
      (key.1, partName key.2 m)).map File.rows =
        Function.update (view files key).part n (some rows) m := by
    intro m
    by_cases hm : m = n
    · subst hm
      simp
    · rw [Dict.get?_set_ne _ _ (part_path_ne key hm), Function.update_of_ne hm]
      rfl
  simp only [view, rowsAt, compactedMaxPart, Segments.add,
    Dict.get?_set_ne _ _ (compacted_path_ne key n), hpart]

/-- A part file that is deleted. -/
theorem view_pop_part : view (files.pop (key.1, partName key.2 n)) key =
    (view files key).remove n := by
  have hpart : ∀ m, ((files.pop (key.1, partName key.2 n)).get?
      (key.1, partName key.2 m)).map File.rows =
        Function.update (view files key).part n none m := by
    intro m
    by_cases hm : m = n
    · subst hm
      simp
    · rw [Dict.get?_pop, if_neg (part_path_ne key hm), Function.update_of_ne hm]
      rfl
  have hcompacted : (files.pop (key.1, partName key.2 n)).get? (key.1, compactedName key.2) =
      files.get? (key.1, compactedName key.2) := by
    rw [Dict.get?_pop, if_neg (compacted_path_ne key n)]
  simp only [view, rowsAt, compactedMaxPart, Segments.remove, hcompacted, hpart]

/-- A new compacted file. -/
theorem view_set_compacted (rows : List Row) (m : ℕ) : view
    (files.set (key.1, compactedName key.2) ⟨rows, some m⟩) key =
      { view files key with base := rows, stamp := m } := by
  have hpart : ∀ n, (files.set (key.1, compactedName key.2) ⟨rows, some m⟩).get?
      (key.1, partName key.2 n) = files.get? (key.1, partName key.2 n) :=
    fun n => Dict.get?_set_ne _ _ (compacted_path_ne key n).symm
  simp only [view, rowsAt, compactedMaxPart, Dict.get?_set_self, hpart]
  rfl

end Tape

end RakshaQuant
