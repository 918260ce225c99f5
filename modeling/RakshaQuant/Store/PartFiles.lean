import Mathlib.Data.List.Pairwise
import RakshaQuant.Lib.Segments
import RakshaQuant.Store.Tape

/-! The files of a stream as numbered segments. A part's name determines its stream and
its number, a temporary file is neither a part nor a compacted file, so a reading finds
exactly the segments, and each atomic step does to one stream what it says. -/

namespace RakshaQuant

namespace Tape

/-! ## Names -/

theorem toList_partName (s : Stream) (n : ℕ) : (partName s n).toList =
    (s.value ++ ".part-").toList ++ ((Numeral.padded 6 n).toList ++ ".parquet".toList) := by
  simp only [partName, String.toList_append, List.append_assoc]

theorem digitsOf_eq_some {s : Stream} {name : String} {digits : List Char} :
    digitsOf s name = some digits ↔
      name.toList = (s.value ++ ".part-").toList ++ (digits ++ ".parquet".toList) ∧
        digits.length = 6 ∧ ∀ c ∈ digits, c.isDigit = true := by
  simp only [digitsOf, Option.bind_eq_bind, Option.bind_eq_some_iff,
    List.isPrefixOf?_eq_some_iff_append_eq, List.isSuffixOf?_eq_some_iff_append_eq,
    Option.ite_none_right_eq_some, Option.some.injEq, List.all_eq_true]
  constructor
  · rintro ⟨rest, hrest, tail, htail, hdigits, rfl⟩
    exact ⟨by rw [← hrest, ← htail], hdigits⟩
  · intro h
    exact ⟨digits ++ ".parquet".toList, h.1.symm, digits, rfl, h.2, rfl⟩

/-- A name is that of a part exactly when the part's number has six digits. -/
theorem partNumber_eq_some {s : Stream} {name : String} {n : ℕ} :
    partNumber s name = some n ↔ name = partName s n ∧ n < 10 ^ 6 := by
  rw [partNumber, Option.map_eq_some_iff]
  constructor
  · rintro ⟨digits, hdigits, rfl⟩
    obtain ⟨hname, hlength, hall⟩ := digitsOf_eq_some.mp hdigits
    have hne : digits ≠ [] := by
      intro h
      simp [h] at hlength
    have hpadded := Numeral.padded_value hne hall
    refine ⟨?_, Numeral.value_lt hne hall |>.trans_eq (by rw [hlength])⟩
    rw [hlength] at hpadded
    rw [← String.toList_inj, hname, toList_partName, hpadded]
  · rintro ⟨rfl, hn⟩
    have hlength : (Numeral.padded 6 n).toList.length = 6 := by
      rw [String.length_toList, Numeral.length_padded (by decide) hn]
    have hdigits : digitsOf s (partName s n) = some (Numeral.padded 6 n).toList :=
      digitsOf_eq_some.mpr ⟨toList_partName s n, hlength, fun c hc => Numeral.isDigit_padded hc⟩
    exact ⟨(Numeral.padded 6 n).toList, hdigits, Numeral.value_padded 6 n⟩

theorem partName_inj {s s' : Stream} {n n' : ℕ} (h : partName s n = partName s' n') :
    s = s' ∧ n = n' := by
  have hlists := congrArg String.toList h
  rw [toList_partName, toList_partName] at hlists
  have hstream : s = s' := by
    cases s <;> cases s' <;> first | rfl | simp [Stream.value] at hlists
  subst hstream
  have hnumeral := List.append_cancel_right (List.append_cancel_left hlists)
  exact ⟨rfl, Numeral.padded_injective (String.toList_inj.mp hnumeral)⟩

theorem compactedName_inj {s s' : Stream} (h : compactedName s = compactedName s') : s = s' := by
  cases s <;> cases s' <;> first | rfl | exact absurd h (by decide)

theorem partName_ne_compactedName (s s' : Stream) (n : ℕ) : partName s n ≠ compactedName s' := by
  intro h
  have hlists := congrArg String.toList h
  rw [toList_partName] at hlists
  cases s <;> cases s' <;> simp [Stream.value, compactedName] at hlists

/-- A temporary name ends in another letter than the names that are read. -/
theorem parquet_ne_tmp (front other : String) : front ++ ".parquet" ≠ other ++ ".tmp" := by
  intro h
  have hlast := congrArg (fun s => s.toList.getLast?) h
  simp at hlast

/-! ## The parts in order -/

theorem partOf_eq_some {key : Key} {path : Path} {part : ℕ × String} :
    partOf key path = some part ↔
      path = (key.1, partName key.2 part.1) ∧ part.2 = path.2 ∧ part.1 < 10 ^ 6 := by
  obtain ⟨day, name⟩ := path
  obtain ⟨number, file⟩ := part
  rw [partOf]
  by_cases hday : day = key.1
  · simp only [hday, if_true, Option.map_eq_some_iff, partNumber_eq_some, Prod.mk.injEq,
      true_and]
    constructor
    · rintro ⟨n, ⟨hname, hn⟩, rfl, rfl⟩
      exact ⟨hname, rfl, hn⟩
    · rintro ⟨hname, rfl, hn⟩
      exact ⟨number, ⟨hname, hn⟩, rfl, rfl⟩
  · simp [hday]

instance : Std.Total byNumber := ⟨fun a b => Nat.le_total a.1 b.1⟩

instance : IsTrans (ℕ × String) byNumber := ⟨fun _ _ _ => Nat.le_trans⟩

theorem mem_allParts {files : Files} {key : Key} {part : ℕ × String} :
    part ∈ allParts files key ↔ files.get? (key.1, partName key.2 part.1) ≠ none ∧
      part.2 = partName key.2 part.1 ∧ part.1 < 10 ^ 6 := by
  rw [allParts, List.mem_insertionSort, List.mem_filterMap]
  constructor
  · rintro ⟨path, hpath, hpart⟩
    obtain ⟨rfl, hname, hn⟩ := partOf_eq_some.mp hpart
    obtain ⟨file, hfile⟩ := (Dict.mem_keys_iff files).mp hpath
    exact ⟨by simp [hfile], hname, hn⟩
  · rintro ⟨hheld, hname, hn⟩
    obtain ⟨file, hfile⟩ := Option.ne_none_iff_exists'.mp hheld
    exact ⟨_, (Dict.mem_keys_iff files).mpr ⟨file, hfile⟩, partOf_eq_some.mpr ⟨rfl, hname, hn⟩⟩

theorem pairwise_allParts (files : Files) (key : Key) : (allParts files key).Pairwise byNumber :=
  List.pairwise_insertionSort byNumber _

theorem nodup_allParts (files : Files) (key : Key) : (allParts files key).Nodup := by
  rw [allParts, (List.perm_insertionSort _ _).nodup_iff]
  apply List.Nodup.filterMap _ files.nodup_keys
  intro path path' part hpart hpart'
  rw [(partOf_eq_some.mp hpart).1, (partOf_eq_some.mp hpart').1]

/-- The part a number names, when it is there. -/
def held (files : Files) (key : Key) (n : ℕ) : Option (ℕ × String) :=
  if files.get? (key.1, partName key.2 n) = none then none else some (n, partName key.2 n)

theorem held_eq_some {files : Files} {key : Key} {n : ℕ} {part : ℕ × String} :
    held files key n = some part ↔ files.get? (key.1, partName key.2 n) ≠ none ∧
      (n, partName key.2 n) = part := by
  rw [held, Option.ite_none_left_eq_some, Option.some.injEq]

/-- The parts in order are those found when all six-digit numbers are tried in turn. -/
theorem allParts_eq (files : Files) (key : Key) :
    allParts files key = (List.range (10 ^ 6)).filterMap (held files key) := by
  have hmem : ∀ part, part ∈ allParts files key ↔
      part ∈ (List.range (10 ^ 6)).filterMap (held files key) := by
    intro part
    rw [mem_allParts, List.mem_filterMap]
    constructor
    · intro h
      exact ⟨part.1, List.mem_range.mpr h.2.2, held_eq_some.mpr ⟨h.1, Prod.ext rfl h.2.1.symm⟩⟩
    · rintro ⟨n, hn, hpart⟩
      obtain ⟨hheld, rfl⟩ := held_eq_some.mp hpart
      exact ⟨hheld, rfl, List.mem_range.mp hn⟩
  have hsorted : ((List.range (10 ^ 6)).filterMap (held files key)).Pairwise byNumber := by
    rw [List.pairwise_filterMap]
    apply List.pairwise_lt_range.imp
    intro a b hab part hpart part' hpart'
    rw [← (held_eq_some.mp hpart).2, ← (held_eq_some.mp hpart').2]
    exact hab.le
  have hnodup : ((List.range (10 ^ 6)).filterMap (held files key)).Nodup := by
    apply List.Nodup.filterMap _ List.nodup_range
    intro a b part hpart hpart'
    have heq := (held_eq_some.mp hpart).2.trans (held_eq_some.mp hpart').2.symm
    exact congrArg Prod.fst heq
  have hperm := (List.perm_ext_iff_of_nodup (nodup_allParts files key) hnodup).mpr hmem
  apply List.Perm.eq_of_pairwise _ (pairwise_allParts files key) hsorted hperm
  intro a b ha hb hab hba
  -- a number determines its name
  have hnumber : a.1 = b.1 := Nat.le_antisymm hab hba
  have hname := (mem_allParts.mp ha).2.1
  have hname' := (mem_allParts.mp ((hmem b).mpr hb)).2.1
  exact Prod.ext hnumber (by rw [hname, hname', hnumber])

theorem le_lastNumber {parts : List (ℕ × String)} (h : parts.Pairwise byNumber)
    {part : ℕ × String} (hpart : part ∈ parts) : part.1 ≤ lastNumber parts := by
  have : Std.Refl byNumber := ⟨fun a => Nat.le_refl a.1⟩
  have hlast := h.rel_getLast hpart
  rw [lastNumber, List.getLast?_eq_getLast_of_ne_nil (List.ne_nil_of_mem hpart)]
  exact hlast

theorem exists_lastNumber {parts : List (ℕ × String)} (h : parts ≠ []) :
    ∃ part ∈ parts, part.1 = lastNumber parts := by
  refine ⟨parts.getLast h, List.getLast_mem h, ?_⟩
  rw [lastNumber, List.getLast?_eq_getLast_of_ne_nil h]
  rfl

/-! ## A stream as segments -/

/-- What the files hold for `key`. -/
def view (files : Files) (key : Key) : Segments Row where
  base := rowsAt files (key.1, compactedName key.2)
  stamp := compactedMaxPart files key
  part n := (files.get? (key.1, partName key.2 n)).map File.rows

/-- The numbers a part can have. -/
def limit : ℕ := 10 ^ 6

theorem readStream_eq (files : Files) (key : Key) :
    readStream files key = (view files key).read limit := by
  have hlive : ∀ numbers : List ℕ,
      ((numbers.filterMap (held files key)).filter
        fun part => compactedMaxPart files key < part.1).flatMap
          (fun part => rowsAt files (key.1, part.2)) = numbers.flatMap (view files key).live := by
    intro numbers
    induction numbers with
    | nil => rfl
    | cons n rest ih =>
      rw [List.flatMap_cons, ← ih]
      cases hfile : files.get? (key.1, partName key.2 n) with
      | none => simp [held, Segments.live, view, hfile]
      | some file =>
        by_cases hstamp : compactedMaxPart files key < n
        · simp [held, Segments.live, view, hfile, hstamp, rowsAt]
        · simp [held, Segments.live, view, hfile, hstamp]
  rw [readStream, liveParts, allParts_eq, hlive]
  rfl

end Tape

end RakshaQuant
