import RakshaQuant.Domain.Json
import RakshaQuant.Llm.Durations

/-! The hallucination check: every claim of a model cites a path into the data it was given. A
reference is supported exactly when the steps it spells lead to something in that data. -/

namespace RakshaQuant

namespace Json

/-! ## What is in some data -/

/-- A step into a value. -/
inductive Step
  | key (name : String)
  | index (i : ℕ)

/-- The value that steps lead to. -/
inductive At : Json → List Step → Json → Prop
  | here (data : Json) : At data [] data
  | key {fields : List (String × Json)} {name : String} {value target : Json} {steps : List Step}
      (mem : (name, value) ∈ fields) (rest : At value steps target) :
      At (.obj fields) (.key name :: steps) target
  | index {items : List Json} {i : ℕ} {value target : Json} {steps : List Step}
      (get : items[i]? = some value) (rest : At value steps target) :
      At (.arr items) (.index i :: steps) target

/-- A path with one step more. -/
def extend (path : List Char) : Step → List Char
  | .key name => if path = [] then name.toList else path ++ '.' :: name.toList
  | .index i => path ++ '[' :: (toString i).toList ++ [']']

/-- How steps are spelt. -/
def spell (steps : List Step) : List Char := steps.foldl extend []

mutual

/-- `key_paths`. -/
def keyPaths (path : List Char) : Json → List (List Char)
  | obj fields => fieldPaths path fields
  | arr items => itemPaths path 0 items
  | null | bool _ | num _ | str _ => []

def fieldPaths (path : List Char) : List (String × Json) → List (List Char)
  | [] => []
  | (name, value) :: fields =>
    let inner := extend path (.key name)
    inner :: keyPaths inner value ++ fieldPaths path fields

def itemPaths (path : List Char) (i : ℕ) : List Json → List (List Char)
  | [] => []
  | value :: items =>
    let inner := extend path (.index i)
    inner :: keyPaths inner value ++ itemPaths path (i + 1) items

end

/-- What a path of `key_paths` comes from, below some path. -/
def Reaches (path : List Char) (data : Json) (spelt : List Char) : Prop :=
  ∃ step steps target, data.At (step :: steps) target ∧ spelt = (step :: steps).foldl extend path

/-- Below a step there is the step, and what can be reached from there. -/
theorem reaches_below {path spelt : List Char} {value : Json} {step : Step}
    (h : spelt = extend path step ∨ Reaches (extend path step) value spelt) :
    ∃ steps target, value.At steps target ∧ spelt = (step :: steps).foldl extend path := by
  rcases h with rfl | ⟨next, steps, target, hat, rfl⟩
  · exact ⟨[], value, .here value, rfl⟩
  · exact ⟨next :: steps, target, hat, rfl⟩

theorem below_reaches {path : List Char} {value target : Json} {step : Step} {steps : List Step}
    (h : value.At steps target) :
    (step :: steps).foldl extend path = extend path step ∨
      Reaches (extend path step) value ((step :: steps).foldl extend path) := by
  cases steps with
  | nil => exact .inl rfl
  | cons next steps => exact .inr ⟨next, steps, target, h, rfl⟩

theorem unreached {path spelt : List Char} {data : Json} (hnone : keyPaths path data = [])
    (h : ∀ step steps target, ¬data.At (step :: steps) target) :
    spelt ∈ keyPaths path data ↔ Reaches path data spelt := by
  rw [hnone]
  exact iff_of_false List.not_mem_nil fun ⟨step, steps, target, hat, _⟩ => h step steps target hat

mutual

/-- The paths are the spellings of the steps that lead somewhere. -/
theorem mem_keyPaths (path spelt : List Char) :
    ∀ data : Json, spelt ∈ keyPaths path data ↔ Reaches path data spelt
  | .obj fields => by
    rw [keyPaths, mem_fieldPaths path spelt fields]
    constructor
    · rintro ⟨name, value, hmem, h⟩
      obtain ⟨steps, target, hat, rfl⟩ := reaches_below h
      exact ⟨.key name, steps, target, .key hmem hat, rfl⟩
    · rintro ⟨step, steps, target, hat, rfl⟩
      cases hat with
      | key hmem hrest => exact ⟨_, _, hmem, below_reaches hrest⟩
  | .arr items => by
    rw [keyPaths, mem_itemPaths path spelt 0 items]
    constructor
    · rintro ⟨i, value, hget, h⟩
      obtain ⟨steps, target, hat, rfl⟩ := reaches_below h
      exact ⟨.index (0 + i), steps, target, .index (by rwa [Nat.zero_add]) hat, rfl⟩
    · rintro ⟨step, steps, target, hat, rfl⟩
      cases hat with
      | @index _ i _ _ _ hget hrest =>
        refine ⟨i, _, hget, ?_⟩
        rw [Nat.zero_add]
        exact below_reaches hrest
  | .null => unreached (by rw [keyPaths]) fun _ _ _ h => by cases h
  | .bool _ => unreached (by rw [keyPaths]) fun _ _ _ h => by cases h
  | .num _ => unreached (by rw [keyPaths]) fun _ _ _ h => by cases h
  | .str _ => unreached (by rw [keyPaths]) fun _ _ _ h => by cases h

theorem mem_fieldPaths (path spelt : List Char) : ∀ fields : List (String × Json),
    spelt ∈ fieldPaths path fields ↔ ∃ name value, (name, value) ∈ fields ∧
      (spelt = extend path (.key name) ∨ Reaches (extend path (.key name)) value spelt)
  | [] => by simp [fieldPaths]
  | (name, value) :: fields => by
    rw [fieldPaths, List.mem_append, List.mem_cons, mem_keyPaths, mem_fieldPaths path spelt fields]
    constructor
    · rintro (h | ⟨name', value', hmem, h⟩)
      · exact ⟨name, value, List.mem_cons_self, h⟩
      · exact ⟨name', value', List.mem_cons_of_mem _ hmem, h⟩
    · rintro ⟨name', value', hmem, h⟩
      rcases List.mem_cons.mp hmem with hself | hrest
      · cases hself
        exact .inl h
      · exact .inr ⟨name', value', hrest, h⟩

theorem mem_itemPaths (path spelt : List Char) : ∀ (start : ℕ) (items : List Json),
    spelt ∈ itemPaths path start items ↔ ∃ i value, items[i]? = some value ∧
      (spelt = extend path (.index (start + i)) ∨
        Reaches (extend path (.index (start + i))) value spelt)
  | _, [] => by simp [itemPaths]
  | n, value :: items => by
    rw [itemPaths, List.mem_append, List.mem_cons, mem_keyPaths, mem_itemPaths path spelt (n + 1) items]
    constructor
    · rintro (h | ⟨i, value', hget, h⟩)
      · exact ⟨0, value, rfl, h⟩
      · exact ⟨i + 1, value', hget, by rwa [Nat.add_right_comm] at h⟩
    · rintro ⟨i, value', hget, h⟩
      cases i with
      | zero =>
        cases hget
        exact .inl h
      | succ i => exact .inr ⟨i, value', hget, by rwa [Nat.add_right_comm]⟩

end

end Json

/-! ## References -/

namespace Evidence

open Json

variable (u : Unicode)

/-- `str.strip` of one character. -/
def stripChar (c : Char) (text : List Char) : List Char :=
  ((text.dropWhile (· = c)).reverse.dropWhile (· = c)).reverse

/-- A part after a point: all digits are an index. -/
def bracket (part : List Char) : List Char :=
  if part ≠ [] ∧ part.all u.isDecimal then '[' :: part ++ [']'] else '.' :: part

/-- `re.sub(r"\.(\d+)(?=\.|$)", r"[\1]", ref)`: what matches is a point and the whole part after
it. -/
def brackets (ref : List Char) : List Char :=
  match ref.splitOn '.' with
  | [] => []
  | head :: parts => head ++ parts.flatMap (bracket u)

def normalise (ref : List Char) : List Char :=
  brackets u (u.strip (stripChar '`' (u.strip ref)))

/-- The references that point at nothing in the data. -/
def unsupported (refs : List String) (data : Json) : List String :=
  refs.filter fun ref => normalise u ref.toList ∉ keyPaths [] data

/-- The reference spells steps that lead to something in the data. -/
def Grounded (data : Json) (ref : String) : Prop :=
  ∃ step steps target, data.At (step :: steps) target ∧
    normalise u ref.toList = spell (step :: steps)

theorem unsupported_nil_iff {refs : List String} {data : Json} :
    unsupported u refs data = [] ↔ ∀ ref ∈ refs, Grounded u data ref := by
  unfold unsupported
  rw [List.filter_eq_nil_iff]
  refine forall₂_congr fun ref _ => ?_
  rw [decide_eq_true_iff, not_not, mem_keyPaths]
  rfl

end Evidence

end RakshaQuant
