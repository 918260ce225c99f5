import Mathlib.Algebra.BigOperators.Group.List.Basic
import Mathlib.Algebra.Group.Basic
import Mathlib.Algebra.Order.BigOperators.Group.List
import Mathlib.Data.List.Nodup

/-! Insertion-ordered dictionaries with distinct keys: assignment overwrites in
place and appends a new key at the end. Distinctness is a field, so a lookup, a
membership and a sum over the values always speak about the same entries. -/

namespace Dict

/-- Overwrite the entry at `k`, or append one when `k` is new. -/
def put {κ ν : Type*} [DecidableEq κ] : List (κ × ν) → κ → ν → List (κ × ν)
  | [], k, v => [(k, v)]
  | e :: rest, k, v => if e.1 = k then (k, v) :: rest else e :: put rest k v

/-- Drop the entry at `k`, if any. -/
def drop {κ ν : Type*} [DecidableEq κ] (es : List (κ × ν)) (k : κ) : List (κ × ν) :=
  es.filter (fun e => e.1 ≠ k)

theorem mem_put_keys {κ ν : Type*} [DecidableEq κ] (es : List (κ × ν)) (k k' : κ) (v : ν) :
    k' ∈ (put es k v).map Prod.fst ↔ k' = k ∨ k' ∈ es.map Prod.fst := by
  induction es with
  | nil => simp [put]
  | cons e rest ih =>
    by_cases h : e.1 = k
    · simp only [put, h, if_true, List.map_cons, List.mem_cons]
      tauto
    · simp only [put, h, if_false, List.map_cons, List.mem_cons, ih]
      tauto

theorem nodup_put {κ ν : Type*} [DecidableEq κ] {es : List (κ × ν)} (k : κ) (v : ν)
    (h : (es.map Prod.fst).Nodup) : ((put es k v).map Prod.fst).Nodup := by
  induction es with
  | nil => simp [put]
  | cons e rest ih =>
    simp only [List.map_cons, List.nodup_cons] at h
    by_cases hk : e.1 = k
    · subst hk
      simpa [put] using h
    · simp only [put, hk, if_false, List.map_cons, List.nodup_cons]
      refine ⟨?_, ih h.2⟩
      rw [mem_put_keys]
      rintro (he | he)
      · exact hk he
      · exact h.1 he

theorem nodup_drop {κ ν : Type*} [DecidableEq κ] {es : List (κ × ν)} (k : κ)
    (h : (es.map Prod.fst).Nodup) : ((drop es k).map Prod.fst).Nodup :=
  h.sublist (List.filter_sublist.map _)

end Dict

/-- A dictionary in insertion order. -/
structure Dict (κ ν : Type*) where
  entries : List (κ × ν)
  nodup_keys : (entries.map Prod.fst).Nodup
deriving DecidableEq

namespace Dict

variable {κ ν μ : Type*} [DecidableEq κ]

def empty : Dict κ ν := ⟨[], by simp⟩

def keys (d : Dict κ ν) : List κ := d.entries.map Prod.fst

def values (d : Dict κ ν) : List ν := d.entries.map Prod.snd

def get? (d : Dict κ ν) (k : κ) : Option ν := d.entries.lookup k

def set (d : Dict κ ν) (k : κ) (v : ν) : Dict κ ν := ⟨put d.entries k v, nodup_put k v d.nodup_keys⟩

def pop (d : Dict κ ν) (k : κ) : Dict κ ν := ⟨drop d.entries k, nodup_drop k d.nodup_keys⟩

/-- `setdefault`: keep the entry at `k`, or add `v` there. -/
def setdefault (d : Dict κ ν) (k : κ) (v : ν) : Dict κ ν :=
  match d.get? k with
  | some _ => d
  | none => d.set k v

/-- Change the value at a key, if it has one. -/
def update (d : Dict κ ν) (k : κ) (f : ν → ν) : Dict κ ν :=
  match d.get? k with
  | some v => d.set k (f v)
  | none => d

def ofList (es : List (κ × ν)) : Dict κ ν := es.foldl (fun d e => d.set e.1 e.2) empty

/-! ## Lookups -/

@[simp] theorem get?_empty (k : κ) : (empty : Dict κ ν).get? k = none := rfl

omit [DecidableEq κ] in
@[simp] theorem values_empty : (empty : Dict κ ν).values = [] := rfl

private theorem lookup_cons_ite (e : κ × ν) (es : List (κ × ν)) (k : κ) :
    (e :: es).lookup k = if k = e.1 then some e.2 else es.lookup k := by
  obtain ⟨a, b⟩ := e
  by_cases h : k = a
  · simp [h]
  · have hb : (k == a) = false := by simp [h]
    simp [List.lookup_cons, hb, h]

theorem lookup_put (es : List (κ × ν)) (k k' : κ) (v : ν) :
    (put es k v).lookup k' = if k' = k then some v else es.lookup k' := by
  induction es with
  | nil => simp [put, lookup_cons_ite]
  | cons e rest ih =>
    by_cases hk : e.1 = k
    · by_cases h : k' = k <;> simp [put, lookup_cons_ite, hk, h]
    · by_cases he : k' = e.1
      · have : k' ≠ k := fun hkk => hk (he.symm.trans hkk)
        simp [put, hk, lookup_cons_ite, he]
      · simp [put, hk, lookup_cons_ite, he, ih]

/-- Assignment changes exactly one key. -/
@[simp] theorem get?_set (d : Dict κ ν) (k k' : κ) (v : ν) :
    (d.set k v).get? k' = if k' = k then some v else d.get? k' :=
  lookup_put d.entries k k' v

theorem get?_set_self (d : Dict κ ν) (k : κ) (v : ν) : (d.set k v).get? k = some v := by
  simp

theorem get?_set_ne (d : Dict κ ν) {k k' : κ} (v : ν) (h : k' ≠ k) :
    (d.set k v).get? k' = d.get? k' := by
  simp [h]

/-- What an assignment leaves in the dictionary. -/
theorem get?_set_iff (d : Dict κ ν) {k k' : κ} {v v' : ν} : (d.set k v).get? k' = some v' ↔
    (k' = k ∧ v' = v) ∨ (k' ≠ k ∧ d.get? k' = some v') := by
  rw [get?_set]
  by_cases h : k' = k
  · simp [h, eq_comm]
  · simp [h]

theorem lookup_drop (es : List (κ × ν)) (k k' : κ) :
    (drop es k).lookup k' = if k' = k then none else es.lookup k' := by
  induction es with
  | nil => simp [drop]
  | cons e rest ih =>
    unfold drop at ih ⊢
    by_cases he : e.1 = k
    · by_cases h : k' = k
      · simpa [he, h] using ih
      · simpa [he, h, lookup_cons_ite] using ih
    · by_cases h : k' = e.1
      · subst h
        simp [he, lookup_cons_ite]
      · simpa [he, h, lookup_cons_ite] using ih

@[simp] theorem get?_pop (d : Dict κ ν) (k k' : κ) :
    (d.pop k).get? k' = if k' = k then none else d.get? k' :=
  lookup_drop d.entries k k'

theorem keys_pop (d : Dict κ ν) (k : κ) : (d.pop k).keys = d.keys.erase k := by
  have hmap : (drop d.entries k).map Prod.fst = (d.entries.map Prod.fst).filter (· ≠ k) := by
    rw [List.filter_map]
    rfl
  rw [keys, keys, pop, hmap, d.nodup_keys.erase_eq_filter]
  apply List.filter_congr
  intro x _
  by_cases hx : x = k <;> simp [hx]

theorem get?_setdefault (d : Dict κ ν) (k k' : κ) (v : ν) :
    (d.setdefault k v).get? k' = if k' = k then some ((d.get? k).getD v) else d.get? k' := by
  unfold setdefault
  cases h : d.get? k with
  | none => simp
  | some old =>
    by_cases hk : k' = k
    · simp [hk, h]
    · simp [hk]

@[simp] theorem get?_update (d : Dict κ ν) (k k' : κ) (f : ν → ν) :
    (d.update k f).get? k' = if k' = k then (d.get? k).map f else d.get? k' := by
  unfold update
  by_cases hk : k' = k
  · subst hk
    cases h : d.get? k' with
    | none => simp [h]
    | some v => simp
  · cases d.get? k <;> simp [hk]

/-- The last assignment to a key wins. -/
theorem set_set (d : Dict κ ν) (k : κ) (v w : ν) : (d.set k v).set k w = d.set k w := by
  have hput : ∀ es : List (κ × ν), put (put es k v) k w = put es k w := by
    intro es
    induction es with
    | nil => simp [put]
    | cons e rest ih => by_cases h : e.1 = k <;> simp [put, h, ih]
  simp only [set, hput]

/-- Assigning the value a key has changes nothing. -/
theorem set_of_get {d : Dict κ ν} {k : κ} {v : ν} (h : d.get? k = some v) : d.set k v = d := by
  have hput : ∀ es : List (κ × ν), es.lookup k = some v → put es k v = es := by
    intro es hes
    induction es with
    | nil => cases hes
    | cons e rest ih =>
      rw [lookup_cons_ite] at hes
      by_cases hk : e.1 = k
      · rw [if_pos hk.symm, Option.some.injEq] at hes
        simp [put, ← hk, ← hes]
      · rw [if_neg fun hc => hk hc.symm] at hes
        simp [put, hk, ih hes]
  obtain ⟨es, hn⟩ := d
  simp only [set, hput es h]

theorem mem_entries_iff (d : Dict κ ν) {k : κ} {v : ν} :
    (k, v) ∈ d.entries ↔ d.get? k = some v := by
  obtain ⟨es, hn⟩ := d
  simp only [get?]
  induction es with
  | nil => simp
  | cons e rest ih =>
    simp only [List.map_cons, List.nodup_cons, List.mem_map, not_exists, not_and] at hn
    by_cases hk : k = e.1
    · subst hk
      have hrest : (e.1, v) ∉ rest := fun hm => hn.1 _ hm rfl
      simp [lookup_cons_ite, hrest, Prod.ext_iff, eq_comm]
    · have hne : (k, v) ≠ e := fun he => hk (by rw [← he])
      simp [lookup_cons_ite, hk, hne, ih hn.2]

theorem mem_values_iff (d : Dict κ ν) {v : ν} : v ∈ d.values ↔ ∃ k, d.get? k = some v := by
  simp only [values, List.mem_map, Prod.exists, exists_eq_right, mem_entries_iff]

theorem mem_keys_iff (d : Dict κ ν) {k : κ} : k ∈ d.keys ↔ ∃ v, d.get? k = some v := by
  simp only [keys, List.mem_map, Prod.exists, exists_and_right, exists_eq_right, mem_entries_iff]

/-- What a dictionary built from a list holds comes from the list. -/
theorem mem_of_ofList {es : List (κ × ν)} {k : κ} {v : ν} (h : (ofList es).get? k = some v) :
    (k, v) ∈ es := by
  have hfold : ∀ (es : List (κ × ν)) (d : Dict κ ν),
      (es.foldl (fun d e => d.set e.1 e.2) d).get? k = some v → (k, v) ∈ es ∨ d.get? k = some v := by
    intro es
    induction es with
    | nil => exact fun _ h => .inr h
    | cons e rest ih =>
      intro d h
      rcases ih _ h with hm | hg
      · exact .inl (List.mem_cons_of_mem _ hm)
      · rw [get?_set_iff] at hg
        rcases hg with ⟨rfl, rfl⟩ | ⟨-, hold⟩
        · exact .inl List.mem_cons_self
        · exact .inr hold
  rcases hfold es _ h with hm | hg
  · exact hm
  · cases hg

/-- Every key of the list is held. -/
theorem ofList_of_mem {es : List (κ × ν)} {k : κ} {v : ν} (h : (k, v) ∈ es) :
    ∃ v', (ofList es).get? k = some v' := by
  have hkeep : ∀ (es : List (κ × ν)) (d : Dict κ ν), (∃ v', d.get? k = some v') →
      ∃ v', (es.foldl (fun d e => d.set e.1 e.2) d).get? k = some v' := by
    intro es
    induction es with
    | nil => exact fun _ h => h
    | cons e rest ih =>
      rintro d ⟨v', hv'⟩
      refine ih _ ?_
      by_cases hk : k = e.1
      · exact ⟨e.2, by rw [hk, get?_set_self]⟩
      · exact ⟨v', by rw [get?_set_ne _ _ hk, hv']⟩
  have hfold : ∀ (es : List (κ × ν)) (d : Dict κ ν), (k, v) ∈ es →
      ∃ v', (es.foldl (fun d e => d.set e.1 e.2) d).get? k = some v' := by
    intro es
    induction es with
    | nil => exact fun _ h => absurd h List.not_mem_nil
    | cons e rest ih =>
      intro d h
      rcases List.mem_cons.mp h with rfl | hm
      · exact hkeep rest _ ⟨v, get?_set_self _ _ _⟩
      · exact ih _ hm
  exact hfold es _ h

/-- Where a list says one thing of a key, so does the dictionary built from it. -/
theorem get?_ofList_iff {es : List (κ × ν)} {k : κ} {v : ν}
    (hone : ∀ v', (k, v') ∈ es → v' = v) : (ofList es).get? k = some v ↔ (k, v) ∈ es := by
  refine ⟨mem_of_ofList, fun h => ?_⟩
  obtain ⟨v', hv'⟩ := ofList_of_mem h
  rw [hv', hone v' (mem_of_ofList hv')]

/-- Rebuilding a dictionary with its values changed. -/
theorem get?_ofList_map {μ : Type*} (d : Dict κ ν) (f : ν → μ) (k : κ) :
    (ofList (d.entries.map fun e => (e.1, f e.2))).get? k = (d.get? k).map f := by
  have hmem : ∀ {v}, (k, v) ∈ d.entries.map (fun e => (e.1, f e.2)) →
      ∃ w, d.get? k = some w ∧ f w = v := by
    intro v hv
    obtain ⟨e, he, heq⟩ := List.mem_map.mp hv
    obtain ⟨rfl, rfl⟩ := Prod.mk.inj heq
    exact ⟨e.2, d.mem_entries_iff.mp he, rfl⟩
  cases h : d.get? k with
  | none =>
    cases hk : (ofList (d.entries.map fun e => (e.1, f e.2))).get? k with
    | none => rfl
    | some v =>
      obtain ⟨w, hw, -⟩ := hmem (mem_of_ofList hk)
      rw [h] at hw
      cases hw
  | some w =>
    refine (get?_ofList_iff fun v hv => ?_).mpr
      (List.mem_map.mpr ⟨(k, w), d.mem_entries_iff.mpr h, rfl⟩)
    obtain ⟨w', hw', rfl⟩ := hmem hv
    rw [h, Option.some.injEq] at hw'
    rw [hw']

/-- Rebuilding a dictionary from some of its entries, with their values changed. -/
theorem get?_ofList_filterMap {μ : Type*} (d : Dict κ ν) (f : κ → ν → Option μ) (k : κ) :
    (ofList (d.entries.filterMap fun e => (f e.1 e.2).map fun v => (e.1, v))).get? k =
      (d.get? k).bind (f k) := by
  have hmem : ∀ v, (k, v) ∈ d.entries.filterMap (fun e => (f e.1 e.2).map fun v => (e.1, v)) ↔
      (d.get? k).bind (f k) = some v := by
    intro v
    rw [List.mem_filterMap, Option.bind_eq_some_iff]
    constructor
    · rintro ⟨e, he, heq⟩
      obtain ⟨w, hw, hpair⟩ := Option.map_eq_some_iff.mp heq
      obtain ⟨rfl, rfl⟩ := Prod.mk.inj hpair
      exact ⟨e.2, d.mem_entries_iff.mp he, hw⟩
    · rintro ⟨u, hu, hv⟩
      exact ⟨(k, u), d.mem_entries_iff.mpr hu, by rw [hv]; rfl⟩
  cases hk : (d.get? k).bind (f k) with
  | none =>
    cases hget : (ofList (d.entries.filterMap fun e => (f e.1 e.2).map fun v => (e.1, v))).get? k with
    | none => rfl
    | some v =>
      rw [(hmem v).mp (mem_of_ofList hget)] at hk
      cases hk
  | some v =>
    refine (get?_ofList_iff fun v' hv' => ?_).mpr ((hmem v).mpr hk)
    rw [(hmem v').mp hv', Option.some.injEq] at hk
    exact hk

/-! ## Sums over the entries -/

/-- The sum of `f` over the entries. -/
def sum {M : Type*} [AddCommMonoid M] (d : Dict κ ν) (f : κ → ν → M) : M :=
  (d.entries.map fun e => f e.1 e.2).sum

omit [DecidableEq κ] in
@[simp] theorem sum_empty {M : Type*} [AddCommMonoid M] (f : κ → ν → M) :
    (empty : Dict κ ν).sum f = 0 := rfl

theorem sum_put {M : Type*} [AddCommMonoid M] (f : κ → ν → M) (es : List (κ × ν)) (k : κ)
    (v e₀ : ν) (h₀ : f k e₀ = 0) :
    ((put es k v).map fun e => f e.1 e.2).sum + f k ((es.lookup k).getD e₀) =
      (es.map fun e => f e.1 e.2).sum + f k v := by
  induction es with
  | nil => simp [put, h₀]
  | cons e rest ih =>
    by_cases hk : e.1 = k
    · subst hk
      simp only [put, if_true, List.map_cons, List.sum_cons, lookup_cons_ite, Option.getD_some]
      ac_rfl
    · have hk' : k ≠ e.1 := fun hc => hk hc.symm
      simp only [put, hk, if_false, List.map_cons, List.sum_cons, lookup_cons_ite, hk', add_assoc,
        ih]

/-- Assignment moves a sum by the difference at that key; an absent entry counts
as any value `e₀` that adds nothing. -/
theorem sum_set {M : Type*} [AddCommMonoid M] (f : κ → ν → M) (d : Dict κ ν) (k : κ)
    (v e₀ : ν) (h₀ : f k e₀ = 0) :
    (d.set k v).sum f + f k ((d.get? k).getD e₀) = d.sum f + f k v :=
  sum_put f d.entries k v e₀ h₀

theorem put_new {es : List (κ × ν)} {k : κ} (v : ν) (h : es.lookup k = none) :
    put es k v = es ++ [(k, v)] := by
  induction es with
  | nil => rfl
  | cons e rest ih =>
    rw [lookup_cons_ite] at h
    by_cases hk : k = e.1
    · simp [hk] at h
    · rw [if_neg hk] at h
      rw [put, if_neg (Ne.symm hk), ih h, List.cons_append]

/-- A new key adds its own term. -/
theorem sum_set_new {M : Type*} [AddCommMonoid M] (f : κ → ν → M) {d : Dict κ ν} {k : κ} (v : ν)
    (h : d.get? k = none) : (d.set k v).sum f = d.sum f + f k v := by
  show ((put d.entries k v).map fun e => f e.1 e.2).sum = _
  rw [put_new v h, List.map_append, List.sum_append]
  simp [sum]

/-! ## Dictionaries read key by key -/

/-- The keys of the entries that satisfy a predicate. -/
theorem filter_keys (d : Dict κ ν) (p : ν → Bool) :
    (d.entries.filter fun e => p e.2).map Prod.fst = d.keys.filter fun k => (d.get? k).any p := by
  rw [keys, List.filter_map]
  congr 1
  refine List.filter_congr fun e he => ?_
  show p e.2 = (d.get? e.1).any p
  rw [d.mem_entries_iff.mp he]
  rfl

theorem sum_keys {M : Type*} [AddCommMonoid M] (d : Dict κ ν) (f : κ → ν → M) :
    d.sum f = (d.keys.map fun k => ((d.get? k).map (f k)).getD 0).sum := by
  rw [sum, keys, List.map_map]
  congr 1
  refine List.map_congr_left fun e he => ?_
  show f e.1 e.2 = ((d.get? e.1).map (f e.1)).getD 0
  rw [d.mem_entries_iff.mp he]
  rfl

theorem put_keys {es : List (κ × ν)} {k : κ} (v : ν) (h : k ∈ es.map Prod.fst) :
    (put es k v).map Prod.fst = es.map Prod.fst := by
  induction es with
  | nil => cases h
  | cons e rest ih =>
    by_cases hk : e.1 = k
    · simp [put, hk]
    · rw [put, if_neg hk, List.map_cons, List.map_cons, ih]
      simpa [Ne.symm hk] using h

/-- Assignment appends a new key and keeps the others where they are. -/
theorem keys_set (d : Dict κ ν) (k : κ) (v : ν) :
    (d.set k v).keys = if k ∈ d.keys then d.keys else d.keys ++ [k] := by
  show (put d.entries k v).map Prod.fst = _
  by_cases hk : k ∈ d.keys
  · rw [if_pos hk]
    exact put_keys v hk
  · have hnone : d.get? k = none := by
      by_contra hne
      exact hk ((d.mem_keys_iff).mpr (Option.ne_none_iff_exists'.mp hne))
    rw [if_neg hk, put_new v hnone, List.map_append]
    rfl

/-! ## Two dictionaries side by side -/

/-- The same keys in the same order, and related values. -/
structure Related (R : ν → μ → Prop) (d : Dict κ ν) (d' : Dict κ μ) : Prop where
  keys : d'.keys = d.keys
  values : ∀ k v v', d.get? k = some v → d'.get? k = some v' → R v v'

namespace Related

variable {R : ν → μ → Prop} {d : Dict κ ν} {d' : Dict κ μ}

theorem held (h : d.Related R d') {k : κ} {v : ν} (hk : d.get? k = some v) :
    ∃ v', d'.get? k = some v' ∧ R v v' := by
  have hmem : k ∈ d'.keys := h.keys ▸ d.mem_keys_iff.mpr ⟨v, hk⟩
  obtain ⟨v', hv'⟩ := d'.mem_keys_iff.mp hmem
  exact ⟨v', hv', h.values k v v' hk hv'⟩

theorem missing (h : d.Related R d') {k : κ} (hk : d.get? k = none) : d'.get? k = none := by
  cases hv : d'.get? k with
  | none => rfl
  | some v' =>
    obtain ⟨v, hv⟩ := d.mem_keys_iff.mp (h.keys ▸ d'.mem_keys_iff.mpr ⟨v', hv⟩)
    rw [hk] at hv
    cases hv

theorem set (h : d.Related R d') {k : κ} {v : ν} {v' : μ} (hv : R v v') :
    (d.set k v).Related R (d'.set k v') where
  keys := by rw [keys_set, keys_set, h.keys]
  values j w w' hw hw' := by
    rcases (d.get?_set_iff).mp hw with ⟨rfl, rfl⟩ | ⟨hne, hw⟩
    · rw [get?_set_self, Option.some.injEq] at hw'
      exact hw' ▸ hv
    · rw [get?_set_ne _ _ hne] at hw'
      exact h.values j w w' hw hw'

/-- The keys chosen by the values are the same where related values are chosen alike. -/
theorem filter_keys (h : d.Related R d') {p : ν → Bool} {q : μ → Bool}
    (hpq : ∀ v v', R v v' → q v' = p v) :
    (d'.entries.filter fun e => q e.2).map Prod.fst =
      (d.entries.filter fun e => p e.2).map Prod.fst := by
  rw [d.filter_keys p, d'.filter_keys q, h.keys]
  refine List.filter_congr fun k hk => ?_
  obtain ⟨v, hv⟩ := d.mem_keys_iff.mp hk
  obtain ⟨v', hv', hr⟩ := h.held hv
  rw [hv, hv']
  exact hpq v v' hr

theorem sum_eq {M : Type*} [AddCommMonoid M] (h : d.Related R d') {f : κ → ν → M} {g : κ → μ → M}
    (hfg : ∀ k v v', R v v' → g k v' = f k v) : d'.sum g = d.sum f := by
  rw [d.sum_keys, d'.sum_keys, h.keys]
  congr 1
  refine List.map_congr_left fun k hk => ?_
  obtain ⟨v, hv⟩ := d.mem_keys_iff.mp hk
  obtain ⟨v', hv', hr⟩ := h.held hv
  rw [hv, hv']
  exact hfg k v v' hr

end Related

section ordered

variable {M : Type*} [AddCommMonoid M] [PartialOrder M] [IsOrderedAddMonoid M] {d : Dict κ ν}
  {f : κ → ν → M}

theorem sum_nonneg (h : ∀ k v, d.get? k = some v → 0 ≤ f k v) : 0 ≤ d.sum f := by
  refine List.sum_nonneg fun x hx => ?_
  obtain ⟨e, he, rfl⟩ := List.mem_map.mp hx
  exact h e.1 e.2 (d.mem_entries_iff.mp he)

/-- No term is more than the sum. -/
theorem le_sum (h : ∀ k v, d.get? k = some v → 0 ≤ f k v) {k : κ} {v : ν}
    (hk : d.get? k = some v) : f k v ≤ d.sum f := by
  refine List.single_le_sum (fun x hx => ?_) _
    (List.mem_map.mpr ⟨(k, v), d.mem_entries_iff.mpr hk, rfl⟩)
  obtain ⟨e, he, rfl⟩ := List.mem_map.mp hx
  exact h e.1 e.2 (d.mem_entries_iff.mp he)

end ordered

theorem sum_setdefault {M : Type*} [AddCommMonoid M] (f : κ → ν → M) (d : Dict κ ν) (k : κ)
    (e₀ : ν) (h₀ : f k e₀ = 0) : (d.setdefault k e₀).sum f = d.sum f := by
  unfold setdefault
  cases h : d.get? k with
  | some old => rfl
  | none =>
    have := sum_set f d k e₀ e₀ h₀
    simpa [h, h₀] using this

end Dict
