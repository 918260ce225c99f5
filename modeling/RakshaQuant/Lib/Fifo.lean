import Mathlib.Data.List.Basic
import Mathlib.Data.List.Nodup

/-! Netting queues, unit by unit and in lots. The law is about single units: an
arriving unit matches the oldest queued unit it opposes, and otherwise joins the
queue. An implementation keeps lots, a unit with its number of copies. On a
queue whose units all oppose the arrivals, matching takes a prefix, so lots are
consumed from the front; run-length encoding recovers lots from units. -/

namespace Fifo

variable {α : Type*}

/-! ## Units -/

/-- The first unit satisfying `p`, and the queue without it. -/
def oldest (p : α → Bool) : List α → Option (α × List α)
  | [] => none
  | x :: rest => if p x then some (x, rest) else (oldest p rest).map fun r => (r.1, x :: r.2)

/-- One unit arrives; the result is the queue and the unit it matched, if any. -/
def arrive (opposes : α → α → Bool) (q : List α) (x : α) : List α × List α :=
  match oldest (opposes x) q with
  | some (y, rest) => (rest, [y])
  | none => (q ++ [x], [])

/-- `n` copies of a unit arrive one by one; the matched units in order. -/
def arrivals (opposes : α → α → Bool) : ℕ → List α → α → List α × List α
  | 0, q, _ => (q, [])
  | n + 1, q, x =>
    let first := arrive opposes q x
    let others := arrivals opposes n first.1 x
    (others.1, first.2 ++ others.2)

theorem oldest_eq_none {p : α → Bool} {q : List α} (h : ∀ y ∈ q, p y = false) :
    oldest p q = none := by
  induction q with
  | nil => rfl
  | cons y rest ih =>
    simp only [List.mem_cons, forall_eq_or_imp] at h
    simp [oldest, h.1, ih h.2]

/-- Units that oppose nothing queued all join. -/
theorem arrivals_join (opposes : α → α → Bool) (n : ℕ) (q : List α) (x : α)
    (hq : ∀ y ∈ q, opposes x y = false) (hx : opposes x x = false) :
    arrivals opposes n q x = (q ++ List.replicate n x, []) := by
  induction n generalizing q with
  | zero => simp [arrivals]
  | succ n ih =>
    have hfirst : arrive opposes q x = (q ++ [x], []) := by
      rw [arrive, oldest_eq_none hq]
    have hq' : ∀ y ∈ q ++ [x], opposes x y = false := by
      intro y hy
      rcases List.mem_append.mp hy with hy | hy
      · exact hq y hy
      · rw [List.mem_singleton.mp hy]
        exact hx
    rw [arrivals, hfirst, ih _ hq']
    simp [List.replicate_succ]

/-- Units that oppose the whole queue match its front; the rest of them join. -/
theorem arrivals_match (opposes : α → α → Bool) (n : ℕ) (q : List α) (x : α)
    (hq : ∀ y ∈ q, opposes x y = true) (hx : opposes x x = false) :
    arrivals opposes n q x = (q.drop n ++ List.replicate (n - q.length) x, q.take n) := by
  induction n generalizing q with
  | zero => simp [arrivals]
  | succ n ih =>
    cases q with
    | nil =>
      rw [arrivals_join opposes (n + 1) [] x (by simp) hx]
      simp
    | cons y rest =>
      simp only [List.mem_cons, forall_eq_or_imp] at hq
      have hfirst : arrive opposes (y :: rest) x = (rest, [y]) := by
        simp [arrive, oldest, hq.1]
      rw [arrivals, hfirst, ih rest hq.2]
      simp

/-! ## Lots -/

/-- The units of a list of lots, in order. -/
def expand (lots : List (α × ℕ)) : List α := lots.flatMap fun e => List.replicate e.2 e.1

/-- Consume `n` units from the front: the lots taken and the lots left. -/
def consume : ℕ → List (α × ℕ) → List (α × ℕ) × List (α × ℕ)
  | _, [] => ([], [])
  | n, (x, k) :: rest =>
    if n = 0 then ([], (x, k) :: rest)
    else if n < k then ([(x, n)], (x, k - n) :: rest)
    else
      let next := consume (n - k) rest
      ((x, k) :: next.1, next.2)

theorem expand_cons (x : α) (k : ℕ) (rest : List (α × ℕ)) :
    expand ((x, k) :: rest) = List.replicate k x ++ expand rest := by
  simp [expand]

theorem consume_zero (lots : List (α × ℕ)) : consume 0 lots = ([], lots) := by
  cases lots <;> simp [consume]

/-- Consuming lots consumes the same units, in the same order. -/
theorem expand_consume (n : ℕ) (lots : List (α × ℕ)) :
    expand (consume n lots).1 = (expand lots).take n ∧
      expand (consume n lots).2 = (expand lots).drop n := by
  induction lots generalizing n with
  | nil => simp [consume, expand]
  | cons e rest ih =>
    obtain ⟨x, k⟩ := e
    unfold consume
    by_cases h0 : n = 0
    · simp [h0, expand]
    · by_cases hlt : n < k
      · have hsub : n - k = 0 := by omega
        have hmin : min n k = n := by omega
        rw [if_neg h0, if_pos hlt]
        constructor
        · simp [List.take_append, hsub, hmin, expand]
        · simp [expand_cons, List.drop_append, hsub]
      · have hk : k ≤ n := Nat.le_of_not_lt hlt
        obtain ⟨htake, hdrop⟩ := ih (n - k)
        simp [h0, hlt, expand_cons, htake, hdrop, List.take_append, List.drop_append, hk]

/-- What is taken or left are lots of the list, possibly smaller. -/
theorem consume_keys (n : ℕ) (lots : List (α × ℕ)) :
    ((consume n lots).1.map Prod.fst).Sublist (lots.map Prod.fst) ∧
      ((consume n lots).2.map Prod.fst).Sublist (lots.map Prod.fst) := by
  induction lots generalizing n with
  | nil => simp [consume]
  | cons e rest ih =>
    obtain ⟨x, k⟩ := e
    unfold consume
    by_cases h0 : n = 0
    · simp [h0]
    · by_cases hlt : n < k
      · simp [h0, hlt]
      · simp only [h0, hlt, if_false, List.map_cons]
        exact ⟨(ih (n - k)).1.cons_cons x, (ih (n - k)).2.cons x⟩

theorem consume_pos (n : ℕ) (lots : List (α × ℕ)) (h : ∀ e ∈ lots, 0 < e.2) :
    (∀ e ∈ (consume n lots).1, 0 < e.2) ∧ ∀ e ∈ (consume n lots).2, 0 < e.2 := by
  induction lots generalizing n with
  | nil => simp [consume]
  | cons e rest ih =>
    obtain ⟨x, k⟩ := e
    simp only [List.mem_cons, forall_eq_or_imp] at h
    unfold consume
    by_cases h0 : n = 0
    · simpa [h0, h.1] using h.2
    · by_cases hlt : n < k
      · simp only [h0, hlt, if_false, if_true, List.mem_cons, List.not_mem_nil, or_false,
          forall_eq_or_imp, forall_eq]
        exact ⟨by omega, by omega, h.2⟩
      · simp only [h0, hlt, if_false, List.mem_cons, forall_eq_or_imp]
        exact ⟨⟨h.1, (ih (n - k) h.2).1⟩, (ih (n - k) h.2).2⟩

/-! ## Run lengths -/

/-- Group equal neighbours and count them. -/
def runs [DecidableEq α] : List α → List (α × ℕ)
  | [] => []
  | x :: rest =>
    match runs rest with
    | [] => [(x, 1)]
    | (y, k) :: more => if x = y then (y, k + 1) :: more else (x, 1) :: (y, k) :: more

theorem runs_replicate_append [DecidableEq α] (x : α) (k : ℕ) (q : List α)
    (h : ∀ e ∈ (runs q).head?, e.1 ≠ x) :
    runs (List.replicate (k + 1) x ++ q) = (x, k + 1) :: runs q := by
  induction k with
  | zero =>
    cases hq : runs q with
    | nil => simp [runs, hq]
    | cons e more =>
      obtain ⟨y, m⟩ := e
      have hne : x ≠ y := fun hxy => h (y, m) (by simp [hq]) hxy.symm
      simp [runs, hq, hne]
  | succ k ih =>
    rw [List.replicate_succ, List.cons_append, runs, ih]
    simp

/-- Lots of distinct units are recovered from their expansion. -/
theorem runs_expand [DecidableEq α] (lots : List (α × ℕ)) (hpos : ∀ e ∈ lots, 0 < e.2)
    (hnodup : (lots.map Prod.fst).Nodup) : runs (expand lots) = lots := by
  induction lots with
  | nil => rfl
  | cons e rest ih =>
    obtain ⟨x, k⟩ := e
    simp only [List.mem_cons, forall_eq_or_imp] at hpos
    simp only [List.map_cons, List.nodup_cons] at hnodup
    have hrest := ih hpos.2 hnodup.2
    obtain ⟨m, rfl⟩ : ∃ m, k = m + 1 := ⟨k - 1, by omega⟩
    rw [expand_cons, runs_replicate_append, hrest]
    rw [hrest]
    intro e he hx
    have hmem : e ∈ rest := List.mem_of_mem_head? he
    exact hnodup.1 (hx ▸ List.mem_map_of_mem hmem)

end Fifo
