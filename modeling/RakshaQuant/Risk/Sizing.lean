import Mathlib.Data.Int.LeastGreatest
import RakshaQuant.Risk.Engine

/-! What the engine approves. A result admits a size when it does not block and its
cap is not below the size; the quantity approved is the largest whole number of
lots that the request and every check admit, and it is zero where there is none. -/

namespace RakshaQuant

/-- A size this result lets pass. -/
def RiskCheckResult.Admits (r : RiskCheckResult) (q : ℤ) : Prop :=
  r.outcome ≠ .block ∧ ∀ cap ∈ r.maxQty, q ≤ cap

/-- A check that has no result lets every size pass. -/
def Admits (r : Option RiskCheckResult) (q : ℤ) : Prop := ∀ x ∈ r, x.Admits q

@[simp] theorem admits_none (q : ℤ) : Admits none q := by
  intro x hx
  cases hx

@[simp] theorem admits_some (r : RiskCheckResult) (q : ℤ) : Admits (some r) q ↔ r.Admits q := by
  simp [Admits]

namespace Check

@[simp] theorem not_admits_block (code : ReasonCode) (message : String) (q : ℤ) :
    ¬ (block code message).Admits q :=
  fun h => h.1 rfl

@[simp] theorem admits_info (code : ReasonCode) (message : String) (q : ℤ) :
    (info code message).Admits q := by
  simp [RiskCheckResult.Admits, info]

theorem admits_resize {code : ReasonCode} {maxQty q : ℤ} {message : String} (hq : 0 < q) :
    (resize code maxQty message).Admits q ↔ q ≤ maxQty := by
  simp only [RiskCheckResult.Admits, resize, Option.mem_some_iff, forall_eq']
  constructor
  · rintro ⟨-, h⟩
    omega
  · intro h
    exact ⟨by simp, by omega⟩

end Check

namespace RiskEngine

variable {Φ : Type}

/-- The sizes a decision may approve. -/
def Sizes (ctx : RiskContext Φ) (results : List RiskCheckResult) : Set ℤ :=
  {q | 0 < q ∧ ctx.intent.instrument.lotSize ∣ q ∧ (∀ asked ∈ ctx.requestedQty, q ≤ asked) ∧
    ∀ r ∈ results, r.Admits q}

/-- Without a block, a size is admitted by the results when it is within the caps. -/
theorem sizes_eq {ctx : RiskContext Φ} {results : List RiskCheckResult}
    (hb : results.filter (fun r => r.outcome = .block) = []) :
    Sizes ctx results = {q | 0 < q ∧ ctx.intent.instrument.lotSize ∣ q ∧
      Caps.Within ctx.requestedQty (capValues results) q} := by
  have hpass : ∀ r ∈ results, r.outcome ≠ .block := by
    intro r hr hout
    have : r ∈ results.filter fun r => r.outcome = .block := List.mem_filter.mpr ⟨hr, by simp [hout]⟩
    rw [hb] at this
    exact absurd this List.not_mem_nil
  ext q
  simp only [Sizes, Caps.Within, capValues, RiskCheckResult.Admits, Set.mem_ofPred_eq,
    List.mem_filterMap]
  constructor
  · rintro ⟨h0, hdvd, hask, hadm⟩
    refine ⟨h0, hdvd, hask, ?_⟩
    rintro cap ⟨r, hr, hcap⟩
    exact (hadm r hr).2 cap hcap
  · rintro ⟨h0, hdvd, hask, hcaps⟩
    exact ⟨h0, hdvd, hask, fun r hr => ⟨hpass r hr, fun cap hcap => hcaps cap ⟨r, hr, hcap⟩⟩⟩

theorem sizes_of_block {ctx : RiskContext Φ} {results : List RiskCheckResult}
    {r : RiskCheckResult} (hr : r ∈ results) (hblock : r.outcome = .block) :
    Sizes ctx results = ∅ := by
  ext q
  simp only [Sizes, Set.mem_ofPred_eq, Set.mem_empty_iff_false, iff_false]
  rintro ⟨-, -, -, hadm⟩
  exact (hadm r hr).1 hblock

/-- The size of an unblocked decision. -/
theorem decide_of_unblocked {ctx : RiskContext Φ} {results : List RiskCheckResult}
    {ran : List String} (hb : results.filter (fun r => r.outcome = .block) = []) :
    (decide ctx results ran).qtyApproved =
      max 0 ((sized ctx.intent.instrument.lotSize ctx.requestedQty results).getD 0) := by
  unfold decide
  dsimp only
  rw [dif_neg (by simpa using hb)]
  split
  · rename_i h
    exact (max_eq_left h).symm
  · rename_i h
    exact (max_eq_right (not_le.mp h).le).symm

/-- **The decision approves the largest size that every result admits.** -/
theorem decide_iff {ctx : RiskContext Φ} {results : List RiskCheckResult} {ran : List String}
    {q : ℤ} (hq : 0 < q) :
    (decide ctx results ran).qtyApproved = q ↔ IsGreatest (Sizes ctx results) q := by
  have hlot := ctx.intent.instrument.lotSize_pos
  by_cases hb : results.filter (fun r => r.outcome = .block) = []
  · rw [decide_of_unblocked hb, sizes_eq hb, sized]
    cases hs : Caps.smallest ctx.requestedQty (capValues results) with
    | none =>
      -- nothing sizes the order
      have hnone := Caps.not_isGreatest_of_none (P := fun x => 0 < x) (q := q) hlot hs
        (fun x y hxy hx => lt_of_lt_of_le hx hxy)
      simp only [Option.map_none, Option.getD_none, max_self]
      exact ⟨fun h => absurd h (by omega), fun h => absurd h hnone⟩
    | some bound =>
      obtain ⟨⟨hdvd, hwithin⟩, hub⟩ := Caps.isGreatest_size hlot hs
      simp only [Option.map_some, Option.getD_some]
      constructor
      · intro h
        have hqb : q = Caps.roundDown ctx.intent.instrument.lotSize bound := by omega
        rw [hqb]
        exact ⟨⟨hqb ▸ hq, hdvd, hwithin⟩, fun x hx => hub hx.2⟩
      · rintro ⟨⟨-, hqdvd, hqwithin⟩, hqub⟩
        have hle := hub ⟨hqdvd, hqwithin⟩
        have hge := hqub ⟨lt_of_lt_of_le hq hle, hdvd, hwithin⟩
        omega
  · obtain ⟨r, hr⟩ := List.exists_mem_of_ne_nil _ hb
    obtain ⟨hr, hblock⟩ := List.mem_filter.mp hr
    have hblock : r.outcome = .block := by simpa using hblock
    rw [decide_of_block hr hblock, sizes_of_block hr hblock]
    exact ⟨fun h => absurd h (by omega), fun h => absurd h.1 (Set.notMem_empty q)⟩

/-! ## The engine -/

variable (engine : RiskEngine Φ) (ctx : RiskContext Φ)

/-- The sizes every check that applies admits. -/
def Admissible : Set ℤ :=
  {q | 0 < q ∧ ctx.intent.instrument.lotSize ∣ q ∧ (∀ asked ∈ ctx.requestedQty, q ≤ asked) ∧
    ∀ c ∈ engine.checks, c.appliesTo ctx.intent.kind → Admits (runCheck ctx c) q}

theorem sizes_results : Sizes ctx (engine.results ctx) = engine.Admissible ctx := by
  ext q
  simp only [Sizes, Admissible, results, applicable, Admits, List.mem_filterMap, List.mem_filter,
    Set.mem_ofPred_eq]
  constructor
  · rintro ⟨h0, hdvd, hask, hadm⟩
    exact ⟨h0, hdvd, hask, fun c hc happ r hr => hadm r ⟨c, ⟨hc, happ⟩, hr⟩⟩
  · rintro ⟨h0, hdvd, hask, hadm⟩
    refine ⟨h0, hdvd, hask, ?_⟩
    rintro r ⟨c, ⟨hc, happ⟩, hr⟩
    exact hadm c hc happ r hr

variable {engine ctx}

/-- **The engine approves the largest size that every check admits.** -/
theorem evaluate_iff {q : ℤ} (hq : 0 < q) :
    (engine.evaluate ctx).qtyApproved = q ↔ IsGreatest (engine.Admissible ctx) q := by
  rw [← sizes_results]
  exact decide_iff hq

theorem evaluate_mem {q : ℤ} (hq : 0 < q) (h : (engine.evaluate ctx).qtyApproved = q) :
    q ∈ engine.Admissible ctx :=
  ((evaluate_iff hq).mp h).1

section

variable {Ψ : Type} {engine' : RiskEngine Ψ} {ctx' : RiskContext Ψ}

/-- Engines that admit the same sizes approve the same quantity. -/
theorem evaluate_congr (h : engine.Admissible ctx = engine'.Admissible ctx') :
    (engine.evaluate ctx).qtyApproved = (engine'.evaluate ctx').qtyApproved := by
  rcases (engine.evaluate ctx).qtyApproved_nonneg.eq_or_lt with h0 | hpos
  · rcases (engine'.evaluate ctx').qtyApproved_nonneg.eq_or_lt with h0' | hpos'
    · rw [← h0, ← h0']
    · exact (evaluate_iff hpos').mpr (h ▸ (evaluate_iff hpos').mp rfl)
  · exact ((evaluate_iff hpos).mpr (h ▸ (evaluate_iff hpos).mp rfl)).symm

/-- Where something bounds the sizes, the engine approves at least what it admits. -/
theorem le_evaluate {q : ℤ} (hq : q ∈ engine.Admissible ctx)
    (hbound : BddAbove (engine.Admissible ctx)) : q ≤ (engine.evaluate ctx).qtyApproved := by
  obtain ⟨b, hb⟩ := hbound
  obtain ⟨g, hg, hub⟩ := Int.exists_greatest_of_bdd ⟨b, fun z hz => hb hz⟩ ⟨q, hq⟩
  have happroved : (engine.evaluate ctx).qtyApproved = g :=
    (evaluate_iff hg.1).mpr ⟨hg, fun z hz => hub z hz⟩
  rw [happroved]
  exact hub q hq

end

/-- A check that raises blocks an opening order. -/
theorem evaluate_raises {c : Check Φ} {e : Exc} (hc : c ∈ engine.checks)
    (happ : c.appliesTo ctx.intent.kind) (hopens : ctx.intent.kind.reducesRisk = false)
    (hraise : c.fn ctx = .error e) : (engine.evaluate ctx).qtyApproved = 0 := by
  have hrun : ∃ m, runCheck ctx c = some (Check.block .sysCheckError m) := by
    unfold runCheck
    rw [hraise]
    exact ⟨_, by rw [hopens]; rfl⟩
  obtain ⟨m, hrun⟩ := hrun
  exact decide_of_block (List.mem_filterMap.mpr ⟨c, List.mem_filter.mpr ⟨hc, happ⟩, hrun⟩) rfl

end RiskEngine

end RakshaQuant
