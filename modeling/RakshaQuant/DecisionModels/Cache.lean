import RakshaQuant.DecisionModels.Trust
import RakshaQuant.Lib.Memo

/-! The cache of answers: live runs record every answer of the decision models under a key of what
was asked, and a replay is served from the record alone. The keys may be any; no answer of a
replay is a fresh one. -/

namespace RakshaQuant

namespace DecisionModels

/-! ## Answers as they are read back -/

/-- `json.dumps` with sorted keys, read back. -/
def sortKeys {α : Type} (d : Dict String α) : Dict String α :=
  .ofList (d.entries.insertionSort fun e e' => e.1 ≤ e'.1)

def Answer.reloaded (a : Answer) : Answer := { a with probabilities := sortKeys a.probabilities }

/-- `_load` of what `_dump` made of some answers. -/
def reloaded (answers : Dict String Answer) : Dict String Answer :=
  sortKeys (.ofList (answers.entries.map fun e => (e.1, e.2.reloaded)))

/-- Two answers but for the order of their probabilities. -/
structure Answer.Same (a b : Answer) : Prop where
  type : a.type = b.type
  value : a.value = b.value
  probabilities : ∀ label, a.probabilities.get? label = b.probabilities.get? label
  confidence : a.confidence = b.confidence
  model : a.model = b.model
  calibrated : a.calibrated = b.calibrated

@[refl] theorem Answer.Same.refl (a : Answer) : a.Same a := ⟨rfl, rfl, fun _ => rfl, rfl, rfl, rfl⟩

theorem Answer.Same.symm {a b : Answer} (h : a.Same b) : b.Same a :=
  ⟨h.type.symm, h.value.symm, fun label => (h.probabilities label).symm, h.confidence.symm,
    h.model.symm, h.calibrated.symm⟩

theorem Answer.Same.trans {a b c : Answer} (h : a.Same b) (h' : b.Same c) : a.Same c :=
  ⟨h.type.trans h'.type, h.value.trans h'.value,
    fun label => (h.probabilities label).trans (h'.probabilities label),
    h.confidence.trans h'.confidence, h.model.trans h'.model, h.calibrated.trans h'.calibrated⟩

/-- The same answers to the same questions. -/
def Same (d d' : Dict String Answer) : Prop :=
  ∀ name, Option.Rel Answer.Same (d.get? name) (d'.get? name)

theorem same_of_get {d d' : Dict String Answer} (h : ∀ name, d.get? name = d'.get? name) :
    Same d d' := by
  intro name
  rw [h name]
  cases d'.get? name with
  | none => exact .none
  | some a => exact .some (.refl a)

theorem Same.symm {d d' : Dict String Answer} (h : Same d d') : Same d' d := by
  intro name
  have hname := h name
  revert hname
  generalize d.get? name = a, d'.get? name = b
  rintro (hab | _)
  · exact .some hab.symm
  · exact .none

theorem Same.trans {d d' d'' : Dict String Answer} (h : Same d d') (h' : Same d' d'') :
    Same d d'' := by
  intro name
  have hleft := h name
  have hright := h' name
  revert hleft hright
  generalize d.get? name = a, d'.get? name = b, d''.get? name = c
  rintro (hab | _) (hbc | _)
  · exact .some (hab.trans hbc)
  · exact .none

theorem sortKeys_get {α : Type} (d : Dict String α) (k : String) :
    (sortKeys d).get? k = d.get? k := by
  have hmem : ∀ v, (k, v) ∈ d.entries.insertionSort (fun e e' => e.1 ≤ e'.1) ↔
      d.get? k = some v := by
    intro v
    rw [(List.perm_insertionSort _ _).mem_iff, d.mem_entries_iff]
  have hone : ∀ v, (sortKeys d).get? k = some v ↔ d.get? k = some v := by
    intro v
    constructor
    · exact fun h => (hmem v).mp (Dict.mem_of_ofList h)
    · intro h
      refine (Dict.get?_ofList_iff fun v' hv' => ?_).mpr ((hmem v).mpr h)
      rw [hmem, h, Option.some.injEq] at hv'
      exact hv'.symm
  exact Option.ext hone

theorem same_reloaded (answers : Dict String Answer) : Same answers (reloaded answers) := by
  intro name
  rw [reloaded, sortKeys_get, Dict.get?_ofList_map]
  cases answers.get? name with
  | none => exact .none
  | some a => exact .some ⟨rfl, rfl, fun label => (sortKeys_get _ label).symm, rfl, rfl, rfl⟩

/-! ## The cached model -/

/-- A world and the answers recorded in it. -/
abbrev AnswerCache (σ : Type) : Type := Memo String (Dict String Answer) σ

/-- The hash of a model's name, its checkpoint, a state and questions. -/
abbrev CacheKey : Type := String → String → Dict String String → Dict String Question → String

variable {σ τ : Type}

/-- `CachedDecisionModel`. -/
def cachedDecisionModel (key : CacheKey) (m : DecisionModel σ) (replayOnly : Bool) :
    DecisionModel (AnswerCache σ) where
  name := m.name
  checkpoint := m.checkpoint
  device := m.device
  contextTokens := m.contextTokens
  decide := fun state questions =>
    if replayOnly then
      Memo.replayed id (key m.name m.checkpoint state questions)
        (.decisionModelError (m.name ++ ": not in the replay cache"))
    else
      Memo.recorded reloaded id (key m.name m.checkpoint state questions) (m.decide state questions)
  name_ne := m.name_ne
  checkpoint_ne := m.checkpoint_ne

/-- `ReplayStub`: it stands for a model that is not loaded. -/
structure ReplayStub where
  name : String
  checkpoint : String
  contextTokens : Option ℤ
  name_ne : name ≠ ""
  checkpoint_ne : checkpoint ≠ ""

def ReplayStub.model (stub : ReplayStub) : DecisionModel τ where
  name := stub.name
  checkpoint := stub.checkpoint
  device := none
  contextTokens := stub.contextTokens
  decide := fun _ _ => throw (.decisionModelError (stub.name ++ " is not loaded in a replay"))
  name_ne := stub.name_ne
  checkpoint_ne := stub.checkpoint_ne

/-! ## The cascades -/

/-- What both cascades are made of. -/
structure CascadeParts where
  key : CacheKey
  config : CascadeConfig
  bucket : String → Dict String String → List String → ℕ

/-- `build_cascade`, where one of the models is there. -/
def buildCascade (p : CascadeParts) (laya jev : Option (DecisionModel σ))
    (emit : DecisionModelCall → σ → σ) (calibrate : String → String → Answer → Answer)
    (h : laya.isSome ∨ jev.isSome) : Cascade (AnswerCache σ) where
  laya := laya.map fun m => cachedDecisionModel p.key m false
  jev := jev.map fun m => cachedDecisionModel p.key m false
  emit := fun e w => { w with world := emit e w.world }
  config := p.config
  calibrate := fun task question a => pure (calibrate task question a)
  bucket := p.bucket
  some_model := by simpa using h

/-- `Identity.apply`: no calibration. -/
def identity (_task _question : String) (a : Answer) : Answer := a

/-- `_replay_cascade`: both models are read from the cache, and no answer is calibrated. -/
def replayCascade (p : CascadeParts) (laya jev : ReplayStub) (emit : DecisionModelCall → τ → τ) :
    Cascade (AnswerCache τ) where
  laya := some (cachedDecisionModel p.key laya.model true)
  jev := some (cachedDecisionModel p.key jev.model true)
  emit := fun e w => { w with world := emit e w.world }
  config := p.config
  calibrate := fun task question a => pure (identity task question a)
  bucket := p.bucket
  some_model := .inl rfl

end DecisionModels

end RakshaQuant
