import RakshaQuant.Lib.Dict
import RakshaQuant.Lib.Effect

/-! Calls of a partner that may fail, their answers recorded under keys the first time they are
given, and programs that are run again from the record alone. What was answered is answered again,
and a call that failed misses; so what such a program does the second time is settled by rules
about its parts. -/

universe u

/-- A world, the record of the answers given in it, and the keys of the calls that failed, which
only say what the record is worth. -/
structure Memo (κ ν σ : Type u) where
  world : σ
  record : Dict κ ν
  failed : List κ

namespace Memo

variable {κ ν σ τ ε α β γ δ : Type u}

/-! ## A record grows -/

section grows

variable [DecidableEq κ]

/-- What is on record stays there as it is, and what failed is not forgotten. -/
structure Grows (m m' : Memo κ ν σ) : Prop where
  record : ∀ k v, m.record.get? k = some v → m'.record.get? k = some v
  failed : ∀ k ∈ m.failed, k ∈ m'.failed

@[refl] theorem Grows.refl (m : Memo κ ν σ) : m.Grows m := ⟨fun _ _ h => h, fun _ h => h⟩

theorem Grows.trans {m m' m'' : Memo κ ν σ} (h : m.Grows m') (h' : m'.Grows m'') : m.Grows m'' :=
  ⟨fun k v hk => h'.record k v (h.record k v hk), fun k hk => h'.failed k (h.failed k hk)⟩

/-- No call that failed was answered at another time. -/
def Faithful (m : Memo κ ν σ) : Prop := ∀ k ∈ m.failed, m.record.get? k = none

/-! ## Calls -/

/-- Answer from the record, else ask: an answer is recorded. -/
def recorded (store : α → ν) (load : ν → α) (k : κ) (ask : EStateM ε σ α) :
    EStateM ε (Memo κ ν σ) α := fun m =>
  match m.record.get? k with
  | some v => .ok (load v) m
  | none =>
    match ask m.world with
    | .ok a world => .ok a { m with world, record := m.record.set k (store a) }
    | .error e world => .error e { m with world, failed := m.failed ++ [k] }

/-- Answer from the record, or raise. -/
def replayed (load : ν → α) (k : κ) (missing : ε) : EStateM ε (Memo κ ν σ) α := fun m =>
  match m.record.get? k with
  | some v => .ok (load v) m
  | none => .error missing m

/-- What became of a call is known: an answer is on record, a failure is noted. -/
inductive Known (store : α → ν) (load : ν → α) (k : κ) : EStateM.Result ε (Memo κ ν σ) α → Prop
  | old {v : ν} {m : Memo κ ν σ} (record : m.record.get? k = some v) :
      Known store load k (.ok (load v) m)
  | new {a : α} {m : Memo κ ν σ} (record : m.record.get? k = some (store a)) :
      Known store load k (.ok a m)
  | failed {e : ε} {m : Memo κ ν σ} (failed : k ∈ m.failed) : Known store load k (.error e m)

theorem recorded_known (store : α → ν) (load : ν → α) (k : κ) (ask : EStateM ε σ α)
    (m : Memo κ ν σ) : Known store load k (recorded store load k ask m) := by
  unfold recorded
  cases hk : m.record.get? k with
  | some v => exact .old hk
  | none =>
    cases ask m.world with
    | ok a world => exact .new (Dict.get?_set_self ..)
    | error e world => exact .failed (List.mem_append_right _ List.mem_cons_self)

theorem recorded_grows (store : α → ν) (load : ν → α) (k : κ) (ask : EStateM ε σ α)
    (m : Memo κ ν σ) : m.Grows (recorded store load k ask m).state := by
  unfold recorded
  cases hk : m.record.get? k with
  | some v => rfl
  | none =>
    cases ask m.world with
    | ok a world =>
      refine ⟨fun k' v h => ?_, fun _ h => h⟩
      have hne : k' ≠ k := by
        rintro rfl
        rw [hk] at h
        cases h
      exact (Dict.get?_set_ne _ _ hne).trans h
    | error e world => exact ⟨fun _ _ h => h, fun _ h => List.mem_append_left _ h⟩

end grows

/-! ## Programs -/

variable [DecidableEq κ]

/-- A program that only adds to the record. -/
def Growing (x : EStateM ε (Memo κ ν σ) α) : Prop :=
  ∀ m : Memo κ ν σ, m.Grows (x m).state

/-- Whatever `x` returned while recording, and however the recording went on, to an end that
satisfies `P`: from the record of that end `y` returns something like it, and leaves the record. -/
def Replays (P : Memo κ ν σ → Prop) (x : EStateM ε (Memo κ ν σ) α) (y : EStateM ε (Memo κ ν τ) β)
    (R : α → β → Prop) : Prop :=
  ∀ (m : Memo κ ν σ) a m', x m = .ok a m' → ∀ last, m'.Grows last → P last → ∀ r : Memo κ ν τ,
    r.record = last.record → ∃ b, ∃ r' : Memo κ ν τ,
      y r = .ok b r' ∧ r'.record = last.record ∧ R a b

variable {P : Memo κ ν σ → Prop} {x : EStateM ε (Memo κ ν σ) α} {y : EStateM ε (Memo κ ν τ) β}
  {R : α → β → Prop}

theorem growing_pure (a : α) : Growing (pure a : EStateM ε (Memo κ ν σ) α) := fun m => .refl m

theorem growing_throw (e : ε) : Growing (throw e : EStateM ε (Memo κ ν σ) α) := fun m => .refl m

theorem Growing.bind {f : α → EStateM ε (Memo κ ν σ) γ} (hx : Growing x)
    (hf : ∀ a, Growing (f a)) : Growing (x >>= f) := by
  intro m
  have hm := hx m
  rw [Effect.run_bind]
  cases hrun : x m with
  | ok a m' =>
    rw [hrun] at hm
    exact hm.trans (hf a m')
  | error e m' =>
    rw [hrun] at hm
    exact hm

theorem replays_pure {a : α} {b : β} (h : R a b) :
    Replays P (pure a : EStateM ε (Memo κ ν σ) α) (pure b : EStateM ε (Memo κ ν τ) β) R := by
  intro m a' m' hrun last _ _ r hr
  cases hrun
  exact ⟨b, r, rfl, hr, h⟩

theorem Replays.bind {f : α → EStateM ε (Memo κ ν σ) γ} {g : β → EStateM ε (Memo κ ν τ) δ}
    {S : γ → δ → Prop} (hxy : Replays P x y R) (hgrows : ∀ a, Growing (f a))
    (hfg : ∀ a b, R a b → Replays P (f a) (g b) S) : Replays P (x >>= f) (y >>= g) S := by
  intro m c m'' hrun last hlast hP r hr
  rw [Effect.run_bind] at hrun
  cases hx : x m with
  | error e m' =>
    rw [hx] at hrun
    cases hrun
  | ok a m' =>
    rw [hx] at hrun
    have hgrown : m'.Grows (f a m').state := hgrows a m'
    rw [show f a m' = .ok c m'' from hrun] at hgrown
    obtain ⟨b, r', hy, hr', hab⟩ := hxy m a m' hx last (hgrown.trans hlast) hP r hr
    obtain ⟨d, r'', hg, hr'', hcd⟩ := hfg a b hab m' c m'' hrun last hlast hP r' hr'
    exact ⟨d, r'', (Effect.run_bind_ok hy).trans hg, hr'', hcd⟩

/-- One program after another, over a list. -/
def each (f : α → EStateM ε σ γ) : List α → EStateM ε σ (List γ)
  | [] => return []
  | a :: rest => do
    let c ← f a
    let later ← each f rest
    return c :: later

theorem growing_each {f : α → EStateM ε (Memo κ ν σ) γ} (hf : ∀ a, Growing (f a)) (as : List α) :
    Growing (each f as) := by
  induction as with
  | nil => exact growing_pure []
  | cons a rest ih => exact (hf a).bind fun c => ih.bind fun later => growing_pure _

theorem replays_each {f : α → EStateM ε (Memo κ ν σ) γ} {g : α → EStateM ε (Memo κ ν τ) δ}
    {S : γ → δ → Prop} (hf : ∀ a, Growing (f a)) (hfg : ∀ a, Replays P (f a) (g a) S)
    (as : List α) : Replays P (each f as) (each g as) (List.Forall₂ S) := by
  induction as with
  | nil => exact replays_pure .nil
  | cons a rest ih =>
    refine (hfg a).bind (fun c => ?_) fun c d hcd => ih.bind (fun later => ?_) fun later later' h => ?_
    · exact (growing_each hf rest).bind fun later => growing_pure _
    · exact growing_pure _
    · exact replays_pure (.cons hcd h)

end Memo
