import Mathlib.Data.Set.Function
import Mathlib.Data.List.GetD
import Mathlib.Data.List.Nodup

/-! Texts with names in them, up to the choice of names. Numbering the names by their first
occurrence forgets the choice and nothing else: two texts are numbered alike exactly when the second
is the first with its names exchanged for others, one for one. -/

universe u v

namespace Naming

variable {α : Type u} {β : Type v} [DecidableEq α]

/-- The names seen, in the order of their first occurrence. -/
def see (seen : List α) (a : α) : List α := if a ∈ seen then seen else seen ++ [a]

/-- Where a name was first seen, or is to be. -/
def place (seen : List α) (a : α) : ℕ := seen.idxOf a

/-- A text with each name exchanged for the place of its first occurrence. -/
def number (seen : List α) : List (β ⊕ α) → List (β ⊕ ℕ)
  | [] => []
  | .inl b :: ts => .inl b :: number seen ts
  | .inr a :: ts => .inr (place seen a) :: number (see seen a) ts

/-- A text with its names exchanged. -/
def rename (f : α → α) (ts : List (β ⊕ α)) : List (β ⊕ α) := ts.map (Sum.map id f)

/-- The names in a text. -/
def names (ts : List (β ⊕ α)) : Set α := {a | .inr a ∈ ts}

variable {s t seen : List α} {a : α} {f : α → α}

theorem idxOf_map (hinj : ∀ b ∈ s, f b = f a → b = a) : (s.map f).idxOf (f a) = s.idxOf a := by
  induction s with
  | nil => rfl
  | cons b s ih =>
    have hrest := ih fun c hc => hinj c (List.mem_cons_of_mem _ hc)
    rw [List.map_cons, List.idxOf_cons, List.idxOf_cons, hrest]
    by_cases hb : b = a
    · simp [hb]
    · have hfb : f b ≠ f a := fun h => hb (hinj b List.mem_cons_self h)
      rw [beq_false_of_ne hb, beq_false_of_ne hfb]

omit [DecidableEq α] in
theorem mem_map_iff (hinj : ∀ b ∈ s, f b = f a → b = a) : f a ∈ s.map f ↔ a ∈ s := by
  constructor
  · intro h
    obtain ⟨b, hb, heq⟩ := List.mem_map.mp h
    exact hinj b hb heq ▸ hb
  · exact List.mem_map_of_mem

theorem see_map (hinj : ∀ b ∈ s, f b = f a → b = a) : see (s.map f) (f a) = (see s a).map f := by
  unfold see
  by_cases ha : a ∈ s
  · rw [if_pos ha, if_pos ((mem_map_iff hinj).mpr ha)]
  · rw [if_neg ha, if_neg fun h => ha ((mem_map_iff hinj).mp h), List.map_append]
    rfl

theorem mem_see {b : α} : b ∈ see s a ↔ b ∈ s ∨ b = a := by
  unfold see
  split
  · rename_i ha
    constructor
    · exact .inl
    · rintro (hb | rfl)
      · exact hb
      · exact ha
  · rw [List.mem_append, List.mem_singleton]

theorem place_of_notMem (ha : a ∉ s) : place s a = s.length := List.idxOf_eq_length_iff.mpr ha

theorem place_see (ha : a ∉ s) : place (see s a) a = s.length := by
  rw [place, see, if_neg ha, List.idxOf_append_of_notMem ha]
  simp

theorem place_see_of_mem {b : α} (hb : b ∈ s) : place (see s a) b = place s b := by
  unfold place see
  split
  · rfl
  · exact List.idxOf_append_of_mem hb

theorem nodup_see (hs : s.Nodup) : (see s a).Nodup := by
  unfold see
  split
  · exact hs
  · rename_i ha
    exact List.nodup_append.mpr ⟨hs, List.nodup_singleton a, fun b hb c hc heq =>
      ha (List.mem_singleton.mp hc ▸ heq ▸ hb)⟩

/-- Lists of one length without repetitions are exchanged for each other. -/
theorem exists_exchange (hs : s.Nodup) (hlength : s.length = t.length) :
    ∃ f : α → α, s.map f = t := by
  refine ⟨fun b => t.getD (s.idxOf b) b, List.ext_getElem (by simpa using hlength) ?_⟩
  intro i hi hi'
  rw [List.getElem_map, hs.idxOf_getElem]
  exact List.getD_eq_getElem _ _ hi'

/-- Exchanged names are numbered as they were. -/
theorem number_rename (ts : List (β ⊕ α)) (hinj : Set.InjOn f ({b | b ∈ seen} ∪ names ts)) :
    number (seen.map f) (rename f ts) = number seen ts := by
  induction ts generalizing seen with
  | nil => rfl
  | cons tok ts ih =>
    cases tok with
    | inl b =>
      have hrest : Set.InjOn f ({b | b ∈ seen} ∪ names ts) := hinj.mono fun c hc =>
        hc.imp id (List.mem_cons_of_mem _)
      exact congrArg (.inl b :: ·) (ih hrest)
    | inr a =>
      have hself : a ∈ {b | b ∈ seen} ∪ names (.inr a :: ts : List (β ⊕ α)) :=
        .inr List.mem_cons_self
      have hone : ∀ b ∈ seen, f b = f a → b = a := fun b hb h => hinj (.inl hb) hself h
      have hrest : Set.InjOn f ({b | b ∈ see seen a} ∪ names ts) := by
        refine hinj.mono fun c hc => ?_
        rcases hc with hc | hc
        · rcases mem_see.mp hc with hc | rfl
          · exact .inl hc
          · exact hself
        · exact .inr (List.mem_cons_of_mem _ hc)
      have hlater := ih hrest
      rw [← see_map hone] at hlater
      show Sum.inr (place (seen.map f) (f a)) :: number (see (seen.map f) (f a)) (rename f ts) = _
      rw [place, idxOf_map hone, hlater]
      rfl

/-- **The converse**, by induction on the text: what is numbered alike so far gives the exchange of
the names seen so far. -/
theorem exists_rename {ts ts' : List (β ⊕ α)} (hs : s.Nodup) (ht : t.Nodup)
    (hlength : s.length = t.length) (h : number s ts = number t ts') :
    ∃ f : α → α, s.map f = t ∧ ts' = rename f ts ∧ Set.InjOn f ({b | b ∈ s} ∪ names ts) := by
  induction ts generalizing s t ts' with
  | nil =>
    cases ts' with
    | cons tok ts' => cases tok <;> cases h
    | nil =>
      obtain ⟨f, rfl⟩ := exists_exchange hs hlength
      refine ⟨f, rfl, rfl, ?_⟩
      rintro b (hb | hb) c (hc | hc) heq
      · exact List.inj_on_of_nodup_map ht hb hc heq
      all_goals cases ‹_ ∈ names []›
  | cons tok ts ih =>
    cases ts' with
    | nil => cases tok <;> cases h
    | cons tok' ts' =>
      cases tok with
      | inl b =>
        cases tok' with
        | inr a' => cases h
        | inl b' =>
          obtain ⟨hb, hrest⟩ := List.cons.inj h
          obtain rfl := Sum.inl.inj hb
          obtain ⟨f, hmap, rfl, hinj⟩ := ih hs ht hlength hrest
          refine ⟨f, hmap, rfl, hinj.mono fun c hc => ?_⟩
          rcases hc with hc | hc
          · exact .inl hc
          · rcases List.mem_cons.mp hc with hc | hc
            · cases hc
            · exact .inr hc
      | inr a =>
        cases tok' with
        | inl b' => cases h
        | inr a' =>
          obtain ⟨hidx, hrest⟩ := List.cons.inj h
          -- a name has the same place on both sides: both are old, or both are new
          have hplace : s.idxOf a = t.idxOf a' := Sum.inr.inj hidx
          have hseen : a ∈ s ↔ a' ∈ t := by
            rw [← List.idxOf_lt_length_iff, ← List.idxOf_lt_length_iff, hplace, hlength]
          have hlonger : (see s a).length = (see t a').length := by
            unfold see
            by_cases ha : a ∈ s
            · rw [if_pos ha, if_pos (hseen.mp ha), hlength]
            · rw [if_neg ha, if_neg fun h => ha (hseen.mpr h)]
              simp [hlength]
          obtain ⟨f, hmap, rfl, hinj⟩ := ih (nodup_see hs) (nodup_see ht) hlonger hrest
          have hboth : s.map f = t ∧ f a = a' := by
            unfold see at hmap
            by_cases ha : a ∈ s
            · rw [if_pos ha, if_pos (hseen.mp ha)] at hmap
              refine ⟨hmap, ?_⟩
              -- an old name keeps its partner, since the exchange found for the rest is injective
              have hone : ∀ b ∈ s, f b = f a → b = a := fun b hb heq =>
                hinj (.inl (mem_see.mpr (.inl hb))) (.inl (mem_see.mpr (.inr rfl))) heq
              have hfa : (s.map f).idxOf (f a) = t.idxOf a' := (idxOf_map hone).trans hplace
              rw [hmap] at hfa
              exact (List.idxOf_inj (hmap ▸ List.mem_map_of_mem ha)).mp hfa
            · rw [if_neg ha, if_neg fun h => ha (hseen.mpr h), List.map_append] at hmap
              obtain ⟨hsame, hlast⟩ := List.append_inj' hmap rfl
              exact ⟨hsame, List.singleton_inj.mp hlast⟩
          refine ⟨f, hboth.1, ?_, hinj.mono fun c hc => ?_⟩
          · rw [← hboth.2]
            rfl
          · rcases hc with hc | hc
            · exact .inl (mem_see.mpr (.inl hc))
            · rcases List.mem_cons.mp hc with hc | hc
              · exact .inl (mem_see.mpr (.inr (Sum.inr.inj hc)))
              · exact .inr hc

/-- Texts are numbered alike exactly when one is the other with its names exchanged. -/
theorem number_eq_iff (ts ts' : List (β ⊕ α)) : number [] ts = number [] ts' ↔
    ∃ f : α → α, Set.InjOn f (names ts) ∧ ts' = rename f ts := by
  constructor
  · intro h
    obtain ⟨f, -, hrename, hinj⟩ := exists_rename .nil .nil rfl h
    exact ⟨f, hinj.mono fun c hc => .inr hc, hrename⟩
  · rintro ⟨f, hinj, rfl⟩
    have hseen : Set.InjOn f ({b | b ∈ ([] : List α)} ∪ names ts) :=
      hinj.mono fun c hc => hc.resolve_left (List.not_mem_nil)
    exact (number_rename ts hseen).symm

/-! ## Texts of several lines -/

/-- The names seen after a text. -/
def seenAfter (seen : List α) : List (β ⊕ α) → List α
  | [] => seen
  | .inl _ :: ts => seenAfter seen ts
  | .inr a :: ts => seenAfter (see seen a) ts

/-- Lines with each name exchanged for the place of its first occurrence in any of them. -/
def numberAll (seen : List α) : List (List (β ⊕ α)) → List (List (β ⊕ ℕ))
  | [] => []
  | l :: ls => number seen l :: numberAll (seenAfter seen l) ls

theorem mem_number {tok : β ⊕ ℕ} {ts : List (β ⊕ α)} (h : tok ∈ number seen ts) :
    (∃ b, tok = .inl b ∧ .inl b ∈ ts) ∨ ∃ n, tok = .inr n := by
  induction ts generalizing seen with
  | nil => cases h
  | cons tok' ts ih =>
    cases tok' with
    | inl b =>
      rcases List.mem_cons.mp h with rfl | h
      · exact .inl ⟨b, rfl, List.mem_cons_self⟩
      · exact (ih h).imp (fun ⟨b', hb, hmem⟩ => ⟨b', hb, List.mem_cons_of_mem _ hmem⟩) id
    | inr a =>
      rcases List.mem_cons.mp h with rfl | h
      · exact .inr ⟨_, rfl⟩
      · exact (ih h).imp (fun ⟨b', hb, hmem⟩ => ⟨b', hb, List.mem_cons_of_mem _ hmem⟩) id

theorem mem_numberAll {l : List (β ⊕ ℕ)} {ls : List (List (β ⊕ α))} (h : l ∈ numberAll seen ls) :
    ∃ s, ∃ ts ∈ ls, l = number s ts := by
  induction ls generalizing seen with
  | nil => cases h
  | cons ts ls ih =>
    rcases List.mem_cons.mp h with rfl | h
    · exact ⟨seen, ts, List.mem_cons_self, rfl⟩
    · obtain ⟨s, ts', hmem, rfl⟩ := ih h
      exact ⟨s, ts', List.mem_cons_of_mem _ hmem, rfl⟩

/-- Lines as one text, a mark at the end of each. -/
def flat {γ : Type*} (ls : List (List (β ⊕ γ))) : List (Option β ⊕ γ) :=
  ls.flatMap fun l => l.map (Sum.map some id) ++ [.inl none]

theorem number_append (seen : List α) (ts ts' : List (β ⊕ α)) :
    number seen (ts ++ ts') = number seen ts ++ number (seenAfter seen ts) ts' := by
  induction ts generalizing seen with
  | nil => rfl
  | cons tok ts ih => cases tok <;> exact congrArg (_ :: ·) (ih _)

theorem number_marked (seen : List α) (ts : List (β ⊕ α)) :
    number seen (ts.map (Sum.map some id)) = (number seen ts).map (Sum.map some id) ∧
      seenAfter seen (ts.map (Sum.map (some : β → Option β) id)) = seenAfter seen ts := by
  induction ts generalizing seen with
  | nil => exact ⟨rfl, rfl⟩
  | cons tok ts ih =>
    cases tok with
    | inl b => exact ⟨congrArg (_ :: ·) (ih seen).1, (ih seen).2⟩
    | inr a => exact ⟨congrArg (_ :: ·) (ih (see seen a)).1, (ih (see seen a)).2⟩

theorem number_flat (seen : List α) (ls : List (List (β ⊕ α))) :
    number seen (flat ls) = flat (numberAll seen ls) := by
  induction ls generalizing seen with
  | nil => rfl
  | cons l ls ih =>
    rw [flat, List.flatMap_cons, List.append_assoc, number_append, (number_marked seen l).1,
      (number_marked seen l).2]
    show _ ++ (Sum.inl none :: number (seenAfter seen l) (flat ls)) = _
    rw [ih, numberAll, flat, flat, List.flatMap_cons, List.append_assoc]
    rfl

/-- A line ends at its mark. -/
theorem append_mark {γ : Type*} {l l' : List (β ⊕ γ)} {r r' : List (Option β ⊕ γ)}
    (h : l.map (Sum.map some id) ++ .inl none :: r = l'.map (Sum.map some id) ++ .inl none :: r') :
    l = l' ∧ r = r' := by
  induction l generalizing l' with
  | nil =>
    cases l' with
    | nil => exact ⟨rfl, (List.cons.inj h).2⟩
    | cons tok' l' => cases tok' <;> cases h
  | cons tok l ih =>
    cases l' with
    | nil => cases tok <;> cases h
    | cons tok' l' =>
      obtain ⟨htok, hrest⟩ := List.cons.inj h
      obtain ⟨rfl, rfl⟩ := ih hrest
      refine ⟨?_, rfl⟩
      cases tok <;> cases tok' <;> simp_all

theorem flat_injective {γ : Type*} : Function.Injective (flat (β := β) (γ := γ)) := by
  intro ls ls' h
  induction ls generalizing ls' with
  | nil =>
    cases ls' with
    | nil => rfl
    | cons l' ls' =>
      rw [flat, flat, List.flatMap_cons] at h
      simp at h
  | cons l ls ih =>
    cases ls' with
    | nil =>
      rw [flat, flat, List.flatMap_cons] at h
      simp at h
    | cons l' ls' =>
      rw [flat, flat, List.flatMap_cons, List.flatMap_cons, List.append_assoc,
        List.append_assoc] at h
      obtain ⟨rfl, hrest⟩ := append_mark h
      rw [ih hrest]

omit [DecidableEq α] in
theorem flat_rename (f : α → α) (ls : List (List (β ⊕ α))) :
    flat (ls.map (rename f)) = rename f (flat ls) := by
  induction ls with
  | nil => rfl
  | cons l ls ih =>
    have hcons : ∀ (l : List (β ⊕ α)) ls, flat (l :: ls) =
        l.map (Sum.map some id) ++ (.inl none :: flat ls) := fun l ls => by
      rw [flat, List.flatMap_cons, List.append_assoc]
      rfl
    rw [List.map_cons, hcons, hcons, ih, rename, rename, rename, List.map_append, List.map_map,
      List.map_map, List.map_cons]
    congr 2
    funext tok
    cases tok <;> rfl

omit [DecidableEq α] in
theorem names_flat (ls : List (List (β ⊕ α))) : names (flat ls) = {a | ∃ l ∈ ls, .inr a ∈ l} := by
  ext a
  show .inr a ∈ flat ls ↔ _
  simp [flat, List.mem_flatMap]

/-- The same of lines. -/
theorem numberAll_eq_iff (ls ls' : List (List (β ⊕ α))) : numberAll [] ls = numberAll [] ls' ↔
    ∃ f : α → α, Set.InjOn f {a | ∃ l ∈ ls, .inr a ∈ l} ∧ ls' = ls.map (rename f) := by
  rw [← flat_injective.eq_iff, ← number_flat, ← number_flat, number_eq_iff, names_flat]
  refine exists_congr fun f => and_congr_right fun _ => ?_
  rw [← flat_rename, flat_injective.eq_iff]

end Naming
