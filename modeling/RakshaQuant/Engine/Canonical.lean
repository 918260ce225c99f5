import Mathlib.Data.List.SplitBy
import RakshaQuant.Domain.Clock
import RakshaQuant.Domain.Json
import RakshaQuant.Lib.Renaming
import RakshaQuant.Store.EventStore

/-! The canonical lines of a store's events, for golden comparisons: JSON with sorted keys, less
the `seq` and what the wall clock measured, and the generated ids as `ID1`, `ID2` and so on in the
order they appear. Two stores have the same lines exactly when their texts differ in nothing but
the choice of the ids. -/

namespace RakshaQuant

/-! ## Records -/

namespace Store.EventStore

def Event.toDict (e : Event Json) : List (String × Json) :=
  [("seq", e.seq.elim .null fun n => .num (toString n)), ("ts_utc", .str (isoformat e.tsUtc)),
    ("ist_date", .str (Day.isoformat e.istDate)), ("type", .str e.type),
    ("schema_version", .num (toString e.schemaVersion)),
    ("decision_id", .ofOption e.decisionId), ("cycle_id", .ofOption e.cycleId),
    ("book_id", .ofOption e.bookId), ("symbol", .ofOption e.symbol), ("source", .str e.source),
    ("payload", e.payload)]

end Store.EventStore

namespace Canonical

open Store.EventStore (Event)

def wallClock : List String := ["latency_ms", "uptime_s", "loop_lag_ms", "pid"]

/-- A payload without what the wall clock measured. -/
def timeless : Json → Json
  | .obj fields => .obj (fields.map fun e => if e.1 ∈ wallClock then (e.1, .null) else e)
  | payload => payload

/-- The record of an event, less its `seq`. -/
def record (e : Event Json) : Json :=
  .obj ((e.toDict.filter fun f => f.1 ≠ "seq").map fun f =>
    if f.1 = "payload" then (f.1, timeless f.2) else f)

def skipped : List String := ["Heartbeat", "LoopLag"]

/-- The texts in which the ids are still to be renamed. -/
def texts (skip : List String) (events : List (Event Json)) : List (List Char) :=
  (events.filter fun e => e.type ∉ skip).map fun e => (record e).dumps

/-! ## The generated ids -/

/-- `\\w` of an ASCII text. -/
def isWord (c : Char) : Bool := c.isAlphanum || c == '_'

def isHex (c : Char) : Bool := c.isDigit || ('a' ≤ c && c ≤ 'f')

/-- What `\\b[0-9a-f]{24}\\b` matches: a whole word, for a word's boundary is on either side. -/
def isId (run : List Char) : Bool := run.length = 24 && run.all isHex

/-- A text in its words and what stands between them. -/
def runs (text : List Char) : List (List Char) := text.splitBy fun a b => isWord a == isWord b

def idText (n : ℕ) : List Char := ("ID" ++ toString n).toList

/-- `rename`: an id has the number it was given when it first appeared. -/
def rename (ids : Dict (List Char) (List Char)) (m : List Char) :
    List Char × Dict (List Char) (List Char) :=
  let ids := ids.setdefault m (idText (ids.entries.length + 1))
  ((ids.get? m).getD [], ids)

/-- `_GENERATED_ID.sub(rename, text)`, over the runs of the text. -/
def sub (ids : Dict (List Char) (List Char)) :
    List (List Char) → List Char × Dict (List Char) (List Char)
  | [] => ([], ids)
  | run :: rest =>
    let renamed := if isId run then rename ids run else (run, ids)
    let later := sub renamed.2 rest
    (renamed.1 ++ later.1, later.2)

def lines (ids : Dict (List Char) (List Char)) : List (List Char) → List (List Char)
  | [] => []
  | text :: texts =>
    let line := sub ids (runs text)
    line.1 :: lines line.2 texts

end Canonical

def canonicalEvents (skip : List String) (events : List (Store.EventStore.Event Json)) :
    List (List Char) :=
  Canonical.lines .empty (Canonical.texts skip events)

namespace Canonical

/-! ## Runs -/

/-- A run: a word, or what stands between two. -/
def IsRun (m : List Char) : Prop := m ≠ [] ∧ ∃ k, ∀ c ∈ m, isWord c = k

def word (m : List Char) : Bool := m.all isWord

theorem IsRun.word_eq {m : List Char} (h : IsRun m) {c : Char} (hc : c ∈ m) : isWord c = word m := by
  obtain ⟨-, k, hk⟩ := h
  rw [hk c hc, word]
  cases k with
  | true => exact (List.all_eq_true.mpr hk).symm
  | false =>
    symm
    rw [← Bool.not_eq_true, List.all_eq_true]
    exact fun hall => Bool.false_ne_true ((hk c hc).symm.trans (hall c hc))

theorem isRun_of_chain {m : List Char} (hne : m ≠ [])
    (h : m.IsChain fun a b => isWord a == isWord b) : IsRun m := by
  induction m with
  | nil => exact absurd rfl hne
  | cons c m ih =>
    cases m with
    | nil => exact ⟨hne, isWord c, fun c' hc' => by rw [List.mem_singleton.mp hc']⟩
    | cons d m =>
      obtain ⟨hcd, hrest⟩ := List.isChain_cons_cons.mp h
      obtain ⟨-, k, hk⟩ := ih (by simp) hrest
      refine ⟨hne, k, fun c' hc' => ?_⟩
      rcases List.mem_cons.mp hc' with rfl | hc'
      · exact (beq_iff_eq.mp hcd).trans (hk d List.mem_cons_self)
      · exact hk c' hc'

theorem chain_of_isRun {m : List Char} (h : IsRun m) :
    m.IsChain fun a b => isWord a == isWord b := by
  obtain ⟨-, k, hk⟩ := h
  induction m with
  | nil => exact .nil
  | cons c m ih =>
    cases m with
    | nil => exact .singleton c
    | cons d m =>
      refine List.isChain_cons_cons.mpr ⟨?_, ih fun c' hc' => hk c' (List.mem_cons_of_mem _ hc')⟩
      exact beq_iff_eq.mpr ((hk c List.mem_cons_self).trans (hk d (by simp)).symm)

theorem isRun_runs {text m : List Char} (h : m ∈ runs text) : IsRun m :=
  isRun_of_chain (List.ne_nil_of_mem_splitBy h) (List.isChain_of_mem_splitBy h)

/-- Words and what stands between them take turns. -/
theorem turns_runs (text : List Char) : ((runs text).map word).IsChain (· ≠ ·) := by
  rw [List.isChain_map]
  have hchain := List.isChain_getLast_head_splitBy (fun a b => isWord a == isWord b) text
  refine List.IsChain.imp_of_mem_imp ?_ hchain
  rintro a b ha hb ⟨hane, hbne, hdiff⟩ heq
  rw [(isRun_runs ha).word_eq (List.getLast_mem hane), (isRun_runs hb).word_eq (List.head_mem hbne),
    heq, beq_self_eq_true] at hdiff
  cases hdiff

/-- Runs that take turns are those of the text they make. -/
theorem runs_flatten {rs : List (List Char)} (hrs : ∀ m ∈ rs, IsRun m)
    (hturns : (rs.map word).IsChain (· ≠ ·)) : runs rs.flatten = rs := by
  refine List.splitBy_flatten (fun hnil => (hrs [] hnil).1 rfl)
    (fun m hm => chain_of_isRun (hrs m hm)) ?_
  rw [List.isChain_map] at hturns
  refine List.IsChain.imp_of_mem_imp ?_ hturns
  intro a b ha hb hdiff
  refine ⟨(hrs a ha).1, (hrs b hb).1, beq_false_of_ne fun heq => hdiff ?_⟩
  rw [← (hrs a ha).word_eq (List.getLast_mem (hrs a ha).1), heq,
    (hrs b hb).word_eq (List.head_mem (hrs b hb).1)]

theorem flatten_runs (text : List Char) : (runs text).flatten = text := List.flatten_splitBy _ _

/-! ## Names -/

open Naming (number numberAll place see seenAfter)

def token (run : List Char) : List Char ⊕ List Char := if isId run then .inr run else .inl run

def tokens (text : List Char) : List (List Char ⊕ List Char) := (runs text).map token

/-- What an id is written as. -/
def written : List Char ⊕ ℕ → List Char := Sum.elim id fun n => idText (n + 1)

def line (ts : List (List Char ⊕ ℕ)) : List Char := (ts.map written).flatten

theorem line_inl (run : List Char) (ts : List (List Char ⊕ ℕ)) :
    line (.inl run :: ts) = run ++ line ts := rfl

theorem line_inr (n : ℕ) (ts : List (List Char ⊕ ℕ)) :
    line (.inr n :: ts) = idText (n + 1) ++ line ts := rfl

theorem isRun_word {m : List Char} (hne : m ≠ []) (h : ∀ c ∈ m, isWord c = true) :
    IsRun m ∧ word m = true := ⟨⟨hne, true, h⟩, List.all_eq_true.mpr h⟩

theorem isWord_of_isHex {c : Char} (h : isHex c = true) : isWord c = true := by
  unfold isHex at h
  unfold isWord Char.isAlphanum Char.isAlpha Char.isLower
  simp only [Bool.or_eq_true, Bool.and_eq_true, decide_eq_true_eq] at h ⊢
  rcases h with h | ⟨ha, hf⟩
  · exact .inl (.inr h)
  · have hz : c ≤ 'z' := Char.le_trans hf (by decide)
    exact .inl (.inl (.inr ⟨ha, hz⟩))

theorem isId_word {m : List Char} (h : isId m = true) : IsRun m ∧ word m = true := by
  unfold isId at h
  rw [Bool.and_eq_true, decide_eq_true_eq] at h
  refine isRun_word ?_ fun c hc => isWord_of_isHex (List.all_eq_true.mp h.2 c hc)
  rintro rfl
  cases h.1

theorem idText_eq (n : ℕ) : idText n = 'I' :: 'D' :: (toString n).toList := by
  rw [idText, String.toList_append]
  rfl

theorem idText_injective : Function.Injective idText := by
  intro m n h
  rw [idText_eq, idText_eq] at h
  have hdigits : (toString m).toList = (toString n).toList :=
    (List.cons.inj (List.cons.inj h).2).2
  exact Numeral.toString_injective (String.toList_injective hdigits)

theorem idText_word (n : ℕ) : IsRun (idText n) ∧ word (idText n) = true := by
  rw [idText_eq]
  refine isRun_word (by simp) fun c hc => ?_
  rcases List.mem_cons.mp hc with rfl | hc
  · decide
  · rcases List.mem_cons.mp hc with rfl | hc
    · decide
    · have hdigit : c.isDigit = true := by
        have : c ∈ Nat.toDigits 10 n := by simpa using hc
        exact Nat.isDigit_of_mem_toDigits (by decide) (by decide) this
      simp [isWord, Char.isAlphanum, hdigit]

/-! ## The dictionary of ids -/

/-- The ids seen, each with its number as text. -/
structure Holds (ids : Dict (List Char) (List Char)) (seen : List (List Char)) : Prop where
  keys : ids.keys = seen
  value : ∀ m ∈ seen, ids.get? m = some (idText (place seen m + 1))

theorem holds_empty : Holds .empty [] := ⟨rfl, fun _ h => nomatch h⟩

theorem Holds.rename {ids : Dict (List Char) (List Char)} {seen : List (List Char)}
    (h : Holds ids seen) (m : List Char) :
    (rename ids m).1 = idText (place seen m + 1) ∧ Holds (rename ids m).2 (see seen m) := by
  have hlength : ids.entries.length = seen.length := by
    rw [← h.keys, Dict.keys, List.length_map]
  unfold Canonical.rename
  rw [hlength]
  by_cases hm : m ∈ seen
  · have hsame : ids.setdefault m (idText (seen.length + 1)) = ids := by
      rw [Dict.setdefault, h.value m hm]
    dsimp only
    rw [hsame, h.value m hm, see, if_pos hm]
    exact ⟨rfl, h⟩
  · have hnone : ids.get? m = none := by
      cases hget : ids.get? m with
      | none => rfl
      | some v => exact absurd (h.keys ▸ ids.mem_keys_iff.mpr ⟨v, hget⟩) hm
    have hnew : ids.setdefault m (idText (seen.length + 1)) =
        ids.set m (idText (seen.length + 1)) := by
      rw [Dict.setdefault, hnone]
    dsimp only
    rw [hnew, Dict.get?_set_self, Naming.place_of_notMem hm]
    refine ⟨rfl, ?_, fun m' hm' => ?_⟩
    · rw [Dict.keys_set, h.keys, see]
    · rw [Dict.get?_set]
      rcases Naming.mem_see.mp hm' with hold | rfl
      · have hne : m' ≠ m := fun heq => hm (heq ▸ hold)
        rw [if_neg hne, h.value m' hold, Naming.place_see_of_mem hold]
      · rw [if_pos rfl, Naming.place_see hm]

/-- A text comes out with its ids numbered by their first occurrence. -/
theorem Holds.sub {ids : Dict (List Char) (List Char)} {seen : List (List Char)}
    (h : Holds ids seen) (rs : List (List Char)) :
    (sub ids rs).1 = line (number seen (rs.map token)) ∧
      Holds (sub ids rs).2 (seenAfter seen (rs.map token)) := by
  induction rs generalizing ids seen with
  | nil => exact ⟨rfl, h⟩
  | cons run rest ih =>
    cases hid : isId run with
    | true =>
      obtain ⟨hname, hholds⟩ := h.rename run
      obtain ⟨hrest, hafter⟩ := ih hholds
      have htoken : token run = .inr run := if_pos hid
      rw [List.map_cons, htoken, Canonical.sub, if_pos hid]
      refine ⟨?_, hafter⟩
      rw [number, line_inr, ← hrest]
      exact congrArg (· ++ _) hname
    | false =>
      obtain ⟨hrest, hafter⟩ := ih h
      have hno : ¬isId run = true := Bool.eq_false_iff.mp hid
      have htoken : token run = .inl run := if_neg hno
      rw [List.map_cons, htoken, Canonical.sub, if_neg hno]
      refine ⟨?_, hafter⟩
      rw [number, line_inl, ← hrest]

theorem Holds.lines {ids : Dict (List Char) (List Char)} {seen : List (List Char)}
    (h : Holds ids seen) (texts : List (List Char)) :
    lines ids texts = (numberAll seen (texts.map tokens)).map line := by
  induction texts generalizing ids seen with
  | nil => rfl
  | cons text texts ih =>
    obtain ⟨hline, hafter⟩ := h.sub (runs text)
    show _ = line (number seen ((runs text).map token)) ::
      (numberAll (seenAfter seen ((runs text).map token)) (texts.map tokens)).map line
    rw [← ih hafter, ← hline]
    rfl

/-! ## Up to the choice of ids -/

/-- The generated ids in some texts. -/
def ids (texts : List (List Char)) : Set (List Char) :=
  {m | isId m = true ∧ ∃ text ∈ texts, m ∈ runs text}

/-- No word of the texts is itself an `ID1`, `ID2` and so on. -/
def Unnumbered (texts : List (List Char)) : Prop := ∀ text ∈ texts, ∀ n, idText n ∉ runs text

theorem unnumbered_of_starts {texts : List (List Char)}
    (h : ∀ text ∈ texts, ∀ m ∈ runs text, m.take 2 ≠ ['I', 'D']) : Unnumbered texts := by
  intro text htext n hmem
  exact h text htext _ hmem (by rw [idText_eq]; rfl)

/-- A text with its ids exchanged. -/
def exchanged (f : List Char → List Char) (text : List Char) : List Char :=
  ((runs text).map fun run => if isId run then f run else run).flatten

/-- The text that tokens stand for. -/
def plain : List Char ⊕ List Char → List Char := Sum.elim id id

theorem plain_token (run : List Char) : plain (token run) = run := by
  unfold token
  split <;> rfl

theorem mem_ids {texts : List (List Char)} {m : List Char} :
    m ∈ ids texts ↔ ∃ ts ∈ texts.map tokens, .inr m ∈ ts := by
  have htoken : ∀ run, token run = .inr m ↔ isId run = true ∧ run = m := by
    intro run
    unfold token
    split
    · rename_i hid
      exact ⟨fun h => ⟨hid, Sum.inr.inj h⟩, fun h => congrArg _ h.2⟩
    · rename_i hid
      exact ⟨fun h => (nomatch h), fun h => absurd h.1 hid⟩
  constructor
  · rintro ⟨hid, text, htext, hm⟩
    refine ⟨tokens text, List.mem_map_of_mem htext, ?_⟩
    exact List.mem_map.mpr ⟨m, hm, (htoken m).mpr ⟨hid, rfl⟩⟩
  · rintro ⟨ts, hts, hm⟩
    obtain ⟨text, htext, rfl⟩ := List.mem_map.mp hts
    obtain ⟨run, hrun, hsame⟩ := List.mem_map.mp hm
    obtain ⟨hid, rfl⟩ := (htoken run).mp hsame
    exact ⟨hid, text, htext, hrun⟩

/-- Whatever the ids seen, words stay words where the names are numbered. -/
theorem written_number (seen : List (List Char)) (ts : List (List Char ⊕ List Char))
    (hids : ∀ m, .inr m ∈ ts → isId m = true) :
    ((number seen ts).map written).map word = (ts.map plain).map word := by
  induction ts generalizing seen with
  | nil => rfl
  | cons tok ts ih =>
    have hrest : ∀ m, .inr m ∈ ts → isId m = true := fun m hm =>
      hids m (List.mem_cons_of_mem _ hm)
    cases tok with
    | inl run => exact congrArg (word run :: ·) (ih seen hrest)
    | inr m =>
      have hword : word (idText (place seen m + 1)) = word m :=
        (idText_word _).2.trans (isId_word (hids m List.mem_cons_self)).2.symm
      rw [number, List.map_cons, List.map_cons, List.map_cons, List.map_cons, ih (see seen m) hrest]
      exact congrArg (· :: _) hword

theorem isId_of_mem {text m : List Char} (h : .inr m ∈ tokens text) : isId m = true := by
  obtain ⟨run, -, hrun⟩ := List.mem_map.mp h
  unfold token at hrun
  split at hrun
  · rename_i hid
    exact Sum.inr.inj hrun ▸ hid
  · cases hrun

theorem mem_runs_of_mem {text run : List Char} (h : .inl run ∈ tokens text) : run ∈ runs text := by
  obtain ⟨run', hmem, hrun⟩ := List.mem_map.mp h
  have hsame : run' = run := (plain_token run').symm.trans (congrArg plain hrun)
  exact hsame ▸ hmem

theorem map_plain_tokens (text : List Char) : (tokens text).map plain = runs text := by
  rw [tokens, List.map_map]
  exact (List.map_congr_left fun run _ => plain_token run).trans (List.map_id _)

/-- The runs of a line that came out. -/
theorem runs_line (seen : List (List Char)) (text : List Char) :
    runs (line (number seen (tokens text))) = (number seen (tokens text)).map written := by
  refine runs_flatten (fun m hm => ?_) ?_
  · obtain ⟨tok, htok, rfl⟩ := List.mem_map.mp hm
    rcases Naming.mem_number htok with ⟨run, rfl, hrun⟩ | ⟨n, rfl⟩
    · exact isRun_runs (mem_runs_of_mem hrun)
    · exact (idText_word (n + 1)).1
  · rw [written_number seen _ fun m => isId_of_mem, map_plain_tokens]
    exact turns_runs text

theorem eq_of_map_eq {β γ : Type} {g : β → γ} {l l' : List β} (h : l.map g = l'.map g)
    (hinj : ∀ x ∈ l, ∀ y ∈ l', g x = g y → x = y) : l = l' := by
  induction l generalizing l' with
  | nil => exact (List.map_eq_nil_iff.mp h.symm).symm
  | cons x l ih =>
    cases l' with
    | nil => cases h
    | cons y l' =>
      obtain ⟨hhead, htail⟩ := List.cons.inj h
      rw [hinj x List.mem_cons_self y List.mem_cons_self hhead, ih htail fun x' hx' y' hy' =>
        hinj x' (List.mem_cons_of_mem _ hx') y' (List.mem_cons_of_mem _ hy')]

/-- A line tells how its names were numbered. -/
theorem number_of_line {texts texts' : List (List Char)} (h : Unnumbered texts)
    (h' : Unnumbered texts') {s s' : List (List Char)} {text text' : List Char}
    (htext : text ∈ texts) (htext' : text' ∈ texts')
    (hline : line (number s (tokens text)) = line (number s' (tokens text'))) :
    number s (tokens text) = number s' (tokens text') := by
  have hruns := congrArg runs hline
  rw [runs_line, runs_line] at hruns
  refine eq_of_map_eq hruns fun x hx y hy hxy => ?_
  rcases Naming.mem_number hx with ⟨run, rfl, hrun⟩ | ⟨n, rfl⟩ <;>
    rcases Naming.mem_number hy with ⟨run', rfl, hrun'⟩ | ⟨n', rfl⟩
  · exact congrArg _ hxy
  · have hsame : run = idText (n' + 1) := hxy
    exact absurd (hsame ▸ mem_runs_of_mem hrun) (h text htext (n' + 1))
  · have hsame : idText (n + 1) = run' := hxy
    exact absurd (hsame ▸ mem_runs_of_mem hrun') (h' text' htext' (n + 1))
  · have hsame : n + 1 = n' + 1 := idText_injective hxy
    rw [Nat.succ_injective hsame]

/-- Exchanging the ids of a text exchanges the names in it. -/
theorem tokens_exchanged {f : List Char → List Char} {text : List Char}
    (hids : ∀ m, .inr m ∈ tokens text → isId (f m) = true) :
    tokens (exchanged f text) = Naming.rename f (tokens text) := by
  have hid : ∀ run ∈ runs text, isId run = true → isId (f run) = true := fun run hrun hid =>
    hids run (List.mem_map.mpr ⟨run, hrun, if_pos hid⟩)
  have hruns : runs (exchanged f text) =
      (runs text).map fun run => if isId run then f run else run := by
    refine runs_flatten (fun m hm => ?_) ?_
    · obtain ⟨run, hrun, rfl⟩ := List.mem_map.mp hm
      split
      · rename_i his
        exact (isId_word (hid run hrun his)).1
      · exact isRun_runs hrun
    · have hword : ((runs text).map fun run => if isId run then f run else run).map word =
          (runs text).map word := by
        rw [List.map_map]
        refine List.map_congr_left fun run hrun => ?_
        show word (if isId run then f run else run) = word run
        split
        · rename_i his
          rw [(isId_word (hid run hrun his)).2, (isId_word his).2]
        · rfl
      rw [hword]
      exact turns_runs text
  rw [tokens, hruns, tokens, Naming.rename, List.map_map, List.map_map]
  refine List.map_congr_left fun run hrun => ?_
  show token (if isId run then f run else run) = Sum.map id f (token run)
  unfold token
  cases his : isId run with
  | true => simp [hid run hrun his]
  | false => simp [his]

theorem plain_rename (f : List Char → List Char) (text : List Char) :
    ((Naming.rename f (tokens text)).map plain).flatten = exchanged f text := by
  rw [Naming.rename, tokens, List.map_map, List.map_map, exchanged]
  congr 1
  refine List.map_congr_left fun run _ => ?_
  show plain (Sum.map id f (token run)) = if isId run then f run else run
  unfold token
  split <;> rfl

/-- Canonical lines are the same exactly when the texts are the same but for the ids, exchanged one
for one. -/
theorem lines_eq_iff {texts texts' : List (List Char)} (h : Unnumbered texts)
    (h' : Unnumbered texts') : lines .empty texts = lines .empty texts' ↔
      ∃ f : List Char → List Char, Set.InjOn f (ids texts) ∧ (∀ m ∈ ids texts, isId (f m) = true) ∧
        texts' = texts.map (exchanged f) := by
  have hids : {m | ∃ ts ∈ texts.map tokens, .inr m ∈ ts} = ids texts := by
    ext m
    exact mem_ids.symm
  have hlines : lines .empty texts = lines .empty texts' ↔
      numberAll [] (texts.map tokens) = numberAll [] (texts'.map tokens) := by
    rw [holds_empty.lines, holds_empty.lines]
    refine ⟨fun heq => eq_of_map_eq heq fun x hx y hy hxy => ?_, fun heq => by rw [heq]⟩
    obtain ⟨s, ts, hts, rfl⟩ := Naming.mem_numberAll hx
    obtain ⟨s', ts', hts', rfl⟩ := Naming.mem_numberAll hy
    obtain ⟨text, htext, rfl⟩ := List.mem_map.mp hts
    obtain ⟨text', htext', rfl⟩ := List.mem_map.mp hts'
    exact number_of_line h h' htext htext' hxy
  rw [hlines, Naming.numberAll_eq_iff, hids]
  refine exists_congr fun f => and_congr_right fun hinj => ?_
  constructor
  · intro htokens
    refine ⟨fun m hm => ?_, ?_⟩
    · obtain ⟨ts, hts, hmem⟩ := mem_ids.mp hm
      have hrenamed : .inr (f m) ∈ Naming.rename f ts := List.mem_map.mpr ⟨_, hmem, rfl⟩
      have hthere : Naming.rename f ts ∈ texts'.map tokens :=
        htokens ▸ List.mem_map_of_mem hts
      obtain ⟨text', -, hsame⟩ := List.mem_map.mp hthere
      exact isId_of_mem (hsame ▸ hrenamed)
    · have hplain := congrArg (List.map fun ts => (ts.map plain).flatten) htokens
      have hleft : (texts'.map tokens).map (fun ts => (ts.map plain).flatten) = texts' := by
        rw [List.map_map]
        refine (List.map_congr_left fun text _ => ?_).trans (List.map_id _)
        exact (congrArg List.flatten (map_plain_tokens text)).trans (flatten_runs text)
      rw [hleft, List.map_map, List.map_map] at hplain
      exact hplain.trans (List.map_congr_left fun text _ => plain_rename f text)
  · rintro ⟨hkept, rfl⟩
    rw [List.map_map, List.map_map]
    refine List.map_congr_left fun text htext => tokens_exchanged fun m hm => hkept m ?_
    exact mem_ids.mpr ⟨tokens text, List.mem_map_of_mem htext, hm⟩

end Canonical

/-- Two stores have the same canonical lines exactly when their texts are the same but for the
generated ids, exchanged one for one, as long as no text has a word `ID1`, `ID2` and so on. -/
theorem canonicalEvents_eq_iff {skip : List String}
    {events events' : List (Store.EventStore.Event Json)}
    (h : Canonical.Unnumbered (Canonical.texts skip events))
    (h' : Canonical.Unnumbered (Canonical.texts skip events')) :
    canonicalEvents skip events = canonicalEvents skip events' ↔
      ∃ f : List Char → List Char, Set.InjOn f (Canonical.ids (Canonical.texts skip events)) ∧
        (∀ m ∈ Canonical.ids (Canonical.texts skip events), Canonical.isId (f m) = true) ∧
        Canonical.texts skip events' =
          (Canonical.texts skip events).map (Canonical.exchanged f) :=
  Canonical.lines_eq_iff h h'

namespace Canonical

/-- An alert whose decision has an id. -/
def alert (id : String) (seq : ℕ) (latency : String) : Store.EventStore.Event Json where
  type := "Alert"
  payload := .obj [("latency_ms", .num latency), ("decision", .str ("A:" ++ id))]
  tsUtc := 1790000000000000
  istDate := 20717
  source := "oms"
  schemaVersion := 1
  seq := some seq
  decisionId := some id
  cycleId := none
  bookId := none
  symbol := none

/-- Two decisions with a heartbeat between them. -/
def alerts (first second : String) (seq : ℕ) (latency : String) :
    List (Store.EventStore.Event Json) :=
  [alert first seq latency, { alert first (seq + 1) latency with type := "Heartbeat" },
    alert second (seq + 2) latency]

/-- The texts differ by an exchange of their ids. -/
def Exchanged (events events' : List (Store.EventStore.Event Json)) : Prop :=
  ∃ f : List Char → List Char, Set.InjOn f (ids (texts skipped events)) ∧
    (∀ m ∈ ids (texts skipped events), isId (f m) = true) ∧
    texts skipped events' = (texts skipped events).map (exchanged f)

end Canonical

open Canonical in
/-- Two other ids, in the other order: the same lines. One id for both decisions: other lines. -/
theorem canonicalEvents_eq_iff_alerts :
    Exchanged (alerts "00f1e2d3c4b5a69788796a5b" "0a1b2c3d4e5f60718293a4b5" 7 "1.5")
      (alerts "0b5a4938271605f4e3d2c1b0" "0012233445566778899aabbc" 9 "2.25") ∧
    ¬Exchanged (alerts "00f1e2d3c4b5a69788796a5b" "0a1b2c3d4e5f60718293a4b5" 7 "1.5")
      (alerts "0b5a4938271605f4e3d2c1b0" "0b5a4938271605f4e3d2c1b0" 9 "2.25") := by
  have hfirst : Unnumbered (texts skipped
      (alerts "00f1e2d3c4b5a69788796a5b" "0a1b2c3d4e5f60718293a4b5" 7 "1.5")) :=
    unnumbered_of_starts (by decide +kernel)
  refine ⟨(canonicalEvents_eq_iff hfirst (unnumbered_of_starts (by decide +kernel))).mp
    (by decide +kernel), fun hexchanged => ?_⟩
  have hsame := (canonicalEvents_eq_iff hfirst
    (unnumbered_of_starts (by decide +kernel))).mpr hexchanged
  exact absurd hsame (by decide +kernel)

open Canonical in
/-- A text that has a word `ID1` already: equal lines, and no exchange of ids. -/
example : canonicalEvents skipped [alert "00f1e2d3c4b5a69788796a5b" 7 "1.5"] =
    canonicalEvents skipped [alert "ID1" 9 "2.25"] := by
  decide +kernel

end RakshaQuant
