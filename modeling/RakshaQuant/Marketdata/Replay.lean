import RakshaQuant.Lib.AsOf
import RakshaQuant.Lib.Frame
import RakshaQuant.Lib.Grouping
import RakshaQuant.Marketdata.QuoteRecovery

/-! Replaying taped quotes. A tape serves, at every moment, what the live source had then: the
same last quote of every instrument whenever it is polled, and the same quotes poll for poll. -/

namespace RakshaQuant

/-! ## The source that replays -/

/-- The quotes of each instrument in the order they were received, and those served last. -/
structure TapeQuoteSource where
  quotes : Dict String (List Quote)
  lastQuotes : Dict String Quote

namespace TapeQuoteSource

def byKey (quotes : List Quote) : Dict String (List Quote) :=
  Dict.collect (quotes.map fun q => (q.instrumentKey, q))

def init (quotes : List Quote) : TapeQuoteSource :=
  { quotes := .ofList ((byKey quotes).entries.map fun e => (e.1, AsOf.sorted Quote.receiptTs e.2))
    lastQuotes := .empty }

def latest (s : TapeQuoteSource) (key : String) (t : Instant) : Option Quote :=
  (s.quotes.get? key).bind fun quotes => AsOf.latest Quote.receiptTs quotes t

/-- One round of the loop of `poll`, over the key of an instrument. -/
def serve (now : Instant) (polled : TapeQuoteSource × Dict String Quote) (key : String) :
    TapeQuoteSource × Dict String Quote :=
  match polled.1.latest key now with
  | none => polled
  | some quote =>
    if polled.1.lastQuotes.get? key = some quote then polled
    else ({ polled.1 with lastQuotes := polled.1.lastQuotes.set key quote },
      polled.2.set key quote)

def poll (now : Instant) (s : TapeQuoteSource) : PollResult × TapeQuoteSource :=
  let polled := s.quotes.keys.foldl (serve now) (s, .empty)
  ({ ok := true, quotes := polled.2, missing := [], rejected := [], error := none }, polled.1)

/-- The source after polls at some instants. -/
def run (s : TapeQuoteSource) (instants : List Instant) : TapeQuoteSource :=
  instants.foldl (fun s now => (s.poll now).2) s

variable {s : TapeQuoteSource} {now t : Instant} {key : String}

/-! ## A poll -/

theorem latest_congr {s' : TapeQuoteSource} (h : s'.quotes = s.quotes) (key : String)
    (t : Instant) : s'.latest key t = s.latest key t := by
  rw [latest, latest, h]

/-- What a poll says of an instrument that it has come to, and of one that it has not. -/
structure Served (s : TapeQuoteSource) (now : Instant) (keys : List String)
    (polled : TapeQuoteSource × Dict String Quote) : Prop where
  quotes : polled.1.quotes = s.quotes
  last : ∀ key ∈ keys,
    polled.1.lastQuotes.get? key = (s.latest key now).or (s.lastQuotes.get? key)
  fresh : ∀ key ∈ keys, polled.2.get? key =
    (s.latest key now).filter fun quote => s.lastQuotes.get? key ≠ some quote
  later : ∀ key ∉ keys, polled.1.lastQuotes.get? key = s.lastQuotes.get? key ∧
    polled.2.get? key = none

theorem Served.step {keys : List String} {polled : TapeQuoteSource × Dict String Quote}
    (h : Served s now keys polled) (hnew : key ∉ keys) :
    Served s now (keys ++ [key]) (serve now polled key) := by
  have hlatest : polled.1.latest key now = s.latest key now := latest_congr h.quotes key now
  obtain ⟨hlast, hnone⟩ := h.later key hnew
  have hserved : (serve now polled key).1.quotes = s.quotes ∧
      (serve now polled key).1.lastQuotes.get? key =
        (s.latest key now).or (s.lastQuotes.get? key) ∧
      (serve now polled key).2.get? key =
        ((s.latest key now).filter fun quote => s.lastQuotes.get? key ≠ some quote) ∧
      ∀ key', key' ≠ key →
        (serve now polled key).1.lastQuotes.get? key' = polled.1.lastQuotes.get? key' ∧
        (serve now polled key).2.get? key' = polled.2.get? key' := by
    unfold TapeQuoteSource.serve
    rw [hlatest]
    cases s.latest key now with
    | none => exact ⟨h.quotes, hlast, hnone, fun key' _ => ⟨rfl, rfl⟩⟩
    | some quote =>
      dsimp only
      by_cases hsame : polled.1.lastQuotes.get? key = some quote
      · rw [if_pos hsame]
        refine ⟨h.quotes, hsame, ?_, fun key' _ => ⟨rfl, rfl⟩⟩
        simp [hnone, ← hlast, hsame, Option.filter_some]
      · rw [if_neg hsame]
        refine ⟨h.quotes, Dict.get?_set_self _ _ _, ?_, fun key' hne =>
          ⟨Dict.get?_set_ne _ _ hne, Dict.get?_set_ne _ _ hne⟩⟩
        rw [hlast] at hsame
        simp [hsame, Option.filter_some]
  obtain ⟨hquotes, hkey, hfresh, hothers⟩ := hserved
  have hne : ∀ key' ∈ keys, key' ≠ key := fun key' hmem heq => hnew (heq ▸ hmem)
  refine ⟨hquotes, fun key' hmem => ?_, fun key' hmem => ?_, fun key' hmem => ?_⟩
  · rcases List.mem_append.mp hmem with hold | hself
    · rw [(hothers key' (hne key' hold)).1, h.last key' hold]
    · rw [List.mem_singleton.mp hself, hkey]
  · rcases List.mem_append.mp hmem with hold | hself
    · rw [(hothers key' (hne key' hold)).2, h.fresh key' hold]
    · rw [List.mem_singleton.mp hself, hfresh]
  · rw [List.mem_append, List.mem_singleton, not_or] at hmem
    rw [(hothers key' hmem.2).1, (hothers key' hmem.2).2]
    exact h.later key' hmem.1

theorem served_poll (s : TapeQuoteSource) (now : Instant) :
    Served s now s.quotes.keys (s.quotes.keys.foldl (serve now) (s, .empty)) := by
  have hrun : ∀ (rest done : List String) (polled : TapeQuoteSource × Dict String Quote),
      (done ++ rest).Nodup → Served s now done polled →
      Served s now (done ++ rest) (rest.foldl (serve now) polled) := by
    intro rest
    induction rest with
    | nil =>
      intro done polled _ h
      rw [List.append_nil]
      exact h
    | cons key rest ih =>
      intro done polled hnodup h
      have hnew : key ∉ done := fun hmem =>
        List.disjoint_of_nodup_append hnodup hmem List.mem_cons_self
      rw [List.append_cons, List.foldl_cons]
      exact ih (done ++ [key]) _ (by rwa [← List.append_cons]) (h.step hnew)
  exact hrun s.quotes.keys [] (s, .empty) s.quotes.nodup_keys
    ⟨rfl, fun _ h => (nomatch h), fun _ h => (nomatch h), fun _ _ => ⟨rfl, rfl⟩⟩

theorem latest_none (h : key ∉ s.quotes.keys) (t : Instant) : s.latest key t = none := by
  have hnone : s.quotes.get? key = none := by
    cases hget : s.quotes.get? key with
    | none => rfl
    | some quotes => exact absurd (s.quotes.mem_keys_iff.mpr ⟨quotes, hget⟩) h
  rw [latest, hnone]
  rfl

theorem quotes_poll (s : TapeQuoteSource) (now : Instant) : (s.poll now).2.quotes = s.quotes :=
  (served_poll s now).quotes

theorem lastQuotes_poll (s : TapeQuoteSource) (now : Instant) (key : String) :
    (s.poll now).2.lastQuotes.get? key = (s.latest key now).or (s.lastQuotes.get? key) := by
  by_cases hkey : key ∈ s.quotes.keys
  · exact (served_poll s now).last key hkey
  · rw [latest_none hkey]
    exact ((served_poll s now).later key hkey).1

theorem fresh_poll (s : TapeQuoteSource) (now : Instant) (key : String) :
    (s.poll now).1.quotes.get? key =
      (s.latest key now).filter fun quote => s.lastQuotes.get? key ≠ some quote := by
  by_cases hkey : key ∈ s.quotes.keys
  · exact (served_poll s now).fresh key hkey
  · rw [latest_none hkey]
    exact ((served_poll s now).later key hkey).2

/-! ## Polls in the order of time -/

theorem get?_init (tape : List Quote) (key : String) : (init tape).quotes.get? key =
    ((byKey tape).get? key).map (AsOf.sorted Quote.receiptTs) := Dict.get?_ofList_map _ _ key

theorem getD_get?_byKey (tape : List Quote) (key : String) :
    ((byKey tape).get? key).getD [] = tape.filter fun q => q.instrumentKey = key := by
  rw [byKey, Dict.getD_get?_collect, Dict.under, List.filterMap_map, ← List.filterMap_eq_filter]
  congr 1
  funext q
  simp [Option.guard]

/-- The quotes of an instrument that were received by a moment: the last of them is served. -/
theorem latest_init {tape taped : List Quote} (hperm : tape.Perm taped)
    (hordered : (taped.filter fun q => q.instrumentKey = key).Pairwise
      fun p q => p.receiptTs < q.receiptTs) (t : Instant) :
    (init tape).latest key t =
      ((taped.filter fun q => q.instrumentKey = key).filter fun q => q.receiptTs ≤ t).getLast? := by
  have hsorted : AsOf.sorted Quote.receiptTs (((byKey tape).get? key).getD []) =
      taped.filter fun q => q.instrumentKey = key := by
    rw [getD_get?_byKey]
    exact AsOf.sorted_of_perm (hperm.filter _) hordered
  rw [latest, get?_init]
  cases hkey : (byKey tape).get? key with
  | none =>
    rw [hkey] at hsorted
    rw [← hsorted]
    rfl
  | some quotes =>
    rw [hkey] at hsorted
    rw [Option.map_some, Option.bind_some, ← AsOf.latest_eq (hordered.imp le_of_lt), ← hsorted]
    rfl

theorem latest_or (tape : List Quote) (key : String) {t t' : Instant} (hle : t ≤ t') :
    ((init tape).latest key t').or ((init tape).latest key t) = (init tape).latest key t' := by
  rw [latest, latest, get?_init]
  cases (byKey tape).get? key with
  | none => rfl
  | some quotes => exact AsOf.latest_or (AsOf.pairwise_sorted _ _) hle

theorem quotes_run (s : TapeQuoteSource) (instants : List Instant) :
    (s.run instants).quotes = s.quotes := by
  induction instants generalizing s with
  | nil => rfl
  | cons now instants ih => exact (ih _).trans (quotes_poll s now)

/-- After polls in the order of time a tape has served what it has by the last of them. -/
theorem lastQuotes_run (tape : List Quote) {instants : List Instant} {t : Instant}
    (hordered : (instants ++ [t]).Pairwise (· ≤ ·)) (key : String) :
    ((init tape).run (instants ++ [t])).lastQuotes.get? key = (init tape).latest key t := by
  induction instants using List.reverseRecOn generalizing t with
  | nil =>
    refine (lastQuotes_poll (init tape) t key).trans ?_
    exact Option.or_none
  | append_singleton instants t₀ ih =>
    obtain ⟨hbefore, -, hle⟩ := List.pairwise_append.mp hordered
    have hstep : ((init tape).run (instants ++ [t₀] ++ [t])).lastQuotes.get? key =
        ((init tape).latest key t).or
          (((init tape).run (instants ++ [t₀])).lastQuotes.get? key) := by
      rw [← latest_congr (quotes_run (init tape) (instants ++ [t₀])), run, List.foldl_append]
      exact lastQuotes_poll _ t key
    rw [hstep, ih hbefore]
    exact latest_or tape key (hle t₀ (by simp) t (by simp))

end TapeQuoteSource

/-! ## The source that was live -/

namespace QuoteSource

open Effect (Leaves)

variable {c : QuoteSourceConfig} {s s' : QuoteSource} {now : Instant}

theorem leaves_emitStale (keys : List String) (ageS : Option ℚ) (reason : String) :
    Leaves lastQuotes (emitStale keys ageS reason) := .ite (.throw _) (.change fun _ => rfl)

theorem leaves_emitRecovered (keys : List String) (staleForS : ℚ) :
    Leaves lastQuotes (emitRecovered keys staleForS) := .ite (.throw _) (.change fun _ => rfl)

theorem leaves_failed (c : QuoteSourceConfig) (now : Instant) (error : String) :
    Leaves lastQuotes (failed c now error) := by
  refine .bind (.change fun _ => rfl) fun _ => .read fun s => .ite ?_ (.pure _)
  exact .bind (.change fun _ => rfl) fun _ => .bind (leaves_emitStale _ _ _) fun _ => .pure _

theorem leaves_markFeedUp (now : Instant) : Leaves lastQuotes (markFeedUp now) := by
  refine .bind (.change fun _ => rfl) fun _ => .read fun s => ?_
  cases s.feedDownSince with
  | none => exact .pure _
  | some since => exact .bind (.change fun _ => rfl) fun _ => leaves_emitRecovered _ _

theorem leaves_takeQuotes (now : Instant) (items : List (String × RawQuote))
    (quotes : Dict String Quote) (rejected : List String) :
    Leaves lastQuotes (takeQuotes now items quotes rejected) := by
  induction items generalizing quotes rejected with
  | nil => exact .pure _
  | cons item rest ih =>
    refine .read fun s => ?_
    dsimp only
    cases s.validator.check (item.2.withPrevClose (s.prevClose.get? item.1)) with
    | some reason => exact .bind (.change fun _ => rfl) fun _ => ih _ _
    | none =>
      dsimp only
      cases (item.2.withPrevClose (s.prevClose.get? item.1)).toQuote now with
      | error e => exact .throw e
      | ok quote => exact .bind (.change fun _ => rfl) fun _ => ih _ _

theorem leaves_updateSymbolStaleness (c : QuoteSourceConfig) (now : Instant)
    (quotes : Dict String Quote) (missing : List String) :
    Leaves lastQuotes (updateSymbolStaleness c now quotes missing) := by
  have hreport : ∀ keys ageS reason, Leaves lastQuotes (reportStale keys ageS reason) :=
    fun keys ageS reason => .ite (.pure _) (leaves_emitStale _ _ _)
  refine .read fun s => .bind (hreport _ _ _) fun _ => .bind (hreport _ _ _) fun _ =>
    .bind (.change fun _ => rfl) fun _ => ?_
  exact .ite (.pure _) (.read fun s => .bind (leaves_emitRecovered _ _) fun _ =>
    .change fun _ => rfl)

/-- The quotes that a poll returns; none, where it raises. -/
def returned : EStateM.Result Exc QuoteSource PollResult → Dict String Quote
  | .ok result _ => result.quotes
  | .error _ _ => .empty

/-- A poll whose quotes could be written to the tape: those it returns are now the last. -/
structure Polled (now : Instant) (s : QuoteSource)
    (r : EStateM.Result Exc QuoteSource PollResult) : Prop where
  last : ∀ key, r.state.lastQuotes.get? key =
    ((returned r).get? key).or (s.lastQuotes.get? key)
  keyed : ∀ key quote, (returned r).get? key = some quote →
    quote.instrumentKey = key ∧ quote.receiptTs = now

theorem Polled.nothing {r : EStateM.Result Exc QuoteSource PollResult}
    (hlast : r.state.lastQuotes = s.lastQuotes) (hnone : returned r = .empty) :
    Polled now s r := by
  refine ⟨fun key => ?_, fun key quote h => ?_⟩
  · rw [hlast, hnone]
    rfl
  · rw [hnone] at h
    cases h

theorem toQuote_receiptTs {q : RawQuote} {quote : Quote} (h : q.toQuote now = .ok quote) :
    quote.receiptTs = now := by
  unfold RawQuote.toQuote at h
  split at h
  · split at h
    · cases h
      rfl
    · cases h
  · cases h

theorem polled_failed (c : QuoteSourceConfig) (error : String) :
    Polled now s (failed c now error s) := by
  refine .nothing (leaves_failed c now error s) ?_
  simp only [failed, Effect.run_bind, Effect.run_modify, Effect.run_get]
  split
  · unfold emitStale
    split <;> rfl
  · rfl

/-- A dictionary brought up to date: what is new stands before what there was. -/
theorem get?_update {ν : Type*} (new old : Dict String ν) (key : String) :
    (new.entries.foldl (fun last e => last.set e.1 e.2) old).get? key =
      (new.get? key).or (old.get? key) := by
  have hrun : ∀ (es : List (String × ν)) (old : Dict String ν), (es.map Prod.fst).Nodup →
      (es.foldl (fun last e => last.set e.1 e.2) old).get? key =
        (es.lookup key).or (old.get? key) := by
    intro es
    induction es with
    | nil => exact fun old _ => rfl
    | cons e es ih =>
      intro old hnodup
      rw [List.map_cons, List.nodup_cons] at hnodup
      rw [List.foldl_cons, ih _ hnodup.2, Dict.get?_set, List.lookup_cons]
      by_cases hkey : key = e.1
      · subst hkey
        have hnone : es.lookup e.1 = none := by
          rw [List.lookup_eq_none_iff]
          rintro e' hmem
          simpa using fun heq => hnodup.1 (List.mem_map.mpr ⟨e', hmem, heq.symm⟩)
        simp [hnone]
      · have hne : (key == e.1) = false := beq_false_of_ne hkey
        simp [hkey, hne]
  exact hrun new.entries old new.nodup_keys

theorem polled_accept {raw : Dict String RawQuote}
    (hkeyed : ∀ key item, raw.get? key = some item → item.instrumentKey = key) :
    Polled now s (accept c now raw none s) := by
  have hup := leaves_markFeedUp now s
  unfold accept
  cases hmark : markFeedUp now s with
  | error e s₀ =>
    rw [Effect.run_bind_error hmark]
    rw [hmark] at hup
    exact .nothing hup rfl
  | ok u s₀ =>
    rw [Effect.run_bind_ok hmark]
    rw [hmark] at hup
    -- the quotes are taken in the order of their keys, each key once
    have hmem : ∀ key item, (key, item) ∈ raw.entries.insertionSort (fun a b => a.1 ≤ b.1) ↔
        raw.get? key = some item := fun key item => by
      rw [List.mem_insertionSort, raw.mem_entries_iff]
    have hnodup : ((raw.entries.insertionSort fun a b => a.1 ≤ b.1).map Prod.fst).Nodup :=
      (((List.perm_insertionSort _ raw.entries).map Prod.fst).nodup_iff).mpr raw.nodup_keys
    have htake := leaves_takeQuotes now (raw.entries.insertionSort fun a b => a.1 ≤ b.1) .empty [] s₀
    cases hquotes :
      takeQuotes now (raw.entries.insertionSort fun a b => a.1 ≤ b.1) .empty [] s₀ with
    | error e s₁ =>
      rw [Effect.run_bind_error hquotes]
      rw [hquotes] at htake
      exact .nothing (htake.trans hup) rfl
    | ok taken s₁ =>
      obtain ⟨quotes, rejected⟩ := taken
      rw [Effect.run_bind_ok hquotes]
      rw [hquotes] at htake
      have hsound := ((takeQuotes_spec now (fun key item h => hkeyed key item ((hmem key item).mp h))
        hnodup .empty [] s₀).2 quotes rejected s₁ hquotes).sound
      dsimp only
      have hsaid := leaves_updateSymbolStaleness c now quotes
        (sortedSet (c.byTicker.values.filter fun key => key ∉ raw.keys)) s₁
      cases hstale : updateSymbolStaleness c now quotes
          (sortedSet (c.byTicker.values.filter fun key => key ∉ raw.keys)) s₁ with
      | error e s₂ =>
        rw [Effect.run_bind_error hstale]
        rw [hstale] at hsaid
        exact .nothing (hsaid.trans (htake.trans hup)) rfl
      | ok u s₂ =>
        rw [Effect.run_bind_ok hstale]
        rw [hstale] at hsaid
        -- nothing before the last line writes the quotes
        have hlast : s₂.lastQuotes = s.lastQuotes := hsaid.trans (htake.trans hup)
        refine ⟨fun key => ?_, fun key quote hget => ?_⟩
        · refine (get?_update quotes s₂.lastQuotes key).trans ?_
          rw [hlast]
          rfl
        · rcases hsound key quote hget with hempty | ⟨item, hitem, -, hquote⟩
          · cases hempty
          · refine ⟨?_, toQuote_receiptTs hquote⟩
            rw [(RawQuote.toQuote_ok hquote).1]
            exact hkeyed key item ((hmem key item).mp hitem)

theorem polled_poll (c : QuoteSourceConfig) (now : Instant) (fetch : Fetch) (s : QuoteSource) :
    Polled now s (poll c now fetch none s) := by
  unfold poll
  cases fetch with
  | stillRunning => exact polled_failed c _
  | timedOut => exact polled_failed c _
  | raised name message => exact polled_failed c _
  | frame frame =>
    dsimp only
    cases hraw : parseMinuteFrame c.byTicker frame with
    | error e => exact polled_failed c _
    | ok raw =>
      dsimp only
      by_cases hempty : raw.keys = []
      · rw [if_pos hempty]
        exact polled_failed c _
      · rw [if_neg hempty]
        exact polled_accept fun key item hget => (parseMinuteFrame_keyed hraw hget).1

/-! ## Live and taped -/

/-- The quotes of an act, which are written to the tape. -/
def brought (c : QuoteSourceConfig) (s : QuoteSource) : Act → Dict String Quote
  | .setPrevCloses _ => .empty
  | .poll now fetch tape => returned (poll c now fetch tape s)

/-- What a source writes to the tape, where no write raises. -/
def taped (c : QuoteSourceConfig) (s : QuoteSource) : List Act → List Quote
  | [] => []
  | a :: acts => (brought c s a).values ++ taped c (act c s a) acts

/-- When a source was polled. -/
def instants (acts : List Act) : List Instant :=
  acts.filterMap fun a => match a with
    | .setPrevCloses _ => none
    | .poll now _ _ => some now

def Act.Writes : Act → Prop
  | .setPrevCloses _ => True
  | .poll _ _ tape => tape = none

theorem taped_append (c : QuoteSourceConfig) (s : QuoteSource) (early late : List Act) :
    taped c s (early ++ late) = taped c s early ++ taped c (early.foldl (act c) s) late := by
  induction early generalizing s with
  | nil => rfl
  | cons a early ih =>
    rw [List.cons_append, taped, taped, ih, List.append_assoc]
    rfl

/-- What an act comes to. -/
theorem lastQuotes_act {a : Act} (hwrites : a.Writes) (s : QuoteSource) (key : String) :
    (act c s a).lastQuotes.get? key = ((brought c s a).get? key).or (s.lastQuotes.get? key) := by
  cases a with
  | setPrevCloses closes => rfl
  | poll now fetch tape =>
    cases hwrites
    exact (polled_poll c now fetch s).last key

theorem keyed_brought {a : Act} (hwrites : a.Writes) {key : String} {quote : Quote}
    (hget : (brought c s a).get? key = some quote) :
    quote.instrumentKey = key ∧ instants [a] = [quote.receiptTs] := by
  cases a with
  | setPrevCloses closes => cases hget
  | poll now fetch tape =>
    cases hwrites
    obtain ⟨hkey, hreceipt⟩ := (polled_poll c now fetch s).keyed key quote hget
    exact ⟨hkey, by rw [hreceipt]; rfl⟩

/-- Of an instrument an act brings one quote at most. -/
theorem filter_values {d : Dict String Quote}
    (hkeyed : ∀ key quote, d.get? key = some quote → quote.instrumentKey = key) (key : String) :
    (d.values.filter fun q => q.instrumentKey = key) = (d.get? key).toList := by
  have hrun : ∀ es : List (String × Quote), (es.map Prod.fst).Nodup →
      (∀ e ∈ es, e.2.instrumentKey = e.1) →
      ((es.map Prod.snd).filter fun q => q.instrumentKey = key) = (es.lookup key).toList := by
    intro es
    induction es with
    | nil => exact fun _ _ => rfl
    | cons e es ih =>
      intro hnodup hes
      rw [List.map_cons, List.nodup_cons] at hnodup
      have hrest := ih hnodup.2 fun e' he' => hes e' (List.mem_cons_of_mem _ he')
      have hof : e.2.instrumentKey = e.1 := hes e List.mem_cons_self
      rw [List.map_cons, List.filter_cons, hrest, List.lookup_cons]
      by_cases hkey : e.1 = key
      · have hnone : es.lookup key = none := by
          rw [List.lookup_eq_none_iff]
          rintro e' hmem
          simpa using fun heq => hnodup.1 (List.mem_map.mpr ⟨e', hmem, by rw [hkey, heq]⟩)
        simp [hof, hkey, hnone]
      · have hne : (key == e.1) = false := beq_false_of_ne fun h => hkey h.symm
        simp [hof, hkey, hne]
  exact hrun d.entries d.nodup_keys fun e he => hkeyed e.1 e.2 (d.mem_entries_iff.mp he)

/-- The quotes of an instrument on the tape; what is live is the last of them. -/
structure Recorded (c : QuoteSourceConfig) (s : QuoteSource) (acts : List Act) : Prop where
  last : ∀ key, (acts.foldl (act c) s).lastQuotes.get? key =
    ((taped c s acts).filter fun q => q.instrumentKey = key).getLast?.or (s.lastQuotes.get? key)
  received : ∀ q ∈ taped c s acts, q.receiptTs ∈ instants acts
  ordered : ∀ key, ((taped c s acts).filter fun q => q.instrumentKey = key).Pairwise
    fun p q => p.receiptTs < q.receiptTs

theorem instants_cons (a : Act) (acts : List Act) :
    instants (a :: acts) = instants [a] ++ instants acts := by
  cases a <;> rfl

theorem recorded {acts : List Act} (hwrites : ∀ a ∈ acts, a.Writes)
    (hordered : (instants acts).Pairwise (· < ·)) (s : QuoteSource) : Recorded c s acts := by
  induction acts generalizing s with
  | nil => exact ⟨fun key => rfl, fun q h => (nomatch h), fun key => .nil⟩
  | cons a acts ih =>
    have ha : a.Writes := hwrites a List.mem_cons_self
    rw [instants_cons, List.pairwise_append] at hordered
    have hrest := ih (fun b hb => hwrites b (List.mem_cons_of_mem _ hb)) hordered.2.1 (act c s a)
    have hone : ∀ key, ((brought c s a).values.filter fun q => q.instrumentKey = key) =
        ((brought c s a).get? key).toList :=
      filter_values fun key quote hget => (keyed_brought ha hget).1
    have hat : ∀ q ∈ (brought c s a).values, instants [a] = [q.receiptTs] := by
      intro q hq
      obtain ⟨key, hget⟩ := (brought c s a).mem_values_iff.mp hq
      exact (keyed_brought ha hget).2
    refine ⟨fun key => ?_, fun q hq => ?_, fun key => ?_⟩
    · rw [List.foldl_cons, hrest.last, taped, List.filter_append, hone, lastQuotes_act ha,
        List.getLast?_append, Option.or_assoc]
      congr 2
      cases (brought c s a).get? key <;> rfl
    · rw [instants_cons]
      rcases List.mem_append.mp hq with hnow | hlater
      · rw [hat q hnow]
        exact List.mem_append_left _ List.mem_cons_self
      · exact List.mem_append_right _ (hrest.received q hlater)
    · rw [taped, List.filter_append, hone, List.pairwise_append]
      refine ⟨?_, hrest.ordered key, fun p hp q hq => ?_⟩
      · cases (brought c s a).get? key with
        | none => exact .nil
        | some quote => exact List.pairwise_singleton _ _
      · have hpmem : p ∈ (brought c s a).values :=
          (List.mem_filter.mp (show p ∈ (brought c s a).values.filter
            fun q => q.instrumentKey = key from (hone key).symm ▸ hp)).1
        refine hordered.2.2 p.receiptTs ?_ q.receiptTs
          (hrest.received q (List.mem_filter.mp hq).1)
        rw [hat p hpmem]
        exact List.mem_cons_self

end QuoteSource

/-- The last quote of an instrument was received in a poll. -/
theorem QuoteSource.received_last {c : QuoteSourceConfig} {validator : QuoteValidator}
    {acts : List QuoteSource.Act} {key : String} {quote : Quote}
    (hwrites : ∀ a ∈ acts, a.Writes) (hordered : (instants acts).Pairwise (· < ·))
    (hlast : (run c validator acts).lastQuotes.get? key = some quote) :
    quote.receiptTs ∈ instants acts := by
  have hrecorded := recorded hwrites hordered (c := c) (init validator)
  have htaped : ((taped c (init validator) acts).filter
      fun q => q.instrumentKey = key).getLast? = some quote :=
    Option.or_none.symm.trans ((hrecorded.last key).symm.trans hlast)
  exact hrecorded.received quote (List.mem_filter.mp (List.mem_of_getLast? htaped)).1

/-! ## The replay of a live source -/

namespace TapeQuoteSource

open QuoteSource

variable {c : QuoteSourceConfig} {validator : QuoteValidator} {tape : List Quote}
  {acts early late : List Act} {t : Instant}

theorem instants_append (early late : List Act) :
    instants (early ++ late) = instants early ++ instants late := List.filterMap_append

/-- At a moment between two acts the tape has the last quotes of the live source. -/
theorem latest_live (hwrites : ∀ a ∈ early ++ late, a.Writes)
    (hordered : (instants (early ++ late)).Pairwise (· < ·))
    (htape : tape.Perm (taped c (QuoteSource.init validator) (early ++ late)))
    (hearly : ∀ now ∈ instants early, now ≤ t) (hlate : ∀ now ∈ instants late, t < now)
    (key : String) :
    (init tape).latest key t = (QuoteSource.run c validator early).lastQuotes.get? key := by
  have hall := recorded hwrites hordered (c := c) (QuoteSource.init validator)
  rw [instants_append, List.pairwise_append] at hordered
  have hfirst := recorded (fun a ha => hwrites a (List.mem_append_left _ ha)) hordered.1
    (c := c) (QuoteSource.init validator)
  have hrest := recorded (fun a ha => hwrites a (List.mem_append_right _ ha)) hordered.2.1
    (c := c) (early.foldl (QuoteSource.act c) (QuoteSource.init validator))
  have hkept : ((taped c (QuoteSource.init validator) early).filter
      fun q => q.instrumentKey = key).filter (fun q => q.receiptTs ≤ t) =
        (taped c (QuoteSource.init validator) early).filter fun q => q.instrumentKey = key :=
    List.filter_eq_self.mpr fun q hq =>
      decide_eq_true (hearly _ (hfirst.received q (List.mem_filter.mp hq).1))
  have hdropped : ((taped c (early.foldl (QuoteSource.act c) (QuoteSource.init validator)) late).filter
      fun q => q.instrumentKey = key).filter (fun q => q.receiptTs ≤ t) = [] :=
    List.filter_eq_nil_iff.mpr fun q hq h =>
      absurd (of_decide_eq_true h)
        (not_le.mpr (hlate _ (hrest.received q (List.mem_filter.mp hq).1)))
  rw [latest_init htape (hall.ordered key), taped_append, List.filter_append, List.filter_append,
    hkept, hdropped, List.append_nil]
  exact (Option.or_none.symm.trans (hfirst.last key).symm)

/-- Polled when the live source was, the tape has served the same last quotes. -/
theorem lastQuotes_live (hwrites : ∀ a ∈ early ++ late, a.Writes)
    (hordered : (instants (early ++ late)).Pairwise (· < ·))
    (htape : tape.Perm (taped c (QuoteSource.init validator) (early ++ late))) (key : String) :
    ((init tape).run (instants early)).lastQuotes.get? key =
      (QuoteSource.run c validator early).lastQuotes.get? key := by
  have hsplit := hordered
  rw [instants_append, List.pairwise_append] at hsplit
  obtain ⟨hfirst, -, hbetween⟩ := hsplit
  rcases List.eq_nil_or_concat (instants early) with hnil | ⟨polls, t, hlast⟩
  · have hrecorded := recorded (fun a ha => hwrites a (List.mem_append_left _ ha)) hfirst
      (c := c) (QuoteSource.init validator)
    have hempty : taped c (QuoteSource.init validator) early = [] :=
      List.eq_nil_iff_forall_not_mem.mpr fun q hq => by
        have := hrecorded.received q hq
        rw [hnil] at this
        cases this
    have hlive := hrecorded.last key
    rw [hempty] at hlive
    rw [hnil]
    exact hlive.symm
  · rw [List.concat_eq_append] at hlast
    rw [hlast] at hfirst hbetween ⊢
    rw [lastQuotes_run tape (hfirst.imp le_of_lt)]
    refine latest_live hwrites hordered htape (fun now hnow => ?_)
      (fun now hnow => hbetween t (by simp) now hnow) key
    rw [hlast] at hnow
    rcases List.mem_append.mp hnow with hbefore | hself
    · exact ((List.pairwise_append.mp hfirst).2.2 now hbefore t (by simp)).le
    · exact (List.mem_singleton.mp hself).le

/-- Whatever the live source was sent, its tape serves it again: at any moment the last quotes are
those the live source had then, however often the tape is polled, and polled when the live source
was it returns the same quotes, poll for poll. -/
theorem replays_live (c : QuoteSourceConfig) (validator : QuoteValidator) {acts : List Act}
    {tape : List Quote} (hwrites : ∀ a ∈ acts, a.Writes)
    (hordered : (instants acts).Pairwise (· < ·))
    (htape : tape.Perm (taped c (QuoteSource.init validator) acts)) :
    (∀ early late, acts = early ++ late → ∀ (polls : List Instant) (t : Instant),
      (polls ++ [t]).Pairwise (· ≤ ·) → (∀ now ∈ instants early, now ≤ t) →
      (∀ now ∈ instants late, t < now) → ∀ key,
      ((init tape).run (polls ++ [t])).lastQuotes.get? key =
        (QuoteSource.run c validator early).lastQuotes.get? key) ∧
    ∀ early now fetch late, acts = early ++ .poll now fetch none :: late → ∀ key,
      (((init tape).run (instants early)).poll now).1.quotes.get? key =
        (returned (QuoteSource.poll c now fetch none
          (QuoteSource.run c validator early))).get? key := by
  constructor
  · rintro early late rfl polls t hpolls hearly hlate key
    rw [lastQuotes_run tape hpolls]
    exact latest_live hwrites hordered htape hearly hlate key
  · rintro early now fetch late rfl key
    have hsplit := hordered
    rw [instants_append, List.pairwise_append] at hsplit
    obtain ⟨hfirst, hlater, hbetween⟩ := hsplit
    obtain ⟨hafter, -⟩ := List.pairwise_cons.mp hlater
    -- a poll returns what is newer at its instant than at every instant before
    have hpolled := polled_poll c now fetch (QuoteSource.run c validator early)
    have hbefore := lastQuotes_live hwrites hordered htape key
    have hnow : (init tape).latest key now =
        ((returned (QuoteSource.poll c now fetch none (QuoteSource.run c validator early))).get?
          key).or ((QuoteSource.run c validator early).lastQuotes.get? key) := by
      have hcons : early ++ .poll now fetch none :: late = (early ++ [.poll now fetch none]) ++ late :=
        List.append_cons ..
      rw [hcons] at hwrites hordered htape
      rw [latest_live hwrites hordered htape (t := now) (fun t ht => ?_) hafter, QuoteSource.run,
        List.foldl_append]
      · exact hpolled.last key
      · rw [instants_append] at ht
        rcases List.mem_append.mp ht with hold | hself
        · exact (hbetween t hold now List.mem_cons_self).le
        · exact (List.mem_singleton.mp hself).le
    rw [fresh_poll, latest_congr (quotes_run _ _), hbefore, hnow]
    cases hfresh : (returned (QuoteSource.poll c now fetch none
        (QuoteSource.run c validator early))).get? key with
    | none =>
      rw [Option.none_or]
      cases (QuoteSource.run c validator early).lastQuotes.get? key <;> simp [Option.filter_some]
    | some quote =>
      have hreceipt : quote.receiptTs = now := (hpolled.keyed key quote hfresh).2
      -- a quote held before the poll was received before it
      have hnew : (QuoteSource.run c validator early).lastQuotes.get? key ≠ some quote := by
        intro hold
        have hbefore := hbetween _ (received_last
          (fun a ha => hwrites a (List.mem_append_left _ ha)) hfirst hold) now List.mem_cons_self
        rw [hreceipt] at hbefore
        exact lt_irrefl _ hbefore
      simp [Option.filter_some, hnew]

open RejectedQuote in
theorem replays_live_returned :
    let acts := [missing, returned 1510]
    ((init (taped config (QuoteSource.init RejectedQuote.validator) acts).reverse).run
        [130000000]).lastQuotes.get? "NSE:EQ:INFY" =
      (QuoteSource.run config RejectedQuote.validator acts).lastQuotes.get? "NSE:EQ:INFY" := by
  have hwrites : ∀ a ∈ [missing, returned 1510], a.Writes := by
    intro a ha
    rcases List.mem_pair.mp ha with rfl | rfl <;> rfl
  have hordered : (instants [missing, returned 1510]).Pairwise (· < ·) := by decide +kernel
  exact (replays_live config RejectedQuote.validator hwrites hordered (List.reverse_perm _)).1
    [missing, returned 1510] [] rfl [] 130000000 (List.pairwise_singleton _ _)
    (by decide +kernel) (by decide +kernel) "NSE:EQ:INFY"

end TapeQuoteSource

end RakshaQuant
