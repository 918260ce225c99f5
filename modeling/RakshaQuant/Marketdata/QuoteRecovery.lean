import RakshaQuant.Marketdata.QuoteSource

/-! Which symbols are stale. Over any polls the events that name a symbol go stale, recovered, stale
and so on, and the stale keys are those last named as stale. A symbol that was stale recovers in the
poll that next brings something for it, so it recovers on an accepted quote as long as no quote of
a stale symbol is rejected. -/

namespace RakshaQuant

/-- What an event says of a symbol, where it is about symbols: stale or recovered. -/
def SourceEvent.mention (key : String) : SourceEvent → Option Bool
  | .feedStale keys ageS reason =>
    if key ∈ keys ∧ (ageS.isSome ∨ reason = "no data") then some true else none
  | .feedRecovered keys _ => if key ∈ keys then some false else none
  | .quoteRejected _ _ _ => none

/-- What the events say of a symbol, in order. -/
def mentions (key : String) (events : List SourceEvent) : List Bool :=
  events.filterMap (SourceEvent.mention key)

/-- Stale first, and then by turns. -/
def Alternates (l : List Bool) : Prop := ∀ i b, l[i]? = some b → (b = true ↔ i % 2 = 0)

theorem mentions_append (key : String) (l r : List SourceEvent) :
    mentions key (l ++ r) = mentions key l ++ mentions key r := List.filterMap_append

theorem alternates_nil : Alternates [] := by
  intro i b h
  cases h

theorem Alternates.append {l : List Bool} {b : Bool} (h : Alternates l)
    (hb : b = true ↔ l.length % 2 = 0) : Alternates (l ++ [b]) := by
  intro i b' hi
  rcases lt_trichotomy i l.length with hlt | rfl | hgt
  · rw [List.getElem?_append_left hlt] at hi
    exact h i b' hi
  · rw [List.getElem?_append_right (Nat.le_refl _), Nat.sub_self] at hi
    cases hi
    exact hb
  · rw [List.getElem?_eq_none (by simp; omega)] at hi
    cases hi

/-- The last of the turns says how many there were. -/
theorem Alternates.last_iff {l : List Bool} (h : Alternates l) :
    l.getLast? = some true ↔ l.length % 2 = 1 := by
  rw [List.getLast?_eq_getElem?]
  constructor
  · intro hlast
    have hlt : l.length - 1 < l.length := by
      by_contra hge
      rw [List.getElem?_eq_none (by omega)] at hlast
      cases hlast
    have := (h _ _ hlast).mp rfl
    omega
  · intro hodd
    have hlt : l.length - 1 < l.length := by omega
    rw [List.getElem?_eq_getElem hlt]
    have hturn := h _ _ (List.getElem?_eq_getElem hlt)
    rw [Option.some.injEq, hturn]
    omega

namespace QuoteSource

variable {c : QuoteSourceConfig} {s s' : QuoteSource} {now : Instant} {key : String}

/-! ## What tells nothing of symbols -/

/-- A step that leaves the stale keys and says nothing of a symbol. -/
structure Quiet (s s' : QuoteSource) : Prop where
  staleSince : s'.staleSince = s.staleSince
  told : ∃ es, s'.sink = s.sink ++ es ∧ ∀ key, mentions key es = []

theorem Quiet.still (hstale : s'.staleSince = s.staleSince) (hsink : s'.sink = s.sink) :
    Quiet s s' := ⟨hstale, [], by rw [hsink, List.append_nil], fun _ => rfl⟩

theorem Quiet.trans {s'' : QuoteSource} (h : Quiet s s') (h' : Quiet s' s'') : Quiet s s'' := by
  obtain ⟨es, hes, hquiet⟩ := h.told
  obtain ⟨es', hes', hquiet'⟩ := h'.told
  refine ⟨h'.staleSince.trans h.staleSince, es ++ es', by rw [hes', hes, List.append_assoc],
    fun key => ?_⟩
  rw [mentions_append, hquiet, hquiet', List.append_nil]

theorem Quiet.one {e : SourceEvent} (hstale : s'.staleSince = s.staleSince)
    (hsink : s'.sink = s.sink ++ [e]) (he : ∀ key, e.mention key = none) : Quiet s s' :=
  ⟨hstale, [e], hsink, fun key => by rw [mentions, List.filterMap_cons_none (he key)]; rfl⟩

theorem quiet_failed (c : QuoteSourceConfig) (now : Instant) {error : String}
    (herror : error ≠ "no data") (s : QuoteSource) : Quiet s (failed c now error s).state := by
  simp only [failed, Effect.run_bind, Effect.run_modify, Effect.run_get]
  split
  next hup =>
    have hage : ¬∃ age ∈ (none : Option ℚ), age < 0 := by simp
    simp only [emitStale, if_neg hage, Effect.run_bind, Effect.run_modify]
    exact .one rfl rfl fun key => by simp [SourceEvent.mention, herror]
  next hdown => exact .still rfl rfl

theorem quiet_markFeedUp (now : Instant) (s : QuoteSource) :
    Quiet s (markFeedUp now s).state ∧ (markFeedUp now s).state.validator = s.validator ∧
      (markFeedUp now s).state.prevClose = s.prevClose := by
  simp only [markFeedUp, Effect.run_bind, Effect.run_modify, Effect.run_get]
  cases hdown : s.feedDownSince with
  | none => exact ⟨.still rfl rfl, rfl, rfl⟩
  | some since =>
    simp only [emitRecovered, Effect.run_bind, Effect.run_modify]
    split
    · exact ⟨.still rfl rfl, rfl, rfl⟩
    · exact ⟨.one rfl rfl fun key => by simp [SourceEvent.mention], rfl, rfl⟩

/-! ## Taking the quotes -/

/-- The quote that comes of what the vendor says of a symbol, if the validator lets it through. -/
def Accepts (s : QuoteSource) (now : Instant) (key : String) (raw : RawQuote) (quote : Quote) :
    Prop :=
  s.validator.check (raw.withPrevClose (s.prevClose.get? key)) = none ∧
    (raw.withPrevClose (s.prevClose.get? key)).toQuote now = .ok quote

/-- An accepted quote changes nothing for another symbol. -/
theorem check_accept {v : QuoteValidator} {quote : Quote} {q : RawQuote}
    (hne : q.instrumentKey ≠ quote.instrumentKey) : (v.accept quote).check q = v.check q := by
  have hseen : (v.accept quote).seen.get? q.instrumentKey = v.seen.get? q.instrumentKey :=
    Dict.get?_set_ne _ _ hne
  have hvolume : (v.accept quote).volumeDecreased q = v.volumeDecreased q := by
    rw [QuoteValidator.volumeDecreased, hseen, QuoteValidator.volumeDecreased]
  unfold QuoteValidator.check
  rw [hvolume]
  rfl

/-- What taking quotes gives: the accepted ones, and none for a symbol whose quote is rejected. -/
structure Taken (s : QuoteSource) (now : Instant) (items : List (String × RawQuote))
    (before after : Dict String Quote) : Prop where
  sound : ∀ key quote, after.get? key = some quote → before.get? key = some quote ∨
    ∃ raw, (key, raw) ∈ items ∧ s.Accepts now key raw quote
  complete : ∀ key raw, (key, raw) ∈ items → after.get? key = none →
    s.validator.check (raw.withPrevClose (s.prevClose.get? key)) ≠ none
  kept : ∀ key quote, before.get? key = some quote → after.get? key ≠ none

namespace Taken

variable {s : QuoteSource} {now : Instant} {key : String} {raw : RawQuote}
  {rest : List (String × RawQuote)} {quotes after : Dict String Quote}

/-- Nothing is taken of no items. -/
theorem none (s : QuoteSource) (now : Instant) (quotes : Dict String Quote) :
    Taken s now [] quotes quotes where
  sound := fun _ _ h => .inl h
  complete := fun _ _ h => absurd h List.not_mem_nil
  kept := fun _ quote h => h.trans_ne (Option.some_ne_none quote)

/-- A rejected item in front gives no quote. -/
theorem rejected {reason : String} {e : SourceEvent}
    (hcheck : s.validator.check (raw.withPrevClose (s.prevClose.get? key)) = some reason)
    (h : Taken (s.emit e) now rest quotes after) :
    Taken s now ((key, raw) :: rest) quotes after := by
  obtain ⟨hsound, hcomplete, hkept⟩ := h
  refine ⟨fun key' quote hget => ?_, fun key' raw' hmem hnone => ?_, hkept⟩
  · rcases hsound key' quote hget with hbefore | ⟨raw', hmem, haccepts⟩
    · exact .inl hbefore
    · exact .inr ⟨raw', List.mem_cons_of_mem _ hmem, haccepts⟩
  · rcases List.mem_cons.mp hmem with heq | hlater
    · cases heq
      rw [hcheck]
      exact Option.some_ne_none reason
    · exact hcomplete key' raw' hlater hnone

/-- An accepted item in front gives its quote, and the rest is checked as before. -/
theorem accepted {quote : Quote} (haccepts : s.Accepts now key raw quote)
    (hsame : ∀ key' raw', (key', raw') ∈ rest → ∀ p : Option Double,
      (s.validator.accept quote).check (raw'.withPrevClose p) =
        s.validator.check (raw'.withPrevClose p))
    (h : Taken { s with validator := s.validator.accept quote } now rest (quotes.set key quote)
      after) : Taken s now ((key, raw) :: rest) quotes after := by
  obtain ⟨hsound, hcomplete, hkept⟩ := h
  refine ⟨fun key' quote' hget => ?_, fun key' raw' hmem hnone => ?_,
    fun key' quote' hbefore => ?_⟩
  · rcases hsound key' quote' hget with hbefore | ⟨raw', hmem, hok, hbuilt⟩
    · rw [Dict.get?_set_iff] at hbefore
      rcases hbefore with ⟨rfl, rfl⟩ | ⟨-, hold⟩
      · exact .inr ⟨raw, List.mem_cons_self, haccepts⟩
      · exact .inl hold
    · exact .inr ⟨raw', List.mem_cons_of_mem _ hmem,
        (hsame key' raw' hmem _).symm.trans hok, hbuilt⟩
  · rcases List.mem_cons.mp hmem with heq | hlater
    · cases heq
      exact absurd hnone (hkept key quote (Dict.get?_set_self _ _ _))
    · exact (hsame key' raw' hlater _).symm.trans_ne (hcomplete key' raw' hlater hnone)
  · by_cases hkey : key' = key
    · exact hkept key' quote (by rw [hkey, Dict.get?_set_self])
    · exact hkept key' quote' (by rw [Dict.get?_set_ne _ _ hkey, hbefore])

end Taken

theorem takeQuotes_spec (now : Instant) {items : List (String × RawQuote)}
    (hkeyed : ∀ key raw, (key, raw) ∈ items → raw.instrumentKey = key)
    (hnodup : (items.map Prod.fst).Nodup) (quotes : Dict String Quote) (rejected : List String)
    (s : QuoteSource) :
    Quiet s (takeQuotes now items quotes rejected s).state ∧
      ∀ after rejected' s', takeQuotes now items quotes rejected s = .ok (after, rejected') s' →
        Taken s now items quotes after := by
  -- by induction on the items; an accepted quote changes the answers for its own key alone
  induction items generalizing quotes rejected s with
  | nil =>
    refine ⟨.still rfl rfl, fun after rejected' s' h => ?_⟩
    cases h
    exact .none s now quotes
  | cons item rest ih =>
    obtain ⟨key, raw⟩ := item
    rw [List.map_cons, List.nodup_cons] at hnodup
    have hrest : ∀ key raw, (key, raw) ∈ rest → raw.instrumentKey = key :=
      fun key raw h => hkeyed key raw (List.mem_cons_of_mem _ h)
    have hne : ∀ key' raw', (key', raw') ∈ rest → key' ≠ key := by
      rintro key' raw' hmem rfl
      exact hnodup.1 (List.mem_map.mpr ⟨(key', raw'), hmem, rfl⟩)
    simp only [takeQuotes, Effect.run_bind, Effect.run_get]
    cases hcheck : s.validator.check (raw.withPrevClose (s.prevClose.get? key)) with
    | some reason =>
      simp only [Effect.run_bind, Effect.run_modify]
      obtain ⟨hquiet, htaken⟩ := ih hrest hnodup.2 quotes (rejected ++ [key])
        (s.emit (.quoteRejected key reason (raw.withPrevClose (s.prevClose.get? key))))
      have hrejected : Quiet s
          (s.emit (.quoteRejected key reason (raw.withPrevClose (s.prevClose.get? key)))) :=
        .one rfl rfl fun _ => rfl
      exact ⟨hrejected.trans hquiet, fun after rejected' s' h =>
        (htaken after rejected' s' h).rejected hcheck⟩
    | none =>
      dsimp only
      cases hquote : (raw.withPrevClose (s.prevClose.get? key)).toQuote now with
      -- a quote that does not convert ends the loop
      | error e => exact ⟨.still rfl rfl, fun after rejected' s' h => by cases h⟩
      | ok quote =>
        simp only [Effect.run_bind, Effect.run_modify]
        have hof : quote.instrumentKey = key := by
          rw [(RawQuote.toQuote_ok hquote).1]
          exact hkeyed key raw List.mem_cons_self
        have hsame : ∀ key' raw', (key', raw') ∈ rest → ∀ p : Option Double,
            (s.validator.accept quote).check (raw'.withPrevClose p) =
              s.validator.check (raw'.withPrevClose p) := by
          intro key' raw' hmem p
          refine check_accept ?_
          rw [hof]
          exact (hrest key' raw' hmem).trans_ne (hne key' raw' hmem)
        obtain ⟨hquiet, htaken⟩ := ih hrest hnodup.2 (quotes.set key quote) rejected
          { s with validator := s.validator.accept quote }
        have haccepted : Quiet s { s with validator := s.validator.accept quote } := .still rfl rfl
        exact ⟨haccepted.trans hquiet, fun after rejected' s' h =>
          (htaken after rejected' s' h).accepted ⟨hcheck, hquote⟩ hsame⟩

/-! ## Stale and recovered -/

theorem mem_sortedSet {keys : List String} : key ∈ sortedSet keys ↔ key ∈ keys := by
  rw [sortedSet, List.mem_insertionSort, List.mem_dedup]

theorem mem_keys_setAll (keys : List String) (t : Instant) (since : Dict String Instant) :
    key ∈ (keys.foldl (fun since key => since.set key t) since).keys ↔
      key ∈ keys ∨ key ∈ since.keys := by
  induction keys generalizing since with
  | nil => simp
  | cons k keys ih =>
    rw [List.foldl_cons, ih, List.mem_cons, Dict.mem_keys_iff, Dict.mem_keys_iff]
    by_cases hk : key = k <;> simp [hk]

theorem mem_keys_popAll (keys : List String) (since : Dict String Instant) :
    key ∈ (keys.foldl Dict.pop since).keys ↔ key ∈ since.keys ∧ key ∉ keys := by
  induction keys generalizing since with
  | nil => simp
  | cons k keys ih =>
    rw [List.foldl_cons, ih, List.mem_cons, Dict.mem_keys_iff, Dict.mem_keys_iff, Dict.get?_pop]
    by_cases hk : key = k <;> simp [hk]

theorem longest_nonneg {l : List ℚ} (h : ∀ x ∈ l, 0 ≤ x) : 0 ≤ longest l := by
  unfold longest
  cases hmax : l.max? with
  | none => exact le_rfl
  | some a => exact h a (List.max?_mem hmax)

def tell (es : List SourceEvent) (s : QuoteSource) : QuoteSource := { s with sink := s.sink ++ es }

theorem reportStale_run (keys : List String) {ageS : Option ℚ} (reason : String)
    (s : QuoteSource) (hage : ∀ age ∈ ageS, 0 ≤ age) : reportStale keys ageS reason s =
      .ok ⟨⟩ (s.tell (if keys = [] then [] else [.feedStale keys ageS reason])) := by
  have hvalid : ¬∃ age ∈ ageS, age < 0 := by
    rintro ⟨age, hmem, hneg⟩
    exact absurd (hage age hmem) (not_le.mpr hneg)
  unfold reportStale
  by_cases hkeys : keys = []
  · rw [if_pos hkeys, if_pos hkeys, tell, List.append_nil]
    rfl
  · rw [if_neg hkeys, if_neg hkeys, emitStale, if_neg hvalid]
    rfl

/-- The symbols recover, or the event is refused and they stay stale. -/
theorem recover_cases (now : Instant) (keys : List String) (s : QuoteSource) :
    (recover now keys s).state = s ∨ ∃ staleForS, keys ≠ [] ∧ (recover now keys s).state =
      { s.tell [.feedRecovered keys staleForS] with
        staleSince := keys.foldl Dict.pop s.staleSince } := by
  unfold recover
  by_cases hkeys : keys = []
  · rw [if_pos hkeys]
    exact .inl rfl
  · rw [if_neg hkeys]
    simp only [Effect.run_bind, Effect.run_get, emitRecovered]
    generalize longest (keys.filterMap fun key =>
      (s.staleSince.get? key).map fun t => secondsBetween t now) = staleForS
    by_cases hvalid : staleForS < 0
    · rw [if_pos hvalid]
      exact .inl rfl
    · rw [if_neg hvalid]
      exact .inr ⟨staleForS, hkeys, rfl⟩

/-- What `_update_symbol_staleness` makes of a symbol: it goes stale, or recovers unless the event
is refused, or nothing is said of it. -/
structure Turned (newly recovered : List String) (s s' : QuoteSource) (es : List SourceEvent) :
    Prop where
  sink : s'.sink = s.sink ++ es
  stale : ∀ key ∈ newly, mentions key es = [true] ∧ key ∈ s'.staleSince.keys
  fresh : ∀ key ∈ recovered, (mentions key es = [false] ∧ key ∉ s'.staleSince.keys) ∨
    (mentions key es = [] ∧ key ∈ s'.staleSince.keys)
  others : ∀ key, key ∉ newly → key ∉ recovered →
    mentions key es = [] ∧ (key ∈ s'.staleSince.keys ↔ key ∈ s.staleSince.keys)
  told : ∀ keys staleForS, .feedRecovered keys staleForS ∈ es → keys = recovered

/-- The events of the symbols that went stale. -/
def staleEvents (quotes : Dict String Quote) (newly : List String) (age : ℚ) (reason : String) :
    List SourceEvent :=
  let noData := newly.filter fun key => (quotes.get? key).isNone
  let tooOld := newly.filter fun key => (quotes.get? key).isSome
  (if noData = [] then [] else [.feedStale noData none "no data"]) ++
    if tooOld = [] then [] else [.feedStale tooOld (some age) reason]

theorem mentions_staleEvents (quotes : Dict String Quote) (newly : List String) (age : ℚ)
    (reason : String) (key : String) :
    mentions key (staleEvents quotes newly age reason) = if key ∈ newly then [true] else [] := by
  have hone : ∀ (keys : List String) (ageS : Option ℚ) (reason : String),
      ageS.isSome = true ∨ reason = "no data" →
      mentions key (if keys = [] then [] else [.feedStale keys ageS reason]) =
        if key ∈ keys then [true] else [] := by
    intro keys ageS reason hkind
    by_cases hkeys : keys = []
    · simp [hkeys, mentions]
    · by_cases hmem : key ∈ keys <;> simp [hkeys, mentions, SourceEvent.mention, hkind, hmem]
  rw [staleEvents, mentions_append, hone _ _ _ (.inr rfl), hone _ _ _ (.inl rfl)]
  simp only [List.mem_filter]
  cases quotes.get? key <;> simp

/-- The age of the oldest quote of the symbols that went stale. -/
def oldest (now : Instant) (quotes : Dict String Quote) (newly : List String) : ℚ :=
  longest ((newly.filter fun key => (quotes.get? key).isSome).filterMap fun key =>
    (quotes.get? key).map fun q => q.ageSeconds now)

/-- The state in which the symbols that went stale are told and stale. -/
def stage (c : QuoteSourceConfig) (now : Instant) (quotes : Dict String Quote)
    (newly : List String) (s : QuoteSource) : QuoteSource :=
  { s.tell (staleEvents quotes newly (oldest now quotes newly)
      ("older than " ++ wholeSeconds c.staleAfter ++ "s")) with
    staleSince := newly.foldl (fun since key => since.set key now) s.staleSince }

theorem newlyStale_old {quotes : Dict String Quote} {missing : List String}
    (limit : 0 ≤ c.staleAfter) (hmissing : ∀ key ∈ missing, quotes.get? key = none) :
    ∀ key ∈ newlyStale (staleNow c now quotes missing) s, ∀ q, quotes.get? key = some q →
      0 ≤ q.ageSeconds now := by
  intro key hkey q hq
  rw [newlyStale, mem_sortedSet, List.mem_filter] at hkey
  have hnot : key ∉ missing := fun hmem => by
    rw [hmissing key hmem] at hq
    cases hq
  have hstale := hkey.1
  unfold staleNow at hstale
  split at hstale
  · exact absurd hstale hnot
  · obtain ⟨e, he, rfl⟩ := List.mem_map.mp ((List.mem_append.mp hstale).resolve_left hnot)
    rw [List.mem_filter] at he
    rw [quotes.mem_entries_iff.mp he.1, Option.some.injEq] at hq
    subst hq
    exact limit.trans (of_decide_eq_true he.2).le

theorem updateSymbolStaleness_run {quotes : Dict String Quote} {missing : List String}
    (limit : 0 ≤ c.staleAfter) (hmissing : ∀ key ∈ missing, quotes.get? key = none)
    (s : QuoteSource) : updateSymbolStaleness c now quotes missing s =
      recover now (recoveredKeys (staleNow c now quotes missing) s)
        (stage c now quotes (newlyStale (staleNow c now quotes missing) s) s) := by
  have hages : ∀ age ∈ some (oldest now quotes (newlyStale (staleNow c now quotes missing) s)),
      0 ≤ age := by
    intro age hmem
    cases hmem
    refine longest_nonneg fun x hx => ?_
    obtain ⟨key, hkey, hx⟩ := List.mem_filterMap.mp hx
    obtain ⟨q, hq, rfl⟩ := Option.map_eq_some_iff.mp hx
    exact newlyStale_old limit hmissing key (List.mem_filter.mp hkey).1 q hq
  have hnodata : ∀ age ∈ (none : Option ℚ), 0 ≤ age := fun age h => (nomatch h)
  unfold oldest at hages
  simp only [updateSymbolStaleness, Effect.run_bind, Effect.run_get,
    reportStale_run _ _ _ hnodata, reportStale_run _ _ _ hages, Effect.run_modify]
  congr 1
  simp only [stage, tell, staleEvents, oldest, List.append_assoc]

theorem updateSymbolStaleness_turned (now : Instant) {quotes : Dict String Quote}
    {missing : List String}
    (limit : 0 ≤ c.staleAfter) (hmissing : ∀ key ∈ missing, quotes.get? key = none)
    (s : QuoteSource) : ∃ es, Turned (newlyStale (staleNow c now quotes missing) s)
      (recoveredKeys (staleNow c now quotes missing) s) s
      (updateSymbolStaleness c now quotes missing s).state es := by
  rw [updateSymbolStaleness_run limit hmissing]
  -- a recovering key was marked before this poll, so no event of the poll says it went stale
  have hdisjoint : ∀ key ∈ recoveredKeys (staleNow c now quotes missing) s,
      key ∈ s.staleSince.keys ∧ key ∉ newlyStale (staleNow c now quotes missing) s := by
    intro key hkey
    rw [recoveredKeys, mem_sortedSet, List.mem_filter] at hkey
    rw [newlyStale, mem_sortedSet, List.mem_filter]
    exact ⟨hkey.1, fun h => of_decide_eq_true h.2 hkey.1⟩
  generalize newlyStale (staleNow c now quotes missing) s = newly at hdisjoint ⊢
  generalize recoveredKeys (staleNow c now quotes missing) s = recovered at hdisjoint ⊢
  have hstale : ∀ key, key ∈ (stage c now quotes newly s).staleSince.keys ↔
      key ∈ newly ∨ key ∈ s.staleSince.keys := fun key => mem_keys_setAll newly now s.staleSince
  set es := staleEvents quotes newly (oldest now quotes newly)
    ("older than " ++ wholeSeconds c.staleAfter ++ "s") with hes
  have hnotold : ∀ keys staleForS, .feedRecovered keys staleForS ∉ es := by
    intro keys staleForS hmem
    rw [hes] at hmem
    unfold staleEvents at hmem
    rcases List.mem_append.mp hmem with hmem | hmem
    · split at hmem <;> simp at hmem
    · split at hmem <;> simp at hmem
  rcases recover_cases now recovered (stage c now quotes newly s) with
    hstay | ⟨staleForS, -, hback⟩
  · -- the event of the recovery is refused
    rw [hstay]
    refine ⟨es, rfl, fun key hkey => ?_, fun key hkey => .inr ?_, fun key hnew hrec => ?_,
      fun keys staleForS h => absurd h (hnotold keys staleForS)⟩
    · rw [mentions_staleEvents, if_pos hkey, hstale]
      exact ⟨rfl, .inl hkey⟩
    · rw [mentions_staleEvents, if_neg (hdisjoint key hkey).2, hstale]
      exact ⟨rfl, .inr (hdisjoint key hkey).1⟩
    · rw [mentions_staleEvents, if_neg hnew, hstale]
      exact ⟨rfl, or_iff_right hnew⟩
  · rw [hback]
    have hsaid : ∀ key, mentions key [.feedRecovered recovered staleForS] =
        if key ∈ recovered then [false] else [] := by
      intro key
      by_cases hkey : key ∈ recovered <;> simp [mentions, SourceEvent.mention, hkey]
    refine ⟨es ++ [SourceEvent.feedRecovered recovered staleForS],
      List.append_assoc s.sink es [.feedRecovered recovered staleForS], fun key hkey => ?_,
      fun key hkey => .inl ?_, fun key hnew hrec => ?_, ?_⟩
    · have hrec : key ∉ recovered := fun h => (hdisjoint key h).2 hkey
      rw [mentions_append, mentions_staleEvents, if_pos hkey, hsaid, if_neg hrec, mem_keys_popAll,
        hstale]
      exact ⟨rfl, .inl hkey, hrec⟩
    · rw [mentions_append, mentions_staleEvents, if_neg (hdisjoint key hkey).2, hsaid, if_pos hkey,
        mem_keys_popAll]
      exact ⟨rfl, fun h => h.2 hkey⟩
    · rw [mentions_append, mentions_staleEvents, if_neg hnew, hsaid, if_neg hrec, mem_keys_popAll,
        hstale]
      exact ⟨rfl, by simp [hnew, hrec]⟩
    · intro keys seconds hmem
      rcases List.mem_append.mp hmem with hmem | hmem
      · exact absurd hmem (hnotold keys seconds)
      · cases List.mem_singleton.mp hmem
        rfl

/-! ## A poll -/

theorem minuteQuote_key {frame : Dict String (List MinuteBar)} {ticker : String}
    {quote : RawQuote} (h : minuteQuote frame ticker key = .ok (some quote)) :
    quote.instrumentKey = key := by
  unfold minuteQuote at h
  cases hrows : frame.get? ticker with
  | none => simp [hrows] at h
  | some rows =>
    simp only [hrows] at h
    cases hlast : (rows.filter fun row => row.close ≠ .nan).getLast? with
    | none =>
      simp only [hlast] at h
      cases h
    | some last =>
      simp only [hlast] at h
      split at h
      · cases h
      · cases h
        rfl

theorem parseMinuteFrame_keyed {byTicker : Dict String String}
    {frame : Dict String (List MinuteBar)} {raw : Dict String RawQuote}
    (h : parseMinuteFrame byTicker frame = .ok raw) {item : RawQuote}
    (hget : raw.get? key = some item) : item.instrumentKey = key ∧ key ∈ byTicker.values := by
  have hrun : ∀ (es : List (String × String)) (out : Dict String RawQuote),
      (∀ e ∈ es, e ∈ byTicker.entries) →
      (∀ key item, out.get? key = some item → item.instrumentKey = key ∧ key ∈ byTicker.values) →
      ∀ raw, es.foldlM (keepMinute frame) out = .ok raw →
      ∀ key item, raw.get? key = some item → item.instrumentKey = key ∧ key ∈ byTicker.values := by
    intro es
    induction es with
    | nil =>
      intro out _ hout raw h
      cases h
      exact hout
    | cons e es ih =>
      intro out hes hout raw h
      rw [List.foldlM_cons, keepMinute] at h
      cases hquote : minuteQuote frame e.1 e.2 with
      | error err =>
        rw [hquote] at h
        cases h
      | ok found =>
        rw [hquote] at h
        have hrest : ∀ e' ∈ es, e' ∈ byTicker.entries := fun e' he' =>
          hes e' (List.mem_cons_of_mem _ he')
        cases found with
        | none => exact ih out hrest hout raw h
        | some quote =>
          refine ih (out.set e.2 quote) hrest (fun key' item' hget' => ?_) raw h
          rcases (Dict.get?_set_iff _).mp hget' with ⟨rfl, rfl⟩ | ⟨-, hold⟩
          · exact ⟨minuteQuote_key hquote,
              List.mem_map.mpr ⟨e, hes e List.mem_cons_self, rfl⟩⟩
          · exact hout key' item' hold
  exact hrun byTicker.entries .empty (fun e he => he) (fun _ _ h => (nomatch h)) raw h key item hget

/-- The keys a frame has nothing for. -/
def missingOf (c : QuoteSourceConfig) (raw : Dict String RawQuote) : List String :=
  sortedSet (c.byTicker.values.filter fun key => key ∉ raw.keys)

/-- What a poll that brought data comes to: it raised before it was said who is stale, or every
quote was taken and then it was said. -/
inductive Accepted (c : QuoteSourceConfig) (now : Instant) (raw : Dict String RawQuote)
    (s s' : QuoteSource) : Prop
  | raised (quiet : Quiet s s')
  | said (s₁ : QuoteSource) (quotes : Dict String Quote) (es : List SourceEvent)
      (quiet : Quiet s s₁)
      (sound : ∀ key quote, quotes.get? key = some quote →
        ∃ item, raw.get? key = some item ∧ s.Accepts now key item quote)
      (complete : ∀ key item, raw.get? key = some item → quotes.get? key = none →
        s.validator.check (item.withPrevClose (s.prevClose.get? key)) ≠ none)
      (turned : Turned (newlyStale (staleNow c now quotes (missingOf c raw)) s₁)
        (recoveredKeys (staleNow c now quotes (missingOf c raw)) s₁) s₁ s' es)

theorem Turned.same {newly recovered : List String} {s'' : QuoteSource} {es : List SourceEvent}
    (h : Turned newly recovered s s' es)
    (hsame : s''.staleSince = s'.staleSince ∧ s''.sink = s'.sink) :
    Turned newly recovered s s'' es := by
  obtain ⟨hstale, hsink⟩ := hsame
  refine ⟨hsink.trans h.sink, ?_, ?_, ?_, h.told⟩ <;> rw [hstale]
  · exact h.stale
  · exact h.fresh
  · exact h.others

/-- What a poll does after it has said who is stale says nothing more. -/
theorem rest_same {m : EStateM Exc QuoteSource PUnit} (quotes : Dict String Quote)
    (result : PollResult) (tape : Option Exc) (s : QuoteSource) :
    let rest : EStateM Exc QuoteSource PollResult := do
      m
      match tape with
      | some e => if quotes.keys ≠ [] then throw e
      | none => pure ⟨⟩
      modify fun s => { s with
        lastQuotes := quotes.entries.foldl (fun last e => last.set e.1 e.2) s.lastQuotes }
      return result
    (rest s).state.staleSince = (m s).state.staleSince ∧
      (rest s).state.sink = (m s).state.sink := by
  intro rest
  simp only [rest, Effect.run_bind]
  cases m s with
  | error e s' => exact ⟨rfl, rfl⟩
  | ok u s' =>
    cases tape with
    | none => exact ⟨rfl, rfl⟩
    | some e =>
      by_cases hquotes : quotes.keys ≠ []
      · simp only [if_pos hquotes]
        exact ⟨rfl, rfl⟩
      · simp only [if_neg hquotes]
        exact ⟨rfl, rfl⟩

theorem accept_accepted {raw : Dict String RawQuote} (limit : 0 ≤ c.staleAfter)
    (hkeyed : ∀ key item, raw.get? key = some item → item.instrumentKey = key)
    (tape : Option Exc) (s : QuoteSource) :
    Accepted c now raw s (accept c now raw tape s).state := by
  obtain ⟨hup, hvalidator, hclose⟩ := quiet_markFeedUp now s
  simp only [accept, Effect.run_bind]
  cases hmark : markFeedUp now s with
  | error e s₀ =>
    rw [hmark] at hup
    exact .raised hup
  | ok u s₀ =>
    rw [hmark] at hup hvalidator hclose
    rw [EStateM.Result.state_ok] at hvalidator hclose
    dsimp only
    have hmem : ∀ key item, (key, item) ∈ raw.entries.insertionSort (fun a b => a.1 ≤ b.1) ↔
        raw.get? key = some item := fun key item => by
      rw [List.mem_insertionSort, raw.mem_entries_iff]
    have hnodup : ((raw.entries.insertionSort fun a b => a.1 ≤ b.1).map Prod.fst).Nodup :=
      (((List.perm_insertionSort _ raw.entries).map Prod.fst).nodup_iff).mpr raw.nodup_keys
    obtain ⟨htake, htaken⟩ := takeQuotes_spec now
      (fun key item h => hkeyed key item ((hmem key item).mp h)) hnodup .empty [] s₀
    cases hquotes :
      takeQuotes now (raw.entries.insertionSort fun a b => a.1 ≤ b.1) .empty [] s₀ with
    | error e s₁ =>
      rw [hquotes] at htake
      exact .raised (hup.trans htake)
    | ok taken s₁ =>
      obtain ⟨quotes, rejected⟩ := taken
      rw [hquotes] at htake
      obtain ⟨hsound, hcomplete, -⟩ := htaken quotes rejected s₁ hquotes
      have hof : ∀ key quote, quotes.get? key = some quote →
          ∃ item, raw.get? key = some item ∧ s.Accepts now key item quote := by
        intro key quote hget
        rcases hsound key quote hget with hempty | ⟨item, hitem, haccepts⟩
        · cases hempty
        · unfold Accepts at haccepts
          rw [hvalidator, hclose] at haccepts
          exact ⟨item, (hmem key item).mp hitem, haccepts⟩
      -- a ticker the feed left out has no quote
      have hmissing : ∀ key ∈ missingOf c raw, quotes.get? key = none := by
        intro key hkey
        rw [missingOf, mem_sortedSet, List.mem_filter] at hkey
        cases hget : quotes.get? key with
        | none => rfl
        | some quote =>
          obtain ⟨item, hitem, -⟩ := hof key quote hget
          exact absurd (raw.mem_keys_iff.mpr ⟨item, hitem⟩) (of_decide_eq_true hkey.2)
      obtain ⟨es, hturned⟩ := updateSymbolStaleness_turned now limit hmissing s₁
      refine .said s₁ quotes es (hup.trans htake) hof (fun key item hitem hnone => ?_) ?_
      · have hrejected := hcomplete key item ((hmem key item).mpr hitem) hnone
        rwa [hvalidator, hclose] at hrejected
      · exact hturned.same (rest_same quotes _ tape s₁)

/-! ## Runs -/

/-- The symbols that are stale were last said to be, by turns, and are of the source. -/
structure Consistent (c : QuoteSourceConfig) (s : QuoteSource) : Prop where
  alternates : ∀ key, Alternates (mentions key s.sink)
  stale : ∀ key, key ∈ s.staleSince.keys ↔ (mentions key s.sink).length % 2 = 1
  known : ∀ key ∈ s.staleSince.keys, key ∈ c.byTicker.values

theorem consistent_init (c : QuoteSourceConfig) (validator : QuoteValidator) :
    Consistent c (init validator) :=
  ⟨fun _ => alternates_nil, fun key => by simp [init, mentions, Dict.mem_keys_iff],
    fun key h => by simp [init, Dict.mem_keys_iff] at h⟩

theorem Consistent.quiet (h : Consistent c s) (hquiet : Quiet s s') : Consistent c s' := by
  obtain ⟨es, hes, hnothing⟩ := hquiet.told
  have hsame : ∀ key, mentions key s'.sink = mentions key s.sink := fun key => by
    rw [hes, mentions_append, hnothing, List.append_nil]
  refine ⟨fun key => ?_, fun key => ?_, ?_⟩
  · rw [hsame]
    exact h.alternates key
  · rw [hsame, hquiet.staleSince]
    exact h.stale key
  · rw [hquiet.staleSince]
    exact h.known

theorem Consistent.turned {newly recovered : List String} {es : List SourceEvent}
    (h : Consistent c s) (ht : Turned newly recovered s s' es)
    (hnewly : ∀ key ∈ newly, key ∉ s.staleSince.keys ∧ key ∈ c.byTicker.values)
    (hrecovered : ∀ key ∈ recovered, key ∈ s.staleSince.keys) : Consistent c s' := by
  have hturns : ∀ key, Alternates (mentions key s'.sink) ∧
      (key ∈ s'.staleSince.keys ↔ (mentions key s'.sink).length % 2 = 1) := by
    intro key
    have hwas := h.stale key
    rw [ht.sink, mentions_append]
    by_cases hnew : key ∈ newly
    · obtain ⟨hsaid, hstale⟩ := ht.stale key hnew
      have hnot := (hnewly key hnew).1
      rw [hsaid]
      refine ⟨(h.alternates key).append (by simp; grind), ?_⟩
      simp only [hstale, List.length_append, List.length_singleton]
      grind
    · by_cases hrec : key ∈ recovered
      · have hold := hwas.mp (hrecovered key hrec)
        rcases ht.fresh key hrec with ⟨hsaid, hfresh⟩ | ⟨hsaid, hstale⟩
        · rw [hsaid]
          refine ⟨(h.alternates key).append (by simp; omega), ?_⟩
          simp only [hfresh, List.length_append, List.length_singleton]
          grind
        · rw [hsaid, List.append_nil]
          exact ⟨h.alternates key, iff_of_true hstale hold⟩
      · obtain ⟨hsaid, hsame⟩ := ht.others key hnew hrec
        rw [hsaid, List.append_nil, hsame]
        exact ⟨h.alternates key, hwas⟩
  refine ⟨fun key => (hturns key).1, fun key => (hturns key).2, fun key hkey => ?_⟩
  by_cases hnew : key ∈ newly
  · exact (hnewly key hnew).2
  · by_cases hrec : key ∈ recovered
    · exact h.known key (hrecovered key hrec)
    · exact h.known key ((ht.others key hnew hrec).2.mp hkey)

/-- What happens to a source: the closes of another session are set, or it is polled. -/
inductive Act
  | setPrevCloses (closes : Dict String Double)
  | poll (now : Instant) (fetch : Fetch) (tape : Option Exc)

def act (c : QuoteSourceConfig) (s : QuoteSource) : Act → QuoteSource
  | .setPrevCloses closes => s.setPrevCloses closes
  | .poll now fetch tape => (poll c now fetch tape s).state

def run (c : QuoteSourceConfig) (validator : QuoteValidator) (acts : List Act) : QuoteSource :=
  acts.foldl (act c) (init validator)

/-- The data that a poll brought. -/
def Brings (c : QuoteSourceConfig) (a : Act) (now : Instant) (raw : Dict String RawQuote) : Prop :=
  ∃ frame tape, a = .poll now (.frame frame) tape ∧ parseMinuteFrame c.byTicker frame = .ok raw

/-- A symbol recovers in a poll only on a quote that the poll accepted and that is fresh. -/
def RecoversFresh (c : QuoteSourceConfig) (s : QuoteSource) (a : Act) : Prop :=
  ∀ keys staleForS, .feedRecovered keys staleForS ∈ (act c s a).sink.drop s.sink.length →
    ∀ key ∈ keys, ∃ now raw item quote, Brings c a now raw ∧ raw.get? key = some item ∧
      s.Accepts now key item quote ∧ quote.ageSeconds now ≤ c.staleAfter

/-- What a poll brings for a symbol that is stale is not rejected. -/
def StaleValid (c : QuoteSourceConfig) (s : QuoteSource) (a : Act) : Prop :=
  ∀ now raw key item, Brings c a now raw → raw.get? key = some item → key ∈ s.staleKeys →
    s.validator.check (item.withPrevClose (s.prevClose.get? key)) = none

theorem detail_ne {l r : String} : l ++ ": " ++ r ≠ "no data" := by
  intro h
  have hcolon : ':' ∈ (l ++ ": " ++ r).toList := by simp
  rw [h] at hcolon
  exact absurd hcolon (by decide)

theorem timeout_ne {seconds : String} :
    "download timed out after " ++ seconds ++ "s" ≠ "no data" := by
  intro h
  have hhead := congrArg (fun text : String => text.toList.head?) h
  simp at hhead

/-- Every act tells nothing of symbols, but a poll that brings data. -/
theorem act_cases (limit : 0 ≤ c.staleAfter) (s : QuoteSource) (a : Act) :
    Quiet s (act c s a) ∨ ∃ now raw, Brings c a now raw ∧ Accepted c now raw s (act c s a) := by
  cases a with
  | setPrevCloses closes => exact .inl (.still rfl rfl)
  | poll now fetch tape =>
    unfold act poll
    cases fetch with
    | stillRunning => exact .inl (quiet_failed c now (by decide) s)
    | timedOut => exact .inl (quiet_failed c now timeout_ne s)
    | raised name message => exact .inl (quiet_failed c now detail_ne s)
    | frame frame =>
      dsimp only
      cases hraw : parseMinuteFrame c.byTicker frame with
      | error e => exact .inl (quiet_failed c now detail_ne s)
      | ok raw =>
        dsimp only
        by_cases hempty : raw.keys = []
        · rw [if_pos hempty]
          exact .inl (quiet_failed c now (by decide) s)
        · rw [if_neg hempty]
          exact .inr ⟨now, raw, ⟨frame, tape, rfl, hraw⟩, accept_accepted limit
            (fun key item hget => (parseMinuteFrame_keyed hraw hget).1) tape s⟩

/-- Whoever goes stale in a poll was not, and is of the source. -/
theorem newlyStale_spec {raw : Dict String RawQuote} {quotes : Dict String Quote}
    {frame : Dict String (List MinuteBar)} (hraw : parseMinuteFrame c.byTicker frame = .ok raw)
    (hsound : ∀ key quote, quotes.get? key = some quote →
      ∃ item, raw.get? key = some item ∧ s'.Accepts now key item quote)
    (hkey : key ∈ newlyStale (staleNow c now quotes (missingOf c raw)) s) :
    key ∉ s.staleSince.keys ∧ key ∈ c.byTicker.values := by
  rw [newlyStale, mem_sortedSet, List.mem_filter] at hkey
  have hmissing : key ∈ missingOf c raw → key ∈ c.byTicker.values := fun h => by
    rw [missingOf, mem_sortedSet, List.mem_filter] at h
    exact h.1
  refine ⟨of_decide_eq_true hkey.2, ?_⟩
  have hstale := hkey.1
  unfold staleNow at hstale
  split at hstale
  · exact hmissing hstale
  · rcases List.mem_append.mp hstale with hnone | hold
    · exact hmissing hnone
    · obtain ⟨e, he, rfl⟩ := List.mem_map.mp hold
      have hget : quotes.get? e.1 = some e.2 :=
        quotes.mem_entries_iff.mp (List.mem_filter.mp he).1
      obtain ⟨item, hitem, -⟩ := hsound e.1 e.2 hget
      exact (parseMinuteFrame_keyed hraw hitem).2

theorem recoveredKeys_stale {stale : List String} (hkey : key ∈ recoveredKeys stale s) :
    key ∈ s.staleSince.keys ∧ key ∉ stale := by
  rw [recoveredKeys, mem_sortedSet, List.mem_filter] at hkey
  exact ⟨hkey.1, of_decide_eq_true hkey.2⟩

theorem Consistent.act (limit : 0 ≤ c.staleAfter) (h : Consistent c s) (a : Act) :
    Consistent c (act c s a) := by
  rcases act_cases limit s a with hquiet | ⟨now, raw, ⟨frame, tape, -, hraw⟩, haccepted⟩
  · exact h.quiet hquiet
  · cases haccepted with
    | raised hquiet => exact h.quiet hquiet
    | said s₁ quotes es hquiet hsound hcomplete hturned =>
      exact (h.quiet hquiet).turned hturned (fun key hkey => newlyStale_spec hraw hsound hkey)
        fun key hkey => (recoveredKeys_stale hkey).1

theorem consistent_run (limit : 0 ≤ c.staleAfter) (validator : QuoteValidator)
    (acts : List Act) : Consistent c (run c validator acts) := by
  have hfrom : ∀ (acts : List Act) s, Consistent c s →
      Consistent c (acts.foldl (QuoteSource.act c) s) := by
    intro acts
    induction acts with
    | nil => exact fun s h => h
    | cons a acts ih => exact fun s h => ih _ (h.act limit a)
  exact hfrom acts (init validator) (consistent_init c validator)

/-- An event that says nothing of any symbol names none as recovered. -/
theorem nobody_recovered {es : List SourceEvent} (h : ∀ key, mentions key es = [])
    {keys : List String} {staleForS : ℚ} (hmem : .feedRecovered keys staleForS ∈ es) :
    key ∉ keys := by
  intro hkey
  have hsaid : false ∈ mentions key es :=
    List.mem_filterMap.mpr ⟨_, hmem, by rw [SourceEvent.mention, if_pos hkey]⟩
  rw [h] at hsaid
  cases hsaid

theorem recoversFresh (limit : 0 ≤ c.staleAfter) (h : Consistent c s) {a : Act}
    (hopen : ∀ now fetch tape, a = .poll now fetch tape → c.marketOpen now)
    (hvalid : StaleValid c s a) : RecoversFresh c s a := by
  have hquietly : Quiet s (QuoteSource.act c s a) → RecoversFresh c s a := by
    intro hquiet keys staleForS hmem key hkey
    obtain ⟨es, hes, hnothing⟩ := hquiet.told
    rw [hes, List.drop_left] at hmem
    exact absurd hkey (nobody_recovered hnothing hmem)
  rcases act_cases limit s a with hquiet | ⟨now, raw, hbrings, haccepted⟩
  · exact hquietly hquiet
  · cases haccepted with
    | raised hquiet => exact hquietly hquiet
    | said s₁ quotes es hquiet hsound hcomplete hturned =>
      intro keys staleForS hmem key hkey
      obtain ⟨es₁, hes₁, hnothing⟩ := hquiet.told
      rw [hturned.sink, hes₁, List.append_assoc, List.drop_left] at hmem
      rcases List.mem_append.mp hmem with hbefore | hmem
      · exact absurd hkey (nobody_recovered hnothing hbefore)
      rw [hturned.told keys staleForS hmem] at hkey
      obtain ⟨hstale, hfresh⟩ := recoveredKeys_stale hkey
      rw [hquiet.staleSince] at hstale
      obtain ⟨frame, tape, ha, hraw⟩ := hbrings
      rw [staleNow, hopen now _ tape ha] at hfresh
      -- the poll brought something for the symbol, and it is not rejected
      have hbrought : key ∈ raw.keys := by
        by_contra hnot
        refine hfresh (List.mem_append_left _ ?_)
        rw [missingOf, mem_sortedSet, List.mem_filter]
        exact ⟨h.known key hstale, decide_eq_true hnot⟩
      obtain ⟨item, hitem⟩ := raw.mem_keys_iff.mp hbrought
      have hok := hvalid now raw key item ⟨frame, tape, ha, hraw⟩ hitem hstale
      cases hquote : quotes.get? key with
      | none => exact absurd hok (hcomplete key item hitem hquote)
      | some quote =>
        obtain ⟨item', hitem', haccepts⟩ := hsound key quote hquote
        refine ⟨now, raw, item', quote, ⟨frame, tape, ha, hraw⟩, hitem', haccepts, ?_⟩
        by_contra hold
        refine hfresh (List.mem_append_right _ (List.mem_map.mpr ⟨(key, quote), ?_, rfl⟩))
        exact List.mem_filter.mpr ⟨quotes.mem_entries_iff.mpr hquote,
          decide_eq_true (not_le.mp hold)⟩

/-- Over any polls of an open market, symbols go stale and recover by turns, the stale keys are
those last said to be stale, and as long as no quote of a stale symbol is rejected a symbol
recovers only on an accepted and fresh quote. -/
theorem recovers_on_valid_quote (limit : 0 ≤ c.staleAfter) (validator : QuoteValidator)
    (acts : List Act)
    (hopen : ∀ now fetch tape, .poll now fetch tape ∈ acts → c.marketOpen now)
    (hvalid : ∀ before a later, acts = before ++ a :: later →
      StaleValid c (run c validator before) a) :
    (∀ key, Alternates (mentions key (run c validator acts).sink)) ∧
      (∀ key, key ∈ (run c validator acts).staleKeys ↔
        (mentions key (run c validator acts).sink).getLast? = some true) ∧
      ∀ before a later, acts = before ++ a :: later →
        RecoversFresh c (run c validator before) a := by
  have hrun := consistent_run limit validator acts (c := c)
  refine ⟨hrun.alternates, fun key => ?_, fun before a later h => ?_⟩
  · rw [(hrun.alternates key).last_iff]
    exact hrun.stale key
  · refine recoversFresh limit (consistent_run limit validator before) ?_ (hvalid before a later h)
    intro now fetch tape ha
    exact hopen now fetch tape (by rw [h, ha]; simp)

/-! Two symbols are polled, and one of them is missing at first. What the next poll brings for it
is rejected, being half of the previous close, and still the symbol recovers. -/

namespace RejectedQuote

def config : QuoteSourceConfig where
  byTicker := .ofList [("INFY.NS", "NSE:EQ:INFY"), ("TCS.NS", "NSE:EQ:TCS")]
  marketOpen _ := true
  timeout := 20
  staleAfter := 900

def validator : QuoteValidator := { bandPctFor := fun _ => 20, tolerancePct := 1, seen := .empty }

def closes : Act :=
  .setPrevCloses (.ofList [("NSE:EQ:INFY", .finite 1500), ("NSE:EQ:TCS", .finite 3000)])

def bar (ts : Instant) (close : ℚ) : List MinuteBar := [⟨ts, true, .finite close, .finite 100⟩]

def missing : Act := .poll 60000000 (.frame (.ofList [("TCS.NS", bar 0 3000)])) none

def returned (close : ℚ) : Act := .poll 120000000
  (.frame (.ofList [("INFY.NS", bar 60000000 close), ("TCS.NS", bar 60000000 3000)])) none

/-- Whether what a poll brought for a symbol is let through. -/
def letThrough (s : QuoteSource) (a : Act) (key : String) : Bool :=
  match a with
  | .poll _ (.frame frame) _ =>
    match parseMinuteFrame config.byTicker frame with
    | .ok raw =>
      match raw.get? key with
      | some item => (s.validator.check (item.withPrevClose (s.prevClose.get? key))).isNone
      | none => false
    | .error _ => false
  | _ => false

theorem letThrough_eq {s : QuoteSource} {a : Act} {now : Instant} {raw : Dict String RawQuote}
    {key : String} {item : RawQuote} (h : Brings config a now raw)
    (hget : raw.get? key = some item) :
    letThrough s a key =
      (s.validator.check (item.withPrevClose (s.prevClose.get? key))).isNone := by
  obtain ⟨frame, tape, rfl, hraw⟩ := h
  simp only [letThrough, hraw, hget]

/-- Whether an event says that a symbol recovered. -/
def recovers (key : String) : SourceEvent → Bool
  | .feedRecovered keys _ => key ∈ keys
  | _ => false

theorem recovers_rejected :
    ¬∀ (c : QuoteSourceConfig) (validator : QuoteValidator) (acts : List Act), 0 ≤ c.staleAfter →
      (∀ now fetch tape, .poll now fetch tape ∈ acts → c.marketOpen now) →
      ∀ before a later, acts = before ++ a :: later →
        RecoversFresh c (run c validator before) a := by
  intro h
  have hfresh := h config validator [closes, missing, returned 750] (by decide +kernel)
    (fun _ _ _ _ => rfl) [closes, missing] (returned 750) [] rfl
  let s := run config validator [closes, missing]
  have hevent : ((act config s (returned 750)).sink.drop s.sink.length).any
      (recovers "NSE:EQ:INFY") = true := by
    decide +kernel
  have hrejected : letThrough (run config validator [closes, missing]) (returned 750)
      "NSE:EQ:INFY" = false := by decide +kernel
  obtain ⟨e, he, hrec⟩ := List.any_eq_true.mp hevent
  cases e with
  | quoteRejected key reason raw => cases hrec
  | feedStale keys ageS reason => cases hrec
  | feedRecovered keys staleForS =>
    obtain ⟨now, raw, item, quote, hbrings, hget, haccepts, -⟩ :=
      hfresh keys staleForS he "NSE:EQ:INFY" (of_decide_eq_true hrec)
    rw [letThrough_eq hbrings hget, haccepts.1] at hrejected
    cases hrejected

theorem recovers_on_valid_quote_returned :
    RecoversFresh config (run config validator [missing]) (returned 1510) := by
  have hstale : (run config validator [missing]).staleKeys = ["NSE:EQ:INFY"] := by decide +kernel
  have hvalid :
      letThrough (run config validator [missing]) (returned 1510) "NSE:EQ:INFY" = true := by
    decide +kernel
  have hlimit : 0 ≤ config.staleAfter := by decide +kernel
  refine (recovers_on_valid_quote hlimit validator [missing, returned 1510]
    (fun _ _ _ _ => rfl) ?_).2.2 [missing] (returned 1510) [] rfl
  intro before a later hsplit now raw key item hbrings hget hkey
  rcases before with _ | ⟨b, _ | ⟨b', before⟩⟩
  · cases hkey
  · cases hsplit
    rw [hstale, List.mem_singleton] at hkey
    subst hkey
    rw [letThrough_eq hbrings hget] at hvalid
    exact Option.isNone_iff_eq_none.mp hvalid
  · cases before <;> cases hsplit

end RejectedQuote

end QuoteSource

end RakshaQuant
