import RakshaQuant.Web.Tailer

/-! A store that a demo run replaces. The tailer notices it at its next poll if
the hub knows the old database by a first event that is not the new one's. Then
every client starts over, and the tailer follows the new file. -/

namespace RakshaQuant

/-! ## What a client was told -/

/-- The file of a page satisfies a predicate. -/
def Replay.Tells (P : ℕ → Prop) : Replay → Prop
  | .sending _ _ _ file _ => P file
  | _ => True

namespace Client

/-- Every file that a client's messages come from satisfies a predicate. -/
structure Tells (P : ℕ → Prop) (c : Client) : Prop where
  queue : ∀ mail ∈ c.queue, ∀ file, mail.file = some file → P file
  loop : c.loop.Tells P
  sent : ∀ mail ∈ c.sent, ∀ file, mail.file = some file → P file

namespace Tells

variable {P Q : ℕ → Prop} {c c' : Client}

theorem mono (h : c.Tells P) (hPQ : ∀ file, P file → Q file) : c.Tells Q where
  queue mail hmail file hfile := hPQ file (h.queue mail hmail file hfile)
  loop := by
    have hloop := h.loop
    cases hat : c.loop with
    | sending cursor replayTo topics file rest =>
      rw [hat] at hloop
      exact hPQ file hloop
    | _ => trivial
  sent mail hmail file hfile := hPQ file (h.sent mail hmail file hfile)

theorem init (queueMax : ℕ) : (Client.init queueMax).Tells P :=
  ⟨fun _ h => (nomatch h), trivial, fun _ h => (nomatch h)⟩

theorem push (h : c.Tells P) {mail : Mail} (hmail : ∀ file, mail.file = some file → P file) :
    (c.push mail).Tells P := by
  unfold Client.push
  split
  · exact h
  · split
    · refine ⟨?_, h.loop, h.sent⟩
      intro m hm file hfile
      rw [List.mem_singleton.mp hm] at hfile
      cases hfile
    · refine ⟨?_, h.loop, h.sent⟩
      intro m hm file hfile
      rcases List.mem_append.mp hm with hm | hm
      · exact h.queue m hm file hfile
      · rw [List.mem_singleton.mp hm] at hfile
        exact hmail file hfile

theorem subscribe (h : c.Tells P) (topics : Finset Topic) (sinceSeq head : ℕ) :
    (c.subscribe topics sinceSeq head).Tells P :=
  ⟨fun _ h => (nomatch h), h.loop, h.sent⟩

theorem startOver (h : c.Tells P) {file : ℕ} (hfile : P file) : (c.startOver file).Tells P := by
  refine ⟨?_, h.loop, h.sent⟩
  intro mail hmail file' hfile'
  rw [List.mem_singleton.mp hmail] at hfile'
  cases hfile'
  exact hfile

theorem take (h : c.Tells P) (hc : c.take = some c') : c'.Tells P := by
  unfold Client.take at hc
  split at hc
  case h_2 => cases hc
  case h_1 mail rest hloop hqueue =>
    cases hc
    refine ⟨?_, h.loop, ?_⟩
    · intro m hm
      exact h.queue m (by rw [hqueue]; exact List.mem_cons_of_mem _ hm)
    · intro m hm
      rcases List.mem_append.mp hm with hm | hm
      · exact h.sent m hm
      · rw [List.mem_singleton.mp hm]
        exact h.queue mail (by rw [hqueue]; exact List.mem_cons_self)

theorem sendReplay (h : c.Tells P) (cursor replayTo : ℕ) (topics : Finset Topic) :
    (c.sendReplay cursor replayTo topics).Tells P := by
  unfold Client.sendReplay
  split
  · exact ⟨h.queue, trivial, h.sent⟩
  · exact ⟨h.queue, trivial, h.sent⟩

theorem startReplay (h : c.Tells P) (hc : c.startReplay = some c') : c'.Tells P := by
  unfold Client.startReplay at hc
  split at hc
  · cases hc
    exact h.sendReplay _ _ _
  · cases hc

theorem readPage (h : c.Tells P) {batch file : ℕ} {db : List Event} (hfile : P file)
    (hc : c.readPage batch file db = some c') : c'.Tells P := by
  unfold Client.readPage at hc
  split at hc
  · cases hc
    split
    · exact ⟨h.queue, trivial, h.sent⟩
    · exact ⟨h.queue, hfile, h.sent⟩
  · cases hc

theorem pageFailed (h : c.Tells P) (hc : c.pageFailed = some c') : c'.Tells P := by
  unfold Client.pageFailed at hc
  split at hc
  · cases hc
    exact h.sendReplay _ _ _
  · cases hc

theorem sendNext (h : c.Tells P) (hc : c.sendNext = some c') : c'.Tells P := by
  unfold Client.sendNext at hc
  have hloop := h.loop
  split at hc
  case h_1 cursor replayTo topics file event rest hat =>
    rw [hat] at hloop
    cases hc
    split
    · exact ⟨h.queue, hloop, h.sent⟩
    · refine ⟨h.queue, hloop, ?_⟩
      intro mail hmail file' hfile'
      simp only at hmail
      split at hmail
      · rcases List.mem_append.mp hmail with hmail | hmail
        · exact h.sent mail hmail file' hfile'
        · rw [List.mem_singleton.mp hmail] at hfile'
          cases hfile'
          exact hloop
      · exact h.sent mail hmail file' hfile'
  case h_2 =>
    cases hc
    split
    · exact ⟨h.queue, trivial, h.sent⟩
    · have hasked (pair : ℕ × ℕ) : ({ c with replay := some pair } : Client).Tells P :=
        ⟨h.queue, h.loop, h.sent⟩
      exact (hasked _).sendReplay _ _ _
  case h_3 => cases hc

end Tells

/-! ## The resync -/

/-- The resync of a new store was sent or comes next, and nothing of the store
was sent before it. -/
structure Resynced (file : ℕ) (c : Client) : Prop where
  given : .newStore file ∈ c.sent ∨ c.queue.head? = some (.newStore file)
  first : ∀ before mail after, c.sent = before ++ mail :: after → mail.file = some file →
    mail = .newStore file ∨ .newStore file ∈ before

/-- It is still to be sent the resync. -/
structure Untold (file : ℕ) (c : Client) : Prop where
  queue : c.queue = [.newStore file]
  replay : c.replay = none
  paused : c.paused = true
  loop : c.loop.Tells (· ≠ file)
  sent : ∀ mail ∈ c.sent, mail.file ≠ some file

/-- It was sent the resync, and nothing of the store before it. -/
def Told (file : ℕ) (c : Client) : Prop :=
  ∃ old new, c.sent = old ++ .newStore file :: new ∧ ∀ mail ∈ old, mail.file ≠ some file

variable {file : ℕ} {c c' : Client}

theorem Untold.resynced (h : c.Untold file) : c.Resynced file where
  given := .inr (by rw [h.queue]; rfl)
  first before mail after hsent hfile := by
    refine absurd hfile (h.sent mail ?_)
    rw [hsent]
    exact List.mem_append_right _ List.mem_cons_self

theorem Told.resynced (h : c.Told file) : c.Resynced file := by
  obtain ⟨old, new, hsent, hold⟩ := h
  constructor
  · exact .inl (by rw [hsent]; simp)
  · intro before mail after hat hfile
    rw [hsent] at hat
    rcases List.append_eq_append_iff.mp hat with ⟨between, hbefore, hrest⟩ | ⟨between, hold', hrest⟩
    · cases between with
      | nil =>
        rw [List.nil_append] at hrest
        injection hrest with hmail _
        exact .inl hmail.symm
      | cons m more =>
        injection hrest with hm _
        right
        rw [hbefore, ← hm]
        simp
    · cases between with
      | nil =>
        rw [List.nil_append] at hrest
        injection hrest with hmail _
        exact .inl hmail
      | cons m more =>
        injection hrest with hm _
        refine absurd hfile (hold mail ?_)
        rw [hold', hm]
        simp

theorem Told.mono (h : c.Told file) (hsent : c.sent <+: c'.sent) : c'.Told file := by
  obtain ⟨old, new, heq, hold⟩ := h
  obtain ⟨more, hmore⟩ := hsent
  exact ⟨old, new ++ more, by rw [← hmore, heq]; simp, hold⟩

theorem Untold.not_mem (h : c.Untold file) : .newStore file ∉ c.sent := by
  intro hmem
  exact h.sent _ hmem rfl

/-- The resync is put in the queue. -/
theorem Tells.untold (h : c.Tells (· < file)) : (c.startOver file).Untold file where
  queue := rfl
  replay := rfl
  paused := rfl
  loop := by
    have hloop := (h.mono (Q := (· ≠ file)) fun _ hlt => Nat.ne_of_lt hlt).loop
    exact hloop
  sent mail hmail hfile := Nat.lt_irrefl _ (h.sent mail hmail file hfile)

end Client

/-! ## The hub until it notices -/

/-- The file of a poll's connection satisfies a predicate. -/
def Polling.Tells (P : ℕ → Prop) : Polling → Prop
  | .sleeping => True
  | .reading conn _ => P conn.file
  | .fetched conn _ _ => P conn.file

namespace Hub

/-- Every file that the tailer and the clients know of satisfies a predicate. -/
structure Tells (P : ℕ → Prop) (h : Hub) : Prop where
  store : ∀ conn, h.store = some conn → P conn.file
  polling : h.polling.Tells P
  clients : ∀ c ∈ h.clients, c.Tells P

/-- The action looks at the file of the moment for the tailer or a client. -/
def Action.Looks (h : Hub) : Action → Prop
  | .poll => True
  | .readPage _ => True
  | .subscribe _ _ _ => h.tailSeq = none
  | _ => False

/-- No run deletes the file. -/
def Action.Stays : Action → Prop
  | .demoRun _ => False
  | _ => True

variable {config : HubConfig} {P Q : ℕ → Prop} {h h' : Hub}

theorem pushAll_tells {topic : Topic} {mail : Mail} {clients : List Client}
    (hmail : ∀ file, mail.file = some file → P file) (hall : ∀ c ∈ clients, c.Tells P) :
    ∀ c ∈ pushAll topic mail clients, c.Tells P := by
  intro c hc
  obtain ⟨c₀, hc₀, rfl⟩ := List.mem_map.mp hc
  split
  · exact (hall c₀ hc₀).push hmail
  · exact hall c₀ hc₀

theorem fanOut_tells {file : ℕ} {events : List Event} {clients : List Client} (hfile : P file)
    (hall : ∀ c ∈ clients, c.Tells P) : ∀ c ∈ fanOut file events clients, c.Tells P := by
  induction events generalizing clients with
  | nil => exact hall
  | cons e rest ih =>
    refine ih (pushAll_tells ?_ hall)
    intro file' hfile'
    cases hfile'
    exact hfile

/-- A send loop changes its own client. -/
theorem serve_cases {client : ℕ} {act : Client → Option Client}
    (hs : h.serve client act = some h') :
    ∃ c c', h.clients[client]? = some c ∧ act c = some c' ∧
      h' = { h with clients := h.clients.set client c' } := by
  unfold serve at hs
  obtain ⟨c', hc', hset⟩ := Option.map_eq_some_iff.mp hs
  obtain ⟨c, hc, hact⟩ := Option.bind_eq_some_iff.mp hc'
  exact ⟨c, c', hc, hact, hset.symm⟩

theorem serve_all {R : Client → Prop} {client : ℕ} {act : Client → Option Client}
    (hs : h.serve client act = some h') (hall : ∀ c ∈ h.clients, R c)
    (hact : ∀ c c', h.clients[client]? = some c → R c → act c = some c' → R c') :
    ∀ c ∈ h'.clients, R c := by
  obtain ⟨c, c', hc, hc', rfl⟩ := serve_cases hs
  intro c'' hc''
  rcases List.mem_or_eq_of_mem_set hc'' with hold | rfl
  · exact hall c'' hold
  · exact hact c _ hc (hall c (List.mem_of_getElem? hc)) hc'

/-! ### What the steps change -/

theorem queries_eq (h : Hub) : ∃ opened,
    h.queries = { h with reader := some h.connection, opened := opened } := by
  cases hreader : h.reader with
  | none => exact ⟨h.opened + 1, by simp [queries, connection, hreader]⟩
  | some conn =>
    refine ⟨h.opened, ?_⟩
    obtain ⟨db, file, opened, reader⟩ := h
    cases hreader
    rfl

/-- The first use starts the tailing; a later one changes nothing. -/
theorem head_cases (h : Hub) : (h.tailSeq ≠ none ∧ h.head = h) ∨
    (h.tailSeq = none ∧ ∃ opened, h.head = { h with
      reader := some h.connection
      opened := opened
      tailSeq := some (EventStore.lastSeq h.db)
      store := some h.connection
      fingerprint := fingerprintOf h.db }) := by
  cases htail : h.tailSeq with
  | some tail => exact .inl ⟨by simp, by simp [head, htail]⟩
  | none =>
    obtain ⟨opened, hopened⟩ := h.queries_eq
    exact .inr ⟨rfl, opened, by simp [head, htail, hopened]⟩

/-- A poll that goes on to read. -/
def polls (opened : ℕ) (fingerprint : Option (Instant × String)) (h : Hub) : Hub :=
  { h with
    reader := some h.connection
    opened := opened
    tailSeq := some h.headSeq
    store := some h.connection
    fingerprint := fingerprint
    polling := .reading h.connection h.headSeq }

/-- A poll that notices a new database. -/
def notices (opened : ℕ) (h : Hub) : Hub :=
  { h with
    reader := some h.connection
    opened := opened
    tailSeq := some (EventStore.lastSeq h.db)
    store := some h.connection
    fingerprint := fingerprintOf h.db
    clients := h.clients.map (Client.startOver h.file) }

/-- The read starts on the connection that the tailer knows. -/
theorem startRead_eq (opened : ℕ) (fingerprint : Option (Instant × String)) (h : Hub) :
    ∃ found, (found = fingerprint ∨ found = fingerprintOf h.db) ∧
      ({ h with
        reader := some h.connection
        opened := opened
        store := some h.connection
        fingerprint := fingerprint } : Hub).startRead h.connection = h.polls opened found := by
  cases htail : h.tailSeq with
  | some tail =>
    exact ⟨fingerprint, .inl rfl, by simp [startRead, head, headSeq, polls, htail]⟩
  | none =>
    refine ⟨fingerprintOf h.db, .inr rfl, ?_⟩
    simp [startRead, head, headSeq, polls, queries, connection, htail]

theorem poll_cases (h : Hub) : ∃ opened,
    ((h.store = some h.connection ∨ h.fingerprint = none ∨ h.fingerprint = fingerprintOf h.db) ∧
      ∃ found, (found = h.fingerprint ∨ found = fingerprintOf h.db) ∧
        h.poll = h.polls opened found) ∨
    (h.fingerprint ≠ none ∧ fingerprintOf h.db ≠ h.fingerprint ∧ h.poll = h.notices opened) := by
  obtain ⟨opened, hopened⟩ := h.queries_eq
  refine ⟨opened, ?_⟩
  have hpoll : h.poll = if h.store = some h.connection then h.queries.startRead h.connection
      else if h.fingerprint ≠ none ∧ fingerprintOf h.db ≠ h.fingerprint then h.notices opened
      else { h.queries with
        store := some h.connection
        fingerprint := fingerprintOf h.db }.startRead h.connection := by
    simp only [poll, notices, hopened]
  rw [hpoll]
  split
  case isTrue hstore =>
    obtain ⟨found, hfound, heq⟩ := startRead_eq opened h.fingerprint h
    refine .inl ⟨.inl hstore, found, hfound, ?_⟩
    rw [← heq, hopened, ← hstore]
  case isFalse =>
    split
    case isTrue hnew => exact .inr ⟨hnew.1, hnew.2, rfl⟩
    case isFalse hsame =>
      obtain ⟨found, hfound, heq⟩ := startRead_eq opened (fingerprintOf h.db) h
      refine .inl ⟨.inr ?_, found, .inr (or_self_iff.mp hfound), ?_⟩
      · by_cases hnone : h.fingerprint = none
        · exact .inl hnone
        · exact .inr (by_contra fun hne => hsame ⟨hnone, fun heq => hne heq.symm⟩)
      · rw [← heq, hopened]

/-- The actions that change the clients only. -/
def Action.Serves : Action → Prop
  | .announce _ _ | .take _ | .startReplay _ | .readPage _ | .pageFailed _ | .sendNext _ => True
  | _ => False

theorem step_serves {action : Action} (hs : step config h action = some h')
    (hserves : action.Serves) : ∃ clients, h' = { h with clients := clients } := by
  cases action with
  | announce kind data =>
    cases hs
    exact ⟨_, rfl⟩
  | take client | startReplay client | readPage client | pageFailed client | sendNext client =>
    obtain ⟨c, c', -, -, rfl⟩ := serve_cases hs
    exact ⟨_, rfl⟩
  | _ => cases hserves

/-! ### Every state -/

/-- The store is in order, the reader is on its file, and who knows a database
stands somewhere in it. -/
structure Sound (h : Hub) : Prop where
  ordered : Log.InOrder Event.seq h.db
  reader : ∀ conn, h.reader = some conn → conn.file = h.file
  known : h.fingerprint ≠ none → h.tailSeq ≠ none

theorem Sound.connection (hsound : h.Sound) : h.connection.file = h.file := by
  unfold Hub.connection
  cases hreader : h.reader with
  | none => rfl
  | some conn => exact hsound.reader conn hreader

theorem last_le_lastSeq (db : List Event) : Log.last Event.seq db ≤ EventStore.lastSeq db := by
  unfold Log.last
  cases hlast : db.getLast? with
  | none => exact Nat.zero_le _
  | some e => exact EventStore.le_lastSeq (List.mem_of_getLast? hlast)

theorem Sound.init {db : List Event} (hordered : Log.InOrder Event.seq db) (queueMaxs : List ℕ) :
    (init db queueMaxs).Sound :=
  ⟨hordered, fun _ hconn => (nomatch hconn), fun hknown => absurd rfl hknown⟩

theorem Sound.head (hsound : h.Sound) : h.head.Sound := by
  rcases h.head_cases with ⟨-, heq⟩ | ⟨-, opened, heq⟩
  · rw [heq]
    exact hsound
  · rw [heq]
    refine ⟨hsound.ordered, ?_, fun _ => Option.some_ne_none _⟩
    intro conn hconn
    cases hconn
    exact hsound.connection

theorem Sound.queries (hsound : h.Sound) : h.queries.Sound := by
  obtain ⟨opened, heq⟩ := h.queries_eq
  rw [heq]
  refine ⟨hsound.ordered, ?_, hsound.known⟩
  intro conn hconn
  cases hconn
  exact hsound.connection

theorem Sound.poll (hsound : h.Sound) : h.poll.Sound := by
  have hconnection : ∀ conn, some h.connection = some conn → conn.file = h.file := by
    intro conn hconn
    cases hconn
    exact hsound.connection
  obtain ⟨opened, ⟨-, found, -, heq⟩ | ⟨-, -, heq⟩⟩ := h.poll_cases
  · rw [heq]
    exact ⟨hsound.ordered, hconnection, fun _ => Option.some_ne_none _⟩
  · rw [heq]
    exact ⟨hsound.ordered, hconnection, fun _ => Option.some_ne_none _⟩

theorem Sound.step {action : Action} (hsound : h.Sound) (hs : step config h action = some h') :
    h'.Sound := by
  by_cases hserves : action.Serves
  · obtain ⟨clients, rfl⟩ := step_serves hs hserves
    exact ⟨hsound.ordered, hsound.reader, hsound.known⟩
  · cases action with
    | demoRun first =>
      obtain ⟨-, ⟨⟩⟩ := Option.ite_none_right_eq_some.mp hs
      exact ⟨List.pairwise_singleton _ _, fun _ hconn => (nomatch hconn), hsound.known⟩
    | append event =>
      obtain ⟨hseq, ⟨⟩⟩ := Option.ite_none_right_eq_some.mp hs
      exact ⟨hsound.ordered.concat ((last_le_lastSeq h.db).trans_lt hseq), hsound.reader,
        hsound.known⟩
    | closeReader =>
      cases hs
      exact ⟨hsound.ordered, fun _ hconn => (nomatch hconn), hsound.known⟩
    | request =>
      cases hs
      exact hsound.queries
    | subscribe client topics sinceSeq =>
      obtain ⟨c, c', -, -, rfl⟩ := serve_cases hs
      exact ⟨hsound.head.ordered, hsound.head.reader, hsound.head.known⟩
    | poll =>
      obtain ⟨-, ⟨⟩⟩ := Option.ite_none_right_eq_some.mp hs
      exact hsound.poll
    | tailRead =>
      simp only [Hub.step] at hs
      split at hs
      · split at hs
        · cases hs
          exact ⟨hsound.ordered, hsound.reader, hsound.known⟩
        · cases hs
          exact ⟨hsound.queries.ordered, hsound.queries.reader, hsound.queries.known⟩
      · cases hs
    | tailResume =>
      simp only [Hub.step] at hs
      split at hs
      · cases hs
        unfold pollResume
        split
        · exact ⟨hsound.ordered, hsound.reader, hsound.known⟩
        · exact ⟨hsound.ordered, hsound.reader, fun _ => Option.some_ne_none _⟩
      · cases hs
    | _ => exact absurd trivial hserves

/-! ### Which files are known -/

theorem Tells.mono (htells : h.Tells P) (hPQ : ∀ file, P file → Q file) : h.Tells Q where
  store conn hconn := hPQ _ (htells.store conn hconn)
  polling := by
    have hpolling := htells.polling
    cases hat : h.polling with
    | sleeping => trivial
    | reading conn head | fetched conn head events =>
      rw [hat] at hpolling
      exact hPQ _ hpolling
  clients c hc := (htells.clients c hc).mono hPQ

theorem Tells.head (htells : h.Tells P) (hsound : h.Sound)
    (hlook : h.tailSeq = none → P h.file) : h.head.Tells P := by
  rcases h.head_cases with ⟨-, heq⟩ | ⟨htail, opened, heq⟩
  · rw [heq]
    exact htells
  · rw [heq]
    refine ⟨?_, htells.polling, htells.clients⟩
    intro conn hconn
    cases hconn
    rw [hsound.connection]
    exact hlook htail

theorem Tells.poll (htells : h.Tells P) (hsound : h.Sound) (hlook : P h.file) :
    h.poll.Tells P := by
  have hconnection : ∀ conn, some h.connection = some conn → P conn.file := by
    intro conn hconn
    cases hconn
    rw [hsound.connection]
    exact hlook
  obtain ⟨opened, ⟨-, found, -, heq⟩ | ⟨-, -, heq⟩⟩ := h.poll_cases
  · rw [heq]
    exact ⟨hconnection, hconnection _ rfl, htells.clients⟩
  · rw [heq]
    refine ⟨hconnection, htells.polling, ?_⟩
    intro c hc
    obtain ⟨c₀, hc₀, rfl⟩ := List.mem_map.mp hc
    exact (htells.clients c₀ hc₀).startOver hlook

/-- What is not looked at now was known before. -/
theorem Tells.step {action : Action} (htells : h.Tells P) (hsound : h.Sound)
    (hs : step config h action = some h') (hstays : action.Stays)
    (hlook : action.Looks h → P h.file) : h'.Tells P := by
  have hsame {clients : List Client} (hall : ∀ c ∈ clients, c.Tells P) :
      ({ h with clients := clients } : Hub).Tells P :=
    ⟨htells.store, htells.polling, hall⟩
  -- what one client does concerns no other and not the store
  have hserve {client : ℕ} {act : Client → Option Client} (hact : h.serve client act = some h')
      (hkeeps : ∀ c c', c.Tells P → act c = some c' → c'.Tells P) : h'.Tells P := by
    have hall := serve_all hact htells.clients fun c c' _ => hkeeps c c'
    obtain ⟨c, c', -, -, rfl⟩ := serve_cases hact
    exact hsame hall
  cases action with
  | demoRun first => cases hstays
  | append event =>
    obtain ⟨-, ⟨⟩⟩ := Option.ite_none_right_eq_some.mp hs
    exact ⟨htells.store, htells.polling, htells.clients⟩
  | closeReader =>
    cases hs
    exact ⟨htells.store, htells.polling, htells.clients⟩
  | request =>
    cases hs
    obtain ⟨opened, heq⟩ := h.queries_eq
    rw [heq]
    exact ⟨htells.store, htells.polling, htells.clients⟩
  | announce kind data =>
    cases hs
    exact hsame (pushAll_tells (fun _ hfile => (nomatch hfile)) htells.clients)
  | subscribe client topics sinceSeq =>
    have hhead := htells.head hsound hlook
    have hall := serve_all hs hhead.clients fun c c' _ hc hc' => by
      cases hc'
      exact hc.subscribe _ _ _
    obtain ⟨c, c', -, -, rfl⟩ := serve_cases hs
    exact ⟨hhead.store, hhead.polling, hall⟩
  -- these steps look at the file not at all, or only as far as `hlook` vouches for
  | take client => exact hserve hs fun c c' hc hc' => hc.take hc'
  | startReplay client => exact hserve hs fun c c' hc hc' => hc.startReplay hc'
  | readPage client => exact hserve hs fun c c' hc hc' => hc.readPage (hlook trivial) hc'
  | pageFailed client => exact hserve hs fun c c' hc hc' => hc.pageFailed hc'
  | sendNext client => exact hserve hs fun c c' hc hc' => hc.sendNext hc'
  | poll =>
    obtain ⟨-, ⟨⟩⟩ := Option.ite_none_right_eq_some.mp hs
    exact htells.poll hsound (hlook trivial)
  | tailRead =>
    simp only [Hub.step] at hs
    have hpolling := htells.polling
    split at hs
    case h_1 conn head hat =>
      rw [hat] at hpolling
      split at hs
      · cases hs
        exact ⟨htells.store, hpolling, htells.clients⟩
      · cases hs
        obtain ⟨opened, heq⟩ := h.queries_eq
        rw [heq]
        exact ⟨htells.store, trivial, htells.clients⟩
    case h_2 => cases hs
  | tailResume =>
    simp only [Hub.step] at hs
    have hpolling := htells.polling
    split at hs
    case h_1 conn head events hat =>
      rw [hat] at hpolling
      cases hs
      unfold pollResume
      split
      · exact ⟨htells.store, trivial, htells.clients⟩
      · exact ⟨htells.store, trivial, fanOut_tells hpolling htells.clients⟩
    case h_2 => cases hs

end Hub

end RakshaQuant
