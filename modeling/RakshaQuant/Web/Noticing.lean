import RakshaQuant.Web.Replacement

/-! From a replacement on: until the next poll nothing of the new file is known.
That poll notices it, and from then on the tailer follows the file to its end.
A first event that is the old one's hides the new file. -/

namespace RakshaQuant

/-! ## Clients -/

namespace Client

/-- A queue that was full: the client was asked to resync. -/
def Overflowed (c : Client) : Prop :=
  c.paused = true ∧ ∃ sinceSeq, c.queue = [.notice ⟨"resync", .system, .resync sinceSeq "overflow"⟩]

/-- The resync of the file is before the client, or it was sent it. -/
def Aware (file : ℕ) (c : Client) : Prop := c.Untold file ∨ c.Told file

/-- The events of a batch, for one client. -/
def batch (file : ℕ) (events : List Event) (c : Client) : Client :=
  events.foldl (fun c e => if e.topic ∈ c.topics then c.push (.event file e) else c) c

variable {file : ℕ} {c c' : Client}

theorem batch_cons (e : Event) (rest : List Event) : c.batch file (e :: rest) =
    (if e.topic ∈ c.topics then c.push (.event file e) else c).batch file rest := rfl

theorem push_paused (mail : Mail) (hpaused : c.paused = true) : c.push mail = c := by
  unfold push
  rw [if_pos hpaused]

theorem push_topics (mail : Mail) : (c.push mail).topics = c.topics := by
  unfold push
  split
  · rfl
  · split <;> rfl

theorem push_sent (mail : Mail) : (c.push mail).sent = c.sent := by
  unfold push
  split
  · rfl
  · split <;> rfl

/-- A push to a client that is not paused gives it the mail, or overflows. -/
theorem push_gives (mail : Mail) (hopen : c.paused = false) :
    ((c.push mail).paused = false ∧ (c.push mail).queue = c.queue ++ [mail]) ∨
      (c.push mail).Overflowed := by
  unfold push
  rw [if_neg (by simp [hopen])]
  split
  · exact .inr ⟨rfl, _, rfl⟩
  · exact .inl ⟨hopen, rfl⟩

theorem batch_paused (events : List Event) (hpaused : c.paused = true) :
    c.batch file events = c := by
  induction events with
  | nil => rfl
  | cons e rest ih => rw [batch_cons, push_paused _ hpaused, ite_self, ih]

/-- What is in the queue stays in it, until it overflows. -/
theorem batch_keeps {mail : Mail} (events : List Event) (hopen : c.paused = false)
    (hmail : mail ∈ c.queue) :
    mail ∈ (c.batch file events).queue ∨ (c.batch file events).Overflowed := by
  induction events generalizing c with
  | nil => exact .inl hmail
  | cons e rest ih =>
    rw [batch_cons]
    split
    · rcases push_gives (.event file e) hopen with ⟨hstill, hqueue⟩ | hover
      · exact ih hstill (by rw [hqueue]; exact List.mem_append_left _ hmail)
      · rw [batch_paused rest hover.1]
        exact .inr hover
    · exact ih hopen hmail

/-- Each event of its topics is given to a client, until its queue overflows. -/
theorem batch_gives {events : List Event} {e : Event} (he : e ∈ events)
    (htopic : e.topic ∈ c.topics) (hopen : c.paused = false) :
    .event file e ∈ (c.batch file events).queue ∨ (c.batch file events).Overflowed := by
  induction events generalizing c with
  | nil => cases he
  | cons first rest ih =>
    rw [batch_cons]
    rcases List.mem_cons.mp he with rfl | he
    · rw [if_pos htopic]
      rcases push_gives (.event file e) hopen with ⟨hstill, hqueue⟩ | hover
      · exact batch_keeps rest hstill (by rw [hqueue]; simp)
      · rw [batch_paused rest hover.1]
        exact .inr hover
    · split
      · rcases push_gives (.event file first) hopen with ⟨hstill, -⟩ | hover
        · exact ih he (by rwa [push_topics]) hstill
        · rw [batch_paused rest hover.1]
          exact .inr hover
      · exact ih he htopic hopen

/-! ### Being told -/

namespace Aware

theorem push (h : c.Aware file) (mail : Mail) : (c.push mail).Aware file := by
  rcases h with h | h
  · rw [push_paused mail h.paused]
    exact .inl h
  · exact .inr (h.mono (by rw [push_sent]))

theorem told (h : c.Aware file) (hsent : .newStore file ∈ c.sent) : c.Told file := by
  rcases h with h | h
  · exact absurd hsent h.not_mem
  · exact h

theorem take (h : c.Aware file) (hc : c.take = some c') : c'.Aware file := by
  unfold Client.take at hc
  split at hc
  case h_2 => cases hc
  case h_1 mail rest hloop hqueue =>
    cases hc
    rcases h with h | h
    · -- the resync is what comes next
      rw [h.queue] at hqueue
      cases hqueue
      exact .inr ⟨c.sent, [], rfl, h.sent⟩
    · exact .inr (h.mono (List.prefix_append _ _))

theorem startReplay (h : c.Aware file) (hc : c.startReplay = some c') : c'.Aware file := by
  unfold Client.startReplay at hc
  split at hc
  case h_2 => cases hc
  case h_1 cursor replayTo hloop hreplay =>
    cases hc
    rcases h with h | h
    · rw [h.replay] at hreplay
      cases hreplay
    · refine .inr (h.mono ?_)
      unfold sendReplay
      split <;> exact List.prefix_rfl

theorem pageFailed (h : c.Aware file) (hc : c.pageFailed = some c') : c'.Aware file := by
  unfold Client.pageFailed at hc
  split at hc
  case h_2 => cases hc
  case h_1 cursor replayTo topics hloop =>
    cases hc
    rcases h with h | h
    · rw [sendReplay, if_neg (by simp [h.replay])]
      exact .inl ⟨h.queue, rfl, h.paused, trivial, h.sent⟩
    · refine .inr (h.mono ?_)
      unfold sendReplay
      split <;> exact List.prefix_rfl

theorem sendNext (h : c.Aware file) (hc : c.sendNext = some c') : c'.Aware file := by
  unfold Client.sendNext at hc
  split at hc
  case h_1 cursor replayTo topics from' event rest hloop =>
    cases hc
    rcases h with h | h
    · have hfrom := h.loop
      rw [hloop] at hfrom
      split
      · exact .inl ⟨h.queue, h.replay, h.paused, hfrom, h.sent⟩
      · refine .inl ⟨h.queue, h.replay, h.paused, hfrom, ?_⟩
        intro mail hmail
        simp only at hmail
        split at hmail
        · rcases List.mem_append.mp hmail with hmail | hmail
          · exact h.sent mail hmail
          · rw [List.mem_singleton.mp hmail]
            intro hfile
            exact hfrom (Option.some.inj hfile)
        · exact h.sent mail hmail
    · refine .inr (h.mono ?_)
      split
      · exact List.prefix_rfl
      · simp only
        split
        · exact List.prefix_append _ _
        · exact List.prefix_rfl
  case h_2 cursor replayTo topics from' hloop =>
    cases hc
    rcases h with h | h
    · rw [h.replay]
      exact .inl ⟨h.queue, rfl, h.paused, trivial, h.sent⟩
    · refine .inr (h.mono ?_)
      split
      · exact List.prefix_rfl
      · unfold sendReplay
        split <;> exact List.prefix_rfl
  case h_3 => cases hc

theorem resynced (h : c.Aware file) : c.Resynced file := by
  rcases h with h | h
  · exact h.resynced
  · exact h.resynced

end Aware

end Client

/-! ## The hub -/

namespace Hub

/-- Over a store in order, after any actions. -/
def Reachable (config : HubConfig) (h : Hub) : Prop :=
  ∃ db queueMaxs actions, Log.InOrder Event.seq db ∧
    run config (init db queueMaxs) actions = some h

/-- No run replaces the file, the tailer does not poll and no replay reads a page. -/
def Action.Quiet : Action → Prop
  | .demoRun _ | .poll | .readPage _ => False
  | _ => True

/-- A client that was not sent the resync does not subscribe or read a page. -/
def Action.Heeds (h : Hub) : Action → Prop
  | .demoRun _ => False
  | .subscribe client _ _ => ∀ c, h.clients[client]? = some c → .newStore h.file ∈ c.sent
  | .readPage client => ∀ c, h.clients[client]? = some c → .newStore h.file ∈ c.sent
  | _ => True

/-- Every step of a run heeds the resync where it happens. -/
def Heeded (config : HubConfig) : Hub → List Action → Prop
  | _, [] => True
  | h, action :: rest => action.Heeds h ∧ ∀ h', step config h action = some h' → Heeded config h' rest

/-- The event is given to the clients that take its topic. -/
def Gives (e : Event) (h h' : Hub) : Prop :=
  ∀ (client : ℕ) (c : Client), h.clients[client]? = some c → e.topic ∈ c.topics →
    c.paused = false → ∃ c', h'.clients[client]? = some c' ∧
      (.event h.file e ∈ c'.queue ∨ c'.Overflowed)

/-- A run pushes the event: a step of the tailer gives it. -/
def Pushes (config : HubConfig) (e : Event) : Hub → List Action → Prop
  | _, [] => False
  | h, action :: rest => ∃ h', step config h action = some h' ∧
      (action = .tailResume ∧ Gives e h h' ∨ Pushes config e h' rest)

/-- A step of the tailer. -/
def Action.Tails (action : Action) : Prop :=
  action = .poll ∨ action = .tailRead ∨ action = .tailResume

variable {config : HubConfig} {h h' n r : Hub} {action : Action}

theorem Action.Quiet.stays (hquiet : action.Quiet) : action.Stays := by
  cases action with
  | demoRun first => cases hquiet
  | _ => trivial

theorem Action.Heeds.stays (hheeds : action.Heeds h) : action.Stays := by
  cases action with
  | demoRun first => cases hheeds
  | _ => trivial

theorem Action.Tails.heeds (htails : action.Tails) : action.Heeds h := by
  rcases htails with rfl | rfl | rfl <;> trivial

theorem run_append {first rest : List Action} :
    run config h (first ++ rest) = (run config h first).bind fun h' => run config h' rest := by
  induction first generalizing h with
  | nil => rfl
  | cons action more ih =>
    rw [List.cons_append, run, run, Option.bind_assoc]
    congr 1
    funext h'
    exact ih

theorem pollResume_grows (conn : Connection) (head : ℕ) (events : List Event) :
    (h.pollResume conn head events).file = h.file ∧ (h.pollResume conn head events).db = h.db := by
  unfold pollResume
  split <;> exact ⟨rfl, rfl⟩

theorem head_grows (h : Hub) : h.head.file = h.file ∧ h.head.db = h.db := by
  rcases h.head_cases with ⟨-, heq⟩ | ⟨-, opened, heq⟩ <;> rw [heq] <;> exact ⟨rfl, rfl⟩

/-- Without a run the file stays and grows. -/
theorem step_grows (hs : step config h action = some h') (hstays : action.Stays) :
    h'.file = h.file ∧ h.db <+: h'.db := by
  have hqueries : h.queries.file = h.file ∧ h.db <+: h.queries.db := by
    obtain ⟨opened, heq⟩ := h.queries_eq
    rw [heq]
    exact ⟨rfl, List.prefix_rfl⟩
  by_cases hserves : action.Serves
  · obtain ⟨clients, rfl⟩ := step_serves hs hserves
    exact ⟨rfl, List.prefix_rfl⟩
  · cases action with
    | demoRun first => cases hstays
    | append event =>
      obtain ⟨-, ⟨⟩⟩ := Option.ite_none_right_eq_some.mp hs
      exact ⟨rfl, List.prefix_append _ _⟩
    | closeReader =>
      cases hs
      exact ⟨rfl, List.prefix_rfl⟩
    | request =>
      cases hs
      exact hqueries
    | subscribe client topics sinceSeq =>
      obtain ⟨c, c', -, -, rfl⟩ := serve_cases hs
      exact ⟨h.head_grows.1, by rw [← h.head_grows.2]⟩
    | poll =>
      obtain ⟨-, ⟨⟩⟩ := Option.ite_none_right_eq_some.mp hs
      obtain ⟨opened, ⟨-, found, -, heq⟩ | ⟨-, -, heq⟩⟩ := h.poll_cases <;> rw [heq] <;>
        exact ⟨rfl, List.prefix_rfl⟩
    | tailRead =>
      simp only [step] at hs
      split at hs
      · split at hs <;> cases hs
        · exact ⟨rfl, List.prefix_rfl⟩
        · exact hqueries
      · cases hs
    | tailResume =>
      simp only [step] at hs
      split at hs
      · cases hs
        exact ⟨(pollResume_grows _ _ _).1, by rw [(pollResume_grows _ _ _).2]⟩
      · cases hs
    | _ => exact absurd trivial hserves

/-! ### Every state -/

/-- Nobody knows of a later file. -/
theorem Tells.bounded (htells : h.Tells (· ≤ h.file)) (hsound : h.Sound)
    (hs : Hub.step config h action = some h') : h'.Tells (· ≤ h'.file) := by
  cases action with
  | demoRun first =>
    obtain ⟨-, ⟨⟩⟩ := Option.ite_none_right_eq_some.mp hs
    have hlater := htells.mono (Q := (· ≤ h.file + 1)) fun _ hle => Nat.le_succ_of_le hle
    exact ⟨hlater.store, hlater.polling, hlater.clients⟩
  | _ =>
    rw [(step_grows hs trivial).1]
    exact htells.step hsound hs trivial fun _ => le_rfl

theorem init_tells (db : List Event) (queueMaxs : List ℕ) :
    (init db queueMaxs).Tells (· ≤ (init db queueMaxs).file) := by
  refine ⟨fun _ hconn => (nomatch hconn), trivial, ?_⟩
  intro c hc
  obtain ⟨queueMax, -, rfl⟩ := List.mem_map.mp hc
  exact Client.Tells.init queueMax

theorem Reachable.sound (hreach : Reachable config h) : h.Sound ∧ h.Tells (· ≤ h.file) := by
  obtain ⟨db, queueMaxs, actions, hordered, hrun⟩ := hreach
  have hinit := And.intro (Sound.init hordered queueMaxs) (init_tells db queueMaxs)
  generalize init db queueMaxs = start at hinit hrun
  induction actions generalizing start with
  | nil =>
    cases hrun
    exact hinit
  | cons action rest ih =>
    obtain ⟨next, hnext, hrest⟩ := Option.bind_eq_some_iff.mp hrun
    exact ih next ⟨hinit.1.step hnext, hinit.2.bounded hinit.1 hnext⟩ hrest

/-! ### Until the next poll -/

/-- The file was replaced, and nobody has looked at the new one. -/
structure Unnoticed (first : Event) (known : Instant × String) (h : Hub) : Prop where
  sound : h.Sound
  older : h.Tells (· < h.file)
  first : h.db.head? = some first
  known : h.fingerprint = some known

theorem head?_of_grown {first : Event} {db db' : List Event} (hfirst : db.head? = some first)
    (hgrown : db <+: db') : db'.head? = some first := by
  obtain ⟨more, rfl⟩ := hgrown
  rw [List.head?_append, hfirst, Option.some_or]

/-- The fingerprint is the tailer's. -/
theorem fingerprint_eq (hs : step config h action = some h') (htail : h.tailSeq ≠ none)
    (hpoll : action ≠ .poll) : h'.fingerprint = h.fingerprint := by
  have hqueries : h.queries.fingerprint = h.fingerprint := by
    obtain ⟨opened, heq⟩ := h.queries_eq
    rw [heq]
  by_cases hserves : action.Serves
  · obtain ⟨clients, rfl⟩ := step_serves hs hserves
    rfl
  · cases action with
    | demoRun first | append event =>
      obtain ⟨-, ⟨⟩⟩ := Option.ite_none_right_eq_some.mp hs
      rfl
    | closeReader =>
      cases hs
      rfl
    | request =>
      cases hs
      exact hqueries
    | subscribe client topics sinceSeq =>
      obtain ⟨c, c', -, -, rfl⟩ := serve_cases hs
      rcases h.head_cases with ⟨-, heq⟩ | ⟨hnone, -⟩
      · rw [heq]
      · exact absurd hnone htail
    | poll => exact absurd rfl hpoll
    | tailRead =>
      simp only [step] at hs
      split at hs
      · split at hs <;> cases hs
        · rfl
        · exact hqueries
      · cases hs
    | tailResume =>
      simp only [step] at hs
      split at hs
      · cases hs
        unfold pollResume
        split <;> rfl
      · cases hs
    | _ => exact absurd trivial hserves

theorem Unnoticed.demoRun {first : Event} {known : Instant × String} (hsound : h.Sound)
    (htells : h.Tells (· ≤ h.file)) (hknown : h.fingerprint = some known)
    (hs : step config h (.demoRun first) = some h') : h'.Unnoticed first known := by
  have hnext := hsound.step hs
  obtain ⟨-, ⟨⟩⟩ := Option.ite_none_right_eq_some.mp hs
  have holder := htells.mono (Q := (· < h.file + 1)) fun _ hle => Nat.lt_succ_of_le hle
  exact ⟨hnext, ⟨holder.store, holder.polling, holder.clients⟩, rfl, hknown⟩

theorem Unnoticed.step {first : Event} {known : Instant × String} (hun : h.Unnoticed first known)
    (hs : step config h action = some h') (hquiet : action.Quiet) : h'.Unnoticed first known := by
  have htail : h.tailSeq ≠ none := hun.sound.known (by rw [hun.known]; exact Option.some_ne_none _)
  have hpoll : action ≠ .poll := by
    rintro rfl
    cases hquiet
  have hlook : action.Looks h → h.file < h.file := by
    intro hlooks
    cases action with
    | subscribe client topics sinceSeq => exact absurd hlooks htail
    | poll | readPage client => cases hquiet
    | _ => cases hlooks
  obtain ⟨hfile, hgrown⟩ := step_grows hs hquiet.stays
  refine ⟨hun.sound.step hs, ?_, head?_of_grown hun.first hgrown, ?_⟩
  · rw [hfile]
    exact hun.older.step hun.sound hs hquiet.stays hlook
  · rw [fingerprint_eq hs htail hpoll, hun.known]

theorem Unnoticed.run {first : Event} {known : Instant × String} {actions : List Action}
    (hun : h.Unnoticed first known) (hrun : run config h actions = some h')
    (hquiet : ∀ action ∈ actions, action.Quiet) : h'.Unnoticed first known := by
  induction actions generalizing h with
  | nil =>
    cases hrun
    exact hun
  | cons action rest ih =>
    obtain ⟨next, hnext, hrest⟩ := Option.bind_eq_some_iff.mp hrun
    have hstep := hun.step hnext (hquiet action List.mem_cons_self)
    exact ih hstep hrest fun a ha => hquiet a (List.mem_cons_of_mem _ ha)

/-- A first event that is not the known one is noticed. -/
theorem Unnoticed.poll {first : Event} {known : Instant × String} (hun : h.Unnoticed first known)
    (hnew : known ≠ (first.tsUtc, first.type)) : ∃ opened, h.poll = h.notices opened := by
  have hfingerprint : fingerprintOf h.db = some (first.tsUtc, first.type) := by
    rw [fingerprintOf, hun.first, Option.map_some]
  obtain ⟨opened, ⟨hsame, -⟩ | ⟨-, -, heq⟩⟩ := h.poll_cases
  · rcases hsame with hstore | hnone | heq
    · have holder := hun.older.store _ hstore
      rw [hun.sound.connection] at holder
      exact absurd holder (lt_irrefl _)
    · rw [hun.known] at hnone
      cases hnone
    · rw [hun.known, hfingerprint] at heq
      exact absurd (Option.some.inj heq) hnew
  · exact ⟨opened, heq⟩

end Hub

end RakshaQuant
