import RakshaQuant.Web.Noticing

/-! The tailer on a file that is not replaced any more: it knows the file by its
first event, so that new connections change nothing, and it reads to the end. A
demo run that starts like the one before it is followed from the old position. -/

namespace RakshaQuant

namespace Hub

variable {config : HubConfig} {h h' n r : Hub} {action : Action} {e : Event}

/-! ## The tailer -/

/-- A poll is on the file of the moment, and has read from where the tailer stands. -/
def Polling.Follows (h : Hub) : Polling → Prop
  | .sleeping => True
  | .reading conn head => h.store = some conn ∧ conn.file = h.file ∧ h.tailSeq = some head
  | .fetched conn head events => h.store = some conn ∧ conn.file = h.file ∧
      h.tailSeq = some head ∧ events <+: Log.after Event.seq head h.db

/-- The tailer knows the file and stands in it. -/
structure Follows (h : Hub) : Prop where
  sound : h.Sound
  started : h.db ≠ []
  known : h.fingerprint = fingerprintOf h.db
  tail : ∃ tail, h.tailSeq = some tail ∧ tail ≤ EventStore.lastSeq h.db
  polling : Polling.Follows h h.polling

theorem lastSeq_mono {db db' : List Event} (h : db <+: db') :
    EventStore.lastSeq db ≤ EventStore.lastSeq db' := by
  rcases EventStore.lastSeq_mem db with hzero | ⟨e, he, hseq⟩
  · omega
  · rw [← hseq]
    exact EventStore.le_lastSeq (h.subset he)

/-- Up to the last event of before, the store holds what it held. -/
theorem mem_of_le_lastSeq {db db' : List Event} (hordered : Log.InOrder Event.seq db')
    (hgrown : db <+: db') (hstarted : db ≠ []) (he : e ∈ db')
    (hle : e.seq ≤ EventStore.lastSeq db) : e ∈ db := by
  obtain ⟨more, rfl⟩ := hgrown
  rcases List.mem_append.mp he with hold | hnew
  · exact hold
  · obtain ⟨-, -, hbefore⟩ := List.pairwise_append.mp hordered
    rcases EventStore.lastSeq_mem db with hzero | ⟨last, hlast, hseq⟩
    · obtain ⟨first, rest, rfl⟩ := List.exists_cons_of_ne_nil hstarted
      have := hbefore first List.mem_cons_self e hnew
      omega
    · have := hbefore last hlast e hnew
      omega

theorem fingerprintOf_grown {db db' : List Event} (hstarted : db ≠ []) (hgrown : db <+: db') :
    fingerprintOf db' = fingerprintOf db := by
  obtain ⟨first, rest, rfl⟩ := List.exists_cons_of_ne_nil hstarted
  obtain ⟨more, rfl⟩ := hgrown
  rfl

namespace Follows

theorem tailing (hfollows : h.Follows) : h.tailSeq ≠ none := by
  obtain ⟨tail, htail, -⟩ := hfollows.tail
  rw [htail]
  exact Option.some_ne_none _

theorem head_eq (hfollows : h.Follows) : h.head = h := by
  rcases h.head_cases with ⟨-, heq⟩ | ⟨hnone, -⟩
  · exact heq
  · exact absurd hnone hfollows.tailing

/-- A poll goes on to read. -/
theorem poll_eq (hfollows : h.Follows) : ∃ opened,
    h.poll = h.polls opened (fingerprintOf h.db) := by
  obtain ⟨opened, ⟨-, found, hfound, heq⟩ | ⟨-, hnew, -⟩⟩ := h.poll_cases
  · rw [hfollows.known, or_self_iff] at hfound
    exact ⟨opened, by rw [heq, hfound]⟩
  · exact absurd hfollows.known.symm hnew

theorem resumes (hfollows : h.Follows) {conn : Connection} {head : ℕ} {events : List Event}
    (hat : h.polling = .fetched conn head events) (hne : events ≠ []) :
    h.pollResume conn head events = { h with
      polling := .sleeping
      tailSeq := some (Log.last Event.seq events)
      clients := fanOut conn.file events h.clients } ∧
      head < Log.last Event.seq events ∧
      Log.last Event.seq events ≤ EventStore.lastSeq h.db := by
  have hpolling := hfollows.polling
  rw [hat] at hpolling
  obtain ⟨hstore, -, -, hgrown⟩ := hpolling
  have hlast := List.getLast_mem hne
  have heq : Log.last Event.seq events = (events.getLast hne).seq := by
    simp [Log.last, List.getLast?_eq_some_getLast hne]
  have hmem := List.mem_filter.mp (hgrown.subset hlast)
  have hafter : head < (events.getLast hne).seq := by simpa using hmem.2
  refine ⟨?_, by omega, ?_⟩
  · rw [pollResume, if_neg (by simp [hne, hstore])]
    simp only
    rw [if_neg (by omega)]
  · rw [heq]
    exact EventStore.le_lastSeq hmem.1

theorem poll (hfollows : h.Follows) : h.poll.Follows := by
  have hsound := hfollows.sound.poll
  obtain ⟨tail, htail, hle⟩ := hfollows.tail
  have hhead : h.headSeq = tail := by simp [headSeq, htail]
  obtain ⟨opened, heq⟩ := hfollows.poll_eq
  rw [heq] at hsound ⊢
  exact ⟨hsound, hfollows.started, rfl, ⟨tail, by rw [← hhead]; rfl, hle⟩, rfl,
    hfollows.sound.connection, rfl⟩

theorem queries (hfollows : h.Follows) : h.queries.Follows := by
  have hsound := hfollows.sound.queries
  obtain ⟨opened, heq⟩ := h.queries_eq
  rw [heq] at hsound ⊢
  exact ⟨hsound, hfollows.started, hfollows.known, hfollows.tail, by
    have hpolling := hfollows.polling
    cases hat : h.polling <;> rw [hat] at hpolling <;> exact hpolling⟩

theorem idle (hfollows : h.Follows) : ({ h with polling := .sleeping } : Hub).Follows :=
  ⟨⟨hfollows.sound.ordered, hfollows.sound.reader, hfollows.sound.known⟩, hfollows.started,
    hfollows.known, hfollows.tail, trivial⟩

theorem pollResume (hfollows : h.Follows) {conn : Connection} {head : ℕ} {events : List Event}
    (hat : h.polling = .fetched conn head events) : (h.pollResume conn head events).Follows := by
  by_cases hne : events = []
  · rw [Hub.pollResume, if_pos (.inl hne)]
    exact hfollows.idle
  · obtain ⟨heq, -, hle⟩ := hfollows.resumes hat hne
    rw [heq]
    exact ⟨⟨hfollows.sound.ordered, hfollows.sound.reader, fun _ => Option.some_ne_none _⟩,
      hfollows.started, hfollows.known, ⟨_, rfl, hle⟩, trivial⟩

theorem clients (hfollows : h.Follows) (clients : List Client) :
    ({ h with clients := clients } : Hub).Follows := by
  refine ⟨⟨hfollows.sound.ordered, hfollows.sound.reader, hfollows.sound.known⟩,
    hfollows.started, hfollows.known, hfollows.tail, ?_⟩
  have hpolling := hfollows.polling
  cases hat : h.polling <;> rw [hat] at hpolling <;> exact hpolling

theorem step (hfollows : h.Follows) (hs : Hub.step config h action = some h')
    (hstays : action.Stays) : h'.Follows := by
  by_cases hserves : action.Serves
  · obtain ⟨clients, rfl⟩ := step_serves hs hserves
    exact hfollows.clients clients
  · have hsound := hfollows.sound.step hs
    cases action with
    | demoRun first => cases hstays
    | append event =>
      obtain ⟨-, ⟨⟩⟩ := Option.ite_none_right_eq_some.mp hs
      -- the file only grows, so its first event and the fingerprint stay
      have hgrown : h.db <+: h.db ++ [event] := List.prefix_append _ _
      obtain ⟨tail, htail, hle⟩ := hfollows.tail
      refine ⟨hsound, by simp, ?_, ⟨tail, htail, hle.trans (lastSeq_mono hgrown)⟩, ?_⟩
      · exact hfollows.known.trans (fingerprintOf_grown hfollows.started hgrown).symm
      · have hpolling := hfollows.polling
        cases hat : h.polling with
        | sleeping => trivial
        | reading conn head =>
          rw [hat] at hpolling
          exact hpolling
        | fetched conn head events =>
          rw [hat] at hpolling
          exact ⟨hpolling.1, hpolling.2.1, hpolling.2.2.1,
            hpolling.2.2.2.trans (Log.after_concat Event.seq h.db head event)⟩
    | closeReader =>
      cases hs
      refine ⟨hsound, hfollows.started, hfollows.known, hfollows.tail, ?_⟩
      have hpolling := hfollows.polling
      cases hat : h.polling <;> rw [hat] at hpolling <;> exact hpolling
    | request =>
      cases hs
      exact hfollows.queries
    -- what a client asks the hub reads off the file, which is the one it follows
    | subscribe client topics sinceSeq =>
      obtain ⟨c, c', -, -, rfl⟩ := serve_cases hs
      rw [hfollows.head_eq]
      exact hfollows.clients _
    | poll =>
      obtain ⟨-, ⟨⟩⟩ := Option.ite_none_right_eq_some.mp hs
      exact hfollows.poll
    | tailRead =>
      simp only [Hub.step] at hs
      have hpolling := hfollows.polling
      split at hs
      case h_1 conn head hat =>
        rw [hat] at hpolling
        split at hs <;> cases hs
        · exact ⟨hsound, hfollows.started, hfollows.known, hfollows.tail, hpolling.1, hpolling.2.1,
            hpolling.2.2, EventStore.read_prefix _ _ _⟩
        · exact hfollows.queries.idle
      case h_2 => cases hs
    | tailResume =>
      simp only [Hub.step] at hs
      split at hs
      case h_1 conn head events hat =>
        cases hs
        exact hfollows.pollResume hat
      case h_2 => cases hs
    | _ => exact absurd trivial hserves

theorem run {actions : List Action} (hfollows : h.Follows)
    (hrun : Hub.run config h actions = some h') (hstays : ∀ action ∈ actions, action.Stays) :
    h'.Follows := by
  induction actions generalizing h with
  | nil =>
    cases hrun
    exact hfollows
  | cons action rest ih =>
    obtain ⟨next, hnext, hrest⟩ := Option.bind_eq_some_iff.mp hrun
    have hstep := hfollows.step hnext (hstays action List.mem_cons_self)
    exact ih hstep hrest fun a ha => hstays a (List.mem_cons_of_mem _ ha)

end Follows

/-- The poll that notices leaves the tailer on the new file. -/
theorem Sound.notices (hsound : h.Sound) (hsleeping : h.polling = .sleeping)
    (hstarted : h.db ≠ []) (opened : ℕ) : (h.notices opened).Follows := by
  refine ⟨⟨hsound.ordered, ?_, fun _ => Option.some_ne_none _⟩, hstarted, rfl, ⟨_, rfl, le_rfl⟩, ?_⟩
  · intro conn hconn
    cases hconn
    exact hsound.connection
  · show Polling.Follows _ h.polling
    rw [hsleeping]
    trivial

/-! ## The clients -/

theorem fanOut_eq (file : ℕ) (events : List Event) (clients : List Client) :
    fanOut file events clients = clients.map (Client.batch file events) := by
  induction events generalizing clients with
  | nil =>
    show clients = clients.map id
    rw [List.map_id]
  | cons e rest ih =>
    have hrest := ih (pushAll e.topic (.event file e) clients)
    rw [pushAll, List.map_map] at hrest
    exact hrest

theorem fanOut_aware {file from' : ℕ} {events : List Event} {clients : List Client}
    (haware : ∀ c ∈ clients, c.Aware file) : ∀ c ∈ fanOut from' events clients, c.Aware file := by
  induction events generalizing clients with
  | nil => exact haware
  | cons e rest ih =>
    refine ih fun c hc => ?_
    obtain ⟨c₀, hc₀, rfl⟩ := List.mem_map.mp hc
    split
    · exact (haware c₀ hc₀).push _
    · exact haware c₀ hc₀

/-- Who is sent the resync first is sent it first after every step. -/
theorem Follows.aware (hfollows : h.Follows) (haware : ∀ c ∈ h.clients, c.Aware h.file)
    (hs : Hub.step config h action = some h') (hheeds : action.Heeds h) :
    ∀ c ∈ h'.clients, c.Aware h'.file := by
  rw [(step_grows hs hheeds.stays).1]
  have hqueries : ∀ c ∈ h.queries.clients, c.Aware h.file := by
    obtain ⟨opened, heq⟩ := h.queries_eq
    rw [heq]
    exact haware
  cases action with
  | demoRun first => cases hheeds
  | append event =>
    obtain ⟨-, ⟨⟩⟩ := Option.ite_none_right_eq_some.mp hs
    exact haware
  | closeReader =>
    cases hs
    exact haware
  | request =>
    cases hs
    exact hqueries
  | announce kind data =>
    cases hs
    intro c hc
    obtain ⟨c₀, hc₀, rfl⟩ := List.mem_map.mp hc
    split
    · exact (haware c₀ hc₀).push _
    · exact haware c₀ hc₀
  | subscribe client topics sinceSeq =>
    simp only [Hub.step, hfollows.head_eq] at hs
    refine serve_all hs haware fun c c' hat hc hc' => ?_
    cases hc'
    -- the one subscribing was told of the file that is served now
    exact .inr ((hc.told (hheeds c hat)).mono List.prefix_rfl)
  | take client => exact serve_all hs haware fun c c' _ hc hc' => hc.take hc'
  | startReplay client => exact serve_all hs haware fun c c' _ hc hc' => hc.startReplay hc'
  | readPage client =>
    refine serve_all hs haware fun c c' hat hc hc' => ?_
    -- a page is read from the file as it is now, and the client was told of it
    refine .inr ((hc.told (hheeds c hat)).mono ?_)
    unfold Client.readPage at hc'
    split at hc'
    · cases hc'
      split <;> exact List.prefix_rfl
    · cases hc'
  | pageFailed client => exact serve_all hs haware fun c c' _ hc hc' => hc.pageFailed hc'
  | sendNext client => exact serve_all hs haware fun c c' _ hc hc' => hc.sendNext hc'
  | poll =>
    obtain ⟨-, ⟨⟩⟩ := Option.ite_none_right_eq_some.mp hs
    obtain ⟨opened, heq⟩ := hfollows.poll_eq
    rw [heq]
    exact haware
  | tailRead =>
    simp only [Hub.step] at hs
    split at hs
    · split at hs <;> cases hs
      · exact haware
      · exact hqueries
    · cases hs
  | tailResume =>
    simp only [Hub.step] at hs
    split at hs
    · cases hs
      unfold Hub.pollResume
      split
      · exact haware
      · exact fanOut_aware haware
    · cases hs

theorem Follows.run_aware {actions : List Action} (hfollows : h.Follows)
    (haware : ∀ c ∈ h.clients, c.Aware h.file) (hrun : Hub.run config h actions = some h')
    (hheeds : Heeded config h actions) : ∀ c ∈ h'.clients, c.Aware h'.file := by
  induction actions generalizing h with
  | nil =>
    cases hrun
    exact haware
  | cons action rest ih =>
    obtain ⟨next, hnext, hrest⟩ := Option.bind_eq_some_iff.mp hrun
    exact ih (hfollows.step hnext hheeds.1.stays) (hfollows.aware haware hnext hheeds.1) hrest
      (hheeds.2 next hnext)

theorem Heeded.stays {actions : List Action} (hheeds : Heeded config h actions)
    (hrun : run config h actions = some h') : ∀ action ∈ actions, action.Stays := by
  induction actions generalizing h with
  | nil => simp
  | cons action rest ih =>
    obtain ⟨next, hnext, hrest⟩ := Option.bind_eq_some_iff.mp hrun
    intro a ha
    rcases List.mem_cons.mp ha with rfl | ha
    · exact hheeds.1.stays
    · exact ih (hheeds.2 next hnext) hrest a ha

/-! ## What is pushed -/

/-- The tail moves when a batch is pushed. -/
theorem Follows.tailSeq_eq (hfollows : h.Follows) (hs : Hub.step config h action = some h')
    (hstays : action.Stays) (hresume : action ≠ .tailResume) : h'.tailSeq = h.tailSeq := by
  have hqueries : h.queries.tailSeq = h.tailSeq := by
    obtain ⟨opened, heq⟩ := h.queries_eq
    rw [heq]
  by_cases hserves : action.Serves
  · obtain ⟨clients, rfl⟩ := step_serves hs hserves
    rfl
  · cases action with
    | demoRun first => cases hstays
    | append event =>
      obtain ⟨-, ⟨⟩⟩ := Option.ite_none_right_eq_some.mp hs
      rfl
    | closeReader =>
      cases hs
      rfl
    | request =>
      cases hs
      exact hqueries
    | subscribe client topics sinceSeq =>
      obtain ⟨c, c', -, -, rfl⟩ := serve_cases hs
      rw [hfollows.head_eq]
    | poll =>
      obtain ⟨-, ⟨⟩⟩ := Option.ite_none_right_eq_some.mp hs
      obtain ⟨opened, heq⟩ := hfollows.poll_eq
      obtain ⟨tail, htail, -⟩ := hfollows.tail
      simp [heq, polls, headSeq, htail]
    | tailRead =>
      simp only [Hub.step] at hs
      split at hs
      · split at hs <;> cases hs
        · rfl
        · exact hqueries
      · cases hs
    | tailResume => exact absurd rfl hresume
    | _ => exact absurd trivial hserves

theorem fanOut_gives {file : ℕ} {events : List Event} {clients : List Client} {client : ℕ}
    {c : Client} (he : e ∈ events) (hc : clients[client]? = some c) (htopic : e.topic ∈ c.topics)
    (hopen : c.paused = false) : ∃ c', (fanOut file events clients)[client]? = some c' ∧
      (.event file e ∈ c'.queue ∨ c'.Overflowed) := by
  refine ⟨c.batch file events, ?_, Client.batch_gives he htopic hopen⟩
  rw [fanOut_eq, List.getElem?_map, hc, Option.map_some]

/-- The step that takes the tail past an event gives the event. -/
theorem Follows.gives (hfollows : h.Follows) (hs : Hub.step config h action = some h')
    (hstays : action.Stays) (he : e ∈ h'.db) {tail tail' : ℕ} (htail : h.tailSeq = some tail)
    (hafter : tail < e.seq) (htail' : h'.tailSeq = some tail') (hpast : e.seq ≤ tail') :
    action = .tailResume ∧ Gives e h h' := by
  have hresume : action = .tailResume := by
    by_contra hne
    rw [hfollows.tailSeq_eq hs hstays hne, htail] at htail'
    cases htail'
    omega
  refine ⟨hresume, ?_⟩
  subst hresume
  simp only [Hub.step] at hs
  split at hs
  case h_2 => cases hs
  case h_1 conn head events hat =>
    cases hs
    have hpolling := hfollows.polling
    rw [hat] at hpolling
    obtain ⟨-, hfile, hhead, hgrown⟩ := hpolling
    rw [hhead] at htail
    cases htail
    rw [(pollResume_grows _ _ _).2] at he
    by_cases hne : events = []
    · rw [Hub.pollResume, if_pos (.inl hne), hhead] at htail'
      cases htail'
      omega
    · obtain ⟨heq, -, -⟩ := hfollows.resumes hat hne
      rw [heq] at htail' ⊢
      cases htail'
      have hread := (hfollows.sound.ordered.read hgrown hne).2
      have hmem : e ∈ events := by
        rw [← hread]
        simp [Log.after, Log.upTo, he, hafter, hpast]
      intro client c hc htopic hopen
      rw [hfile]
      exact fanOut_gives hmem hc htopic hopen

theorem run_grows {actions : List Action} (hrun : run config h actions = some h')
    (hstays : ∀ action ∈ actions, action.Stays) : h.db <+: h'.db := by
  induction actions generalizing h with
  | nil =>
    cases hrun
    exact List.prefix_rfl
  | cons action rest ih =>
    obtain ⟨next, hnext, hrest⟩ := Option.bind_eq_some_iff.mp hrun
    have hfirst := (step_grows hnext (hstays action List.mem_cons_self)).2
    exact hfirst.trans (ih hrest fun a ha => hstays a (List.mem_cons_of_mem _ ha))

/-- A run that takes the tail past an event pushes it. -/
theorem Follows.pushes {actions : List Action} (hfollows : h.Follows)
    (hrun : Hub.run config h actions = some h') (hstays : ∀ action ∈ actions, action.Stays)
    (he : e ∈ h'.db) {tail tail' : ℕ} (htail : h.tailSeq = some tail) (hafter : tail < e.seq)
    (htail' : h'.tailSeq = some tail') (hpast : e.seq ≤ tail') : Pushes config e h actions := by
  induction actions generalizing h tail with
  | nil =>
    cases hrun
    rw [htail] at htail'
    cases htail'
    omega
  | cons action rest ih =>
    obtain ⟨next, hnext, hrest⟩ := Option.bind_eq_some_iff.mp hrun
    have hfirst := hstays action List.mem_cons_self
    have hlater : ∀ a ∈ rest, a.Stays := fun a ha => hstays a (List.mem_cons_of_mem _ ha)
    have hstep := hfollows.step hnext hfirst
    obtain ⟨mid, hmid, hmidLe⟩ := hstep.tail
    refine ⟨next, hnext, ?_⟩
    by_cases hnow : e.seq ≤ mid
    · -- the event is stored by then: what is stored later is beyond the tail
      have hend := hstep.run hrest hlater
      have hmem := mem_of_le_lastSeq hend.sound.ordered (run_grows hrest hlater) hstep.started he
        (hnow.trans hmidLe)
      exact .inl (hfollows.gives hnext hfirst hmem htail hafter hmid hnow)
    · exact .inr (ih hstep hrest hlater hmid (by omega))

/-! ## To the end -/

/-- The poll under way comes to its end. -/
theorem finishes (config : HubConfig) (h : Hub) :
    ∃ own h', (∀ action ∈ own, action.Tails) ∧ run config h own = some h' ∧
      h'.polling = .sleeping ∧ h'.db = h.db := by
  have hresume (mid : Hub) {conn : Connection} {head : ℕ} {events : List Event}
      (hat : mid.polling = .fetched conn head events) (hdb : mid.db = h.db) :
      run config mid [.tailResume] = some (mid.pollResume conn head events) ∧
        (mid.pollResume conn head events).polling = .sleeping ∧
        (mid.pollResume conn head events).db = h.db := by
    refine ⟨?_, ?_, by rw [(pollResume_grows _ _ _).2, hdb]⟩
    · rw [run, step, hat]
      rfl
    · unfold Hub.pollResume
      split <;> rfl
  cases hat : h.polling with
  | sleeping => exact ⟨[], h, by simp, rfl, hat, rfl⟩
  | fetched conn head events =>
    obtain ⟨hrun, hsleeps, hdb⟩ := hresume h hat rfl
    exact ⟨[.tailResume], _, by simp [Action.Tails], hrun, hsleeps, hdb⟩
  | reading conn head =>
    by_cases hreader : h.reader = some conn
    · obtain ⟨hrun, hsleeps, hdb⟩ := hresume { h with
        polling := .fetched conn head (EventStore.read head config.batch h.db) } rfl rfl
      refine ⟨[.tailRead, .tailResume], _, by simp [Action.Tails], ?_, hsleeps, hdb⟩
      rw [run, step, hat]
      simp only [if_pos hreader]
      exact hrun
    · obtain ⟨opened, heq⟩ := h.queries_eq
      refine ⟨[.tailRead], { h.queries with polling := .sleeping }, by simp [Action.Tails], ?_, rfl,
        by rw [heq]⟩
      rw [run, step, hat]
      simp only [if_neg hreader]
      rfl

/-- A poll reads on from where the tailer stands. -/
theorem Follows.advances (config : HubConfig) (hfollows : h.Follows)
    (hsleeping : h.polling = .sleeping) {tail : ℕ} (htail : h.tailSeq = some tail)
    (he : e ∈ h.db) (hafter : tail < e.seq) :
    ∃ h' tail', Hub.run config h [.poll, .tailRead, .tailResume] = some h' ∧
      h'.polling = .sleeping ∧ h'.db = h.db ∧ h'.tailSeq = some tail' ∧ tail < tail' := by
  obtain ⟨opened, heq⟩ := hfollows.poll_eq
  have hpolled := hfollows.poll
  have hhead : h.headSeq = tail := by simp [headSeq, htail]
  let events := EventStore.read tail config.batch h.db
  have hne : events ≠ [] := by
    have hmem : e ∈ Log.after Event.seq tail h.db := by simp [Log.after, he, hafter]
    intro hnone
    rcases List.take_eq_nil_iff.mp hnone with hzero | hempty
    · exact absurd hzero (Nat.ne_of_gt config.batch_pos)
    · rw [hempty] at hmem
      cases hmem
  let read : Hub := { h.poll with polling := .fetched h.connection tail events }
  have hread : Hub.step config h.poll .tailRead = some read := by
    simp only [Hub.step, heq, polls, hhead, if_true, read]
    rfl
  have hfetched := hpolled.step hread trivial
  obtain ⟨hresumes, hlt, -⟩ := hfetched.resumes rfl hne
  refine ⟨read.pollResume h.connection tail events, _, ?_, ?_, ?_, ?_, hlt⟩
  · rw [Hub.run, Hub.step, if_pos hsleeping, Option.bind_some, Hub.run, hread]
    rfl
  · rw [hresumes]
  · rw [hresumes]
    simp [read, heq, polls]
  · rw [hresumes]

/-- Left alone, the tailer reads to the end of the store. -/
theorem Follows.drains (config : HubConfig) (hfollows : h.Follows) (he : e ∈ h.db) :
    ∃ own h' tail', (∀ action ∈ own, action.Tails) ∧ Hub.run config h own = some h' ∧ h'.db = h.db ∧
      h'.tailSeq = some tail' ∧ e.seq ≤ tail' := by
  obtain ⟨own, mid, hown, hrun, hsleeping, hdb⟩ := finishes config h
  have hmid := hfollows.run hrun fun a ha => ((hown a ha).heeds (h := h)).stays
  -- by induction on how far the tail is from the event
  have hloop : ∀ (gap : ℕ) (u : Hub), u.Follows → u.polling = .sleeping → u.db = h.db →
      (∃ tail, u.tailSeq = some tail ∧ e.seq - tail = gap) →
      ∃ own h' tail', (∀ action ∈ own, action.Tails) ∧ Hub.run config u own = some h' ∧
        h'.db = h.db ∧ h'.tailSeq = some tail' ∧ e.seq ≤ tail' := by
    intro gap
    induction gap using Nat.strong_induction_on with
    | _ gap ih =>
      intro u hu hsleeps hsame hgap
      obtain ⟨tail, htail, hgap⟩ := hgap
      by_cases hdone : e.seq ≤ tail
      · exact ⟨[], u, tail, by simp, rfl, hsame, htail, hdone⟩
      · obtain ⟨next, tail', hnext, hsleeps', hsame', htail', hlt⟩ :=
          hu.advances config hsleeps htail (hsame ▸ he) (by omega)
        have hstays : ∀ a ∈ [Action.poll, .tailRead, .tailResume], a.Tails := by
          simp [Action.Tails]
        have hfollows' := hu.run hnext fun a ha => ((hstays a ha).heeds (h := u)).stays
        obtain ⟨more, last, tail'', hmore, hrun', hlast⟩ := ih (e.seq - tail') (by omega) next
          hfollows' hsleeps' (hsame'.trans hsame) ⟨tail', htail', rfl⟩
        refine ⟨[.poll, .tailRead, .tailResume] ++ more, last, tail'', ?_, ?_, hlast⟩
        · intro a ha
          rcases List.mem_append.mp ha with ha | ha
          · exact hstays a ha
          · exact hmore a ha
        · rw [run_append, hnext]
          exact hrun'
  obtain ⟨tail, htail, -⟩ := hmid.tail
  obtain ⟨more, last, tail', hmore, hrun', hlast⟩ := hloop _ mid hmid hsleeping hdb ⟨tail, htail, rfl⟩
  refine ⟨own ++ more, last, tail', ?_, ?_, hlast⟩
  · intro a ha
    rcases List.mem_append.mp ha with ha | ha
    · exact hown a ha
    · exact hmore a ha
  · rw [run_append, hrun]
    exact hrun'

/-- A replacement whose first event differs from the one the hub knows is noticed
at the next poll, when no replay reads the new file before. Every client is sent
the resync before anything else of the file, and each later event is pushed. -/
theorem notices_replacement (config : HubConfig) {first : Event} {known : Instant × String}
    {before after : List Action} (hreach : Reachable config h)
    (hknown : h.fingerprint = some known) (hnew : known ≠ (first.tsUtc, first.type))
    (hquiet : ∀ action ∈ before, action.Quiet)
    (hnoticed : run config h (.demoRun first :: (before ++ [.poll])) = some n)
    (hrun : run config n after = some r) (hheeds : Heeded config n after) :
    (∃ tail, r.tailSeq = some tail ∧ tail ≤ EventStore.lastSeq r.db) ∧
      (∀ c ∈ r.clients, c.Resynced r.file) ∧
      ∀ e ∈ r.db, EventStore.lastSeq n.db < e.seq →
        ∃ own, (∀ action ∈ own, action.Tails) ∧ Pushes config e n (after ++ own) := by
  obtain ⟨hsound, htells⟩ := hreach.sound
  obtain ⟨replaced, hreplaced, hrest⟩ := Option.bind_eq_some_iff.mp hnoticed
  rw [run_append] at hrest
  obtain ⟨last, hlast, hpoll⟩ := Option.bind_eq_some_iff.mp hrest
  -- until the poll nothing of the new file has reached a client
  have hunnoticed := (Unnoticed.demoRun hsound htells hknown hreplaced).run hlast hquiet
  obtain ⟨n', hn', hdone⟩ := Option.bind_eq_some_iff.mp hpoll
  cases hdone
  obtain ⟨hsleeping, ⟨⟩⟩ := Option.ite_none_right_eq_some.mp hn'
  obtain ⟨opened, heq⟩ := hunnoticed.poll hnew
  rw [heq] at hrun hheeds ⊢
  have hstarted : last.db ≠ [] := by
    intro hempty
    have hfirst := hunnoticed.first
    rw [hempty] at hfirst
    cases hfirst
  have hfollows := hunnoticed.sound.notices hsleeping hstarted opened
  have haware : ∀ c ∈ (last.notices opened).clients, c.Aware last.file := by
    intro c hc
    obtain ⟨c₀, hc₀, rfl⟩ := List.mem_map.mp hc
    exact .inl (hunnoticed.older.clients c₀ hc₀).untold
  have hstays := hheeds.stays hrun
  have hend := hfollows.run hrun hstays
  refine ⟨hend.tail, ?_, ?_⟩
  · intro c hc
    exact (hfollows.run_aware haware hrun hheeds c hc).resynced
  · intro e he hlater
    -- the tailer goes on by itself until it has passed the event
    obtain ⟨own, done, tail, hown, hownRun, hdb, htail, hpast⟩ := hend.drains config he
    have hall : run config (last.notices opened) (after ++ own) = some done := by
      rw [run_append, hrun]
      exact hownRun
    refine ⟨own, hown, hfollows.pushes hall ?_ (hdb ▸ he) rfl hlater htail hpast⟩
    intro a ha
    rcases List.mem_append.mp ha with ha | ha
    · exact hstays a ha
    · exact ((hown a ha).heeds (h := r)).stays

end Hub

namespace Sample

theorem page_pos : 0 < 500 := by decide

def webHub : HubConfig := ⟨500, page_pos⟩

/-- 09:00 IST on the demo's day. -/
def demoOpens : Instant := 1791171000000000

def demoStarted : Event := ⟨1, "ControlCommand", demoOpens, none, none, "{}"⟩

def demoStored : List Event :=
  [demoStarted, ⟨2, "SessionStateChanged", demoOpens, none, none, "{}"⟩,
    ⟨3, "OrderSubmitted", demoOpens + 900000000, none, some "A", "{}"⟩]

def ordersStored : Event := ⟨2, "OrderSubmitted", demoOpens + 60000000, none, some "A", "{}"⟩

def polled : List Hub.Action := [.poll, .tailRead, .tailResume]

/-- A client of the orders that has come to the end of a run. -/
def watching : List Hub.Action := polled ++ [.subscribe 0 {.orders} 3]

/-- The next run stores an order, and the tailer polls before and after it. -/
def runsAgain (first : Event) : List Hub.Action :=
  .demoRun first :: polled ++ .append ordersStored :: polled

def otherStarted : Event := ⟨1, "ProcessStarted", demoOpens, none, none, "{}"⟩

end Sample

namespace Hub

/-- A demo run starts with the same event at the same instant as the one before
it. The tail is beyond the new store, no client is sent a resync, and an order
that is stored after the poll is not pushed. -/
theorem demo_hidden :
    ∃ h n, run Sample.webHub (init Sample.demoStored [2000]) Sample.watching = some h ∧
      run Sample.webHub h (Sample.runsAgain Sample.demoStarted) = some n ∧
      n.file = h.file + 1 ∧ n.tailSeq = some 3 ∧ EventStore.lastSeq n.db = 2 ∧
      n.clients.map (fun c => (c.paused, c.queue, c.sent)) = [(false, [], [])] := by
  refine ⟨_, _, rfl, rfl, ?_⟩
  decide

/-- One that starts with another event is noticed, and the client is told. -/
theorem other_noticed :
    ∃ h n r, run Sample.webHub (init Sample.demoStored [2000]) Sample.watching = some h ∧
      run Sample.webHub h [.demoRun Sample.otherStarted, .poll] = some n ∧
      run Sample.webHub n [.take 0, .subscribe 0 {.orders} 1, .append Sample.ordersStored] =
        some r ∧
      (∀ c ∈ r.clients, c.Resynced 1) ∧
      ∃ own, Pushes Sample.webHub Sample.ordersStored n
        ([.take 0, .subscribe 0 {.orders} 1, .append Sample.ordersStored] ++ own) := by
  have hordered : Log.InOrder Event.seq Sample.demoStored := by
    unfold Log.InOrder
    decide
  refine ⟨_, _, _, rfl, rfl, rfl, ?_⟩
  have hheeds {n : Hub} (hn : run Sample.webHub (init Sample.demoStored [2000])
      (Sample.watching ++ [.demoRun Sample.otherStarted, .poll]) = some n) :
      Heeded Sample.webHub n
        [.take 0, .subscribe 0 {.orders} 1, .append Sample.ordersStored] := by
    cases hn
    refine ⟨trivial, fun told htold => ⟨?_, fun _ _ => ⟨trivial, fun _ _ => trivial⟩⟩⟩
    cases htold
    intro c hc
    cases hc
    decide
  have hnew : (Sample.demoOpens, "ControlCommand") ≠
      (Sample.otherStarted.tsUtc, Sample.otherStarted.type) := by decide
  have hquiet : ∀ action ∈ ([] : List Action), action.Quiet := by simp
  have hall := notices_replacement Sample.webHub
    ⟨Sample.demoStored, [2000], Sample.watching, hordered, rfl⟩ rfl hnew hquiet rfl rfl
    (hheeds rfl)
  refine ⟨hall.2.1, ?_⟩
  obtain ⟨own, -, hpushes⟩ := hall.2.2 Sample.ordersStored (by decide) (by decide)
  exact ⟨own, hpushes⟩

end Hub

end RakshaQuant
