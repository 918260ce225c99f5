import RakshaQuant.Web.Balance

/-! The balance over whole runs. What the engine stores, what the tailer pushes
and what else is put in the queue and the slots keep it at every await of the
send loop, with one exception: an event that is pushed while the queue is being
sent, and a replay that was asked for meanwhile has not begun. -/

namespace RakshaQuant

/-! ## What is pushed -/

/-- The messages are behind the queue, or the subscriber is paused. -/
structure Subscriber.Pushed (messages : List Message) (sub sub' : Subscriber) : Prop where
  topics : sub'.topics = sub.topics
  queue : sub'.paused = false →
    sub.paused = false ∧ sub'.replay = sub.replay ∧ sub'.queue = sub.queue ++ messages
  replay : sub'.replay = sub.replay ∨ sub'.replay = none
  wake : sub'.wake = true ∨ sub' = sub

namespace Subscriber.Pushed

variable {sub sub' sub'' : Subscriber} {l r : List Message}

theorem refl (sub : Subscriber) : Pushed [] sub sub :=
  ⟨rfl, fun h => ⟨h, rfl, by simp⟩, .inl rfl, .inr rfl⟩

theorem trans (h : Pushed l sub sub') (h' : Pushed r sub' sub'') : Pushed (l ++ r) sub sub'' where
  topics := h'.topics.trans h.topics
  queue hpaused := by
    obtain ⟨hpaused', hreplay', hqueue'⟩ := h'.queue hpaused
    obtain ⟨hopen, hreplay, hqueue⟩ := h.queue hpaused'
    exact ⟨hopen, hreplay'.trans hreplay, by rw [hqueue', hqueue, List.append_assoc]⟩
  replay := by
    rcases h'.replay with h' | h'
    · rw [h']
      exact h.replay
    · exact .inr h'
  wake := by
    rcases h'.wake with h' | rfl
    · exact .inl h'
    · exact h.wake

theorem push (message : Message) (sub : Subscriber) : Pushed [message] sub (sub.push message) := by
  unfold Subscriber.push
  split
  · rename_i hpaused
    refine ⟨rfl, fun h => ?_, .inl rfl, .inr rfl⟩
    rw [hpaused] at h
    cases h
  · split
    · exact ⟨rfl, fun h => (nomatch h), .inr rfl, .inl rfl⟩
    · rename_i hpaused _
      exact ⟨rfl, fun h => ⟨h, rfl, rfl⟩, .inl rfl, .inl rfl⟩

/-- The events of the topics are pushed, one after another. -/
theorem fanOut (events : List Event) (sub : Subscriber) :
    Pushed ((events.filter fun e => e.topic ∈ sub.topics).map .envelope) sub
      (events.foldl (fun sub event =>
        if event.topic ∈ sub.topics then sub.push (.envelope event) else sub) sub) := by
  induction events generalizing sub with
  | nil => exact refl sub
  | cons e rest ih =>
    rw [List.foldl_cons]
    by_cases he : e.topic ∈ sub.topics
    · have hpushed := push (.envelope e) sub
      have hrest := ih (sub.push (.envelope e))
      rw [hpushed.topics] at hrest
      simpa [he] using hpushed.trans hrest
    · simpa [he] using ih sub

end Subscriber.Pushed

namespace Stream

variable {p : Event → Bool} {base : ℕ} {s : Stream}

/-- A tailer's batch in which nothing is wanted, or nothing that comes before it
is still to be replayed when the queue is being sent. -/
def Action.Guarded (p : Event → Bool) (s : Stream) : Action → Prop
  | .tailResume => ∀ message, s.sender = .queued message → s.pending p = [] ∨
      ∀ head events, s.tailer = .fetched head events → ∀ e ∈ events, p e = false
  | _ => True

/-! ## What the other tasks do -/

/-- What a step of another task may do: the store and the tailer's position only
grow, and messages are pushed that are what the tailer passed. -/
structure Carries (p : Event → Bool) (messages : List Message) (s s' : Stream) : Prop where
  sender : s'.sender = s.sender
  sent : s'.sent = s.sent
  sub : s.sub.Pushed messages s'.sub
  upTo : ∀ n, s.Stands n → Log.upTo Event.seq n s'.store = Log.upTo Event.seq n s.store
  after : ∀ n, Log.after Event.seq n s.store <+: Log.after Event.seq n s'.store
  covered : ∀ n, s.Covered n → s'.Covered n
  ordered : Log.InOrder Event.seq s'.store
  begun : s'.tailSeq = none → s.tailSeq = none
  stands : ∀ tail, s'.tailSeq = some tail → s'.Stands tail
  tails : s'.Tails
  first : ∀ message, s.sender = .queued message → s.pending p = [] ∨ eventsOf p messages = []
  passed : ∀ tail, s'.tailSeq = some tail → (∀ e, p e = false) ∨
    ∃ before, s.tailSeq = some before ∧ s.upTo p before ++ eventsOf p messages = s'.upTo p tail

namespace Carries

variable {messages : List Message} {s' : Stream} (h : s.Carries p messages s')

include h

theorem window_eq {n : ℕ} (hn : s.Covered n) (m : ℕ) : s'.window p m n = s.window p m n := by
  rw [window, window, h.upTo n hn.2]

theorem serves {c r : ℕ} {topics : Finset Topic} (hr : s.Covered r)
    (hs : s.Serves p c r topics) : s'.Serves p c r topics := by
  intro hpaused
  obtain ⟨hopen, hreplay, -⟩ := h.sub.queue hpaused
  rw [h.window_eq hr, hreplay]
  exact hs hopen

theorem pending_eq (hcovered : ∀ c r, s.sub.replay = some (c, r) → s.Covered r)
    (hpaused : s'.sub.paused = false) : s'.pending p = s.pending p := by
  obtain ⟨-, hreplay, -⟩ := h.sub.queue hpaused
  unfold pending
  rw [hreplay]
  cases heq : s.sub.replay with
  | none => rfl
  | some window => exact h.window_eq (hcovered _ _ heq) _

theorem due_eq (hs : s.Inv p base) (hpaused : s'.sub.paused = false) : s'.due p = s.due p := by
  have hplaced := hs.placed
  unfold due
  rw [h.sender]
  cases hsender : s.sender with
  | reading c r topics =>
    rw [hsender] at hplaced
    exact h.window_eq hplaced.2.1 c
  | fetched c r topics events =>
    rw [hsender] at hplaced
    exact h.window_eq hplaced.2.1 c
  | replaying e r topics rest =>
    rw [hsender] at hplaced
    exact h.window_eq hplaced.1 e.seq
  | _ => exact h.pending_eq hs.core.covered hpaused

theorem placed (hs : s.Inv p base) : s'.Placed p s'.sender := by
  have hplaced := hs.placed
  rw [h.sender]
  cases hsender : s.sender with
  | reading c r topics =>
    rw [hsender] at hplaced
    exact ⟨hplaced.1, h.covered r hplaced.2.1, h.serves hplaced.2.1 hplaced.2.2⟩
  | fetched c r topics events =>
    rw [hsender] at hplaced
    obtain ⟨hlt, hcovered, hserves, hevents, hnone⟩ := hplaced
    refine ⟨hlt, h.covered r hcovered, h.serves hcovered hserves, hevents.trans (h.after c), ?_⟩
    rw [h.upTo r hcovered.2]
    exact hnone
  | replaying e r topics rest =>
    rw [hsender] at hplaced
    obtain ⟨hcovered, hserves, hrest⟩ := hplaced
    exact ⟨h.covered r hcovered, h.serves hcovered hserves, hrest.trans (h.after e.seq)⟩
  | queued message =>
    rw [hsender] at hplaced
    intro hpaused
    obtain ⟨hopen, -, hqueue⟩ := h.sub.queue hpaused
    rw [h.pending_eq hs.core.covered hpaused, hqueue, eventsOf_append, List.append_eq_nil_iff]
    rcases h.first message hsender with hnil | hnil
    · exact .inl hnil
    · rcases hplaced hopen with hnone | hnone
      · exact .inl hnone
      · exact .inr ⟨hnone, hnil⟩
  | waiting =>
    rw [hsender] at hplaced
    rcases h.sub.wake with hwake | hsame
    · exact .inl hwake
    · show s'.sub.wake = true ∨ s'.sub.idle = true
      rw [hsame]
      exact hplaced
  | _ => trivial

theorem balance (hs : s.Inv p base) {tail : ℕ} (htail : s'.tailSeq = some tail)
    (hpaused : s'.sub.paused = false) :
    eventsOf p (s'.sent.drop base) ++ s'.due p ++ eventsOf p s'.sub.queue = s'.upTo p tail := by
  obtain ⟨hopen, -, hqueue⟩ := h.sub.queue hpaused
  rw [h.sent, h.due_eq hs hpaused, hqueue, eventsOf_append, ← List.append_assoc]
  rcases h.passed tail htail with hnone | ⟨before, hbefore, hpassed⟩
  · -- nothing is wanted yet
    have hfilter : ∀ l : List Event, l.filter p = [] :=
      fun l => List.filter_eq_nil_iff.mpr fun e _ => by simp [hnone e]
    have hpending : s.pending p = [] := by
      unfold pending
      cases s.sub.replay with
      | none => rfl
      | some window => exact hfilter _
    have hdue : s.due p = [] := by
      unfold due
      cases s.sender with
      | reading => exact hfilter _
      | fetched => exact hfilter _
      | replaying => exact hfilter _
      | _ => exact hpending
    simp only [eventsOf, Stream.upTo, hfilter, hdue, List.append_nil]
  · rw [hs.core.balance before hbefore hopen, hpassed]

theorem inv (hs : s.Inv p base) : s'.Inv p base where
  core :=
    { ordered := h.ordered
      begun := fun hnone => hs.core.begun (h.begun hnone)
      wanted := fun e he => h.sub.topics ▸ hs.core.wanted e he
      stands := h.stands
      tails := h.tails
      covered := by
        intro c r hr
        rcases h.sub.replay with hsame | hnone
        · exact h.covered r (hs.core.covered c r (hsame ▸ hr))
        · rw [hnone] at hr
          cases hr
      base_le := h.sent ▸ hs.core.base_le
      balance := fun _ htail hpaused => h.balance hs htail hpaused }
  placed := h.placed hs

/-! ### The steps -/

omit h in
/-- The tailer reads or gives up, or something else than an event is pushed. -/
theorem others (hs : s.Inv p base) (tailer : Tailer) {sub : Subscriber}
    (htails : Tails { s with tailer := tailer }) (hsub : s.sub.Pushed messages sub)
    (hnone : eventsOf p messages = []) :
    s.Carries p messages { s with tailer := tailer, sub := sub } where
  sender := rfl
  sent := rfl
  sub := hsub
  upTo _ _ := rfl
  after _ := List.prefix_rfl
  covered _ hn := hn
  ordered := hs.core.ordered
  begun hnone := hnone
  stands := hs.core.stands
  tails := htails
  first _ _ := .inr hnone
  passed tail htail := .inr ⟨tail, htail, by rw [hnone, List.append_nil]; rfl⟩

omit h in
theorem stored (hs : s.Inv p base) {event : Event}
    (hseq : EventStore.lastSeq s.store < event.seq) :
    s.Carries p [] { s with store := s.store ++ [event] } := by
  have hbefore : ∀ e ∈ s.store, e.seq < event.seq :=
    fun e he => (EventStore.le_lastSeq he).trans_lt hseq
  -- the new event lies above everything a cursor stands at
  have hbelow : ∀ n, s.Stands n → n < event.seq := by
    intro n hn
    rcases hn with rfl | ⟨e, he, rfl⟩
    · omega
    · exact hbefore e he
  have hstands : ∀ n, s.Stands n → Stands { s with store := s.store ++ [event] } n := by
    intro n hn
    rcases hn with h0 | ⟨e, he, hen⟩
    · exact .inl h0
    · exact .inr ⟨e, List.mem_append_left _ he, hen⟩
  have hupTo : ∀ n, s.Stands n →
      Log.upTo Event.seq n (s.store ++ [event]) = Log.upTo Event.seq n s.store :=
    fun n hn => Log.upTo_concat Event.seq s.store (hbelow n hn)
  refine
    { sender := rfl
      sent := rfl
      sub := .refl _
      upTo := hupTo
      after := fun n => Log.after_concat Event.seq s.store n event
      covered := fun n hn => ⟨hn.1, hstands n hn.2⟩
      ordered := ?_
      begun := fun hnone => hnone
      stands := fun tail htail => hstands tail (hs.core.stands tail htail)
      tails := ?_
      first := fun _ _ => .inr rfl
      passed := ?_ }
  · refine List.pairwise_append.mpr
      ⟨hs.core.ordered, List.pairwise_singleton _ _, fun e he e' he' => ?_⟩
    rw [List.mem_singleton.mp he']
    exact hbefore e he
  · have htails := hs.core.tails
    unfold Tails at htails ⊢
    cases htailer : s.tailer with
    | sleeping => trivial
    | reading head =>
      rw [htailer] at htails
      exact htails
    | fetched head events =>
      rw [htailer] at htails
      exact ⟨htails.1, htails.2.trans (Log.after_concat Event.seq s.store head event)⟩
  · intro tail htail
    refine .inr ⟨tail, htail, ?_⟩
    rw [eventsOf_nil, List.append_nil, Stream.upTo, Stream.upTo,
      hupTo tail (hs.core.stands tail htail)]

omit h in
/-- `_head` starts tailing. -/
theorem headed (hs : s.Inv p base) : s.Carries p [] { s with tailSeq := some s.head } := by
  -- once tailing has begun the head is where it has come to
  have hhead : ∀ tail, s.tailSeq = some tail → s.head = tail := by
    intro tail htail
    rw [head, htail]
    rfl
  have hstands : s.Stands s.head := by
    unfold head
    cases htail : s.tailSeq with
    | none => exact EventStore.lastSeq_mem s.store
    | some tail => exact hs.core.stands tail htail
  refine
    { sender := rfl
      sent := rfl
      sub := .refl _
      upTo := fun _ _ => rfl
      after := fun _ => List.prefix_rfl
      covered := ?_
      ordered := hs.core.ordered
      begun := fun hnone => by cases hnone
      stands := ?_
      tails := ?_
      first := fun _ _ => .inr rfl
      passed := ?_ }
  · intro n hn
    obtain ⟨⟨tail, htail, hle⟩, hn⟩ := hn
    exact ⟨⟨s.head, rfl, hhead tail htail ▸ hle⟩, hn⟩
  · intro tail htail
    cases htail
    exact hstands
  · have htails := hs.core.tails
    unfold Tails at htails ⊢
    cases htailer : s.tailer with
    | sleeping => trivial
    | reading head =>
      rw [htailer] at htails
      exact congrArg some (hhead head htails)
    | fetched head events =>
      rw [htailer] at htails
      exact ⟨congrArg some (hhead head htails.1), htails.2⟩
  · intro tail htail
    cases htail
    cases hnone : s.tailSeq with
    | none => exact .inl (hs.core.begun hnone)
    | some tail =>
      refine .inr ⟨tail, rfl, ?_⟩
      rw [eventsOf_nil, List.append_nil, hhead tail hnone]
      rfl

omit h in
/-- The tailer passes the events it read, and pushes those of the topics. -/
theorem fanned (hs : s.Inv p base) {seen : ℕ} {events : List Event}
    (htailer : s.tailer = .fetched seen events)
    (hfirst : ∀ message, s.sender = .queued message →
      s.pending p = [] ∨ ∀ e ∈ events, p e = false) :
    s.Carries p ((events.filter fun e => e.topic ∈ s.sub.topics).map .envelope)
      (s.fanOut seen events) := by
  have htails := hs.core.tails
  simp only [Tails, htailer] at htails
  obtain ⟨htail, hevents⟩ := htails
  unfold Stream.fanOut
  split
  · rename_i hnil
    rw [hnil]
    exact others hs .sleeping trivial (.refl _) rfl
  rename_i hne
  obtain ⟨hle, hread⟩ := hs.core.ordered.read hevents hne
  -- the new position is the last event's
  have hlast : Log.last Event.seq events ≠ 0 ∧ s.Stands (Log.last Event.seq events) := by
    have hmem := List.getLast_mem hne
    have hseq : Log.last Event.seq events = (events.getLast hne).seq := by
      rw [Log.last, List.getLast?_eq_some_getLast hne]
      rfl
    have hstored := List.mem_filter.mp (hevents.subset hmem)
    have hafter : seen < (events.getLast hne).seq := by simpa using hstored.2
    exact ⟨by omega, .inr ⟨_, hstored.1, hseq.symm⟩⟩
  have hpushed : eventsOf p ((events.filter fun e => e.topic ∈ s.sub.topics).map .envelope) =
      events.filter p := by
    unfold eventsOf
    rw [List.filterMap_map]
    have hself : (Message.event? ∘ Message.envelope) = some := rfl
    rw [hself, List.filterMap_some, List.filter_filter]
    apply List.filter_congr
    intro e _
    by_cases he : p e = true
    · simp [he, hs.core.wanted e he]
    · simp [he]
  dsimp only
  rw [if_neg hlast.1]
  refine
    { sender := rfl
      sent := rfl
      sub := .fanOut events s.sub
      upTo := fun _ _ => rfl
      after := fun _ => List.prefix_rfl
      covered := ?_
      ordered := hs.core.ordered
      begun := fun hnone => by cases hnone
      stands := ?_
      tails := trivial
      first := ?_
      passed := ?_ }
  · intro n hn
    obtain ⟨⟨tail, htail', hn'⟩, hstands⟩ := hn
    rw [htail] at htail'
    cases htail'
    exact ⟨⟨_, rfl, hn'.trans hle⟩, hstands⟩
  · intro tail htail'
    cases htail'
    exact hlast.2
  · intro message hsender
    rcases hfirst message hsender with hnil | hnone
    · exact .inl hnil
    · refine .inr ?_
      rw [hpushed]
      exact List.filter_eq_nil_iff.mpr fun e he => by simp [hnone e he]
  · intro tail htail'
    cases htail'
    refine .inr ⟨seen, htail, ?_⟩
    rw [hpushed, Stream.upTo, Stream.upTo, ← hs.core.ordered.upTo_after_append hle,
      List.filter_append, hread]

end Carries

/-! ## Runs -/

/-- Not a subscribe. -/
def Action.Stays : Action → Prop
  | .subscribe _ _ => False
  | _ => True

theorem Inv.putSlot (h : s.Inv p base) (topic : Topic) (n : Notice) :
    Inv p base { s with sub := s.sub.putSlot topic n } := by
  have hpushed : s.sub.Pushed [] (s.sub.putSlot topic n) := by
    unfold Subscriber.putSlot
    split
    · exact ⟨rfl, fun hpaused => ⟨hpaused, rfl, by simp⟩, .inl rfl, .inl rfl⟩
    · exact .refl _
  exact (Carries.others h s.tailer h.core.tails hpushed rfl).inv h

theorem Inv.tailing (h : s.Inv p base) (tailer : Tailer)
    (htails : Tails { s with tailer := tailer }) : Inv p base { s with tailer := tailer } :=
  (Carries.others h tailer htails (.refl _) rfl).inv h

/-- A step keeps the balance. -/
theorem Inv.step {config : HubConfig} {action : Action} {s' : Stream} (h : s.Inv p base)
    (hstep : step config s action = some s') (hstays : action.Stays)
    (hguard : action.Guarded p s) : s'.Inv p base := by
  cases action with
  | subscribe => cases hstays
  | append event =>
    simp only [Stream.step] at hstep
    split at hstep
    · rename_i hseq
      cases hstep
      exact (Carries.stored h hseq).inv h
    · cases hstep
  | announce kind data =>
    simp only [Stream.step, Option.some.injEq] at hstep
    subst hstep
    split
    · exact (Carries.others h s.tailer h.core.tails (.push _ _) rfl).inv h
    · exact h
  | publish topic data =>
    cases hstep
    exact h.putSlot topic _
  | poll =>
    simp only [Stream.step] at hstep
    split at hstep
    · cases hstep
      -- the poll notes the head before anything is read
      have hheaded := (Carries.headed h).inv h
      exact hheaded.tailing (.reading s.head) rfl
    · cases hstep
  | tailRead =>
    simp only [Stream.step] at hstep
    cases htailer : s.tailer with
    | reading head =>
      have htails := h.core.tails
      simp only [Tails, htailer] at htails hstep
      cases hstep
      exact h.tailing (.fetched head _) ⟨htails, EventStore.read_prefix _ _ _⟩
    | _ =>
      rw [htailer] at hstep
      cases hstep
  | tailFailed =>
    simp only [Stream.step] at hstep
    split at hstep
    · cases hstep
      exact h.tailing .sleeping trivial
    · cases hstep
  | tailResume =>
    simp only [Stream.step] at hstep
    cases htailer : s.tailer with
    | fetched head events =>
      simp only [htailer] at hstep
      cases hstep
      refine (Carries.fanned h htailer fun message hsender => ?_).inv h
      -- with a message in hand, nothing is pending or the tailer passes on nothing of `p`
      rcases hguard message hsender with hnil | hnone
      · exact .inl hnil
      · exact .inr (hnone head events htailer)
    | _ =>
      rw [htailer] at hstep
      cases hstep
  | timeout =>
    simp only [Stream.step] at hstep
    split at hstep
    · rename_i hwaiting
      cases hstep
      exact h.timeout hwaiting _
    · cases hstep
  | replayRead =>
    simp only [Stream.step] at hstep
    cases hsender : s.sender with
    | reading cursor replayTo topics =>
      have hplaced := h.placed
      simp only [hsender] at hstep hplaced
      cases hstep
      -- a page has room for an event, so the replay goes on
      have hlimit : 0 < min config.batch (replayTo - cursor) := by
        have := config.batch_pos
        have := hplaced.1
        omega
      exact h.replayRead hsender hlimit
    | _ =>
      rw [hsender] at hstep
      cases hstep
  | replayFailed =>
    simp only [Stream.step] at hstep
    cases hsender : s.sender with
    | reading cursor replayTo topics =>
      simp only [hsender] at hstep
      cases hstep
      exact h.replayFailed hsender
    | _ =>
      rw [hsender] at hstep
      cases hstep
  | resume =>
    simp only [Stream.step, Option.map_eq_some_iff] at hstep
    obtain ⟨next, hnext, rfl⟩ := hstep
    exact (h.advance hnext).settle

end Stream

end RakshaQuant
