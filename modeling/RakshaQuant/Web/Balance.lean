import RakshaQuant.Web.Stream

/-! What the stream keeps. Of some wanted events, those that were sent, those a
replay still has to send and those in the queue are together the ones stored up
to where the tailer stands, in order. The balance is kept by every step of the
send loop, whatever the other tasks do at its awaits. -/

namespace RakshaQuant

variable (p : Event → Bool)

/-- The wanted events among messages. -/
def eventsOf (messages : List Message) : List Event := (messages.filterMap Message.event?).filter p

theorem eventsOf_append (l r : List Message) : eventsOf p (l ++ r) = eventsOf p l ++ eventsOf p r := by
  simp [eventsOf]

@[simp] theorem eventsOf_nil : eventsOf p [] = [] := rfl

@[simp] theorem eventsOf_notice (n : Notice) : eventsOf p [.notice n] = [] := rfl

@[simp] theorem eventsOf_envelope (e : Event) : eventsOf p [.envelope e] = [e].filter p := rfl

theorem eventsOf_cons (m : Message) (l : List Message) :
    eventsOf p (m :: l) = eventsOf p [m] ++ eventsOf p l :=
  eventsOf_append p [m] l

namespace Stream

/-- The wanted events that are stored up to a number. -/
def upTo (n : ℕ) (s : Stream) : List Event := (Log.upTo Event.seq n s.store).filter p

/-- The wanted events of a window of the store. -/
def window (m n : ℕ) (s : Stream) : List Event :=
  (Log.after Event.seq m (Log.upTo Event.seq n s.store)).filter p

/-- A number the tailer came to: that of a stored event, or 0. -/
def Stands (s : Stream) (n : ℕ) : Prop := n = 0 ∨ ∃ e ∈ s.store, e.seq = n

/-- A replay goes no further than the tailer. -/
def Covered (s : Stream) (n : ℕ) : Prop := (∃ tail, s.tailSeq = some tail ∧ n ≤ tail) ∧ s.Stands n

/-- What the tailer holds is what follows its position. -/
def Tails (s : Stream) : Prop :=
  match s.tailer with
  | .sleeping => True
  | .reading head => s.tailSeq = some head
  | .fetched head events => s.tailSeq = some head ∧ events <+: Log.after Event.seq head s.store

/-- What a replay that is asked for will send. -/
def pending (s : Stream) : List Event :=
  match s.sub.replay with
  | none => []
  | some (cursor, replayTo) => s.window p cursor replayTo

/-- What the replay that runs, or else the one that is asked for, will send. -/
def due (s : Stream) : List Event :=
  match s.sender with
  | .reading cursor replayTo _ => s.window p cursor replayTo
  | .fetched cursor replayTo _ _ => s.window p cursor replayTo
  | .replaying event replayTo _ _ => s.window p event.seq replayTo
  | _ => s.pending p

/-- All but where the send loop stands, with what is due. -/
structure Core (base : ℕ) (due : List Event) (s : Stream) : Prop where
  ordered : Log.InOrder Event.seq s.store
  begun : s.tailSeq = none → ∀ e, p e = false
  wanted : ∀ e, p e = true → e.topic ∈ s.sub.topics
  stands : ∀ tail, s.tailSeq = some tail → s.Stands tail
  tails : s.Tails
  covered : ∀ cursor replayTo, s.sub.replay = some (cursor, replayTo) → s.Covered replayTo
  base_le : base ≤ s.sent.length
  balance : ∀ tail, s.tailSeq = some tail → s.sub.paused = false →
    eventsOf p (s.sent.drop base) ++ due ++ eventsOf p s.sub.queue = s.upTo p tail

/-- A replay that runs sends what is wanted of its window: there is nothing, or
it is the one that was asked for. -/
def Serves (cursor replayTo : ℕ) (topics : Finset Topic) (s : Stream) : Prop :=
  s.sub.paused = false → s.window p cursor replayTo = [] ∨
    s.sub.replay.isSome ∧ ∀ e, p e = true → e.topic ∈ topics

/-- What holds where the send loop stands. -/
def Placed (s : Stream) : Sender → Prop
  | .waiting => s.sub.wake = true ∨ s.sub.idle = true
  | .reading cursor replayTo topics =>
    cursor < replayTo ∧ s.Covered replayTo ∧ s.Serves p cursor replayTo topics
  | .fetched cursor replayTo topics events =>
    cursor < replayTo ∧ s.Covered replayTo ∧ s.Serves p cursor replayTo topics ∧
      events <+: Log.after Event.seq cursor s.store ∧
      (events = [] → Log.after Event.seq cursor (Log.upTo Event.seq replayTo s.store) = [])
  | .replaying event replayTo topics rest =>
    s.Covered replayTo ∧ s.Serves p event.seq replayTo topics ∧
      rest <+: Log.after Event.seq event.seq s.store
  | .queued _ => s.sub.paused = false → s.pending p = [] ∨ eventsOf p s.sub.queue = []
  | _ => True

structure Inv (base : ℕ) (s : Stream) : Prop where
  core : s.Core p base (s.due p)
  placed : s.Placed p s.sender

variable {p} {base : ℕ} {due due' : List Event} {s : Stream}

theorem window_of_le {m n : ℕ} (h : n ≤ m) : s.window p m n = [] := by
  rw [window, Log.after_upTo_of_le Event.seq s.store h]
  rfl

/-- A replay that has come to an event has the rest of its window left. -/
theorem window_next (hordered : Log.InOrder Event.seq s.store) {m n : ℕ} {e : Event}
    {rest : List Event} (he : e :: rest <+: Log.after Event.seq m s.store) (hn : e.seq ≤ n) :
    s.window p m n = [e].filter p ++ s.window p e.seq n := by
  have hm : m < e.seq := by
    have hmem : e ∈ Log.after Event.seq m s.store := he.subset List.mem_cons_self
    simpa using (List.mem_filter.mp hmem).2
  rw [window, window, ← hordered.after_append hm.le hn, (hordered.next he).1, List.filter_append]

namespace Core

theorem place (h : s.Core p base due) (place : Sender) :
    Core p base due { s with sender := place } :=
  ⟨h.ordered, h.begun, h.wanted, h.stands, h.tails, h.covered, h.base_le, h.balance⟩

/-- The subscriber changes, and what it has to send stays. -/
theorem resub (h : s.Core p base due) {sub : Subscriber} (htopics : sub.topics = s.sub.topics)
    (hreplay : ∀ cursor replayTo, sub.replay = some (cursor, replayTo) → s.Covered replayTo)
    (hsend : sub.paused = false →
      s.sub.paused = false ∧ due' ++ eventsOf p sub.queue = due ++ eventsOf p s.sub.queue) :
    Core p base due' { s with sub := sub } where
  ordered := h.ordered
  begun := h.begun
  wanted e he := htopics ▸ h.wanted e he
  stands := h.stands
  tails := h.tails
  covered := hreplay
  base_le := h.base_le
  balance tail htail hpaused := by
    obtain ⟨hbefore, heq⟩ := hsend hpaused
    have hbalance := h.balance tail htail hbefore
    rw [List.append_assoc, ← heq, ← List.append_assoc] at hbalance
    exact hbalance

/-- What is sent is no longer due. -/
theorem send {m : Message} (h : s.Core p base (eventsOf p [m] ++ due)) (place : Sender) :
    Core p base due (s.send m place) where
  ordered := h.ordered
  begun := h.begun
  wanted := h.wanted
  stands := h.stands
  tails := h.tails
  covered := h.covered
  base_le := by
    have := h.base_le
    simp only [Stream.send, List.length_append]
    omega
  balance tail htail hpaused := by
    have hbalance := h.balance tail htail hpaused
    simp only [Stream.send]
    rw [List.drop_append_of_le_length h.base_le, eventsOf_append, List.append_assoc _ _ due]
    exact hbalance

theorem notice {n : Notice} (h : s.Core p base due) (place : Sender) :
    Core p base due (s.send (.notice n) place) := by
  apply send
  rwa [eventsOf_notice, List.nil_append]

/-! ### Where the send loop comes to -/

theorem sendSlots (h : s.Core p base (s.pending p)) (rest : List Topic) :
    Inv p base (s.sendSlots rest) := by
  cases rest with
  | nil => exact ⟨h.place _, trivial⟩
  | cons topic rest =>
    rw [Stream.sendSlots]
    cases s.sub.slots.get? topic with
    | none => exact ⟨h.place _, trivial⟩
    | some message =>
      have hpopped : Core p base (s.pending p)
          { s with sub := { s.sub with slots := s.sub.slots.pop topic } } :=
        h.resub rfl h.covered fun hpaused => ⟨hpaused, rfl⟩
      exact ⟨hpopped.notice _, trivial⟩

/-- The queue is sent only when nothing that is due comes before it. -/
theorem sendQueue (h : s.Core p base (s.pending p))
    (hfirst : s.sub.paused = false → s.pending p = [] ∨ eventsOf p s.sub.queue = []) :
    Inv p base s.sendQueue := by
  unfold Stream.sendQueue
  cases hqueue : s.sub.queue with
  | nil => exact h.sendSlots _
  | cons message rest =>
    have hmoved : s.sub.paused = false →
        s.pending p ++ eventsOf p s.sub.queue =
          eventsOf p [message] ++ s.pending p ++ eventsOf p rest := by
      intro hpaused
      rw [hqueue, eventsOf_cons p message rest]
      rcases hfirst hpaused with hnil | hnil
      · simp [hnil]
      · rw [hqueue, eventsOf_cons p message rest, List.append_eq_nil_iff] at hnil
        simp [hnil.1, hnil.2]
    have hcore : Core p base (eventsOf p [message] ++ s.pending p)
        { s with sub := { s.sub with queue := rest } } :=
      h.resub rfl h.covered fun hpaused => ⟨hpaused, (hmoved hpaused).symm⟩
    refine ⟨hcore.send _, fun hpaused => ?_⟩
    rcases hfirst hpaused with hnil | hnil
    · exact .inl hnil
    · rw [hqueue, eventsOf_cons p message rest, List.append_eq_nil_iff] at hnil
      exact .inr hnil.2

/-- No replay is asked for. -/
theorem sendQueue_alone (h : s.Core p base []) (hreplay : s.sub.replay = none) :
    Inv p base s.sendQueue := by
  have hpending : s.pending p = [] := by
    unfold pending
    rw [hreplay]
  rw [← hpending] at h
  exact h.sendQueue fun _ => .inl hpending

theorem endReplay (h : s.Core p base due) (hdue : s.sub.paused = false → due = [])
    (replayTo : ℕ) : Inv p base (s.endReplay replayTo) := by
  apply sendQueue_alone
  · refine h.resub rfl (fun _ _ h => nomatch h) fun hpaused => ⟨hpaused, ?_⟩
    rw [hdue hpaused]
  · rfl

theorem sendReplay {cursor replayTo : ℕ} {topics : Finset Topic}
    (h : s.Core p base (s.window p cursor replayTo)) (hcovered : s.Covered replayTo)
    (hserves : s.Serves p cursor replayTo topics) :
    Inv p base (s.sendReplay cursor replayTo topics) := by
  unfold Stream.sendReplay
  split
  · rename_i hmore
    exact ⟨h.place _, hmore.1, hcovered, hserves⟩
  · rename_i hdone
    apply h.endReplay
    intro hpaused
    rcases hserves hpaused with hnil | hasked
    · exact hnil
    · exact window_of_le (not_lt.mp fun hlt => hdone ⟨hlt, hasked.1⟩)

theorem endBatch {cursor replayTo : ℕ} {topics : Finset Topic}
    (h : s.Core p base (s.window p cursor replayTo)) (hcovered : s.Covered replayTo)
    (hserves : s.Serves p cursor replayTo topics) :
    Inv p base (s.endBatch cursor replayTo topics) := by
  unfold Stream.endBatch
  cases hreplay : s.sub.replay with
  | none =>
    refine sendQueue_alone ?_ hreplay
    apply h.resub rfl h.covered
    intro hpaused
    refine ⟨hpaused, ?_⟩
    rcases hserves hpaused with hnil | hasked
    · rw [hnil]
    · rw [hreplay] at hasked
      cases hasked.1
  | some _ =>
    -- the window that is asked for is overwritten
    apply sendReplay
    · refine h.resub rfl (fun c r heq => ?_) fun hpaused => ⟨hpaused, rfl⟩
      cases heq
      exact hcovered
    · exact hcovered
    · intro hpaused
      rcases hserves hpaused with hnil | hasked
      · exact .inl hnil
      · exact .inr ⟨rfl, hasked.2⟩

theorem sendBatch {replayTo : ℕ} {topics : Finset Topic} {cursor : ℕ} {events : List Event}
    (h : s.Core p base (s.window p cursor replayTo)) (hcovered : s.Covered replayTo)
    (hserves : s.Serves p cursor replayTo topics)
    (hevents : events <+: Log.after Event.seq cursor s.store) :
    Inv p base (s.sendBatch replayTo topics cursor events) := by
  induction events generalizing s cursor with
  | nil => exact h.endBatch hcovered hserves
  | cons e rest ih =>
    unfold Stream.sendBatch
    split
    · exact h.endBatch hcovered hserves
    rename_i hwithin
    have hnext : s.window p cursor replayTo = [e].filter p ++ s.window p e.seq replayTo :=
      window_next h.ordered hevents (not_lt.mp hwithin)
    obtain ⟨-, hrest⟩ := h.ordered.next hevents
    have hserves' : s.Serves p e.seq replayTo topics := by
      intro hpaused
      rcases hserves hpaused with hnil | hasked
      · rw [hnext, List.append_eq_nil_iff] at hnil
        exact .inl hnil.2
      · exact .inr hasked
    rw [hnext] at h
    split
    · exact ⟨h.send _, hcovered, hserves', hrest⟩
    · rename_i htopic
      have hskipped : Core p base (s.window p e.seq replayTo)
          { s with sub := { s.sub with lastSent := e.seq } } := by
        refine h.resub rfl h.covered fun hpaused => ⟨hpaused, ?_⟩
        -- an event of another topic is not wanted
        have hskip : [e].filter p = [] := by
          rcases hserves hpaused with hnil | hasked
          · rw [hnext, List.append_eq_nil_iff] at hnil
            exact hnil.1
          · have hnot : ¬p e = true := fun hp => htopic (hasked.2 e hp)
            simp [hnot]
        rw [hskip, List.nil_append]
      exact ih hskipped hcovered hserves' hrest

theorem startReplay (h : s.Core p base (s.pending p)) : Inv p base s.startReplay := by
  unfold Stream.startReplay
  cases hreplay : s.sub.replay with
  | none =>
    have hpending : s.pending p = [] := by
      unfold pending
      rw [hreplay]
    rw [hpending] at h
    exact h.sendQueue_alone hreplay
  | some window =>
    obtain ⟨cursor, replayTo⟩ := window
    have hpending : s.pending p = s.window p cursor replayTo := by
      unfold pending
      rw [hreplay]
    rw [hpending] at h
    exact h.sendReplay (h.covered _ _ hreplay) fun _ => .inr ⟨by rw [hreplay]; rfl, h.wanted⟩

theorem woken (h : s.Core p base (s.pending p)) : Inv p base s.woken := by
  unfold Stream.woken
  cases s.sub.ack with
  | none =>
    apply startReplay
    exact h.resub rfl h.covered fun hpaused => ⟨hpaused, rfl⟩
  | some ack =>
    refine ⟨notice ?_ _, trivial⟩
    exact h.resub rfl h.covered fun hpaused => ⟨hpaused, rfl⟩

theorem turn (h : s.Core p base (s.pending p)) : Inv p base s.turn := by
  unfold Stream.turn
  split
  · rename_i hidle
    exact ⟨h.place _, .inr hidle⟩
  · exact h.woken

end Core

/-! ## The steps of the send loop -/

namespace Inv

theorem settle (h : s.Inv p base) : Inv p base s.settle := by
  unfold Stream.settle
  split
  · rename_i htop
    have hcore := h.core
    simp only [due, htop] at hcore
    exact hcore.turn
  · exact h

theorem advance (h : s.Inv p base) {s' : Stream} (hs : s.advance = some s') : Inv p base s' := by
  have hcore := h.core
  have hplaced := h.placed
  unfold Stream.advance at hs
  cases hsender : s.sender with
  | top =>
    simp only [hsender, due, Option.some.injEq] at hs hcore
    exact hs ▸ hcore.turn
  | beating =>
    simp only [hsender, due, Option.some.injEq] at hs hcore
    exact hs ▸ hcore.turn
  | waiting =>
    simp only [hsender, due] at hs hcore
    split at hs
    · cases hs
      exact hcore.woken
    · cases hs
  | acking =>
    simp only [hsender, due, Option.some.injEq] at hs hcore
    exact hs ▸ hcore.startReplay
  | reading =>
    simp only [hsender] at hs
    cases hs
  | fetched cursor replayTo topics events =>
    simp only [hsender, due, Option.some.injEq] at hs hcore hplaced
    obtain ⟨-, hcovered, hserves, hevents, hnone⟩ := hplaced
    subst hs
    split
    · rename_i hnil
      -- the page was empty: nothing of the window is left in the store
      apply hcore.endReplay
      intro _
      rw [window, hnone hnil]
      rfl
    · exact hcore.sendBatch hcovered hserves hevents
  | replaying event replayTo topics rest =>
    simp only [hsender, due, Option.some.injEq] at hs hcore hplaced
    obtain ⟨hcovered, hserves, hrest⟩ := hplaced
    subst hs
    -- the event just sent is noted before the next is looked at
    have hsent : Core p base (s.window p event.seq replayTo)
        { s with sub := { s.sub with lastSent := event.seq } } :=
      hcore.resub rfl hcore.covered fun hpaused => ⟨hpaused, rfl⟩
    exact (hsent.place _).sendBatch hcovered hserves hrest
  | queued message =>
    simp only [hsender, due, Option.some.injEq] at hs hcore hplaced
    subst hs
    have hsent : Core p base (s.pending p)
        { s with sub := { s.sub with lastSent := message.seq.getD s.sub.lastSent } } :=
      hcore.resub rfl hcore.covered fun hpaused => ⟨hpaused, rfl⟩
    exact (hsent.place _).sendQueue hplaced
  | slotted rest =>
    simp only [hsender, due, Option.some.injEq] at hs hcore
    exact hs ▸ hcore.sendSlots rest
  | dead =>
    simp only [hsender] at hs
    cases hs

theorem timeout (h : s.Inv p base) (hwaiting : s.sender = .waiting) (n : Notice) :
    Inv p base (s.send (.notice n) .beating) := by
  have hcore := h.core
  simp only [due, hwaiting] at hcore
  exact ⟨hcore.notice _, trivial⟩

theorem replayFailed (h : s.Inv p base) {cursor replayTo : ℕ} {topics : Finset Topic}
    (hreading : s.sender = .reading cursor replayTo topics) :
    Inv p base (s.sendReplay cursor replayTo topics).settle := by
  have hcore := h.core
  have hplaced := h.placed
  simp only [due, hreading] at hcore hplaced
  exact (hcore.sendReplay hplaced.2.1 hplaced.2.2).settle

/-- A page that is read is what follows, and is empty only when nothing is left. -/
theorem replayRead (h : s.Inv p base) {cursor replayTo limit : ℕ} {topics : Finset Topic}
    (hreading : s.sender = .reading cursor replayTo topics) (hlimit : 0 < limit) :
    Inv p base { s with
      sender := .fetched cursor replayTo topics (EventStore.read cursor limit s.store) } := by
  have hcore := h.core
  have hplaced := h.placed
  simp only [due, hreading] at hcore hplaced
  refine ⟨hcore.place _, hplaced.1, hplaced.2.1, hplaced.2.2, EventStore.read_prefix _ _ _, ?_⟩
  intro hnil
  have hnone : Log.after Event.seq cursor s.store = [] := by
    rcases List.take_eq_nil_iff.mp hnil with h0 | hnone
    · omega
    · exact hnone
  show Log.after Event.seq cursor (Log.upTo Event.seq replayTo s.store) = []
  rw [← Log.upTo_after, hnone]
  rfl

end Inv

end Stream

end RakshaQuant
