import RakshaQuant.Web.Browser

/-! What one connection is sent. After its only subscribe, for every event, the messages are the
stored events after where it starts, each after the one before it, with notices that say no more
than what was sent. Their position is exact at every await of the send loop, also after an
overflow. -/

namespace RakshaQuant

/-! ## Messages in sequence -/

/-- The position after a message. -/
def Message.reach (q : ℕ) : Message → ℕ
  | .envelope e => e.seq
  | .notice _ => q

/-- A message that may come at a position: the next stored event, or a notice that is true
there. -/
def Message.Follows (store : List Event) (q : ℕ) : Message → Prop
  | .envelope e => e ∈ store ∧ q < e.seq ∧ ∀ e' ∈ store, q < e'.seq → e.seq ≤ e'.seq
  | .notice n =>
    (n.data.sinceSeq ≤ EventStore.lastSeq store ∧ n.data.replayTo ≤ EventStore.lastSeq store) ∧
      n.data.reason ≠ "new_store" ∧ (n.data.replayTo ≤ n.data.sinceSeq → n.data.replayTo ≤ q) ∧
      (n.kind = "resync" → ∀ e ∈ store, e.seq ≤ n.data.sinceSeq → e.seq ≤ q)

def reached (q : ℕ) (messages : List Message) : ℕ := messages.foldl Message.reach q

/-- The messages come one after the other from a position on. -/
def Flow (store : List Event) : ℕ → List Message → Prop
  | _, [] => True
  | q, m :: rest => m.Follows store q ∧ Flow store (m.reach q) rest

section flow

variable {store : List Event} {q q' : ℕ} {messages : List Message}

@[simp] theorem reached_concat (q : ℕ) (l : List Message) (m : Message) :
    reached q (l ++ [m]) = m.reach (reached q l) :=
  List.foldl_concat _ _ _ _

theorem flow_append {l r : List Message} :
    Flow store q (l ++ r) ↔ Flow store q l ∧ Flow store (reached q l) r := by
  induction l generalizing q with
  | nil => exact (and_iff_right trivial).symm
  | cons m rest ih =>
    show m.Follows store q ∧ Flow store (m.reach q) (rest ++ r) ↔ _
    rw [ih]
    exact and_assoc.symm

theorem flow_concat {m : Message} :
    Flow store q (messages ++ [m]) ↔
      Flow store q messages ∧ m.Follows store (reached q messages) := by
  rw [flow_append]
  exact and_congr_right fun _ => and_iff_left trivial

/-- The position does not go back. -/
theorem Message.Follows.le {m : Message} (h : m.Follows store q) : q ≤ m.reach q := by
  cases m with
  | envelope e => exact h.2.1.le
  | notice n => exact le_rfl

theorem Flow.le (h : Flow store q messages) : q ≤ reached q messages := by
  induction messages generalizing q with
  | nil => exact le_rfl
  | cons m rest ih => exact h.1.le.trans (ih h.2)

theorem Message.Follows.reach_le {m : Message} (h : m.Follows store q)
    (hq : q ≤ EventStore.lastSeq store) : m.reach q ≤ EventStore.lastSeq store := by
  cases m with
  | envelope e => exact EventStore.le_lastSeq h.1
  | notice n => exact hq

theorem Flow.reached_le (h : Flow store q messages) (hq : q ≤ EventStore.lastSeq store) :
    reached q messages ≤ EventStore.lastSeq store := by
  induction messages generalizing q with
  | nil => exact hq
  | cons m rest ih => exact ih h.2 (h.1.reach_le hq)

/-- A notice that is true at a position is true later. -/
theorem Message.Follows.mono {n : Notice} (h : (Message.notice n).Follows store q) (hq : q ≤ q') :
    (Message.notice n).Follows store q' :=
  ⟨h.1, h.2.1, fun hle => (h.2.2.1 hle).trans hq, fun hkind e he hle =>
    (h.2.2.2 hkind e he hle).trans hq⟩

theorem lastSeq_concat {e : Event} (he : EventStore.lastSeq store < e.seq) :
    EventStore.lastSeq store ≤ EventStore.lastSeq (store ++ [e]) :=
  he.le.trans (EventStore.le_lastSeq (List.mem_append_right _ (List.mem_singleton_self e)))

/-- A new event comes after everything. -/
theorem Message.Follows.stored {m : Message} (h : m.Follows store q) {e : Event}
    (he : EventStore.lastSeq store < e.seq) : m.Follows (store ++ [e]) q := by
  cases m with
  | envelope e' =>
    refine ⟨List.mem_append_left _ h.1, h.2.1, fun e'' he'' hlt => ?_⟩
    rcases List.mem_append.mp he'' with hold | hnew
    · exact h.2.2 e'' hold hlt
    · rw [List.mem_singleton.mp hnew]
      exact (EventStore.le_lastSeq h.1).trans he.le
  | notice n =>
    refine ⟨⟨h.1.1.trans (lastSeq_concat he), h.1.2.trans (lastSeq_concat he)⟩, h.2.1, h.2.2.1, ?_⟩
    intro hkind e' he' hle
    rcases List.mem_append.mp he' with hold | hnew
    · exact h.2.2.2 hkind e' hold hle
    · rw [List.mem_singleton.mp hnew] at hle
      exact absurd (he.trans_le hle) (not_lt.mpr h.1.1)

theorem Flow.stored (h : Flow store q messages) {e : Event}
    (he : EventStore.lastSeq store < e.seq) : Flow (store ++ [e]) q messages := by
  induction messages generalizing q with
  | nil => trivial
  | cons m rest ih => exact ⟨h.1.stored he, ih h.2⟩

/-- What is read next may come next. -/
theorem follows_next (hordered : Log.InOrder Event.seq store) {e : Event} {rest : List Event}
    (hevents : e :: rest <+: Log.after Event.seq q store) : (Message.envelope e).Follows store q := by
  have hmem : e ∈ Log.after Event.seq q store := hevents.subset List.mem_cons_self
  obtain ⟨hstored, hlt⟩ := List.mem_filter.mp hmem
  refine ⟨hstored, by simpa using hlt, fun e' he' hlt' => ?_⟩
  by_contra hless
  -- between the two there is only the event itself
  have hbetween : e' ∈ Log.after Event.seq q (Log.upTo Event.seq e.seq store) :=
    List.mem_filter.mpr ⟨List.mem_filter.mpr ⟨he', by simpa using (not_le.mp hless).le⟩,
      by simpa using hlt'⟩
  rw [(hordered.next hevents).1, List.mem_singleton] at hbetween
  exact hless (le_of_eq (congrArg Event.seq hbetween.symm))

/-- A notice without numbers. -/
def Notice.Plain (n : Notice) : Prop :=
  n.data.sinceSeq = 0 ∧ n.data.replayTo = 0 ∧ n.data.reason = ""

theorem Notice.Plain.follows {n : Notice} (h : n.Plain) (store : List Event) (q : ℕ) :
    (Message.notice n).Follows store q := by
  obtain ⟨hsince, hreplay, hreason⟩ := h
  refine ⟨by rw [hsince, hreplay]; exact ⟨Nat.zero_le _, Nat.zero_le _⟩, by rw [hreason]; decide,
    fun _ => by rw [hreplay]; exact Nat.zero_le _, fun _ e _ hle => ?_⟩
  rw [hsince] at hle
  exact hle.trans (Nat.zero_le _)

/-- Notices alone. -/
def Notices (messages : List Message) : Prop := ∀ m ∈ messages, m.event? = none

theorem Notices.reached (h : Notices messages) (q : ℕ) : reached q messages = q := by
  induction messages generalizing q with
  | nil => rfl
  | cons m rest ih =>
    cases m with
    | envelope e =>
      have hnone := h _ List.mem_cons_self
      cases hnone
    | notice n => exact ih (fun m hm => h m (List.mem_cons_of_mem _ hm)) q

theorem Flow.mono (h : Flow store q messages) (hnotices : Notices messages) (hq : q ≤ q') :
    Flow store q' messages := by
  induction messages generalizing q q' with
  | nil => trivial
  | cons m rest ih =>
    cases m with
    | envelope e =>
      have hnone := hnotices _ List.mem_cons_self
      cases hnone
    | notice n =>
      exact ⟨h.1.mono hq, ih h.2 (fun m hm => hnotices m (List.mem_cons_of_mem _ hm)) hq⟩

end flow

/-! ## What a connection has -/

namespace Stream

/-- All but where the send loop stands: the messages that were sent from `b` on, and those in the
queue, which go on from `top` to where the tailer stands. After an overflow the queue has no
event. -/
structure Feed (b top : ℕ) (s : Stream) : Prop where
  base : b ≤ EventStore.lastSeq s.store
  sent : Flow s.store b s.sent
  topics : eventTopics ⊆ s.sub.topics
  ack : ∀ n, s.sub.ack = some n → (Message.notice n).Follows s.store b
  slots : ∀ topic n, s.sub.slots.get? topic = some n → n.Plain
  lastSent : s.sub.paused = false → s.sub.lastSent ≤ reached b s.sent
  unpaused : s.sub.paused = false →
    Flow s.store top s.sub.queue ∧ s.tailSeq = some (reached top s.sub.queue)
  paused : s.sub.paused = true → s.sub.replay = none ∧
    Flow s.store (reached b s.sent) s.sub.queue ∧ Notices s.sub.queue

/-- A replay that is being sent has come to a position. -/
structure Replays (b cursor replayTo : ℕ) (topics : Finset Topic) (s : Stream) : Prop where
  feed : s.Feed b replayTo
  stands : cursor = reached b s.sent
  le : cursor ≤ replayTo
  serves : eventTopics ⊆ topics
  asked : s.sub.paused = false → s.sub.replay.isSome = true

/-- The queue is next. -/
structure Queues (b : ℕ) (s : Stream) : Prop where
  feed : s.Feed b (reached b s.sent)
  replay : s.sub.replay = none

/-- The replay that is asked for is next, or else the queue. -/
def Awaits (b : ℕ) (s : Stream) : Prop :=
  s.sub.replay = none ∧ s.Feed b (reached b s.sent) ∨
    ∃ cursor replayTo, s.sub.replay = some (cursor, replayTo) ∧ s.Feed b replayTo ∧
      cursor = reached b s.sent ∧ cursor ≤ replayTo

def Stationed (b : ℕ) (s : Stream) : Sender → Prop
  | .reading cursor replayTo topics => s.Replays b cursor replayTo topics
  | .fetched cursor replayTo topics _ => s.Replays b cursor replayTo topics
  | .replaying event replayTo topics _ => s.Replays b event.seq replayTo topics
  | .queued message => s.Queues b ∧ ∀ x, message.seq = some x → x ≤ reached b s.sent
  | .slotted _ | .dead => s.Queues b
  | .top | .waiting | .beating | .acking => s.Awaits b

/-- A connection that is fed from a number on. -/
def Fed (b : ℕ) (s : Stream) : Prop := s.Stationed b s.sender

variable {b top top' : ℕ} {s : Stream}

namespace Feed

/-- After an overflow it does not matter where the queue goes on from. -/
theorem retop (h : s.Feed b top) (htop : s.sub.paused = false → top = top') : s.Feed b top' :=
  { h with
    unpaused := fun hopen => by
      rw [← htop hopen]
      exact h.unpaused hopen }

theorem place (h : s.Feed b top) (place : Sender) : Feed b top { s with sender := place } :=
  ⟨h.base, h.sent, h.topics, h.ack, h.slots, h.lastSent, h.unpaused, h.paused⟩

/-- The subscriber changes, but for its topics and the queue. -/
theorem resub (h : s.Feed b top) {sub : Subscriber} (htopics : sub.topics = s.sub.topics)
    (hqueue : sub.queue = s.sub.queue) (hpaused : sub.paused = s.sub.paused)
    (hack : sub.ack = s.sub.ack ∨ sub.ack = none)
    (hslots : ∀ topic n, sub.slots.get? topic = some n → n.Plain)
    (hlast : sub.paused = false → sub.lastSent ≤ reached b s.sent)
    (hreplay : sub.paused = true → sub.replay = none) : Feed b top { s with sub } where
  base := h.base
  sent := h.sent
  topics := htopics ▸ h.topics
  ack n hn := by
    rcases hack with hsame | hnone
    · exact h.ack n (hsame ▸ hn)
    · dsimp only at hn
      rw [hnone] at hn
      cases hn
  slots := hslots
  lastSent := hlast
  unpaused hopen := by
    dsimp only
    rw [hqueue]
    exact h.unpaused (hpaused ▸ hopen)
  paused hclosed := by
    dsimp only
    rw [hqueue]
    exact ⟨hreplay hclosed, (h.paused (hpaused ▸ hclosed)).2⟩

/-- The position does not change by a notice. -/
theorem notice {n : Notice} (h : s.Feed b top) (hn : (Message.notice n).Follows s.store b)
    (place : Sender) : Feed b top (s.send (.notice n) place) := by
  have hreached : reached b (s.send (.notice n) place).sent = reached b s.sent :=
    reached_concat b s.sent (.notice n)
  refine ⟨h.base, flow_concat.mpr ⟨h.sent, hn.mono h.sent.le⟩, h.topics, h.ack, h.slots, ?_,
    h.unpaused, ?_⟩
  · rw [hreached]
    exact h.lastSent
  · rw [hreached]
    exact h.paused

/-- A message that may come next is sent, and the queue goes on from where it did. -/
theorem send {m : Message} (h : s.Feed b top) (hm : m.Follows s.store (reached b s.sent))
    (place : Sender) : Feed b top (s.send m place) := by
  have hreached : reached b (s.send m place).sent = m.reach (reached b s.sent) :=
    reached_concat b s.sent m
  refine ⟨h.base, flow_concat.mpr ⟨h.sent, hm⟩, h.topics, h.ack, h.slots, ?_, h.unpaused, ?_⟩
  · intro hopen
    rw [hreached]
    exact (h.lastSent hopen).trans hm.le
  · intro hclosed
    obtain ⟨hreplay, hflow, hnotices⟩ := h.paused hclosed
    rw [hreached]
    exact ⟨hreplay, hflow.mono hnotices hm.le, hnotices⟩

end Feed

theorem Queues.place (h : s.Queues b) (place : Sender) : Queues b { s with sender := place } :=
  ⟨h.feed.place _, h.replay⟩

theorem Replays.place {cursor replayTo : ℕ} {topics : Finset Topic}
    (h : s.Replays b cursor replayTo topics) (place : Sender) :
    Replays b cursor replayTo topics { s with sender := place } :=
  ⟨h.feed.place _, h.stands, h.le, h.serves, h.asked⟩

/-! ## Where the send loop comes to -/

theorem Queues.sendSlots (h : s.Queues b) (rest : List Topic) : (s.sendSlots rest).Fed b := by
  cases rest with
  | nil => exact .inl ⟨h.replay, h.feed.place _⟩
  | cons topic rest =>
    rw [Stream.sendSlots]
    cases hslot : s.sub.slots.get? topic with
    | none => exact ⟨h.feed.place _, h.replay⟩
    | some n =>
      have hpopped : Feed b (reached b s.sent)
          { s with sub := { s.sub with slots := s.sub.slots.pop topic } } := by
        refine h.feed.resub rfl rfl rfl (.inl rfl) ?_ h.feed.lastSent
          fun hclosed => (h.feed.paused hclosed).1
        intro topic' n' hn'
        rw [Dict.get?_pop] at hn'
        split at hn'
        · cases hn'
        · exact h.feed.slots topic' n' hn'
      have hplain := h.feed.slots topic n hslot
      refine ⟨?_, h.replay⟩
      exact (hpopped.notice (hplain.follows s.store b) (.slotted rest)).retop
        fun _ => (reached_concat b s.sent (.notice n)).symm

theorem Queues.sendQueue (h : s.Queues b) : s.sendQueue.Fed b := by
  unfold Stream.sendQueue
  cases hqueue : s.sub.queue with
  | nil => exact h.sendSlots _
  | cons m rest =>
    have hreached := reached_concat b s.sent m
    -- the head of the queue may come next, also after an overflow
    have hm : m.Follows s.store (reached b s.sent) := by
      cases hpaused : s.sub.paused with
      | false =>
        have hflow := (h.feed.unpaused hpaused).1
        rw [hqueue] at hflow
        exact hflow.1
      | true =>
        have hflow := (h.feed.paused hpaused).2.1
        rw [hqueue] at hflow
        exact hflow.1
    refine ⟨⟨⟨h.feed.base, flow_concat.mpr ⟨h.feed.sent, hm⟩, h.feed.topics, h.feed.ack,
      h.feed.slots, ?_, ?_, ?_⟩, h.replay⟩, ?_⟩
    · intro hopen
      refine (h.feed.lastSent hopen).trans ?_
      show _ ≤ reached b (s.sent ++ [m])
      rw [hreached]
      exact hm.le
    · intro hopen
      obtain ⟨hflow, htail⟩ := h.feed.unpaused hopen
      rw [hqueue] at hflow htail
      show Flow s.store (reached b (s.sent ++ [m])) rest ∧
        s.tailSeq = some (reached (reached b (s.sent ++ [m])) rest)
      rw [hreached]
      exact ⟨hflow.2, htail⟩
    · intro hclosed
      obtain ⟨hreplay, hflow, hnotices⟩ := h.feed.paused hclosed
      rw [hqueue] at hflow hnotices
      show _ ∧ Flow s.store (reached b (s.sent ++ [m])) rest ∧ Notices rest
      rw [hreached]
      exact ⟨hreplay, hflow.2, fun m' hm' => hnotices m' (List.mem_cons_of_mem _ hm')⟩
    · intro x hx
      show x ≤ reached b (s.sent ++ [m])
      rw [hreached]
      cases m with
      | envelope e =>
        cases hx
        exact le_rfl
      | notice n => cases hx

/-- A replay ends, where it has come to its end or after an overflow. -/
theorem Feed.endReplay {replayTo : ℕ} (h : s.Feed b replayTo)
    (hend : s.sub.paused = false → replayTo = reached b s.sent) : (s.endReplay replayTo).Fed b := by
  apply Queues.sendQueue
  refine ⟨?_, rfl⟩
  refine Feed.resub (h.retop hend) rfl rfl rfl (.inl rfl) h.slots ?_ fun _ => rfl
  intro hopen
  exact max_le (h.lastSent hopen) (hend hopen).le

variable {cursor replayTo : ℕ} {topics : Finset Topic}

theorem Replays.sendReplay (h : s.Replays b cursor replayTo topics) :
    (s.sendReplay cursor replayTo topics).Fed b := by
  unfold Stream.sendReplay
  split
  · exact h.place _
  · rename_i hdone
    apply h.feed.endReplay
    intro hopen
    rw [← h.stands]
    exact (le_antisymm h.le (not_lt.mp fun hlt => hdone ⟨hlt, h.asked hopen⟩)).symm

theorem Replays.endBatch (h : s.Replays b cursor replayTo topics) :
    (s.endBatch cursor replayTo topics).Fed b := by
  unfold Stream.endBatch
  cases hreplay : s.sub.replay with
  | none =>
    -- an overflow: the rest of the replay is not sent
    have hclosed : s.sub.paused = false → False := by
      intro hopen
      have hasked := h.asked hopen
      rw [hreplay] at hasked
      cases hasked
    exact Queues.sendQueue ⟨h.feed.retop fun hopen => (hclosed hopen).elim, hreplay⟩
  | some window =>
    have hopen : s.sub.paused = false := by
      by_contra hpaused
      have hnone := (h.feed.paused (Bool.not_eq_false _ ▸ hpaused)).1
      rw [hreplay] at hnone
      cases hnone
    apply Replays.sendReplay
    refine ⟨h.feed.resub rfl rfl rfl (.inl rfl) h.feed.slots h.feed.lastSent ?_, h.stands, h.le,
      h.serves, fun _ => rfl⟩
    intro hclosed
    rw [hopen] at hclosed
    cases hclosed

theorem Replays.sendBatch {events : List Event} (h : s.Replays b cursor replayTo topics)
    (hordered : Log.InOrder Event.seq s.store)
    (hevents : events <+: Log.after Event.seq cursor s.store) :
    (s.sendBatch replayTo topics cursor events).Fed b := by
  cases events with
  | nil => exact h.endBatch
  | cons e rest =>
    unfold Stream.sendBatch
    split
    · exact h.endBatch
    rename_i hwithin
    have htopic : e.topic ∈ topics := h.serves (topicOf_mem e.type)
    rw [if_pos htopic]
    have hfollows : (Message.envelope e).Follows s.store (reached b s.sent) := by
      rw [← h.stands]
      exact follows_next hordered hevents
    exact ⟨h.feed.send hfollows _, (reached_concat b s.sent (.envelope e)).symm,
      not_lt.mp hwithin, h.serves, h.asked⟩

theorem Awaits.startReplay (h : s.Awaits b) : s.startReplay.Fed b := by
  unfold Stream.startReplay
  rcases h with ⟨hnone, hfeed⟩ | ⟨cursor, replayTo, hsome, hfeed, hcursor, hle⟩
  · rw [hnone]
    exact Queues.sendQueue ⟨hfeed, hnone⟩
  · rw [hsome]
    exact Replays.sendReplay ⟨hfeed, hcursor, hle, hfeed.topics, fun _ => by rw [hsome]; rfl⟩

/-- The subscriber wakes, with the acknowledgement taken or not. -/
theorem Awaits.resub (h : s.Awaits b) {sub : Subscriber} (htopics : sub.topics = s.sub.topics)
    (hqueue : sub.queue = s.sub.queue) (hpaused : sub.paused = s.sub.paused)
    (hack : sub.ack = s.sub.ack ∨ sub.ack = none) (hslots : sub.slots = s.sub.slots)
    (hlast : sub.lastSent = s.sub.lastSent) (hreplay : sub.replay = s.sub.replay) :
    Awaits b { s with sub } := by
  have hfeed : ∀ top, s.Feed b top → Feed b top { s with sub } := by
    intro top hfeed
    refine hfeed.resub htopics hqueue hpaused hack ?_ ?_ ?_
    · rw [hslots]
      exact hfeed.slots
    · rw [hpaused, hlast]
      exact hfeed.lastSent
    · rw [hpaused, hreplay]
      exact fun hclosed => (hfeed.paused hclosed).1
  rcases h with ⟨hnone, h⟩ | ⟨cursor, replayTo, hsome, h, hcursor, hle⟩
  · exact .inl ⟨hreplay.trans hnone, hfeed _ h⟩
  · exact .inr ⟨cursor, replayTo, hreplay.trans hsome, hfeed _ h, hcursor, hle⟩

theorem Awaits.place (h : s.Awaits b) (place : Sender) : Awaits b { s with sender := place } := by
  rcases h with ⟨hnone, h⟩ | ⟨cursor, replayTo, hsome, h, hcursor, hle⟩
  · exact .inl ⟨hnone, h.place _⟩
  · exact .inr ⟨cursor, replayTo, hsome, h.place _, hcursor, hle⟩

theorem Awaits.notice {n : Notice} (h : s.Awaits b) (hn : (Message.notice n).Follows s.store b)
    (place : Sender) : Awaits b (s.send (.notice n) place) := by
  have hreached : reached b (s.send (.notice n) place).sent = reached b s.sent :=
    reached_concat b s.sent (.notice n)
  rcases h with ⟨hnone, h⟩ | ⟨cursor, replayTo, hsome, h, hcursor, hle⟩
  · exact .inl ⟨hnone, by rw [hreached]; exact h.notice hn place⟩
  · exact .inr ⟨cursor, replayTo, hsome, h.notice hn place, by rw [hreached]; exact hcursor, hle⟩

theorem Awaits.woken (h : s.Awaits b) : s.woken.Fed b := by
  unfold Stream.woken
  cases hack : s.sub.ack with
  | none =>
    have hwoken : Awaits b { s with sub := { s.sub with wake := false } } :=
      h.resub rfl rfl rfl (.inl rfl) rfl rfl rfl
    exact hwoken.startReplay
  | some n =>
    have hfollows : (Message.notice n).Follows s.store b := by
      rcases h with ⟨-, h⟩ | ⟨_, _, -, h, -, -⟩
      · exact h.ack n hack
      · exact h.ack n hack
    have hwoken : Awaits b { s with sub := { s.sub with wake := false, ack := none } } :=
      h.resub rfl rfl rfl (.inr rfl) rfl rfl rfl
    exact hwoken.notice hfollows .acking

theorem Awaits.turn (h : s.Awaits b) : s.turn.Fed b := by
  unfold Stream.turn
  split
  · exact h.place _
  · exact h.woken

namespace Fed

theorem settle (h : s.Fed b) : s.settle.Fed b := by
  unfold Stream.settle
  split
  · rename_i htop
    unfold Fed at h
    rw [htop] at h
    exact Awaits.turn h
  · exact h

theorem advance (h : s.Fed b) (hplaced : s.Inv (fun _ => false) 0) {s' : Stream}
    (hs : s.advance = some s') : s'.Fed b := by
  have hordered := hplaced.core.ordered
  have hat := hplaced.placed
  unfold Fed at h
  unfold Stream.advance at hs
  cases hsender : s.sender with
  | top | beating | acking =>
    simp only [hsender, Option.some.injEq, Stationed] at hs h
    subst hs
    first | exact h.turn | exact h.startReplay
  | waiting =>
    simp only [hsender, Stationed] at hs h
    split at hs
    · cases hs
      exact h.woken
    · cases hs
  | reading =>
    simp only [hsender] at hs
    cases hs
  | fetched cursor replayTo topics events =>
    simp only [hsender, Option.some.injEq, Stationed, Placed] at hs h hat
    obtain ⟨hlt, hcovered, -, hevents, hnone⟩ := hat
    subst hs
    split
    · rename_i hnil
      -- the end of a replay is a stored event, so a page is not empty before it
      rcases hcovered.2 with h0 | ⟨e, he, hseq⟩
      · rw [h0] at hlt
        exact absurd hlt (Nat.not_lt_zero _)
      · have hmem : e ∈ Log.after Event.seq cursor (Log.upTo Event.seq replayTo s.store) :=
          List.mem_filter.mpr ⟨List.mem_filter.mpr ⟨he, by simpa using hseq.le⟩,
            by simpa [hseq] using hlt⟩
        rw [hnone hnil] at hmem
        cases hmem
    · exact h.sendBatch hordered hevents
  | replaying event replayTo topics rest =>
    simp only [hsender, Option.some.injEq, Stationed, Placed] at hs h hat
    subst hs
    have hsent : Replays b event.seq replayTo topics
        { s with sub := { s.sub with lastSent := event.seq } } :=
      ⟨h.feed.resub rfl rfl rfl (.inl rfl) h.feed.slots (fun _ => h.stands.le)
        fun hclosed => (h.feed.paused hclosed).1, h.stands, h.le, h.serves, h.asked⟩
    exact (hsent.place _).sendBatch hordered hat.2.2
  | queued message =>
    simp only [hsender, Option.some.injEq, Stationed] at hs h
    subst hs
    have hlast : s.sub.paused = false →
        message.seq.getD s.sub.lastSent ≤ reached b s.sent := by
      intro hopen
      cases hseq : message.seq with
      | none => exact h.1.feed.lastSent hopen
      | some x => exact h.2 x hseq
    have hsent : Queues b
        { s with sub := { s.sub with lastSent := message.seq.getD s.sub.lastSent } } :=
      ⟨h.1.feed.resub rfl rfl rfl (.inl rfl) h.1.feed.slots hlast
        fun hclosed => (h.1.feed.paused hclosed).1, h.1.replay⟩
    exact (hsent.place _).sendQueue
  | slotted rest =>
    simp only [hsender, Option.some.injEq, Stationed] at hs h
    subst hs
    exact h.sendSlots rest
  | dead =>
    simp only [hsender] at hs
    cases hs

end Fed

/-! ## What the other tasks do -/

theorem overflow_ne : "overflow" ≠ "new_store" := by decide

namespace Fed

/-- A step that leaves the send loop where it is, and drops the replay only with an overflow. -/
theorem transfer {s' : Stream} (h : s.Fed b) (hsender : s'.sender = s.sender)
    (hsent : s'.sent = s.sent) (hfeed : ∀ top, s.Feed b top → s'.Feed b top)
    (hreplay : s'.sub.replay = s.sub.replay ∨ s'.sub.replay = none ∧ s'.sub.paused = true)
    (hpaused : s'.sub.paused = false → s.sub.paused = false) : s'.Fed b := by
  -- with an overflow the client resyncs, so what the replay owed is not asked for
  have hreplays : ∀ cursor replayTo topics, s.Replays b cursor replayTo topics →
      s'.Replays b cursor replayTo topics := by
    intro cursor replayTo topics h
    refine ⟨hfeed _ h.feed, by rw [hsent]; exact h.stands, h.le, h.serves, fun hopen => ?_⟩
    rcases hreplay with hsame | ⟨-, hclosed⟩
    · rw [hsame]
      exact h.asked (hpaused hopen)
    · rw [hclosed] at hopen
      cases hopen
  have hqueues : s.Queues b → s'.Queues b := by
    intro h
    refine ⟨by rw [hsent]; exact hfeed _ h.feed, ?_⟩
    rcases hreplay with hsame | ⟨hnone, -⟩
    · exact hsame.trans h.replay
    · exact hnone
  have hawaits : s.Awaits b → s'.Awaits b := by
    intro h
    unfold Awaits
    rw [hsent]
    rcases hreplay with hsame | ⟨hnone, hclosed⟩
    · rw [hsame]
      exact h.imp (And.imp_right (hfeed _)) fun ⟨cursor, replayTo, hsome, h, hrest⟩ =>
        ⟨cursor, replayTo, hsome, hfeed _ h, hrest⟩
    · refine .inl ⟨hnone, ?_⟩
      have hnot : s'.sub.paused = false → False := by
        intro hopen
        rw [hclosed] at hopen
        cases hopen
      rcases h with ⟨-, h⟩ | ⟨_, _, -, h, -, -⟩
      · exact hfeed _ h
      · exact (hfeed _ h).retop fun hopen => (hnot hopen).elim
  unfold Fed at h ⊢
  rw [hsender]
  cases hat : s.sender with
  | queued message =>
    rw [hat] at h
    exact ⟨hqueues h.1, by rw [hsent]; exact h.2⟩
  | slotted | dead =>
    rw [hat] at h
    exact hqueues h
  | reading | fetched | replaying =>
    rw [hat] at h
    exact hreplays _ _ _ h
  | top | waiting | beating | acking =>
    rw [hat] at h
    exact hawaits h

theorem stored (h : s.Fed b) {e : Event} (he : EventStore.lastSeq s.store < e.seq) :
    Fed b { s with store := s.store ++ [e] } := by
  refine h.transfer rfl rfl (fun top hfeed => ?_) (.inl rfl) id
  exact ⟨hfeed.base.trans (lastSeq_concat he), hfeed.sent.stored he, hfeed.topics,
    fun n hn => (hfeed.ack n hn).stored he, hfeed.slots, hfeed.lastSent,
    fun hopen => ⟨(hfeed.unpaused hopen).1.stored he, (hfeed.unpaused hopen).2⟩,
    fun hclosed =>
      let ⟨hreplay, hflow, hnotices⟩ := hfeed.paused hclosed
      ⟨hreplay, hflow.stored he, hnotices⟩⟩

theorem tailing (h : s.Fed b) (tailer : Tailer) : Fed b { s with tailer } :=
  h.transfer rfl rfl
    (fun _ hfeed => ⟨hfeed.base, hfeed.sent, hfeed.topics, hfeed.ack, hfeed.slots, hfeed.lastSent,
      hfeed.unpaused, hfeed.paused⟩) (.inl rfl) id

theorem headed (h : s.Fed b) : Fed b { s with tailSeq := some s.head } := by
  refine h.transfer rfl rfl (fun top hfeed => ?_) (.inl rfl) id
  refine ⟨hfeed.base, hfeed.sent, hfeed.topics, hfeed.ack, hfeed.slots, hfeed.lastSent,
    fun hopen => ?_, hfeed.paused⟩
  obtain ⟨hflow, htail⟩ := hfeed.unpaused hopen
  refine ⟨hflow, ?_⟩
  rw [head, htail]
  rfl

theorem putSlot (h : s.Fed b) (topic : Topic) {n : Notice} (hn : n.Plain) :
    Fed b { s with sub := s.sub.putSlot topic n } := by
  unfold Subscriber.putSlot
  split
  · refine h.transfer rfl rfl (fun top hfeed => ?_) (.inl rfl) id
    refine hfeed.resub rfl rfl rfl (.inl rfl) (fun topic' n' hn' => ?_) hfeed.lastSent
      fun hclosed => (hfeed.paused hclosed).1
    by_cases htopic : topic' = topic
    · dsimp only at hn'
      rw [htopic, Dict.get?_set_self, Option.some.injEq] at hn'
      rw [← hn']
      exact hn
    · dsimp only at hn'
      rw [Dict.get?_set_ne _ _ htopic] at hn'
      exact hfeed.slots topic' n' hn'
  · exact h

/-- A message is pushed that may come where the tailer stands, and the tailer passes it. -/
theorem pushed (h : s.Fed b) {m : Message}
    (hm : ∀ tail, s.tailSeq = some tail → m.Follows s.store tail) (tailer : Tailer) :
    Fed b { s with tailer, tailSeq := s.tailSeq.map m.reach, sub := s.sub.push m } := by
  unfold Subscriber.push
  split
  · -- a paused subscriber is passed over
    rename_i hclosed
    refine h.transfer rfl rfl (fun top hfeed => ?_) (.inl rfl) id
    refine ⟨hfeed.base, hfeed.sent, hfeed.topics, hfeed.ack, hfeed.slots, hfeed.lastSent,
      fun hopen => ?_, hfeed.paused⟩
    dsimp only at hopen
    rw [hclosed] at hopen
    cases hopen
  · rename_i hnot
    have hopen : s.sub.paused = false := Bool.not_eq_true _ ▸ hnot
    split
    · -- an overflow: the notice tells of what was sent
      refine h.transfer rfl rfl (fun top hfeed => ?_) (.inr ⟨rfl, rfl⟩)
        fun hopen' => (nomatch hopen')
      have hlast := hfeed.lastSent hopen
      refine ⟨hfeed.base, hfeed.sent, hfeed.topics, hfeed.ack, hfeed.slots,
        fun hopen' => (nomatch hopen'), fun hopen' => (nomatch hopen'),
        fun _ => ⟨rfl, ⟨?_, trivial⟩, ?_⟩⟩
      · exact ⟨⟨hlast.trans (hfeed.sent.reached_le hfeed.base), Nat.zero_le _⟩, overflow_ne,
          fun _ => Nat.zero_le _, fun _ e _ hle => hle.trans hlast⟩
      · intro m' hm'
        rw [List.mem_singleton.mp hm']
        rfl
    · refine h.transfer rfl rfl (fun top hfeed => ?_) (.inl rfl) id
      obtain ⟨hflow, htail⟩ := hfeed.unpaused hopen
      refine ⟨hfeed.base, hfeed.sent, hfeed.topics, hfeed.ack, hfeed.slots, hfeed.lastSent,
        fun _ => ⟨flow_concat.mpr ⟨hflow, hm _ htail⟩, ?_⟩, fun hclosed => ?_⟩
      · dsimp only
        rw [htail, reached_concat]
        rfl
      · dsimp only at hclosed
        rw [hopen] at hclosed
        cases hclosed

theorem feed (h : s.Fed b) : ∃ top, s.Feed b top := by
  have hawaits : s.Awaits b → ∃ top, s.Feed b top := by
    intro h
    rcases h with ⟨-, h⟩ | ⟨_, _, -, h, -, -⟩
    · exact ⟨_, h⟩
    · exact ⟨_, h⟩
  unfold Fed at h
  cases hat : s.sender with
  | queued message =>
    rw [hat] at h
    exact ⟨_, h.1.feed⟩
  | slotted | dead | reading | fetched | replaying =>
    rw [hat] at h
    exact ⟨_, h.feed⟩
  | top | waiting | beating | acking =>
    rw [hat] at h
    exact hawaits h

/-- The tailer passes the events it read, one after the other. -/
theorem fanOut {events : List Event} {seen : ℕ} (h : s.Fed b)
    (hordered : Log.InOrder Event.seq s.store) (htail : s.tailSeq = some seen)
    (hevents : events <+: Log.after Event.seq seen s.store) : (s.fanOut seen events).Fed b := by
  unfold Stream.fanOut
  split
  · exact h.tailing .sleeping
  rename_i hne
  have hall : ∀ (events : List Event) (seen : ℕ) (s : Stream), s.Fed b →
      Log.InOrder Event.seq s.store → s.tailSeq = some seen →
      events <+: Log.after Event.seq seen s.store →
      Fed b { s with
        tailer := .sleeping
        tailSeq := some (events.foldl (fun _ e => e.seq) seen)
        sub := events.foldl (fun sub event =>
          if event.topic ∈ sub.topics then sub.push (.envelope event) else sub) s.sub } := by
    intro events
    induction events with
    | nil =>
      intro seen s h _ htail _
      have hkept := h.tailing .sleeping
      rw [List.foldl_nil, List.foldl_nil, ← htail]
      exact hkept
    | cons e rest ih =>
      intro seen s h hordered htail hevents
      obtain ⟨top, hfeed⟩ := h.feed
      have htopic : e.topic ∈ s.sub.topics := hfeed.topics (topicOf_mem e.type)
      have hnext := follows_next hordered hevents
      have hpushed := h.pushed (m := .envelope e) (fun tail htail' => by
        rw [htail, Option.some.injEq] at htail'
        rw [← htail']
        exact hnext) .sleeping
      rw [htail] at hpushed
      rw [List.foldl_cons, List.foldl_cons, if_pos htopic]
      exact ih e.seq _ hpushed hordered rfl (hordered.next hevents).2
  have hlast : Log.last Event.seq events = events.foldl (fun _ e => e.seq) seen := by
    induction events using List.reverseRecOn with
    | nil => exact absurd rfl hne
    | append_singleton rest e ih => simp [Log.last]
  have hpos : Log.last Event.seq events ≠ 0 := by
    have hmem := List.getLast_mem hne
    have hafter : seen < (events.getLast hne).seq := by
      simpa using (List.mem_filter.mp (hevents.subset hmem)).2
    rw [Log.last, List.getLast?_eq_some_getLast hne]
    simp only [Option.map_some, Option.getD_some]
    omega
  dsimp only
  rw [if_neg hpos, hlast]
  exact hall events seen s h hordered htail hevents

/-- **One step** of a connection that is fed. -/
theorem step {config : HubConfig} {action : Action} {s' : Stream} (h : s.Fed b)
    (hinv : s.Inv (fun _ => false) 0) (hstep : step config s action = some s')
    (hstays : action.Stays) : s'.Fed b := by
  cases action with
  -- a second subscription replaces the connection, so the run of this one ends here
  | subscribe => cases hstays
  | append event =>
    simp only [Stream.step] at hstep
    split at hstep
    · rename_i hseq
      cases hstep
      exact h.stored hseq
    · cases hstep
  | announce kind data =>
    simp only [Stream.step, Option.some.injEq] at hstep
    subst hstep
    split
    -- a notice carries no sequence number: the tail follows it as it followed the rest
    · have hplain : Notice.Plain ⟨kind, .system, .other data⟩ := ⟨rfl, rfl, rfl⟩
      have hpushed := h.pushed (m := .notice ⟨kind, .system, .other data⟩)
        (fun tail _ => hplain.follows s.store tail) s.tailer
      have hsame : s.tailSeq.map
          (fun q => Message.reach q (.notice ⟨kind, .system, .other data⟩)) = s.tailSeq := by
        cases s.tailSeq <;> rfl
      rw [hsame] at hpushed
      exact hpushed
    · exact h
  | publish topic data =>
    cases hstep
    exact h.putSlot topic ⟨rfl, rfl, rfl⟩
  | poll =>
    simp only [Stream.step] at hstep
    split at hstep
    · cases hstep
      exact h.headed.tailing (.reading s.head)
    · cases hstep
  | tailRead =>
    simp only [Stream.step] at hstep
    split at hstep
    · cases hstep
      exact h.tailing _
    · cases hstep
  | tailFailed =>
    simp only [Stream.step] at hstep
    split at hstep
    · cases hstep
      exact h.tailing .sleeping
    · cases hstep
  | tailResume =>
    simp only [Stream.step] at hstep
    have htails := hinv.core.tails
    cases htailer : s.tailer with
    | fetched head events =>
      simp only [htailer, Tails] at hstep htails
      cases hstep
      -- the tailer hands over what lies after its cursor, in the order of the store
      exact h.fanOut hinv.core.ordered htails.1 htails.2
    | _ =>
      rw [htailer] at hstep
      cases hstep
  | timeout =>
    simp only [Stream.step] at hstep
    split at hstep
    · rename_i hwaiting
      cases hstep
      unfold Fed at h
      rw [hwaiting] at h
      have hplain : Notice.Plain ⟨"heartbeat", .system, .heartbeat (s.tailSeq.getD 0)⟩ :=
        ⟨rfl, rfl, rfl⟩
      exact Awaits.notice h (hplain.follows s.store b) .beating
    · cases hstep
  | replayRead =>
    simp only [Stream.step] at hstep
    cases hsender : s.sender with
    | reading cursor replayTo topics =>
      unfold Fed at h
      rw [hsender] at h
      simp only [hsender] at hstep
      cases hstep
      exact Replays.place h _
    | _ =>
      rw [hsender] at hstep
      cases hstep
  | replayFailed =>
    simp only [Stream.step] at hstep
    cases hsender : s.sender with
    | reading cursor replayTo topics =>
      unfold Fed at h
      rw [hsender] at h
      simp only [hsender] at hstep
      cases hstep
      exact (Replays.sendReplay h).settle
    | _ =>
      rw [hsender] at hstep
      cases hstep
  | resume =>
    simp only [Stream.step, Option.map_eq_some_iff] at hstep
    obtain ⟨next, hnext, rfl⟩ := hstep
    exact (h.advance hinv hnext).settle

end Fed

/-! ## Before the subscribe -/

/-- A connection that has not subscribed: nothing is sent but notices without numbers. -/
structure Fresh (s : Stream) : Prop where
  paused : s.sub.paused = true
  topics : s.sub.topics = ∅
  queue : s.sub.queue = []
  slots : s.sub.slots = .empty
  replay : s.sub.replay = none
  ack : s.sub.ack = none
  sender : s.sender = .top ∨ s.sender = .waiting ∨ s.sender = .beating
  sent : ∀ m ∈ s.sent, ∃ n : Notice, m = .notice n ∧ n.Plain

namespace Fresh

theorem accept (s : Stream) : s.accept.Fresh where
  paused := rfl
  topics := rfl
  queue := rfl
  slots := rfl
  replay := rfl
  ack := rfl
  sender := .inl rfl
  sent := fun _ h => absurd h List.not_mem_nil

theorem idle (h : s.Fresh) : s.sub.idle = true := by
  unfold Subscriber.idle
  rw [h.ack, h.replay, h.queue, h.slots]
  rfl

theorem push (h : s.Fresh) (m : Message) : s.sub.push m = s.sub := by
  unfold Subscriber.push
  rw [if_pos h.paused]

/-- The store and the tailer change, and the send loop waits. -/
theorem keeps (h : s.Fresh) {s' : Stream} (hsub : s'.sub = s.sub) (hsent : s'.sent = s.sent)
    (hsender : s'.sender = .top ∨ s'.sender = .waiting ∨ s'.sender = .beating) : s'.Fresh := by
  refine ⟨?_, ?_, ?_, ?_, ?_, ?_, hsender, ?_⟩
  · rw [hsub]
    exact h.paused
  · rw [hsub]
    exact h.topics
  · rw [hsub]
    exact h.queue
  · rw [hsub]
    exact h.slots
  · rw [hsub]
    exact h.replay
  · rw [hsub]
    exact h.ack
  · rw [hsent]
    exact h.sent

theorem turn (h : s.Fresh) : s.turn.Fresh := by
  unfold Stream.turn
  rw [if_pos h.idle]
  exact h.keeps rfl rfl (.inr (.inl rfl))

/-- A wake finds nothing to send. -/
theorem woken (h : s.Fresh) : s.woken.Fresh := by
  have hslots : s.sub.slots.keys = [] := by
    rw [h.slots]
    rfl
  unfold Stream.woken
  rw [h.ack]
  dsimp only
  unfold Stream.startReplay
  dsimp only
  rw [h.replay]
  dsimp only
  unfold Stream.sendQueue
  dsimp only
  rw [h.queue]
  dsimp only
  rw [hslots]
  exact ⟨h.paused, h.topics, rfl, h.slots, rfl, h.ack, .inl rfl, h.sent⟩

theorem settle (h : s.Fresh) : s.settle.Fresh := by
  unfold Stream.settle
  split
  · exact h.turn
  · exact h

theorem advance (h : s.Fresh) {s' : Stream} (hs : s.advance = some s') : s'.Fresh := by
  unfold Stream.advance at hs
  rcases h.sender with hsender | hsender | hsender
  · rw [hsender] at hs
    cases hs
    exact h.turn
  · rw [hsender] at hs
    dsimp only at hs
    split at hs
    · cases hs
      exact h.woken
    · cases hs
  · rw [hsender] at hs
    cases hs
    exact h.turn

theorem step {config : HubConfig} {action : Action} {s' : Stream} (h : s.Fresh)
    (hstep : Stream.step config s action = some s') (hstays : action.Stays) : s'.Fresh := by
  cases action with
  | subscribe => cases hstays
  | append event =>
    simp only [Stream.step] at hstep
    split at hstep
    · cases hstep
      exact h.keeps rfl rfl h.sender
    · cases hstep
  | announce kind data =>
    simp only [Stream.step, Option.some.injEq] at hstep
    subst hstep
    split
    · exact h.keeps (h.push _) rfl h.sender
    · exact h
  | publish topic data =>
    cases hstep
    refine h.keeps ?_ rfl h.sender
    -- a slot is put only for a client that is paused, and a fresh one is not
    unfold Subscriber.putSlot
    rw [if_neg]
    intro hput
    rw [h.paused] at hput
    cases hput.2
  | poll =>
    simp only [Stream.step] at hstep
    split at hstep
    · cases hstep
      exact h.keeps rfl rfl h.sender
    · cases hstep
  | tailRead | tailFailed =>
    simp only [Stream.step] at hstep
    split at hstep
    · cases hstep
      exact h.keeps rfl rfl h.sender
    · cases hstep
  | tailResume =>
    simp only [Stream.step] at hstep
    split at hstep
    · rename_i head events _
      cases hstep
      unfold Stream.fanOut
      split
      · exact h.keeps rfl rfl h.sender
      · refine h.keeps ?_ rfl h.sender
        dsimp only
        clear * - h
        induction events with
        | nil => rfl
        | cons e rest ih =>
          rw [List.foldl_cons, h.push, ite_self]
          exact ih
    · cases hstep
  | timeout =>
    simp only [Stream.step] at hstep
    split at hstep
    · cases hstep
      refine ⟨h.paused, h.topics, h.queue, h.slots, h.replay, h.ack, .inr (.inr rfl), ?_⟩
      intro m hm
      rcases List.mem_append.mp hm with hold | hnew
      · exact h.sent m hold
      · exact ⟨_, List.mem_singleton.mp hnew, rfl, rfl, rfl⟩
    · cases hstep
  -- a fresh connection is not replaying
  | replayRead | replayFailed =>
    simp only [Stream.step] at hstep
    rcases h.sender with hsender | hsender | hsender <;>
      · rw [hsender] at hstep
        cases hstep
  | resume =>
    simp only [Stream.step, Option.map_eq_some_iff] at hstep
    obtain ⟨next, hnext, rfl⟩ := hstep
    exact (h.advance hnext).settle

/-- What was sent before a subscribe does not move the position. -/
theorem flow (h : s.Fresh) (b : ℕ) : Flow s.store b s.sent ∧ reached b s.sent = b := by
  have hsent := h.sent
  generalize s.sent = sent at hsent
  induction sent with
  | nil => exact ⟨trivial, rfl⟩
  | cons m rest ih =>
    obtain ⟨n, rfl, hplain⟩ := hsent m List.mem_cons_self
    obtain ⟨hflow, hreached⟩ := ih fun m hm => hsent m (List.mem_cons_of_mem _ hm)
    exact ⟨⟨hplain.follows s.store b, hflow⟩, hreached⟩

/-- **The subscribe.** The connection is fed from the number asked for, or from the head. -/
theorem subscribed (h : s.Fresh) (hinv : s.Inv (fun _ => false) 0) (since : ℕ) :
    (s.subscribed streamTopics since).Fed (min since s.head) := by
  have hhead : s.head ≤ EventStore.lastSeq s.store := by
    unfold head
    cases htail : s.tailSeq with
    | none => exact le_rfl
    | some tail =>
      rcases hinv.core.stands tail htail with rfl | ⟨e, he, rfl⟩
      · exact Nat.zero_le _
      · exact EventStore.le_lastSeq he
  obtain ⟨hflow, hreached⟩ := h.flow (min since s.head)
  have hreached' : reached (min since s.head) (s.subscribed streamTopics since).sent =
      min since s.head := hreached
  have hfeed : (s.subscribed streamTopics since).Feed (min since s.head) s.head := by
    refine ⟨(min_le_right _ _).trans hhead, hflow, Finset.subset_union_left, ?_, ?_, ?_, ?_, ?_⟩
    · intro n hn
      cases hn
      have hreason : "" ≠ "new_store" := by decide
      have hkind : "subscribed" ≠ "resync" := by decide
      exact ⟨⟨(min_le_right _ _).trans hhead, hhead⟩, hreason, id, fun h => absurd h hkind⟩
    · intro topic n hn
      cases hn
    · intro _
      rw [hreached']
      exact le_rfl
    · exact fun _ => ⟨trivial, rfl⟩
    · exact fun hclosed => (nomatch hclosed)
  have hawaits : (s.subscribed streamTopics since).Awaits (min since s.head) := by
    have hreplay : (s.subscribed streamTopics since).sub.replay =
        if (streamTopics ∩ eventTopics).Nonempty ∧ since < s.head
          then some (min since s.head, s.head) else none := rfl
    unfold Awaits
    rw [hreached', hreplay]
    split
    · exact .inr ⟨_, _, rfl, hfeed, rfl, min_le_right _ _⟩
    · rename_i hnot
      -- a subscription without replay starts at the head
      have hle : s.head ≤ since := by
        by_contra hlt
        exact hnot ⟨by decide, not_le.mp hlt⟩
      refine .inl ⟨rfl, ?_⟩
      rw [min_eq_right hle] at hfeed ⊢
      exact hfeed
  unfold Fed
  show Stationed _ _ s.sender
  rcases h.sender with hsender | hsender | hsender <;>
    · rw [hsender]
      exact hawaits

end Fresh

end Stream

end RakshaQuant
