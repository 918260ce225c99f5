import RakshaQuant.Web.Interleaving

/-! The send loop left alone. Every step of it takes something off what is to be
sent, or comes closer to sending, so it ends waiting with nothing left. -/

namespace RakshaQuant

/-- How many messages are held for the client. -/
def Subscriber.backlog (sub : Subscriber) : ℕ :=
  sub.ack.toList.length + sub.queue.length + sub.slots.keys.length

/-- How far the replay that is asked for has to go. -/
def Subscriber.asked (sub : Subscriber) : ℕ :=
  match sub.replay with
  | none => 0
  | some (cursor, replayTo) => replayTo - cursor + 2

def Subscriber.wakes (sub : Subscriber) : ℕ := if sub.wake then 3 else 0

namespace Stream

/-- The work that is left, larger by the steps that are between two sends. -/
def cost (s : Stream) : ℕ :=
  s.sub.wakes + match s.sender with
  | .top => 16 * (s.sub.backlog + s.sub.asked) + 2
  | .waiting => 16 * (s.sub.backlog + s.sub.asked)
  | .beating => 16 * (s.sub.backlog + s.sub.asked) + 3
  | .acking => 16 * (s.sub.backlog + s.sub.asked) + 3
  | .reading cursor replayTo _ => 16 * (s.sub.backlog + (replayTo - cursor) + 1) + 3
  | .fetched cursor replayTo _ _ => 16 * (s.sub.backlog + (replayTo - cursor) + 1) + 2
  | .replaying event replayTo _ _ => 16 * (s.sub.backlog + (replayTo - event.seq) + 1) + 4
  | .queued _ => 16 * (s.sub.backlog + s.sub.asked) + 3
  | .slotted _ => 16 * (s.sub.backlog + s.sub.asked) + 3
  | .dead => 0

/-- The slots have the values that the send loop is about to send. -/
def Lists (s : Stream) (topics : List Topic) : Prop :=
  topics.Nodup ∧ ∀ topic ∈ topics, (s.sub.slots.get? topic).isSome

/-- The send loop is alive, and finds the slots it listed. -/
def Whole (s : Stream) : Prop :=
  match s.sender with
  | .slotted rest => s.Lists rest
  | .dead => False
  | _ => True

/-- What the send loop comes to by itself. -/
structure Comes (bound : ℕ) (s s' : Stream) : Prop where
  store : s'.store = s.store
  tailSeq : s'.tailSeq = s.tailSeq
  paused : s'.sub.paused = s.sub.paused
  whole : s'.Whole
  cost : s'.cost ≤ bound

namespace Comes

variable {bound bound' : ℕ} {s s' : Stream}

theorem le (h : Comes bound s s') (hle : bound ≤ bound') : Comes bound' s s' :=
  { h with cost := h.cost.trans hle }

/-- A slot is sent. -/
theorem sendSlots_cons {topic : Topic} {rest : List Topic} (h : s.Lists (topic :: rest)) :
    Comes (s.sub.wakes + 16 * (s.sub.backlog + s.sub.asked) + 1) s
      (s.sendSlots (topic :: rest)) := by
  obtain ⟨hnodup, hheld⟩ := h
  obtain ⟨hnew, hrest⟩ := List.nodup_cons.mp hnodup
  obtain ⟨message, hmessage⟩ := Option.isSome_iff_exists.mp (hheld topic List.mem_cons_self)
  have hfewer : Subscriber.backlog { s.sub with slots := s.sub.slots.pop topic } + 1 =
      s.sub.backlog := by
    have hmem := (Dict.mem_keys_iff s.sub.slots).mpr ⟨message, hmessage⟩
    have hlength := List.length_pos_of_mem hmem
    simp only [Subscriber.backlog, Dict.keys_pop, List.length_erase_of_mem hmem]
    omega
  rw [Stream.sendSlots, hmessage]
  refine ⟨rfl, rfl, rfl, ⟨hrest, fun t ht => ?_⟩, ?_⟩
  · have hne : t ≠ topic := fun heq => hnew (heq ▸ ht)
    show ((s.sub.slots.pop topic).get? t).isSome
    rw [Dict.get?_pop, if_neg hne]
    exact hheld t (List.mem_cons_of_mem _ ht)
  · show s.sub.wakes + (16 * (Subscriber.backlog { s.sub with slots := s.sub.slots.pop topic } +
      s.sub.asked) + 3) ≤ _
    omega

theorem sendSlots {rest : List Topic} (h : s.Lists rest) :
    Comes (s.sub.wakes + 16 * (s.sub.backlog + s.sub.asked) + 2) s (s.sendSlots rest) := by
  cases rest with
  | nil => exact ⟨rfl, rfl, rfl, trivial, le_rfl⟩
  | cons topic rest => exact (sendSlots_cons h).le (by omega)

theorem lists_keys (s : Stream) : s.Lists s.sub.slots.keys := by
  refine ⟨s.sub.slots.nodup_keys, fun topic ht => ?_⟩
  obtain ⟨message, hmessage⟩ := (Dict.mem_keys_iff s.sub.slots).mp ht
  rw [hmessage]
  rfl

/-- Something of the queue or the slots is sent. -/
theorem sendQueue_busy (h : s.sub.queue ≠ [] ∨ s.sub.slots.keys ≠ []) :
    Comes (s.sub.wakes + 16 * (s.sub.backlog + s.sub.asked) + 1) s s.sendQueue := by
  unfold Stream.sendQueue
  cases hqueue : s.sub.queue with
  | nil =>
    have hlists := lists_keys s
    cases hkeys : s.sub.slots.keys with
    | nil =>
      rcases h with h | h
      · exact absurd hqueue h
      · exact absurd hkeys h
    | cons topic rest =>
      rw [hkeys] at hlists
      exact sendSlots_cons hlists
  | cons message rest =>
    have hfewer : Subscriber.backlog { s.sub with queue := rest } + 1 = s.sub.backlog := by
      simp only [Subscriber.backlog, hqueue, List.length_cons]
      omega
    refine ⟨rfl, rfl, rfl, trivial, ?_⟩
    show s.sub.wakes + (16 * (Subscriber.backlog { s.sub with queue := rest } + s.sub.asked) + 3) ≤ _
    omega

theorem sendQueue (s : Stream) :
    Comes (s.sub.wakes + 16 * (s.sub.backlog + s.sub.asked) + 2) s s.sendQueue := by
  by_cases h : s.sub.queue ≠ [] ∨ s.sub.slots.keys ≠ []
  · exact (sendQueue_busy h).le (by omega)
  · have hqueue : s.sub.queue = [] := not_not.mp fun hne => h (.inl hne)
    unfold Stream.sendQueue
    rw [hqueue]
    exact sendSlots (lists_keys s)

theorem endReplay (replayTo : ℕ) (s : Stream) :
    Comes (s.sub.wakes + 16 * s.sub.backlog + 2) s (s.endReplay replayTo) := by
  have h := sendQueue { s with sub := { s.sub with
    replay := none, lastSent := max s.sub.lastSent replayTo } }
  exact ⟨h.store, h.tailSeq, h.paused, h.whole, h.cost⟩

theorem sendReplay (cursor replayTo : ℕ) (topics : Finset Topic) (s : Stream) :
    Comes (s.sub.wakes + 16 * (s.sub.backlog + (replayTo - cursor) + 1) + 3) s
      (s.sendReplay cursor replayTo topics) := by
  unfold Stream.sendReplay
  split
  · exact ⟨rfl, rfl, rfl, trivial, le_rfl⟩
  · exact (endReplay replayTo s).le (by omega)

theorem endBatch (cursor replayTo : ℕ) (topics : Finset Topic) (s : Stream) :
    Comes (s.sub.wakes + 16 * (s.sub.backlog + (replayTo - cursor) + 1) + 3) s
      (s.endBatch cursor replayTo topics) := by
  unfold Stream.endBatch
  cases hreplay : s.sub.replay with
  | none =>
    have hasked : s.sub.asked = 0 := by
      unfold Subscriber.asked
      rw [hreplay]
    exact (sendQueue s).le (by omega)
  | some _ =>
    have h := sendReplay cursor replayTo topics
      { s with sub := { s.sub with replay := some (cursor, replayTo) } }
    exact ⟨h.store, h.tailSeq, h.paused, h.whole, h.cost⟩

/-- The events of a batch are after the cursor. -/
theorem sendBatch (replayTo : ℕ) {cursor : ℕ} (topics : Finset Topic) {events : List Event}
    (s : Stream) (hevents : events.Pairwise fun a b => a.seq < b.seq)
    (hafter : ∀ e ∈ events, cursor < e.seq) :
    Comes (s.sub.wakes + 16 * (s.sub.backlog + (replayTo - cursor) + 1) + 3) s
      (s.sendBatch replayTo topics cursor events) := by
  induction events generalizing s cursor with
  | nil => exact endBatch cursor replayTo topics s
  | cons e rest ih =>
    obtain ⟨hlater, hrest⟩ := List.pairwise_cons.mp hevents
    have he := hafter e List.mem_cons_self
    rw [Stream.sendBatch]
    split
    · exact endBatch cursor replayTo topics s
    · rename_i hwithin
      split
      · refine ⟨rfl, rfl, rfl, trivial, ?_⟩
        show s.sub.wakes + (16 * (s.sub.backlog + (replayTo - e.seq) + 1) + 4) ≤ _
        omega
      · have h := ih { s with sub := { s.sub with lastSent := e.seq } } hrest hlater
        refine ⟨h.store, h.tailSeq, h.paused, h.whole, h.cost.trans ?_⟩
        show s.sub.wakes + 16 * (s.sub.backlog + (replayTo - e.seq) + 1) + 3 ≤ _
        omega

/-- The replay, or what is first of the queue and the slots, is begun. -/
theorem startReplay_busy
    (h : s.sub.replay ≠ none ∨ s.sub.queue ≠ [] ∨ s.sub.slots.keys ≠ []) :
    Comes (s.sub.wakes + 16 * (s.sub.backlog + s.sub.asked) + 1) s s.startReplay := by
  unfold Stream.startReplay
  cases hreplay : s.sub.replay with
  | none => exact sendQueue_busy (h.resolve_left fun hne => hne hreplay)
  | some window =>
    obtain ⟨cursor, replayTo⟩ := window
    have hasked : s.sub.asked = replayTo - cursor + 2 := by
      unfold Subscriber.asked
      rw [hreplay]
    exact (sendReplay cursor replayTo s.sub.topics s).le (by omega)

theorem startReplay (s : Stream) :
    Comes (s.sub.wakes + 16 * (s.sub.backlog + s.sub.asked) + 2) s s.startReplay := by
  by_cases h : s.sub.replay ≠ none
  · exact (startReplay_busy (.inl h)).le (by omega)
  · unfold Stream.startReplay
    rw [not_not.mp h]
    exact sendQueue s

/-- The wake is taken, and something is sent if there is anything. -/
theorem woken (s : Stream) :
    Comes (16 * (s.sub.backlog + s.sub.asked) + if s.sub.idle then 2 else 1) s s.woken := by
  unfold Stream.woken
  cases hack : s.sub.ack with
  | some ack =>
    have hfewer : Subscriber.backlog { s.sub with wake := false, ack := none } + 1 =
        s.sub.backlog := by
      simp only [Subscriber.backlog, hack, Option.toList_none, Option.toList_some,
        List.length_nil, List.length_singleton]
      omega
    refine ⟨rfl, rfl, rfl, trivial, ?_⟩
    show 0 + (16 * (Subscriber.backlog { s.sub with wake := false, ack := none } + s.sub.asked) + 3)
      ≤ _
    omega
  | none =>
    have h : Comes (16 * (s.sub.backlog + s.sub.asked) + if s.sub.idle then 2 else 1)
        { s with sub := { s.sub with wake := false } }
        (Stream.startReplay { s with sub := { s.sub with wake := false } }) := by
      split
      · refine (startReplay _).le ?_
        show 0 + 16 * (s.sub.backlog + s.sub.asked) + 2 ≤ _
        omega
      · rename_i hbusy
        refine (startReplay_busy ?_).le ?_
        · by_contra hnone
          apply hbusy
          rw [not_or, not_or, not_not, not_not, not_not] at hnone
          simp only at hnone
          simp [Subscriber.idle, hack, hnone.1, hnone.2.1, hnone.2.2]
        · show 0 + 16 * (s.sub.backlog + s.sub.asked) + 1 ≤ _
          omega
    exact ⟨h.store, h.tailSeq, h.paused, h.whole, h.cost⟩

theorem turn (s : Stream) :
    Comes (s.sub.wakes + 16 * (s.sub.backlog + s.sub.asked) + 1) s s.turn := by
  unfold Stream.turn
  split
  · refine ⟨rfl, rfl, rfl, trivial, ?_⟩
    show s.sub.wakes + 16 * (s.sub.backlog + s.sub.asked) ≤ _
    omega
  · rename_i hbusy
    have h := woken s
    rw [if_neg hbusy] at h
    exact h.le (by omega)

theorem settle (h : Comes bound s s') : Comes bound s s'.settle := by
  unfold Stream.settle
  split
  · rename_i htop
    have hturn := turn s'
    have hcost : s'.sub.wakes + 16 * (s'.sub.backlog + s'.sub.asked) + 2 ≤ bound := by
      have hbound := h.cost
      unfold Stream.cost at hbound
      rw [htop] at hbound
      exact hbound
    exact ⟨hturn.store.trans h.store, hturn.tailSeq.trans h.tailSeq, hturn.paused.trans h.paused,
      hturn.whole, by have := hturn.cost; omega⟩
  · exact h

end Comes

/-! ## Its own steps -/

/-- The send loop waits, and nothing wakes it. -/
def Drained (s : Stream) : Prop := s.sender = .waiting ∧ s.sub.wake = false

/-- A step of the send loop. -/
def Action.Own (action : Action) : Prop := action = .resume ∨ action = .replayRead

variable {p : Event → Bool} {base : ℕ} {s : Stream}

theorem Action.Own.stays {action : Action} (h : action.Own) : action.Stays := by
  rcases h with rfl | rfl <;> trivial

theorem Action.Own.guarded {action : Action} (h : action.Own) (p : Event → Bool) (s : Stream) :
    action.Guarded p s := by
  rcases h with rfl | rfl <;> trivial

/-- The last event of a window is still to be read. -/
theorem le_of_first (hordered : Log.InOrder Event.seq s.store) {cursor replayTo : ℕ} {e : Event}
    {rest : List Event} (hlt : cursor < replayTo) (hcovered : s.Covered replayTo)
    (hevents : e :: rest <+: Log.after Event.seq cursor s.store) : e.seq ≤ replayTo := by
  by_contra hbeyond
  have hnone := hordered.passed hevents (not_le.mp hbeyond)
  rcases hcovered.2 with h0 | ⟨last, hlast, hseq⟩
  · omega
  · have hmem : last ∈ Log.after Event.seq cursor (Log.upTo Event.seq replayTo s.store) := by
      simp only [Log.after, Log.upTo, List.mem_filter, decide_eq_true_eq]
      exact ⟨⟨hlast, hseq.le⟩, hseq ▸ hlt⟩
    rw [hnone] at hmem
    cases hmem

/-- A batch that is not empty takes the replay further. -/
theorem Comes.fetched (hs : s.Inv p base) {cursor replayTo : ℕ} {topics : Finset Topic}
    {e : Event} {rest : List Event} (hsender : s.sender = .fetched cursor replayTo topics (e :: rest)) :
    Comes (s.cost - 1) s (s.sendBatch replayTo topics cursor (e :: rest)) := by
  have hplaced := hs.placed
  simp only [hsender] at hplaced
  obtain ⟨hlt, hcovered, -, hevents, -⟩ := hplaced
  have hordered := (hs.core.ordered.after cursor).sublist hevents.sublist
  obtain ⟨hlater, hrest⟩ := List.pairwise_cons.mp hordered
  have hwithin := le_of_first hs.core.ordered hlt hcovered hevents
  have hafter : cursor < e.seq := by
    have hmem : e ∈ Log.after Event.seq cursor s.store := hevents.subset List.mem_cons_self
    simpa using (List.mem_filter.mp hmem).2
  have hcost : s.cost =
      s.sub.wakes + (16 * (s.sub.backlog + (replayTo - cursor) + 1) + 2) := by
    unfold Stream.cost
    rw [hsender]
  rw [Stream.sendBatch, if_neg (not_lt.mpr hwithin)]
  split
  · refine ⟨rfl, rfl, rfl, trivial, ?_⟩
    show s.sub.wakes + (16 * (s.sub.backlog + (replayTo - e.seq) + 1) + 4) ≤ _
    omega
  · have h := sendBatch replayTo topics
      { s with sub := { s.sub with lastSent := e.seq } } hrest hlater
    refine ⟨h.store, h.tailSeq, h.paused, h.whole, h.cost.trans ?_⟩
    show s.sub.wakes + 16 * (s.sub.backlog + (replayTo - e.seq) + 1) + 3 ≤ _
    omega

/-- The send loop goes on, unless it waits for a page. -/
theorem Comes.advance (hs : s.Inv p base) (hwhole : s.Whole) (hbusy : ¬s.Drained)
    (hreading : ∀ cursor replayTo topics, s.sender ≠ .reading cursor replayTo topics) :
    ∃ s', s.advance = some s' ∧ Comes (s.cost - 1) s s' := by
  unfold Stream.advance
  cases hsender : s.sender with
  | top =>
    refine ⟨_, rfl, (turn s).le ?_⟩
    simp only [Stream.cost, hsender]
    omega
  | beating =>
    refine ⟨_, rfl, (turn s).le ?_⟩
    simp only [Stream.cost, hsender]
    omega
  | waiting =>
    -- one that waits without a wake-up would be drained
    have hwake : s.sub.wake = true := by
      by_contra hnot
      exact hbusy ⟨hsender, by simpa using hnot⟩
    refine ⟨_, if_pos hwake, (woken s).le ?_⟩
    simp only [Stream.cost, hsender, Subscriber.wakes, hwake, if_true]
    split <;> omega
  | acking =>
    refine ⟨_, rfl, (startReplay s).le ?_⟩
    simp only [Stream.cost, hsender]
    omega
  | reading cursor replayTo topics => exact absurd hsender (hreading _ _ _)
  | fetched cursor replayTo topics events =>
    cases events with
    | nil =>
      refine ⟨_, rfl, (endReplay replayTo s).le ?_⟩
      simp only [Stream.cost, hsender]
      omega
    | cons e rest => exact ⟨_, rfl, Comes.fetched hs hsender⟩
  | replaying e replayTo topics rest =>
    have hplaced := hs.placed
    simp only [hsender] at hplaced
    -- the rest of the page lies after the event that was just sent
    have hordered := (hs.core.ordered.after e.seq).sublist hplaced.2.2.sublist
    have hafter : ∀ e' ∈ rest, e.seq < e'.seq := by
      intro e' he'
      simpa using (List.mem_filter.mp (hplaced.2.2.subset he')).2
    have h := sendBatch replayTo topics
      { s with
        sub := { s.sub with lastSent := e.seq }
        sender := .replaying e replayTo topics rest } hordered hafter
    refine ⟨_, rfl, h.store, h.tailSeq, h.paused, h.whole, h.cost.trans ?_⟩
    show s.sub.wakes + 16 * (s.sub.backlog + (replayTo - e.seq) + 1) + 3 ≤ _
    simp only [Stream.cost, hsender]
    omega
  | queued message =>
    have h := sendQueue
      { s with
        sub := { s.sub with lastSent := message.seq.getD s.sub.lastSent }
        sender := .queued message }
    refine ⟨_, rfl, h.store, h.tailSeq, h.paused, h.whole, h.cost.trans ?_⟩
    show s.sub.wakes + 16 * (s.sub.backlog + s.sub.asked) + 2 ≤ _
    simp only [Stream.cost, hsender]
    omega
  | slotted rest =>
    simp only [Whole, hsender] at hwhole
    refine ⟨_, rfl, (sendSlots hwhole).le ?_⟩
    simp only [Stream.cost, hsender]
    omega
  | dead =>
    simp only [Whole, hsender] at hwhole

/-- Until it has drained the send loop has a step, and less work after it. -/
theorem own_step (config : HubConfig) (hs : s.Inv p base) (hwhole : s.Whole)
    (hbusy : ¬s.Drained) :
    ∃ action s', action.Own ∧ step config s action = some s' ∧ Comes (s.cost - 1) s s' ∧
      s'.cost < s.cost := by
  have hpos : ∀ {s'}, Comes (s.cost - 1) s s' → 0 < s.cost → s'.cost < s.cost := by
    intro s' h hpos
    have := h.cost
    omega
  have hwork : 0 < s.cost := by
    unfold Stream.cost Subscriber.wakes
    cases hsender : s.sender with
    | waiting =>
      have hwake : s.sub.wake = true := by
        by_contra hnot
        exact hbusy ⟨hsender, by simpa using hnot⟩
      rw [if_pos hwake]
      omega
    | dead =>
      simp only [Whole, hsender] at hwhole
    | _ => simp only; omega
  by_cases hreading : ∃ cursor replayTo topics, s.sender = .reading cursor replayTo topics
  · obtain ⟨cursor, replayTo, topics, hsender⟩ := hreading
    let events := EventStore.read cursor (min config.batch (replayTo - cursor)) s.store
    have hcomes : Comes (s.cost - 1) s { s with
        sender := .fetched cursor replayTo topics events } := by
      refine ⟨rfl, rfl, rfl, trivial, ?_⟩
      show s.sub.wakes + (16 * (s.sub.backlog + (replayTo - cursor) + 1) + 2) ≤ _
      simp only [Stream.cost, hsender]
      omega
    refine ⟨.replayRead, _, .inr rfl, ?_, hcomes, hpos hcomes hwork⟩
    simp only [step, hsender]
    rfl
  · obtain ⟨s', hs', hcomes⟩ := Comes.advance hs hwhole hbusy
      fun cursor replayTo topics heq => hreading ⟨cursor, replayTo, topics, heq⟩
    have hsettled := hcomes.settle
    refine ⟨.resume, s'.settle, .inl rfl, ?_, hsettled, hpos hsettled hwork⟩
    simp only [step, hs', Option.map_some]

/-- Left alone, the send loop drains. -/
theorem drains (config : HubConfig) (hs : s.Inv p base) (hwhole : s.Whole) :
    ∃ own s', (∀ action ∈ own, action.Own) ∧ run config s own = some s' ∧ s'.Drained ∧
      s'.Inv p base ∧ s'.store = s.store ∧ s'.tailSeq = s.tailSeq ∧
      s'.sub.paused = s.sub.paused := by
  induction hcost : s.cost using Nat.strong_induction_on generalizing s with
  | _ n ih =>
    by_cases hdone : s.Drained
    · exact ⟨[], s, by simp, rfl, hdone, hs, rfl, rfl, rfl⟩
    · obtain ⟨action, next, hown, hstep, hcomes, hless⟩ := own_step config hs hwhole hdone
      have hnext := hs.step hstep hown.stays (hown.guarded p s)
      obtain ⟨own, s', hall, hrun, hdrained, hinv, hstore, htail, hpaused⟩ :=
        ih next.cost (hcost ▸ hless) hnext hcomes.whole rfl
      refine ⟨action :: own, s', ?_, ?_, hdrained, hinv, hstore.trans hcomes.store,
        htail.trans hcomes.tailSeq, hpaused.trans hcomes.paused⟩
      · intro a ha
        rcases List.mem_cons.mp ha with rfl | ha
        · exact hown
        · exact hall a ha
      · rw [run, hstep]
        exact hrun

end Stream

end RakshaQuant
