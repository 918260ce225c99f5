import RakshaQuant.Web.Continuing

/-! The browser over connections that are dropped. What is in its batch goes on from its position
without leaving out an event, and so does what the connection has sent and not delivered. A
subscription without replay breaks that where an event was stored before it. -/

namespace RakshaQuant

/-! ## The store grows -/

/-- A new event is stored, or none. -/
def Grows (store store' : List Event) : Prop :=
  store' = store ∨ ∃ e, EventStore.lastSeq store < e.seq ∧ store' = store ++ [e]

namespace Grows

variable {store store' applied : List Event} {n position x : ℕ} {batch : List Message}

theorem mem (h : Grows store store') {e : Event} (he : e ∈ store) : e ∈ store' := by
  rcases h with rfl | ⟨new, -, rfl⟩
  · exact he
  · exact List.mem_append_left _ he

theorem le (h : Grows store store') : EventStore.lastSeq store ≤ EventStore.lastSeq store' := by
  rcases h with rfl | ⟨new, hnew, rfl⟩
  · exact le_rfl
  · exact lastSeq_concat hnew

theorem known (h : Grows store store') {m : Message} (hm : m.Known store) : m.Known store' := by
  rcases h with rfl | ⟨new, hnew, rfl⟩
  · exact hm
  · exact hm.stored hnew

theorem clear (h : Grows store store') (hclear : Clear store n position x)
    (hx : x ≤ EventStore.lastSeq store) : Clear store' n position x := by
  rcases h with rfl | ⟨new, hnew, rfl⟩
  · exact hclear
  · exact hclear.stored hx hnew

theorem continueFrom (h : Grows store store') (hbatch : ContinueFrom store n position batch)
    (hknown : ∀ m ∈ batch, m.Known store) : ContinueFrom store' n position batch := by
  rcases h with rfl | ⟨new, hnew, rfl⟩
  · exact hbatch
  · exact hbatch.stored hknown hnew

theorem holds (h : Grows store store') (hholds : Holds store n position applied)
    (hle : position ≤ EventStore.lastSeq store) : Holds store' n position applied := by
  rcases h with rfl | ⟨new, hnew, rfl⟩
  · exact hholds
  · exact hholds.stored hle hnew

end Grows

/-! ## The store and what is sent -/

namespace Stream

variable {s s' : Stream}

/-- Messages are sent, and the store stays. -/
structure Sends (s s' : Stream) : Prop where
  store : s'.store = s.store
  sent : s.sent <+: s'.sent

namespace Sends

theorem refl (s : Stream) : s.Sends s := ⟨rfl, List.prefix_rfl⟩

theorem send (m : Message) (place : Sender) (s : Stream) : s.Sends (s.send m place) :=
  ⟨rfl, List.prefix_append _ _⟩

theorem sendSlots (topics : List Topic) (s : Stream) : s.Sends (s.sendSlots topics) := by
  unfold Stream.sendSlots
  split
  · exact ⟨rfl, List.prefix_rfl⟩
  · split
    · exact ⟨rfl, List.prefix_rfl⟩
    · exact ⟨rfl, List.prefix_append _ _⟩

theorem sendQueue (s : Stream) : s.Sends s.sendQueue := by
  unfold Stream.sendQueue
  split
  · exact sendSlots _ s
  · exact ⟨rfl, List.prefix_append _ _⟩

theorem endReplay (replayTo : ℕ) (s : Stream) : s.Sends (s.endReplay replayTo) := by
  unfold Stream.endReplay
  have h := sendQueue { s with sub := { s.sub with
    replay := none, lastSent := max s.sub.lastSent replayTo } }
  exact ⟨h.store, h.sent⟩

theorem sendReplay (cursor replayTo : ℕ) (topics : Finset Topic) (s : Stream) :
    s.Sends (s.sendReplay cursor replayTo topics) := by
  unfold Stream.sendReplay
  split
  · exact ⟨rfl, List.prefix_rfl⟩
  · exact endReplay replayTo s

theorem endBatch (cursor replayTo : ℕ) (topics : Finset Topic) (s : Stream) :
    s.Sends (s.endBatch cursor replayTo topics) := by
  unfold Stream.endBatch
  split
  · exact sendQueue s
  · have h := sendReplay cursor replayTo topics
      { s with sub := { s.sub with replay := some (cursor, replayTo) } }
    exact ⟨h.store, h.sent⟩

theorem sendBatch (replayTo : ℕ) (topics : Finset Topic) (cursor : ℕ) (events : List Event)
    (s : Stream) : s.Sends (s.sendBatch replayTo topics cursor events) := by
  induction events generalizing cursor s with
  | nil => exact endBatch cursor replayTo topics s
  | cons e rest ih =>
    unfold Stream.sendBatch
    split
    · exact endBatch cursor replayTo topics s
    · split
      · exact send _ _ s
      · have h := ih e.seq { s with sub := { s.sub with lastSent := e.seq } }
        exact ⟨h.store, h.sent⟩

theorem startReplay (s : Stream) : s.Sends s.startReplay := by
  unfold Stream.startReplay
  split
  · exact sendQueue s
  · exact sendReplay _ _ _ s

theorem woken (s : Stream) : s.Sends s.woken := by
  unfold Stream.woken
  split
  · have h := startReplay { s with sub := { s.sub with wake := false } }
    exact ⟨h.store, h.sent⟩
  · exact ⟨rfl, List.prefix_append _ _⟩

theorem turn (s : Stream) : s.Sends s.turn := by
  unfold Stream.turn
  split
  · exact ⟨rfl, List.prefix_rfl⟩
  · exact woken s

theorem settle (s : Stream) : s.Sends s.settle := by
  unfold Stream.settle
  split
  · exact turn s
  · exact refl s

theorem trans {s'' : Stream} (h : s.Sends s') (h' : s'.Sends s'') : s.Sends s'' :=
  ⟨h'.store.trans h.store, h.sent.trans h'.sent⟩

theorem advance (h : s.advance = some s') : s.Sends s' := by
  unfold Stream.advance at h
  cases hat : s.sender with
  | top | beating =>
    rw [hat, Option.some.injEq] at h
    exact h ▸ turn s
  | waiting =>
    simp only [hat] at h
    split at h
    · cases h
      exact woken s
    · cases h
  | acking =>
    rw [hat, Option.some.injEq] at h
    exact h ▸ startReplay s
  | reading | dead =>
    rw [hat] at h
    cases h
  | fetched cursor replayTo topics events =>
    simp only [hat, Option.some.injEq] at h
    subst h
    split
    · exact endReplay replayTo s
    · exact sendBatch replayTo topics cursor events s
  | replaying event replayTo topics rest =>
    rw [hat, Option.some.injEq] at h
    subst h
    have hsent := sendBatch replayTo topics event.seq rest { s with
      sub := { s.sub with lastSent := event.seq }
      sender := .replaying event replayTo topics rest }
    exact ⟨hsent.store, hsent.sent⟩
  | queued message =>
    rw [hat, Option.some.injEq] at h
    subst h
    have hsent := sendQueue { s with
      sub := { s.sub with lastSent := message.seq.getD s.sub.lastSent }
      sender := .queued message }
    exact ⟨hsent.store, hsent.sent⟩
  | slotted rest =>
    rw [hat, Option.some.injEq] at h
    exact h ▸ sendSlots rest s

end Sends

/-- A step stores a new event or none, and takes back nothing that was sent. -/
theorem step_grows {config : HubConfig} {action : Action}
    (h : step config s action = some s') :
    Grows s.store s'.store ∧ s.sent <+: s'.sent := by
  cases action with
  | append event =>
    simp only [step] at h
    split at h
    · rename_i hseq
      cases h
      exact ⟨.inr ⟨event, hseq, rfl⟩, List.prefix_rfl⟩
    · cases h
  | subscribe | publish =>
    cases h
    exact ⟨.inl rfl, List.prefix_rfl⟩
  | announce kind data =>
    simp only [step, Option.some.injEq] at h
    subst h
    split
    · exact ⟨.inl rfl, List.prefix_rfl⟩
    · exact ⟨.inl rfl, List.prefix_rfl⟩
  | poll | tailRead | tailFailed =>
    simp only [step] at h
    split at h
    · cases h
      exact ⟨.inl rfl, List.prefix_rfl⟩
    · cases h
  | tailResume =>
    simp only [step] at h
    split at h
    · cases h
      unfold fanOut
      split
      · exact ⟨.inl rfl, List.prefix_rfl⟩
      · exact ⟨.inl rfl, List.prefix_rfl⟩
    · cases h
  | timeout =>
    simp only [step] at h
    split at h
    · cases h
      exact ⟨.inl rfl, List.prefix_append _ _⟩
    · cases h
  | replayRead =>
    simp only [step] at h
    split at h
    · cases h
      exact ⟨.inl rfl, List.prefix_rfl⟩
    · cases h
  | replayFailed =>
    simp only [step] at h
    split at h
    · rename_i cursor replayTo topics _
      cases h
      -- the loop goes round again from the same cursor
      have hsends := (Sends.sendReplay cursor replayTo topics s).trans (Sends.settle _)
      exact ⟨.inl hsends.store, hsends.sent⟩
    · cases h
  | resume =>
    simp only [step, Option.map_eq_some_iff] at h
    obtain ⟨next, hnext, rfl⟩ := h
    have hsends := (Sends.advance hnext).trans (Sends.settle next)
    exact ⟨.inl hsends.store, hsends.sent⟩

end Stream

namespace Stream

variable {s : Stream}

/-- A connection that is new leaves the hub as it was. -/
theorem Inv.accept (h : s.Inv (fun _ => false) 0) : s.accept.Inv (fun _ => false) 0 := by
  have hcore := h.core
  constructor
  · exact ⟨hcore.ordered, hcore.begun, fun _ h => (nomatch h), hcore.stands, hcore.tails,
      fun _ _ h => (nomatch h), le_rfl, fun _ _ h => (nomatch h)⟩
  · trivial

end Stream

/-! ## What holds in every run -/

/-- What is sent at a place of a flow may come where the messages before it have come to. -/
theorem Flow.get {store : List Event} {q k : ℕ} {messages : List Message} {m : Message}
    (h : Flow store q messages) (hm : messages[k]? = some m) :
    m.Follows store (reached q (messages.take k)) := by
  induction messages generalizing q k with
  | nil => cases hm
  | cons m' rest ih =>
    cases k with
    | zero =>
      cases hm
      exact h.1
    | succ k => exact ih h.2 hm

namespace Browsing

/-- The position of the browser after what is in its batch. -/
def position (b : Browsing) : ℕ := ahead b.client.state.lastSeq b.client.pending

/-- The parties agree on what the store has, and a connection that is subscribed is fed. -/
structure Consistent (b : Browsing) : Prop where
  inv : b.server.Inv (fun _ => false) 0
  fresh : b.asked ≠ none → b.server.Fresh
  fed : b.client.link = .opened → b.asked = none → ∃ base, b.server.Fed base
  delivered : b.client.link = .opened → b.delivered ≤ b.server.sent.length
  pending : ∀ m ∈ b.client.pending, m.Known b.server.store
  lastSeq : b.client.state.lastSeq ≤ EventStore.lastSeq b.server.store
  asked : ∀ x, b.asked = some x → x = noReplay ∨ x ≤ EventStore.lastSeq b.server.store
  resumeFrom : ∀ x, b.client.resumeFrom = some x → x ≤ EventStore.lastSeq b.server.store
  applied : ∀ e ∈ b.applied, e ∈ b.server.store

/-- What is received, to be received or asked for leaves out nothing stored since `n`. -/
structure Gapless (n : ℕ) (b : Browsing) : Prop where
  applied : Holds b.server.store n b.client.state.lastSeq b.applied
  pending : ContinueFrom b.server.store n b.client.state.lastSeq b.client.pending
  asked : ∀ x, b.asked = some x → x ≠ noReplay → Clear b.server.store n b.position x
  resumeFrom : ∀ x, b.client.resumeFrom = some x → Clear b.server.store n b.position x
  fed : b.client.link = .opened → b.asked = none → ∃ base, b.server.Fed base ∧
    Clear b.server.store n b.position (reached base (b.server.sent.take b.delivered))

variable {config : HubConfig} {b b' : Browsing} {n : ℕ}

/-! ### The server goes on -/

theorem step_server {action : Stream.Action} (h : step config b (.server action) = some b') :
    ∃ s', Stream.step config b.server action = some s' ∧ action.Stays ∧
      b' = { b with server := s' } := by
  cases action with
  | subscribe topics since => cases h
  | _ =>
    simp only [step, Option.map_eq_some_iff] at h
    obtain ⟨s', hs', rfl⟩ := h
    exact ⟨s', hs', trivial, rfl⟩

namespace Consistent

theorem server {action : Stream.Action} {s' : Stream} (h : b.Consistent)
    (hstep : Stream.step config b.server action = some s') (hstays : action.Stays) :
    Consistent { b with server := s' } := by
  obtain ⟨hgrows, hsent⟩ := Stream.step_grows hstep
  refine ⟨h.inv.kept hstep, fun hasked => (h.fresh hasked).step hstep hstays, ?_, ?_, ?_, ?_, ?_,
    ?_, ?_⟩
  · intro hopened hasked
    obtain ⟨base, hfed⟩ := h.fed hopened hasked
    exact ⟨base, hfed.step h.inv hstep hstays⟩
  · exact fun hopened => (h.delivered hopened).trans hsent.length_le
  · exact fun m hm => hgrows.known (h.pending m hm)
  · exact h.lastSeq.trans hgrows.le
  · exact fun x hx => (h.asked x hx).imp id fun hle => hle.trans hgrows.le
  · exact fun x hx => (h.resumeFrom x hx).trans hgrows.le
  · exact fun e he => hgrows.mem (h.applied e he)

theorem opens (h : b.Consistent) :
    Consistent { b with
      server := b.server.accept, client := b.client.onopen, asked := some b.client.since
      delivered := 0 } := by
  refine ⟨h.inv.accept, fun _ => .accept _, fun _ hasked => (nomatch hasked), fun _ => le_rfl,
    h.pending, h.lastSeq, ?_, fun x hx => (nomatch hx), h.applied⟩
  intro x hx
  cases hx
  unfold StreamClient.since
  cases hresume : b.client.resumeFrom with
  | some since => exact .inr (h.resumeFrom since hresume)
  | none =>
    show (if 0 < b.client.state.lastSeq then _ else _) = noReplay ∨ _
    split
    · exact .inr h.lastSeq
    · exact .inl rfl

theorem subscribes {since : ℕ} (h : b.Consistent) (hasked : b.asked = some since) :
    Consistent { b with server := b.server.subscribed streamTopics since, asked := none } := by
  have hfresh : b.server.Fresh := h.fresh (by simp [hasked])
  exact ⟨h.inv.resubscribed streamTopics since, fun hasked => absurd rfl hasked,
    fun _ _ => ⟨_, hfresh.subscribed h.inv since⟩, h.delivered, h.pending, h.lastSeq,
    fun _ hx => (nomatch hx), h.resumeFrom, h.applied⟩

/-- What is delivered is known. -/
theorem sent_known {m : Message} (h : b.Consistent) (hopened : b.client.link = .opened)
    (hm : b.server.sent[b.delivered]? = some m) : m.Known b.server.store := by
  by_cases hasked : b.asked = none
  · obtain ⟨base, hfed⟩ := h.fed hopened hasked
    obtain ⟨top, hfeed⟩ := hfed.feed
    exact (hfeed.sent.get hm).known
  · obtain ⟨nt, rfl, hplain⟩ := (h.fresh hasked).sent m (List.mem_of_getElem? hm)
    exact (hplain.follows b.server.store 0).known

theorem delivers {m : Message} (h : b.Consistent) (hopened : b.client.link = .opened)
    (hm : b.server.sent[b.delivered]? = some m) :
    Consistent { b with client := b.client.onmessage m, delivered := b.delivered + 1 } := by
  refine ⟨h.inv, h.fresh, h.fed, fun _ => (List.getElem?_eq_some_iff.mp hm).1, ?_, h.lastSeq,
    h.asked, h.resumeFrom, h.applied⟩
  intro m' hm'
  rcases List.mem_append.mp hm' with hold | hnew
  · exact h.pending m' hold
  · rw [List.mem_singleton.mp hnew]
    exact h.sent_known hopened hm

theorem drops (h : b.Consistent) (refused : Bool) :
    Consistent { b with client := b.client.onclose refused, asked := none } := by
  unfold StreamClient.onclose
  split
  · exact ⟨h.inv, fun hasked => absurd rfl hasked, fun hopened => (nomatch hopened),
      fun hopened => (nomatch hopened), h.pending, h.lastSeq, fun _ hx => (nomatch hx),
      h.resumeFrom, h.applied⟩
  · exact ⟨h.inv, fun hasked => absurd rfl hasked, fun hopened => (nomatch hopened),
      fun hopened => (nomatch hopened), h.pending, h.lastSeq, fun _ hx => (nomatch hx),
      h.resumeFrom, h.applied⟩

end Consistent

/-! ### A batch is applied -/

/-- The position after a flush is the one after the batch. -/
theorem Consistent.flush_lastSeq (h : b.Consistent) (now : Instant) :
    (b.client.flush now).state.lastSeq = b.position := by
  have hlast : (b.client.flush now).state.lastSeq =
      (gather b.client.state b.client.pending).lastSeq := by
    simp only [StreamClient.flush]
    split
    · rfl
    · rfl
  rw [hlast]
  exact gather_lastSeq h.pending (.of b.client.state)

theorem flush_pending (c : StreamClient) (now : Instant) : (c.flush now).pending = [] := by
  simp only [StreamClient.flush]
  split
  · rfl
  · rfl

/-- After a resync the client asks to resume from there. -/
theorem flush_resumeFrom {c : StreamClient} {now : Instant} {x : ℕ}
    (h : (c.flush now).resumeFrom = some x) :
    (∃ r, (gather c.state c.pending).resync = some r ∧ r.sinceSeq = x) ∨
      c.resumeFrom = some x := by
  simp only [StreamClient.flush] at h
  split at h
  · exact .inr h
  · rename_i r hresync
    cases h
    exact .inl ⟨r, hresync, rfl⟩

theorem flush_opened {c : StreamClient} {now : Instant} (h : (c.flush now).link = .opened) :
    c.link = .opened := by
  simp only [StreamClient.flush] at h
  split at h
  · exact h
  · dsimp only at h
    cases hlink : c.link with
    | opened => rfl
    | none | waiting | connecting | closing =>
      rw [hlink] at h
      cases h

theorem Consistent.flushes (h : b.Consistent) (now : Instant) : (b.flushed now).Consistent := by
  obtain ⟨hfresh, hresync⟩ := gather_known (g := .of b.client.state) h.pending
    (fun e he => absurd he List.not_mem_nil) fun r hr => (nomatch hr)
  refine ⟨h.inv, h.fresh, fun hopened => h.fed (flush_opened hopened),
    fun hopened => h.delivered (flush_opened hopened), ?_, ?_, h.asked, ?_, ?_⟩
  · intro m hm
    rw [show (b.flushed now).client.pending = [] from flush_pending b.client now] at hm
    cases hm
  · show (b.client.flush now).state.lastSeq ≤ _
    rw [h.flush_lastSeq now]
    exact ahead_le h.pending h.lastSeq
  · intro x hx
    rcases flush_resumeFrom hx with ⟨r, hr, rfl⟩ | hold
    · exact hresync r hr
    · exact h.resumeFrom x hold
  · intro e he
    rcases List.mem_append.mp he with hold | hnew
    · exact h.applied e hold
    · exact hfresh e hnew

theorem Consistent.step {action : Action} (h : b.Consistent)
    (hstep : Browsing.step config b action = some b') : b'.Consistent := by
  cases action with
  | server action =>
    obtain ⟨s', hs', hstays, rfl⟩ := step_server hstep
    exact h.server hs' hstays
  | opens =>
    simp only [Browsing.step] at hstep
    split at hstep
    · cases hstep
      exact h.opens
    · cases hstep
  | subscribes =>
    simp only [Browsing.step, Option.map_eq_some_iff] at hstep
    obtain ⟨since, hasked, rfl⟩ := hstep
    exact h.subscribes hasked
  | delivers =>
    simp only [Browsing.step] at hstep
    split at hstep
    · rename_i hopened
      obtain ⟨m, hm, rfl⟩ := Option.map_eq_some_iff.mp hstep
      exact h.delivers hopened hm
    · cases hstep
  | flushes now =>
    simp only [Browsing.step] at hstep
    split at hstep
    · cases hstep
      exact h.flushes now
    · cases hstep
  | drops refused =>
    simp only [Browsing.step] at hstep
    split at hstep
    · cases hstep
      exact h.drops refused
    · cases hstep
  | connects =>
    simp only [Browsing.step] at hstep
    split at hstep
    · cases hstep
      exact ⟨h.inv, h.fresh, fun hopened => (nomatch hopened), fun hopened => (nomatch hopened),
        h.pending, h.lastSeq, h.asked, h.resumeFrom, h.applied⟩
    · cases hstep

/-! ### Without a gap -/

theorem lastSeq_le_position (b : Browsing) : b.client.state.lastSeq ≤ b.position := le_ahead _ _

/-- A message that is in the batch is not beyond the position. -/
theorem le_position {e : Event} (h : .envelope e ∈ b.client.pending) : e.seq ≤ b.position :=
  le_ahead_of_mem h

namespace Gapless

theorem server {action : Stream.Action} {s' : Stream} (h : b.Gapless n) (hc : b.Consistent)
    (hstep : Stream.step config b.server action = some s') (hstays : action.Stays) :
    Gapless n { b with server := s' } := by
  obtain ⟨hgrows, hsent⟩ := Stream.step_grows hstep
  refine ⟨hgrows.holds h.applied hc.lastSeq, hgrows.continueFrom h.pending hc.pending, ?_, ?_, ?_⟩
  · intro x hx hne
    have hle := (hc.asked x hx).resolve_left hne
    exact hgrows.clear (h.asked x hx hne) hle
  · exact fun x hx => hgrows.clear (h.resumeFrom x hx) (hc.resumeFrom x hx)
  · intro hopened hasked
    obtain ⟨base, hfed, hclear⟩ := h.fed hopened hasked
    refine ⟨base, hfed.step hc.inv hstep hstays, ?_⟩
    -- what was delivered was sent before
    obtain ⟨more, hmore⟩ := hsent
    have htake : s'.sent.take b.delivered = b.server.sent.take b.delivered := by
      rw [← hmore, List.take_append_of_le_length (hc.delivered hopened)]
    obtain ⟨top, hfeed⟩ := hfed.feed
    have hflow := hfeed.sent
    rw [← List.take_append_drop b.delivered b.server.sent, flow_append] at hflow
    show Clear s'.store n b.position (reached base (s'.sent.take b.delivered))
    rw [htake]
    exact hgrows.clear hclear (hflow.1.reached_le hfeed.base)

theorem opens (h : b.Gapless n) :
    Gapless n { b with
      server := b.server.accept, client := b.client.onopen, asked := some b.client.since
      delivered := 0 } := by
  refine ⟨h.applied, h.pending, ?_, fun x hx => (nomatch hx), fun _ hasked => (nomatch hasked)⟩
  intro x hx hne
  cases hx
  show Clear b.server.store n b.position b.client.since
  cases hresume : b.client.resumeFrom with
  | some since =>
    have hsince : b.client.since = since := by
      rw [StreamClient.since, hresume]
      rfl
    rw [hsince]
    exact h.resumeFrom since hresume
  | none =>
    have hsince : b.client.since = b.client.state.lastSeq := by
      rw [StreamClient.since, hresume] at hne ⊢
      simp only [Option.getD_none] at hne ⊢
      split at hne
      · rename_i hpos
        rw [if_pos hpos]
      · exact absurd rfl hne
    rw [hsince]
    exact Clear.self _ n b.lastSeq_le_position

/-- The subscription is received. Without replay, what it passes over has arrived. -/
theorem subscribes {since : ℕ} (h : b.Gapless n) (hc : b.Consistent) (hfirst : b.first = some n)
    (hasked : b.asked = some since) (hresumes : since ≠ noReplay ∨ b.Arrived = true) :
    Gapless n { b with server := b.server.subscribed streamTopics since, asked := none } := by
  have hfresh : b.server.Fresh := hc.fresh (by simp [hasked])
  refine ⟨h.applied, h.pending, fun _ hx => (nomatch hx), h.resumeFrom, fun hopened _ => ?_⟩
  refine ⟨_, hfresh.subscribed hc.inv since, ?_⟩
  -- nothing of the connection was sent yet
  have hnotices : Notices (b.server.sent.take b.delivered) := by
    intro m hm
    obtain ⟨nt, rfl, -⟩ := hfresh.sent m (List.mem_of_mem_take hm)
    rfl
  show Clear b.server.store n b.position
    (reached (min since b.server.head) (b.server.sent.take b.delivered))
  rw [hnotices.reached]
  intro e he hn hle
  obtain ⟨hsince, hhead⟩ := le_min_iff.mp hle
  rcases hresumes with hne | harrived
  · exact h.asked since hasked hne e he hn hsince
  · rcases of_decide_eq_true harrived n hfirst e he hn hhead with happlied | hpending
    · refine le_trans ?_ b.lastSeq_le_position
      have hmem : e ∈ Log.after Event.seq n b.applied :=
        List.mem_filter.mpr ⟨happlied, by simpa using hn⟩
      rw [h.applied] at hmem
      simpa using (List.mem_filter.mp (List.mem_filter.mp hmem).1).2
    · exact le_position hpending

theorem delivers {m : Message} (h : b.Gapless n) (hc : b.Consistent)
    (hopened : b.client.link = .opened) (hm : b.server.sent[b.delivered]? = some m) :
    Gapless n { b with client := b.client.onmessage m, delivered := b.delivered + 1 } := by
  have hposition : Browsing.position
      { b with client := b.client.onmessage m, delivered := b.delivered + 1 } =
        m.advance b.position := ahead_concat _ _ _
  have hahead : b.position ≤ m.advance b.position := m.le_advance _
  have htake : b.server.sent.take (b.delivered + 1) = b.server.sent.take b.delivered ++ [m] := by
    rw [List.take_add_one, hm]
    rfl
  have hm' : m.Continues b.server.store n b.position ∧ (b.asked = none → ∃ base,
      b.server.Fed base ∧ Clear b.server.store n (m.advance b.position)
        (reached base (b.server.sent.take (b.delivered + 1)))) := by
    by_cases hasked : b.asked = none
    · obtain ⟨base, hfed, hclear⟩ := h.fed hopened hasked
      obtain ⟨top, hfeed⟩ := hfed.feed
      obtain ⟨hcontinues, hclear'⟩ := (hfeed.sent.get hm).continues hclear
      refine ⟨hcontinues, fun _ => ⟨base, hfed, ?_⟩⟩
      rw [htake, reached_concat]
      exact hclear'
    · obtain ⟨nt, rfl, hplain⟩ := (hc.fresh hasked).sent m (List.mem_of_getElem? hm)
      exact ⟨hplain.continues _ _ _, fun hnone => absurd hnone hasked⟩
  refine ⟨h.applied, continueFrom_concat.mpr ⟨h.pending, hm'.1⟩, ?_, ?_, fun _ hasked => ?_⟩
  · intro x hx hne
    rw [hposition]
    exact (h.asked x hx hne).mono hahead
  · intro x hx
    rw [hposition]
    exact (h.resumeFrom x hx).mono hahead
  · rw [hposition]
    exact hm'.2 hasked

theorem flushes (h : b.Gapless n) (hc : b.Consistent) (now : Instant) :
    (b.flushed now).Gapless n := by
  have hlast := hc.flush_lastSeq now
  have hposition : (b.flushed now).position = b.position := by
    show ahead (b.client.flush now).state.lastSeq (b.client.flush now).pending = b.position
    rw [flush_pending, hlast]
    rfl
  have happlied : Holds b.server.store n (Gathered.of b.client.state).lastSeq
      (b.applied ++ (Gathered.of b.client.state).fresh) := by
    show Holds b.server.store n b.client.state.lastSeq (b.applied ++ [])
    rw [List.append_nil]
    exact h.applied
  obtain ⟨hholds, hresync⟩ := gather_holds (g := .of b.client.state) hc.inv.core.ordered
    hc.pending h.pending happlied fun r hr => (nomatch hr)
  have hgathered : (b.client.pending.foldl Gathered.add (.of b.client.state)).lastSeq =
      b.position := gather_lastSeq hc.pending _
  rw [hgathered] at hholds hresync
  refine ⟨?_, ?_, ?_, ?_, ?_⟩
  · show Holds b.server.store n (b.client.flush now).state.lastSeq _
    rw [hlast]
    exact hholds
  · show ContinueFrom _ _ _ (b.client.flush now).pending
    rw [flush_pending]
    trivial
  · rw [hposition]
    exact h.asked
  · intro x hx
    rw [hposition]
    rcases flush_resumeFrom hx with ⟨r, hr, rfl⟩ | hold
    · exact hresync r hr
    · exact h.resumeFrom x hold
  · intro hopened
    rw [hposition]
    exact h.fed (flush_opened hopened)

/-- Since the last event nothing was stored. -/
theorem begins (hc : b.Consistent) : b.Gapless (EventStore.lastSeq b.server.store) := by
  refine ⟨.last hc.applied, continueFrom_last _ _ _, fun _ _ _ => .last _ _ _,
    fun _ _ => .last _ _ _, fun hopened hasked => ?_⟩
  obtain ⟨base, hfed⟩ := hc.fed hopened hasked
  exact ⟨base, hfed, .last _ _ _⟩

theorem drops (h : b.Gapless n) (refused : Bool) :
    Gapless n { b with client := b.client.onclose refused, asked := none } := by
  unfold StreamClient.onclose
  split
  · exact ⟨h.applied, h.pending, fun _ hx => (nomatch hx), h.resumeFrom,
      fun hopened => (nomatch hopened)⟩
  · exact ⟨h.applied, h.pending, fun _ hx => (nomatch hx), h.resumeFrom,
      fun hopened => (nomatch hopened)⟩

end Gapless

/-- What an action of a run that resumes is: a subscription without replay misses nothing. -/
def Action.Resumes (b : Browsing) (action : Action) : Prop :=
  action = .subscribes → b.asked ≠ some noReplay ∨ b.Arrived = true

/-- **One step.** What was stored since the first `subscribed` is not left out. -/
theorem Gapless.step {action : Action} (hc : b.Consistent) (h : ∀ n ∈ b.first, b.Gapless n)
    (hresumes : action.Resumes b) (hstep : Browsing.step config b action = some b') :
    ∀ n ∈ b'.first, b'.Gapless n := by
  intro n hn
  cases action with
  | server action =>
    obtain ⟨s', hs', hstays, rfl⟩ := step_server hstep
    exact (h n hn).server hc hs' hstays
  | opens =>
    simp only [Browsing.step] at hstep
    split at hstep
    · cases hstep
      exact (h n hn).opens
    · cases hstep
  | subscribes =>
    simp only [Browsing.step, Option.map_eq_some_iff] at hstep
    obtain ⟨since, hasked, rfl⟩ := hstep
    refine (h n hn).subscribes hc hn hasked ((hresumes rfl).imp_left fun hne hsince => ?_)
    exact hne (hsince ▸ hasked)
  | delivers =>
    simp only [Browsing.step] at hstep
    split at hstep
    · rename_i hopened
      obtain ⟨m, hm, rfl⟩ := Option.map_eq_some_iff.mp hstep
      exact (h n hn).delivers hc hopened hm
    · cases hstep
  | flushes now =>
    simp only [Browsing.step] at hstep
    split at hstep
    · cases hstep
      cases hfirst : b.first with
      | some k =>
        have hsame : (b.flushed now).first = some k := by
          rw [flushed, hfirst]
          rfl
        rw [hsame] at hn
        cases hn
        exact (h n hfirst).flushes hc now
      | none =>
        -- the window begins here, or not yet
        have hlast : n = EventStore.lastSeq (b.flushed now).server.store := by
          simp only [flushed, hfirst, Option.orElse_none, Option.mem_def] at hn
          split at hn
          · exact (Option.some.inj hn).symm
          · cases hn
        rw [hlast]
        exact Gapless.begins (hc.flushes now)
    · cases hstep
  | drops refused =>
    simp only [Browsing.step] at hstep
    split at hstep
    · cases hstep
      exact (h n hn).drops refused
    · cases hstep
  | connects =>
    simp only [Browsing.step] at hstep
    split at hstep
    · cases hstep
      have hgapless := h n hn
      exact ⟨hgapless.applied, hgapless.pending, hgapless.asked, hgapless.resumeFrom,
        fun hopened => (nomatch hopened)⟩
    · cases hstep

/-! ## Runs -/

theorem Consistent.init {store : List Event} (hordered : Log.InOrder Event.seq store)
    (queueMax : ℕ) : (Browsing.init store queueMax).Consistent := by
  refine ⟨Stream.inv_init hordered queueMax, fun hasked => absurd rfl hasked,
    fun hopened => (nomatch hopened), fun hopened => (nomatch hopened),
    fun _ hm => absurd hm List.not_mem_nil, Nat.zero_le _, fun _ hx => (nomatch hx),
    fun _ hx => (nomatch hx), fun _ he => absurd he List.not_mem_nil⟩

theorem Consistent.run {actions : List Action} (h : b.Consistent)
    (hrun : Browsing.run config b actions = some b') : b'.Consistent := by
  induction actions generalizing b with
  | nil =>
    cases hrun
    exact h
  | cons action rest ih =>
    obtain ⟨next, hnext, hrest⟩ := Option.bind_eq_some_iff.mp hrun
    exact ih (h.step hnext) hrest

theorem resumes_cons {action : Action} {rest : List Action}
    (h : Resumes config b (action :: rest) = true) :
    action.Resumes b ∧
      ∀ b', Browsing.step config b action = some b' → Resumes config b' rest = true := by
  obtain ⟨hnow, hrest⟩ := Bool.and_eq_true_iff.mp h
  constructor
  · rintro rfl
    simpa using hnow
  · intro b' hb'
    rw [hb'] at hrest
    exact hrest

theorem Gapless.run {actions : List Action} (hc : b.Consistent) (h : ∀ n ∈ b.first, b.Gapless n)
    (hresumes : Resumes config b actions = true)
    (hrun : Browsing.run config b actions = some b') : ∀ n ∈ b'.first, b'.Gapless n := by
  induction actions generalizing b with
  | nil =>
    cases hrun
    exact h
  | cons action rest ih =>
    obtain ⟨next, hnext, hrest⟩ := Option.bind_eq_some_iff.mp hrun
    obtain ⟨hnow, hlater⟩ := resumes_cons hresumes
    exact ih (hc.step hnext) (Gapless.step hc h hnow hnext) (hlater next hnext) hrest

/-- The position does not go back. -/
theorem lastSeq_step {action : Action} (hc : b.Consistent)
    (hstep : Browsing.step config b action = some b') :
    b.client.state.lastSeq ≤ b'.client.state.lastSeq := by
  cases action with
  | server action =>
    obtain ⟨s', -, -, rfl⟩ := step_server hstep
    exact le_rfl
  | flushes now =>
    simp only [Browsing.step] at hstep
    split at hstep
    · cases hstep
      show _ ≤ (b.client.flush now).state.lastSeq
      rw [hc.flush_lastSeq now]
      exact b.lastSeq_le_position
    · cases hstep
  | subscribes =>
    simp only [Browsing.step, Option.map_eq_some_iff] at hstep
    obtain ⟨since, -, rfl⟩ := hstep
    exact le_rfl
  | delivers =>
    simp only [Browsing.step] at hstep
    split at hstep
    · obtain ⟨m, -, rfl⟩ := Option.map_eq_some_iff.mp hstep
      exact le_rfl
    · cases hstep
  | drops refused =>
    simp only [Browsing.step, StreamClient.onclose] at hstep
    split at hstep
    · cases hstep
      split
      · exact le_rfl
      · exact le_rfl
    · cases hstep
  | opens | connects =>
    simp only [Browsing.step] at hstep
    split at hstep
    · cases hstep
      exact le_rfl
    · cases hstep

theorem lastSeq_run {actions : List Action} (hc : b.Consistent)
    (hrun : Browsing.run config b actions = some b') :
    b.client.state.lastSeq ≤ b'.client.state.lastSeq := by
  induction actions generalizing b with
  | nil =>
    cases hrun
    exact le_rfl
  | cons action rest ih =>
    obtain ⟨next, hnext, hrest⟩ := Option.bind_eq_some_iff.mp hrun
    exact (lastSeq_step hc hnext).trans (ih (hc.step hnext) hrest)

end Browsing

/-- A connection that has drained, of a hub that has tailed, was sent up to the last event. -/
theorem Stream.Fed.complete {s : Stream} {base : ℕ} (h : s.Fed base)
    (hinv : s.Inv (fun _ => false) 0) (hopen : s.sub.paused = false) (hdrained : s.Drained)
    (htailed : s.Tailed) : ∀ e ∈ s.store, e.seq ≤ reached base s.sent := by
  have hplaced := hinv.placed
  simp only [hdrained.1, Stream.Placed, hdrained.2, Bool.false_eq_true, false_or,
    Subscriber.idle, Bool.and_eq_true, Option.isNone_iff_eq_none, List.isEmpty_iff] at hplaced
  obtain ⟨⟨⟨-, hreplay⟩, hqueue⟩, -⟩ := hplaced
  unfold Stream.Fed at h
  rw [hdrained.1] at h
  rcases h with ⟨-, hfeed⟩ | ⟨cursor, replayTo, hasked, -⟩
  · have htail := (hfeed.unpaused hopen).2
    rw [hqueue] at htail
    intro e he
    have hle := htailed e he
    rw [Stream.head, htail] at hle
    exact hle
  · rw [hreplay] at hasked
    cases hasked

namespace Browsing

/-- **The stream resumes.** The position of the browser never goes back. In a run where a
subscription without replay misses nothing, a browser that has settled has applied each event
stored since its first `subscribed` once, in their order. -/
theorem stream_resumes (config : HubConfig) {store : List Event} {queueMax : ℕ}
    {actions : List Action} {b : Browsing} (hordered : Log.InOrder Event.seq store)
    (hrun : run config (init store queueMax) actions = some b) :
    (∀ more b', run config b more = some b' →
        b.client.state.lastSeq ≤ b'.client.state.lastSeq) ∧
      (Resumes config (init store queueMax) actions = true → b.Settled → ∀ n ∈ b.first,
        Log.InOrder Event.seq (Log.after Event.seq n b.applied) ∧
          Log.after Event.seq n b.applied = Log.after Event.seq n b.server.store) := by
  have hinit := Consistent.init hordered queueMax
  have hc : b.Consistent := hinit.run hrun
  refine ⟨fun more b' hmore => lastSeq_run hc hmore, fun hresumes hsettled n hn => ?_⟩
  have hgapless := Gapless.run hinit (fun n hn => (nomatch hn)) hresumes hrun n hn
  obtain ⟨base, hfed, hclear⟩ := hgapless.fed hsettled.opened hsettled.asked
  have hall := hfed.complete hc.inv hsettled.unpaused hsettled.drained hsettled.tailed
  rw [hsettled.delivered, List.take_length] at hclear
  have hposition : b.position = b.client.state.lastSeq := by
    rw [position, hsettled.flushed]
    rfl
  rw [hposition] at hclear
  have hsame : Log.after Event.seq n b.applied = Log.after Event.seq n b.server.store := by
    rw [hgapless.applied]
    unfold Log.after Log.upTo
    rw [List.filter_filter]
    apply List.filter_congr
    intro e he
    have hreached := hclear e he
    rw [Bool.eq_iff_iff]
    simp only [Bool.and_eq_true, decide_eq_true_eq]
    exact and_iff_left_of_imp fun hlater => hreached hlater (hall e he)
  rw [hsame]
  exact ⟨hc.inv.core.ordered.after n, rfl⟩

end Browsing

namespace Reconnecting

open Sample

/-- The browser subscribes, and applies the answer. -/
def subscribed : List Browsing.Action :=
  [.opens, .subscribes, .server .resume, .delivers, .flushes 0, .server .resume]

/-- The connection is dropped, an event is stored and tailed, and the browser is back. -/
def missed (event : Event) : List Browsing.Action :=
  [.drops false, .server (.append event), .server .poll, .server .tailRead, .server .tailResume,
    .connects]

/-- A browser that asks for what it missed. -/
def replaying : List Browsing.Action :=
  subscribed ++ missed alertStored ++
    [.opens, .subscribes, .server .resume, .delivers, .server .resume, .server .replayRead,
      .server .resume, .delivers, .server .resume, .flushes 0]

/-- A browser that was answered by a store without events, and is again. -/
def forgetting : List Browsing.Action :=
  subscribed ++ missed orderSubmitted ++ subscribed

def resumed : Browsing :=
  (Browsing.run hub (.init [orderSubmitted] 2000) replaying).getD (.init [] 0)

def forgot : Browsing := (Browsing.run hub (.init [] 2000) forgetting).getD (.init [] 0)

theorem resumed_run :
    Browsing.run hub (.init [orderSubmitted] 2000) replaying = some resumed := rfl

theorem forgot_run : Browsing.run hub (.init [] 2000) forgetting = some forgot := rfl

theorem resumed_settled : resumed.Settled :=
  ⟨by decide +kernel, by decide +kernel, by decide +kernel, ⟨by decide +kernel, by decide +kernel⟩,
    by unfold Stream.Tailed; decide +kernel, by decide +kernel, by decide +kernel⟩

theorem forgot_settled : forgot.Settled :=
  ⟨by decide +kernel, by decide +kernel, by decide +kernel, ⟨by decide +kernel, by decide +kernel⟩,
    by unfold Stream.Tailed; decide +kernel, by decide +kernel, by decide +kernel⟩

end Reconnecting

namespace Browsing

open Sample Reconnecting

/-- An alert that is stored while the browser is away is applied once when it is back. -/
theorem stream_resumes_replaying :
    Log.after Event.seq 1 resumed.applied = [alertStored] := by
  have hordered : Log.InOrder Event.seq [orderSubmitted] := List.pairwise_singleton _ _
  have hresumes : Resumes hub (.init [orderSubmitted] 2000) replaying = true := by decide +kernel
  have hfirst : 1 ∈ resumed.first := by decide +kernel
  have hall := (stream_resumes hub hordered resumed_run).2 hresumes resumed_settled 1 hfirst
  rw [hall.2]
  decide +kernel

/-- The store has no event when the browser connects first, so its position stays 0, as if it had
never connected. What is stored while it is away is not replayed, and it is never applied. -/
theorem order_not_replayed :
    ¬∀ (config : HubConfig) (store : List Event) (queueMax : ℕ) (actions : List Action)
        (b : Browsing), Log.InOrder Event.seq store →
      run config (init store queueMax) actions = some b → b.Settled → ∀ n ∈ b.first,
        Log.after Event.seq n b.applied = Log.after Event.seq n b.server.store := by
  intro h
  have hfirst : 0 ∈ forgot.first := by decide +kernel
  have hall := h hub [] 2000 forgetting forgot List.Pairwise.nil forgot_run forgot_settled 0 hfirst
  revert hall
  decide +kernel

end Browsing

end RakshaQuant
