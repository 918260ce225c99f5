import RakshaQuant.Web.Drain
import RakshaQuant.Web.Resubscribe

/-! What a client is sent of a subscription: each stored event of its topics
once, in order. A subscribe that comes while a replay is being sent loses the
window it asks for. -/

namespace RakshaQuant

namespace Stream

/-- Connected to a hub, over a store in order, after any actions. -/
def Reachable (config : HubConfig) (s : Stream) : Prop :=
  ∃ store queueMax actions, Log.InOrder Event.seq store ∧
    run config (init store queueMax) actions = some s

/-- Every step of a run is guarded where it happens. -/
def Guarded (config : HubConfig) (p : Event → Bool) : Stream → List Action → Prop
  | _, [] => True
  | s, action :: rest =>
    action.Guarded p s ∧ ∀ s', step config s action = some s' → Guarded config p s' rest

/-- The tailer has come to the end of the store. -/
def Tailed (s : Stream) : Prop := ∀ e ∈ s.store, e.seq ≤ s.head

variable {config : HubConfig} {p : Event → Bool} {base : ℕ} {s s' : Stream}

/-! ## Runs -/

theorem Inv.run {actions : List Action} (h : s.Inv p base)
    (hrun : Stream.run config s actions = some s') (hstays : ∀ action ∈ actions, action.Stays)
    (hguard : Guarded config p s actions) : s'.Inv p base := by
  induction actions generalizing s with
  | nil =>
    cases hrun
    exact h
  | cons action rest ih =>
    obtain ⟨next, hnext, hrest⟩ := Option.bind_eq_some_iff.mp hrun
    have hstep := h.step hnext (hstays action List.mem_cons_self) hguard.1
    exact ih hstep hrest (fun a ha => hstays a (List.mem_cons_of_mem _ ha)) (hguard.2 next hnext)

theorem inv_init {store : List Event} (hordered : Log.InOrder Event.seq store) (queueMax : ℕ) :
    (init store queueMax).Inv (fun _ => false) 0 := by
  constructor
  · exact ⟨hordered, fun _ _ => rfl, fun _ h => (nomatch h), fun _ h => (nomatch h), trivial,
      fun _ _ h => (nomatch h), le_rfl, fun _ h => (nomatch h)⟩
  · trivial

/-- What does not depend on a subscription is kept by every subscribe. -/
theorem Inv.resubscribed (h : s.Inv (fun _ => false) 0) (topics : Finset Topic) (sinceSeq : ℕ) :
    (s.subscribed topics sinceSeq).Inv (fun _ => false) 0 := by
  have hnone : eventsOf (fun _ => false) (s.sent.drop 0) = [] := by simp [eventsOf]
  have hfree : s.Free fun _ => false := fun _ _ _ h => absurd h Bool.false_ne_true
  have hnothing : ∀ e : Event, (fun _ => false) e = true →
      e.topic ∈ topics ∧ sinceSeq < e.seq := fun _ h => absurd h Bool.false_ne_true
  exact Inv.subscribed hnothing h (Nat.zero_le _) hnone hfree

/-- It is kept by every step. -/
theorem Inv.kept {action : Action} (h : s.Inv (fun _ => false) 0)
    (hstep : Stream.step config s action = some s') : s'.Inv (fun _ => false) 0 := by
  cases action with
  | subscribe topics sinceSeq =>
    cases hstep
    exact h.resubscribed topics sinceSeq
  | tailResume => exact h.step hstep trivial fun _ _ => .inr fun _ _ _ _ _ => rfl
  | _ => exact h.step hstep trivial trivial

/-- So it holds in every state. -/
theorem Reachable.inv (h : Reachable config s) : s.Inv (fun _ => false) 0 := by
  obtain ⟨store, queueMax, actions, hordered, hrun⟩ := h
  have hinit := inv_init hordered queueMax
  generalize init store queueMax = before at hinit hrun
  induction actions generalizing before with
  | nil =>
    cases hrun
    exact hinit
  | cons action rest ih =>
    obtain ⟨next, hnext, hrest⟩ := Option.bind_eq_some_iff.mp hrun
    exact ih next (hinit.kept hnext) hrest

theorem guarded_own {actions : List Action} (h : ∀ action ∈ actions, action.Own) (s : Stream) :
    Guarded config p s actions := by
  induction actions generalizing s with
  | nil => trivial
  | cons action rest ih =>
    exact ⟨(h action List.mem_cons_self).guarded p s,
      fun next _ => ih (fun a ha => h a (List.mem_cons_of_mem _ ha)) next⟩

/-! ## What was sent -/

/-- The events wanted by a subscription among what was sent after a point. -/
def news (topics : Finset Topic) (sinceSeq start : ℕ) (s : Stream) : List Event :=
  eventsOf (wantedBy topics sinceSeq) (s.sent.drop start)

/-- The stored events that a subscription wants. -/
def wanted (topics : Finset Topic) (sinceSeq : ℕ) (s : Stream) : List Event :=
  s.store.filter (wantedBy topics sinceSeq)

theorem Inv.received_prefix (h : s.Inv p base) (hopen : s.sub.paused = false) :
    eventsOf p (s.sent.drop base) <+: s.store.filter p := by
  cases htail : s.tailSeq with
  | none =>
    have hnone := h.core.begun htail
    have hsent : eventsOf p (s.sent.drop base) = [] :=
      List.filter_eq_nil_iff.mpr fun e _ => by simp [hnone e]
    rw [hsent]
    exact List.nil_prefix
  | some tail =>
    have hupTo : s.upTo p tail <+: s.store.filter p := (h.core.ordered.upTo_prefix tail).filter p
    rw [← h.core.balance tail htail hopen, List.append_assoc] at hupTo
    exact (List.prefix_append _ _).trans hupTo

/-- When the send loop has drained and the tailer has come to the end, everything was sent. -/
theorem Inv.received_all (h : s.Inv p base) (hopen : s.sub.paused = false)
    (hdrained : s.Drained) (htailed : s.Tailed) :
    eventsOf p (s.sent.drop base) = s.store.filter p := by
  cases htail : s.tailSeq with
  | none =>
    have hnone : ∀ l : List Event, l.filter p = [] :=
      fun l => List.filter_eq_nil_iff.mpr fun e _ => by simp [h.core.begun htail e]
    rw [hnone s.store]
    exact hnone _
  | some tail =>
    have hplaced := h.placed
    have hbalance := h.core.balance tail htail hopen
    simp only [hdrained.1, Placed, hdrained.2, Bool.false_eq_true, false_or] at hplaced
    simp only [Subscriber.idle, Bool.and_eq_true, Option.isNone_iff_eq_none,
      List.isEmpty_iff] at hplaced
    have hdue : s.due p = [] := by
      simp only [due, hdrained.1, pending, hplaced.1.1.2]
    rw [hdue, hplaced.1.2, eventsOf_nil, List.append_nil, List.append_nil] at hbalance
    rw [hbalance, upTo]
    have hall : Log.upTo Event.seq tail s.store = s.store := by
      apply List.filter_eq_self.mpr
      intro e he
      have hle := htailed e he
      rw [head, htail] at hle
      simpa using hle
    rw [hall]

/-- **Each event once.** In a run after a subscribe, without another subscribe and
without an overflow, the client was sent the stored events of its topics in their
order, each once and none left out. When the tailer has come to the end and the
send loop has drained it was sent all of them, and left alone the send loop drains. -/
theorem sends_each_once (config : HubConfig) {s s' : Stream} {topics : Finset Topic}
    {sinceSeq : ℕ} {actions : List Action} (hs : Reachable config s)
    (hfree : s.Free (wantedBy topics sinceSeq))
    (hrun : run config s (.subscribe topics sinceSeq :: actions) = some s')
    (hstays : ∀ action ∈ actions, action.Stays)
    (hguard : Guarded config (wantedBy topics sinceSeq) (s.subscribed topics sinceSeq) actions)
    (hopen : s'.sub.paused = false) :
    Log.InOrder Event.seq (s'.news topics sinceSeq s.sent.length) ∧
      s'.news topics sinceSeq s.sent.length <+: s'.wanted topics sinceSeq ∧
      (s'.Drained → s'.Tailed →
        s'.news topics sinceSeq s.sent.length = s'.wanted topics sinceSeq) ∧
      (s'.Whole → s'.Tailed → ∃ own last, (∀ action ∈ own, action.Own) ∧
        run config s' own = some last ∧ last.Drained ∧
        last.news topics sinceSeq s.sent.length = s'.wanted topics sinceSeq) := by
  have hwanted : ∀ e, wantedBy topics sinceSeq e = true → e.topic ∈ topics ∧ sinceSeq < e.seq :=
    fun e he => by simpa [wantedBy] using he
  have hfresh : eventsOf (wantedBy topics sinceSeq) (s.sent.drop s.sent.length) = [] := by simp
  have hstart := Inv.subscribed hwanted hs.inv le_rfl hfresh hfree
  have hinv : s'.Inv (wantedBy topics sinceSeq) s.sent.length := hstart.run hrun hstays hguard
  have hprefix := hinv.received_prefix hopen
  refine ⟨?_, hprefix, fun hdrained htailed => hinv.received_all hopen hdrained htailed,
    fun hwhole htailed => ?_⟩
  · exact (hinv.core.ordered.sublist List.filter_sublist).sublist hprefix.sublist
  · obtain ⟨own, last, hown, hrunLast, hdrained, hlast, hstore, htail, hpaused⟩ :=
      drains config hinv hwhole
    have htailed' : last.Tailed := by
      intro e he
      rw [head, htail, hstore]
      exact htailed e (hstore ▸ he)
    have hall := hlast.received_all (hpaused.trans hopen) hdrained htailed'
    rw [hstore] at hall
    exact ⟨own, last, hown, hrunLast, hdrained, hall⟩

end Stream

namespace Sample

theorem batch_pos : 0 < 500 := by decide

/-- The hub as the run manager makes it. -/
def hub : HubConfig := ⟨500, batch_pos⟩

def orderSubmitted : Event := ⟨1, "OrderSubmitted", 0, none, none, "{}"⟩

def alertStored : Event := ⟨2, "Alert", 0, none, none, "{}"⟩

def twoStored : List Event := [orderSubmitted, alertStored]

/-- The send loop reads a page of the orders, and sends one. -/
def ordersReplaying : List Stream.Action :=
  [.subscribe {.orders} 0, .resume, .resume, .replayRead, .resume]

def interrupted : Stream :=
  (Stream.run hub (.init twoStored 2000) ordersReplaying).getD (.init [] 0)

/-- After a subscribe to the alerts the send loop goes on to its end. -/
def misled : Stream :=
  (Stream.run hub interrupted (.subscribe {.system} 0 :: [.resume, .resume])).getD (.init [] 0)

/-- The send loop replays one page, and drains. -/
def replayed : List Stream.Action := [.resume, .resume, .replayRead, .resume, .resume]

end Sample

namespace Stream

/-- A client that subscribes to the alerts first is sent the alert. -/
theorem alert_sent_once :
    ∃ s', run Sample.hub (.init Sample.twoStored 2000)
        (.subscribe {.system} 0 :: Sample.replayed) = some s' ∧
      s'.news {.system} 0 0 = [Sample.alertStored] := by
  have hown : ∀ action ∈ Sample.replayed, action.Own := by
    intro action ha
    simp only [Sample.replayed, List.mem_cons, List.not_mem_nil, or_false] at ha
    rcases ha with rfl | rfl | rfl | rfl | rfl
    · exact .inl rfl
    · exact .inl rfl
    · exact .inr rfl
    · exact .inl rfl
    · exact .inl rfl
  have hordered : Log.InOrder Event.seq Sample.twoStored := by
    unfold Log.InOrder
    decide
  have hreachable : Reachable Sample.hub (.init Sample.twoStored 2000) :=
    ⟨Sample.twoStored, 2000, [], hordered, rfl⟩
  refine ⟨_, rfl, ?_⟩
  have hfree : (init Sample.twoStored 2000).Free (wantedBy {.system} 0) :=
    fun hreplays => (nomatch hreplays)
  have hsent := sends_each_once Sample.hub hreachable hfree
    (rfl : run Sample.hub _ (.subscribe {.system} 0 :: Sample.replayed) = some _)
    (fun a ha => (hown a ha).stays) (guarded_own hown _) rfl
  have htailed : ∀ e ∈ Sample.twoStored, e.seq ≤ 2 := by decide
  have hall := hsent.2.2.1 ⟨rfl, rfl⟩ htailed
  refine hall.trans ?_
  decide

/-- A client subscribes to the alerts while a replay is being sent to it. The
window it asks for is overwritten, and it is never sent the alert. -/
theorem alert_never_sent :
    ¬∀ (config : HubConfig) (s s' : Stream) (topics : Finset Topic) (sinceSeq : ℕ)
        (actions : List Action), Reachable config s →
      run config s (.subscribe topics sinceSeq :: actions) = some s' →
      (∀ action ∈ actions, action.Stays) → s'.sub.paused = false → s'.Drained → s'.Tailed →
      s'.news topics sinceSeq s.sent.length = s'.wanted topics sinceSeq := by
  intro h
  have hordered : Log.InOrder Event.seq Sample.twoStored := by
    unfold Log.InOrder
    decide
  have hreachable : Reachable Sample.hub Sample.interrupted :=
    ⟨Sample.twoStored, 2000, Sample.ordersReplaying, hordered, rfl⟩
  have hstays : ∀ action ∈ [Action.resume, .resume], action.Stays := by simp [Action.Stays]
  have htailed : ∀ e ∈ Sample.twoStored, e.seq ≤ 2 := by decide
  have hrun : run Sample.hub Sample.interrupted
      (.subscribe {.system} 0 :: [.resume, .resume]) = some Sample.misled := rfl
  have hsame := h Sample.hub Sample.interrupted Sample.misled {.system} 0 _ hreachable hrun
    hstays rfl ⟨rfl, rfl⟩ htailed
  revert hsame
  decide

end Stream

end RakshaQuant
