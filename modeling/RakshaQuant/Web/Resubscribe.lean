import RakshaQuant.Web.Interleaving

/-! Subscribing. A subscribe asks for the replay that begins the balance anew,
unless the replay before it is still being sent: that one goes on, and what it
ends with overwrites the window that was asked for. -/

namespace RakshaQuant

/-- A replay is being sent. -/
def Sender.replays : Sender → Bool
  | .reading _ _ _ => true
  | .fetched _ _ _ _ => true
  | .replaying _ _ _ _ => true
  | _ => false

/-- What a subscription is for. -/
def wantedBy (topics : Finset Topic) (sinceSeq : ℕ) (e : Event) : Bool :=
  decide (e.topic ∈ topics ∧ sinceSeq < e.seq)

namespace Stream

/-- The subscribe, with the tailing it starts. -/
def subscribed (topics : Finset Topic) (sinceSeq : ℕ) (s : Stream) : Stream :=
  { s with tailSeq := some s.head, sub := s.sub.subscribe topics sinceSeq s.head }

/-- No replay is being sent, or the subscription has nothing to replay. -/
def Free (p : Event → Bool) (s : Stream) : Prop :=
  s.sender.replays = true → ∀ e ∈ s.store, p e = true → s.head < e.seq

variable {p q : Event → Bool} {base : ℕ} {s : Stream} {topics : Finset Topic} {sinceSeq : ℕ}

/-- Nothing that is wanted is up to the head. -/
theorem window_eq_nil (h : ∀ e ∈ s.store, p e = true → s.head < e.seq) {m n : ℕ}
    (hn : n ≤ s.head) : s.window p m n = [] := by
  apply List.filter_eq_nil_iff.mpr
  intro e he hp
  have hupTo := List.mem_filter.mp (List.mem_filter.mp he).1
  have hle : e.seq ≤ n := by simpa using hupTo.2
  have hlt := h e hupTo.1 hp
  omega

section subscribed

variable (hp : ∀ e, p e = true → e.topic ∈ topics ∧ sinceSeq < e.seq)

include hp

/-- The window that is asked for holds what is wanted up to the head. -/
theorem pending_subscribed (hordered : Log.InOrder Event.seq s.store) :
    (s.subscribed topics sinceSeq).pending p = s.upTo p s.head := by
  by_cases hasked : (topics ∩ eventTopics).Nonempty ∧ sinceSeq < s.head
  · have hreplay : (s.subscribed topics sinceSeq).sub.replay = some (sinceSeq, s.head) := by
      show (if _ then _ else _) = _
      rw [if_pos hasked, min_eq_left hasked.2.le]
    have hbefore : (Log.upTo Event.seq sinceSeq s.store).filter p = [] := by
      apply List.filter_eq_nil_iff.mpr
      intro e he hpe
      have hle : e.seq ≤ sinceSeq := by simpa using (List.mem_filter.mp he).2
      have hlt := (hp e hpe).2
      omega
    have hsplit := congrArg (List.filter p) (hordered.upTo_after_append hasked.2.le)
    rw [List.filter_append, hbefore, List.nil_append] at hsplit
    unfold pending
    rw [hreplay]
    exact hsplit
  · have hreplay : (s.subscribed topics sinceSeq).sub.replay = none := if_neg hasked
    have hnone : s.upTo p s.head = [] := by
      apply List.filter_eq_nil_iff.mpr
      intro e he hpe
      obtain ⟨htopic, hlt⟩ := hp e hpe
      have hle : e.seq ≤ s.head := by simpa using (List.mem_filter.mp he).2
      have hmem := Finset.mem_inter.mpr ⟨htopic, topicOf_mem e.type⟩
      exact hasked ⟨⟨_, hmem⟩, hlt.trans_le hle⟩
    unfold pending
    rw [hreplay, hnone]

/-- A subscribe begins a balance of what it is for. -/
theorem Inv.subscribed (h : s.Inv q base) {start : ℕ} (hstart : start ≤ s.sent.length)
    (hfresh : eventsOf p (s.sent.drop start) = []) (hfree : s.Free p) :
    (s.subscribed topics sinceSeq).Inv p start := by
  have hheaded := (Carries.headed h).inv h
  have hcovered : (s.subscribed topics sinceSeq).Covered s.head :=
    ⟨⟨s.head, rfl, le_rfl⟩, hheaded.core.stands s.head rfl⟩
  have hpending := pending_subscribed hp h.core.ordered
  -- a replay that is being sent sends nothing that is wanted
  have hover : ∀ {m n}, s.sender.replays = true → Covered { s with tailSeq := some s.head } n →
      (s.subscribed topics sinceSeq).window p m n = [] := by
    intro m n hreplays hn
    obtain ⟨⟨tail, htail, hle⟩, -⟩ := hn
    cases htail
    exact window_eq_nil (s := s.subscribed topics sinceSeq) (hfree hreplays) hle
  have hnone : s.sender.replays = true → s.upTo p s.head = [] := by
    intro hreplays
    apply List.filter_eq_nil_iff.mpr
    intro e he hpe
    have hmem := List.mem_filter.mp he
    have hle : e.seq ≤ s.head := by simpa using hmem.2
    have hlt := hfree hreplays e hmem.1 hpe
    omega
  have hplaced := hheaded.placed
  have hdue : (s.subscribed topics sinceSeq).due p = s.upTo p s.head := by
    unfold due
    show (match s.sender with
      | .reading cursor replayTo _ => _
      | .fetched cursor replayTo _ _ => _
      | .replaying event replayTo _ _ => _
      | _ => _) = _
    cases hsender : s.sender with
    | reading c r _ =>
      simp only [hsender] at hplaced
      rw [hnone (by rw [hsender]; rfl)]
      exact hover (by rw [hsender]; rfl) hplaced.2.1
    | fetched c r _ _ =>
      simp only [hsender] at hplaced
      rw [hnone (by rw [hsender]; rfl)]
      exact hover (by rw [hsender]; rfl) hplaced.2.1
    | replaying e r _ _ =>
      simp only [hsender] at hplaced
      rw [hnone (by rw [hsender]; rfl)]
      exact hover (by rw [hsender]; rfl) hplaced.1
    | _ => exact hpending
  constructor
  · refine ⟨h.core.ordered, fun hnone => (nomatch hnone), fun e he => (hp e he).1,
      hheaded.core.stands, hheaded.core.tails, ?_, hstart, ?_⟩
    · intro c r hr
      have hr' : (if (topics ∩ eventTopics).Nonempty ∧ sinceSeq < s.head
          then some (min sinceSeq s.head, s.head) else none) = some (c, r) := hr
      split at hr'
      · cases hr'
        exact hcovered
      · cases hr'
    · intro tail htail hpaused
      cases htail
      show eventsOf p (s.sent.drop start) ++ _ ++ [] = _
      rw [hfresh, hdue, List.nil_append, List.append_nil]
      rfl
  · show Placed p _ s.sender
    cases hsender : s.sender with
    | waiting => exact .inl rfl
    | queued => exact fun _ => .inr rfl
    | reading c r _ =>
      simp only [hsender] at hplaced
      exact ⟨hplaced.1, hplaced.2.1, fun _ => .inl (hover (by rw [hsender]; rfl) hplaced.2.1)⟩
    | fetched c r _ _ =>
      simp only [hsender] at hplaced
      exact ⟨hplaced.1, hplaced.2.1, fun _ => .inl (hover (by rw [hsender]; rfl) hplaced.2.1),
        hplaced.2.2.2⟩
    | replaying e r _ _ =>
      simp only [hsender] at hplaced
      exact ⟨hplaced.1, fun _ => .inl (hover (by rw [hsender]; rfl) hplaced.1), hplaced.2.2⟩
    | _ => trivial

end subscribed

end Stream

end RakshaQuant
