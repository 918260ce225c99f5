import RakshaQuant.Web.Feeding

/-! Messages from which the browser leaves out nothing. At a position, each of them is the next
event stored since a number, or an earlier one, or a notice that passes over none. The reducer
then holds exactly what is stored since the number up to its position. -/

namespace RakshaQuant

/-! ## Going on from a position -/

/-- No event stored since `n` lies between a position and a number. -/
def Clear (store : List Event) (n position x : ℕ) : Prop :=
  ∀ e ∈ store, n < e.seq → e.seq ≤ x → e.seq ≤ position

namespace Message

/-- The position of the browser after a message. -/
def advance (position : ℕ) : Message → ℕ
  | .envelope e => max position e.seq
  | .notice n =>
    if n.kind = "subscribed" ∧ n.data.replayTo ≤ n.data.sinceSeq then max position n.data.replayTo
    else position

/-- A message of this store. -/
def Known (store : List Event) : Message → Prop
  | .envelope e => e ∈ store
  | .notice n => n.data.sinceSeq ≤ EventStore.lastSeq store ∧
    n.data.replayTo ≤ EventStore.lastSeq store ∧ n.data.reason ≠ "new_store"

/-- A message by which the browser at a position leaves out nothing stored since `n`. -/
def Continues (store : List Event) (n position : ℕ) : Message → Prop
  | .envelope e => ∀ e' ∈ store, n < e'.seq → e'.seq < e.seq → e'.seq ≤ position
  | .notice nt =>
    (nt.kind = "subscribed" → nt.data.replayTo ≤ nt.data.sinceSeq →
      Clear store n position nt.data.replayTo) ∧
      (nt.kind = "resync" → Clear store n position nt.data.sinceSeq)

end Message

def ahead (position : ℕ) (messages : List Message) : ℕ := messages.foldl Message.advance position

def ContinueFrom (store : List Event) (n : ℕ) : ℕ → List Message → Prop
  | _, [] => True
  | position, m :: rest =>
    m.Continues store n position ∧ ContinueFrom store n (m.advance position) rest

section continuing

variable {store : List Event} {n position x : ℕ} {messages : List Message} {m : Message} {e : Event}

theorem Message.le_advance (position : ℕ) (m : Message) : position ≤ m.advance position := by
  cases m with
  | envelope e => exact le_max_left position e.seq
  | notice n =>
    simp only [Message.advance]
    split
    · exact le_max_left position n.data.replayTo
    · exact le_rfl

theorem le_ahead (position : ℕ) (messages : List Message) : position ≤ ahead position messages := by
  induction messages generalizing position with
  | nil => exact le_rfl
  | cons m rest ih => exact (m.le_advance position).trans (ih _)

theorem le_ahead_of_mem (h : .envelope e ∈ messages) : e.seq ≤ ahead position messages := by
  induction messages generalizing position with
  | nil => cases h
  | cons m rest ih =>
    rcases List.mem_cons.mp h with rfl | hrest
    · exact (le_max_right position e.seq).trans (le_ahead _ rest)
    · exact ih hrest

theorem ahead_le (hknown : ∀ m ∈ messages, m.Known store)
    (hle : position ≤ EventStore.lastSeq store) :
    ahead position messages ≤ EventStore.lastSeq store := by
  induction messages generalizing position with
  | nil => exact hle
  | cons m rest ih =>
    apply ih (fun m' hm' => hknown m' (List.mem_cons_of_mem _ hm'))
    have hm := hknown m List.mem_cons_self
    cases m with
    | envelope e => exact max_le hle (EventStore.le_lastSeq hm)
    | notice nt =>
      simp only [Message.advance]
      split
      · exact max_le hle hm.2.1
      · exact hle

@[simp] theorem ahead_concat (position : ℕ) (messages : List Message) (m : Message) :
    ahead position (messages ++ [m]) = m.advance (ahead position messages) :=
  List.foldl_concat _ _ _ _

theorem continueFrom_concat :
    ContinueFrom store n position (messages ++ [m]) ↔
      ContinueFrom store n position messages ∧
        m.Continues store n (ahead position messages) := by
  induction messages generalizing position with
  | nil => exact ⟨fun h => ⟨trivial, h.1⟩, fun h => ⟨h.2, trivial⟩⟩
  | cons m' rest ih =>
    show _ ∧ ContinueFrom store n (m'.advance position) (rest ++ [m]) ↔ _
    rw [ih]
    exact and_assoc.symm

theorem Clear.mono {position' : ℕ} (h : Clear store n position x) (hle : position ≤ position') :
    Clear store n position' x :=
  fun e he hn hx => (h e he hn hx).trans hle

theorem Clear.self (store : List Event) (n : ℕ) (h : x ≤ position) : Clear store n position x :=
  fun _ _ _ hx => hx.trans h

/-- Nothing is stored since the last event. -/
theorem Clear.last (store : List Event) (position x : ℕ) :
    Clear store (EventStore.lastSeq store) position x :=
  fun _ he hn _ => absurd hn (not_lt.mpr (EventStore.le_lastSeq he))

theorem continueFrom_last (store : List Event) (position : ℕ) (messages : List Message) :
    ContinueFrom store (EventStore.lastSeq store) position messages := by
  induction messages generalizing position with
  | nil => trivial
  | cons m rest ih =>
    refine ⟨?_, ih _⟩
    cases m with
    | envelope e =>
      exact fun _ he hn _ => absurd hn (not_lt.mpr (EventStore.le_lastSeq he))
    | notice nt => exact ⟨fun _ _ => Clear.last store _ _, fun _ => Clear.last store _ _⟩

theorem Clear.stored (h : Clear store n position x) (hx : x ≤ EventStore.lastSeq store)
    (he : EventStore.lastSeq store < e.seq) : Clear (store ++ [e]) n position x := by
  intro e' he' hn hle
  rcases List.mem_append.mp he' with hold | hnew
  · exact h e' hold hn hle
  · rw [List.mem_singleton.mp hnew] at hle
    exact absurd (he.trans_le hle) (not_lt.mpr hx)

theorem Message.Known.stored (h : m.Known store) (he : EventStore.lastSeq store < e.seq) :
    m.Known (store ++ [e]) := by
  cases m with
  | envelope e' => exact List.mem_append_left _ h
  | notice n => exact ⟨h.1.trans (lastSeq_concat he), h.2.1.trans (lastSeq_concat he), h.2.2⟩

theorem Message.Continues.stored (h : m.Continues store n position) (hknown : m.Known store)
    (he : EventStore.lastSeq store < e.seq) : m.Continues (store ++ [e]) n position := by
  cases m with
  | envelope e' =>
    intro e'' he'' hn hlt
    rcases List.mem_append.mp he'' with hold | hnew
    · exact h e'' hold hn hlt
    · rw [List.mem_singleton.mp hnew] at hlt
      exact absurd (he.trans hlt) (not_lt.mpr (EventStore.le_lastSeq hknown))
  | notice nt =>
    exact ⟨fun hkind hle => (h.1 hkind hle).stored hknown.2.1 he,
      fun hkind => (h.2 hkind).stored hknown.1 he⟩

theorem ContinueFrom.stored (h : ContinueFrom store n position messages)
    (hknown : ∀ m ∈ messages, m.Known store) (he : EventStore.lastSeq store < e.seq) :
    ContinueFrom (store ++ [e]) n position messages := by
  induction messages generalizing position with
  | nil => trivial
  | cons m rest ih =>
    exact ⟨h.1.stored (hknown m List.mem_cons_self) he,
      ih h.2 fun m' hm' => hknown m' (List.mem_cons_of_mem _ hm')⟩

/-- What the connection may send next is known. -/
theorem Message.Follows.known {q : ℕ} (h : m.Follows store q) : m.Known store := by
  cases m with
  | envelope e => exact h.1
  | notice n => exact ⟨h.1.1, h.1.2, h.2.1⟩

/-- What comes next in a connection leaves out nothing, if nothing lies between the browser and
the connection. -/
theorem Message.Follows.continues {q : ℕ} (h : m.Follows store q)
    (hclear : Clear store n position q) :
    m.Continues store n position ∧ Clear store n (m.advance position) (m.reach q) := by
  cases m with
  | envelope e =>
    refine ⟨fun e' he' hn hlt => hclear e' he' hn ?_, Clear.self store n (le_max_right _ _)⟩
    by_contra hq
    exact absurd (h.2.2 e' he' (not_le.mp hq)) (not_le.mpr hlt)
  | notice nt =>
    refine ⟨⟨fun _ hle e he hn hx => ?_, fun hkind e he hn hx => ?_⟩,
      hclear.mono (Message.le_advance _ _)⟩
    · exact hclear e he hn (hx.trans (h.2.2.1 hle))
    · exact hclear e he hn (h.2.2.2 hkind e he hx)

/-- A notice without numbers leaves out nothing. -/
theorem Notice.Plain.continues {nt : Notice} (h : nt.Plain) (store : List Event)
    (n position : ℕ) : (Message.notice nt).Continues store n position := by
  obtain ⟨hsince, hreplay, -⟩ := h
  refine ⟨fun _ _ e _ _ hx => ?_, fun _ e _ _ hx => ?_⟩
  · rw [hreplay] at hx
    exact hx.trans (Nat.zero_le _)
  · rw [hsince] at hx
    exact hx.trans (Nat.zero_le _)

end continuing

/-! ## The reducer -/

/-- What was applied is what is stored since `n` up to a position. -/
def Holds (store : List Event) (n position : ℕ) (applied : List Event) : Prop :=
  Log.after Event.seq n applied = Log.after Event.seq n (Log.upTo Event.seq position store)

namespace Holds

variable {store applied : List Event} {n position x : ℕ} {e : Event}

/-- The position passes over nothing. -/
theorem clear (h : Holds store n position applied) (hle : position ≤ x)
    (hclear : Clear store n position x) : Holds store n x applied := by
  have hsame : Log.after Event.seq n (Log.upTo Event.seq x store) =
      Log.after Event.seq n (Log.upTo Event.seq position store) := by
    unfold Log.after Log.upTo
    rw [List.filter_filter, List.filter_filter]
    apply List.filter_congr
    intro e he
    have hpassed := hclear e he
    rw [Bool.eq_iff_iff]
    simp only [Bool.and_eq_true, decide_eq_true_eq]
    exact ⟨fun ⟨hn, hx⟩ => ⟨hn, hpassed hn hx⟩, fun ⟨hn, hp⟩ => ⟨hn, hp.trans hle⟩⟩
  unfold Holds at h ⊢
  rw [h, hsame]

/-- The next event is applied. -/
theorem next (h : Holds store n position applied) (hordered : Log.InOrder Event.seq store)
    (he : e ∈ store) (hlt : position < e.seq)
    (hbetween : ∀ e' ∈ store, n < e'.seq → e'.seq < e.seq → e'.seq ≤ position) :
    Holds store n e.seq (applied ++ [e]) := by
  have hsplit := (hordered.upTo e.seq).split position
  rw [Log.upTo_upTo Event.seq store hlt.le] at hsplit
  have hlast : Log.after Event.seq n (Log.after Event.seq position
      (Log.upTo Event.seq e.seq store)) = Log.after Event.seq n [e] := by
    have hone : Log.InOrder Event.seq [e] := List.pairwise_singleton _ e
    apply (((hordered.upTo e.seq).after position).after n).ext (hone.after n)
    intro e'
    simp only [Log.after, Log.upTo, List.mem_filter, decide_eq_true_eq, List.mem_singleton]
    constructor
    · rintro ⟨⟨⟨he', hle⟩, hpast⟩, hn⟩
      have hseq : e'.seq = e.seq := by
        by_contra hne
        exact absurd (hbetween e' he' hn (lt_of_le_of_ne hle hne)) (not_le.mpr hpast)
      exact ⟨hordered.eq_of_seq he' he hseq, hn⟩
    · rintro ⟨rfl, hn⟩
      exact ⟨⟨⟨he, le_rfl⟩, hlt⟩, hn⟩
  unfold Holds at h ⊢
  calc Log.after Event.seq n (applied ++ [e])
      = Log.after Event.seq n applied ++ Log.after Event.seq n [e] := List.filter_append _ _
    _ = Log.after Event.seq n (Log.upTo Event.seq position store) ++
          Log.after Event.seq n (Log.after Event.seq position
            (Log.upTo Event.seq e.seq store)) := by rw [h, hlast]
    _ = Log.after Event.seq n (Log.upTo Event.seq position store ++
          Log.after Event.seq position (Log.upTo Event.seq e.seq store)) :=
      (List.filter_append _ _).symm
    _ = Log.after Event.seq n (Log.upTo Event.seq e.seq store) := by rw [hsplit]

/-- Nothing was stored since the last event. -/
theorem last (h : ∀ e ∈ applied, e ∈ store) :
    Holds store (EventStore.lastSeq store) position applied := by
  unfold Holds Log.after
  rw [List.filter_eq_nil_iff.mpr, List.filter_eq_nil_iff.mpr]
  · intro e he
    have hle := EventStore.le_lastSeq (List.mem_filter.mp he).1
    simpa using hle
  · intro e he
    simpa using EventStore.le_lastSeq (h e he)

/-- An event is stored beyond the position. -/
theorem stored (h : Holds store n position applied) (hle : position ≤ EventStore.lastSeq store)
    (he : EventStore.lastSeq store < e.seq) : Holds (store ++ [e]) n position applied := by
  unfold Holds at h ⊢
  rw [h, Log.upTo_concat Event.seq store (hle.trans_lt he)]

end Holds

namespace Gathered

variable {store applied : List Event} {n : ℕ} {m : Message}

/-- A notice applies no event, and moves the position as a subscription does. -/
theorem note_moves {nt : Notice} (hknown : (Message.notice nt).Known store) (g : Gathered) :
    (g.note nt).fresh = g.fresh ∧
      (g.note nt).lastSeq = (Message.notice nt).advance g.lastSeq := by
  have hreason : nt.data.reason ≠ "new_store" := hknown.2.2
  simp only [note, Message.advance]
  by_cases hsummary : nt.kind = "summary"
  · simp [hsummary]
  by_cases hquotes : nt.kind = "quotes"
  · simp [hquotes]
  by_cases hsubscribed : nt.kind = "subscribed"
  · simp only [hsubscribed, true_and]
    by_cases hle : nt.data.replayTo ≤ nt.data.sinceSeq
    · simp [hle]
    · simp [hle]
  by_cases hresync : nt.kind = "resync"
  · simp [hresync, hreason]
  · simp only [hsummary, hquotes, hsubscribed, hresync, if_false, false_and]
    split
    · exact ⟨rfl, rfl⟩
    · exact ⟨rfl, rfl⟩

theorem add_lastSeq (hknown : m.Known store) (g : Gathered) :
    (g.add m).lastSeq = m.advance g.lastSeq := by
  cases m with
  | notice nt => exact (note_moves hknown g).2
  | envelope e =>
    simp only [add, apply, Message.advance]
    split
    · rename_i hle
      exact (max_eq_left hle).symm
    · rename_i hlt
      exact (max_eq_right (not_le.mp hlt).le).symm

/-- A message that leaves out nothing. -/
theorem add_holds {g : Gathered} (hordered : Log.InOrder Event.seq store) (hknown : m.Known store)
    (hm : m.Continues store n g.lastSeq)
    (h : Holds store n g.lastSeq (applied ++ g.fresh)) :
    Holds store n (g.add m).lastSeq (applied ++ (g.add m).fresh) := by
  cases m with
  | envelope e =>
    simp only [add, apply]
    split
    · exact h
    · rename_i hlt
      dsimp only
      rw [← List.append_assoc]
      exact h.next hordered hknown (not_le.mp hlt) hm
  | notice nt =>
    obtain ⟨hfresh, hlast⟩ := note_moves hknown g
    show Holds store n (g.note nt).lastSeq (applied ++ (g.note nt).fresh)
    rw [hfresh, hlast]
    simp only [Message.advance]
    split
    · rename_i hsub
      refine h.clear (le_max_left _ _) fun e he hn hx => ?_
      rcases le_max_iff.mp hx with hle | hle
      · exact hle
      · exact hm.1 hsub.1 hsub.2 e he hn hle
    · exact h

theorem add_fresh {g : Gathered} {e : Event} (h : e ∈ (g.add m).fresh) :
    e ∈ g.fresh ∨ m = .envelope e := by
  cases m with
  | envelope e' =>
    simp only [add, apply] at h
    split at h
    · exact .inl h
    · rcases List.mem_append.mp h with hold | hnew
      · exact .inl hold
      · exact .inr (congrArg _ (List.mem_singleton.mp hnew).symm)
  | notice nt =>
    simp only [add, note, apply_ite Gathered.fresh, ite_self] at h
    exact .inl h

/-- A resync is the last one that was sent. -/
theorem add_resync {g : Gathered} {r : Resync} (h : (g.add m).resync = some r) :
    g.resync = some r ∨
      ∃ nt, m = .notice nt ∧ nt.kind = "resync" ∧ r.sinceSeq = nt.data.sinceSeq := by
  cases m with
  | envelope e =>
    simp only [add, apply, apply_ite Gathered.resync, ite_self] at h
    exact .inl h
  | notice nt =>
    by_cases hkind : nt.kind = "resync"
    · have hresync : (g.add (.notice nt)).resync =
          some { sinceSeq := nt.data.sinceSeq, reason := nt.data.reason } := by
        simp [add, note, hkind]
      rw [hresync] at h
      cases h
      exact .inr ⟨nt, rfl, hkind, rfl⟩
    · simp only [add, note, apply_ite Gathered.resync, ite_self, if_neg hkind] at h
      exact .inl h

end Gathered

section gather

variable {store applied : List Event} {n : ℕ} {batch : List Message}

theorem gather_lastSeq (hknown : ∀ m ∈ batch, m.Known store) (g : Gathered) :
    (batch.foldl Gathered.add g).lastSeq = ahead g.lastSeq batch := by
  induction batch generalizing g with
  | nil => rfl
  | cons m rest ih =>
    rw [List.foldl_cons, ih (fun m' hm' => hknown m' (List.mem_cons_of_mem _ hm')),
      Gathered.add_lastSeq (hknown m List.mem_cons_self)]
    rfl

/-- **A batch** that leaves out nothing is applied without a gap, and a resync in it is from where
nothing was left out. -/
theorem gather_holds {g : Gathered} (hordered : Log.InOrder Event.seq store)
    (hknown : ∀ m ∈ batch, m.Known store) (hbatch : ContinueFrom store n g.lastSeq batch)
    (h : Holds store n g.lastSeq (applied ++ g.fresh))
    (hresync : ∀ r, g.resync = some r → Clear store n g.lastSeq r.sinceSeq) :
    Holds store n (batch.foldl Gathered.add g).lastSeq
        (applied ++ (batch.foldl Gathered.add g).fresh) ∧
      ∀ r, (batch.foldl Gathered.add g).resync = some r →
        Clear store n (batch.foldl Gathered.add g).lastSeq r.sinceSeq := by
  induction batch generalizing g with
  | nil => exact ⟨h, hresync⟩
  | cons m rest ih =>
    have hm := hknown m List.mem_cons_self
    have hlast := Gathered.add_lastSeq hm g
    rw [List.foldl_cons]
    apply ih (fun m' hm' => hknown m' (List.mem_cons_of_mem _ hm'))
    · rw [hlast]
      exact hbatch.2
    · exact Gathered.add_holds hordered hm hbatch.1 h
    · intro r hr
      rw [hlast]
      rcases Gathered.add_resync hr with hold | ⟨nt, rfl, hkind, hsince⟩
      · exact (hresync r hold).mono (m.le_advance _)
      · rw [hsince]
        exact (hbatch.1.2 hkind).mono (Message.le_advance _ _)

/-- What is applied, and a resync, is of the store. -/
theorem gather_known {g : Gathered} (hknown : ∀ m ∈ batch, m.Known store)
    (hfresh : ∀ e ∈ g.fresh, e ∈ store)
    (hresync : ∀ r, g.resync = some r → r.sinceSeq ≤ EventStore.lastSeq store) :
    (∀ e ∈ (batch.foldl Gathered.add g).fresh, e ∈ store) ∧
      ∀ r, (batch.foldl Gathered.add g).resync = some r →
        r.sinceSeq ≤ EventStore.lastSeq store := by
  induction batch generalizing g with
  | nil => exact ⟨hfresh, hresync⟩
  | cons m rest ih =>
    have hm := hknown m List.mem_cons_self
    rw [List.foldl_cons]
    apply ih (fun m' hm' => hknown m' (List.mem_cons_of_mem _ hm'))
    · intro e he
      rcases Gathered.add_fresh he with hold | rfl
      · exact hfresh e hold
      · exact hm
    · intro r hr
      rcases Gathered.add_resync hr with hold | ⟨nt, rfl, -, hsince⟩
      · exact hresync r hold
      · rw [hsince]
        exact hm.1

end gather

end RakshaQuant
