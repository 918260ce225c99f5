import RakshaQuant.Lib.Fifo
import RakshaQuant.Oms.Accounting

/-! The position book refines the share queue. The specification reads the
distinct fills of one key share by share: a share matches the oldest open share
of the other side, and otherwise joins the queue. The book works on lots; its
open lots are the queue grouped by opening fill, and the pieces a fill closes
are the shares it matches, grouped the same way. -/

namespace RakshaQuant

namespace Application

/-! ## The specification -/

/-- Shares of two fills oppose each other when their sides differ. -/
def opposes (a b : Application) : Bool := a.fill.side != b.fill.side

/-- A share queue after the shares of one fill. -/
def settle (q : List Application) (a : Application) : List Application :=
  (Fifo.arrivals opposes a.fill.quantity.toNat q a).1

/-- The open shares a fill matches, oldest first. -/
def matched (q : List Application) (a : Application) : List Application :=
  (Fifo.arrivals opposes a.fill.quantity.toNat q a).2

/-- The open shares of a key after reading `as` in order, oldest first; a share
is the application that opened it. -/
def queue (key : String × Product) (as : List Application) : List Application :=
  as.foldl (fun q a => if a.key = key then settle q a else q) []

end Application

/-- An open lot without its unallocated charges. -/
structure OpenLot where
  fillId : String
  price : ℚ
  openedAt : Instant
  decisionId : String
  strategy : String
  quantity : ℤ
deriving DecidableEq

def Lot.view (l : Lot) : OpenLot :=
  ⟨l.fillId, l.price, l.openedAt, l.decisionId, l.strategy, l.quantity⟩

/-- The lot that `n` shares opened by one fill make up. -/
def Application.lotView (e : Application × ℕ) : OpenLot :=
  ⟨e.1.fill.fillId, e.1.fill.price, e.1.fill.ts, e.1.fill.decisionId, e.1.strategy, e.2⟩

/-- A closed piece without the charges allocated to it. -/
def ClosedPiece.uncharged (p : ClosedPiece) : ClosedPiece := { p with charges := 0, netPnl := 0 }

/-- The `i`-th piece of the closing fill `a`: `e.2` shares opened by `e.1`. -/
def Application.piece (a : Application) (i : ℕ) (e : Application × ℕ) : ClosedPiece :=
  { tradeId := a.fill.fillId ++ "#" ++ toString (i + 1)
    instrumentKey := a.fill.instrumentKey
    product := a.product
    side := e.1.fill.side
    quantity := e.2
    entryPrice := e.1.fill.price
    exitPrice := a.fill.price
    entryTs := e.1.fill.ts
    exitTs := a.fill.ts
    grossPnl := (a.fill.price - e.1.fill.price) * e.2 * e.1.fill.side.sign
    charges := 0
    netPnl := 0
    decisionId := e.1.fill.decisionId
    exitDecisionId := a.fill.decisionId
    strategy := e.1.strategy
    exitReason := a.exitReason }

/-! ## One book against its grouped queue -/

/-- The lots of a book are the groups `es` of open shares, all of the position's
side, no two groups opened by one fill. -/
structure Book.Groups (b : Book) (es : List (Application × ℕ)) : Prop where
  lots : b.lots.map Lot.view = es.map Application.lotView
  pos : ∀ e ∈ es, 0 < e.2
  ids : (es.map fun e => e.1.fill.fillId).Nodup
  side : ∀ e ∈ es, e.1.fill.side.sign = b.direction

theorem Book.Groups.nodup {b : Book} {es : List (Application × ℕ)} (h : b.Groups es) :
    (es.map Prod.fst).Nodup := by
  have hids := h.ids
  rw [show (fun e : Application × ℕ => e.1.fill.fillId) =
    (fun a : Application => a.fill.fillId) ∘ Prod.fst from rfl, ← List.map_map] at hids
  exact hids.of_map _

theorem Book.Groups.runs {b : Book} {es : List (Application × ℕ)} (h : b.Groups es) :
    Fifo.runs (Fifo.expand es) = es :=
  Fifo.runs_expand es h.pos h.nodup

theorem Book.Groups.side_expand {b : Book} {es : List (Application × ℕ)} (h : b.Groups es)
    {s : Application} (hs : s ∈ Fifo.expand es) : s.fill.side.sign = b.direction := by
  obtain ⟨e, he, hse⟩ := List.mem_flatMap.mp hs
  rw [(List.mem_replicate.mp hse).2]
  exact h.side e he

/-- The shares of a fill against the position oppose all that is held. -/
theorem Book.Groups.opposes {b : Book} {es : List (Application × ℕ)} (h : b.Groups es)
    {a : Application} (hdir : b.direction = -a.fill.side.sign) {s : Application}
    (hs : s ∈ Fifo.expand es) : Application.opposes a s = true := by
  have hd := h.side_expand hs
  have hne : a.fill.side ≠ s.fill.side := by
    intro he
    rcases s.fill.side.sign_unit with hu | hu <;> rw [he] at hdir <;> omega
  simpa [Application.opposes] using hne

theorem Side.of_sign (s : Side) : (if 0 < s.sign then Side.buy else Side.sell) = s := by
  cases s <;> simp

theorem Side.sign_inj {s t : Side} : s.sign = t.sign ↔ s = t := by
  cases s <;> cases t <;> simp

/-- The closing loop consumes groups of shares from the front: what it leaves,
what it reports and what it could not use are those of the lots in units. -/
theorem closeLots_consume (a : Application) (direction : ℤ) (lots : List Lot)
    (es : List (Application × ℕ)) (remaining : ℤ) (exitCharges : ℚ) (n : ℕ)
    (hlots : lots.map Lot.view = es.map Application.lotView)
    (hside : ∀ e ∈ es, e.1.fill.side.sign = direction) (h0 : 0 ≤ remaining) :
    let c := closeLots a.fill a.product a.exitReason direction lots remaining exitCharges n
    let taken := Fifo.consume remaining.toNat es
    c.lots.map Lot.view = taken.2.map Application.lotView ∧
      c.closed.map ClosedPiece.uncharged = taken.1.mapIdx (fun i e => a.piece (n + i) e) ∧
      c.remaining.toNat = remaining.toNat - (Fifo.expand es).length := by
  -- by induction on the lots; the shares to close and the number of the next piece vary
  induction lots generalizing es remaining exitCharges n with
  | nil =>
    have hes : es = [] := by simpa using hlots.symm
    subst hes
    simp [closeLots, Fifo.consume, Fifo.expand]
  | cons lot rest ih =>
    cases es with
    | nil => simp at hlots
    | cons e es =>
      obtain ⟨x, k⟩ := e
      simp only [List.map_cons, List.cons.injEq] at hlots
      obtain ⟨hlot, hrest⟩ := hlots
      simp only [List.mem_cons, forall_eq_or_imp] at hside
      have hq : lot.quantity = k := congrArg OpenLot.quantity hlot
      have hprice : lot.price = x.fill.price := congrArg OpenLot.price hlot
      have hopened : lot.openedAt = x.fill.ts := congrArg OpenLot.openedAt hlot
      have hdecision : lot.decisionId = x.fill.decisionId := congrArg OpenLot.decisionId hlot
      have hstrategy : lot.strategy = x.strategy := congrArg OpenLot.strategy hlot
      have hpiece : ∀ (take : ℤ) (m : ℕ) (entry exit : ℚ), take = m →
          (ClosedPiece.of a.fill a.product a.exitReason direction lot take entry exit
            (n + 1)).uncharged = a.piece n (x, m) := by
        intro take m entry exit htake
        simp [ClosedPiece.of, ClosedPiece.uncharged, Application.piece, htake, hprice, hopened,
          hdecision, hstrategy, ← hside.1, Side.of_sign]
      rcases h0.eq_or_lt with h0 | h0
      · simp [← h0, closeLots_zero, Fifo.consume_zero, hlot, hrest]
      · have hn0 : remaining.toNat ≠ 0 := by omega
        rcases lt_or_ge remaining lot.quantity with h | h
        · -- the fill ends inside the oldest group
          have hlt : remaining.toNat < k := by omega
          rw [closeLots_part _ _ _ _ _ _ h0 h, Fifo.consume, if_neg hn0, if_pos hlt]
          refine ⟨?_, ?_, ?_⟩
          · have hleft : (lot.left remaining h).view = Application.lotView (x, k - remaining.toNat) := by
              have hqty : lot.quantity - remaining = ((k - remaining.toNat : ℕ) : ℤ) := by omega
              have hid : lot.fillId = x.fill.fillId := congrArg OpenLot.fillId hlot
              simp [Lot.view, Lot.left, Application.lotView, hqty, hid, hprice, hopened, hdecision,
                hstrategy]
            simp [hleft, hrest]
          · simp [hpiece remaining remaining.toNat _ _ (by omega)]
          · simp only [Fifo.expand_cons, List.length_append, List.length_replicate]
            omega
        · -- the fill takes the whole oldest group
          have hge : ¬remaining.toNat < k := by omega
          have hsub : (remaining - lot.quantity).toNat = remaining.toNat - k := by omega
          obtain ⟨hl, hc, hr⟩ := ih es (remaining - lot.quantity)
            (exitCharges - a.fill.exitAlloc remaining exitCharges lot.quantity) (n + 1) hrest
            hside.2 (by omega)
          rw [hsub] at hl hc hr
          rw [closeLots_whole _ _ _ _ _ _ h0 h, Fifo.consume, if_neg hn0, if_neg hge]
          refine ⟨hl, ?_, ?_⟩
          -- the pieces after it are numbered one further
          · have hshift : (fun i e => a.piece (n + (i + 1)) e) =
                fun i e => a.piece (n + 1 + i) e := by
              funext i e
              rw [Nat.add_assoc n 1 i, Nat.add_comm 1 i]
            rw [List.map_cons, List.mapIdx_cons, hpiece _ k _ _ hq, hc, hshift]
            rfl
          · simp only [Fifo.expand_cons, List.length_append, List.length_replicate]
            omega

theorem Lot.view_ofFill (a : Application) (quantity : ℤ) (charges : ℚ) (h : 0 < quantity) :
    (Lot.ofFill a.fill a.strategy quantity charges h).view =
      Application.lotView (a, quantity.toNat) := by
  simp [Lot.view, Lot.ofFill, Application.lotView, Int.toNat_of_nonneg h.le]

/-- What a fill reports as closed are the shares it matches, grouped. -/
theorem Book.Groups.closing {b : Book} {es : List (Application × ℕ)} (h : b.Groups es)
    (a : Application) :
    (b.closing a.fill a.product a.exitReason).closed.map ClosedPiece.uncharged =
      (Fifo.runs (Application.matched (Fifo.expand es) a)).mapIdx a.piece := by
  unfold Book.closing
  by_cases ha : b.adds a.fill
  · have hjoin : Application.matched (Fifo.expand es) a = [] := by
      rw [Application.matched, Fifo.arrivals_join]
      · intro s hs
        have hd := h.side_expand hs
        rcases ha with h0 | h1
        · rw [h0] at hd
          rcases s.fill.side.sign_unit with hu | hu <;> omega
        · rw [h1] at hd
          simp [Application.opposes, Side.sign_inj.mp hd]
      · simp [Application.opposes]
    simp [ha, hjoin, Fifo.runs]
  · obtain ⟨hdir, -⟩ := Book.direction_of_not_adds ha
    have hmatch : Application.matched (Fifo.expand es) a =
        Fifo.expand (Fifo.consume a.fill.quantity.toNat es).1 := by
      rw [Application.matched, Fifo.arrivals_match, (Fifo.expand_consume _ _).1]
      · exact fun s hs => h.opposes hdir hs
      · simp [Application.opposes]
    obtain ⟨hpos, -⟩ := Fifo.consume_pos a.fill.quantity.toNat es h.pos
    obtain ⟨hkeys, -⟩ := Fifo.consume_keys a.fill.quantity.toNat es
    have hclose := (closeLots_consume a b.direction b.lots es a.fill.quantity a.fill.charges 0
      h.lots h.side a.fill.quantity_pos.le).2.1
    rw [if_neg ha, hclose, hmatch, Fifo.runs_expand _ hpos (h.nodup.sublist hkeys)]
    simp

/-- A fill on the position's side is one group more, behind the others. -/
theorem Book.Groups.adds {b : Book} {es : List (Application × ℕ)} (h : b.Groups es)
    (a : Application) (hnew : ∀ e ∈ es, e.1.fill.fillId ≠ a.fill.fillId) (ha : b.adds a.fill) :
    ∃ es', (b.applyFill a.fill a.product a.strategy a.exitReason).Groups es' ∧
      Fifo.expand es' = Application.settle (Fifo.expand es) a ∧
      ∀ e ∈ es', e.1 = a ∨ e.1 ∈ es.map Prod.fst := by
  have hq0 : 0 < a.fill.quantity.toNat := by
    have := a.fill.quantity_pos
    omega
  have hsame : ∀ e ∈ es, e.1.fill.side = a.fill.side := by
    intro e he
    have hd := h.side e he
    rcases ha with h0 | h1
    · rw [h0] at hd
      rcases e.1.fill.side.sign_unit with hu | hu <;> omega
    · exact Side.sign_inj.mp (hd.trans h1)
  -- share by share: all shares of the fill join the queue, and none leaves it
  refine ⟨es ++ [(a, a.fill.quantity.toNat)], ?_, ?_, ?_⟩
  · unfold Book.applyFill
    rw [dif_pos ha]
    constructor
    · simp [Book.push, h.lots, Lot.view_ofFill]
    · intro e he
      rcases List.mem_append.mp he with he | he
      · exact h.pos e he
      · rw [List.mem_singleton.mp he]
        exact hq0
    · rw [List.map_append]
      refine List.nodup_append.mpr ⟨h.ids, by simp, ?_⟩
      intro x hx y hy hxy
      obtain ⟨e, he, rfl⟩ := List.mem_map.mp hx
      exact hnew e he (hxy.trans (List.mem_singleton.mp hy))
    · intro e he
      rcases List.mem_append.mp he with he | he
      · rw [hsame e he]
        rfl
      · rw [List.mem_singleton.mp he]
        rfl
  · rw [Application.settle, Fifo.arrivals_join]
    · simp [Fifo.expand]
    · intro s hs
      obtain ⟨e, he, hse⟩ := List.mem_flatMap.mp hs
      rw [(List.mem_replicate.mp hse).2]
      simp [Application.opposes, hsame e he]
    · simp [Application.opposes]
  · intro e he
    rcases List.mem_append.mp he with he | he
    · exact .inr (List.mem_map_of_mem he)
    · exact .inl (by rw [List.mem_singleton.mp he])

/-- A fill against the position consumes groups from the front; the rest of a flip is one
new group. -/
theorem Book.Groups.closes {b : Book} {es : List (Application × ℕ)} (h : b.Groups es)
    (a : Application) (ha : ¬b.adds a.fill) :
    ∃ es', (b.applyFill a.fill a.product a.strategy a.exitReason).Groups es' ∧
      Fifo.expand es' = Application.settle (Fifo.expand es) a ∧
      ∀ e ∈ es', e.1 = a ∨ e.1 ∈ es.map Prod.fst := by
  obtain ⟨hdir, -⟩ := Book.direction_of_not_adds ha
  have hc : b.closing a.fill a.product a.exitReason =
      closeLots a.fill a.product a.exitReason b.direction b.lots a.fill.quantity
        a.fill.charges 0 := by
    rw [Book.closing, if_neg ha]
  obtain ⟨hl, -, hr⟩ := closeLots_consume a b.direction b.lots es a.fill.quantity a.fill.charges
    0 h.lots h.side a.fill.quantity_pos.le
  have hstop := closeLots_exhausts a.fill a.product a.exitReason b.direction b.lots
    a.fill.quantity a.fill.charges 0 a.fill.quantity_pos.le
  simp only [← hc] at hl hr hstop
  obtain ⟨-, hpos⟩ := Fifo.consume_pos a.fill.quantity.toNat es h.pos
  obtain ⟨-, hkeys⟩ := Fifo.consume_keys a.fill.quantity.toNat es
  have hsub : ∀ e ∈ (Fifo.consume a.fill.quantity.toNat es).2, e.1 ∈ es.map Prod.fst :=
    fun e he => hkeys.subset (List.mem_map_of_mem he)
  -- share by share the queue loses its front, and what the fill has left over comes last
  have hqueue : Application.settle (Fifo.expand es) a =
      Fifo.expand (Fifo.consume a.fill.quantity.toNat es).2 ++
        List.replicate (a.fill.quantity.toNat - (Fifo.expand es).length) a := by
    rw [Application.settle, Fifo.arrivals_match, (Fifo.expand_consume _ _).2]
    · exact fun s hs => h.opposes hdir hs
    · simp [Application.opposes]
  unfold Book.applyFill
  rw [dif_neg ha]
  by_cases hrem : 0 < (b.closing a.fill a.product a.exitReason).remaining
  -- the fill flips the position: all lots are used up and the rest opens one group
  · have hnil : (b.closing a.fill a.product a.exitReason).lots = [] := by
      rcases hstop with h0 | h0
      · omega
      · exact h0
    have hnone : (Fifo.consume a.fill.quantity.toNat es).2 = [] := by
      rw [hnil] at hl
      simpa using hl.symm
    simp only [dif_pos hrem]
    refine ⟨[(a, (b.closing a.fill a.product a.exitReason).remaining.toNat)], ?_, ?_, ?_⟩
    · constructor
      · simp [Book.push, hnil, Lot.view_ofFill]
      · simpa using hrem
      · simp
      · simp [Book.push]
    · rw [hqueue, hnone, hr]
      simp [Fifo.expand]
    · simp
  -- the fill is used up: what it leaves of the groups keeps their ids and their side
  · simp only [dif_neg hrem]
    refine ⟨(Fifo.consume a.fill.quantity.toNat es).2, ?_, ?_, fun e he => .inr (hsub e he)⟩
    · constructor
      · exact hl
      · exact hpos
      · have hids := h.ids
        rw [show (fun e : Application × ℕ => e.1.fill.fillId) =
          (fun a : Application => a.fill.fillId) ∘ Prod.fst from rfl, ← List.map_map] at hids ⊢
        exact hids.sublist (hkeys.map _)
      · intro e he
        have hne : (b.closing a.fill a.product a.exitReason).lots ≠ [] := by
          intro hnil
          rw [hnil] at hl
          have : (Fifo.consume a.fill.quantity.toNat es).2 = [] := by simpa using hl.symm
          rw [this] at he
          simp at he
        show e.1.fill.side.sign = if _ then 0 else b.direction
        rw [if_neg hne]
        obtain ⟨e', he', heq⟩ := List.mem_map.mp (hsub e he)
        rw [← heq]
        exact h.side e' he'
    · have hzero : a.fill.quantity.toNat - (Fifo.expand es).length = 0 := by omega
      rw [hqueue, hzero]
      simp

/-- The groups of a book after a fill, and the share queue they are. -/
theorem Book.Groups.applyFill {b : Book} {es : List (Application × ℕ)} (h : b.Groups es)
    (a : Application) (hnew : ∀ e ∈ es, e.1.fill.fillId ≠ a.fill.fillId) :
    ∃ es', (b.applyFill a.fill a.product a.strategy a.exitReason).Groups es' ∧
      Fifo.expand es' = Application.settle (Fifo.expand es) a ∧
      ∀ e ∈ es', e.1 = a ∨ e.1 ∈ es.map Prod.fst := by
  by_cases ha : b.adds a.fill
  · exact h.adds a hnew ha
  · exact h.closes a ha

/-! ## The whole book -/

namespace PositionBook

theorem applyAll_append (b : PositionBook) (as : List Application) (a : Application) :
    b.applyAll (as ++ [a]) = (b.applyAll as).step a := by
  simp [applyAll]

theorem distinct_append (b : PositionBook) (as : List Application) (a : Application) :
    Application.distinct b.bookId b.seen (as ++ [a]) =
      Application.distinct b.bookId b.seen as ++ if (b.applyAll as).Fresh a then [a] else [] := by
  induction as generalizing b with
  | nil =>
    by_cases h : b.Fresh a
    · have h' : a.fill.bookId = b.bookId ∧ a.fill.fillId ∉ b.seen := h
      simp [Application.distinct, applyAll, h, h']
    · have h' : ¬(a.fill.bookId = b.bookId ∧ a.fill.fillId ∉ b.seen) := h
      simp only [List.nil_append, Application.distinct, h', if_false, applyAll, List.foldl_nil, h]
  | cons c rest ih =>
    have hrest : b.applyAll (c :: rest) = (b.step c).applyAll rest := rfl
    have hih := ih (b.step c)
    rw [bookId_step, seen_step] at hih
    rw [hrest, List.cons_append, Application.distinct, Application.distinct]
    by_cases h : b.Fresh c
    · have h' : c.fill.bookId = b.bookId ∧ c.fill.fillId ∉ b.seen := h
      rw [if_pos h] at hih
      rw [if_pos h', if_pos h', hih, List.cons_append]
    · have h' : ¬(c.fill.bookId = b.bookId ∧ c.fill.fillId ∉ b.seen) := h
      rw [if_neg h] at hih
      rw [if_neg h', if_neg h', hih]

/-- After any sequence, the book of a key is its grouped share queue, and every
open share was opened by a fill the book has applied. -/
theorem groups_applyAll (bookId : String) (startingCash : ℚ) (as : List Application)
    (key : String × Product) :
    ∃ es, (((init bookId startingCash).applyAll as).bookAt key).Groups es ∧
      Fifo.expand es = Application.queue key (Application.distinct bookId [] as) ∧
      ∀ e ∈ es, e.1.fill.fillId ∈ ((init bookId startingCash).applyAll as).seen := by
  induction as using List.reverseRecOn with
  | nil =>
    refine ⟨[], ⟨rfl, by simp, by simp, by simp⟩, rfl, by simp⟩
  | append_singleton as a ih =>
    obtain ⟨es, hg, hq, hseen⟩ := ih
    have hdist := distinct_append (init bookId startingCash) as a
    rw [applyAll_append]
    simp only [show (init bookId startingCash).bookId = bookId from rfl,
      show (init bookId startingCash).seen = [] from rfl] at hdist
    rw [hdist, seen_step]
    by_cases hf : ((init bookId startingCash).applyAll as).Fresh a
    · rw [if_pos hf, if_pos hf, step_of_fresh hf, bookAt_record, Application.queue,
        List.foldl_append, ← Application.queue, ← hq]
      by_cases hk : key = a.key
      · subst hk
        obtain ⟨es', hg', hq', hin⟩ := hg.applyFill a (fun e he hid => hf.2 (hid ▸ hseen e he))
        refine ⟨es', by simpa using hg', by simpa using hq', ?_⟩
        intro e he
        rcases hin e he with hea | hee
        · simp [hea]
        · obtain ⟨e', he', heq⟩ := List.mem_map.mp hee
          exact List.mem_cons_of_mem _ (heq ▸ hseen e' he')
      · refine ⟨es, by simpa [hk] using hg, by simp [Ne.symm hk], ?_⟩
        exact fun e he => List.mem_cons_of_mem _ (hseen e he)
    · rw [if_neg hf, if_neg hf, bookAt_step_of_not_fresh hf, List.append_nil]
      exact ⟨es, hg, hq, hseen⟩

/-- The position is the signed sum of the distinct fills of its key. -/
theorem quantity_applyAll (bookId : String) (startingCash : ℚ) (as : List Application)
    (key : String × Product) :
    ((init bookId startingCash).applyAll as).quantity key.1 key.2 =
      (((Application.distinct bookId [] as).filter fun a => a.key = key).map fun a =>
        a.fill.signedQty).sum := by
  have h := applyAll_sum (fun b : PositionBook => (b.bookAt key).quantity)
    (fun a => if a.key = key then a.fill.signedQty else 0)
    (fun b a _ => by
      rw [bookAt_record]
      by_cases hk : key = a.key
      · simp [hk, Book.quantity_applyFill]
      · simp [hk, Ne.symm hk])
    (fun b a hf => by rw [bookAt_step_of_not_fresh hf])
    (init bookId startingCash) as
  have hfilter : ∀ l : List Application,
      (l.map fun a => if a.key = key then a.fill.signedQty else 0).sum =
        ((l.filter fun a => a.key = key).map fun a => a.fill.signedQty).sum := by
    intro l
    induction l with
    | nil => rfl
    | cons a rest ih => by_cases hk : a.key = key <;> simp [hk, ih]
  rw [hfilter] at h
  simpa [quantity, init, bookAt] using h

/-- **The book is a FIFO share queue.** After any sequence of fills, for every
key: the open lots are the queue of open shares grouped by opening fill, on one
side, none when the position is flat; the position is the signed sum of the
distinct fills; and the next call reports as closed exactly the open shares the
new fill matches, grouped by opening fill, or nothing when it is a re-delivery. -/
theorem fifo_refinement (bookId : String) (startingCash : ℚ) (as : List Application)
    (key : String × Product) :
    let b := (init bookId startingCash).applyAll as
    let fills := Application.distinct bookId [] as
    let q := Application.queue key fills
    (b.bookAt key).lots.map Lot.view = (Fifo.runs q).map Application.lotView ∧
    (∀ l ∈ (b.bookAt key).lots, 0 < l.quantity) ∧
    (∀ s ∈ q, s.fill.side.sign = (b.bookAt key).direction) ∧
    (b.quantity key.1 key.2 = 0 ↔ (b.bookAt key).lots = []) ∧
    b.quantity key.1 key.2 =
      ((fills.filter fun a => a.key = key).map fun a => a.fill.signedQty).sum ∧
    ∀ a outcome b', a.key = key →
      b.apply a.fill a.product a.strategy a.exitReason = .ok (outcome, b') →
      outcome.closed.map ClosedPiece.uncharged =
        if b.Fresh a then (Fifo.runs (Application.matched q a)).mapIdx a.piece else [] := by
  intro b fills q
  obtain ⟨es, hg, hq, -⟩ := groups_applyAll bookId startingCash as key
  have hb : (b.bookAt key).Groups es := hg
  have hes : Fifo.expand es = q := hq
  refine ⟨?_, fun l _ => l.quantity_pos, ?_, ?_, quantity_applyAll bookId startingCash as key, ?_⟩
  · rw [← hes, hb.runs, hb.lots]
  · intro s hs
    exact hb.side_expand (hes ▸ hs)
  · show (b.bookAt key).quantity = 0 ↔ _
    constructor
    · intro h0
      by_contra hne
      have hshares : 0 < (b.bookAt key).shares :=
        List.sum_pos _ (by simpa using fun l _ => l.quantity_pos) (by simpa using hne)
      have hd : (b.bookAt key).direction ≠ 0 := fun hd => hne ((b.bookAt key).flat_iff.mp hd)
      rcases mul_eq_zero.mp h0 with h | h
      · exact hd h
      · exact hshares.ne' h
    · intro hnil
      simp [Book.quantity, Book.shares, hnil]
  -- a fill that is not fresh is refused, or was seen and closes nothing
  · rintro a outcome b' rfl happly
    by_cases hf : b.Fresh a
    · rw [apply_of_fresh hf] at happly
      simp only [Except.ok.injEq, Prod.mk.injEq] at happly
      rw [if_pos hf, ← happly.1, ← hes]
      exact hb.closing a
    · rw [if_neg hf]
      unfold apply at happly
      by_cases hid : a.fill.bookId = b.bookId
      · have hs : a.fill.fillId ∈ b.seen := by
          by_contra hs
          exact hf ⟨hid, hs⟩
        simp only [hid, hs, ne_eq, not_true_eq_false, if_false, if_true, Except.ok.injEq,
          Prod.mk.injEq] at happly
        rw [← happly.1]
        rfl
      · simp [hid] at happly

end PositionBook

end RakshaQuant
