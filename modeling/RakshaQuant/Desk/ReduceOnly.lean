import RakshaQuant.Brokers.Simulated.Solvency
import RakshaQuant.Desk.Coupling
import RakshaQuant.Oms.Concurrency

/-! Reduce-only never flips a position. With shorting off the gate lets only buys
and reductions pass, so no position is ever negative and every fill of an opening
order goes with the position; what is left is the headroom of the reduce-only
orders, and the simulated broker fills no order that has ended. -/

namespace RakshaQuant

/-- What a gate with shorting off lets pass. -/
def OrderIntent.Long (intent : OrderIntent) : Prop :=
  intent.reduceOnly = true ∨ intent.side = .buy

namespace OMS

/-- No short position, and reduce-only orders inside the long ones. -/
structure LongOnly (o : OMS) : Prop where
  headroom : o.Headroom
  long : ∀ instrumentKey product, 0 ≤ o.book.quantity instrumentKey product
  orders : ∀ coid order, o.orders.get? coid = some order → order.intent.Long

namespace LongOnly

variable {o o' : OMS}

theorem orders_set (h : o.LongOnly) {k : String} {changed : Order}
    (horders : o'.orders = o.orders.set k changed) (hchanged : changed.intent.Long) :
    ∀ coid order, o'.orders.get? coid = some order → order.intent.Long := by
  intro coid order ho
  rw [horders, Dict.get?_set_iff] at ho
  rcases ho with ⟨-, rfl⟩ | ⟨-, hold⟩
  · exact hchanged
  · exact h.orders coid order hold

/-- A fill of a live order goes with the position, or stays within it. -/
theorem fits (h : o.LongOnly) {k : String} {known : Order} {fill : Fill}
    (hk : o.orders.get? k = some known) (hlive : known.status.isTerminal = false)
    (hkey : fill.instrumentKey = known.intent.instrument.key)
    (hside : fill.side = known.intent.side) (hwithin : fill.quantity ≤ known.remainingQty) :
    Fits o known fill where
  key := hkey
  side := hside
  within := hwithin
  room hterm := by
    rw [hlive] at hterm
    cases hterm
  opening hro := by
    left
    rcases h.orders k known hk with hred | hbuy
    · rw [hred] at hro
      cases hro
    · rw [hbuy, Side.sign_buy, mul_one]
      exact h.long _ _

/-- The position a fill leaves is not negative. -/
theorem long_after (h : o.LongOnly) {k : String} {known : Order} {fill : Fill}
    (hk : o.orders.get? k = some known) (hfits : Fits o known fill)
    (hlive : known.status.isTerminal = false)
    (hbook : o'.book = o.book.record (known.application fill)) (instrumentKey : String)
    (product : Product) : 0 ≤ o'.book.quantity instrumentKey product := by
  have hq := fill.quantity_pos
  rw [Headroom.quantity_after hbook hfits]
  split
  · rename_i hc
    obtain ⟨rfl, rfl⟩ := hc
    have hpos := h.long known.intent.instrument.key known.intent.product
    cases hside : known.intent.side with
    | buy =>
      simp only [Side.sign_buy]
      omega
    | sell =>
      -- only a reduction sells, and it stays within the position
      have hro : known.intent.reduceOnly = true := by
        rcases h.orders k known hk with hred | hbuy
        · exact hred
        · rw [hside] at hbuy
          cases hbuy
      have hwithin := hfits.within
      obtain ⟨-, hreduces⟩ := h.headroom.reduces hk hro (by omega) fun hterm => by
        rw [hlive] at hterm
        cases hterm
      have hle := commits_le_committed h.headroom.filled hk known.intent.instrument.key
        known.intent.product
      rw [abs_of_nonneg hpos] at hreduces
      simp only [Side.sign_sell]
      omega
  · rw [add_zero]
    exact h.long _ _

/-- Every change keeps positions long and reduce-only orders inside them. -/
theorem change (h : o.LongOnly) (hchange : Change (fun order => order.intent.Long) o o') : o'.LongOnly := by
  cases hchange with
  | noted _ orders book _ =>
    refine ⟨h.headroom.same orders book, ?_, ?_⟩
    · rw [book]
      exact h.long
    · rw [orders]
      exact h.orders
  | recounted held orders book _ =>
    refine ⟨h.headroom.quiet held orders book rfl rfl rfl id, ?_,
      h.orders_set orders (h.orders _ _ held :)⟩
    rw [book]
    exact h.long
  | @registered order new allowed _ fresh room orders book _ =>
    have hfilled : order.filledQty ≤ order.quantity := by
      rw [new.filledQty]
      exact order.quantity_pos.le
    refine ⟨h.headroom.registered fresh orders book hfilled room, ?_, h.orders_set orders allowed⟩
    rw [book]
    exact h.long
  | moved held _ live orders book _ =>
    refine ⟨h.headroom.quiet held orders book rfl rfl rfl live, ?_,
      h.orders_set orders (h.orders _ _ held :)⟩
    rw [book]
    exact h.long
  | filled held _ live _ _ key side within orders book _ _ _ =>
    have hfits := h.fits held live key side within
    exact ⟨h.headroom.fills _ held orders book hfits, h.long_after held hfits live book,
      h.orders_set orders (h.orders _ _ held :)⟩

theorem init (bookId : String) (startingCash : ℚ) : (OMS.init (.init bookId startingCash)).LongOnly where
  headroom :=
    { filled := fun _ _ h => by cases h
      faces := fun _ _ h => by cases h
      bounded := fun _ _ => le_rfl }
  long _ _ := le_rfl
  orders _ _ h := by cases h

end LongOnly

end OMS

namespace System

variable {T : Type}

/-- Submissions go through the risk gate, shorting off. -/
def Op.RiskGated : Op → Prop
  | .submit _ _ _ _ gate _ => ∃ (Φ : Type) (engine : RiskEngine Φ) (now : Instant)
      (snapshot : OMS → OrderIntent → Except Exc Φ),
      engine.allowShort = false ∧ gate = RiskGate.call engine now snapshot
  | _ => True

theorem Op.RiskGated.gated {op : Op} (h : Op.RiskGated op) (config : OmsConfig) :
    Op.Gated config (fun order => order.intent.Long) op := by
  cases op with
  | submit now brokerNow intent quantity gate delivery =>
    obtain ⟨Φ, engine, gateNow, snapshot, hshort, rfl⟩ := h
    intro o qty result q placedAt hresult hpos
    exact RiskGate.call_long hshort hresult hpos
  | _ => trivial

/-- **Reduce-only never flips a position.** In every run of submissions through
the risk gate with shorting off, acknowledgements lost or not, of cancels, quotes,
expiries, resolutions and reconciliations in any order: the live reduce-only
orders never add up to more than the position, and the position is never negative. -/
theorem reduce_only_never_flips (sys : System T) (startingCash : ℚ) (ext : T) (ops : List Op)
    (hops : ∀ op ∈ ops, Op.RiskGated op) (instrumentKey : String) (product : Product) :
    let o := (sys.run (sys.init startingCash ext) ops).desk.oms
    o.committed instrumentKey product ≤ max (o.book.quantity instrumentKey product) 0 ∧
      0 ≤ o.book.quantity instrumentKey product := by
  intro o
  obtain ⟨-, hchanges⟩ := run_spec (fun op hop => (hops op hop).gated sys.config)
    (Coupled.init startingCash ext : Coupled sys _)
  have hlong : o.LongOnly :=
    Effect.invariant (I := OMS.LongOnly) (fun _ _ hchange h => h.change hchange) hchanges
      (.init sys.env.bookId startingCash)
  have hpos := hlong.long instrumentKey product
  have hbound := hlong.headroom.bounded instrumentKey product
  rw [abs_of_nonneg hpos] at hbound
  exact ⟨le_max_of_le_left hbound, hpos⟩

end System

/-! ## A desk that trades one instrument -/

namespace Sample

def system : System Unit := ⟨market, config, fun _ _ _ _ => ((), [])⟩

/-- The checks of an order against its own record and the position. -/
def engine : RiskEngine Unit :=
  { allowShort := false
    checks := [Check.qtyNonpos, Check.tick, Check.shortNotAllowed, Check.reduceExceedsPos]
    shorts := by simp }

def gate : Gate := RiskGate.call engine (clock 0) fun _ _ => .ok ()

def submit (seconds : ℤ) (intent : OrderIntent) (delivery : Delivery) : Op :=
  .submit (clock seconds) (clock seconds) intent none gate delivery

/-- Ten shares are bought; an exit for all of them is submitted and its
acknowledgement is lost; a second exit finds nothing left to reduce. -/
def twoExits : List Op :=
  [.quote (quote 0 0 zero_nonneg), submit 1 entry .delivered, .quote (quote 2 10 ten_nonneg),
    submit 3 (exit "X1") (.lost true "timeout"), submit 4 (exit "X2") .delivered,
    .resolveUnknown (clock 5), .reconcile (clock 6)]

end Sample

namespace System

theorem reduce_only_never_flips_two_exits :
    let o := (Sample.system.run (Sample.system.init 100000 ()) Sample.twoExits).desk.oms
    o.committed Sample.infy.key .cnc ≤ max (o.book.quantity Sample.infy.key .cnc) 0 ∧
      0 ≤ o.book.quantity Sample.infy.key .cnc := by
  refine reduce_only_never_flips Sample.system 100000 () Sample.twoExits ?_ Sample.infy.key .cnc
  have hgate : ∀ seconds intent delivery, Op.RiskGated (Sample.submit seconds intent delivery) :=
    fun _ _ _ => ⟨Unit, Sample.engine, Sample.clock 0, fun _ _ => .ok (), rfl, rfl⟩
  simp only [Sample.twoExits, List.forall_mem_cons, List.not_mem_nil, IsEmpty.forall_iff,
    implies_true, and_true]
  exact ⟨trivial, hgate _ _ _, trivial, hgate _ _ _, hgate _ _ _, trivial, trivial⟩

end System

end RakshaQuant
