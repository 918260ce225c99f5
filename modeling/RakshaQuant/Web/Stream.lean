import Mathlib.Data.Finset.Basic
import RakshaQuant.Domain.Types
import RakshaQuant.Lib.Dict
import RakshaQuant.Lib.Log

/-! The event stream of the web server: the hub's tailer, one subscriber and its
send loop over an event store that only grows. Each action is what runs from one
await to the next, so the actions of the three tasks interleave at every await. -/

namespace RakshaQuant

/-! ## Topics and messages -/

inductive Topic
  | orders | positions | decisions | risk | ai | market | system | summary | quotes
deriving DecidableEq

def Topic.value : Topic → String
  | .orders => "orders"
  | .positions => "positions"
  | .decisions => "decisions"
  | .risk => "risk"
  | .ai => "ai"
  | .market => "market"
  | .system => "system"
  | .summary => "summary"
  | .quotes => "quotes"

/-- `_TOPIC_OF`, topic by topic. -/
def topicTable : List (Topic × List String) :=
  [(.orders, ["OrderSubmitted", "OrderAcked", "OrderRejected", "OrderUnknown", "OrderCancelled",
      "OrderExpired", "FillReceived"]),
    (.positions, ["PositionChanged", "TradeClosed", "MarkToMarket"]),
    (.decisions, ["SignalGenerated", "AdvisorRequested", "AdvisorVerdict", "AdvisorFallback",
      "OrderIntentProposed", "SignalDisposition", "RiskDecision", "ShadowTradeOpened",
      "ShadowTradeClosed", "ShadowAlphaSettled"]),
    (.risk, ["KillSwitchChanged", "LimitBreached", "DailyRiskStateRolled", "ReconciliationResult",
      "ControlCommand"]),
    (.ai, ["LLMCall", "DecisionModelCall", "BudgetThresholdCrossed", "TradeReview"]),
    (.market, ["QuoteReceived", "QuoteRejected", "BarClosed", "DataSourceChanged", "FeedStale",
      "FeedRecovered", "AnnouncementReceived", "AnnouncementCoverageGap", "RegimeComputed",
      "TypedEvent"]),
    (.system, ["SessionStateChanged", "HolidaySkipped", "Heartbeat", "LoopLag", "Alert",
      "ProcessStarted", "ProcessStopped"])]

def eventTopics : Finset Topic := (topicTable.map Prod.fst).toFinset

def topicOf (type : String) : Topic :=
  ((topicTable.find? fun entry => entry.2.contains type).map Prod.fst).getD .system

theorem topicOf_mem (type : String) : topicOf type ∈ eventTopics := by
  unfold topicOf
  cases h : topicTable.find? fun entry => entry.2.contains type with
  | none => decide
  | some entry =>
    have hmem := List.mem_of_find?_eq_some h
    exact List.mem_toFinset.mpr (List.mem_map_of_mem hmem)

/-- A stored event. -/
structure Event where
  seq : ℕ
  type : String
  tsUtc : Instant
  decisionId : Option String
  bookId : Option String
  payload : String
deriving DecidableEq

def Event.topic (event : Event) : Topic := topicOf event.type

inductive NoticeData
  | heartbeat (lastSeq : ℕ)
  | resync (sinceSeq : ℕ) (reason : String)
  | subscribed (topics : Finset Topic) (sinceSeq replayTo : ℕ)
  | other (data : String)
deriving DecidableEq

/-- A message that is not a stored event, without the time it is written. -/
structure Notice where
  kind : String
  topic : Topic
  data : NoticeData
deriving DecidableEq

/-- An envelope holds the fields of its event, and the topic. -/
inductive Message
  | envelope (event : Event)
  | notice (notice : Notice)
deriving DecidableEq

def Message.event? : Message → Option Event
  | .envelope event => some event
  | .notice _ => none

def Message.seq (m : Message) : Option ℕ := m.event?.map Event.seq

/-! ## The store -/

namespace EventStore

/-- `last_seq`: the largest `seq`, 0 of an empty store. -/
def lastSeq (store : List Event) : ℕ := (store.map Event.seq).max?.getD 0

/-- `read`, oldest first. -/
def read (sinceSeq limit : ℕ) (store : List Event) : List Event :=
  (Log.after Event.seq sinceSeq store).take limit

theorem le_lastSeq {store : List Event} {e : Event} (h : e ∈ store) :
    e.seq ≤ lastSeq store := by
  have hmem := List.mem_map_of_mem (f := Event.seq) h
  unfold lastSeq
  cases hmax : (store.map Event.seq).max? with
  | none =>
    rw [List.max?_eq_none_iff.mp hmax] at hmem
    cases hmem
  | some m => exact (List.max?_eq_some_iff.mp hmax).2 _ hmem

/-- It is the `seq` of an event, if there is one. -/
theorem lastSeq_mem (store : List Event) :
    lastSeq store = 0 ∨ ∃ e ∈ store, e.seq = lastSeq store := by
  unfold lastSeq
  cases hmax : (store.map Event.seq).max? with
  | none => exact .inl rfl
  | some m => exact .inr (List.mem_map.mp (List.max?_eq_some_iff.mp hmax).1)

theorem read_prefix (sinceSeq limit : ℕ) (store : List Event) :
    read sinceSeq limit store <+: Log.after Event.seq sinceSeq store :=
  List.take_prefix _ _

end EventStore

/-! ## The subscriber -/

/-- The queue, the latest value of each slot, and what is still to replay: the
pair of the `seq` it is after and the `seq` it goes to. -/
structure Subscriber where
  queueMax : ℕ
  topics : Finset Topic
  queue : List Message
  slots : Dict Topic Notice
  wake : Bool
  paused : Bool
  replay : Option (ℕ × ℕ)
  ack : Option Notice
  lastSent : ℕ

namespace Subscriber

/-- Paused until the first subscribe. -/
def init (queueMax : ℕ) : Subscriber :=
  { queueMax := queueMax, topics := ∅, queue := [], slots := .empty, wake := false, paused := true,
    replay := none, ack := none, lastSent := 0 }

def push (message : Message) (sub : Subscriber) : Subscriber :=
  if sub.paused then sub
  else if sub.queueMax ≤ sub.queue.length then
    -- a slow client: the backlog is dropped, and the client asked to resync
    { sub with
      queue := [.notice ⟨"resync", .system, .resync sub.lastSent "overflow"⟩]
      paused := true
      replay := none
      wake := true }
  else { sub with queue := sub.queue ++ [message], wake := true }

def putSlot (topic : Topic) (message : Notice) (sub : Subscriber) : Subscriber :=
  if topic ∈ sub.topics ∧ sub.paused = false then
    { sub with slots := sub.slots.set topic message, wake := true }
  else sub

/-- `Hub.subscribe`, where the tailer stands at `head`. -/
def subscribe (topics : Finset Topic) (sinceSeq head : ℕ) (sub : Subscriber) : Subscriber :=
  let lastSent := min sinceSeq head
  { sub with
    topics := topics
    queue := []
    slots := .empty
    paused := false
    lastSent := lastSent
    replay := if (topics ∩ eventTopics).Nonempty ∧ sinceSeq < head then some (lastSent, head)
      else none
    ack := some ⟨"subscribed", .system, .subscribed topics lastSent head⟩
    wake := true }

/-- Nothing is to be sent. -/
def idle (sub : Subscriber) : Bool :=
  sub.ack.isNone && sub.replay.isNone && sub.queue.isEmpty && sub.slots.keys.isEmpty

end Subscriber

/-! ## The tasks -/

/-- Where `_tail_once` stands: between two polls, reading the store after
`head`, or with what was read. -/
inductive Tailer
  | sleeping
  | reading (head : ℕ)
  | fetched (head : ℕ) (events : List Event)
deriving DecidableEq

/-- Where `send_loop` stands: at its top, or at one of its awaits. -/
inductive Sender
  | top
  | waiting
  | beating
  | acking
  | reading (cursor replayTo : ℕ) (topics : Finset Topic)
  | fetched (cursor replayTo : ℕ) (topics : Finset Topic) (events : List Event)
  | replaying (event : Event) (replayTo : ℕ) (topics : Finset Topic)
      (rest : List Event)
  | queued (message : Message)
  | slotted (rest : List Topic)
  | dead
deriving DecidableEq

/-- The hub's read size. -/
structure HubConfig where
  batch : ℕ
  batch_pos : 0 < batch

/-- The store, the hub, the subscriber, its send loop, and what was sent. -/
structure Stream where
  store : List Event
  tailSeq : Option ℕ
  tailer : Tailer
  sub : Subscriber
  sender : Sender
  sent : List Message

namespace Stream

/-- A connection to a hub that has not tailed yet. -/
def init (store : List Event) (queueMax : ℕ) : Stream :=
  { store := store, tailSeq := none, tailer := .sleeping, sub := .init queueMax, sender := .top,
    sent := [] }

/-- `_head`: the first use starts tailing from the store's end. -/
def head (s : Stream) : ℕ := s.tailSeq.getD (EventStore.lastSeq s.store)

/-! ### Sending -/

/-- Send, and await at the place. -/
def send (message : Message) (place : Sender) (s : Stream) : Stream :=
  { s with sent := s.sent ++ [message], sender := place }

/-- `for topic in list(sub.slots)`. A slot that is gone is a `KeyError`. -/
def sendSlots : List Topic → Stream → Stream
  | [], s => { s with sender := .top }
  | topic :: rest, s =>
    match s.sub.slots.get? topic with
    | none => { s with sender := .dead }
    | some message =>
      { s with sub := { s.sub with slots := s.sub.slots.pop topic } }.send (.notice message)
        (.slotted rest)

/-- `while sub.queue`, and then the slots. -/
def sendQueue (s : Stream) : Stream :=
  match s.sub.queue with
  | [] => s.sendSlots s.sub.slots.keys
  | message :: rest =>
    { s with sub := { s.sub with queue := rest } }.send message (.queued message)

/-- What follows the `while` of `_send_replay`. -/
def endReplay (replayTo : ℕ) (s : Stream) : Stream :=
  { s with sub := { s.sub with
      replay := none, lastSent := max s.sub.lastSent replayTo } }.sendQueue

/-- The `while` of `_send_replay`. -/
def sendReplay (cursor replayTo : ℕ) (topics : Finset Topic) (s : Stream) : Stream :=
  if cursor < replayTo ∧ s.sub.replay.isSome then
    { s with sender := .reading cursor replayTo topics }
  else s.endReplay replayTo

/-- What follows the `for` over a batch. After an overflow the client resyncs. -/
def endBatch (cursor replayTo : ℕ) (topics : Finset Topic) (s : Stream) : Stream :=
  match s.sub.replay with
  | none => s.sendQueue
  | some _ =>
    { s with sub := { s.sub with replay := some (cursor, replayTo) } }.sendReplay cursor replayTo
      topics

/-- The `for` over a batch. -/
def sendBatch (replayTo : ℕ) (topics : Finset Topic) :
    ℕ → List Event → Stream → Stream
  | cursor, [], s => s.endBatch cursor replayTo topics
  | cursor, event :: rest, s =>
    if replayTo < event.seq then s.endBatch cursor replayTo topics
    else if event.topic ∈ topics then
      s.send (.envelope event) (.replaying event replayTo topics rest)
    else
      sendBatch replayTo topics event.seq rest
        { s with sub := { s.sub with lastSent := event.seq } }

/-- The replay that is asked for, if one is, and then the queue. -/
def startReplay (s : Stream) : Stream :=
  match s.sub.replay with
  | none => s.sendQueue
  | some (cursor, replayTo) => s.sendReplay cursor replayTo s.sub.topics

/-- The loop's body after the wait. -/
def woken (s : Stream) : Stream :=
  match s.sub.ack with
  | none => { s with sub := { s.sub with wake := false } }.startReplay
  | some ack =>
    { s with sub := { s.sub with wake := false, ack := none } }.send (.notice ack) .acking

/-- The top of the loop. -/
def turn (s : Stream) : Stream :=
  if s.sub.idle then { s with sender := .waiting } else s.woken

/-- The send loop, from the await it stands at to the next one or the top. -/
def advance (s : Stream) : Option Stream :=
  match s.sender with
  | .top => some s.turn
  | .beating => some s.turn
  | .waiting => if s.sub.wake then some s.woken else none
  | .acking => some s.startReplay
  | .reading _ _ _ => none
  | .fetched cursor replayTo topics events =>
    some (if events = [] then s.endReplay replayTo
      else s.sendBatch replayTo topics cursor events)
  | .replaying event replayTo topics rest =>
    some ({ s with sub := { s.sub with lastSent := event.seq } }.sendBatch replayTo topics
      event.seq rest)
  | .queued message =>
    some { s with sub := { s.sub with lastSent := message.seq.getD s.sub.lastSent } }.sendQueue
  | .slotted rest => some (s.sendSlots rest)
  | .dead => none

/-- There is no await at the top. -/
def settle (s : Stream) : Stream := if s.sender = .top then s.turn else s

/-! ### Tailing -/

/-- What `_tail_once` does with what it read. -/
def fanOut (head : ℕ) (events : List Event) (s : Stream) : Stream :=
  if events = [] then { s with tailer := .sleeping }
  else
    let last := Log.last Event.seq events
    { s with
      tailer := .sleeping
      tailSeq := some (if last = 0 then head else last)
      sub := events.foldl (fun sub event =>
        if event.topic ∈ sub.topics then sub.push (.envelope event) else sub) s.sub }

/-! ### Steps -/

inductive Action
  /-- The engine stores an event. -/
  | append (event : Event)
  /-- A subscribe message is received. -/
  | subscribe (topics : Finset Topic) (sinceSeq : ℕ)
  | announce (kind : String) (data : String)
  | publish (topic : Topic) (data : String)
  /-- The tailer wakes, its read is done, or its read failed and is left for the next poll. -/
  | poll
  | tailRead
  | tailFailed
  | tailResume
  /-- Nothing was to be sent for as long as a heartbeat takes. -/
  | timeout
  /-- A page of the replay is read, or its read failed and is done again. -/
  | replayRead
  | replayFailed
  /-- The send loop goes on. -/
  | resume
deriving DecidableEq

/-- One action, if it can happen. -/
def step (config : HubConfig) (s : Stream) : Action → Option Stream
  | .append event =>
    if EventStore.lastSeq s.store < event.seq then some { s with store := s.store ++ [event] }
    else none
  | .subscribe topics sinceSeq =>
    some { s with tailSeq := some s.head, sub := s.sub.subscribe topics sinceSeq s.head }
  | .announce kind data =>
    some (if .system ∈ s.sub.topics then
      { s with sub := s.sub.push (.notice ⟨kind, .system, .other data⟩) } else s)
  | .publish topic data =>
    some { s with sub := s.sub.putSlot topic ⟨topic.value, topic, .other data⟩ }
  | .poll =>
    if s.tailer = .sleeping then
      some { s with tailSeq := some s.head, tailer := .reading s.head } else none
  | .tailRead =>
    match s.tailer with
    | .reading head =>
      some { s with tailer := .fetched head (EventStore.read head config.batch s.store) }
    | _ => none
  | .tailFailed =>
    match s.tailer with
    | .reading _ => some { s with tailer := .sleeping }
    | _ => none
  | .tailResume =>
    match s.tailer with
    | .fetched head events => some (s.fanOut head events)
    | _ => none
  | .timeout =>
    if s.sender = .waiting then
      some (s.send (.notice ⟨"heartbeat", .system, .heartbeat (s.tailSeq.getD 0)⟩) .beating)
    else none
  | .replayRead =>
    match s.sender with
    | .reading cursor replayTo topics =>
      let events := EventStore.read cursor (min config.batch (replayTo - cursor)) s.store
      some { s with sender := .fetched cursor replayTo topics events }
    | _ => none
  | .replayFailed =>
    match s.sender with
    | .reading cursor replayTo topics => some (s.sendReplay cursor replayTo topics).settle
    | _ => none
  | .resume => s.advance.map settle

/-- A run; none when an action could not happen. -/
def run (config : HubConfig) : Stream → List Action → Option Stream
  | s, [] => some s
  | s, action :: rest => (step config s action).bind fun s' => run config s' rest

end Stream

end RakshaQuant
