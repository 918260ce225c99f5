import RakshaQuant.Web.Delivery

/-! The browser's end of the stream: its reducer, and the client that batches messages per frame,
reconnects and resumes. Its position is one number, which is also 0 before the first connection. -/

namespace RakshaQuant

/-! ## The data of a notice, 0 or nothing where it has none -/

namespace NoticeData

def sinceSeq : NoticeData → ℕ
  | .resync sinceSeq _ => sinceSeq
  | .subscribed _ sinceSeq _ => sinceSeq
  | _ => 0

def replayTo : NoticeData → ℕ
  | .subscribed _ _ replayTo => replayTo
  | _ => 0

def reason : NoticeData → String
  | .resync _ reason => reason
  | _ => ""

end NoticeData

/-! ## The reducer -/

inductive ConnStatus
  | connecting | opened | reconnecting | unauthorized
deriving DecidableEq

structure StreamState where
  status : ConnStatus
  lastSeq : ℕ
  events : List Event
  summary : Option NoticeData
  quotes : Option NoticeData
  lastMessageAt : Option Instant
  notices : List Notice

def initialStream : StreamState :=
  { status := .connecting, lastSeq := 0, events := [], summary := none, quotes := none
    lastMessageAt := none, notices := [] }

structure Resync where
  sinceSeq : ℕ
  reason : String
deriving DecidableEq

structure Applied where
  state : StreamState
  topics : Finset Topic
  resync : Option Resync

/-- What the messages of a batch come to. -/
structure Gathered where
  lastSeq : ℕ
  summary : Option NoticeData
  quotes : Option NoticeData
  fresh : List Event
  notices : List Notice
  topics : Finset Topic
  resync : Option Resync

namespace Gathered

def of (state : StreamState) : Gathered :=
  { lastSeq := state.lastSeq, summary := state.summary, quotes := state.quotes, fresh := []
    notices := [], topics := ∅, resync := none }

/-- A stored event at or below the position is dropped. -/
def apply (e : Event) (g : Gathered) : Gathered :=
  if e.seq ≤ g.lastSeq then g
  else { g with lastSeq := e.seq, fresh := g.fresh ++ [e], topics := insert e.topic g.topics }

/-- A message that is not a stored event. A subscription without replay starts at the head. -/
def note (n : Notice) (g : Gathered) : Gathered :=
  if n.kind = "summary" then { g with summary := some n.data }
  else if n.kind = "quotes" then { g with quotes := some n.data }
  else if n.kind = "subscribed" then
    if n.data.replayTo ≤ n.data.sinceSeq then { g with lastSeq := max g.lastSeq n.data.replayTo }
    else g
  else if n.kind = "resync" then
    { g with
      resync := some { sinceSeq := n.data.sinceSeq, reason := n.data.reason }
      lastSeq := if n.data.reason = "new_store" then 0 else g.lastSeq }
  else if n.kind = "stopped" ∨ n.kind = "error" then { g with notices := g.notices ++ [n] }
  else g

def add (g : Gathered) : Message → Gathered
  | .envelope e => g.apply e
  | .notice n => g.note n

end Gathered

/-- The last of a list. -/
def lastOf {α : Type} (n : ℕ) (l : List α) : List α := l.drop (l.length - n)

def gather (state : StreamState) (batch : List Message) : Gathered :=
  batch.foldl Gathered.add (.of state)

/-- `reduce`. -/
def reduce (state : StreamState) (batch : List Message) (now : Instant) : Applied :=
  let g := gather state batch
  { state :=
      { state with
        lastSeq := g.lastSeq
        events := if g.fresh = [] then state.events else lastOf 600 (state.events ++ g.fresh)
        summary := g.summary
        quotes := g.quotes
        lastMessageAt := if batch = [] then state.lastMessageAt else some now
        notices := if g.notices = [] then state.notices else lastOf 20 (state.notices ++ g.notices) }
    topics := g.topics
    resync := g.resync }

/-! ## The client -/

/-- The socket: none, none and a reconnection is due, or one in its states. -/
inductive Link
  | none | waiting | connecting | opened | closing
deriving DecidableEq

def Link.close : Link → Link
  | .connecting | .opened => .closing
  | link => link

/-- `Number.MAX_SAFE_INTEGER`. -/
def noReplay : ℕ := 9007199254740991

structure StreamClient where
  state : StreamState
  link : Link
  pending : List Message
  frame : Bool
  resumeFrom : Option ℕ

namespace StreamClient

/-- A client that connects for the first time. -/
def start : StreamClient :=
  { state := initialStream, link := .connecting, pending := [], frame := false, resumeFrom := none }

def withStatus (c : StreamClient) (status : ConnStatus) (link : Link) : StreamClient :=
  { c with state := { c.state with status }, link }

/-- What it subscribes from. First connection: live only. After a drop: after the last event that
was applied. -/
def since (c : StreamClient) : ℕ :=
  c.resumeFrom.getD (if 0 < c.state.lastSeq then c.state.lastSeq else noReplay)

def onopen (c : StreamClient) : StreamClient :=
  { c.withStatus .opened .opened with resumeFrom := none }

def onmessage (c : StreamClient) (m : Message) : StreamClient :=
  { c with pending := c.pending ++ [m], frame := true }

/-- A closed socket is opened again later, unless the token was refused. -/
def onclose (c : StreamClient) (refused : Bool) : StreamClient :=
  if refused then c.withStatus .unauthorized .none else c.withStatus .reconnecting .waiting

def flush (c : StreamClient) (now : Instant) : StreamClient :=
  let applied := reduce c.state c.pending now
  let c := { c with state := applied.state, pending := [], frame := false }
  match applied.resync with
  | none => c
  | some r => { c with resumeFrom := some r.sinceSeq, link := c.link.close }

end StreamClient

/-! ## The browser and the server -/

/-- The topics that the client subscribes to: `events`, `summary` and `quotes`. -/
def streamTopics : Finset Topic := eventTopics ∪ {.summary, .quotes}

/-- The hub with the connection of the client, the subscription that is under way, how many of the
messages sent have arrived, all events that were applied, and the last stored event when the first
`subscribed` was. -/
structure Browsing where
  server : Stream
  client : StreamClient
  asked : Option ℕ
  delivered : ℕ
  applied : List Event
  first : Option ℕ

/-- A new connection to the hub. -/
def Stream.accept (s : Stream) : Stream :=
  { s with sub := .init s.sub.queueMax, sender := .top, sent := [] }

def Message.subscribes : Message → Bool
  | .envelope _ => false
  | .notice n => n.kind = "subscribed"

namespace Browsing

def init (store : List Event) (queueMax : ℕ) : Browsing :=
  { server := .init store queueMax, client := .start, asked := none, delivered := 0, applied := []
    first := none }

inductive Action
  /-- The engine, the tailer or the send loop goes on. -/
  | server (action : Stream.Action)
  /-- The socket is open, and the subscription is sent. -/
  | opens
  /-- The server receives the subscription. -/
  | subscribes
  | delivers
  | flushes (now : Instant)
  | drops (refused : Bool)
  | connects

def flushed (b : Browsing) (now : Instant) : Browsing :=
  { b with
    client := b.client.flush now
    applied := b.applied ++ (gather b.client.state b.client.pending).fresh
    first := b.first.orElse fun _ =>
      if b.client.pending.any Message.subscribes then some (EventStore.lastSeq b.server.store)
      else none }

def step (config : HubConfig) (b : Browsing) : Action → Option Browsing
  | .server (.subscribe _ _) => none
  | .server action => (Stream.step config b.server action).map fun server => { b with server }
  | .opens =>
    if b.client.link = .connecting then
      some { b with
        server := b.server.accept, client := b.client.onopen, asked := some b.client.since
        delivered := 0 }
    else none
  | .subscribes => b.asked.map fun since =>
      { b with server := b.server.subscribed streamTopics since, asked := none }
  | .delivers =>
    if b.client.link = .opened then
      b.server.sent[b.delivered]?.map fun m =>
        { b with client := b.client.onmessage m, delivered := b.delivered + 1 }
    else none
  | .flushes now => if b.client.frame then some (b.flushed now) else none
  | .drops refused =>
    if b.client.link = .connecting ∨ b.client.link = .opened ∨ b.client.link = .closing then
      some { b with client := b.client.onclose refused, asked := none }
    else none
  | .connects =>
    if b.client.link = .waiting then
      some { b with client := { b.client with link := .connecting } }
    else none

/-- A run; none when an action could not happen. -/
def run (config : HubConfig) : Browsing → List Action → Option Browsing
  | b, [] => some b
  | b, action :: rest => (step config b action).bind fun b' => run config b' rest

/-- Connected, with everything delivered and applied, and no resync under way. -/
structure Settled (b : Browsing) : Prop where
  opened : b.client.link = .opened
  asked : b.asked = none
  unpaused : b.server.sub.paused = false
  drained : b.server.Drained
  tailed : b.server.Tailed
  delivered : b.delivered = b.server.sent.length
  flushed : b.client.pending = []

/-- Every event that was stored since the first `subscribed` was applied, up to where the tailer
stands, has arrived in the browser. -/
def Arrived (b : Browsing) : Bool :=
  decide (∀ n ∈ b.first, ∀ e ∈ b.server.store, n < e.seq → e.seq ≤ b.server.head →
    e ∈ b.applied ∨ .envelope e ∈ b.client.pending)

/-- In a run, a subscription without replay reaches the server only where nothing is missed by
it. -/
def Resumes (config : HubConfig) : Browsing → List Action → Bool
  | _, [] => true
  | b, action :: rest =>
    (match action with
      | .subscribes => b.asked ≠ some noReplay || b.Arrived
      | _ => true) &&
    match step config b action with
    | none => true
    | some b' => Resumes config b' rest

end Browsing

end RakshaQuant
