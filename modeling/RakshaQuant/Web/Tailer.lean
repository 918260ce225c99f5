import RakshaQuant.Web.Stream

/-! The hub over a store file that demo runs replace. The run manager closes the
web's reader when a run begins, builds its engine or ends; the next use opens a
new connection to the file of that moment. A new connection is taken for a new
database when the first event differs. The connections to the hub are there
throughout; of their send loops the replay and the queue are here. -/

namespace RakshaQuant

/-- A reader, and the file it was opened on: files are numbered as runs replace them. -/
structure Connection where
  id : ℕ
  file : ℕ
deriving DecidableEq

/-- A message, and the file it was read from or tells of. -/
structure Mail where
  message : Message
  file : Option ℕ
deriving DecidableEq

namespace Mail

def event (file : ℕ) (event : Event) : Mail := ⟨.envelope event, some file⟩

def notice (notice : Notice) : Mail := ⟨.notice notice, none⟩

def newStore (file : ℕ) : Mail := ⟨.notice ⟨"resync", .system, .resync 0 "new_store"⟩, some file⟩

end Mail

/-- Where `_send_replay` stands: out of it, at its read or in its `for`, with
what it still has to send. -/
inductive Replay
  | idle
  | reading (cursor replayTo : ℕ) (topics : Finset Topic)
  | sending (cursor replayTo : ℕ) (topics : Finset Topic) (file : ℕ) (rest : List Event)
deriving DecidableEq

/-- A subscriber with its send loop and all that was sent. -/
structure Client where
  queueMax : ℕ
  topics : Finset Topic
  queue : List Mail
  paused : Bool
  replay : Option (ℕ × ℕ)
  lastSent : ℕ
  loop : Replay
  sent : List Mail
deriving DecidableEq

namespace Client

def init (queueMax : ℕ) : Client :=
  { queueMax := queueMax, topics := ∅, queue := [], paused := true, replay := none, lastSent := 0
    loop := .idle, sent := [] }

/-! ### What the hub does to it -/

def push (mail : Mail) (c : Client) : Client :=
  if c.paused then c
  else if c.queueMax ≤ c.queue.length then
    { c with
      queue := [.notice ⟨"resync", .system, .resync c.lastSent "overflow"⟩]
      paused := true
      replay := none }
  else { c with queue := c.queue ++ [mail] }

/-- `Hub.subscribe`, where the tailer stands at `head`. -/
def subscribe (topics : Finset Topic) (sinceSeq head : ℕ) (c : Client) : Client :=
  let lastSent := min sinceSeq head
  { c with
    topics := topics
    queue := []
    paused := false
    lastSent := lastSent
    replay := if (topics ∩ eventTopics).Nonempty ∧ sinceSeq < head then some (lastSent, head)
      else none }

/-- Starting over on a new store. -/
def startOver (file : ℕ) (c : Client) : Client :=
  { c with queue := [.newStore file], replay := none, paused := true }

/-! ### Its send loop -/

/-- `while sub.queue`, one message. -/
def take (c : Client) : Option Client :=
  match c.loop, c.queue with
  | .idle, mail :: rest =>
    some { c with
      queue := rest
      sent := c.sent ++ [mail]
      lastSent := mail.message.seq.getD c.lastSent }
  | _, _ => none

/-- What follows the `while` of `_send_replay`. -/
def endReplay (replayTo : ℕ) (c : Client) : Client :=
  { c with loop := .idle, replay := none, lastSent := max c.lastSent replayTo }

/-- The `while` of `_send_replay`. -/
def sendReplay (cursor replayTo : ℕ) (topics : Finset Topic) (c : Client) : Client :=
  if cursor < replayTo ∧ c.replay.isSome then { c with loop := .reading cursor replayTo topics }
  else c.endReplay replayTo

def startReplay (c : Client) : Option Client :=
  match c.loop, c.replay with
  | .idle, some (cursor, replayTo) => some (c.sendReplay cursor replayTo c.topics)
  | _, _ => none

/-- A page is read from the file of the moment. -/
def readPage (batch file : ℕ) (db : List Event) (c : Client) : Option Client :=
  match c.loop with
  | .reading cursor replayTo topics =>
    let events := EventStore.read cursor (min batch (replayTo - cursor)) db
    some (if events = [] then c.endReplay replayTo
      else { c with loop := .sending cursor replayTo topics file events })
  | _ => none

/-- The connection was swapped under the read: it goes on, on the new one. -/
def pageFailed (c : Client) : Option Client :=
  match c.loop with
  | .reading cursor replayTo topics => some (c.sendReplay cursor replayTo topics)
  | _ => none

/-- The next event of the page, or what follows the `for`. -/
def sendNext (c : Client) : Option Client :=
  match c.loop with
  | .sending cursor replayTo topics file (event :: rest) =>
    some (if replayTo < event.seq then { c with loop := .sending cursor replayTo topics file [] }
      else
        { c with
          loop := .sending event.seq replayTo topics file rest
          lastSent := event.seq
          sent := if event.topic ∈ topics then c.sent ++ [.event file event] else c.sent })
  | .sending cursor replayTo topics _ [] =>
    some (match c.replay with
      | none => { c with loop := .idle }
      | some _ => { c with replay := some (cursor, replayTo) }.sendReplay cursor replayTo topics)
  | _ => none

end Client

/-- Where `_tail_once` stands, with the connection it uses. -/
inductive Polling
  | sleeping
  | reading (store : Connection) (head : ℕ)
  | fetched (store : Connection) (head : ℕ) (events : List Event)
deriving DecidableEq

/-- The events of the file, which file it is and how many connections were
opened, and the manager's reader; then what the hub keeps. -/
structure Hub where
  db : List Event
  file : ℕ
  opened : ℕ
  reader : Option Connection
  tailSeq : Option ℕ
  store : Option Connection
  fingerprint : Option (Instant × String)
  polling : Polling
  clients : List Client
deriving DecidableEq

namespace Hub

/-- Clients connected to a hub that has not tailed yet. -/
def init (db : List Event) (queueMaxs : List ℕ) : Hub :=
  { db := db, file := 0, opened := 0, reader := none, tailSeq := none, store := none
    fingerprint := none, polling := .sleeping, clients := queueMaxs.map Client.init }

/-- `_fingerprint`: a database is told by its first event. -/
def fingerprintOf (db : List Event) : Option (Instant × String) :=
  db.head?.map fun e => (e.tsUtc, e.type)

/-- `queries().store`: opened when there is none. -/
def connection (h : Hub) : Connection := h.reader.getD ⟨h.opened, h.file⟩

def queries (h : Hub) : Hub :=
  match h.reader with
  | some _ => h
  | none => { h with reader := some ⟨h.opened, h.file⟩, opened := h.opened + 1 }

/-- `_head`, the position. -/
def headSeq (h : Hub) : ℕ := h.tailSeq.getD (EventStore.lastSeq h.db)

/-- `_head`: the first use starts tailing from the store's end. -/
def head (h : Hub) : Hub :=
  match h.tailSeq with
  | some _ => h
  | none =>
    { h.queries with
      tailSeq := some (EventStore.lastSeq h.db)
      store := some h.connection
      fingerprint := fingerprintOf h.db }

/-- To every client that takes the topic. -/
def pushAll (topic : Topic) (mail : Mail) (clients : List Client) : List Client :=
  clients.map fun c => if topic ∈ c.topics then c.push mail else c

/-- `for event in events`. -/
def fanOut (file : ℕ) (events : List Event) (clients : List Client) : List Client :=
  events.foldl (fun clients event => pushAll event.topic (.event file event) clients) clients

/-- `_tail_once` from where it knows the position. -/
def startRead (conn : Connection) (h : Hub) : Hub :=
  { h.head with polling := .reading conn h.headSeq }

/-- `_tail_once` up to its read. -/
def poll (h : Hub) : Hub :=
  let conn := h.connection
  let h := h.queries
  if h.store = some conn then h.startRead conn
  else
    let previous := h.fingerprint
    let h := { h with store := some conn, fingerprint := fingerprintOf h.db }
    if previous ≠ none ∧ h.fingerprint ≠ previous then
      -- a demo restart: everyone starts over
      { h with
        tailSeq := some (EventStore.lastSeq h.db)
        clients := h.clients.map (Client.startOver h.file) }
    else h.startRead conn

/-- What `_tail_once` does with what it read. -/
def pollResume (conn : Connection) (head : ℕ) (events : List Event) (h : Hub) : Hub :=
  if events = [] ∨ h.store ≠ some conn then { h with polling := .sleeping }
  else
    let last := Log.last Event.seq events
    { h with
      polling := .sleeping
      tailSeq := some (if last = 0 then head else last)
      clients := fanOut conn.file events h.clients }

/-- A send loop's step. -/
def serve (client : ℕ) (act : Client → Option Client) (h : Hub) : Option Hub :=
  (h.clients[client]?.bind act).map fun c => { h with clients := h.clients.set client c }

inductive Action
  /-- A run deletes the file and writes its first event to a new one. -/
  | demoRun (first : Event)
  | append (event : Event)
  /-- `attach`, `detach` and `close_reader`. -/
  | closeReader
  /-- A request, or a send loop, asks for the store. -/
  | request
  | announce (kind : String) (data : String)
  | subscribe (client : ℕ) (topics : Finset Topic) (sinceSeq : ℕ)
  /-- What a send loop does. -/
  | take (client : ℕ)
  | startReplay (client : ℕ)
  | readPage (client : ℕ)
  | pageFailed (client : ℕ)
  | sendNext (client : ℕ)
  /-- The tailer wakes, its read ends one way or the other, and it goes on. -/
  | poll
  | tailRead
  | tailResume
deriving DecidableEq

/-- One action, if it can happen. A closed connection cannot be read. -/
def step (config : HubConfig) (h : Hub) : Action → Option Hub
  | .demoRun first =>
    if first.seq = 1 then some { h with db := [first], file := h.file + 1, reader := none }
    else none
  | .append event =>
    if EventStore.lastSeq h.db < event.seq then some { h with db := h.db ++ [event] } else none
  | .closeReader => some { h with reader := none }
  | .request => some h.queries
  | .announce kind data =>
    some { h with clients := pushAll .system (.notice ⟨kind, .system, .other data⟩) h.clients }
  | .subscribe client topics sinceSeq =>
    h.head.serve client fun c => some (c.subscribe topics sinceSeq h.headSeq)
  | .take client => h.serve client Client.take
  | .startReplay client => h.serve client Client.startReplay
  | .readPage client => h.serve client (Client.readPage config.batch h.file h.db)
  | .pageFailed client => h.serve client Client.pageFailed
  | .sendNext client => h.serve client Client.sendNext
  | .poll => if h.polling = .sleeping then some h.poll else none
  | .tailRead =>
    match h.polling with
    | .reading conn head =>
      if h.reader = some conn then
        some { h with polling := .fetched conn head (EventStore.read head config.batch h.db) }
      else some { h.queries with polling := .sleeping }
    | _ => none
  | .tailResume =>
    match h.polling with
    | .fetched conn head events => some (h.pollResume conn head events)
    | _ => none

/-- A run; none when an action could not happen. -/
def run (config : HubConfig) : Hub → List Action → Option Hub
  | h, [] => some h
  | h, action :: rest => (step config h action).bind fun h' => run config h' rest

end Hub

end RakshaQuant
