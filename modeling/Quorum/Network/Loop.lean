import Quorum.Backend
import Quorum.Log
import Quorum.Net.Multiaddr
import Quorum.Network.Error
import Quorum.Peer.Set

/-!
# The loop of a node's network

One loop holds the connections of a node. Callers hand it commands and wait for the
answers; the network tells it what happens on the connections. Everything the loop
lives through is an `Event`, and `step` is what it does about one.

* A command waits in the queue until the loop takes it. A dial then waits for its
  own connection, a request for its own response; a publication is answered at once.
* Requests of other peers run beside the loop. What comes of them waits in the
  outbox until the loop sends it, on the channel of the request.
* A peer becomes known when something names it, and is forgotten when it is stale.
* Once the loop has stopped it answers every command with `closed`.

Callers are known by tickets, which count the commands handed in. Connections and
requests have numbers of the network's own, never used twice.
-/

namespace Quorum

namespace Loop

/-- What a caller asks for. -/
inductive Command where
  | dial (address : Multiaddr)
  | ask (peer : PeerId) (request : Request)
  | publish (data : Bytes)
  | shutdown

/-- What a caller gets. -/
inductive Answer where
  | connected (peer : PeerId)
  | response (r : Response)
  | published
  | stopped
  | failed (e : NetworkError)

/-- A request to a peer that waits for its response. -/
structure Pending where
  request : Nat
  peer : PeerId
  ticket : Nat
  deriving DecidableEq, Repr

/-- A request of a peer; the response belongs on its channel. -/
structure Inbound where
  channel : Nat
  request : Request

/-- A response with the channel that it belongs on. -/
structure Delivery where
  channel : Nat
  response : Response

/-- What the loop lives through. -/
inductive Event where
  /-- A caller hands in a command. -/
  | submit (c : Command)
  /-- The loop takes the oldest command; the network may refuse it. -/
  | take (refusal : Option String)
  /-- The network opens a connection for a reason of its own. -/
  | opened
  | established (connection : Nat) (peer : PeerId) (now : Time)
  | dialFailed (connection : Nat) (reason : String)
  /-- Something else than a connection names a peer. -/
  | sighted (peer : PeerId) (now : Time)
  | answered (request : Nat) (r : Response)
  | requestFailed (request : Nat) (reason : String)
  /-- A peer's request arrives and starts to run. -/
  | received (peer : PeerId) (i : Inbound)
  /-- The run of a request ends; runs are counted in the order of their start. -/
  | finished (run : Nat) (result : Except BackendError Json)
  /-- A finished run puts its response into the outbox, if there is room. -/
  | handOver (run : Nat)
  /-- The loop sends the oldest response of the outbox. -/
  | drain
  | prune (now : Time)
  /-- The loop looks for more peers, if it knows where to ask. -/
  | explore (known : Bool)

/-- Responses that the outbox holds. -/
def outboxSize : Nat := 256

end Loop

/-- The state of a loop. -/
structure Loop where
  /-- The id of the node itself. -/
  own : PeerId
  /-- Peers not seen for longer are forgotten. -/
  peerTtl : Time
  peers : PeerSet
  stopped : Bool
  /-- Commands handed in so far, which is the next ticket. -/
  submitted : Nat
  /-- Commands not yet taken, oldest first. -/
  queue : List (Nat × Loop.Command)
  nextConnection : Nat
  /-- Tickets of dials under way, with their connections. -/
  dials : List (Nat × Nat)
  nextRequest : Nat
  requests : List Loop.Pending
  /-- The answers given, latest first. -/
  answers : List (Nat × Loop.Answer)
  nextRun : Nat
  /-- Requests of peers that are running. -/
  running : List (Nat × Loop.Inbound)
  /-- Responses that wait for room in the outbox. -/
  waiting : List (Nat × Loop.Delivery)
  /-- Responses that wait to be sent, oldest first. -/
  outbox : List Loop.Delivery
  /-- Responses sent, latest first. -/
  sent : List Loop.Delivery

namespace Loop

/-- The loop of a node that has just started. -/
def fresh (own : PeerId) (peerTtl : Time) (maxKnown : Nat) : Loop where
  own
  peerTtl
  peers := .empty maxKnown
  stopped := false
  submitted := 0
  queue := []
  nextConnection := 0
  dials := []
  nextRequest := 0
  requests := []
  answers := []
  nextRun := 0
  running := []
  waiting := []
  outbox := []
  sent := []

/-! ## Commands -/

def answer (s : Loop) (ticket : Nat) (a : Answer) : Loop :=
  { s with answers := (ticket, a) :: s.answers }

/-- The answer to a command, once there is one. -/
def answer? (s : Loop) (ticket : Nat) : Option Answer := s.answers.lookup ticket

def submit (s : Loop) (c : Command) : Loop :=
  let s' := { s with submitted := s.submitted + 1 }
  if s.stopped then s'.answer s.submitted (.failed .closed)
  else { s' with queue := s.queue ++ [(s.submitted, c)] }

/-- The tickets of all commands without an answer. -/
def unanswered (s : Loop) : List Nat :=
  s.dials.map (·.2) ++ s.requests.map (·.ticket) ++ s.queue.map (·.1)

/-- Stops; whoever still waits is told so. -/
def stop (s : Loop) : Loop :=
  { s with
    stopped := true
    queue := []
    dials := []
    requests := []
    outbox := []
    answers := s.unanswered.map (·, .failed .closed) ++ s.answers }

/-- Does what a command says. -/
def obey (s : Loop) (ticket : Nat) (refusal : Option String) : Command → Loop
  | .dial _ =>
    let s' := { s with nextConnection := s.nextConnection + 1 }
    match refusal with
    | none => { s' with dials := (s.nextConnection, ticket) :: s.dials }
    | some text => s'.answer ticket (.failed (.dial text))
  | .ask peer _ =>
    { s with
      nextRequest := s.nextRequest + 1
      requests := ⟨s.nextRequest, peer, ticket⟩ :: s.requests }
  | .publish _ =>
    match refusal with
    | none => s.answer ticket .published
    | some text => s.answer ticket (.failed (.publish text))
  | .shutdown => (s.answer ticket .stopped).stop

def take (s : Loop) (refusal : Option String) : Loop :=
  match s.queue with
  | [] => s
  | (ticket, c) :: rest => { s with queue := rest }.obey ticket refusal c

/-! ## Connections -/

/-- A peer was seen; a node does not know itself. -/
def discover (s : Loop) (peer : PeerId) (now : Time) : Loop :=
  if peer = s.own then s else { s with peers := s.peers.insert peer now }

/-- Answers the dial that opened a connection, if there is one. -/
def endDial (s : Loop) (connection : Nat) (a : Answer) : Loop :=
  match s.dials.lookup connection with
  | some ticket =>
    { s with dials := s.dials.filter (·.1 != connection) }.answer ticket a
  | none => s

/-- Answers the caller of a request, if it still waits. -/
def endRequest (s : Loop) (request : Nat) (a : Pending → Answer) : Loop :=
  match s.requests.find? (·.request == request) with
  | some p =>
    { s with requests := s.requests.filter (·.request != request) }.answer p.ticket (a p)
  | none => s

/-! ## Requests of other peers -/

def receive (s : Loop) (i : Inbound) : Loop :=
  { s with nextRun := s.nextRun + 1, running := (s.nextRun, i) :: s.running }

def finish (s : Loop) (run : Nat) (result : Except BackendError Json) : Loop :=
  match s.running.lookup run with
  | some i =>
    { s with
      running := s.running.filter (·.1 != run)
      waiting := (run, ⟨i.channel, Backend.respond i.request result⟩) :: s.waiting }
  | none => s

/-- A response goes into the outbox; nobody takes it once the loop has stopped. -/
def handOver (s : Loop) (run : Nat) : Loop :=
  match s.waiting.lookup run with
  | some d =>
    let left := s.waiting.filter (·.1 != run)
    if s.stopped then { s with waiting := left }
    else if s.outbox.length < outboxSize then
      { s with waiting := left, outbox := s.outbox ++ [d] }
    else s
  | none => s

def drain (s : Loop) : Loop :=
  match s.outbox with
  | [] => s
  | d :: rest => { s with outbox := rest, sent := d :: s.sent }

/-! ## Steps -/

/-- What a running loop does about an event. -/
def live (s : Loop) : Event → Loop
  | .submit c => s.submit c
  | .take refusal => s.take refusal
  | .opened => { s with nextConnection := s.nextConnection + 1 }
  | .established connection peer now => (s.discover peer now).endDial connection (.connected peer)
  | .dialFailed connection reason => s.endDial connection (.failed (.dial reason))
  | .sighted peer now => s.discover peer now
  | .answered request r => s.endRequest request fun _ => .response r
  | .requestFailed request reason =>
    s.endRequest request fun p => .failed (.requestFailed p.peer reason)
  | .received _ i => s.receive i
  | .finished run result => s.finish run result
  | .handOver run => s.handOver run
  | .drain => s.drain
  | .prune now => { s with peers := s.peers.prune s.peerTtl now }
  | .explore _ => s

/-- Once stopped, only callers and runs that are not over yet have anything to do with the loop. -/
def step (s : Loop) (e : Event) : Loop :=
  if s.stopped then
    match e with
    | .submit c => s.submit c
    | .finished run result => s.finish run result
    | .handOver run => s.handOver run
    | _ => s
  else s.live e

def run (s : Loop) (events : List Event) : Loop := events.foldl step s

/-! ## Log -/

/-- What a command says when it is taken. -/
def takeLog (refusal : Option String) : Command → List LogRecord
  | .dial a => if refusal.isNone then [.network .debug ("Dialing " ++ a.text)] else []
  | .ask peer r =>
    [.network .debug ("Sending inference request " ++ r.id ++ " to " ++ peer.text)]
  | .publish _ => []
  | .shutdown => [.network .info "Network event loop stopped"]

/-- What is said about a peer that was seen. -/
def discoverLog (s : Loop) (peer : PeerId) (now : Time) : List LogRecord :=
  if peer = s.own || s.peers.contains peer then []
  else
    [.network .info ("Discovered peer " ++ peer.text ++ " (" ++
      toString (s.discover peer now).peers.size ++ " known)")]

def pruneLog (s : Loop) (now : Time) : List LogRecord :=
  let stale := s.peers.staleCount s.peerTtl now
  if stale = 0 then []
  else
    [.network .info ("Pruned " ++ toString stale ++ " stale peers, " ++
      toString (s.peers.size - stale) ++ " known")]

def finishLog (s : Loop) (run : Nat) (result : Except BackendError Json) : List LogRecord :=
  match s.running.lookup run, result with
  | some i, .error e =>
    [.network .warn ("Inference " ++ i.request.id ++ " failed locally: " ++ e.message)]
  | _, _ => []

/-- What a loop in a state says about an event. -/
def log (s : Loop) (e : Event) : List LogRecord :=
  match e with
  | .finished run result => s.finishLog run result
  | _ =>
    if s.stopped then []
    else
      match e with
      | .take refusal => (s.queue.head?.map fun q => takeLog refusal q.2).getD []
      | .established _ peer now | .sighted peer now => s.discoverLog peer now
      | .requestFailed request reason =>
        match s.requests.find? (·.request == request) with
        | some p =>
          [.network .warn ("Inference request to " ++ p.peer.text ++ " failed: " ++ reason)]
        | none => []
      | .received peer i =>
        [.network .debug ("Inference request " ++ i.request.id ++ " for model " ++
          i.request.model ++ " from " ++ peer.text)]
      | .prune now => s.pruneLog now
      | .explore known =>
        [.network .debug (if known then "Kademlia bootstrap step, 0 remaining"
          else "Kademlia bootstrap skipped: No known peers.")]
      | _ => []

end Loop

end Quorum
