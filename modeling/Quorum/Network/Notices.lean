import Quorum.Network.Loop

/-!
# What a loop is told

The network tells a loop what happens in it. Four kinds of `Notice` make peers known:
a connection, a peer that tells who it is, a peer that enters the routing table, and
peers that announce themselves near by. The others may name a peer too, but make
nobody known. An `Input` is a notice, or what callers, runs and timers do.

Callers look at the known peers and at their answers whenever they like, also while
the loop handles an input. What it does between two such moments is an `Act`; an
input's acts, one after the other, are what the loop does about it.
-/

namespace Quorum.Loop

/-- What the network tells a loop. -/
inductive Notice where
  /-- A connection to or from a peer is open. -/
  | connected (connection : Nat) (peer : PeerId) (now : Time)
  | unreachable (connection : Nat) (peer : Option PeerId) (reason : String)
  | disconnected (peer : PeerId)
  /-- A peer has told who it is. -/
  | identified (peer : PeerId) (now : Time)
  /-- A peer has entered the routing table. -/
  | routed (peer : PeerId) (now : Time)
  /-- Peers have announced themselves near by; each is taken in at its own moment. -/
  | announced (found : List Sighting)
  /-- Announcements have run out. -/
  | withdrawn (peers : List PeerId)
  /-- A publication, with the peer that passed it on. -/
  | gossip (source : PeerId) (data : Bytes)
  | received (peer : PeerId) (i : Inbound)
  | answered (peer : PeerId) (request : Nat) (r : Response)
  | requestFailed (peer : PeerId) (request : Nat) (reason : String)
  /-- A response did not reach the peer that asked. -/
  | unanswerable (peer : PeerId) (reason : String)
  /-- Anything else, such as pings and addresses to listen on. -/
  | other

def Notice.events : Notice → List Event
  | .connected connection peer now => [.established connection peer now]
  | .unreachable connection _ reason => [.dialFailed connection reason]
  | .identified peer now | .routed peer now => [.sighted peer now]
  | .announced found => found.map fun e => .sighted e.peer e.seen
  | .received peer i => [.received peer i]
  | .answered _ request r => [.answered request r]
  | .requestFailed _ request reason => [.requestFailed request reason]
  | .disconnected _ | .withdrawn _ | .gossip .. | .unanswerable .. | .other => []

/-- What a loop handles in one go. -/
inductive Input where
  | notice (n : Notice)
  | submit (c : Command)
  | take (refusal : Option String)
  | opened
  | finished (run : Nat) (result : Except BackendError Json)
  | handOver (run : Nat)
  | drain
  | prune (now : Time)
  | explore (known : Bool)

def Input.events : Input → List Event
  | .notice n => n.events
  | .submit c => [.submit c]
  | .take refusal => [.take refusal]
  | .opened => [.opened]
  | .finished run result => [.finished run result]
  | .handOver run => [.handOver run]
  | .drain => [.drain]
  | .prune now => [.prune now]
  | .explore known => [.explore known]

/-! ## Acts -/

/-- What a loop does between two moments at which callers may look. -/
inductive Act where
  | see (peer : PeerId) (now : Time)
  | endDial (connection : Nat) (a : Answer)
  /-- All that an event asks for. -/
  | handle (e : Event)

/-- A peer that is met on a connection is known before the dial for it is answered. -/
def Event.acts : Event → List Act
  | .established connection peer now => [.see peer now, .endDial connection (.connected peer)]
  | .sighted peer now => [.see peer now]
  | e => [.handle e]

def Input.acts (i : Input) : List Act := i.events.flatMap Event.acts

/-- A loop that has stopped sees nobody and ends no dial. -/
def act (s : Loop) : Act → Loop
  | .see peer now => if s.stopped then s else s.discover peer now
  | .endDial connection a => if s.stopped then s else s.endDial connection a
  | .handle e => s.step e

end Quorum.Loop
