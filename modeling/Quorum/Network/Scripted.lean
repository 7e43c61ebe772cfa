import Quorum.Backend
import Quorum.Network.Broadcast
import Quorum.Network.Dialing

/-!
# Networks that follow a script

A script says how every peer runs a request and what comes of every dial. What the
network knows is a set of peers: a dial that succeeds makes its peer known.
-/

namespace Quorum

/-- The run of a request. -/
structure Execution where
  /-- How long it takes; `none` if it never ends. -/
  delay : Option Time
  result : Except BackendError Json

namespace Script

/-- What a peer makes of a request. -/
inductive Conduct where
  /-- The model and the input come back, the input under a name. -/
  | echo (name : String)
  | output (v : Json)
  | refuse (message : String)
  | fail

/-- How a peer runs requests. -/
structure Part where
  delay : Option Time
  conduct : Conduct

namespace Part

/-- What a request gives; `none` if it fails on the way. -/
def result? (p : Part) (r : Request) : Option (Except BackendError Json) :=
  match p.conduct with
  | .echo name => some (.ok (Json.ofMembers [("model", .string r.model), (name, r.input)]))
  | .output v => some (.ok v)
  | .refuse message => some (.error (.other message))
  | .fail => none

def execution (p : Part) (r : Request) : Execution :=
  ⟨p.delay, (p.result? r).getD (.error .unreachable)⟩

end Part

/-- A peer of a script. -/
structure Peer where
  id : PeerId
  part : Part
  /-- The request id that its answers carry in place of the right one. -/
  answerId : Option String

/-- What comes of a dial. -/
structure Dial where
  delay : Option Time
  fails : Bool
  /-- The peer found there, by its number in the script. -/
  peer : Option Nat

end Script

structure Script where
  peers : List Script.Peer
  /-- Dials by the text of the address. -/
  dials : List (String × Script.Dial)

namespace Script

def find? (s : Script) (p : PeerId) : Option Nat := s.peers.findIdx? (·.id == p)

/-- Whom a dial of an address reaches: the peer of the script, or else the one that the address
names. -/
def reached? (s : Script) (a : Multiaddr) : Option PeerId :=
  match s.dials.lookup a.text with
  | some d =>
    if d.fails then none
    else match d.peer with
      | some i => s.peers[i]?.map (·.id)
      | none => a.peer?
  | none => a.peer?

/-- The network at a moment; who answers a dial is seen then. -/
def transport (s : Script) (now : Time) : Transport PeerSet where
  peers := PeerSet.peers
  dial a known :=
    let delay := match s.dials.lookup a.text with
      | some d => d.delay
      | none => some 0
    match s.reached? a with
    | some p => ⟨delay, .ok p, known.insert p now, known⟩
    | none => ⟨delay, .error (.dial ""), known, known⟩

/-- How a request to a peer ends. -/
def reply (s : Script) (r : Request) (p : PeerId) : Reply :=
  match s.peers.find? (·.id == p) with
  | some q =>
    ⟨q.part.delay,
     match q.part.result? r with
     | some result => .ok (Backend.respond { r with id := q.answerId.getD r.id } result)
     | none => .error (.requestFailed p "")⟩
  | none => ⟨some 0, .error (.requestFailed p "")⟩

end Script

end Quorum
