import Quorum.Log
import Quorum.Net.Multiaddr
import Quorum.Network.Error
import Quorum.Peer.Set

/-!
# Dialing the bootstrap nodes

A round dials addresses one after the other, each for at most a time limit, and
keeps a record of every dial. `start` makes a round over all bootstrap nodes,
`sync` over those that are not known to be connected: the ones whose id is unknown
or not among the known peers.
-/

namespace Quorum

/-- How a dial ends, if nothing cuts it short. -/
structure DialReply (σ : Type) where
  /-- How long it takes; `none` if it never ends. -/
  delay : Option Time
  result : Except NetworkError PeerId
  /-- The network afterwards. -/
  state : σ
  /-- The network if the dial is given up before it ends. -/
  abandoned : σ

/-- What a network with states in `σ` has to offer to its manager. -/
structure Transport (σ : Type) where
  /-- The known peers, most recently seen first. -/
  peers : σ → List PeerId
  dial : Multiaddr → σ → DialReply σ

/-- One dial of a round; times count from the start of the round. -/
structure DialRecord where
  address : Multiaddr
  began : Time
  ended : Time
  result : Except NetworkError PeerId

namespace DialRecord

def isConnected (r : DialRecord) : Bool :=
  match r.result with
  | .ok _ => true
  | .error _ => false

end DialRecord

namespace Dialing

/-- One dial cut off after `limit`: a reply exactly at the limit counts. -/
def dialWithin {σ : Type} (t : Transport σ) (limit now : Time) (a : Multiaddr) (s : σ) :
    DialRecord × σ :=
  let reply := t.dial a s
  let timedOut := (⟨a, now, now + limit, .error (.dialTimeout a.text)⟩, reply.abandoned)
  match reply.delay with
  | some d => if d ≤ limit then (⟨a, now, now + d, reply.result⟩, reply.state) else timedOut
  | none => timedOut

/-- Dials addresses in their order, each as soon as the one before has ended. -/
def round {σ : Type} (t : Transport σ) (limit : Time) :
    Time → List Multiaddr → σ → List DialRecord × σ
  | _, [], s => ([], s)
  | now, a :: rest, s =>
    let (record, s) := dialWithin t limit now a s
    let (records, s) := round t limit record.ended rest s
    (record :: records, s)

/-- How long a round took. -/
def duration (records : List DialRecord) : Time := (records.getLast?.map (·.ended)).getD 0

/-- The outcome of the round at the start. -/
structure BootstrapReport where
  connected : List Multiaddr
  failed : List Multiaddr

def BootstrapReport.ofRecords (records : List DialRecord) : BootstrapReport :=
  ⟨(records.filter (·.isConnected)).map (·.address),
   (records.filter fun r => !r.isConnected).map (·.address)⟩

/-- Dials every bootstrap node. -/
def start {σ : Type} (t : Transport σ) (limit : Time) (bootstrap : List Multiaddr) (s : σ) :
    List DialRecord × σ :=
  round t limit 0 bootstrap s

/-- The routes that a node is given when it starts: bootstrap nodes with the ids that they go by. -/
def seeds (bootstrap : List Multiaddr) : List (PeerId × Multiaddr) :=
  bootstrap.filterMap fun a => a.peer?.map (·, a)

/-- Whether an address goes by the id of a known peer. -/
def isKnown (known : List PeerId) (a : Multiaddr) : Bool := a.peer?.any known.contains

/-- Dials the bootstrap nodes that are not known peers when it begins. -/
def sync {σ : Type} (t : Transport σ) (limit : Time) (bootstrap : List Multiaddr) (s : σ) :
    List DialRecord × σ :=
  round t limit 0 (bootstrap.filter fun a => !isKnown (t.peers s) a) s

/-- The outcome of a sync. -/
structure SyncReport where
  knownPeers : Nat
  redialed : Nat
  reconnected : Nat
  deriving DecidableEq, Repr

/-- The report of a sync that left `known` peers known. -/
def SyncReport.ofRecords (records : List DialRecord) (known : Nat) : SyncReport :=
  ⟨known, records.length, records.countP (·.isConnected)⟩

/-! ## Log -/

def recordLog (r : DialRecord) : LogRecord :=
  match r.result with
  | .ok peer =>
    .manager .info ("Connected to bootstrap node " ++ r.address.text ++ " (" ++ peer.text ++ ")")
  | .error e =>
    .manager .warn ("Failed to connect to bootstrap node " ++ r.address.text ++ ": " ++ e.message)

/-- What the start says. -/
def startLog (records : List DialRecord) : List LogRecord :=
  let connected := records.countP (·.isConnected)
  [.manager .info ("Bootstrapping against " ++ toString records.length ++ " configured nodes")] ++
  records.map recordLog ++
  [.manager .info ("Bootstrap finished: " ++ toString connected ++ " connected, " ++
    toString (records.length - connected) ++ " failed")]

/-- What a sync says, which only a debug log shows. -/
def syncLog (records : List DialRecord) (report : SyncReport) : List LogRecord :=
  (records.filterMap fun r =>
    match r.result with
    | .ok _ => none
    | .error e =>
      some (.manager .debug ("Sync redial of " ++ r.address.text ++ " failed: " ++ e.message))) ++
  [.manager .debug ("Network sync: " ++ toString report.knownPeers ++ " known peers, " ++
    toString report.reconnected ++ "/" ++ toString report.redialed ++
    " bootstrap nodes reconnected")]

end Dialing

end Quorum
