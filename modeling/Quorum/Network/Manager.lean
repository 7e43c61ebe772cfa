import Quorum.Network.Broadcast
import Quorum.Network.Dialing

/-!
# The peer manager

The manager starts a node's network by dialing the bootstrap nodes, keeps it together
by syncing with them, and broadcasts requests. Each of the three is an `Act` on the
state of a transport: what came of it, which calls it made, how long it took.
-/

namespace Quorum

structure Manager where
  /-- Dialed in this order. -/
  bootstrap : List Multiaddr
  dialTimeout : Time
  broadcast : Broadcast.Settings

namespace Manager

/-- A call that the manager makes. -/
inductive Call where
  | dial (a : Multiaddr)
  | request (p : PeerId) (r : Request)

/-- What the manager did. -/
structure Act (α σ : Type) where
  value : α
  /-- In the order in which they were made. -/
  calls : List Call
  elapsed : Time
  state : σ
  log : List LogRecord

variable {σ : Type}

def dialCalls (records : List DialRecord) : List Call := records.map fun r => .dial r.address

/-- Dials every bootstrap node. -/
def start (m : Manager) (t : Transport σ) (s : σ) : Act Dialing.BootstrapReport σ :=
  let (records, s) := Dialing.start t m.dialTimeout m.bootstrap s
  ⟨.ofRecords records, dialCalls records, Dialing.duration records, s, Dialing.startLog records⟩

/-- Dials the bootstrap nodes that are missing. -/
def sync (m : Manager) (t : Transport σ) (s : σ) : Act Dialing.SyncReport σ :=
  let (records, s) := Dialing.sync t m.dialTimeout m.bootstrap s
  let report := Dialing.SyncReport.ofRecords records (t.peers s).length
  ⟨report, dialCalls records, Dialing.duration records, s, Dialing.syncLog records report⟩

/-- Asks the known peers and votes over their answers. -/
def ask (m : Manager) (t : Transport σ) (request : Request) (reply : PeerId → Reply) (s : σ) :
    Act (Except VoteError Outcome) σ :=
  let run := Broadcast.run m.broadcast (t.peers s) request reply
  ⟨run.result, run.sent.map fun (p, r) => .request p r, run.elapsed, s,
   Broadcast.log m.broadcast request run⟩

end Manager

end Quorum
