import Quorum.Network.Mesh
import Quorum.Registry
import Quorum.Text.Printable

/-!
# Starting a node

A node starts in steps: it binds the registry's contract, says where payloads and
requests of peers go, joins the network, dials its bootstrap nodes and opens its API.
The first step that fails ends the start; one that has joined the network leaves it
again. What a start says is all in its log.
-/

namespace Quorum.Node

/-- Why a node did not start. -/
inductive StartError where
  | registry (e : EndpointError)
  | network (e : NetworkError)
  | port (port : Nat) (cause : String)
  deriving DecidableEq, Repr

namespace StartError

/-- The step that failed. -/
def context : StartError → String
  | registry _ => "Failed to bind RPC registry contract"
  | network _ => "Failed to start P2P transport"
  | port n _ => "failed to bind API port " ++ toString n

def cause : StartError → String
  | registry e => e.message
  | network e => e.message
  | port _ cause => cause

def message (e : StartError) : String := e.context ++ ": " ++ e.cause

/-- The lines that a terminal shows. -/
def lines (e : StartError) : List String :=
  ["Error: " ++ e.context, "", "Caused by:", "    " ++ e.cause]

end StartError

/-! ## Log -/

def greeting (path : String) (c : Config) : List LogRecord :=
  [.node .info "Starting JoyNet node...",
   .node .info ("Config path: " ++ Printable.quoted path),
   .node .info ("Consensus: min_peers=" ++ toString c.voting.minPeers ++ ", threshold=" ++
     Decimal.plain.text c.voting.threshold)]

def registryLog (e : Config.Endpoints) : List LogRecord :=
  if e.registryAddress.isSome then []
  else [.node .warn "No RPC registry address configured, using the default endpoint"]

def storageLog (s : Config.Storage) : LogRecord :=
  match s.ipfsUrl with
  | some url => .node .info ("Storing request data via IPFS at " ++ url)
  | none => .node .warn "No IPFS API configured, request data is kept in memory"

def backendLog (i : Config.Inference) : List LogRecord :=
  if i.backendUrl.isSome then []
  else [.node .info "No inference backend configured, peer requests will be declined"]

/-- What opening the API says. -/
def apiLog (port : Nat) : List LogRecord :=
  [.server .info ("JoyNet API listening on http://0.0.0.0:" ++ toString port),
   .server .info "  GET  /api/health     - Health check",
   .server .info "  POST /api/process    - Store request data and route to an RPC node",
   .server .info "  POST /api/inference  - Broadcast inference to peers",
   .server .info "  GET  /api/peers      - Known peers"]

def farewell : LogRecord := .node .info "JoyNet node stopped"

/-! ## Steps -/

/-- The peer manager of a node. -/
def manager (c : Config) : Manager :=
  ⟨c.peering.bootstrap, c.peering.dialTimeout * second,
   ⟨⟨c.voting.minPeers, c.voting.threshold⟩, c.peering.requestTimeout * second,
    c.voting.deadline * second⟩⟩

/-- The address of the registry's contract, if there is one to ask. -/
def bindRegistry (e : Config.Endpoints) : Except StartError (Option Bytes) :=
  match e.registryAddress with
  | none => .ok none
  | some address =>
    match Registry.bind e.providerUrl address with
    | .ok bytes => .ok (some bytes)
    | .error err => .error (.registry err)

/-- A node that has started. -/
structure Started where
  registry : Option Bytes
  mesh : Mesh
  /-- The node's number in the mesh. -/
  station : Nat
  apiPort : Nat

/-- The steps in the network: `said` is what was said before. -/
def join (said : List LogRecord) (c : Config) (registry : Option Bytes) (own : PeerId)
    (taken : List Socket) (m : Mesh) : List LogRecord × Except StartError Started :=
  let decline (r : Request) : Execution := ⟨some 0, .error (.unconfigured r.model)⟩
  match m.addStation own c.peering taken decline with
  | .error e => (said, .error (.network e))
  | .ok m =>
    let i := m.stations.length - 1
    let (joined, m) := m.takeLog i
    let addresses := (m.stations[i]?.map fun s =>
      LogRecord.node .info ("P2P address: " ++ (s.address.withPeer own).text)).toList
    let act := (manager c).start (Mesh.transport i) m
    let (met, m) := (Mesh.settle act).2.takeLog i
    let said := said ++ joined ++ addresses ++ met ++ act.log
    match Socket.bind? (taken ++ m.sockets) ⟨.unspecified, c.api.port⟩ with
    | none =>
      let (left, _) := (m.stop i).takeLog i
      (said ++ left ++ [farewell],
       .error (.port c.api.port "Address already in use (os error 98)"))
    | some socket => (said ++ apiLog socket.port, .ok ⟨registry, m, i, socket.port⟩)

/-- Starts a node on a host where some sockets are taken. -/
def start (path : String) (c : Config) (own : PeerId) (taken : List Socket) (m : Mesh) :
    List LogRecord × Except StartError Started :=
  match bindRegistry c.endpoints with
  | .error e => (greeting path c, .error e)
  | .ok registry =>
    join (greeting path c ++ registryLog c.endpoints ++ [storageLog c.storage] ++
      backendLog c.inference) c registry own taken m

end Quorum.Node
