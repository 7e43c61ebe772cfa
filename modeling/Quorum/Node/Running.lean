import Quorum.Api.Router
import Quorum.Node.Start
import Quorum.Registry.Contract
import Quorum.Store.Ipfs

/-!
# A running node

A running node answers requests to its API and requests of its peers, syncs with its
bootstrap nodes in regular intervals, and stops on a signal. The servers that work
for it (registry, content store, model server) are reached by posts; `client` says
what comes of a post, as a function on the state of the world.
-/

namespace Quorum

namespace Node

/-- What a running node has to do with. -/
structure Outside (σ : Type) where
  mesh : Mesh
  /-- Where payloads go if there is no other place. -/
  store : Store
  world : σ

end Node

structure Node (σ : Type) where
  config : Config
  registry : Option Bytes
  /-- The node's number in the mesh. -/
  station : Nat
  api : Api.State (Node.Outside σ)
  nextSync : Time
  /-- What the node has said, latest last. -/
  log : List LogRecord

namespace Node

variable {σ : Type}

/-- Nodes sync this often. -/
def syncInterval : Time := 300 * second

def settings (c : Config) : Api.Settings where
  limit := ⟨c.api.rateLimit.maxRequests, c.api.rateLimit.window * second⟩
  selector := ⟨c.endpoints.defaultUrl, c.endpoints.maxAttempts, c.endpoints.cooldown * second⟩
  enforceQuorum := c.api.enforceQuorum
  broadcast := (manager c).broadcast

/-- The node as it is after a start that said `log`. -/
def ofStarted (c : Config) (s : Started) (log : List LogRecord) (world : σ) : Node σ where
  config := c
  registry := s.registry
  station := s.station
  api := ⟨.empty, .fresh, ⟨s.mesh, .empty, world⟩⟩
  nextSync := s.mesh.clock + syncInterval
  log

def mesh (n : Node σ) : Mesh := n.api.outside.mesh

def world (n : Node σ) : σ := n.api.outside.world

def say (n : Node σ) (records : List LogRecord) : Node σ := { n with log := n.log ++ records }

/-- The node with a mesh in which more has happened. -/
def withMesh (n : Node σ) (m : Mesh) : Node σ :=
  let (said, mesh) := m.takeLog n.station
  { n with api := { n.api with outside := { n.api.outside with mesh } } }.say said

/-! ## Servers -/

variable (client : Post → σ → PostResult × σ)

/-- Asks the registry; without one the answer is the default endpoint. -/
def query (c : Config) (registry : Option Bytes) (o : Outside σ) : Selector.Delayed × Outside σ :=
  match registry with
  | none => (⟨0, .ok c.endpoints.defaultUrl⟩, o)
  | some address =>
    let (result, world) := client (Registry.post c.endpoints.providerUrl address) o.world
    (⟨0, (Registry.outcome result).map (·.endpoint)⟩, { o with world })

/-- Stores a payload on a server if there is one, else in memory. -/
def upload (c : Config) (v : Json) (o : Outside σ) : Except StoreError String × Outside σ :=
  match c.storage.ipfsUrl with
  | none =>
    let (store, hash) := o.store.upload v
    (.ok hash, { o with store })
  | some url =>
    let post := Ipfs.post url v
    let (result, world) := client post o.world
    (Ipfs.outcome post result, { o with world })

/-- Runs a request of a peer. -/
def execute (c : Config) (r : Request) (world : σ) : Except BackendError Json × σ :=
  match c.inference.backendUrl with
  | none => (.error (.unconfigured r.model), world)
  | some url =>
    let (result, world) := client (Backend.post url r) world
    (Backend.output result, world)

def services (n : Node σ) : Api.Services (Outside σ) where
  query := query client n.config n.registry
  upload := upload client n.config
  peers o := o.mesh.peers n.station
  ask o := o.mesh.replyTo n.station

/-! ## Time -/

/-- Dials the bootstrap nodes that are missing and forgets clients whose window has ended. -/
def sync (n : Node σ) : Node σ :=
  let act := (manager n.config).sync (Mesh.transport n.station) n.mesh
  let (_, m) := Mesh.settle act
  let n := (n.withMesh m).say act.log
  let limiter := Limiter.cleanup (settings n.config).limit n.api.limiter m.clock
  { n with api := { n.api with limiter } }

/-- Lets time pass; a sync that is late waits its full time again. -/
def pass (n : Node σ) (t : Time) : Node σ :=
  let n := n.withMesh (n.mesh.pass t)
  if n.nextSync ≤ n.mesh.clock then
    { n.sync with nextSync := n.mesh.clock + syncInterval }
  else n

/-! ## Requests -/

/-- Answers a request to the API; `unixStart` is when the clock began. -/
def serve (n : Node σ) (unixStart : Time) (requestId : String) (r : Api.HttpRequest) :
    Api.HttpResponse × Node σ :=
  let now := n.mesh.clock
  let (response, x) :=
    Api.respond (settings n.config) (n.services client) ⟨now, unixStart + now, requestId⟩ r n.api
  (response, ({ n with api := x.state }.say x.log).pass x.elapsed)

/-- A request of another station to the node, as the station sees it. -/
def serveStation (n : Node σ) (i : Nat) (request : Request) :
    Except NetworkError Response × Node σ :=
  match n.mesh.id? n.station with
  | none => (.error .closed, n)
  | some own =>
    let arrives := n.mesh.recipient? i own == some n.station &&
      (Mesh.transmit Request.read request.render).isSome
    let (result, world) :=
      if arrives then execute client n.config request n.world
      else (.error (.unconfigured request.model), n.world)
    let u := n.mesh.askWith i own request fun _ => ⟨some 0, result⟩
    let limit := (n.mesh.stations[i]?.map (·.requestTimeout)).getD 0
    let (given, m) := Mesh.await u limit
    let n := { n with api := { n.api with outside := { n.api.outside with world } } }
    (Mesh.askResult own given, n.withMesh m)

/-- Stops on a signal. -/
def shutdown (n : Node σ) : Node σ :=
  let n := n.say [.node .info "Shutdown signal received"]
  (n.withMesh (n.mesh.stop n.station)).say [farewell]

end Node

end Quorum
