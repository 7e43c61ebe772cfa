import Quorum.Config
import Quorum.Message.Stream
import Quorum.Network.Host
import Quorum.Network.Loop
import Quorum.Network.Manager
import Quorum.Network.Scripted

/-!
# Nodes that talk to each other

A mesh is a number of nodes on one host. Every node runs a loop; the mesh decides
what comes of the dials and requests of the loops and tells both sides. Nodes that
have met once reach each other as long as both run.

What a node waits for is an `Undertaking`: the mesh while it waits, how long it
takes, and the mesh when it is over. Meanwhile the clock of the mesh may go on and
nodes may stop.
-/

namespace Quorum

/-- A node of a mesh. -/
structure Station where
  loop : Loop
  /-- Where it listens. -/
  socket : Socket
  /-- How it runs the requests of its peers. -/
  run : Request → Execution
  dialTimeout : Time
  requestTimeout : Time
  nextPrune : Time
  nextExplore : Time
  /-- What its loop has said, latest last. -/
  log : List LogRecord

structure Mesh where
  stations : List Station
  /-- Numbers of stations that have met. -/
  acquainted : List (Nat × Nat)
  /-- Sockets of others, which accept connections and never speak. -/
  mute : List Socket
  clock : Time

namespace Station

/-- A loop forgets stale peers this often. -/
def pruneInterval : Time := 60 * second

/-- A loop looks for peers this often. -/
def exploreInterval : Time := 30 * second

def isLive (s : Station) : Bool := !s.loop.stopped

/-- Where the station can be dialed. -/
def address (s : Station) : Multiaddr := s.socket.reachable.toMultiaddr

/-- What a loop says when it starts. -/
def startLog (own : PeerId) (socket : Socket) : List LogRecord :=
  [.network .info ("Local peer ID: " ++ own.text),
   .network .info ("Listening on " ++ socket.reachable.toMultiaddr.text)]

def handle (s : Station) (e : Loop.Event) : Station :=
  { s with loop := s.loop.step e, log := s.log ++ s.loop.log e }

/-- Lets the timers go off that are due. A late timer waits its full time again. -/
def tick (now : Time) (isAcquainted : Bool) (s : Station) : Station :=
  let s := if s.nextPrune ≤ now then
    { s.handle (.prune now) with nextPrune := now + pruneInterval } else s
  if s.nextExplore ≤ now then
    { s.handle (.explore isAcquainted) with nextExplore := now + exploreInterval } else s

end Station

/-- Something that a station waits for. -/
structure Undertaking where
  /-- Whose it is. -/
  owner : Nat
  ticket : Nat
  /-- The station at the other end. -/
  other : Option Nat
  pending : Mesh
  /-- How long it takes; `none` if it never ends. -/
  delay : Option Time
  ended : Mesh
  /-- What the owner's loop learns when the other station stops. -/
  loss : Loop.Event

namespace Mesh

def empty : Mesh := ⟨[], [], [], 0⟩

def id? (m : Mesh) (i : Nat) : Option PeerId := m.stations[i]?.map (·.loop.own)

/-- All sockets in use. -/
def sockets (m : Mesh) : List Socket := m.stations.map (·.socket) ++ m.mute

/-- The known peers of a station, most recently seen first. -/
def peers (m : Mesh) (i : Nat) : List PeerId :=
  (m.stations[i]?.map (·.loop.peers.peers)).getD []

def answer? (m : Mesh) (i ticket : Nat) : Option Loop.Answer :=
  m.stations[i]?.bind (·.loop.answer? ticket)

/-- The station with an id. -/
def find? (m : Mesh) (p : PeerId) : Option Nat := m.stations.findIdx? (·.loop.own == p)

def haveMet (m : Mesh) (i j : Nat) : Bool :=
  m.acquainted.contains (i, j) || m.acquainted.contains (j, i)

def isLive (m : Mesh) (i : Nat) : Bool := (m.stations[i]?.map Station.isLive).getD false

/-- Whether a station has met one that still runs. -/
def hasCompany (m : Mesh) (i : Nat) : Bool :=
  (List.range m.stations.length).any fun j => m.haveMet i j && m.isLive j

def event (m : Mesh) (i : Nat) (e : Loop.Event) : Mesh :=
  { m with stations := m.stations.modify i (·.handle e) }

def events (m : Mesh) (i : Nat) (es : List Loop.Event) : Mesh :=
  es.foldl (fun m e => m.event i e) m

/-- Takes what the loop of a station has said. -/
def takeLog (m : Mesh) (i : Nat) : List LogRecord × Mesh :=
  ((m.stations[i]?.map (·.log)).getD [],
   { m with stations := m.stations.modify i fun s => { s with log := [] } })

/-- Lets time pass. -/
def pass (m : Mesh) (t : Time) : Mesh :=
  let now := m.clock + t
  { m with
    clock := now
    stations := m.stations.mapIdx fun i s =>
      if s.isLive then s.tick now (m.hasCompany i) else s }

/-- Stops a station. -/
def stop (m : Mesh) (i : Nat) : Mesh := m.events i [.submit .shutdown, .take none]

/-! ## Dials -/

/-- Where a dial leads. -/
inductive Destination where
  | station (j : Nat)
  /-- To a socket that never speaks. -/
  | silence
  | nowhere (reason : String)

/-- Where an address leads that station `i` dials; the one found there must have the id at the end
of the address, and must not be the station itself. -/
def destination (m : Mesh) (i : Nat) (a : Multiaddr) : Destination :=
  match Socket.ofMultiaddr? a with
  | none => .nowhere "Unsupported resolved address"
  | some s =>
    if s.port = 0 || s.address = .unspecified then .nowhere "Unsupported resolved address"
    else if !s.address.isLoopback then .nowhere "Network is unreachable"
    else if m.mute.any (·.accepts s) then .silence
    else
      match m.stations.findIdx? fun t => t.isLive && t.socket.accepts s with
      | none => .nowhere "Connection refused"
      | some j =>
        if j = i then .nowhere "tried to dial local peer id"
        else
          match a.target? with
          | some p => if m.id? j = some p then .station j else .nowhere "Unexpected peer ID"
          | none => .station j

/-- Station `i` reaches station `j` on a connection of its own. -/
def meet (m : Mesh) (i j connection : Nat) : Mesh :=
  match m.stations[i]?, m.stations[j]? with
  | some s, some t =>
    let p := s.loop.own
    let q := t.loop.own
    let m := m.events i [.established connection q m.clock, .sighted q m.clock]
    let m := m.events j
      [.opened, .established t.loop.nextConnection p m.clock, .sighted p m.clock]
    { m with acquainted := (i, j) :: m.acquainted }
  | _, _ => m

/-- Whether an address names the station itself. -/
def isOwnAddress (s : Station) (a : Multiaddr) : Bool := a.target? == some s.loop.own

def dial (m : Mesh) (i : Nat) (a : Multiaddr) : Undertaking :=
  match m.stations[i]? with
  | none => ⟨i, 0, none, m, none, m, .drain⟩
  | some s =>
    let ticket := s.loop.submitted
    let connection := s.loop.nextConnection
    let ended (m : Mesh) : Undertaking := ⟨i, ticket, none, m, some 0, m, .drain⟩
    let asked := m.event i (.submit (.dial a))
    if !s.isLive then ended asked
    else if isOwnAddress s a then
      ended (asked.event i (.take (some (a.text ++ ": tried to dial local peer id"))))
    else
      let pending := asked.event i (.take none)
      match m.destination i a with
      | .nowhere reason => ended (pending.event i (.dialFailed connection reason))
      | .silence => ⟨i, ticket, none, pending, none, pending, .drain⟩
      | .station j => ⟨i, ticket, some j, pending, some 0, pending.meet i j connection,
          .dialFailed connection "Connection was closed"⟩

/-! ## Requests -/

/-- The station that a request to a peer reaches. -/
def recipient? (m : Mesh) (i : Nat) (p : PeerId) : Option Nat :=
  (m.find? p).filter fun j => j != i && m.isLive j && m.haveMet i j

/-- The request as its recipient reads it, unless it cannot be read. -/
def transmit {α : Type} (read : Bytes → Except Json.Fault α) (text : String) : Option α :=
  (readMessage read (Source.ofBytes (Utf8.encode text) none none)).toOption

/-- What comes back for a request that runs at station `j` with an outcome. -/
def reply (m : Mesh) (i j number run : Nat) (result : Except BackendError Json) : Mesh :=
  let m := m.events j [.finished run result, .handOver run, .drain]
  match (m.stations[j]?.bind (·.loop.sent.head?)).bind
      fun d => transmit Response.read d.response.render with
  | some r => m.event i (.answered number r)
  | none => m.event i (.requestFailed number "IO error on outbound stream")

/-- A request of station `i` to a peer, which runs it by `run`. -/
def askWith (m : Mesh) (i : Nat) (p : PeerId) (request : Request) (run : Request → Execution) :
    Undertaking :=
  match m.stations[i]? with
  | none => ⟨i, 0, none, m, none, m, .drain⟩
  | some s =>
    let ticket := s.loop.submitted
    let number := s.loop.nextRequest
    let ended (m : Mesh) : Undertaking := ⟨i, ticket, none, m, some 0, m, .drain⟩
    let asked := m.event i (.submit (.ask p request))
    if !s.isLive then ended asked
    else
      let pending := asked.event i (.take none)
      match m.recipient? i p with
      | none => ended (pending.event i (.requestFailed number "Failed to dial the requested peer"))
      | some j =>
        match transmit Request.read request.render, m.stations[j]? with
        | some r, some t =>
          let e := run r
          let number' := t.loop.nextRun
          let pending := pending.event j (.received s.loop.own ⟨number', r⟩)
          let loss := .requestFailed number "Connection was closed before a response was received"
          match e.delay with
          | some d =>
            ⟨i, ticket, some j, pending, some d, pending.reply i j number number' e.result, loss⟩
          | none => ⟨i, ticket, some j, pending, none, pending, loss⟩
        | _, _ => ended (pending.event i (.requestFailed number "IO error on outbound stream"))

/-- A request of station `i` to a peer, which runs it in its own way. -/
def ask (m : Mesh) (i : Nat) (p : PeerId) (request : Request) : Undertaking :=
  m.askWith i p request fun r =>
    match (m.find? p).bind fun j => m.stations[j]? with
    | some t => t.run r
    | none => ⟨none, .error (.unconfigured r.model)⟩

/-! ## Waiting -/

/-- Waits until an undertaking is over, or for the time limit. -/
def await (u : Undertaking) (limit : Time) : Option Loop.Answer × Mesh :=
  let timedOut := (none, u.pending.pass limit)
  match u.delay with
  | some d => if d ≤ limit then (u.ended.answer? u.owner u.ticket, u.ended.pass d) else timedOut
  | none => timedOut

/-- Waits likewise while station `n` is stopped, unless it was over at once. -/
def awaitStopping (u : Undertaking) (n : Nat) (limit : Time) : Option Loop.Answer × Mesh :=
  if u.delay = some 0 then await { u with ended := u.ended.stop n } limit
  else
    let pending := u.pending.stop n
    let cut := if u.other = some n then pending.event u.owner u.loss else pending
    match cut.answer? u.owner u.ticket with
    | some a => (some a, cut)
    | none => await { u with pending, ended := u.ended.stop n } limit

/-- What a dial gave; no answer means that the time limit was reached. -/
def dialResult (a : Multiaddr) : Option Loop.Answer → Except NetworkError PeerId
  | some (.connected p) => .ok p
  | some (.failed e) => .error e
  | _ => .error (.dialTimeout a.text)

/-- What a request gave. -/
def askResult (p : PeerId) : Option Loop.Answer → Except NetworkError Response
  | some (.response r) => .ok r
  | some (.failed e) => .error e
  | _ => .error (.requestTimeout p)

/-- What a station offers to its peer manager. -/
def transport (i : Nat) : Transport Mesh where
  peers m := m.peers i
  dial a m :=
    let u := m.dial i a
    ⟨u.delay, dialResult a (u.ended.answer? i u.ticket), u.ended, m⟩

/-- How a request of station `i` to a peer ends. -/
def replyTo (m : Mesh) (i : Nat) (request : Request) (p : PeerId) : Reply :=
  let u := m.ask i p request
  ⟨u.delay, askResult p (u.ended.answer? i u.ticket)⟩

/-- Lets the time pass that an act of a peer manager took. -/
def settle {α : Type} (act : Manager.Act α Mesh) : α × Mesh :=
  (act.value, act.state.pass act.elapsed)

/-! ## Publications -/

/-- The longest publication in bytes. -/
def publicationLimit : Nat := 65536

/-- Why the network refuses a publication, if it does. -/
def publicationRefusal (m : Mesh) (i : Nat) (data : Bytes) : Option String :=
  if publicationLimit < data.length then some "MessageTooLarge"
  else if m.hasCompany i then none
  else some "NoPeersSubscribedToTopic"

def publish (m : Mesh) (i : Nat) (data : Bytes) : Except NetworkError Unit × Mesh :=
  let ticket := (m.stations[i]?.map (·.loop.submitted)).getD 0
  let m' := m.events i [.submit (.publish data), .take (m.publicationRefusal i data)]
  (match m'.answer? i ticket with
    | some (.failed e) => .error e
    | _ => .ok (), m')

/-! ## Discovery -/

/-- Two stations that could hear of each other from one that both have met. -/
def strangers (m : Mesh) : List (Nat × Nat) :=
  let all := List.range m.stations.length
  let pairs := all.flatMap fun i => (all.drop (i + 1)).map fun j => (i, j)
  pairs.filter fun (i, j) =>
    m.isLive i && m.isLive j && !m.haveMet i j &&
      all.any fun k => m.isLive k && m.haveMet i k && m.haveMet j k

/-- Stations ask those that they know for more, and meet them. -/
def explore (m : Mesh) : Mesh :=
  m.strangers.foldl (fun m (i, j) =>
    match m.stations[i]? with
    | some s => (m.event i .opened).meet i j s.loop.nextConnection
    | none => m) m

/-- Explores until a station knows `wanted` peers, at most so many times. -/
def exploreFor (i wanted : Nat) : Nat → Mesh → Mesh
  | 0, m => m
  | rounds + 1, m =>
    if wanted ≤ (m.peers i).length then m else exploreFor i wanted rounds m.explore

/-! ## Stations -/

/-- Adds a station that listens at an address. -/
def addStation (m : Mesh) (own : PeerId) (p : Config.Peering) (taken : List Socket)
    (run : Request → Execution) : Except NetworkError Mesh :=
  match Socket.listen (taken ++ m.sockets) p.listen with
  | .error e => .error e
  | .ok socket =>
    let station : Station :=
      { loop := .fresh own (p.peerTtl * second) p.maxKnownPeers
        socket
        run
        dialTimeout := p.dialTimeout * second
        requestTimeout := p.requestTimeout * second
        nextPrune := m.clock + Station.pruneInterval
        nextExplore := m.clock + Station.exploreInterval
        log := Station.startLog own socket }
    .ok { m with stations := m.stations ++
      [station.handle (.explore !(Dialing.seeds p.bootstrap).isEmpty)] }

end Mesh

end Quorum
