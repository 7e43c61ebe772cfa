import Quorum.Api.Error
import Quorum.Limiter
import Quorum.Network.Broadcast
import Quorum.Registry
import Quorum.Selector

/-!
# Stages of a request

A request passes stages in a fixed order; the first one that fails ends it with an
error. A stage may change the node's state and talk to the outside: every such deed
is kept as an `Effect`. What a stage found out (the endpoint, the content's hash) is
carried to the later ones.
-/

namespace Quorum.Api

/-- A request as it reaches the node. -/
structure HttpRequest where
  method : String
  /-- The target as it was sent: a path, or a full address, with query and fragment. -/
  target : String
  headers : List (String × String)
  body : Bytes
  client : IpAddress

structure Settings where
  limit : Limiter.Settings
  selector : Selector.Settings
  /-- Whether work is refused while too few peers are known. -/
  enforceQuorum : Bool
  broadcast : Broadcast.Settings

/-- What the node has to do with, as functions on the state of the outside. -/
structure Services (σ : Type) where
  /-- Asks the registry for an endpoint. -/
  query : σ → Selector.Delayed × σ
  /-- Stores a payload and names it. -/
  upload : Json → σ → Except StoreError String × σ
  peers : σ → List PeerId
  /-- How a request to a peer ends. -/
  ask : σ → Request → PeerId → Reply

/-- What the node keeps between requests, and the outside. -/
structure State (σ : Type) where
  limiter : Limiter
  selector : Selector
  outside : σ

/-- When a request is handled, and the id for the broadcast it may lead to. -/
structure Moment where
  now : Time
  /-- Nanoseconds since the start of 1970. -/
  unix : Time
  requestId : String

/-- Something done outside of the node. -/
inductive Effect where
  | query
  | upload (v : Json)
  | broadcast (requests : List (PeerId × Request))

/-- A request on its way. -/
structure Exchange (σ : Type) where
  state : State σ
  /-- In the order in which they happened. -/
  effects : List Effect
  elapsed : Time
  endpoint : Option String
  contentHash : Option String
  /-- What the node has said about it. -/
  log : List LogRecord

/-- The exchange after the node has said something. -/
def Exchange.say {σ : Type} (x : Exchange σ) (records : List LogRecord) : Exchange σ :=
  { x with log := x.log ++ records }

/-- The stages. -/
inductive Stage where
  /-- Counts the request against its client's limit. -/
  | rateLimit
  /-- Chooses an RPC endpoint. -/
  | routing
  /-- Stores the body's payload, if it has one. -/
  | contentRouting
  /-- Binds a provider to the endpoint. -/
  | providerBinding
  /-- Refuses work while too few peers are known. -/
  | quorumCheck
  deriving DecidableEq, Repr

/-- The largest body from which a payload is taken. -/
def payloadLimit : Nat := 10 * 1024 * 1024

/-- Whether a payload counts as one: nothing, falsehood, zero and the empty text do not. -/
def isPresent : Json → Bool
  | .null => false
  | .bool b => b
  | .integer n => n != 0
  | .double x => !x.isZero
  | .string s => !s.isEmpty
  | .array _ | .object _ => true

/-- The payload of a body: its member `data`, if that is present. -/
def payload? (body : Bytes) : Except ApiError (Option Json) :=
  if payloadLimit < body.length then
    .error (.badRequest "Unreadable request body: length limit exceeded")
  else if body.isEmpty then .ok none
  else
    match Json.read body with
    | .error f => .error (.ofJson (f.message body))
    | .ok v => .ok ((v.member? "data").filter isPresent)

/-- The path of a request's target, without what may stand in front and behind. -/
def pathOf (target : String) : String :=
  let chars := target.toList.takeWhile fun c => c != '?' && c != '#'
  let scheme := chars.takeWhile (· != ':')
  match chars.drop scheme.length with
  | ':' :: '/' :: '/' :: rest =>
    if scheme.contains '/' then String.ofList chars
    else
      match rest.dropWhile (· != '/') with
      | [] => "/"
      | path => String.ofList path
  | _ => if chars.isEmpty then "/" else String.ofList chars

namespace Stage

variable {σ : Type}

def perform (set : Settings) (sv : Services σ) (m : Moment) (r : HttpRequest) (x : Exchange σ) :
    Stage → Except ApiError Unit × Exchange σ
  | rateLimit =>
    let (limiter, result) := Limiter.check set.limit x.state.limiter r.client m.now
    let x := { x with state := { x.state with limiter } }
    match result with
    | .ok () => (.ok (), x)
    | .error e =>
      (.error (.rateLimited e.limit (e.window / second)),
       x.say [.stage .debug ("Rejecting " ++ r.client.text ++ ": " ++ e.message)])
  | routing =>
    match Selector.gate set.selector x.state.selector m.now with
    | .error e => (.error (.ofEndpoint e), x.say [ApiError.endpointLog e])
    | .ok () =>
      let (reply, outside) := sv.query x.state.outside
      let (selector, result) :=
        Selector.settle set.selector x.state.selector (m.now + reply.wait) reply.answer
      let x : Exchange σ := x.say (Selector.settleLog set.selector x.state.selector reply.answer)
      let x : Exchange σ := { x with
        state := { x.state with selector, outside }
        effects := x.effects ++ [.query]
        elapsed := x.elapsed + reply.wait }
      match result with
      | .ok url =>
        (.ok (), { x with endpoint := some url }.say
          [.stage .debug ("Routing " ++ pathOf r.target ++ " via " ++ url)])
      | .error e => (.error (.ofEndpoint e), x.say [ApiError.endpointLog e])
  | contentRouting =>
    match payload? r.body with
    | .error e => (.error e, x)
    | .ok none => (.ok (), x)
    | .ok (some v) =>
      let (result, outside) := sv.upload v x.state.outside
      let x : Exchange σ :=
        { x with state := { x.state with outside }, effects := x.effects ++ [.upload v] }
      match result with
      | .ok hash =>
        (.ok (), { x with contentHash := some hash }.say
          [.stage .debug ("Stored request data as " ++ hash)])
      | .error e => (.error (.ofStore e), x.say [ApiError.storeLog e])
  | providerBinding =>
    match x.endpoint with
    | none => (.error (.internal "Request was not routed"), x)
    | some url =>
      match Registry.checkProvider url with
      | .ok () => (.ok (), x)
      | .error e => (.error (.ofEndpoint e), x.say [ApiError.endpointLog e])
  | quorumCheck =>
    if !set.enforceQuorum then (.ok (), x)
    else
      match set.broadcast.policy.allow (sv.peers x.state.outside).length with
      | .ok () => (.ok (), x)
      | .error e => (.error (.ofVote e), x)

/-- Passes stages in their order, up to the first that fails. -/
def performAll (set : Settings) (sv : Services σ) (m : Moment) (r : HttpRequest) :
    List Stage → Exchange σ → Except ApiError Unit × Exchange σ
  | [], x => (.ok (), x)
  | s :: rest, x =>
    match s.perform set sv m r x with
    | (.error e, x) => (.error e, x)
    | (.ok (), x) => performAll set sv m r rest x

end Stage

end Quorum.Api
