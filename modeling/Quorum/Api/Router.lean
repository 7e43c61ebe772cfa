import Quorum.Api.Pipeline
import Quorum.Json.Record
import Quorum.Net.MediaType
import Quorum.Text.Timestamp

/-!
# Routes and answers

Four routes, each with a method, its stages and a handler. A request with another
method passes the stages of the route and is then told which methods there are; one
for no route passes the rate limit only. `OPTIONS` is answered before all stages.
`respond` is the whole way from a request to its answer.
-/

namespace Quorum.Api

/-- An answer: the status, the type of the body, the body. -/
structure Answer where
  status : Nat
  mediaType : Option String
  body : String
  deriving DecidableEq, Repr

namespace Answer

def empty (status : Nat) : Answer := ⟨status, none, ""⟩

def json (body : String) : Answer := ⟨200, some "application/json", body⟩

/-- An answer for a reader, when a body could not be taken. -/
def plain (status : Nat) (body : String) : Answer :=
  ⟨status, some "text/plain; charset=utf-8", body⟩

def ofError (e : ApiError) : Answer := ⟨e.status, some "application/json", e.body⟩

end Answer

inductive Route where
  | health
  | process
  | inference
  | peers
  deriving DecidableEq, Repr

namespace Route

def all : List Route := [health, process, inference, peers]

def path : Route → String
  | health => "/api/health"
  | process => "/api/process"
  | inference => "/api/inference"
  | peers => "/api/peers"

def ofPath? (path : String) : Option Route := all.find? (·.path == path)

/-- The methods that the handler takes. -/
def methods : Route → List String
  | health | peers => ["GET", "HEAD"]
  | process | inference => ["POST"]

/-- The stages behind the rate limit. -/
def stages : Route → List Stage
  | health => [.routing]
  | process => [.routing, .contentRouting, .providerBinding, .quorumCheck]
  | inference => [.quorumCheck]
  | peers => []

end Route

/-! ## Reading requests -/

/-- The value of a header. -/
def header? (r : HttpRequest) (name : String) : Option String :=
  (r.headers.find? fun h => h.1.toLower == name).map (·.2)

def hasJsonBody (r : HttpRequest) : Bool :=
  (((header? r "content-type").bind MediaType.ofText?).map (·.isJson)).getD false

/-- The body of a request for inference. -/
structure InferenceBody where
  model : String
  input : Json

namespace InferenceBody

def limit : Nat := 2 * 1024 * 1024

def shape : Json.Shape :=
  ⟨"struct InferenceBody", [⟨"model_id", .text, none⟩, ⟨"input", .any, some .null⟩]⟩

def ofValues : List Json → InferenceBody
  | [.string model, input] => ⟨model, input⟩
  | _ => ⟨"", .null⟩

/-- The answer to a body that could not be read. -/
def refuse (body : Bytes) (f : Json.Fault) : Answer :=
  if f.reason.isMismatch then
    .plain 422 ("Failed to deserialize the JSON body into the target type: " ++
      f.messageWithPath body)
  else .plain 400 ("Failed to parse the request body as JSON: " ++ f.messageWithPath body)

/-- Reads the body of a request; what follows the object is not looked at. -/
def ofRequest (r : HttpRequest) : Except Answer InferenceBody :=
  if !hasJsonBody r then
    .error (.plain 415 "Expected request with `Content-Type: application/json`")
  else if limit < r.body.length then
    .error (.plain 413 "Failed to buffer the request body: length limit exceeded")
  else
    match shape.readFront r.body with
    | .error f => .error (refuse r.body f)
    | .ok (values, _) => .ok (ofValues values)

end InferenceBody

/-! ## Handlers -/

def version : String := "0.1.0"

section

variable {σ : Type}

def healthAnswer (m : Moment) (endpoint : String) (peerCount : Nat) : Answer :=
  .json (Json.renderMembers
    [("status", (Json.string "UP").render), ("rpcEndpoint", (Json.string endpoint).render),
     ("peerCount", toString peerCount), ("timestamp", (Json.string (Timestamp.text m.unix)).render),
     ("version", (Json.string version).render)])

def processAnswer (endpoint : String) (hash : Option String) : Answer :=
  .json (Json.renderMembers
    [("status", (Json.string "success").render),
     ("ipfsHash", ((hash.map Json.string).getD .null).render),
     ("rpcEndpoint", (Json.string endpoint).render)])

def peersAnswer (peers : List PeerId) : Answer :=
  .json (Json.renderMembers
    [("count", toString peers.length),
     ("peers", (Json.array (peers.map fun p => .string p.text)).render)])

def inferenceAnswer : Except VoteError Outcome → Answer
  | .ok o => .json (Json.renderMembers (("status", (Json.string "success").render) :: o.members))
  | .error e => .ofError (.ofVote e)

/-- What is said about a vote that failed. -/
def inferenceLog : Except VoteError Outcome → List LogRecord
  | .ok _ => []
  | .error e => [(ApiError.ofVote e).log]

/-- Reads the body, broadcasts the request and answers with the outcome of the vote. -/
def broadcastInference (set : Settings) (sv : Services σ) (m : Moment) (r : HttpRequest)
    (x : Exchange σ) : Answer × Exchange σ :=
  match InferenceBody.ofRequest r with
  | .error a => (a, x)
  | .ok body =>
    let outside := x.state.outside
    let request : Request := ⟨m.requestId, body.model, body.input⟩
    let run := Broadcast.run set.broadcast (sv.peers outside) request (sv.ask outside request)
    let effects := if run.sent.isEmpty then x.effects else x.effects ++ [.broadcast run.sent]
    let x := { x with effects, elapsed := x.elapsed + run.elapsed }.say
      (Broadcast.log set.broadcast request run ++ inferenceLog run.result)
    (inferenceAnswer run.result, x)

/-- What a route does once all stages are passed. -/
def Route.handle (set : Settings) (sv : Services σ) (m : Moment) (r : HttpRequest)
    (x : Exchange σ) : Route → Answer × Exchange σ
  | .health => (healthAnswer m (x.endpoint.getD "") (sv.peers x.state.outside).length, x)
  | .process => (processAnswer (x.endpoint.getD "") x.contentHash, x)
  | .inference => broadcastInference set sv m r x
  | .peers => (peersAnswer (sv.peers x.state.outside), x)

/-! ## Answers -/

def Exchange.begin (st : State σ) : Exchange σ := ⟨st, [], 0, none, none, []⟩

/-- The answer to a request that no handler takes. -/
def unhandled (route : Option Route) : Answer := if route.isSome then .empty 405 else .empty 404

/-- Passes the stages, then hands the request to the handler of its route, if there is one for its
method. -/
def answer (set : Settings) (sv : Services σ) (m : Moment) (r : HttpRequest) (st : State σ) :
    Answer × Exchange σ :=
  let route := Route.ofPath? (pathOf r.target)
  let stages := Stage.rateLimit :: ((route.map Route.stages).getD [])
  match Stage.performAll set sv m r stages (.begin st) with
  | (.error e, x) => (.ofError e, x.say [e.log])
  | (.ok (), x) =>
    match route with
    | some route =>
      if route.methods.contains r.method then route.handle set sv m r x
      else (unhandled (some route), x)
    | none => (unhandled none, x)

/-- A response as it leaves the node; the headers are in the order of their names. -/
structure HttpResponse where
  status : Nat
  headers : List (String × String)
  body : String
  deriving DecidableEq, Repr

/-- Headers that let pages from anywhere use the API. -/
def sharingHeaders (preflight : Bool) : List (String × String) :=
  (if preflight then
    [("access-control-allow-headers", "*"), ("access-control-allow-methods", "GET,POST")]
  else []) ++ [("access-control-allow-origin", "*")]

/-- The methods of the route, told to a request with another one. -/
def allowHeader (r : HttpRequest) : List (String × String) :=
  match Route.ofPath? (pathOf r.target) with
  | some route =>
    if route.methods.contains r.method then [] else [("allow", ",".intercalate route.methods)]
  | none => []

/-- Whether a request asks for the headers alone. -/
def wantsHeadersOnly (r : HttpRequest) : Bool :=
  r.method == "HEAD" &&
    ((Route.ofPath? (pathOf r.target)).map fun route => route.methods.contains "HEAD").getD false

def frame (r : HttpRequest) (preflight : Bool) (a : Answer) : HttpResponse :=
  ⟨a.status,
   sharingHeaders preflight ++ allowHeader r ++
     [("content-length", toString a.body.utf8ByteSize)] ++
     (a.mediaType.map fun t => ("content-type", t)).toList ++
     [("vary", "origin, access-control-request-method, access-control-request-headers")],
   if wantsHeadersOnly r then "" else a.body⟩

/-- The whole way from a request to its response. -/
def respond (set : Settings) (sv : Services σ) (m : Moment) (r : HttpRequest) (st : State σ) :
    HttpResponse × Exchange σ :=
  if r.method == "OPTIONS" then (frame r true (.empty 200), .begin st)
  else
    let (a, x) := answer set sv m r st
    (frame r false a, x)

end

end Quorum.Api
