import Quorum.Json.Reader
import Quorum.Message
import Quorum.Net.Post

/-!
# Running models

A node runs no model itself: it hands the request of a peer to a model server and
takes the JSON that comes back for the output. A node without a server refuses.
-/

namespace Quorum

/-- Why a model was not run. -/
inductive BackendError where
  | unconfigured (model : String)
  | unreachable
  | status (code : Nat)
  | invalidJson
  /-- A refusal in words of its own. -/
  | other (text : String)
  deriving DecidableEq, Repr

def BackendError.message : BackendError → String
  | unconfigured model => "no inference backend configured for model " ++ model
  | unreachable => "Inference backend unreachable"
  | status code => "Inference backend returned " ++ Status.text code
  | invalidJson => "Inference backend returned invalid JSON"
  | other text => text

namespace Backend

/-- What is sent to the model server at `url`. -/
def post (url : String) (r : Request) : Post := ⟨url, "application/json", r.render⟩

/-- The output in the server's response. -/
def output : PostResult → Except BackendError Json
  | .failed => .error .unreachable
  | .answered status body =>
    if !Status.isSuccess status then .error (.status status)
    else
      match Json.read body with
      | .ok v => .ok v
      | .error _ => .error .invalidJson

/-- The response to a peer's request. -/
def respond (r : Request) (result : Except BackendError Json) : Response :=
  match result with
  | .ok v => .output r.id v
  | .error e => .refusal r.id e.message

end Backend

end Quorum
