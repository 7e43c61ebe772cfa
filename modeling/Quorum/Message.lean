import Quorum.Json.Value

/-!
# Messages between peers

A request names a model and carries its input; a response carries either the output
or why there is none. Both are JSON objects with their members in a fixed order, a
response with a member `type` in front that names its kind.
-/

namespace Quorum

/-- The largest message in bytes. -/
def messageLimit : Nat := 4 * 1024 * 1024

/-- Asks a peer to run a model. -/
structure Request where
  id : String
  model : String
  input : Json

/-- A peer's answer to the request with that id. -/
inductive Response where
  | output (id : String) (value : Json)
  | refusal (id : String) (message : String)

namespace Request

def render (r : Request) : String :=
  Json.renderMembers [("request_id", (Json.string r.id).render),
    ("model_id", (Json.string r.model).render), ("input", r.input.render)]

end Request

namespace Response

def id : Response → String
  | output id _ => id
  | refusal id _ => id

def render : Response → String
  | output id value =>
    Json.renderMembers [("type", (Json.string "output").render),
      ("request_id", (Json.string id).render), ("output", value.render)]
  | refusal id message =>
    Json.renderMembers [("type", (Json.string "error").render),
      ("request_id", (Json.string id).render), ("message", (Json.string message).render)]

end Response

end Quorum
