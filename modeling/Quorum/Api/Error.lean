import Quorum.Json.Fault
import Quorum.Log
import Quorum.Selector
import Quorum.Store
import Quorum.Vote

/-!
# Errors of the API

Every stage of a request fails with a status code and a message, which make up the
whole response. What went wrong inside the node is told only where the client can do
something about it: votes and faulty JSON keep their text, the choice of an endpoint
and the content store do not.
-/

namespace Quorum

structure ApiError where
  code : Nat
  message : String
  deriving DecidableEq, Repr

namespace ApiError

def badRequest (message : String) : ApiError := ⟨400, message⟩

def conflict (message : String) : ApiError := ⟨409, message⟩

def tooManyRequests (message : String) : ApiError := ⟨429, message⟩

def internal (message : String) : ApiError := ⟨500, message⟩

def badGateway (message : String) : ApiError := ⟨502, message⟩

def unavailable (message : String) : ApiError := ⟨503, message⟩

def rateLimited (limit windowSecs : Nat) : ApiError :=
  tooManyRequests ("Rate limit exceeded: " ++ toString limit ++ " requests per " ++
    toString windowSecs ++ "s")

def ofEndpoint : EndpointError → ApiError
  | .invalidProvider _ => badGateway "Selected RPC endpoint is unusable"
  | _ => unavailable "No RPC endpoint available"

def ofStore (_ : StoreError) : ApiError := unavailable "Content storage unavailable"

def ofVote (e : VoteError) : ApiError :=
  match e with
  | .noConsensus .. => conflict e.message
  | _ => unavailable e.message

/-- The error of a faulty JSON text; `text` is its message. -/
def ofJson (text : String) : ApiError := badRequest ("JSON parsing error: " ++ text)

/-- The code as a status; what is none becomes an internal error. -/
def status (e : ApiError) : Nat := if 100 ≤ e.code && e.code ≤ 999 then e.code else 500

/-- The body of the response. -/
def body (e : ApiError) : String :=
  Json.renderMembers [("status", (Json.string "error").render),
    ("message", (Json.string e.message).render)]

def text (e : ApiError) : String := "API Error " ++ toString e.code ++ ": " ++ e.message

/-! ## Log -/

/-- What answering with the error says. -/
def log (e : ApiError) : LogRecord :=
  .apiError (if 500 ≤ e.status && e.status ≤ 599 then .error else .warn) e.text

/-- What is said when there is no endpoint for a request. -/
def endpointLog (e : EndpointError) : LogRecord :=
  .apiError .error ("RPC endpoint selection failed: " ++ e.message)

/-- What is said when a payload was not stored. -/
def storeLog (e : StoreError) : LogRecord :=
  .apiError .error ("Content upload failed: " ++ e.message)

end ApiError

end Quorum
