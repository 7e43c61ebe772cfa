import Quorum.Json.Record
import Quorum.Net.Post
import Quorum.Store

/-!
# Storing payloads on an IPFS node

A payload goes to the node's API as the only part of a form, a file of JSON; the
answer names the hash under which it can be found.
-/

namespace Quorum.Ipfs

/-- The address for adding a file, for the node's API at `base`. -/
def addUrl (base : String) : String :=
  String.ofList ((base.toList.reverse.dropWhile (· == '/')).reverse) ++ "/api/v0/add?pin=true"

/-- The headers of the form's part. -/
def partHeaders : List (String × String) :=
  [("content-disposition", "form-data; name=\"file\"; filename=\"data.json\""),
   ("content-type", "application/json")]

/-- What is sent to store a payload; the body is the content of the form's part. -/
def post (base : String) (v : Json) : Post := ⟨addUrl base, "multipart/form-data", v.render⟩

/-- The answer's form. -/
def shape : Json.Shape := ⟨"struct AddResponse", [⟨"Hash", .text, none⟩]⟩

/-- The hash in an answer. -/
def hash? (body : Bytes) : Option String :=
  match shape.readFront body with
  | .ok ([.string hash], rest) =>
    match Json.nothingMore rest with
    | .ok () => some hash
    | .error _ => none
  | _ => none

/-- The hash under which the payload was stored. -/
def outcome (p : Post) : PostResult → Except StoreError String
  | .failed => .error (.upload p.failure)
  | .answered status body =>
    if !Status.isSuccess status then
      .error (.upload ("ipfs add returned " ++ Status.text status))
    else
      match hash? body with
      | some hash => .ok hash
      | none => .error (.badResponse "error decoding response body")

end Quorum.Ipfs
