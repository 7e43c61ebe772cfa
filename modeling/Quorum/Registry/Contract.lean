import Quorum.Json.Reader
import Quorum.Net.Post
import Quorum.Registry
import Quorum.Text.Utf8

/-!
# Asking the registry contract

The contract is called through a provider; its answer is the address of a node and
the node's endpoint, encoded as words of 32 bytes: the address, the place of the
text, and there its length and its bytes. The padding behind the text may be
missing, and ill-formed text reads with replacement characters.
-/

namespace Quorum.Registry

/-- A node in the registry. -/
structure NodeRecord where
  address : Bytes
  endpoint : String
  deriving DecidableEq, Repr

def wordSize : Nat := 32

/-- The code of the function that names the best node. -/
def selector : String := "0x9ba446c9"

def hexText (bytes : Bytes) : String := "0x" ++ String.ofList (bytes.flatMap hexByte)

/-- The call's parameters: whom it goes to, and its data. -/
def callJson (address : Bytes) : Json :=
  .ofMembers [("to", .string (hexText address)), ("data", .string selector)]

/-- What is sent to the provider. -/
def post (providerUrl : String) (address : Bytes) : Post :=
  ⟨providerUrl, "application/json",
   Json.renderMembers [("id", "1"), ("jsonrpc", "\"2.0\""), ("method", "\"eth_call\""),
     ("params", (Json.array [callJson address, .string "latest"]).render)]⟩

/-! ## Answers -/

/-- Pairs of hexadecimal digits as bytes. -/
def hexBytes? : List Char → Option Bytes
  | [] => some []
  | a :: b :: rest => do
    let h ← IpAddress.hexCharValue? a
    let l ← IpAddress.hexCharValue? b
    return UInt8.ofNat (16 * h + l) :: (← hexBytes? rest)
  | _ => none

def bytesOfText? (s : String) : Option Bytes :=
  match s.toList with
  | '0' :: 'x' :: rest => hexBytes? rest
  | cs => hexBytes? cs

/-- Members that an answer may have. -/
def memberNames : List String := ["id", "jsonrpc", "result", "error", "params", "method"]

/-- Whether a value is a natural number of 64 bits. -/
def isId : Json → Bool
  | .integer n => 0 ≤ n
  | _ => false

/-- The result in an answer. -/
def result? (v : Json) : Option Json :=
  match v with
  | .object members =>
    let known := members.all fun m => memberNames.contains m.1
    let versioned := match v.member? "jsonrpc" with
      | some (.string s) => s == "2.0"
      | _ => false
    let others := ["error", "method", "params"].any fun n => (v.member? n).isSome
    if known && versioned && !others && ((v.member? "id").map isId).getD false then
      v.member? "result"
    else none
  | _ => none

/-- The word at a place. -/
def word? (data : Bytes) (at' : Nat) : Option Bytes :=
  let word := (data.drop at').take wordSize
  if word.length = wordSize then some word else none

/-- A word that is a small number: all but its last four bytes are zero. -/
def size? (data : Bytes) (at' : Nat) : Option Nat := do
  let word ← word? data at'
  if (word.take 28).all (· == 0) then
    return (word.drop 28).foldl (fun n b => 256 * n + b.toNat) 0
  else none

/-- Reads an address and a text. -/
def decode? (data : Bytes) : Option NodeRecord := do
  let address ← word? data 0
  let place ← size? data wordSize
  let length ← size? data place
  let text := (data.drop (place + wordSize)).take length
  if text.length = length then return ⟨address.drop 12, Utf8.lossy text⟩ else none

/-- The node in a provider's response; every fault of it is the same error. -/
def outcome : PostResult → Except EndpointError NodeRecord
  | .failed => .error (.registry "no response")
  | .answered _ body =>
    match Json.read body with
    | .error _ => .error (.registry "no JSON")
    | .ok v =>
      match result? v with
      | some (.string s) =>
        match (bytesOfText? s).bind decode? with
        | some r => .ok r
        | none => .error (.registry "no node record")
      | _ => .error (.registry "no result")

end Quorum.Registry
