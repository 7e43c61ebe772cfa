import Quorum.Net.Multiaddr
import Quorum.Number.Whole

/-!
# What is wrong with an address

An address that cannot be read has a first component that is at fault: its protocol is
unknown, its value is missing, or the value is none for the protocol.
-/

namespace Quorum.Multiaddr

inductive Fault where
  | noSlash
  | missingValue
  | badValue (reason : String)
  | unknownProtocol (name : String)
  deriving DecidableEq, Repr

def Fault.message : Fault → String
  | noSlash => "invalid multiaddr"
  | missingValue => "invalid protocol string"
  | badValue reason => "failed to parse: " ++ reason
  | unknownProtocol name => "unknown protocol string: " ++ name

/-- Protocols with a value other than a number or any text. -/
def valuedNames : List String :=
  ["ip4", "ip6", "p2p", "ipfs", "x-parity-ws", "x-parity-wss", "http-path", "onion", "onion3",
   "certhash"]

def isValued (name : String) : Bool :=
  NumberProtocol.all.any (·.name == name) || TextProtocol.all.any (·.name == name) ||
    valuedNames.contains name

/-- What is wrong with the text of an id. -/
def peerReason (value : String) : String :=
  match Base58.decode? value with
  | none => "Invalid base string"
  | some bytes =>
    match bytes with
    | code :: length :: digest =>
      if code < 128 && digest.length = length.toNat && length ≤ 64 &&
          (HashKind.ofCode? code).isNone then
        "unsupported multihash code '" ++ toString code.toNat ++ "'"
      else "invalid multihash"
    | _ => "invalid multihash"

/-- What is wrong with a value. -/
def valueReason (name value : String) : String :=
  match NumberProtocol.all.find? (·.name == name) with
  | some p =>
    match Whole.read 0 (p.bound - 1) value.toList with
    | .error f => f.message
    | .ok _ => "invalid value"
  | none =>
    if name == "ip4" then "invalid IPv4 address syntax"
    else if name == "ip6" then "invalid IPv6 address syntax"
    else if name == "p2p" || name == "ipfs" then peerReason value
    else "invalid value"

/-- The fault of the first component that has one. -/
def componentsFault? : List String → Option Fault
  | [] => none
  | name :: rest =>
    if (bare? name).isSome then componentsFault? rest
    else if isValued name then
      match rest with
      | [] => some .missingValue
      | value :: rest =>
        if (valued? name value).isSome then componentsFault? rest
        else some (.badValue (valueReason name value))
    else some (.unknownProtocol name)

/-- What is wrong with a text, if it is no address. -/
def fault? (s : String) : Option Fault :=
  match (IpAddress.splitOn '/' s.toList).map String.ofList with
  | "" :: parts => componentsFault? parts
  | _ => some .noSlash

/-- Reads an address or says what is wrong with it. -/
def read (s : String) : Except Fault Multiaddr :=
  match ofText? s with
  | some a => .ok a
  | none => .error ((fault? s).getD .noSlash)

end Quorum.Multiaddr
