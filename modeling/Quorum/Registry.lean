import Quorum.Net.Url
import Quorum.Selector

/-!
# The registry contract

A registry lives at an address of twenty bytes and is asked through a provider. The
address is hexadecimal, with an optional `0x` in front and blanks ignored; the
provider must be an absolute URL.
-/

namespace Quorum

namespace ContractAddress

inductive Fault where
  | badCharacter (c : Char) (position : Nat)
  | badLength
  deriving DecidableEq, Repr

def Fault.message : Fault → String
  | badCharacter c position =>
    "Invalid character '" ++ String.singleton c ++ "' at position " ++ toString position
  | badLength => "Invalid input length"

def size : Nat := 20

def isBlank (c : Char) : Bool := c == ' ' || c == '\r' || c == '\n' || c == '\t'

/-- Reads hexadecimal digits in pairs until the bytes are complete; `half` is the first digit of
an open pair. Nothing but blanks may follow. -/
def readDigits : Nat → List UInt8 → Option Nat → List Char → Except Fault Bytes
  | _, acc, half, [] =>
    if acc.length = size && half.isNone then .ok acc.reverse else .error .badLength
  | position, acc, half, c :: rest =>
    if isBlank c then readDigits (position + 1) acc half rest
    else if acc.length = size then .error .badLength
    else match if c.toNat < 128 then Ascii.hexValue? (UInt8.ofNat c.toNat) else none with
      | none => .error (.badCharacter c position)
      | some d =>
        match half with
        | none => readDigits (position + 1) acc (some d) rest
        | some h => readDigits (position + 1) (UInt8.ofNat (16 * h + d) :: acc) none rest

def read (s : String) : Except Fault Bytes :=
  match s.toList with
  | '0' :: 'x' :: rest => readDigits 0 [] none rest
  | cs => readDigits 0 [] none cs

end ContractAddress

namespace Registry

/-- Checks a provider's URL. -/
def checkProvider (url : String) : Except EndpointError Unit :=
  match Url.check url with
  | .ok () => .ok ()
  | .error f => .error (.invalidProvider (url ++ ": " ++ f.message))

/-- The contract's address, if provider and address are sound. -/
def bind (providerUrl address : String) : Except EndpointError Bytes := do
  checkProvider providerUrl
  match ContractAddress.read address with
  | .ok bytes => return bytes
  | .error f => throw (.invalidAddress (address ++ ": " ++ f.message))

end Registry

end Quorum
