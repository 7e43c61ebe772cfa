import Quorum.Text.Ascii

/-!
# Base 58 text

Bytes written as one number to base 58, over the digits and letters that are
hard to confuse; every leading zero byte is one leading `1`.
-/

namespace Quorum.Base58

def alphabet : List Char :=
  "123456789ABCDEFGHJKLMNPQRSTUVWXYZabcdefghijkmnopqrstuvwxyz".toList

/-- The digits of a number to a base above one, most significant first. -/
def digitsOf (base n : Nat) : List Nat := go n n []
where
  go : Nat → Nat → List Nat → List Nat
    | 0, _, acc => acc
    | fuel + 1, n, acc => if n = 0 then acc else go fuel (n / base) (n % base :: acc)

def valueOf (base : Nat) (digits : List Nat) : Nat := digits.foldl (fun n d => base * n + d) 0

def encode (bytes : Bytes) : String :=
  let zeros := bytes.takeWhile (· == 0)
  let digits := digitsOf 58 (valueOf 256 (bytes.map (·.toNat)))
  String.ofList (zeros.map (fun _ => '1') ++ digits.map fun d => alphabet.getD d '1')

def digit? (c : Char) : Option Nat := alphabet.findIdx? (· == c)

def decode? (s : String) : Option Bytes := do
  let chars := s.toList
  let digits ← chars.mapM digit?
  let zeros := (chars.takeWhile (· == '1')).map fun _ => (0 : UInt8)
  return zeros ++ (digitsOf 256 (valueOf 58 digits)).map UInt8.ofNat

end Quorum.Base58
