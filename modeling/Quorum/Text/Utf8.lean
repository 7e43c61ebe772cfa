import Quorum.Text.Ascii

/-!
# UTF-8

Reading bytes as characters one at a time. `next` takes one well-formed
character; `validRest` is what is left after the longest well-formed start; in
`lossy` every maximal start of an ill-formed character becomes one replacement
character.
-/

namespace Quorum.Utf8

def isTail (b : UInt8) : Bool := 0x80 ≤ b && b ≤ 0xBF

/-- How many tail bytes a first byte asks for, and the range of the first of them. -/
def lead (b : UInt8) : Option (Nat × UInt8 × UInt8) :=
  if 0xC2 ≤ b && b ≤ 0xDF then some (1, 0x80, 0xBF)
  else if b == 0xE0 then some (2, 0xA0, 0xBF)
  else if b == 0xED then some (2, 0x80, 0x9F)
  else if 0xE1 ≤ b && b ≤ 0xEF then some (2, 0x80, 0xBF)
  else if b == 0xF0 then some (3, 0x90, 0xBF)
  else if 0xF1 ≤ b && b ≤ 0xF3 then some (3, 0x80, 0xBF)
  else if b == 0xF4 then some (3, 0x80, 0x8F)
  else none

/-- The payload bits of a first byte that asks for `tails` more. -/
def leadBits (tails : Nat) (b : UInt8) : Nat := b.toNat % (1 <<< (6 - tails))

/-- Takes `tails` further bytes; `.error` keeps what follows the bytes that did fit. -/
def tailBytes : Nat → UInt8 → UInt8 → Nat → Bytes → Except Bytes (Nat × Bytes)
  | 0, _, _, n, s => .ok (n, s)
  | _ + 1, _, _, _, [] => .error []
  | k + 1, low, high, n, b :: rest =>
    if low ≤ b && b ≤ high then tailBytes k 0x80 0xBF (64 * n + b.toNat % 64) rest
    else .error (b :: rest)

/-- One character and what follows it; `.error` keeps what follows the longest start of an
ill-formed one. -/
def next : Bytes → Option (Except Bytes (Char × Bytes))
  | [] => none
  | b :: rest =>
    if b < 0x80 then some (.ok (Char.ofNat b.toNat, rest))
    else match lead b with
      | none => some (.error rest)
      | some (tails, low, high) =>
        some ((tailBytes tails low high (leadBits tails b) rest).map
          fun (n, rest) => (Char.ofNat n, rest))

/-- What is left after the longest well-formed start. -/
def validRest : Nat → Bytes → Bytes
  | 0, s => s
  | fuel + 1, s =>
    match next s with
    | some (.ok (_, rest)) => validRest fuel rest
    | _ => s

/-- Every maximal start of an ill-formed character reads as one replacement character. -/
def lossyChars : Nat → List Char → Bytes → List Char
  | 0, acc, _ => acc.reverse
  | fuel + 1, acc, s =>
    match next s with
    | none => acc.reverse
    | some (.ok (c, rest)) => lossyChars fuel (c :: acc) rest
    | some (.error rest) => lossyChars fuel ('\uFFFD' :: acc) rest

def lossy (s : Bytes) : String := String.ofList (lossyChars (s.length + 1) [] s)

/-- The characters of a well-formed text. -/
def decode? (s : Bytes) : Option String := String.fromUTF8? s.toByteArray

def encode (s : String) : Bytes := s.toUTF8.data.toList

end Quorum.Utf8
