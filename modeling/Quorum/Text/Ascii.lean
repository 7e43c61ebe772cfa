/-!
# ASCII bytes

Names for the bytes that the text formats of this library give a meaning to,
and the classes they test for.
-/

namespace Quorum

/-- A byte string, read from the front. -/
abbrev Bytes := List UInt8

namespace Ascii

abbrev tab : UInt8 := 0x09
abbrev lineFeed : UInt8 := 0x0A
abbrev carriageReturn : UInt8 := 0x0D
abbrev space : UInt8 := 0x20
abbrev quote : UInt8 := 0x22
abbrev plus : UInt8 := 0x2B
abbrev comma : UInt8 := 0x2C
abbrev minus : UInt8 := 0x2D
abbrev dot : UInt8 := 0x2E
abbrev slash : UInt8 := 0x2F
abbrev digit0 : UInt8 := 0x30
abbrev digit9 : UInt8 := 0x39
abbrev colon : UInt8 := 0x3A
abbrev upperE : UInt8 := 0x45
abbrev openBracket : UInt8 := 0x5B
abbrev backslash : UInt8 := 0x5C
abbrev closeBracket : UInt8 := 0x5D
abbrev lowerB : UInt8 := 0x62
abbrev lowerE : UInt8 := 0x65
abbrev lowerF : UInt8 := 0x66
abbrev lowerN : UInt8 := 0x6E
abbrev lowerR : UInt8 := 0x72
abbrev lowerT : UInt8 := 0x74
abbrev lowerU : UInt8 := 0x75
abbrev openBrace : UInt8 := 0x7B
abbrev closeBrace : UInt8 := 0x7D

def isDigit (b : UInt8) : Bool := digit0 ≤ b && b ≤ digit9

/-- The value of a decimal digit. -/
def digitValue (b : UInt8) : Nat := b.toNat - digit0.toNat

/-- The value of a hexadecimal digit in either case. -/
def hexValue? (b : UInt8) : Option Nat :=
  if isDigit b then some (digitValue b)
  else if 0x41 ≤ b && b ≤ 0x46 then some (b.toNat - 0x37)
  else if 0x61 ≤ b && b ≤ 0x66 then some (b.toNat - 0x57)
  else none

end Ascii

/-- The character of a hexadecimal digit below sixteen, in lower case. -/
def hexDigit (n : Nat) : Char := if n < 10 then Char.ofNat (48 + n) else Char.ofNat (87 + n)

/-- Two lower-case hexadecimal digits. -/
def hexByte (b : UInt8) : List Char := [hexDigit (b.toNat / 16), hexDigit (b.toNat % 16)]

end Quorum
