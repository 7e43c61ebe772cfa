import Quorum.Text.Ascii

/-!
# IP addresses

Addresses of both versions with their texts. Version 4 is four decimal octets
without leading zeros. Version 6 is eight groups of up to four hexadecimal digits;
one run of zero groups may be left out, the last two groups may be a version 4
address. It prints in lower case with the first of the longest runs of zero groups
left out, if that has two groups or more.
-/

namespace Quorum

/-- An address: four octets, or eight groups of 16 bits. -/
inductive IpAddress where
  | v4 (octets : List Nat)
  | v6 (groups : List Nat)
  deriving DecidableEq, Repr

namespace IpAddress

/-- The parts of a text between separators. -/
def splitOn (sep : Char) : List Char → List (List Char)
  | [] => [[]]
  | c :: rest =>
    if c = sep then [] :: splitOn sep rest
    else match splitOn sep rest with
      | [] => [[c]]
      | part :: parts => (c :: part) :: parts

def isDecimal (c : Char) : Bool := '0' ≤ c && c ≤ '9'

def decimalValue (digits : List Char) : Nat :=
  digits.foldl (fun n c => 10 * n + (c.toNat - 48)) 0

def hexCharValue? (c : Char) : Option Nat :=
  if c.toNat < 128 then Ascii.hexValue? (UInt8.ofNat c.toNat) else none

/-- An octet has one to three digits and no leading zero. -/
def octet? (s : List Char) : Option Nat :=
  if s.isEmpty || 3 < s.length || !s.all isDecimal ||
      (s.head? == some '0' && 1 < s.length) then none
  else if decimalValue s ≤ 255 then some (decimalValue s) else none

def octets? (s : List Char) : Option (List Nat) :=
  let parts := splitOn '.' s
  if parts.length = 4 then parts.mapM octet? else none

def v4? (s : List Char) : Option IpAddress := (octets? s).map v4

def group? (s : List Char) : Option Nat :=
  if s.isEmpty || 4 < s.length then none
  else (s.mapM hexCharValue?).map fun ds => ds.foldl (fun n d => 16 * n + d) 0

/-- Groups between colons; the last part may be a version 4 address where `mayEnd` says so. -/
def groups? (mayEnd : Bool) : List (List Char) → Option (List Nat)
  | [] => some []
  | [part] =>
    match group? part with
    | some g => some [g]
    | none =>
      if mayEnd then
        match octets? part with
        | some [a, b, c, d] => some [256 * a + b, 256 * c + d]
        | _ => none
      else none
  | part :: parts => do return (← group? part) :: (← groups? mayEnd parts)

/-- Splits at the first `::`. -/
def splitGap : List Char → List Char → Option (List Char × List Char)
  | acc, ':' :: ':' :: rest => some (acc.reverse, rest)
  | acc, c :: rest => splitGap (c :: acc) rest
  | _, [] => none

/-- The groups of one side of a gap, which may be empty. -/
def sideGroups? (mayEnd : Bool) (s : List Char) : Option (List Nat) :=
  if s.isEmpty then some [] else groups? mayEnd (splitOn ':' s)

def v6? (s : List Char) : Option IpAddress :=
  match splitGap [] s with
  | none =>
    match groups? true (splitOn ':' s) with
    | some gs => if gs.length = 8 then some (v6 gs) else none
    | none => none
  | some (left, right) => do
    let l ← sideGroups? false left
    let r ← sideGroups? true right
    if l.length + r.length ≤ 7 then
      return v6 (l ++ List.replicate (8 - l.length - r.length) 0 ++ r)
    else none

def ofText? (s : String) : Option IpAddress := (v4? s.toList).orElse fun _ => v6? s.toList

def octetsText (os : List Nat) : String := ".".intercalate (os.map toString)

def groupText (g : Nat) : String := String.ofList (Nat.toDigits 16 g)

def groupsText (gs : List Nat) : String := ":".intercalate (gs.map groupText)

/-- How many zero groups stand at the front. -/
def zeroRun (gs : List Nat) : Nat := (gs.takeWhile (· == 0)).length

/-- The start and the length of the first of the longest runs of zero groups. -/
def longestRun : Nat → List Nat → Nat × Nat
  | _, [] => (0, 0)
  | i, g :: gs =>
    let here := zeroRun (g :: gs)
    let (j, later) := longestRun (i + 1) gs
    if later ≤ here then (i, here) else (j, later)

def text : IpAddress → String
  | v4 os => octetsText os
  | v6 [0, 0, 0, 0, 0, 0xffff, a, b] =>
    "::ffff:" ++ octetsText [a / 256, a % 256, b / 256, b % 256]
  | v6 gs =>
    let (start, length) := longestRun 0 gs
    if length < 2 then groupsText gs
    else groupsText (gs.take start) ++ "::" ++ groupsText (gs.drop (start + length))

/-- The address that stands for no address. -/
def unspecified : IpAddress := v4 [0, 0, 0, 0]

end IpAddress

end Quorum
