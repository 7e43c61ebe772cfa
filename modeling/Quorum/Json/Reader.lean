import Quorum.Json.Fault
import Quorum.Text.Utf8

/-!
# Reading JSON

`read` takes the bytes of one value with nothing but blanks around it. Every
reader takes bytes from the front and returns what follows. `fuel` bounds the
steps by the length of the text and never runs out (`stepsFor`); `depth` is how
many more arrays and objects may open.

A number without point and exponent that fits is a whole number. Any other one
is a double: its leading digits that fit 64 bits are scaled by a power of ten in
double arithmetic, further digits of the whole part only count as zeros, further
digits of the fraction are dropped.
-/

namespace Quorum.Json

open Ascii

/-- More steps than reading a text can take: two for every byte. -/
def stepsFor (s : Bytes) : Nat := 2 * s.length + 2

/-- Arrays and objects may lie inside one another this deep, plus one that is refused. -/
def depthLimit : Nat := 128

def isBlank (b : UInt8) : Bool :=
  b == space || b == lineFeed || b == tab || b == carriageReturn

def skipBlank : Bytes → Bytes
  | [] => []
  | b :: rest => if isBlank b then skipBlank rest else b :: rest

/-! ## Names of the constants -/

/-- Reads the letters of a constant after its first one. -/
def ident : List UInt8 → Bytes → Except Fault Bytes
  | [], s => .ok s
  | _ :: _, [] => .error (.after .endInValue [])
  | c :: letters, b :: rest =>
    if b = c then ident letters rest else .error (.after .expectedIdent rest)

def ull : List UInt8 := [lowerU, 0x6C, 0x6C]
def rue : List UInt8 := [lowerR, lowerU, lowerE]
def alse : List UInt8 := [0x61, 0x6C, 0x73, lowerE]

/-! ## Numbers -/

/-- The largest leading part of a number that is kept. -/
def maxSignificand : Nat := UInt64.size - 1

/-- Takes digits as long as they fit; also counts them. -/
def digits (n count : Nat) : Bytes → Nat × Nat × Bytes
  | [] => (n, count, [])
  | b :: rest =>
    if isDigit b && 10 * n + digitValue b ≤ maxSignificand then
      digits (10 * n + digitValue b) (count + 1) rest
    else (n, count, b :: rest)

/-- Skips digits and counts them. -/
def skipDigits (count : Nat) : Bytes → Nat × Bytes
  | [] => (count, [])
  | b :: rest => if isDigit b then skipDigits (count + 1) rest else (count, b :: rest)

def startsWithDigit : Bytes → Bool
  | b :: _ => isDigit b
  | [] => false

/-- `x * 10 ^ e` by steps of doubles; `none` when it is out of range. -/
def scale (x : Double) (e : Int) : Option Double :=
  if h : e < -308 then
    if x.isZero then some x else scale (x.div (Double.ofNat (Nat.pow 10 308))) (e + 308)
  else if e < 0 then some (x.div (Double.ofNat (Nat.pow 10 e.natAbs)))
  else if e ≤ 308 then
    let y := x.mul (Double.ofNat (Nat.pow 10 e.toNat))
    if y.isFinite then some y else none
  else if x.isZero then some x
  else none
termination_by (-e).toNat

def scaled (negative : Bool) (significand : Nat) (e : Int) (rest : Bytes) : Read Json :=
  match scale (Double.ofNat significand) e with
  | none => .error (.after .numberOutOfRange rest)
  | some x => .ok (double (if negative then x.neg else x), rest)

/-- The largest exponent that is read as a number. -/
def maxExponent : Nat := 0x7FFFFFFF

/-- The exponent's further digits; `none` stands for one that is too large, and the rest begins
behind the digit that made it so. -/
def exponentDigits (n : Nat) : Bytes → Option Nat × Bytes
  | [] => (some n, [])
  | b :: rest =>
    if isDigit b then
      if maxExponent < 10 * n + digitValue b then (none, rest)
      else exponentDigits (10 * n + digitValue b) rest
    else (some n, b :: rest)

/-- Reads behind the letter of the exponent. -/
def exponent (negative : Bool) (significand : Nat) (start : Int) (s : Bytes) : Read Json :=
  let (down, s) := match s with
    | b :: rest =>
      if b = plus then (false, rest) else if b = minus then (true, rest) else (false, s)
    | [] => (false, [])
  match s with
  | [] => .error (.after .endInValue [])
  | b :: rest =>
    if !isDigit b then .error (.after .invalidNumber rest)
    else match exponentDigits (digitValue b) rest with
      | (some e, rest) => scaled negative significand (if down then start - e else start + e) rest
      | (none, rest) =>
        if significand != 0 && !down then .error (.after .numberOutOfRange rest)
        else .ok (double (Double.ofMagnitude negative 0), (skipDigits 0 rest).2)

def exponentOrEnd (negative : Bool) (significand : Nat) (e : Int) (s : Bytes) : Read Json :=
  match s with
  | b :: rest =>
    if b = lowerE || b = upperE then exponent negative significand e rest
    else scaled negative significand e s
  | [] => scaled negative significand e []

/-- Reads behind the point; `e` counts the digits of the whole part that were not kept. -/
def fraction (negative : Bool) (significand : Nat) (e : Nat) (s : Bytes) : Read Json :=
  let (n, count, rest) := digits significand 0 s
  if startsWithDigit rest then
    exponentOrEnd negative n ((e : Int) - count) (skipDigits 0 rest).2
  else if count = 0 then
    match rest with
    | [] => .error (.before .endInValue [])
    | _ => .error (.before .invalidNumber rest)
  else exponentOrEnd negative n ((e : Int) - count) rest

/-- A whole number, or a double where it does not fit; the negative zero is a double. -/
def whole (negative : Bool) (n : Nat) : Json :=
  if !negative then integer n
  else if n = 0 || 1 <<< 63 < n then double (Double.ofNat n).neg
  else integer (-n)

/-- Reads what follows the kept digits of the whole part. -/
def numberTail (negative : Bool) (n : Nat) (s : Bytes) : Read Json :=
  match s with
  | [] => .ok (whole negative n, [])
  | b :: rest =>
    if isDigit b then
      let (dropped, rest) := skipDigits 0 s
      match rest with
      | [] => scaled negative n dropped []
      | b :: rest' =>
        if b = dot then fraction negative n dropped rest'
        else exponentOrEnd negative n dropped rest
    else if b = dot then fraction negative n 0 rest
    else if b = lowerE || b = upperE then exponent negative n 0 rest
    else .ok (whole negative n, s)

/-- Reads a number behind its sign. -/
def number (negative : Bool) (s : Bytes) : Read Json :=
  match s with
  | [] => .error (.after .endInValue [])
  | b :: rest =>
    if b = digit0 then
      if startsWithDigit rest then .error (.before .invalidNumber rest)
      else numberTail negative 0 rest
    else if isDigit b then
      let (n, _, rest) := digits 0 0 s
      numberTail negative n rest
    else .error (.after .invalidNumber rest)

/-! ## Strings -/

/-- The value of four hexadecimal digits. -/
def hex4 (a b c d : UInt8) : Option Nat := do
  return ((← hexValue? a) * 16 + (← hexValue? b)) * 256 +
    ((← hexValue? c) * 16 + (← hexValue? d))

/-- Reads the four digits of an escape. -/
def hexEscape (s : Bytes) : Read Nat :=
  match s with
  | a :: b :: c :: d :: rest =>
    match hex4 a b c d with
    | some n => .ok (n, rest)
    | none => .error (.after .invalidEscape rest)
  | _ => .error (.after .endInString [])

def isLeading (n : Nat) : Bool := 0xD800 ≤ n && n ≤ 0xDBFF

def isTrailing (n : Nat) : Bool := 0xDC00 ≤ n && n ≤ 0xDFFF

/-- Reads a code point written as one escape or, beyond 16 bits, as a pair of them. -/
def codePoint (s : Bytes) : Except Fault (Char × Bytes) := do
  let (n, rest) ← hexEscape s
  if isTrailing n then .error (.after .loneSurrogate rest)
  else if !isLeading n then .ok (Char.ofNat n, rest)
  else match rest with
    | [] => .error (.after .endInString [])
    | b :: rest =>
      if b ≠ backslash then .error (.after .unpairedEscape rest)
      else match rest with
        | [] => .error (.after .endInString [])
        | b :: rest =>
          if b ≠ lowerU then .error (.after .unpairedEscape rest)
          else do
            let (m, rest) ← hexEscape rest
            if !isTrailing m then .error (.after .loneSurrogate rest)
            else .ok (Char.ofNat (0x10000 + (n - 0xD800) * 0x400 + (m - 0xDC00)), rest)

/-- The byte that a one-letter escape stands for. -/
def letterEscape (b : UInt8) : Option UInt8 :=
  if b = quote || b = backslash || b = slash then some b
  else if b = lowerB then some 0x08
  else if b = lowerF then some 0x0C
  else if b = lowerN then some lineFeed
  else if b = lowerR then some carriageReturn
  else if b = lowerT then some tab
  else none

/-- The bytes of a string up to its closing quote, the escapes replaced. -/
def stringBytes : Nat → Bytes → Bytes → Read Bytes
  | 0, _, _ => .error (.after .endInString [])
  | _ + 1, _, [] => .error (.after .endInString [])
  | fuel + 1, acc, b :: rest =>
    if b = quote then .ok (acc.reverse, rest)
    else if b = backslash then
      match rest with
      | [] => .error (.after .endInString [])
      | e :: rest =>
        match letterEscape e with
        | some c => stringBytes fuel (c :: acc) rest
        | none =>
          if e = lowerU then
            match codePoint rest with
            | .error f => .error f
            | .ok (c, rest) =>
              stringBytes fuel ((Utf8.encode (String.singleton c)).reverse ++ acc) rest
          else .error (.after .invalidEscape rest)
    else if b < 0x20 then .error (.after .controlCharacter rest)
    else stringBytes fuel (b :: acc) rest

/-- Reads a string behind its opening quote. A byte that is no part of a character is at fault
where it stands. -/
def text (fuel : Nat) (s : Bytes) : Read String :=
  match stringBytes fuel [] s with
  | .error f => .error f
  | .ok (bytes, rest) =>
    match Utf8.decode? bytes with
    | some str => .ok (str, rest)
    | none => .error (.before .invalidCodePoint (Utf8.validRest s.length s))

/-! ## Lists and objects -/

/-- Whether a list or an object goes on, and what follows. -/
inductive Next where
  | stop (rest : Bytes)
  | more (rest : Bytes)

/-- What follows the opening bracket (`first`) or an item of a list. -/
def nextItem (first : Bool) (s : Bytes) : Except Fault Next :=
  match skipBlank s with
  | [] => .error (.before .endInList [])
  | b :: rest =>
    if b = closeBracket then .ok (.stop rest)
    else if first then .ok (.more (b :: rest))
    else if b = comma then
      match skipBlank rest with
      | [] => .error (.before .endInValue [])
      | b :: rest =>
        if b = closeBracket then .error (.before .trailingComma (b :: rest))
        else .ok (.more (b :: rest))
    else .error (.before .expectedListEnd (b :: rest))

/-- What follows the opening brace (`first`) or a member of an object: the rest begins behind the
quote that opens the next name. -/
def nextName (first : Bool) (s : Bytes) : Except Fault Next :=
  match skipBlank s with
  | [] => .error (.before .endInObject [])
  | b :: rest =>
    if b = closeBrace then .ok (.stop rest)
    else if first then
      if b = quote then .ok (.more rest) else .error (.before .nameNotString (b :: rest))
    else if b = comma then
      match skipBlank rest with
      | [] => .error (.before .endInValue [])
      | b :: rest =>
        if b = quote then .ok (.more rest)
        else if b = closeBrace then .error (.before .trailingComma (b :: rest))
        else .error (.before .nameNotString (b :: rest))
    else .error (.before .expectedObjectEnd (b :: rest))

/-- Reads the colon behind a name. -/
def colonAfter (s : Bytes) : Except Fault Bytes :=
  match skipBlank s with
  | [] => .error (.before .endInObject [])
  | b :: rest => if b = colon then .ok rest else .error (.before .expectedColon (b :: rest))

/-- Adds the step on the way to the value that a reader failed at. -/
def inside {α : Type} (step : Step) : Except Fault α → Except Fault α
  | .error f => .error (f.within step)
  | .ok x => .ok x

mutual

/-- Reads one value. -/
def value : Nat → Nat → Bytes → Read Json
  | 0, _, _ => .error (.after .endInValue [])
  | fuel + 1, depth, s =>
    match skipBlank s with
    | [] => .error (.before .endInValue [])
    | b :: rest =>
      if b = quote then
        match text fuel rest with
        | .error f => .error f
        | .ok (str, rest) => .ok (string str, rest)
      else if b = openBracket then
        if depth ≤ 1 then .error (.before .tooDeep (b :: rest))
        else items fuel (depth - 1) [] rest
      else if b = openBrace then
        if depth ≤ 1 then .error (.before .tooDeep (b :: rest))
        else members fuel (depth - 1) [] rest
      else if b = minus then number true rest
      else if isDigit b then number false (b :: rest)
      else if b = lowerN then (ident ull rest).map fun rest => (null, rest)
      else if b = lowerT then (ident rue rest).map fun rest => (bool true, rest)
      else if b = lowerF then (ident alse rest).map fun rest => (bool false, rest)
      else .error (.before .expectedValue (b :: rest))

/-- Reads the items of a list that are left, `acc` holding the earlier ones in reverse. -/
def items : Nat → Nat → List Json → Bytes → Read Json
  | 0, _, _, _ => .error (.after .endInList [])
  | fuel + 1, depth, acc, s =>
    match nextItem acc.isEmpty s with
    | .error f => .error f
    | .ok (.stop rest) => .ok (array acc.reverse, rest)
    | .ok (.more rest) =>
      match value fuel depth rest with
      | .error f => .error (f.within (.item acc.length))
      | .ok (v, rest) => items fuel depth (v :: acc) rest

/-- Reads the members of an object that are left, `acc` holding the earlier ones in reverse. -/
def members : Nat → Nat → List (String × Json) → Bytes → Read Json
  | 0, _, _, _ => .error (.after .endInObject [])
  | fuel + 1, depth, acc, s =>
    match nextName acc.isEmpty s with
    | .error f => .error (f.within .unknown)
    | .ok (.stop rest) => .ok (ofMembers acc.reverse, rest)
    | .ok (.more rest) =>
      match text fuel rest with
      | .error f => .error (f.within .unknown)
      | .ok (name, rest) =>
        match colonAfter rest with
        | .error f => .error f
        | .ok rest =>
          match value fuel depth rest with
          | .error f => .error (f.within (.member name))
          | .ok (v, rest) => members fuel depth ((name, v) :: acc) rest

end

/-- Refuses anything but blanks. -/
def nothingMore (s : Bytes) : Except Fault Unit :=
  match skipBlank s with
  | [] => .ok ()
  | rest => .error (.before .trailingCharacters rest)

/-- Reads a value from the front of a text. -/
def readFront (s : Bytes) : Read Json := value (stepsFor s) depthLimit s

/-- Reads a text that is one value. -/
def read (s : Bytes) : Except Fault Json := do
  let (v, rest) ← readFront s
  nothingMore rest
  return v

/-- The value of a text, if it is one. -/
def ofText? (s : String) : Option Json := (read (Utf8.encode s)).toOption

end Quorum.Json
