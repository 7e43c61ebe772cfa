import Quorum.Json.Reader

/-!
# Skipping a value

A value nobody asked for is read for its form only: nesting has no limit, strings
may hold any bytes and any escapes of the right shape, and numbers any size.
-/

namespace Quorum.Json

open Ascii

/-- What an open bracket belongs to. -/
inductive Frame where
  | list
  | object
  deriving DecidableEq

/-- Where the scan stands: at a value, or behind the start or an item of the innermost frame. -/
inductive Place where
  | value
  | inside (comma : Bool)

/-- Skips a string behind its opening quote. -/
def skipString : Nat → Bytes → Except Fault Bytes
  | 0, _ => .error (.after .endInString [])
  | _ + 1, [] => .error (.after .endInString [])
  | fuel + 1, b :: rest =>
    if b = quote then .ok rest
    else if b = backslash then
      match rest with
      | [] => .error (.after .endInString [])
      | e :: rest =>
        if (letterEscape e).isSome then skipString fuel rest
        else if e = lowerU then
          match hexEscape rest with
          | .error f => .error f
          | .ok (_, rest) => skipString fuel rest
        else .error (.after .invalidEscape rest)
    else if b < 0x20 then .error (.after .controlCharacter (b :: rest))
    else skipString fuel rest

def skipExponent (s : Bytes) : Except Fault Bytes :=
  let s := match s with
    | b :: rest => if b = plus || b = minus then rest else s
    | [] => []
  match s with
  | b :: rest =>
    if isDigit b then .ok (skipDigits 0 rest).2 else .error (.after .invalidNumber rest)
  | [] => .error (.after .invalidNumber [])

def skipFraction (s : Bytes) : Except Fault Bytes :=
  let (count, rest) := skipDigits 0 s
  if count = 0 then .error (.before .invalidNumber rest)
  else match rest with
    | b :: rest' => if b = lowerE || b = upperE then skipExponent rest' else .ok rest
    | [] => .ok []

/-- Skips a number behind its sign. -/
def skipNumber (s : Bytes) : Except Fault Bytes :=
  match s with
  | [] => .error (.after .invalidNumber [])
  | b :: rest =>
    if !isDigit b then .error (.after .invalidNumber rest)
    else if b = digit0 && startsWithDigit rest then .error (.before .invalidNumber rest)
    else
      let rest := (skipDigits 0 s).2
      match rest with
      | [] => .ok []
      | c :: rest' =>
        if c = dot then skipFraction rest'
        else if c = lowerE || c = upperE then skipExponent rest'
        else .ok rest

/-- Skips a scalar. -/
def skipScalar (fuel : Nat) (s : Bytes) : Except Fault Bytes :=
  match s with
  | [] => .error (.before .endInValue [])
  | b :: rest =>
    if b = quote then skipString fuel rest
    else if b = minus then skipNumber rest
    else if isDigit b then skipNumber s
    else if b = lowerN then ident ull rest
    else if b = lowerT then ident rue rest
    else if b = lowerF then ident alse rest
    else .error (.before .expectedValue s)

/-- Skips the name of a member and its colon. -/
def skipName (fuel : Nat) (s : Bytes) : Except Fault Bytes :=
  match skipBlank s with
  | [] => .error (.before .endInObject [])
  | b :: rest =>
    if b = quote then do colonAfter (← skipString fuel rest)
    else .error (.before .nameNotString (b :: rest))

def closes (frame : Frame) (b : UInt8) : Bool :=
  match frame with
  | .list => b == closeBracket
  | .object => b == closeBrace

/-- The fault of a frame that ends too early (`none`) or goes on wrongly. -/
def frameFault (frame : Frame) (s : Bytes) : Fault :=
  match frame, s with
  | .list, [] => .before .endInList []
  | .object, [] => .before .endInObject []
  | .list, s => .before .expectedListEnd s
  | .object, s => .before .expectedObjectEnd s

/-- The scan, with the open frames, innermost first. -/
def skipFrom : Nat → Place → List Frame → Bytes → Except Fault Bytes
  | 0, _, _, _ => .error (.before .endInValue [])
  | _ + 1, .inside _, [], s => .ok s
  | fuel + 1, .value, frames, s =>
    match skipBlank s with
    | [] => .error (.before .endInValue [])
    | b :: rest =>
      if b = openBracket then skipFrom fuel (.inside false) (.list :: frames) rest
      else if b = openBrace then skipFrom fuel (.inside false) (.object :: frames) rest
      else match skipScalar fuel (b :: rest) with
        | .error f => .error f
        | .ok rest => skipFrom fuel (.inside true) frames rest
  | fuel + 1, .inside comma', frame :: frames, s =>
    match skipBlank s with
    | [] => .error (frameFault frame [])
    | b :: rest =>
      if closes frame b then skipFrom fuel (.inside true) frames rest
      else if comma' && b != comma then .error (frameFault frame (b :: rest))
      else
        let rest := if comma' then rest else b :: rest
        match frame with
        | .list => skipFrom fuel .value (frame :: frames) rest
        | .object =>
          match skipName fuel rest with
          | .error f => .error f
          | .ok rest => skipFrom fuel .value (frame :: frames) rest

/-- Skips one value; `fuel` bounds the bytes left. -/
def skip (fuel : Nat) (s : Bytes) : Except Fault Bytes := skipFrom (2 * fuel + 2) .value [] s

end Quorum.Json
