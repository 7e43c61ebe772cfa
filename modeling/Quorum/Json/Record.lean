import Quorum.Json.Skip
import Quorum.Text.Printable

/-!
# Records

Reading an object, or an array in the order of the members, into the named members
of a record. Members that the record does not know are skipped; each known one may
come once. A record at fault is still read to its end where it can be, so a missing
or repeated member is reported behind what was read.
-/

namespace Quorum.Json

open Ascii

/-- What a member may hold. -/
inductive MemberKind where
  | text
  | any
  deriving DecidableEq

structure Member where
  name : String
  kind : MemberKind
  /-- The value of a member that is left out, if it may be. -/
  fallback : Option Json

structure Shape where
  /-- How messages call the record. -/
  name : String
  members : List Member

/-- How a message calls a value it did not expect. -/
def kindText : Json → String
  | null => "null"
  | bool b => "boolean `" ++ toString b ++ "`"
  | integer n => "integer `" ++ toString n ++ "`"
  | double x => "floating point `" ++ doubleLayout.text x ++ "`"
  | string s => "string " ++ Printable.quoted s
  | array _ => "sequence"
  | object _ => "map"

/-- A scalar, or the mere kind of a list or an object, which is not read. -/
def scalarOrKind (fuel : Nat) (s : Bytes) : Read Json :=
  match s with
  | [] => .error (.before .endInValue [])
  | b :: rest =>
    if b = openBracket then .ok (array [], s)
    else if b = openBrace then .ok (object [], s)
    else value (fuel + 1) 1 (b :: rest)

/-- The fault of a value of another kind than expected. -/
def unexpected (expected : String) (fuel : Nat) (s : Bytes) : Fault :=
  match scalarOrKind fuel s with
  | .error f => f
  | .ok (v, rest) => .after (.mismatch (.wrongKind (kindText v) expected)) rest

/-- Reads a value that has to be a string. -/
def expectText (expected : String) (fuel : Nat) (s : Bytes) : Read String :=
  match skipBlank s with
  | [] => .error (.before .endInValue [])
  | b :: rest => if b = quote then text fuel rest else .error (unexpected expected fuel (b :: rest))

def MemberKind.read (kind : MemberKind) (fuel depth : Nat) (s : Bytes) : Read Json :=
  match kind with
  | .text => (expectText "a string" fuel s).map fun (str, rest) => (string str, rest)
  | .any => value fuel depth s

/-- Where an object that is given up is left: behind its brace if that comes next. -/
def leaveObject (s : Bytes) : Bytes :=
  match skipBlank s with
  | b :: rest => if b = closeBrace then rest else b :: rest
  | [] => []

/-- Closes a list all of whose items were taken. -/
def closeList (s : Bytes) : Except Fault Bytes :=
  match skipBlank s with
  | [] => .error (.before .endInList [])
  | b :: rest =>
    if b = closeBracket then .ok rest
    else if b = comma then
      match skipBlank rest with
      | c :: rest =>
        if c = closeBracket then .error (.before .trailingComma (c :: rest))
        else .error (.before .trailingCharacters (c :: rest))
      | [] => .error (.before .trailingCharacters [])
    else .error (.before .trailingCharacters (b :: rest))

/-- The values read so far, one place for each member. -/
abbrev Slots := List (Option Json)

namespace Shape

/-- The first member that is missing, or all values. -/
def complete : List Member → Slots → Except Mismatch (List Json)
  | [], _ => .ok []
  | m :: ms, slots =>
    match (slots.head?.join <|> m.fallback) with
    | some v => (complete ms slots.tail).map (v :: ·)
    | none => .error (.missingMember m.name)

/-- The place and the kind of the member with a name. -/
def find? (name : String) : Nat → List Member → Option (Nat × MemberKind)
  | _, [] => none
  | i, m :: ms => if m.name = name then some (i, m.kind) else find? name (i + 1) ms

/-- Reads the members of an object that are left. -/
def readMembers (shape : Shape) (depth : Nat) : Nat → Bool → Slots → Bytes → Read (List Json)
  | 0, _, _, _ => .error (.after .endInObject [])
  | fuel + 1, first, slots, s =>
    match nextName first s with
    | .error f => .error (f.within .unknown)
    | .ok (.stop rest) =>
      match complete shape.members slots with
      | .ok values => .ok (values, rest)
      | .error m => .error (.after (.mismatch m) rest)
    | .ok (.more rest) =>
      match text fuel rest with
      | .error f => .error (f.within .unknown)
      | .ok (name, rest) =>
        match find? name 0 shape.members with
        | none =>
          match colonAfter rest with
          | .error f => .error f
          | .ok rest =>
            match skip fuel rest with
            | .error f => .error (f.within (.member name))
            | .ok rest => readMembers shape depth fuel false slots rest
        | some (i, kind) =>
          if (slots.getD i none).isSome then
            .error (.after (.mismatch (.duplicateMember name)) (leaveObject rest))
          else
            match colonAfter rest with
            | .error f => .error f
            | .ok rest =>
              match kind.read fuel depth rest with
              | .error f => .error (f.within (.member name))
              | .ok (v, rest) => readMembers shape depth fuel false (slots.set i (some v)) rest

/-- Reads the items of a list as the members in their order. -/
def readItems (shape : Shape) (fuel depth : Nat) : List Member → Nat → List Json → Bytes →
    Read (List Json)
  | [], _, acc, s => (closeList s).map fun rest => (acc.reverse, rest)
  | m :: ms, i, acc, s =>
    match nextItem (i == 0) s with
    | .error f => .error f
    | .ok (.stop rest) =>
      match complete (m :: ms) [] with
      | .ok values => .ok (acc.reverse ++ values, rest)
      | .error _ =>
        .error (.after (.mismatch (.wrongLength i
          (shape.name ++ " with " ++ toString shape.members.length ++ " elements"))) rest)
    | .ok (.more rest) =>
      match m.kind.read fuel depth rest with
      | .error f => .error (f.within (.item i))
      | .ok (v, rest) => readItems shape fuel depth ms (i + 1) (v :: acc) rest

/-- Reads a record from the front of a text: the values of its members, in their order. -/
def readFront (shape : Shape) (s : Bytes) : Read (List Json) :=
  match skipBlank s with
  | [] => .error (.before .endInValue [])
  | b :: rest =>
    if b = openBrace then
      shape.readMembers (depthLimit - 1) (stepsFor s) true (shape.members.map fun _ => none) rest
    else if b = openBracket then
      shape.readItems (stepsFor s) (depthLimit - 1) shape.members 0 [] rest
    else .error (unexpected shape.name (stepsFor s) (b :: rest))

end Shape

end Quorum.Json
