import Quorum.Json.Record
import Quorum.Message

/-!
# Reading messages

A request is a record of three members. A response is read as a whole before its
members are looked at, since the member `type`, which says what they are, may come
anywhere; what is wrong with them then has no position.
-/

namespace Quorum

open Json Ascii

namespace Request

def shape : Shape :=
  ⟨"struct InferenceRequest",
   [⟨"request_id", .text, none⟩, ⟨"model_id", .text, none⟩, ⟨"input", .any, none⟩]⟩

def ofValues : List Json → Option Request
  | [.string id, .string model, input] => some ⟨id, model, input⟩
  | _ => none

/-- Reads a text that is one request. -/
def read (s : Bytes) : Except Fault Request :=
  match shape.readFront s with
  | .error f => .error f
  | .ok (values, rest) =>
    match nothingMore rest, ofValues values with
    | .error f, _ => .error f
    | .ok (), some r => .ok r
    | .ok (), none => .error (.unplaced (.missingMember "request_id"))

end Request

namespace Response

/-- The kinds of responses. -/
inductive Variant where
  | output
  | refusal
  deriving DecidableEq

namespace Variant

def name : Variant → String
  | output => "output"
  | refusal => "error"

/-- The member that follows the id. -/
def payload : Variant → Member
  | output => ⟨"output", .any, none⟩
  | refusal => ⟨"message", .text, none⟩

def members (v : Variant) : List Member := [⟨"request_id", .text, none⟩, v.payload]

/-- How messages call the kind. -/
def description : Variant → String
  | output => "struct variant InferenceResponse::Output with 2 elements"
  | refusal => "struct variant InferenceResponse::Error with 2 elements"

/-- Reads the name of a kind. -/
def read (fuel : Nat) (s : Bytes) : Read Variant :=
  match expectText "variant identifier" fuel s with
  | .error f => .error f
  | .ok (found, rest) =>
    if found = output.name then .ok (output, rest)
    else if found = refusal.name then .ok (refusal, rest)
    else .error (.after (.mismatch (.unknownVariant found [output.name, refusal.name])) rest)

end Variant

/-- A value for a member, if it is of the right kind. -/
def accept (kind : MemberKind) (v : Json) : Except Mismatch Json :=
  match kind, v with
  | .any, v => .ok v
  | .text, .string s => .ok (.string s)
  | .text, v => .error (.wrongKind (kindText v) "a string")

/-- Fills the members of a kind from the members read, in the order in which they came. -/
def fill (members : List Member) : Slots → List (String × Json) → Except Mismatch (List Json)
  | slots, [] => Shape.complete members slots
  | slots, (name, v) :: rest =>
    match Shape.find? name 0 members with
    | none => fill members slots rest
    | some (i, kind) =>
      if (slots.getD i none).isSome then .error (.duplicateMember name)
      else match accept kind v with
        | .error m => .error m
        | .ok v => fill members (slots.set i (some v)) rest

/-- Takes the items of a list as the members of a kind. -/
def fillItems (description : String) (total : Nat) :
    List Member → Nat → List Json → Except Mismatch (List Json)
  | [], i, [] => if i = total then .ok [] else .error (.wrongLength total "")
  | [], i, _ :: _ => .error (.wrongLength total (toString i ++ " elements in sequence"))
  | _ :: _, i, [] => .error (.wrongLength i description)
  | m :: ms, i, v :: rest =>
    match accept m.kind v with
    | .error e => .error e
    | .ok v => (fillItems description total ms (i + 1) rest).map (v :: ·)

def ofValues : Variant → List Json → Option Response
  | .output, [.string id, value] => some (.output id value)
  | .refusal, [.string id, .string message] => some (.refusal id message)
  | _, _ => none

/-- A response read as a whole: its kind, and its members by name or in order. -/
inductive Whole where
  | named (kind : Variant) (members : List (String × Json))
  | ordered (kind : Variant) (items : List Json)

def Whole.response (w : Whole) : Except Fault Response :=
  let (kind, values) := match w with
    | .named kind members => (kind, fill kind.members [none, none] members)
    | .ordered kind items => (kind, fillItems kind.description items.length kind.members 0 items)
  match values with
  | .error m => .error (.unplaced m)
  | .ok values =>
    match ofValues kind values with
    | some r => .ok r
    | none => .error (.unplaced (.missingMember "request_id"))

/-- Reads the members of an object that are left. -/
def readMembers : Nat → Bool → Option Variant → List (String × Json) → Bytes → Read Whole
  | 0, _, _, _, _ => .error (.after .endInObject [])
  | fuel + 1, first, kind, acc, s =>
    match nextName first s with
    | .error f => .error f
    | .ok (.stop rest) =>
      match kind with
      | some kind => .ok (.named kind acc.reverse, rest)
      | none => .error (.after (.mismatch (.missingMember "type")) rest)
    | .ok (.more rest) =>
      match text fuel rest with
      | .error f => .error f
      | .ok (name, rest) =>
        if name = "type" then
          if kind.isSome then
            .error (.after (.mismatch (.duplicateMember "type")) (leaveObject rest))
          else
            match colonAfter rest with
            | .error f => .error f
            | .ok rest =>
              match Variant.read fuel rest with
              | .error f => .error f
              | .ok (kind, rest) => readMembers fuel false (some kind) acc rest
        else
          match colonAfter rest with
          | .error f => .error f
          | .ok rest =>
            match value fuel (depthLimit - 1) rest with
            | .error f => .error f
            | .ok (v, rest) => readMembers fuel false kind ((name, v) :: acc) rest

/-- Reads the items of a list that follow the kind. -/
def readItems : Nat → Variant → List Json → Bytes → Read Whole
  | 0, _, _, _ => .error (.after .endInList [])
  | fuel + 1, kind, acc, s =>
    match nextItem false s with
    | .error f => .error f
    | .ok (.stop rest) => .ok (.ordered kind acc.reverse, rest)
    | .ok (.more rest) =>
      match value fuel (depthLimit - 1) rest with
      | .error f => .error f
      | .ok (v, rest) => readItems fuel kind (v :: acc) rest

def readWhole (s : Bytes) : Read Whole :=
  match skipBlank s with
  | [] => .error (.before .endInValue [])
  | b :: rest =>
    if b = openBrace then readMembers (stepsFor s) true none [] rest
    else if b = openBracket then
      match nextItem true rest with
      | .error f => .error f
      | .ok (.stop rest) => .error (.after (.mismatch (.missingMember "type")) rest)
      | .ok (.more rest) =>
        match Variant.read (stepsFor s) rest with
        | .error f => .error f
        | .ok (kind, rest) => readItems (stepsFor s) kind [] rest
    else .error (unexpected "internally tagged enum InferenceResponse" (stepsFor s) (b :: rest))

/-- Reads a text that is one response. -/
def read (s : Bytes) : Except Fault Response :=
  match readWhole s with
  | .error f => .error f
  | .ok (whole, rest) =>
    match whole.response with
    | .error f => .error f
    | .ok r =>
      match nothingMore rest with
      | .error f => .error f
      | .ok () => .ok r

end Response

end Quorum
