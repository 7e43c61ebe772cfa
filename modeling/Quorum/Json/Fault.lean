import Quorum.Json.Value

/-!
# Faults of JSON text

Why a text is refused, where, and how that is said. A `Fault` keeps the bytes
that had not been read when it arose, so its line and column follow from the
whole text (`Fault.message`). The path names the members and items on the way to
the value at fault.
-/

namespace Quorum.Json

/-- Why a text does not have the form asked for, though it is JSON. -/
inductive Mismatch where
  | missingMember (name : String)
  | duplicateMember (name : String)
  | wrongKind (found expected : String)
  | wrongLength (found : Nat) (expected : String)
  | unknownVariant (found : String) (known : List String)
  deriving DecidableEq, Repr

inductive Reason where
  | endInValue
  | endInList
  | endInObject
  | endInString
  | expectedColon
  | expectedListEnd
  | expectedObjectEnd
  | expectedIdent
  | expectedValue
  | invalidEscape
  | invalidNumber
  | numberOutOfRange
  | invalidCodePoint
  | controlCharacter
  | nameNotString
  | loneSurrogate
  | unpairedEscape
  | trailingComma
  | trailingCharacters
  | tooDeep
  | mismatch (m : Mismatch)
  deriving DecidableEq, Repr

/-- One step on the way to a value. A name that could not be read is `unknown`. -/
inductive Step where
  | member (name : String)
  | item (index : Nat)
  | unknown
  deriving DecidableEq, Repr

structure Fault where
  reason : Reason
  /-- What had not been read. -/
  rest : Bytes
  path : List Step
  /-- Whether the position is part of the message. -/
  placed : Bool
  deriving DecidableEq, Repr

/-- The result of reading from the front of a text, with what follows. -/
abbrev Read (α : Type) := Except Fault (α × Bytes)

namespace Mismatch

def quoted (name : String) : String := "`" ++ name ++ "`"

def message : Mismatch → String
  | missingMember name => "missing field " ++ quoted name
  | duplicateMember name => "duplicate field " ++ quoted name
  | wrongKind found expected => "invalid type: " ++ found ++ ", expected " ++ expected
  | wrongLength found expected => "invalid length " ++ toString found ++ ", expected " ++ expected
  | unknownVariant found known =>
    "unknown variant " ++ quoted found ++ ", expected " ++ " or ".intercalate (known.map quoted)

end Mismatch

namespace Reason

def message : Reason → String
  | endInValue => "EOF while parsing a value"
  | endInList => "EOF while parsing a list"
  | endInObject => "EOF while parsing an object"
  | endInString => "EOF while parsing a string"
  | expectedColon => "expected `:`"
  | expectedListEnd => "expected `,` or `]`"
  | expectedObjectEnd => "expected `,` or `\x7d`"
  | expectedIdent => "expected ident"
  | expectedValue => "expected value"
  | invalidEscape => "invalid escape"
  | invalidNumber => "invalid number"
  | numberOutOfRange => "number out of range"
  | invalidCodePoint => "invalid unicode code point"
  | controlCharacter => "control character (\\u0000-\\u001F) found while parsing a string"
  | nameNotString => "key must be a string"
  | loneSurrogate => "lone leading surrogate in hex escape"
  | unpairedEscape => "unexpected end of hex escape"
  | trailingComma => "trailing comma"
  | trailingCharacters => "trailing characters"
  | tooDeep => "recursion limit exceeded"
  | mismatch m => m.message

/-- Whether the text is JSON and only its form is not the one asked for. -/
def isMismatch : Reason → Bool
  | mismatch _ => true
  | _ => false

end Reason

namespace Fault

/-- A fault at the bytes that were read so far. -/
def after (reason : Reason) (rest : Bytes) : Fault := ⟨reason, rest, [], true⟩

/-- A fault at the byte that comes next. -/
def before (reason : Reason) (rest : Bytes) : Fault := ⟨reason, rest.drop 1, [], true⟩

def unplaced (m : Mismatch) : Fault := ⟨.mismatch m, [], [], false⟩

/-- The fault as seen from the value that holds the one at fault. -/
def within (step : Step) (f : Fault) : Fault := { f with path := step :: f.path }

/-- A position: the line counts from one, the column counts the bytes read of that line. -/
structure Position where
  line : Nat
  column : Nat
  deriving DecidableEq, Repr

def advance (p : Position) (b : UInt8) : Position :=
  if b = Ascii.lineFeed then ⟨p.line + 1, 0⟩ else ⟨p.line, p.column + 1⟩

def position (f : Fault) (input : Bytes) : Position :=
  (input.take (input.length - f.rest.length)).foldl advance ⟨1, 0⟩

def message (f : Fault) (input : Bytes) : String :=
  if f.placed then
    let p := f.position input
    f.reason.message ++ " at line " ++ toString p.line ++ " column " ++ toString p.column
  else f.reason.message

/-- Steps joined by points; an item stands directly behind its list. -/
def pathText : List Step → String
  | [] => "."
  | first :: rest => stepText first ++ String.join (rest.map fun s => separator s ++ stepText s)
where
  stepText : Step → String
    | .member name => name
    | .item i => "[" ++ toString i ++ "]"
    | .unknown => "?"
  separator : Step → String
    | .item _ => ""
    | _ => "."

/-- The message with the path in front, unless no step of the path is known. -/
def messageWithPath (f : Fault) (input : Bytes) : String :=
  if f.path.all (· == .unknown) then f.message input
  else pathText f.path ++ ": " ++ f.message input

end Fault

end Quorum.Json
