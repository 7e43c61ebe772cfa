import Quorum.Number.Decimal
import Quorum.Text.Ascii

/-!
# JSON values and their text

A `Json` value keeps whole numbers apart from doubles and the members of an
object in increasing order of their names, each name once (`ofMembers` sorts and
lets the last of several equal names win). `render` writes the compact text:
members in that order, doubles with the fewest digits that read back, strings
with only quote, backslash and control characters escaped.
-/

namespace Quorum

/-- A JSON value. -/
inductive Json where
  | null
  | bool (b : Bool)
  | integer (n : Int)
  | double (x : Double)
  | string (s : String)
  | array (items : List Json)
  | object (members : List (String × Json))
  deriving Inhabited, Repr

namespace Json

/-- Whole numbers outside this range are doubles. -/
def IntegerRange (n : Int) : Prop := -(1 <<< 63 : Nat) ≤ n ∧ n < UInt64.size

instance (n : Int) : Decidable (IntegerRange n) := inferInstanceAs (Decidable (_ ∧ _))

/-- Appends to a reversed list of members; an equal name replaces the one before it. -/
def pushMember {α : Type} (acc : List (String × α)) (m : String × α) : List (String × α) :=
  match acc with
  | last :: earlier => if last.1 = m.1 then m :: earlier else m :: last :: earlier
  | [] => [m]

/-- Members in increasing order of their names, the last of several equal ones kept. -/
def sortMembers {α : Type} (members : List (String × α)) : List (String × α) :=
  ((members.mergeSort fun a b => !decide (b.1 < a.1)).foldl pushMember []).reverse

def ofMembers (members : List (String × Json)) : Json := object (sortMembers members)

/-- The member of that name, if the value is an object that has one. -/
def member? (name : String) : Json → Option Json
  | object members => (members.find? (·.1 == name)).map (·.2)
  | _ => none

mutual

/-- How many arrays and objects lie inside one another. -/
def depth : Json → Nat
  | array items => depthItems items + 1
  | object members => depthMembers members + 1
  | _ => 0

def depthItems : List Json → Nat
  | [] => 0
  | v :: rest => max (depth v) (depthItems rest)

def depthMembers : List (String × Json) → Nat
  | [] => 0
  | (_, v) :: rest => max (depth v) (depthMembers rest)

end

/-! ## Text -/

/-- Doubles are positional from `0.00001` up to below `10 ^ 16` and always show that they are no
whole numbers. -/
def doubleLayout : Decimal.Layout := ⟨.toEven, fun e => -5 ≤ e && e ≤ 15, ".0", "null", "null"⟩

/-- The text of one character inside a string. -/
def escape (c : Char) : List Char :=
  if c = '"' then ['\\', '"']
  else if c = '\\' then ['\\', '\\']
  else if c = '\n' then ['\\', 'n']
  else if c = '\r' then ['\\', 'r']
  else if c = '\t' then ['\\', 't']
  else if c.toNat = 8 then ['\\', 'b']
  else if c.toNat = 12 then ['\\', 'f']
  else if c.toNat < 32 then '\\' :: 'u' :: '0' :: '0' :: hexByte (UInt8.ofNat c.toNat)
  else [c]

/-- Appends one character of a string; most characters stand for themselves. -/
def writeChar (acc : String) (c : Char) : String :=
  if 32 ≤ c.toNat && c != '"' && c != '\\' then acc.push c else (escape c).foldl String.push acc

/-- Appends a quoted string. -/
def writeString (acc : String) (s : String) : String :=
  (s.foldl writeChar (acc.push '"')).push '"'

mutual

/-- Appends the compact text of a value. -/
def write (acc : String) : Json → String
  | null => acc ++ "null"
  | bool true => acc ++ "true"
  | bool false => acc ++ "false"
  | integer n => acc ++ toString n
  | double x => acc ++ doubleLayout.text x
  | string s => writeString acc s
  | array [] => acc ++ "[]"
  | array (v :: rest) => (writeItems (write (acc.push '[') v) rest).push ']'
  | object [] => acc ++ "\x7b\x7d"
  | object ((name, v) :: rest) =>
    (writeMembers (write ((writeString (acc.push '\x7b') name).push ':') v) rest).push '\x7d'

def writeItems (acc : String) : List Json → String
  | [] => acc
  | v :: rest => writeItems (write (acc.push ',') v) rest

def writeMembers (acc : String) : List (String × Json) → String
  | [] => acc
  | (name, v) :: rest =>
    writeMembers (write ((writeString (acc.push ',') name).push ':') v) rest

end

/-- The compact text of a value. -/
def render (v : Json) : String := write "" v

/-- Members in the order given, for objects whose order is part of their form. -/
def renderMembers (members : List (String × String)) : String :=
  let parts := members.map fun (name, text) => (string name).render ++ ":" ++ text
  "\x7b" ++ ",".intercalate parts ++ "\x7d"

end Json

end Quorum
