import Quorum.Text.Ascii

/-!
# Media types

The type of a body as a header names it: `type/subtype`, maybe with a suffix behind
a plus sign and with parameters. Names compare without regard to case.
-/

namespace Quorum

/-- A media type; its parameters are read and dropped. -/
structure MediaType where
  type : String
  subtype : String
  suffix : Option String
  deriving DecidableEq, Repr

namespace MediaType

/-- Characters of names. -/
def isToken (c : Char) : Bool := c.isAlphanum || "!#$%&'*+-.^_`|~".toList.contains c

/-- Characters of quoted values. -/
def isQuotable (c : Char) : Bool := 0x20 ≤ c.toNat && c.toNat < 0x7F && c != '"'

mutual

/-- Whether a text is parameters, from the name of the first one. -/
def areParameters : Nat → List Char → Bool
  | 0, _ => false
  | _ + 1, [] => true
  | fuel + 1, ' ' :: rest => areParameters fuel rest
  | fuel + 1, s =>
    let name := s.takeWhile isToken
    match name, s.drop name.length with
    | _ :: _, '=' :: '"' :: rest => isQuotedEnd fuel rest
    | _ :: _, '=' :: rest =>
      let value := rest.takeWhile isToken
      match value, rest.drop value.length with
      | _, [] => true
      | _ :: _, ';' :: rest => areParameters fuel rest
      | _, _ => false
    | _, _ => false

/-- Whether a text is the rest of a quoted value and further parameters. -/
def isQuotedEnd : Nat → List Char → Bool
  | 0, _ => false
  | fuel + 1, s =>
    match s.dropWhile isQuotable with
    | '"' :: rest =>
      match rest.dropWhile (· == ' ') with
      | [] => true
      | ';' :: rest => areParameters fuel rest
      | _ => false
    | _ => false

end

/-- The part behind the last plus sign, if there is one. -/
def splitSuffix (s : List Char) : List Char × Option (List Char) :=
  let suffix := (s.reverse.takeWhile (· != '+')).reverse
  if suffix.length = s.length then (s, none)
  else (s.take (s.length - suffix.length - 1), some suffix)

def lower (s : List Char) : String := String.ofList (s.map Char.toLower)

def ofText? (s : String) : Option MediaType :=
  let chars := s.toList
  let type := chars.takeWhile isToken
  match type, chars.drop type.length with
  | _ :: _, '/' :: rest =>
    let subtype := rest.takeWhile isToken
    let parameters := match rest.drop subtype.length with
      | [] => true
      | ';' :: ps => areParameters (ps.length + 1) ps
      | _ => false
    if subtype.isEmpty || subtype.head? == some '+' || !parameters then none
    else
      let (stem, suffix) := splitSuffix subtype
      some ⟨lower type, lower stem, suffix.map lower⟩
  | _, _ => none

/-- Whether a body of this type is JSON. -/
def isJson (m : MediaType) : Bool :=
  m.type == "application" && (m.subtype == "json" || m.suffix == some "json")

end MediaType

end Quorum
