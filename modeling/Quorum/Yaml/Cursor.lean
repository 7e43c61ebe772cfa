import Quorum.Text.Ascii

/-!
# A place in a YAML text

`Cursor` is what is left of a text with the line and the column where it stands.
Line ends come in several spellings; `Cursor.line` takes one and says what it
reads as.
-/

namespace Quorum.Yaml

def isBlank (c : Char) : Bool := c == ' ' || c == '\t'

def isBreak (c : Char) : Bool :=
  c == '\n' || c == '\r' || c.toNat == 0x85 || c.toNat == 0x2028 || c.toNat == 0x2029

/-- Whether a text ends here or goes on with a blank or a line end. -/
def endsWord : List Char → Bool
  | [] => true
  | c :: _ => isBlank c || isBreak c

/-- Letters, digits, hyphen and underscore. -/
def isNameChar (c : Char) : Bool := c.isAlphanum || c == '-' || c == '_'

/-- Whether a text may hold a character at all. -/
def isAllowed (c : Char) : Bool :=
  let n := c.toNat
  n == 0x09 || n == 0x0A || n == 0x0D || (0x20 ≤ n && n ≤ 0x7E) || n == 0x85 ||
  (0xA0 ≤ n && n ≤ 0xFFFD) || 0x10000 ≤ n

structure Cursor where
  rest : List Char
  line : Nat
  column : Nat
  /-- Characters before this place. -/
  index : Nat

namespace Cursor

def start (text : List Char) : Cursor := ⟨text, 0, 0, 0⟩

/-- Takes `n` characters that end no line. -/
def skip (c : Cursor) (n : Nat) : Cursor :=
  { c with rest := c.rest.drop n, column := c.column + n, index := c.index + n }

/-- Takes a line end; all but the two separators of Unicode read as a line feed. -/
def takeLine (c : Cursor) : List Char × Cursor :=
  match c.rest with
  | '\r' :: '\n' :: rest => (['\n'], ⟨rest, c.line + 1, 0, c.index + 2⟩)
  | b :: rest =>
    if isBreak b then
      ([if b.toNat == 0x2028 || b.toNat == 0x2029 then b else '\n'],
        ⟨rest, c.line + 1, 0, c.index + 1⟩)
    else ([], c)
  | [] => ([], c)

/-- The character at this place. -/
def head? (c : Cursor) : Option Char := c.rest.head?

def holds (c : Cursor) (p : Char → Bool) : Bool :=
  match c.rest with
  | b :: _ => p b
  | [] => false

/-- Takes characters as long as they satisfy `p`, which no line end does. -/
def span (p : Char → Bool) (c : Cursor) : List Char × Cursor :=
  let taken := c.rest.takeWhile p
  (taken, c.skip taken.length)

/-- Whether three hyphens or three points stand alone at the start of a line. -/
def atMarker (c : Cursor) : Bool :=
  c.column == 0 && match c.rest with
    | '-' :: '-' :: '-' :: rest => endsWord rest
    | '.' :: '.' :: '.' :: rest => endsWord rest
    | _ => false

/-- Skips a comment, if one starts here. -/
def skipComment (c : Cursor) : Cursor :=
  if c.holds (· == '#') then (c.span (!isBreak ·)).2 else c

end Cursor

end Quorum.Yaml
