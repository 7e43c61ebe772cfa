import Quorum.Yaml.Token

/-!
# Tokens by indentation

`Token.ofText?` cuts a text into tokens. Indentation opens and closes block
collections, so tokens without characters of their own come in between. What
starts like a key is known to be one only when the colon follows on the same
line: the tokens in front of it are then put in where the key began, for which
`PendingKey` remembers the place and the number of its first token.
-/

namespace Quorum.Yaml

/-- Something that is a key if a colon follows. -/
structure PendingKey where
  line : Nat
  column : Nat
  index : Nat
  /-- The number of its first token. -/
  token : Nat
  /-- Whether nothing but a key may stand here. -/
  required : Bool

/-- The state between two tokens. -/
structure Lexer where
  cursor : Cursor
  /-- Tokens read so far, latest first. -/
  tokens : List Token
  count : Nat
  /-- Pending keys of the open flow collections, innermost first. -/
  flow : List (Option PendingKey)
  /-- The pending key outside of all flow collections. -/
  blockKey : Option PendingKey
  indent : Int
  /-- Indentations of the block collections around. -/
  outer : List Int
  /-- Whether a key may start here. -/
  mayKey : Bool
  /-- A bound for the steps of one token. -/
  fuel : Nat

namespace Lexer

def start (text : List Char) : Lexer :=
  ⟨.start text, [], 0, [], none, -1, [], true, text.length + 4⟩

def inFlow (l : Lexer) : Bool := !l.flow.isEmpty

def emit (l : Lexer) (t : Token) : Lexer :=
  { l with tokens := t :: l.tokens, count := l.count + 1 }

/-- Puts a token in front of the one with that number. -/
def emitAt (l : Lexer) (number : Nat) (t : Token) : Lexer :=
  let later := l.count - number
  { l with tokens := l.tokens.take later ++ t :: l.tokens.drop later, count := l.count + 1 }

/-- Skips `n` characters. -/
def skip (l : Lexer) (n : Nat) : Lexer := { l with cursor := l.cursor.skip n }

def allowKey (l : Lexer) (b : Bool) : Lexer := { l with mayKey := b }

/-! ## Pending keys -/

def pending (l : Lexer) : Option PendingKey :=
  match l.flow with
  | k :: _ => k
  | [] => l.blockKey

def setPending (l : Lexer) (k : Option PendingKey) : Lexer :=
  match l.flow with
  | _ :: rest => { l with flow := k :: rest }
  | [] => { l with blockKey := k }

/-- Gives up the pending key, which may not be a required one. -/
def dropKey (l : Lexer) : Option Lexer :=
  match l.pending with
  | some k => if k.required then none else some (l.setPending none)
  | none => some l

/-- Marks this place as the start of a key, if one may start here. -/
def saveKey (l : Lexer) : Option Lexer :=
  if !l.mayKey then some l
  else
    let c := l.cursor
    let key : PendingKey :=
      ⟨c.line, c.column, c.index, l.count, !l.inFlow && l.indent == c.column⟩
    l.dropKey.map (·.setPending (some key))

/-- How many characters a key may have. -/
def maxKeyLength : Nat := 1024

/-- Whether a key that began there has ended without a colon. -/
def isStale (c : Cursor) (k : PendingKey) : Bool :=
  k.line < c.line || k.index + maxKeyLength < c.index

/-- Gives up the keys that have ended without a colon. -/
def dropStale (l : Lexer) : Option Lexer :=
  let stale (k : Option PendingKey) := k.any (isStale l.cursor)
  let keep (k : Option PendingKey) := if stale k then none else k
  if (l.blockKey :: l.flow).any fun k => stale k && k.any (·.required) then none
  else some { l with blockKey := keep l.blockKey, flow := l.flow.map keep }

/-! ## Indentation -/

/-- Opens a block collection, if this column lies deeper than the ones around. -/
def indentTo (l : Lexer) (column : Nat) (number : Nat) (t : Token) : Lexer :=
  if l.inFlow || (column : Int) ≤ l.indent then l
  else { l with indent := column, outer := l.indent :: l.outer }.emitAt number t

/-- Closes the block collections that lie deeper than a column. -/
def dedentTo (column : Int) : Nat → Lexer → Lexer
  | 0, l => l
  | fuel + 1, l =>
    if l.inFlow || l.indent ≤ column then l
    else
      match l.outer with
      | i :: rest => dedentTo column fuel ({ l with indent := i, outer := rest }.emit .blockEnd)
      | [] => l

def dedent (l : Lexer) (column : Int) : Lexer := dedentTo column (l.outer.length + 1) l

/-! ## Between tokens -/

/-- Skips blanks, comments and line ends. Tabs count as blanks where no key may start. -/
def skipGap : Nat → Lexer → Lexer
  | 0, l => l
  | fuel + 1, l =>
    let c := if l.cursor.column == 0 && l.cursor.holds (·.toNat == 0xFEFF) then l.cursor.skip 1
      else l.cursor
    let tabs := l.inFlow || !l.mayKey
    let c := (c.span fun b => b == ' ' || (tabs && b == '\t')).2.skipComment
    if c.holds isBreak then
      skipGap fuel { l with cursor := c.takeLine.2, mayKey := l.mayKey || !l.inFlow }
    else { l with cursor := c }

/-! ## Single tokens -/

/-- Ends all that indentation opened. -/
def closeBlocks (l : Lexer) : Option Lexer := (l.dedent (-1)).dropKey.map (·.allowKey false)

def openFlow (l : Lexer) (t : Token) : Option Lexer :=
  l.saveKey.map fun l => ({ l with flow := none :: l.flow, mayKey := true }.skip 1).emit t

def closeFlow (l : Lexer) (t : Token) : Option Lexer :=
  l.dropKey.map fun l => ({ l with flow := l.flow.drop 1, mayKey := false }.skip 1).emit t

def comma (l : Lexer) : Option Lexer :=
  l.dropKey.map fun l => ((l.allowKey true).skip 1).emit .comma

def dash (l : Lexer) : Option Lexer :=
  if !l.inFlow && !l.mayKey then none
  else (l.indentTo l.cursor.column l.count .blockSequence).dropKey.map fun l =>
    ((l.allowKey true).skip 1).emit .dash

def key (l : Lexer) : Option Lexer :=
  if !l.inFlow && !l.mayKey then none
  else (l.indentTo l.cursor.column l.count .blockMapping).dropKey.map fun l =>
    ((l.allowKey (!l.inFlow)).skip 1).emit .key

def value (l : Lexer) : Option Lexer :=
  match l.pending with
  | some k =>
    let l := (l.emitAt k.token .key).indentTo k.column k.token .blockMapping
    some ((((l.setPending none).allowKey false).skip 1).emit .value)
  | none =>
    if !l.inFlow && !l.mayKey then none
    else
      let l := l.indentTo l.cursor.column l.count .blockMapping
      some (((l.allowKey (!l.inFlow)).skip 1).emit .value)

/-- A token that may start a key. -/
def keyed (l : Lexer) (read : Cursor → Option (Token × Cursor)) : Option Lexer := do
  let l ← l.saveKey
  let (t, cursor) ← read l.cursor
  return ({ l with cursor, mayKey := false }.emit t)

def quoted (l : Lexer) (double : Bool) : Option Lexer :=
  l.keyed fun c => (quotedRest double l.fuel [] (c.skip 1)).map fun (s, c) => (.scalar .quoted s, c)

def plain (l : Lexer) : Option Lexer := do
  let l ← l.saveKey
  let (text, broken, cursor) ← plainRest l.inFlow (l.indent + 1) l.fuel [] .none l.cursor
  return ({ l with cursor, mayKey := broken }.emit (.scalar .plain text))

def block (l : Lexer) (literal : Bool) : Option Lexer := do
  let l ← l.dropKey
  let (text, cursor) ← blockScalar literal l.indent l.fuel l.cursor
  return ({ l with cursor, mayKey := true }.emit
    (.scalar (if literal then .literal else .folded) text))

/-- The token at a marker of three hyphens or three points. -/
def marker (l : Lexer) : Option Lexer :=
  l.closeBlocks.map fun l =>
    (l.skip 3).emit (if l.cursor.holds (· == '-') then .documentStart else .documentEnd)

def directive (l : Lexer) : Option Lexer := do
  let l ← l.closeBlocks
  let (t, cursor) ← directive? l.fuel l.cursor
  return ({ l with cursor }.emit t)

/-- Whether a plain scalar may start with `c` in front of `rest`. -/
def startsPlain (inFlow : Bool) (c : Char) (rest : List Char) : Bool :=
  !"-?:,[]\x7b\x7d#&*!|>'\"%@`".toList.contains c ||
  (c == '-' && !rest.head?.any isBlank) ||
  (!inFlow && (c == '?' || c == ':') && !endsWord rest)

/-- Reads the next token; `none` in the second place after the last one. -/
def next (l : Lexer) : Option (Lexer × Bool) := do
  let l ← (skipGap l.fuel l).dropStale
  let l := l.dedent l.cursor.column
  match l.cursor.rest with
  | [] => return ((← l.closeBlocks).emit .streamEnd, false)
  | c :: rest =>
    let l ←
      if l.cursor.column == 0 && c == '%' then l.directive
      else if l.cursor.atMarker then l.marker
      else if c == '[' then l.openFlow .openBracket
      else if c == '\x7b' then l.openFlow .openBrace
      else if c == ']' then l.closeFlow .closeBracket
      else if c == '\x7d' then l.closeFlow .closeBrace
      else if c == ',' then l.comma
      else if c == '-' && endsWord rest then l.dash
      else if c == '?' && (l.inFlow || endsWord rest) then l.key
      else if c == ':' && (l.inFlow || endsWord rest) then l.value
      else if c == '*' then l.keyed fun c => (anchorName? c).map fun (n, c) => (.reference n, c)
      else if c == '&' then l.keyed fun c => (anchorName? c).map fun (n, c) => (.anchor n, c)
      else if c == '!' then l.keyed (tag? l.inFlow l.fuel)
      else if c == '|' && !l.inFlow then l.block true
      else if c == '>' && !l.inFlow then l.block false
      else if c == '\'' then l.quoted false
      else if c == '"' then l.quoted true
      else if startsPlain l.inFlow c rest && !isBlank c then l.plain
      else none
    return (l, true)

/-- Reads tokens up to the end of the text. -/
def run : Nat → Lexer → Option (List Token)
  | 0, _ => none
  | fuel + 1, l =>
    match l.next with
    | none => none
    | some (l, true) => run fuel l
    | some (l, false) => some l.tokens.reverse

end Lexer

/-- The tokens of a text. -/
def Token.ofText? (text : String) : Option (List Token) :=
  let chars := text.toList
  if chars.all isAllowed then Lexer.run (chars.length + 4) (.start chars) else none

end Quorum.Yaml
