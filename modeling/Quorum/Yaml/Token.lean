import Quorum.Yaml.Cursor

/-!
# Tokens of a YAML text

Scalars, names and tags are read here, each by a function that takes a cursor to
its first character and returns what it stands for with the place behind it; a
text that breaks off or holds what it may not gives none. A line end inside a
scalar that is not literal folds into a space, further ones stay (`fold`).
-/

namespace Quorum.Yaml

/-- How a scalar is written. -/
inductive Style where
  | plain
  | quoted
  | literal
  | folded
  deriving DecidableEq, Repr

inductive Token where
  | version (major minor : Nat)
  | tagHandle (handle stem : String)
  | documentStart
  | documentEnd
  | streamEnd
  | blockSequence
  | blockMapping
  | blockEnd
  | openBracket
  | closeBracket
  | openBrace
  | closeBrace
  | comma
  | dash
  | key
  | value
  | reference (name : String)
  | anchor (name : String)
  | tag (handle suffix : String)
  | scalar (style : Style) (text : String)
  deriving DecidableEq, Repr

/-- What a first line end and the ones after it stand for between two words. -/
def fold (first more : List Char) : List Char :=
  if first == ['\n'] then (if more.isEmpty then [' '] else more) else first ++ more

/-! ## Blanks inside scalars -/

/-- Blanks and line ends between two words of a scalar, blanks in reverse. -/
structure Gap where
  blanks : List Char
  first : Option (List Char)
  more : List Char

namespace Gap

/-- Blanks in front of the first line end. -/
def none : Gap := ⟨[], .none, []⟩

/-- What follows a line end that does not count. -/
def broken : Gap := ⟨[], some [], []⟩

def text (g : Gap) : List Char :=
  match g.first with
  | .none => g.blanks.reverse
  | some first => fold first g.more

/-- Takes blanks and line ends; behind a line end a tab may not stand left of `indent`. -/
def read (indent : Int) : Nat → Gap → Cursor → Option (Gap × Cursor)
  | 0, _, _ => .none
  | fuel + 1, g, c =>
    match c.rest with
    | [] => some (g, c)
    | b :: _ =>
      if isBlank b then
        if g.first.isSome then
          if b == '\t' && c.column < indent then .none else read indent fuel g (c.skip 1)
        else read indent fuel { g with blanks := b :: g.blanks } (c.skip 1)
      else if isBreak b then
        let (line, c) := c.takeLine
        match g.first with
        | .none => read indent fuel ⟨[], some line, []⟩ c
        | some _ => read indent fuel { g with more := g.more ++ line } c
      else some (g, c)

end Gap

/-! ## Plain scalars -/

def isFlowIndicator (c : Char) : Bool :=
  c == ',' || c == '[' || c == ']' || c == '\x7b' || c == '\x7d'

/-- A word of a plain scalar, in reverse in front of `acc`. -/
def plainWord (inFlow : Bool) : Nat → List Char → Cursor → Option (List Char × Cursor)
  | 0, _, _ => none
  | fuel + 1, acc, c =>
    match c.rest with
    | [] => some (acc, c)
    | b :: rest =>
      if isBlank b || isBreak b then some (acc, c)
      else if b == ':' && inFlow &&
          (rest.head?.any fun n => isFlowIndicator n || n == '?') then none
      else if (b == ':' && endsWord rest) || (inFlow && isFlowIndicator b) then some (acc, c)
      else plainWord inFlow fuel (b :: acc) (c.skip 1)

/-- The rest of a plain scalar: its text, whether a line end follows it, and the place behind. -/
def plainRest (inFlow : Bool) (indent : Int) :
    Nat → List Char → Gap → Cursor → Option (String × Bool × Cursor)
  | 0, _, _, _ => none
  | fuel + 1, acc, gap, c =>
    let stop := some (String.ofList acc.reverse, gap.first.isSome, c)
    if c.atMarker || c.holds (· == '#') then stop
    else
      match plainWord inFlow (fuel + 1) [] c with
      | none => none
      | some ([], _) => stop
      | some (word, c) =>
        let acc := word ++ gap.text.reverse ++ acc
        match Gap.read indent (fuel + 1) .none c with
        | none => none
        | some (gap, c) =>
          if !inFlow && gap.first.isSome && c.column < indent then
            some (String.ofList acc.reverse, true, c)
          else if gap.first.isNone && gap.blanks.isEmpty then
            some (String.ofList acc.reverse, false, c)
          else if !inFlow && c.column < indent then some (String.ofList acc.reverse, false, c)
          else plainRest inFlow indent fuel acc gap c

/-! ## Quoted scalars -/

/-- The character that a letter after a backslash stands for. -/
def letterEscape? (c : Char) : Option Char :=
  match c with
  | '0' => some '\x00'
  | 'a' => some '\x07'
  | 'b' => some '\x08'
  | 't' => some '\t'
  | '\t' => some '\t'
  | 'n' => some '\n'
  | 'v' => some '\x0b'
  | 'f' => some '\x0c'
  | 'r' => some '\r'
  | 'e' => some '\x1b'
  | ' ' => some ' '
  | '"' => some '"'
  | '/' => some '/'
  | '\\' => some '\\'
  | 'N' => some '\u0085'
  | '_' => some '\u00a0'
  | 'L' => some '\u2028'
  | 'P' => some '\u2029'
  | _ => none

def hexValue? (c : Char) : Option Nat :=
  if c.toNat < 128 then Ascii.hexValue? (UInt8.ofNat c.toNat) else none

/-- How many digits follow a letter that names a code point. -/
def codeLength? (c : Char) : Option Nat :=
  if c == 'x' then some 2 else if c == 'u' then some 4 else if c == 'U' then some 8 else none

/-- What a backslash and the letter behind it stand for, and the place behind them. -/
def escape? (c : Cursor) (letter : Char) : Option (Char × Cursor) :=
  match letterEscape? letter with
  | some b => some (b, c.skip 2)
  | none => do
    let length ← codeLength? letter
    let digits := (c.rest.drop 2).take length
    if digits.length < length then none
    else
      let values ← digits.mapM hexValue?
      let n := values.foldl (fun n d => 16 * n + d) 0
      if n.isValidChar then return (Char.ofNat n, c.skip (2 + length)) else none

/-- A word of a quoted scalar, in reverse in front of `acc`, and whether an escaped line end
follows it. -/
def quotedWord (double : Bool) : Nat → List Char → Cursor → Option (List Char × Bool × Cursor)
  | 0, _, _ => none
  | fuel + 1, acc, c =>
    match c.rest with
    | [] => some (acc, false, c)
    | b :: rest =>
      if isBlank b || isBreak b then some (acc, false, c)
      else if double then
        if b == '"' then some (acc, false, c)
        else if b == '\\' then
          match rest with
          | [] => none
          | letter :: _ =>
            if isBreak letter then some (acc, true, (c.skip 1).takeLine.2)
            else match escape? c letter with
              | none => none
              | some (d, c) => quotedWord double fuel (d :: acc) c
        else quotedWord double fuel (b :: acc) (c.skip 1)
      else if b == '\'' then
        if rest.head? == some '\'' then quotedWord double fuel ('\'' :: acc) (c.skip 2)
        else some (acc, false, c)
      else quotedWord double fuel (b :: acc) (c.skip 1)

/-- The rest of a quoted scalar and the place behind its closing quote. -/
def quotedRest (double : Bool) : Nat → List Char → Cursor → Option (String × Cursor)
  | 0, _, _ => none
  | fuel + 1, acc, c =>
    if c.atMarker || c.rest.isEmpty then none
    else
      match quotedWord double (fuel + 1) acc c with
      | none => none
      | some (acc, broken, c) =>
        if c.holds (· == if double then '"' else '\'') then
          some (String.ofList acc.reverse, c.skip 1)
        else
          match Gap.read 0 (fuel + 1) (if broken then .broken else .none) c with
          | none => none
          | some (gap, c) => quotedRest double fuel (gap.text.reverse ++ acc) c

/-! ## Block scalars -/

/-- What becomes of the line ends behind a block scalar. -/
inductive Chomp where
  | strip
  | clip
  | keep
  deriving DecidableEq

/-- The indicators behind the first character of a block scalar. -/
def blockHeader? (c : Cursor) : Option (Chomp × Option Nat × Cursor) :=
  let chomp? (b : Char) : Option Chomp :=
    if b == '+' then some .keep else if b == '-' then some .strip else none
  let digit? (b : Char) : Option Nat := if b.isDigit then some (b.toNat - 48) else none
  match c.rest with
  | [] => some (.clip, none, c)
  | a :: rest =>
    match chomp? a with
    | some chomp =>
      match rest.head?.bind digit? with
      | some 0 => none
      | some n => some (chomp, some n, c.skip 2)
      | none => some (chomp, none, c.skip 1)
    | none =>
      match digit? a with
      | some 0 => none
      | some n =>
        match rest.head?.bind chomp? with
        | some chomp => some (chomp, some n, c.skip 2)
        | none => some (.clip, some n, c.skip 1)
      | none => some (.clip, none, c)

/-- Takes empty lines and the indentation of the next one: the line ends, how far the lines were
indented at most, and the place. An indentation of zero is not known yet. -/
def blockBreaks (indent : Nat) :
    Nat → Nat → List Char → Cursor → Option (List Char × Nat × Cursor)
  | 0, _, _, _ => none
  | fuel + 1, widest, breaks, c =>
    let spaces := (c.rest.takeWhile (· == ' ')).length
    let c := c.skip (if indent = 0 then spaces else min spaces (indent - c.column))
    let widest := max widest c.column
    if (indent = 0 || c.column < indent) && c.holds (· == '\t') then none
    else if c.holds isBreak then
      let (line, c) := c.takeLine
      blockBreaks indent fuel widest (breaks ++ line) c
    else some (breaks, widest, c)

/-- The lines of a block scalar. `first` and `more` are the line ends not written yet, `blank`
says whether the line before them starts with a blank. -/
def blockLines (literal : Bool) (chomp : Chomp) (indent : Nat) :
    Nat → List Char → List Char → List Char → Bool → Cursor → Option (String × Cursor)
  | 0, _, _, _, _, _ => none
  | fuel + 1, acc, first, more, blank, c =>
    if c.column != indent || c.rest.isEmpty then
      let tail := match chomp with
        | .strip => []
        | .clip => first
        | .keep => first ++ more
      some (String.ofList (acc ++ tail), c)
    else
      let blankHere := c.holds isBlank
      let join :=
        if !literal && first == ['\n'] && !blank && !blankHere then
          (if more.isEmpty then [' '] else more)
        else first ++ more
      let (line, c) := c.span (!isBreak ·)
      let (first, c) := c.takeLine
      match blockBreaks indent (fuel + 1) 0 [] c with
      | none => none
      | some (more, _, c) =>
        blockLines literal chomp indent fuel (acc ++ join ++ line) first more blankHere c

/-- A block scalar from its first character; `outer` is the indentation around it. -/
def blockScalar (literal : Bool) (outer : Int) (fuel : Nat) (c : Cursor) :
    Option (String × Cursor) := do
  let (chomp, increment, c) ← blockHeader? (c.skip 1)
  let c := (c.span isBlank).2.skipComment
  if !c.rest.isEmpty && !c.holds isBreak then none
  else
    let c := c.takeLine.2
    let known := match increment with
      | some n => (max outer 0).toNat + n
      | none => 0
    let (breaks, widest, c) ← blockBreaks known fuel 0 [] c
    let indent := if known = 0 then max (max widest (outer + 1).toNat) 1 else known
    blockLines literal chomp indent fuel [] [] breaks false c

/-! ## Names, tags and directives -/

/-- The name of an anchor or a reference behind its indicator. -/
def anchorName? (c : Cursor) : Option (String × Cursor) :=
  let (name, c) := (c.skip 1).span isNameChar
  if name.isEmpty then none
  else if endsWord c.rest || c.holds fun b => "?:,]\x7d%@`".toList.contains b then
    some (String.ofList name, c)
  else none

def isTagChar (verbatim : Bool) (c : Char) : Bool :=
  isNameChar c || ";/?:@&=+$.!~*'()".toList.contains c ||
  (verbatim && (c == ',' || c == '[' || c == ']'))

/-- The text of a tag, escaped octets replaced. -/
def tagText? (verbatim : Bool) : Nat → List Char → Cursor → Option (List Char × Cursor)
  | 0, _, _ => none
  | fuel + 1, acc, c =>
    match c.rest with
    | '%' :: a :: b :: _ =>
      match hexValue? a, hexValue? b with
      | some h, some l => tagText? verbatim fuel (Char.ofNat (16 * h + l) :: acc) (c.skip 3)
      | _, _ => none
    | '%' :: _ => none
    | b :: _ =>
      if isTagChar verbatim b then tagText? verbatim fuel (b :: acc) (c.skip 1)
      else some (acc.reverse, c)
    | [] => some (acc.reverse, c)

/-- The part of a tag up to its second exclamation mark, if it has one. -/
def tagStart? (directive : Bool) (c : Cursor) : Option (List Char × Cursor) :=
  if !c.holds (· == '!') then none
  else
    let (name, c) := (c.skip 1).span isNameChar
    if c.holds (· == '!') then some ('!' :: name ++ ['!'], c.skip 1)
    else if directive && !name.isEmpty then none
    else some ('!' :: name, c)

/-- A full tag between angle brackets. -/
def verbatimTag? (fuel : Nat) (c : Cursor) : Option (Token × Cursor) :=
  match tagText? true fuel [] (c.skip 2) with
  | some (text, c) =>
    if text.isEmpty || !c.holds (· == '>') then none
    else some (.tag "" (String.ofList text), c.skip 1)
  | none => none

/-- A tag with a handle; an exclamation mark alone is a full tag. -/
def handleTag? (fuel : Nat) (c : Cursor) : Option (Token × Cursor) :=
  match tagStart? false c with
  | none => none
  | some (start, c) =>
    match tagText? false fuel [] c with
    | none => none
    | some (text, c) =>
      if 1 < start.length && start.getLast? == some '!' then
        if text.isEmpty then none else some (.tag (String.ofList start) (String.ofList text), c)
      else
        let suffix := start.drop 1 ++ text
        some (if suffix.isEmpty then .tag "" "!" else .tag "!" (String.ofList suffix), c)

/-- A tag: its handle, which is empty for a full one, and what follows. -/
def tag? (inFlow : Bool) (fuel : Nat) (c : Cursor) : Option (Token × Cursor) :=
  let read := match c.rest with
    | '!' :: '<' :: _ => verbatimTag? fuel c
    | _ => handleTag? fuel c
  match read with
  | none => none
  | some (token, c) =>
    if endsWord c.rest || (inFlow && c.holds (· == ',')) then some (token, c) else none

/-- A number of a version. -/
def versionNumber? (c : Cursor) : Option (Nat × Cursor) :=
  let (digits, c) := c.span Char.isDigit
  if digits.isEmpty || 9 < digits.length then none
  else some (digits.foldl (fun n d => 10 * n + (d.toNat - 48)) 0, c)

/-- What follows the name of a version directive. -/
def version? (c : Cursor) : Option (Token × Cursor) :=
  match versionNumber? (c.span isBlank).2 with
  | none => none
  | some (major, c) =>
    if !c.holds (· == '.') then none
    else (versionNumber? (c.skip 1)).map fun (minor, c) => (.version major minor, c)

/-- What follows the name of a directive that declares a handle. -/
def handle? (fuel : Nat) (c : Cursor) : Option (Token × Cursor) :=
  match tagStart? true (c.span isBlank).2 with
  | none => none
  | some (handle, c) =>
    if !c.holds isBlank then none
    else
      match tagText? true fuel [] (c.span isBlank).2 with
      | none => none
      | some (stem, c) =>
        if stem.isEmpty || !endsWord c.rest then none
        else some (.tagHandle (String.ofList handle) (String.ofList stem), c)

/-- A directive and its line. -/
def directive? (fuel : Nat) (c : Cursor) : Option (Token × Cursor) :=
  let (name, c) := (c.skip 1).span isNameChar
  let read :=
    if !endsWord c.rest then none
    else if String.ofList name == "YAML" then version? c
    else if String.ofList name == "TAG" then handle? fuel c
    else none
  match read with
  | none => none
  | some (token, c) =>
    let c := (c.span isBlank).2.skipComment
    if c.rest.isEmpty || c.holds isBreak then some (token, c.takeLine.2) else none

end Quorum.Yaml
