import Quorum.Yaml.Lexer

/-!
# YAML documents

`Node.ofText?` reads a text that is one document. References are replaced by what
they refer to; a reference to a collection from within it becomes `recursive`,
which no reader of values accepts. An absent value is an empty plain scalar.
-/

namespace Quorum.Yaml

inductive Node where
  | scalar (style : Style) (tag : Option String) (text : String)
  | sequence (items : List Node)
  | mapping (entries : List (Node × Node))
  | recursive
  deriving Inhabited, Repr

namespace Node

def empty : Node := scalar .plain none ""

end Node

/-- Handles of tags with what they stand for. -/
abbrev Handles := List (String × String)

def defaultHandles : Handles := [("!", "!"), ("!!", "tag:yaml.org,2002:")]

/-- Tokens still to be read, and the nodes that have names. -/
structure Composer where
  tokens : List Token
  anchors : List (String × Node)

namespace Composer

def peek (c : Composer) : Token := c.tokens.headD .streamEnd

def pop (c : Composer) : Composer := { c with tokens := c.tokens.tail }

def isOneOf (t : Token) (ts : List Token) : Bool := ts.contains t

/-- Gives a name to a node once it is complete, unless the name was given again inside it. -/
def name (c : Composer) (anchor : Option String) (n : Node) : Composer :=
  match anchor with
  | none => c
  | some a =>
    match c.anchors.lookup a with
    | some .recursive => { c with anchors := (a, n) :: c.anchors }
    | _ => c

/-- An anchor and a tag in either order, the tag with its handle. -/
def properties (c : Composer) : Option String × Option (String × String) × Composer :=
  match c.tokens with
  | .anchor a :: .tag h s :: rest => (some a, some (h, s), { c with tokens := rest })
  | .anchor a :: rest => (some a, none, { c with tokens := rest })
  | .tag h s :: .anchor a :: rest => (some a, some (h, s), { c with tokens := rest })
  | .tag h s :: rest => (none, some (h, s), { c with tokens := rest })
  | _ => (none, none, c)

/-- A tag in full; `none` for an unknown handle. -/
def fullTag (handles : Handles) : Option (String × String) → Option (Option String)
  | none => some none
  | some ("", s) => some (some s)
  | some (h, s) => (handles.lookup h).map fun stem => some (stem ++ s)

mutual

/-- One node. `block` says whether it may be a block collection, `indentless` whether the items of
a sequence may stand at the indentation of the mapping around it. -/
def node (handles : Handles) (block indentless : Bool) : Nat → Composer → Option (Node × Composer)
  | 0, _ => none
  | fuel + 1, c =>
    match c.peek with
    | .reference a => (c.anchors.lookup a).map fun n => (n, c.pop)
    | _ =>
      let (anchor, tag, c) := c.properties
      match fullTag handles tag with
      | none => none
      | some tag' =>
        let c := match anchor with
          | some a => { c with anchors := (a, .recursive) :: c.anchors }
          | none => c
        let absent :=
          if anchor.isSome || tag.isSome then some (Node.scalar .plain tag' "", c) else none
        let read := match c.peek with
          | .scalar style text => some (Node.scalar style tag' text, c.pop)
          | .openBracket => flowItems handles fuel true [] c.pop
          | .openBrace => flowEntries handles fuel true [] c.pop
          | .dash => if indentless then items handles fuel true [] c else absent
          | .blockSequence => if block then items handles fuel false [] c.pop else absent
          | .blockMapping => if block then entries handles fuel [] c.pop else absent
          | _ => absent
        match read with
        | some (n, c) => some (n, c.name anchor n)
        | none => none

/-- The items of a block sequence; one without indentation of its own ends at any other token. -/
def items (handles : Handles) : Nat → Bool → List Node → Composer → Option (Node × Composer)
  | 0, _, _, _ => none
  | fuel + 1, indentless, acc, c =>
    match c.peek with
    | .dash =>
      let c := c.pop
      let ends := if indentless then [Token.dash, .key, .value, .blockEnd] else [.dash, .blockEnd]
      if isOneOf c.peek ends then items handles fuel indentless (.empty :: acc) c
      else match node handles true false fuel c with
        | some (n, c) => items handles fuel indentless (n :: acc) c
        | none => none
    | .blockEnd =>
      if indentless then some (.sequence acc.reverse, c) else some (.sequence acc.reverse, c.pop)
    | _ => if indentless then some (.sequence acc.reverse, c) else none

/-- The entries of a block mapping. -/
def entries (handles : Handles) :
    Nat → List (Node × Node) → Composer → Option (Node × Composer)
  | 0, _, _ => none
  | fuel + 1, acc, c =>
    match c.peek with
    | .blockEnd => some (.mapping acc.reverse, c.pop)
    | .key =>
      match part handles fuel c.pop with
      | none => none
      | some (k, c) =>
        if c.peek == .value then
          match part handles fuel c.pop with
          | some (v, c) => entries handles fuel ((k, v) :: acc) c
          | none => none
        else entries handles fuel ((k, .empty) :: acc) c
    | _ => none

/-- A key or a value of a block mapping, which may be absent. -/
def part (handles : Handles) : Nat → Composer → Option (Node × Composer)
  | 0, _ => none
  | fuel + 1, c =>
    if isOneOf c.peek [.key, .value, .blockEnd] then some (.empty, c)
    else node handles true true fuel c

/-- The items of a sequence in brackets. -/
def flowItems (handles : Handles) :
    Nat → Bool → List Node → Composer → Option (Node × Composer)
  | 0, _, _, _ => none
  | fuel + 1, first, acc, c =>
    if c.peek == .closeBracket then some (.sequence acc.reverse, c.pop)
    else if !first && c.peek != .comma then none
    else
      let c := if first then c else c.pop
      match c.peek with
      | .closeBracket => some (.sequence acc.reverse, c.pop)
      | .key =>
        match pair handles fuel c.pop with
        | some (n, c) => flowItems handles fuel false (n :: acc) c
        | none => none
      | _ =>
        match node handles false false fuel c with
        | some (n, c) => flowItems handles fuel false (n :: acc) c
        | none => none

/-- An item of the form `key: value`, behind the mark of its key. -/
def pair (handles : Handles) : Nat → Composer → Option (Node × Composer)
  | 0, _ => none
  | fuel + 1, c =>
    let key :=
      if isOneOf c.peek [.value, .comma, .closeBracket] then some (Node.empty, c.pop)
      else node handles false false fuel c
    match key with
    | none => none
    | some (k, c) =>
      if c.peek == .value then
        let c := c.pop
        if isOneOf c.peek [.comma, .closeBracket] then some (.mapping [(k, .empty)], c)
        else (node handles false false fuel c).map fun (v, c) => (.mapping [(k, v)], c)
      else some (.mapping [(k, .empty)], c)

/-- The entries of a mapping in braces. -/
def flowEntries (handles : Handles) :
    Nat → Bool → List (Node × Node) → Composer → Option (Node × Composer)
  | 0, _, _, _ => none
  | fuel + 1, first, acc, c =>
    if c.peek == .closeBrace then some (.mapping acc.reverse, c.pop)
    else if !first && c.peek != .comma then none
    else
      let c := if first then c else c.pop
      match c.peek with
      | .closeBrace => some (.mapping acc.reverse, c.pop)
      | .key =>
        let c := c.pop
        let key :=
          if isOneOf c.peek [.value, .comma, .closeBrace] then some (Node.empty, c)
          else node handles false false fuel c
        match key with
        | none => none
        | some (k, c) =>
          match flowValue handles fuel c with
          | some (v, c) => flowEntries handles fuel false ((k, v) :: acc) c
          | none => none
      | _ =>
        match node handles false false fuel c with
        | some (k, c) => flowEntries handles fuel false ((k, .empty) :: acc) c
        | none => none

/-- The value behind a key in braces, which may be absent. -/
def flowValue (handles : Handles) : Nat → Composer → Option (Node × Composer)
  | 0, _ => none
  | fuel + 1, c =>
    if c.peek == .value then
      let c := c.pop
      if isOneOf c.peek [.comma, .closeBrace] then some (.empty, c)
      else node handles false false fuel c
    else some (.empty, c)

end

/-- The directives in front of a document: whether a version was given, and the handles. -/
def directives : Nat → Bool → Handles → Composer → Option (Handles × Composer)
  | 0, _, _, _ => none
  | fuel + 1, versioned, handles, c =>
    match c.peek with
    | .version major minor =>
      if versioned || major != 1 || (minor != 1 && minor != 2) then none
      else directives fuel true handles c.pop
    | .tagHandle h stem =>
      if (handles.lookup h).isSome then none
      else directives fuel versioned ((h, stem) :: handles) c.pop
    | _ => some (handles, c)

/-- A document that starts without a mark, or behind directives and a mark. -/
def document (fuel : Nat) (c : Composer) : Option (Node × Composer) :=
  let isHead := match c.peek with
    | .version .. | .tagHandle .. | .documentStart => true
    | _ => false
  if !isHead then node defaultHandles true false fuel c
  else
    match directives fuel false [] c with
    | none => none
    | some (handles, c) =>
      if c.peek != .documentStart then none
      else
        let c := c.pop
        match c.peek with
        | .version .. | .tagHandle .. | .documentStart | .documentEnd | .streamEnd =>
          some (.empty, c)
        | _ => node (handles ++ defaultHandles) true false fuel c

end Composer

/-- Reads a text that is one document. -/
def Node.ofText? (text : String) : Option Node :=
  match Token.ofText? text with
  | none => none
  | some tokens =>
    match Composer.document (4 * tokens.length + 4) ⟨tokens, []⟩ with
    | none => none
    | some (n, c) =>
      if c.tokens.dropWhile (· == .documentEnd) == [.streamEnd] then some n else none

end Quorum.Yaml
