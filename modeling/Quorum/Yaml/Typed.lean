import Quorum.Number.Decimal
import Quorum.Yaml.Node

/-!
# Values of a wanted type

A plain scalar is a number, a truth value or nothing only where one is wanted;
as text every scalar is taken as it stands. Whole numbers may have a plus sign
or a base in front, but no zeros; an empty plain scalar is an empty sequence and
an empty mapping.
-/

namespace Quorum.Yaml

def tagFor (name : String) : String := "tag:yaml.org,2002:" ++ name

/-- The text of a scalar that may be read as a number or a truth value. -/
def bareText? (tag : String) : Node → Option String
  | .scalar .plain _ text => some text
  | .scalar .literal (some t) text => if t == tagFor tag then some text else none
  | _ => none

/-! ## Numbers -/

def digitsValue? (base : Nat) (s : List Char) : Option Nat :=
  if s.isEmpty then none
  else
    match s.mapM hexValue? with
    | some ds =>
      if ds.all (· < base) then some (ds.foldl (fun n d => base * n + d) 0) else none
    | none => none

/-- The digits of a whole number behind an optional plus sign, and behind one that may stand after
the mark of a base. -/
def wholeValue? (s : List Char) : Option Nat :=
  let digits := match s with
    | '+' :: rest => rest
    | s => s
  match digits with
  | '0' :: 'x' :: rest => digitsValue? 16 rest
  | '0' :: 'o' :: rest => digitsValue? 8 rest
  | '0' :: 'b' :: rest => digitsValue? 2 rest
  | '0' :: _ :: _ => none
  | digits => digitsValue? 10 digits

/-- A whole number below a bound. -/
def natural? (bound : Nat) (n : Node) : Option Nat :=
  match (bareText? "int" n).bind fun s => wholeValue? s.toList with
  | some v => if v < bound then some v else none
  | none => none

/-- A number with or without a fraction, an infinity or what is no number. -/
def doubleValue? (s : String) : Option Double :=
  if [".inf", ".Inf", ".INF", "+.inf", "+.Inf", "+.INF"].contains s then some (Double.inf false)
  else if ["-.inf", "-.Inf", "-.INF"].contains s then some (Double.inf true)
  else if [".nan", ".NaN", ".NAN"].contains s then some Double.nan
  else
    match s.toList with
    | '+' :: '+' :: _ | '+' :: '-' :: _ => none
    | cs => (Decimal.read cs).bind fun x => if x.isFinite then some x else none

def double? (n : Node) : Option Double := (bareText? "float" n).bind doubleValue?

def truth? (n : Node) : Option Bool :=
  match bareText? "bool" n with
  | some s =>
    if ["true", "True", "TRUE"].contains s then some true
    else if ["false", "False", "FALSE"].contains s then some false
    else none
  | none => none

/-! ## Texts -/

def text? : Node → Option String
  | .scalar _ _ text => some text
  | _ => none

def isNull (s : String) : Bool := ["null", "Null", "NULL", "~"].contains s

/-- A text, or the inner `none` for nothing. -/
def optionalText? : Node → Option (Option String)
  | .scalar .plain none text => some (if text.isEmpty || isNull text then none else some text)
  | .scalar .plain (some tag) text =>
    if tag == tagFor "null" then (if isNull text then some none else none) else some (some text)
  | .scalar _ _ text => some (some text)
  | _ => none

/-! ## Collections -/

def items? : Node → Option (List Node)
  | .sequence items => some items
  | .scalar .plain _ "" => some []
  | _ => none

/-- The entries of a mapping whose keys are texts. -/
def entries? : Node → Option (List (String × Node))
  | .mapping entries => entries.mapM fun (k, v) => (text? k).map fun name => (name, v)
  | .scalar .plain _ "" => some []
  | _ => none

/-- A record: its entries of the names it knows, each at most once. -/
def fields? (names : List String) (n : Node) : Option (List (String × Node)) :=
  match entries? n with
  | none => none
  | some entries =>
    let known := entries.filter fun e => names.contains e.1
    if names.all fun name => known.countP (·.1 == name) ≤ 1 then some known else none

/-- The value of a field; `default` is for one that is not there. -/
def field? {α : Type} (fields : List (String × Node)) (name : String) (read : Node → Option α)
    (default : Option α) : Option α :=
  match fields.lookup name with
  | some n => read n
  | none => default

end Quorum.Yaml
