import Quorum.CommandLine.Likeness
import Quorum.Config
import Quorum.Net.AddressFault

/-!
# Options of the command line

Three options with a value each, and a request for help. The value follows as the
next argument, unless that looks like an option itself, or behind an equals sign. A
value in an argument of its own is looked at only when the next option begins or the
arguments end; what is wrong with the arguments before that is said instead.
-/

namespace Quorum.CommandLine

inductive Flag where
  | config
  | port
  | listen
  deriving DecidableEq, Repr

namespace Flag

def all : List Flag := [config, port, listen]

def name : Flag → String
  | config => "config"
  | port => "port"
  | listen => "listen"

/-- The option with its value as messages name it. -/
def label (f : Flag) : String := "--" ++ f.name ++ " <" ++ f.name.toUpper ++ ">"

def ofName? (name : String) : Option Flag := all.find? (·.name == name)

end Flag

/-- What the options say. -/
structure Options where
  path : String
  port : Option Nat
  listen : Option Multiaddr
  deriving DecidableEq, Repr

namespace Options

def default : Options := ⟨"config/p2p_config.yaml", none, none⟩

/-- The configuration as the options change it. -/
def apply (o : Options) (c : Config) : Config :=
  { c with
    api := { c.api with port := o.port.getD c.api.port }
    peering := { c.peering with listen := o.listen.getD c.peering.listen } }

end Options

/-- Why the arguments are refused; `used` are the labels of the options that the usage shows. -/
inductive Refusal where
  | unexpected (argument : String) (similar : Option String) (used : List String)
  | missingValue (f : Flag)
  | badValue (f : Flag) (value reason : String)
  | repeated (f : Flag)
  /-- A value behind the request for help. -/
  | needless (value : String) (used : List String)
  deriving DecidableEq, Repr

namespace Refusal

def usage (used : List String) : List String :=
  ["", "Usage: joynet_node " ++ (if used.isEmpty then "[OPTIONS]" else " ".intercalate used)]

def hint : List String := ["", "For more information, try '--help'."]

def lines : Refusal → List String
  | unexpected argument similar used =>
    ["error: unexpected argument '" ++ argument ++ "' found"] ++
    (match similar with
      | some s => ["", "  tip: a similar argument exists: '" ++ s ++ "'"]
      | none => []) ++ usage used ++ hint
  | missingValue f =>
    ["error: a value is required for '" ++ f.label ++ "' but none was supplied"] ++ hint
  | badValue f value reason =>
    ["error: invalid value '" ++ value ++ "' for '" ++ f.label ++ "': " ++ reason] ++ hint
  | repeated f =>
    ["error: the argument '" ++ f.label ++ "' cannot be used multiple times"] ++ usage [] ++ hint
  | needless value used =>
    ["error: unexpected value '" ++ value ++ "' for '--help' found; no more were expected"] ++
      usage used ++ hint

end Refusal

/-- What the arguments ask for. -/
inductive Wish where
  | run (o : Options)
  | help
  | refuse (r : Refusal)

def helpText : String :=
  "JoyNet decentralized inference node\n\nUsage: joynet_node [OPTIONS]\n\nOptions:\n" ++
  "      --config <CONFIG>  Path to node configuration file [default: config/p2p_config.yaml]\n" ++
  "      --port <PORT>      API port, overrides `api.port` and `PORT`\n" ++
  "      --listen <LISTEN>  P2P listen multiaddress, overrides `p2p.listen_addr`\n" ++
  "  -h, --help             Print help\n"

/-! ## Values -/

/-- A port out of the whole numbers of 64 bits. -/
def portValue (s : String) : Except String Nat :=
  match Whole.read (1 <<< 63) (1 <<< 63 - 1) s.toList with
  | .error f => .error f.message
  | .ok n =>
    if 0 ≤ n && n ≤ 65535 then .ok n.toNat
    else .error (toString n ++ " is not in 0..=65535")

def assign (o : Options) (f : Flag) (value : String) : Except Refusal Options :=
  match f with
  | .config => if value.isEmpty then .error (.missingValue f) else .ok { o with path := value }
  | .port =>
    match portValue value with
    | .ok n => .ok { o with port := some n }
    | .error reason => .error (.badValue f value reason)
  | .listen =>
    match Multiaddr.read value with
    | .ok a => .ok { o with listen := some a }
    | .error fault => .error (.badValue f value fault.message)

/-! ## Arguments -/

/-- What the arguments read so far said. -/
structure Reading where
  options : Options
  /-- The options that were given, in their order. -/
  given : List Flag
  /-- An option whose value was not looked at yet, or has not come yet. -/
  pending : Option (Flag × Option String)
  /-- Whether only values may follow. -/
  closed : Bool

namespace Reading

def start : Reading := ⟨.default, [], none, false⟩

/-- Gives an option its value. -/
def give (r : Reading) (f : Flag) (value : String) : Except Refusal Reading :=
  if r.given.contains f then .error (.repeated f)
  else do
    let options ← assign r.options f value
    return { r with options, given := r.given ++ [f] }

/-- Looks at the value that waits. -/
def resolve (r : Reading) : Except Refusal Reading :=
  match r.pending with
  | none => .ok r
  | some (f, none) => .error (.missingValue f)
  | some (f, some value) => { r with pending := none }.give f value

/-- The options that a usage shows: those given, the one that waits for a look among them. -/
def used (r : Reading) : List Flag :=
  match r.pending with
  | some (f, some _) =>
    if r.given.contains f then r.given.filter (· != f) else r.given ++ [f]
  | _ => r.given

/-- Refuses an unknown option; one that is like it is named. -/
def unknown (r : Reading) (name : String) : Refusal :=
  match Likeness.closest? name ((Flag.all.map Flag.name) ++ ["help"]) with
  | none => .unexpected ("--" ++ name) none (r.used.map Flag.label)
  | some s =>
    let label := ((Flag.ofName? s).map Flag.label).getD "--help"
    let used := (r.used.map Flag.label).filter (· != label)
    .unexpected ("--" ++ name) (some ("--" ++ s)) (used ++ [label])

/-- Reads an option in its long form. -/
def long (r : Reading) (name : String) (value : Option String) : Except Wish Reading :=
  if name == "help" then
    match value with
    | some v => .error (.refuse (.needless v (r.used.map Flag.label ++ ["--help"])))
    | none =>
      match r.resolve with
      | .ok _ => .error .help
      | .error e => .error (.refuse e)
  else
    match Flag.ofName? name with
    | none => .error (.refuse (r.unknown name))
    | some f =>
      let next := do
        let r ← r.resolve
        match value with
        | some v => r.give f v
        | none => return { r with pending := some (f, none) }
      next.mapError .refuse

/-- Reads an argument. -/
def argument (r : Reading) (a : String) : Except Wish Reading :=
  let strange : Except Wish Reading := .error (.refuse (.unexpected a none []))
  if r.closed then strange
  else
    match a.toList with
    | ['-', '-'] => .ok { r with closed := true }
    | '-' :: '-' :: body =>
      let name := body.takeWhile (· != '=')
      let value := match body.drop name.length with
        | [] => none
        | _ :: v => some (String.ofList v)
      r.long (String.ofList name) value
    | '-' :: 'h' :: _ =>
      match r.resolve with
      | .ok _ => .error .help
      | .error e => .error (.refuse e)
    | '-' :: c :: _ => .error (.refuse (.unexpected ("-" ++ String.singleton c) none []))
    | _ =>
      match r.pending with
      | some (f, none) => .ok { r with pending := some (f, some a) }
      | _ => strange

def arguments (r : Reading) : List String → Except Wish Reading
  | [] => .ok r
  | a :: rest =>
    match r.argument a with
    | .ok r => r.arguments rest
    | .error w => .error w

end Reading

/-- Reads the arguments of the program. -/
def Wish.ofArguments (arguments : List String) : Wish :=
  match Reading.start.arguments arguments with
  | .error w => w
  | .ok r =>
    match r.resolve with
    | .ok r => .run r.options
    | .error e => .refuse e

end Quorum.CommandLine
