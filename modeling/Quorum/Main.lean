import Quorum.CommandLine.Session

/-!
# The program

Starts a node from the arguments, the environment and the configuration file. A
started node is asked on the standard input, one request a line (method, target and
maybe a body), and stops when that ends. It reaches no other machine: posts to
servers fail.
-/

namespace Quorum

open CommandLine

def variableNames : List String :=
  ["DEFAULT_RPC_URL", "RPC_PROVIDER_URL", "SOVEREIGN_RPC_ADDRESS", "IPFS_API_URL",
   "INFERENCE_BACKEND_URL", "PORT"]

def readEnvironment : IO Environment := do
  let pairs ← variableNames.mapM fun name => return (name, ← IO.getEnv name)
  return ⟨pairs.filterMap fun (name, value) => value.map (name, ·)⟩

def readFile (path : String) : IO Config.File := do
  try return .ok (← IO.FS.readBinFile path).data.toList
  catch e =>
    match e with
    | .noFileOrDirectory .. => return .error "No such file or directory (os error 2)"
    | .permissionDenied .. => return .error "Permission denied (os error 13)"
    | .inappropriateType .. => return .error "Is a directory (os error 21)"
    | e => return .error (toString e)

def readMachine (o : Wish) : IO Machine := do
  let file ← match o with
    | .run o => readFile o.path
    | _ => pure (.ok [])
  let key ← IO.getRandomBytes 32
  let complaint (_ : String) := "not a configuration"
  return ⟨fun _ => file, complaint, ← readEnvironment, .ofKey key.data.toList⟩

def showLog (records : List LogRecord) : IO Unit := do
  let shown := records.filter (·.level != .debug)
  for r in shown do IO.eprintln (r.level.name ++ " " ++ r.target ++ " " ++ r.message)

def finish (e : Exit) : IO UInt32 := do
  IO.print e.output
  showLog e.log
  for l in e.errors do IO.eprintln l
  return UInt32.ofNat e.code

/-- The request that a line stands for. -/
def requestOfLine (line : String) : Api.HttpRequest :=
  let words := line.splitOn " "
  let body := " ".intercalate (words.drop 2)
  ⟨words.headD "", (words.drop 1).headD "/", [("content-type", "application/json")],
   Utf8.encode body, .loopback⟩

/-- Answers requests until the input ends; `last` is when the clock was looked at. -/
partial def serve (n : Node Unit) (last : Nat) : IO (Node Unit) := do
  let line ← (← IO.getStdin).getLine
  if line.isEmpty then return n
  let now ← IO.monoNanosNow
  let n := { n with log := [] }.pass (now - last)
  let client (_ : Post) (world : Unit) := (PostResult.failed, world)
  let (response, n) := n.serve client 0 "request" (requestOfLine line.trimAscii.toString)
  showLog n.log
  IO.println (toString response.status ++ " " ++ response.body)
  serve n now

end Quorum

open Quorum in
def main (arguments : List String) : IO UInt32 := do
  let machine ← readMachine (.ofArguments arguments)
  match CommandLine.start arguments machine () with
  | .error e => finish e
  | .ok n =>
    showLog n.log
    let n ← serve n (← IO.monoNanosNow)
    finish (.interrupted { n with log := [] })
