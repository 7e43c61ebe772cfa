import Quorum.CommandLine.Options
import Quorum.Config.Layering
import Quorum.Node.Running

/-!
# A session of the program

From the arguments to a running node, or to an end before there is one. An `Exit` is
all that a session leaves: the code, the texts on both outputs, the log.
-/

namespace Quorum.CommandLine

structure Exit where
  code : Nat
  output : String
  /-- Lines on the error output that are not of the log. -/
  errors : List String
  log : List LogRecord

/-- What a session finds on its machine. -/
structure Machine where
  file : String → Config.File
  /-- What is said of a file's text that is no configuration. -/
  complaint : String → String
  environment : Environment
  /-- The id of the node. -/
  own : PeerId

namespace Exit

def help : Exit := ⟨0, helpText, [], []⟩

def refused (r : Refusal) : Exit := ⟨2, "", r.lines, []⟩

def unloaded (e : ConfigError) : Exit :=
  ⟨1, "", [], [.node .error ("Failed to load configuration: " ++ e.message)]⟩

def unstarted (log : List LogRecord) (e : Node.StartError) : Exit := ⟨1, "", e.lines, log⟩

/-- The end of a node that was told to stop. -/
def interrupted {σ : Type} (n : Node σ) : Exit := ⟨0, "", [], n.shutdown.log⟩

end Exit

/-- Runs the program up to where its node serves requests, if it comes so far. -/
def start {σ : Type} (arguments : List String) (m : Machine) (world : σ) : Except Exit (Node σ) :=
  match Wish.ofArguments arguments with
  | .help => .error .help
  | .refuse r => .error (.refused r)
  | .run o =>
    match Config.load m.complaint o.path (m.file o.path) m.environment with
    | .error e => .error (.unloaded e)
    | .ok c =>
      let c := o.apply c
      match Node.start o.path c m.own [] .empty with
      | (log, .error e) => .error (.unstarted log e)
      | (log, .ok s) => .ok (.ofStarted c s log world)

end Quorum.CommandLine
