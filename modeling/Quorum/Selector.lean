import Quorum.Log
import Quorum.Peer.Set

/-!
# Choice of the RPC endpoint

The endpoint comes from a registry. A failed query is answered with the default
endpoint until `maxAttempts` queries in a row have failed; from then on calls fail
at once, without a query, until the cool-down has passed. A successful query
clears the count.

A call has three steps, and other calls may take theirs in between: `gate` looks
whether a query may be made, the registry answers after some time, and `settle`
takes the answer into the state when it comes. `best` is the three in one.
-/

namespace Quorum

/-- Why there is no endpoint. -/
inductive EndpointError where
  | registry (text : String)
  | exhausted (attempts : Nat)
  | invalidAddress (text : String)
  | invalidProvider (text : String)
  deriving DecidableEq, Repr

def EndpointError.message : EndpointError → String
  | registry text => "registry query failed: " ++ text
  | exhausted attempts => "max failover attempts reached (" ++ toString attempts ++ ")"
  | invalidAddress text => "invalid registry address: " ++ text
  | invalidProvider text => "invalid provider url: " ++ text

namespace Selector

structure Settings where
  defaultUrl : String
  maxAttempts : Nat
  cooldown : Time

/-- The registry's answer to one query. -/
abbrev Answer := Except EndpointError String

/-- An answer and how many milliseconds it takes. -/
structure Delayed where
  delay : Nat
  answer : Answer

def Delayed.wait (d : Delayed) : Time := d.delay * millisecond

end Selector

/-- What the selector remembers between calls. -/
structure Selector where
  /-- The last endpoint the registry gave. -/
  current : Option String
  /-- Failed queries since the last successful one. -/
  attempts : Nat
  /-- When the last query failed, if the budget was used up by then. -/
  exhaustedAt : Option Time
  deriving DecidableEq, Repr

namespace Selector

def fresh : Selector := ⟨none, 0, none⟩

/-- Refuses a call during the cool-down. -/
def gate (s : Settings) (st : Selector) (now : Time) : Except EndpointError Unit :=
  match st.exhaustedAt with
  | none => .ok ()
  | some at' => if now - at' < s.cooldown then .error (.exhausted st.attempts) else .ok ()

/-- Takes a registry answer into the state. -/
def settle (s : Settings) (st : Selector) (now : Time) : Answer → Selector × Answer
  | .ok url => (⟨some url, 0, none⟩, .ok url)
  | .error _ =>
    let attempts := st.attempts + 1
    if s.maxAttempts ≤ attempts then
      ({ st with attempts, exhaustedAt := some now }, .error (.exhausted attempts))
    else ({ st with attempts }, .ok s.defaultUrl)

/-- What taking an answer says. -/
def settleLog (s : Settings) (st : Selector) : Answer → List LogRecord
  | .ok _ =>
    if st.exhaustedAt.isSome then
      [.selector .info "RPC registry reachable again, failover state cleared"]
    else []
  | .error e =>
    let attempts := st.attempts + 1
    .selector .warn ("Error getting best RPC node: " ++ e.message) ::
      (if s.maxAttempts ≤ attempts then []
      else [.selector .info ("Falling back to default RPC endpoint (attempt " ++
        toString attempts ++ "/" ++ toString s.maxAttempts ++ ")")])

/-- A call that no other one overlaps. -/
def best (s : Settings) (st : Selector) (now : Time) (query : Unit → Delayed) :
    Selector × Answer :=
  match gate s st now with
  | .error e => (st, .error e)
  | .ok () => settle s st (now + (query ()).wait) (query ()).answer

/-! ## Overlapping calls -/

/-- A step of one of several calls, which are known by numbers. -/
inductive Event where
  /-- The call looks at the state. -/
  | start (call : Nat) (now : Time)
  /-- The registry's answer reaches the call, which takes it into the state. -/
  | finish (call : Nat) (now : Time) (answer : Answer)

/-- The state with the results of the calls that have ended, latest first. -/
structure Trace where
  state : Selector
  results : List (Nat × Answer)

def step (s : Settings) (t : Trace) : Event → Trace
  | .start call now =>
    match gate s t.state now with
    | .error e => { t with results := (call, .error e) :: t.results }
    | .ok () => t
  | .finish call now answer =>
    let (state, result) := settle s t.state now answer
    ⟨state, (call, result) :: t.results⟩

def run (s : Settings) (t : Trace) (events : List Event) : Trace := events.foldl (step s) t

end Selector

end Quorum
