import Quorum.Log
import Quorum.Message
import Quorum.Network.Error
import Quorum.Peer.Set
import Quorum.Vote

/-!
# Broadcasting a request

One request goes to every known peer at once. Each peer has a time limit of its own,
the broadcast has a deadline; what has come in by then is put to the vote. Only
outputs that carry the id of the request are ballots.

Requests end in some order: `Completion` says when and how one ended, and `gather`
takes the completions in any order that does not go back in time.
-/

namespace Quorum

/-- How a request to a peer ends, if nothing cuts it short. -/
structure Reply where
  /-- How long it takes; `none` if it never ends. -/
  delay : Option Time
  result : Except NetworkError Response

/-- The end of a request to a peer. -/
structure Completion where
  peer : PeerId
  /-- Counted from the start of the broadcast. -/
  time : Time
  result : Except NetworkError Response

namespace Broadcast

structure Settings where
  policy : Policy
  /-- For each peer. -/
  timeout : Time
  /-- For the whole broadcast. -/
  deadline : Time

/-- The request to one peer, cut off at its time limit: a reply exactly at the limit counts. -/
def complete (timeout : Time) (peer : PeerId) (r : Reply) : Completion :=
  let timedOut : Completion := ⟨peer, timeout, .error (.requestTimeout peer)⟩
  match r.delay with
  | some d => if d ≤ timeout then ⟨peer, d, r.result⟩ else timedOut
  | none => timedOut

/-- The ballot that a completed request casts, if any. -/
def ballot? (id : String) (c : Completion) : Option Ballot :=
  match c.result with
  | .ok (.output id' v) => if id' = id then some ⟨c.peer, v⟩ else none
  | _ => none

/-- The completions before the deadline. -/
def inTime (deadline : Time) (order : List Completion) : List Completion :=
  order.takeWhile (·.time < deadline)

/-- The ballots that come in before the deadline. -/
def gather (id : String) (deadline : Time) (order : List Completion) : List Ballot :=
  (inTime deadline order).filterMap (ballot? id)

/-- The vote over what came in. -/
def conclude (p : Policy) (ballots : List Ballot) (queried : Nat) : Except VoteError Outcome :=
  if ballots.length < p.minPeers then
    .error (.insufficientResponses p.minPeers ballots.length)
  else p.decide ballots queried

/-- How long a broadcast takes: until its last request has ended or the deadline has come. -/
def duration (deadline : Time) (completions : List Completion) : Time :=
  min deadline (completions.foldl (fun t c => max t c.time) 0)

/-- A broadcast that is over. -/
structure Run where
  /-- The requests, one for each peer asked, in the order in which they went out. -/
  sent : List (PeerId × Request)
  /-- The ends of the requests, in the order in which they were taken. -/
  completions : List Completion
  result : Except VoteError Outcome
  elapsed : Time

/-- The completions of the requests to `peers`, in order of time; requests that end at the same
time stay in the order in which they went out. -/
def completions (s : Settings) (peers : List PeerId) (ask : PeerId → Reply) : List Completion :=
  (peers.map fun p => complete s.timeout p (ask p)).mergeSort fun a b => a.time ≤ b.time

/-- Sends a request to all known peers and votes over their answers. -/
def run (s : Settings) (peers : List PeerId) (request : Request) (ask : PeerId → Reply) : Run :=
  match s.policy.allow peers.length with
  | .error e => ⟨[], [], .error e, 0⟩
  | .ok () =>
    let order := completions s peers ask
    ⟨peers.map fun p => (p, request), order,
     conclude s.policy (gather request.id s.deadline order) peers.length,
     duration s.deadline order⟩

/-! ## Log -/

def startLog (request : Request) (queried : Nat) : LogRecord :=
  .manager .info ("Broadcasting inference " ++ request.id ++ " for model " ++ request.model ++
    " to " ++ toString queried ++ " peers")

/-- What one completed request says. -/
def completionLog (id : String) (c : Completion) : Option LogRecord :=
  match c.result with
  | .ok (.output id' _) =>
    if id' = id then none
    else some (.manager .warn
      ("Peer " ++ c.peer.text ++ " answered for request " ++ id' ++ ", ignoring"))
  | .ok (.refusal _ message) =>
    some (.manager .debug ("Peer " ++ c.peer.text ++ " could not run inference: " ++ message))
  | .error e =>
    some (.manager .debug ("No inference answer from " ++ c.peer.text ++ ": " ++ e.message))

/-- What a broadcast says; one that the gate refuses is silent. -/
def log (s : Settings) (request : Request) (r : Run) : List LogRecord :=
  let queried := r.sent.length
  match s.policy.allow queried with
  | .error _ => []
  | .ok () =>
    let taken := inTime s.deadline r.completions
    let ballots := (gather request.id s.deadline r.completions).length
    let late :=
      if taken.length < queried then
        [LogRecord.manager .warn ("Broadcast deadline hit with " ++ toString ballots ++ " of " ++
          toString queried ++ " answers")]
      else []
    let verdict :=
      match r.result with
      | .ok o =>
        [LogRecord.manager .info ("Consensus on " ++ request.id ++ ": " ++ toString o.agreeing ++
          "/" ++ toString o.responded ++ " responses agreeing, " ++ toString o.queried ++
          " peers queried")]
      | .error _ => []
    [startLog request queried] ++ taken.filterMap (completionLog request.id) ++ late ++ verdict

end Broadcast

end Quorum
