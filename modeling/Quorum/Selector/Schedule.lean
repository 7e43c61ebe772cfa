import Quorum.Selector

/-!
# Calls that overlap in time

A registry that answers after a delay. Calls started at once look at the state in
their order; an answer without delay is taken before the next call looks, the others
are taken in the order of their delays, equal delays in the order of the calls.
-/

namespace Quorum.Selector

/-- The answers still to come, and how many were given. -/
structure Script where
  left : List Delayed
  /-- What follows the last answer, for ever. -/
  last : Delayed
  asked : Nat

namespace Script

/-- A registry without answers. -/
def exhausted : Delayed := ⟨0, .error (.registry "script exhausted")⟩

/-- The next answer. -/
def next (r : Script) : Delayed × Script :=
  match r.left with
  | [] => (r.last, { r with asked := r.asked + 1 })
  | d :: rest => (d, { r with left := rest, asked := r.asked + 1 })

end Script

/-- A call that waits for its answer. -/
structure Waiting where
  call : Nat
  reply : Delayed

/-- What has happened before the first delayed answer. -/
structure Started where
  trace : Trace
  script : Script
  waiting : List Waiting

/-- Starts one call. -/
def startCall (s : Settings) (now : Time) (w : Started) (call : Nat) : Started :=
  match gate s w.trace.state now with
  | .error _ => { w with trace := step s w.trace (.start call now) }
  | .ok () =>
    let (reply, script) := w.script.next
    let trace := step s w.trace (.start call now)
    if reply.delay = 0 then { w with trace := step s trace (.finish call now reply.answer), script }
    else ⟨trace, script, w.waiting ++ [⟨call, reply⟩]⟩

/-- Starts `n` calls at once and waits for all: the state, the registry and the results in the
order of the calls. -/
def together (s : Settings) (st : Selector) (script : Script) (now : Time) (n : Nat) :
    Selector × Script × List Answer :=
  let w := (List.range n).foldl (startCall s now) ⟨⟨st, []⟩, script, []⟩
  let order := w.waiting.mergeSort fun a b => a.reply.delay ≤ b.reply.delay
  let trace := run s w.trace (order.map fun a => .finish a.call (now + a.reply.wait) a.reply.answer)
  let results := (List.range n).map fun i =>
    (trace.results.lookup i).getD (.error (.registry "unanswered"))
  (trace.state, w.script, results)

end Quorum.Selector
