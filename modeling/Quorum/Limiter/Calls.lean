import Quorum.Limiter

/-!
# Runs of calls on the rate limiter

Checks of clients and cleanups, one after the other, each at a moment of its own.
-/

namespace Quorum.Limiter

inductive Call where
  | check (client : IpAddress)
  | cleanup
  deriving DecidableEq, Repr

/-- Makes a call; a cleanup answers nothing. -/
def call (s : Settings) (l : Limiter) (now : Time) : Call → Option (Except Refusal Unit) × Limiter
  | .check client =>
    let (l, result) := check s l client now
    (some result, l)
  | .cleanup => (none, cleanup s l now)

/-- The limiter after calls, each with its moment. -/
def run (s : Settings) (l : Limiter) (calls : List (Time × Call)) : Limiter :=
  calls.foldl (fun l c => (call s l c.1 c.2).2) l

/-- What the calls of a run answer. -/
def answers (s : Settings) (l : Limiter) :
    List (Time × Call) → List (Option (Except Refusal Unit))
  | [] => []
  | (now, c) :: rest => (call s l now c).1 :: answers s (call s l now c).2 rest

end Quorum.Limiter
