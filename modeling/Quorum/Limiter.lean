import Quorum.Net.Ip
import Quorum.Peer.Set

/-!
# The rate limit of the API

Every client has a window that its first admitted request opens and that admits
`maxRequests` requests; a request after the window's end opens the next one.
A refusal says how long the window still lasts. `cleanup` forgets clients whose
window has ended, which no later answer shows.
-/

namespace Quorum

namespace Limiter

structure Settings where
  maxRequests : Nat
  window : Time

/-- A client's open window: when it began and how many requests it admitted. -/
structure Window where
  count : Nat
  start : Time
  deriving DecidableEq, Repr

/-- A refused request. -/
structure Refusal where
  limit : Nat
  window : Time
  /-- How long the window still lasts. -/
  retryAfter : Time
  deriving DecidableEq, Repr

def Refusal.message (r : Refusal) : String :=
  "rate limit of " ++ toString r.limit ++ " per " ++ toString (r.window / second) ++
    "s exceeded, retry in " ++ toString (r.retryAfter / second) ++ "s"

end Limiter

/-- The open windows, each client once. -/
structure Limiter where
  windows : List (IpAddress × Limiter.Window)

namespace Limiter

def empty : Limiter := ⟨[]⟩

def find? (l : Limiter) (c : IpAddress) : Option Window := l.windows.lookup c

/-- Replaces a client's window or adds it. -/
def put (c : IpAddress) (w : Window) : List (IpAddress × Window) →
    List (IpAddress × Window)
  | [] => [(c, w)]
  | (d, v) :: rest => if d = c then (c, w) :: rest else (d, v) :: put c w rest

/-- Counts a request at `now`, or refuses it once the window is full. -/
def check (s : Settings) (l : Limiter) (c : IpAddress) (now : Time) :
    Limiter × Except Refusal Unit :=
  let found := (l.find? c).getD ⟨0, now⟩
  let elapsed := now - found.start
  let open' := if s.window ≤ elapsed then ⟨0, now⟩ else found
  if s.maxRequests ≤ open'.count then
    (⟨put c open' l.windows⟩, .error ⟨s.maxRequests, s.window, s.window - elapsed⟩)
  else (⟨put c { open' with count := open'.count + 1 } l.windows⟩, .ok ())

/-- Forgets the clients whose window has ended. -/
def cleanup (s : Settings) (l : Limiter) (now : Time) : Limiter :=
  ⟨l.windows.filter fun (_, w) => now - w.start < s.window⟩

/-- How many clients have a window. -/
def tracked (l : Limiter) : Nat := l.windows.length

end Limiter

end Quorum
