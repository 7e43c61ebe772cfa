import Quorum.Peer.Set

/-!
# Runs of calls on a peer set

A call reads the set or changes it, and has an answer. A run makes calls one after
the other, each at a moment of its own.
-/

namespace Quorum.PeerSet

inductive Call where
  | insert (p : PeerId)
  | contains (p : PeerId)
  | size
  | isEmpty
  | prune (ttl : Time)
  deriving DecidableEq, Repr

/-- What a call answers. -/
inductive Answer where
  | truth (b : Bool)
  | count (n : Nat)
  deriving DecidableEq, Repr

/-- Makes a call: an insertion tells whether the peer is new, pruning how many were forgotten. -/
def call (s : PeerSet) (now : Time) : Call → Answer × PeerSet
  | .insert p => (.truth !(s.contains p), s.insert p now)
  | .contains p => (.truth (s.contains p), s)
  | .size => (.count s.size, s)
  | .isEmpty => (.truth s.isEmpty, s)
  | .prune ttl => (.count (s.staleCount ttl now), s.prune ttl now)

/-- The set after calls, each with its moment. -/
def run (s : PeerSet) (calls : List (Time × Call)) : PeerSet :=
  calls.foldl (fun s c => (s.call c.1 c.2).2) s

/-- The answers of a run. -/
def answers (s : PeerSet) : List (Time × Call) → List Answer
  | [] => []
  | (now, c) :: rest => (s.call now c).1 :: (s.call now c).2.answers rest

end Quorum.PeerSet
