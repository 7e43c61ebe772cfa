import Quorum.Peer.Id

/-!
# The set of known peers

Known peers with the time each was last seen, most recently seen first. Seeing a
known peer moves it to the front; a new peer that finds the set full drives out
the one at the back. `prune` forgets peers that were seen longer ago than a time
to live. A capacity of zero acts as one.
-/

namespace Quorum

/-- Nanoseconds since some fixed instant; spans of time are counted the same way. -/
abbrev Time := Nat

/-- The moments of what happens one after the other do not go back. -/
def InOrder {α : Type} (events : List (Time × α)) : Prop := events.Pairwise fun a b => a.1 ≤ b.1

/-- Nanoseconds of a second. -/
def second : Nat := 1000000000

/-- Nanoseconds of a millisecond. -/
def millisecond : Nat := 1000000

/-- A peer and when it was last seen. -/
structure Sighting where
  peer : PeerId
  seen : Time
  deriving DecidableEq, Repr

structure PeerSet where
  capacity : Nat
  capacity_pos : 0 < capacity
  /-- Most recently seen first. -/
  sightings : List Sighting

namespace PeerSet

def empty (capacity : Nat) : PeerSet := ⟨max capacity 1, by omega, []⟩

def contains (s : PeerSet) (p : PeerId) : Bool := s.sightings.any (·.peer == p)

/-- The known peers, most recently seen first. -/
def peers (s : PeerSet) : List PeerId := s.sightings.map (·.peer)

def size (s : PeerSet) : Nat := s.sightings.length

def isEmpty (s : PeerSet) : Bool := s.sightings.isEmpty

/-- The set after a peer was seen at `now`. -/
def insert (s : PeerSet) (p : PeerId) (now : Time) : PeerSet :=
  { s with sightings := (⟨p, now⟩ :: s.sightings.filter (·.peer != p)).take s.capacity }

/-- Whether a sighting is older than `ttl`. -/
def isStale (ttl now : Time) (e : Sighting) : Bool := ttl < now - e.seen

def prune (s : PeerSet) (ttl now : Time) : PeerSet :=
  { s with sightings := s.sightings.filter fun e => !isStale ttl now e }

/-- How many peers `prune` forgets. -/
def staleCount (s : PeerSet) (ttl now : Time) : Nat := s.sightings.countP (isStale ttl now)

end PeerSet

end Quorum
