import Quorum.Json.Value
import Quorum.Peer.Id

/-!
# Votes over JSON values

Every responding peer casts one ballot. Ballots are grouped by the text of their
output; the largest group wins, of several the one with the smallest text, if its
share of the ballots is not below the threshold. Peers that gave no answer have no
ballot; `minPeers` bounds from below how many peers must be known before a request
goes out (`Policy.allow`) and how many ballots a vote needs (`Policy.decide`).
-/

namespace Quorum

/-- One peer's answer. -/
structure Ballot where
  peer : PeerId
  output : Json

/-- The result of a vote that was won. -/
structure Outcome where
  result : Json
  agreeing : Nat
  responded : Nat
  /-- Peers that were asked. -/
  queried : Nat
  agreeingPeers : List PeerId

/-- Why there is no outcome. -/
inductive VoteError where
  | insufficientPeers (required available : Nat)
  | insufficientResponses (required received : Nat)
  | noConsensus (best responded : Nat) (threshold : Double)
  | noResponses
  deriving DecidableEq, Repr

structure Policy where
  minPeers : Nat
  threshold : Double

namespace VoteError

def message : VoteError → String
  | insufficientPeers required available =>
    "insufficient peers for consensus: " ++ toString available ++ " known, " ++
      toString required ++ " required"
  | insufficientResponses required received =>
    "insufficient responses for consensus: " ++ toString received ++ " received, " ++
      toString required ++ " required"
  | noConsensus best responded threshold =>
    "no consensus reached: best group " ++ toString best ++ " of " ++ toString responded ++
      " responses, threshold " ++ Decimal.plain.text threshold
  | noResponses => "no responses to evaluate"

end VoteError

namespace Vote

/-- The ballots that gave one text, in order of arrival. -/
structure Group where
  text : String
  output : Json
  peers : List PeerId

/-- Adds a ballot to the groups, which stay in increasing order of their texts. -/
def insert (text : String) (b : Ballot) : List Group → List Group
  | [] => [⟨text, b.output, [b.peer]⟩]
  | g :: rest =>
    if text = g.text then { g with peers := g.peers ++ [b.peer] } :: rest
    else if text < g.text then ⟨text, b.output, [b.peer]⟩ :: g :: rest
    else g :: insert text b rest

def groups (ballots : List Ballot) : List Group :=
  ballots.foldl (fun gs b => insert b.output.render b gs) []

/-- The larger of two groups, the first one if they are equally large. -/
def larger (a b : Group) : Group := if a.peers.length < b.peers.length then b else a

/-- The first of the largest groups. -/
def winner? : List Group → Option Group
  | [] => none
  | g :: rest => some (rest.foldl larger g)

/-- The share of `agreeing` among `responded`, rounded to a double. -/
def share (agreeing responded : Nat) : Double :=
  (Double.ofNat agreeing).div (Double.ofNat responded)

end Vote

namespace Policy

/-- The gate before any request goes out. -/
def allow (p : Policy) (available : Nat) : Except VoteError Unit :=
  if available < p.minPeers then .error (.insufficientPeers p.minPeers available) else .ok ()

theorem allow_eq_ok_iff {p : Policy} {available : Nat} :
    p.allow available = .ok () ↔ p.minPeers ≤ available := by
  unfold allow
  split
  · exact iff_of_false nofun (by omega)
  · exact iff_of_true rfl (by omega)

/-- Picks the answer of the ballots that came out of `queried` requests. -/
def decide (p : Policy) (ballots : List Ballot) (queried : Nat) : Except VoteError Outcome :=
  let responded := ballots.length
  match Vote.winner? (Vote.groups ballots) with
  | none => .error .noResponses
  | some best =>
    let agreeing := best.peers.length
    if responded < p.minPeers then .error (.insufficientResponses p.minPeers responded)
    else if (Vote.share agreeing responded).lt p.threshold then
      .error (.noConsensus agreeing responded p.threshold)
    else
      .ok { result := best.output, agreeing, responded, queried := max queried responded,
            agreeingPeers := best.peers.mergeSort PeerId.le }

end Policy

namespace Outcome

/-- The members of an outcome's text, in their order. -/
def members (o : Outcome) : List (String × String) :=
  [("result", o.result.render), ("agreeing", toString o.agreeing),
   ("responded", toString o.responded), ("queried", toString o.queried),
   ("agreeing_peers", (Json.array (o.agreeingPeers.map fun p => .string p.text)).render)]

def render (o : Outcome) : String := Json.renderMembers o.members

end Outcome

end Quorum
