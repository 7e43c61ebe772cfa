import Mathlib
import Quorum.Node.Start
import Quorum.Peer.Calls
import Quorum.Proofs.Network.Broadcast
import Quorum.Proofs.Number.Rounding
import Quorum.Proofs.Peer.Recency

/-!
# What a node's broadcast guarantees

A validated configuration sends the broadcast to a set of peers that knows nobody twice, and in
every order of the loop's steps each peer's request ends at most once (`StepsN.sharesOut`), so
nobody votes twice. `Promised` lists what follows for the answer: which errors there are, how
the numbers of an outcome relate to each other and to the configuration, who may be among the
agreeing peers, and that unanimous ballots win under every threshold. `guarantees_spec` proves it
for every way that a broadcast may end and for the manager's own call.
-/

namespace Quorum.Broadcast

/-- What an outcome says, if `ballots` of some of the `peers` led to it. -/
structure Agreed (c : Config) (peers : List PeerId) (ballots : List Ballot) (o : Outcome) :
    Prop where
  agreeing_pos : 1 ≤ o.agreeing
  agreeing_le : o.agreeing ≤ o.responded
  responded : o.responded = ballots.length
  enough : c.voting.minPeers ≤ o.responded
  responded_le : o.responded ≤ o.queried
  queried : o.queried = peers.length
  queried_le : o.queried ≤ c.peering.maxKnownPeers
  count : o.agreeingPeers.length = o.agreeing
  known : ∀ p ∈ o.agreeingPeers, p ∈ peers
  ascending : o.agreeingPeers.Pairwise fun p q => p.le q = true ∧ p ≠ q

/-- The answers of a broadcast: that nobody has responded is not among them. -/
inductive Answer (c : Config) (peers : List PeerId) (ballots : List Ballot) :
    Except VoteError Outcome → Prop where
  | insufficientPeers (h : peers.length < c.voting.minPeers) :
      Answer c peers ballots (.error (.insufficientPeers c.voting.minPeers peers.length))
  | insufficientResponses (h : c.voting.minPeers ≤ peers.length)
      (hfew : ballots.length < c.voting.minPeers) :
      Answer c peers ballots
        (.error (.insufficientResponses c.voting.minPeers ballots.length))
  | noConsensus {best : Nat} (h : c.voting.minPeers ≤ ballots.length) (hpos : 1 ≤ best)
      (hlt : best < ballots.length) :
      Answer c peers ballots (.error (.noConsensus best ballots.length c.voting.threshold))
  | agreed {o : Outcome} (h : Agreed c peers ballots o) : Answer c peers ballots (.ok o)

/-- What holds of the answer `r` that `ballots` led to. -/
structure Promised (c : Config) (peers : List PeerId) (ballots : List Ballot)
    (r : Except VoteError Outcome) : Prop where
  answer : Answer c peers ballots r
  unanimous : ∀ v, (∀ b ∈ ballots, b.output = v) → c.voting.minPeers ≤ ballots.length →
    ∃ o, r = .ok o ∧ o.result = v ∧ o.agreeing = ballots.length

variable {c : Config} {s : Settings} {request : Request} {ask : PeerId → Reply}
  {peers : List PeerId} {ballots : List Ballot}

/-! ## Who votes -/

theorem complete_peer (timeout : Time) (p : PeerId) (r : Reply) :
    (complete timeout p r).peer = p := by
  rcases r with ⟨_ | d, result⟩
  · rfl
  · by_cases hd : d ≤ timeout <;> simp [complete, hd]

theorem ballot?_peer {id : String} {e : Completion} {b : Ballot} (h : ballot? id e = some b) :
    b.peer = e.peer := by
  unfold ballot? at h
  split at h
  · split at h
    · rw [← Option.some.inj h]
    · cases h
  · cases h

theorem ballots_sublist (id : String) (order : List Completion) :
    ((order.filterMap (ballot? id)).map Ballot.peer).Sublist (order.map Completion.peer) := by
  induction order with
  | nil => exact .slnil
  | cons e order ih =>
    cases hb : ballot? id e with
    | none =>
      rw [List.filterMap_cons_none hb]
      exact ih.cons _
    | some b =>
      rw [List.filterMap_cons_some hb, List.map_cons, List.map_cons, ballot?_peer hb]
      exact ih.cons_cons _

/-- Every peer that was asked is waiting, or its request is out, or its end was taken. -/
def SharesOut (peers : List PeerId) (l : Loop) : Prop :=
  ((l.taken ++ l.pending).map Completion.peer ++ l.waiting).Perm peers

/-- No step loses a peer or doubles one, whatever the deadline. -/
theorem Step.sharesOut {l l' : Loop} (hs : Step s request ask l l') (h : SharesOut peers l) :
    SharesOut peers l' := by
  cases hs with
  | dispatch _ hp =>
    refine List.Perm.trans ?_ h
    simp only [List.map_append, List.map_cons, List.append_assoc, List.cons_append]
    exact (List.perm_middle.symm.trans (hp.symm.append_left _)).append_left _
  | take _ hc _ =>
    refine List.Perm.trans (List.Perm.append_right _ (List.Perm.map _ ?_)) h
    rw [List.append_assoc]
    exact hc.symm.append_left _
  | tick => exact h
  | deadline => exact h
  | done => exact h

theorem StepsN.sharesOut {n : Nat} {l : Loop}
    (hs : StepsN s request ask n (Loop.start peers) l) : SharesOut peers l := by
  generalize hstart : Loop.start peers = l₀ at hs
  induction hs with
  | zero => exact hstart ▸ .refl _
  | succ _ hstep ih => exact hstep.sharesOut (ih hstart)

/-- The ballots of a run of the loop come from different places among the peers. -/
theorem StepsN.voters_subperm {n : Nat} {l : Loop}
    (hs : StepsN s request ask n (Loop.start peers) l) (id : String) :
    List.Subperm ((l.ballots id).map Ballot.peer) peers := by
  have htaken : (l.taken.map Completion.peer).Sublist
      ((l.taken ++ l.pending).map Completion.peer ++ l.waiting) := by
    rw [List.map_append, List.append_assoc]
    exact List.sublist_append_left _ _
  exact ((ballots_sublist id l.taken).trans htaken).subperm.trans hs.sharesOut.subperm

/-- So do those of the run in order of time. -/
theorem gather_subperm (id : String) (deadline : Time) :
    List.Subperm ((gather id deadline (completions s peers ask)).map Ballot.peer) peers := by
  have hpeers : ((completions s peers ask).map Completion.peer).Perm peers := by
    have h := (completions_perm s peers ask).map Completion.peer
    simpa only [List.map_map, Function.comp_def, complete_peer, List.map_id'] using h
  have hsub : ((inTime deadline (completions s peers ask)).map Completion.peer).Sublist
      ((completions s peers ask).map Completion.peer) :=
    (List.takeWhile_sublist _).map _
  exact ((ballots_sublist id _).trans hsub).subperm.trans hpeers.subperm

/-! ## The vote -/

/-- What `validate` has checked of the fields that a broadcast depends on. -/
theorem validated (h : c.validate = .ok ()) :
    1 ≤ c.voting.minPeers ∧ Config.isThreshold c.voting.threshold = true ∧
      1 ≤ c.peering.maxKnownPeers := by
  unfold Config.validate at h
  split_ifs at h with hmin hthreshold _ hmax
  simp only [Bool.not_eq_true', Bool.not_eq_false] at hthreshold
  exact ⟨Nat.pos_of_ne_zero hmin, hthreshold, Nat.pos_of_ne_zero hmax⟩

/-- The share of all is one. -/
theorem share_self {n : Nat} (hn : 1 ≤ n) : Vote.share n n = Double.ofNat 1 :=
  Double.div_self (Double.significand_ofNat_pos hn)

/-- No threshold that is accepted is above the share of all. -/
theorem share_self_lt {n : Nat} (hn : 1 ≤ n) {threshold : Double}
    (h : Config.isThreshold threshold = true) : (Vote.share n n).lt threshold = false := by
  rw [share_self hn]
  simp only [Config.isThreshold, Bool.and_eq_true, Double.le, decide_eq_true_eq] at h
  simp only [Double.lt, Bool.and_eq_false_iff, decide_eq_false_iff_not]
  exact .inr (not_lt.2 h.2.2)

theorem support_le (ballots : List Ballot) (text : String) :
    Vote.support ballots text ≤ ballots.length :=
  List.countP_le_length

theorem support_unanimous {v : Json} (h : ∀ b ∈ ballots, b.output = v) :
    Vote.support ballots v.render = ballots.length := by
  refine List.countP_eq_length.2 fun b hb => ?_
  rw [h b hb, decide_eq_true rfl]

/-- The agreeing peers of a vote among peers of which none has two ballots. -/
theorem voters_ascending (hnodup : (ballots.map Ballot.peer).Nodup) (text : String) :
    ((Vote.voters ballots text).mergeSort PeerId.le).Pairwise
      fun p q => p.le q = true ∧ p ≠ q := by
  have hvoters : (Vote.voters ballots text).Nodup := hnodup.sublist (List.filter_sublist.map _)
  have hdistinct := (List.mergeSort_perm (Vote.voters ballots text) PeerId.le).nodup_iff.2 hvoters
  exact (PeerId.sort_sorted _).and hdistinct

/-- **The vote over ballots of different peers**, once the broadcast was let through. -/
theorem conclude_promised (hc : c.validate = .ok ()) (hnodup : peers.Nodup)
    (hcap : peers.length ≤ c.peering.maxKnownPeers) (hpeers : c.voting.minPeers ≤ peers.length)
    (hsub : List.Subperm (ballots.map Ballot.peer) peers) :
    Promised c peers ballots
      (conclude (Node.manager c).broadcast.policy ballots peers.length) := by
  obtain ⟨hmin, hthreshold, -⟩ := validated hc
  have hlen : ballots.length ≤ peers.length := by
    have := hsub.length_le
    rwa [List.length_map] at this
  have hvoted : (ballots.map Ballot.peer).Nodup := by
    obtain ⟨l, hperm, hl⟩ := hsub
    exact hperm.nodup_iff.1 (hnodup.sublist hl)
  unfold conclude
  split
  · rename_i hfew
    refine ⟨.insufficientResponses hpeers hfew, fun v _ henough => ?_⟩
    exact absurd hfew (Nat.not_lt.2 henough)
  rename_i henough
  replace henough : c.voting.minPeers ≤ ballots.length := Nat.not_lt.1 henough
  have hpos : 1 ≤ ballots.length := hmin.trans henough
  obtain ⟨best, hbest⟩ := Vote.exists_winner (List.ne_nil_of_length_pos hpos)
  obtain ⟨hwins, hvoters⟩ := Vote.winner?_wins hbest
  obtain ⟨b, hb, hgiven⟩ := hwins.given
  have hcount : best.peers.length = Vote.support ballots best.output.render := by
    rw [hvoters, Vote.length_voters]
  have hcount_pos : 1 ≤ best.peers.length := by
    rw [hcount]
    exact List.countP_pos_iff.2 ⟨b, hb, decide_eq_true (by rw [hgiven])⟩
  have hcount_le : best.peers.length ≤ ballots.length := hcount ▸ support_le _ _
  have hall : best.peers.length = ballots.length →
      (Vote.share best.peers.length ballots.length).lt c.voting.threshold = false := fun h => by
    rw [h]
    exact share_self_lt hpos hthreshold
  have hdecide : (Node.manager c).broadcast.policy.decide ballots peers.length =
      if (Vote.share best.peers.length ballots.length).lt c.voting.threshold then
        .error (.noConsensus best.peers.length ballots.length c.voting.threshold)
      else .ok ⟨best.output, best.peers.length, ballots.length, max peers.length ballots.length,
        best.peers.mergeSort PeerId.le⟩ := by
    simp only [Policy.decide, hbest]
    exact if_neg (Nat.not_lt.2 henough)
  rw [hdecide]
  split
  · rename_i hlow
    have hlt : best.peers.length < ballots.length := by
      refine lt_of_le_of_ne hcount_le fun heq => ?_
      rw [hall heq] at hlow
      cases hlow
    refine ⟨.noConsensus henough hcount_pos hlt, fun v hv _ => ?_⟩
    rw [hcount, ← hgiven, hv b hb, support_unanimous hv] at hlt
    exact absurd hlt (lt_irrefl _)
  · have hqueried : max peers.length ballots.length = peers.length := Nat.max_eq_left hlen
    refine ⟨.agreed ⟨hcount_pos, hcount_le, rfl, henough, le_max_right _ _, hqueried,
      hqueried.trans_le hcap, List.length_mergeSort _, fun p hp => ?_, ?_⟩, fun v hv _ => ?_⟩
    · rw [List.mem_mergeSort, hvoters] at hp
      exact hsub.subset ((List.filter_sublist.map _).subset hp)
    · rw [hvoters]
      exact voters_ascending hvoted _
    · have hresult : best.output = v := hgiven ▸ hv b hb
      exact ⟨_, rfl, hresult, by rw [hcount, hresult, support_unanimous hv]⟩

/-! ## The broadcast -/

theorem refused_promised (hc : c.validate = .ok ()) (hfew : peers.length < c.voting.minPeers) :
    Promised c peers [] (.error (.insufficientPeers c.voting.minPeers peers.length)) := by
  have hmin := (validated hc).1
  refine ⟨.insufficientPeers hfew, fun v _ henough => ?_⟩
  exact absurd (hmin.trans henough) (Nat.not_succ_le_zero 0)

theorem run_promised (hc : c.validate = .ok ()) (hnodup : peers.Nodup)
    (hcap : peers.length ≤ c.peering.maxKnownPeers) (request : Request) (ask : PeerId → Reply) :
    Promised c peers
      (gather request.id (Node.manager c).broadcast.deadline
        (run (Node.manager c).broadcast peers request ask).completions)
      (run (Node.manager c).broadcast peers request ask).result := by
  rw [run, allow_eq]
  split
  · rename_i e he
    split_ifs at he with hfew
    · obtain rfl := Except.error.inj he
      exact refused_promised hc hfew
  · rename_i hok
    split_ifs at hok with hfew
    exact conclude_promised hc hnodup hcap (Nat.not_lt.1 hfew) (gather_subperm _ _)

theorem ends_promised (hc : c.validate = .ok ()) (hnodup : peers.Nodup)
    (hcap : peers.length ≤ c.peering.maxKnownPeers) {r : Run}
    (h : Ends (Node.manager c).broadcast peers request ask r) :
    Promised c peers (r.completions.filterMap (ballot? request.id)) r.result := by
  cases h with
  | refused h =>
    rw [allow_eq] at h
    split_ifs at h with hfew
    · obtain rfl := Except.error.inj h
      exact refused_promised hc hfew
  | ended h hrun hl =>
    rw [allow_eq] at h
    split_ifs at h with hfew
    exact conclude_promised hc hnodup hcap (Nat.not_lt.1 hfew) (hrun.voters_subperm _)

theorem exists_ends (s : Settings) (peers : List PeerId) (request : Request)
    (ask : PeerId → Reply) : ∃ r, Ends s peers request ask r := by
  rcases Nat.lt_or_ge peers.length s.policy.minPeers with hlt | hge
  · exact ⟨_, (ends_of_few hlt _).2 rfl⟩
  · obtain ⟨n, l, hrun, hl⟩ := exists_ended (StepsN.zero (Loop.start peers))
    refine ⟨_, .ended ?_ hrun hl⟩
    rw [allow_eq, if_neg (Nat.not_lt.2 hge)]

/-- **What a broadcast guarantees on a validated node**, to a snapshot of a set of peers after
any calls and whatever the peers do. It has an end, and every end that it may have, and what the
manager's call gives, is as promised for the ballots that led to it. -/
theorem guarantees_spec (c : Config) (hc : c.validate = .ok ())
    (calls : List (Time × PeerSet.Call)) (request : Request) (ask : PeerId → Reply) :
    let peers := ((PeerSet.empty c.peering.maxKnownPeers).run calls).peers
    (∃ r, Ends (Node.manager c).broadcast peers request ask r) ∧
    (∀ r, Ends (Node.manager c).broadcast peers request ask r →
      Promised c peers (r.completions.filterMap (ballot? request.id)) r.result) ∧
    ∀ (σ : Type) (t : Transport σ) (st : σ), t.peers st = peers →
      Promised c peers
        (gather request.id (Node.manager c).broadcast.deadline
          (run (Node.manager c).broadcast peers request ask).completions)
        ((Node.manager c).ask t request ask st).value := by
  obtain ⟨hnodup, hsize⟩ := PeerSet.run_bounded c.peering.maxKnownPeers calls
  set peers := ((PeerSet.empty c.peering.maxKnownPeers).run calls).peers with hpeers
  have hcap : peers.length ≤ c.peering.maxKnownPeers := by
    have hlen : peers.length = ((PeerSet.empty c.peering.maxKnownPeers).run calls).size :=
      List.length_map _
    have hmax := (validated hc).2.2
    omega
  refine ⟨exists_ends _ _ _ _, fun r hr => ends_promised hc hnodup hcap hr, fun σ t st hst => ?_⟩
  rw [Manager.ask, hst]
  exact run_promised hc hnodup hcap request ask

/-- Two peers have to agree on everything. -/
def strict : Config :=
  ⟨⟨[], Config.Peering.defaultListen, 256, 3600, 10, 30, false⟩, ⟨2, Double.ofNat 1, 60⟩, .default,
    .default, .default, .default⟩

/-- Two peers were met, one of them twice. -/
def met : List (Time × PeerSet.Call) :=
  [(1, .insert ⟨.sha256, [1]⟩), (2, .insert ⟨.identity, [2]⟩), (3, .insert ⟨.sha256, [1]⟩)]

/-- Everybody answers seven. -/
def sevens (_ : PeerId) : Reply := ⟨some 5, .ok (.output "id" (.integer 7))⟩

theorem guarantees_spec_sevens :
    strict.validate = .ok () ∧
      ∃ o, (run (Node.manager strict).broadcast [⟨.sha256, [1]⟩, ⟨.identity, [2]⟩]
          ⟨"id", "m", .null⟩ sevens).result = .ok o ∧ o.result = .integer 7 ∧ o.agreeing = 2 := by
  have hpeers : ((PeerSet.empty 256).run met).peers = [⟨.sha256, [1]⟩, ⟨.identity, [2]⟩] := by
    decide
  have hvotes := @gather_perm (Node.manager strict).broadcast ⟨"id", "m", .null⟩ sevens
    [⟨.sha256, [1]⟩, ⟨.identity, [2]⟩]
  have hlength := hvotes.length_eq
  obtain ⟨-, -, hspec⟩ := guarantees_spec strict rfl met ⟨"id", "m", .null⟩ sevens
  have hasked := hspec Unit ⟨fun _ => [⟨.sha256, [1]⟩, ⟨.identity, [2]⟩],
    fun _ s => ⟨none, .error .closed, s, s⟩⟩ () hpeers.symm
  change Promised _ _ (gather _ _ (run _ ((PeerSet.empty 256).run met).peers _ _).completions) _
    at hasked
  rw [hpeers] at hasked
  have hseven : ∀ b ∈ votes (Node.manager strict).broadcast "id" sevens
      [⟨.sha256, [1]⟩, ⟨.identity, [2]⟩], b.output = .integer 7 := by
    intro b hb
    obtain ⟨p, -, hp⟩ := List.mem_filterMap.1 hb
    rw [← Option.some.inj hp]
  obtain ⟨o, hok, hresult, hagreeing⟩ := hasked.unanimous (.integer 7)
    (fun b hb => hseven b (hvotes.mem_iff.1 hb)) hlength.ge
  exact ⟨rfl, o, hok, hresult, hagreeing.trans hlength⟩

end Quorum.Broadcast
