import Mathlib
import Quorum.Node.Running
import Quorum.Proofs.Api.Respond
import Quorum.Proofs.Network.Discovery
import Quorum.Proofs.Network.Guarantees
import Quorum.Proofs.Peer.Accounting

/-!
# Whether a node can ever have a quorum

A node broadcasts only while it knows `minPeers` peers, and it never knows more than
`maxKnownPeers`. A configuration that is accepted may ask for more of the first than the second
allows: no check looks at both. As many distinct peers as there is room for can be discovered one
after the other (`peers_run_discoveries`), so the gate opens on some run exactly when `minPeers`
is at most `maxKnownPeers` (`gate_spec`). Otherwise the node is `Starved` whatever it lives
through: it starts, and can never answer.
-/

namespace Quorum

namespace PeerId

/-- Some peer can have this id: its bytes can be read. -/
def IsGenuine (p : PeerId) : Prop := ofBytes? p.toBytes = some p

/-- An id for every number, by a key with the digits of the number to base 256. -/
def numbered (i : Nat) : PeerId := ofKey ((Nat.digitsAppend 256 32 i).map UInt8.ofNat)

end PeerId

namespace PeerSet

/-- The calls that discover a peer or forget peers; the others only ask. -/
inductive Call.Changes : Call → Prop where
  | insert (p : PeerId) : Changes (.insert p)
  | prune (ttl : Time) : Changes (.prune ttl)

/-- Discovers peers one after the other. -/
def discoveries (now : Time) (ps : List PeerId) : List (Time × Call) :=
  ps.map fun p => (now, .insert p)

end PeerSet

namespace Node

/-- What becomes of a node that knows these peers: every broadcast, in whatever order its steps are
made, is refused with nothing sent, and if the API enforces the quorum it refuses every request for
inference that the limiter admits, whatever is in it. -/
structure Starved (c : Config) (known : List PeerId) : Prop where
  gate : (manager c).broadcast.policy.allow known.length =
    .error (.insufficientPeers c.voting.minPeers known.length)
  ends : ∀ request ask r, Broadcast.Ends (manager c).broadcast known request ask r →
    r = ⟨[], [], .error (.insufficientPeers c.voting.minPeers known.length), 0⟩
  asked : ∀ {σ : Type} (t : Transport σ) (st : σ) request reply, t.peers st = known →
    (manager c).ask t request reply st =
      ⟨.error (.insufficientPeers c.voting.minPeers known.length), [], 0, st, []⟩
  refused : c.api.enforceQuorum = true → ∀ {σ : Type} (sv : Api.Services σ) (m : Api.Moment)
    (r : Api.HttpRequest) (st : Api.State σ), sv.peers st.outside = known →
    Api.Route.ofPath? (Api.pathOf r.target) = some .inference → r.method = "POST" →
    (Limiter.check (settings c).limit st.limiter r.client m.now).2 = .ok () →
    let response := Api.respond (settings c) sv m r st
    response.1 = Api.frame r false (.ofError
      (.ofVote (.insufficientPeers c.voting.minPeers known.length))) ∧
    response.1.status = 503 ∧ response.2.effects = [] ∧ response.2.state =
      { st with limiter := (Limiter.check (settings c).limit st.limiter r.client m.now).1 }

end Node

/-! ## Enough different peers -/

namespace PeerId

theorem toNat_digits (i : Nat) :
    ((Nat.digitsAppend 256 32 i).map UInt8.ofNat).map UInt8.toNat = Nat.digitsAppend 256 32 i := by
  rw [List.map_map]
  conv_rhs => rw [← List.map_id (Nat.digitsAppend 256 32 i)]
  refine List.map_congr_left fun d hd => ?_
  have hlt : d < 256 := Nat.lt_of_mem_digitsAppend (by omega) 32 d hd
  exact Nat.mod_eq_of_lt hlt

theorem ofDigits_digitsAppend (i : Nat) : Nat.ofDigits 256 (Nat.digitsAppend 256 32 i) = i := by
  rw [Nat.digitsAppend, Nat.ofDigits_append_replicate_zero, Nat.ofDigits_digits]

theorem numbered_injective : Function.Injective numbered := by
  intro i j h
  have hkey : (Nat.digitsAppend 256 32 i).map UInt8.ofNat =
      (Nat.digitsAppend 256 32 j).map UInt8.ofNat := by
    simpa only [numbered, ofKey, PeerId.mk.injEq, List.cons.injEq, true_and] using h
  have hdigits := congrArg (List.map UInt8.toNat) hkey
  rw [toNat_digits, toNat_digits] at hdigits
  rw [← ofDigits_digitsAppend i, hdigits, ofDigits_digitsAppend]

theorem numbered_isGenuine {i : Nat} (h : i < 256 ^ 32) : (numbered i).IsGenuine := by
  have hlength : (numbered i).digest.length = 36 := by
    simp only [numbered, ofKey, List.length_cons, List.length_map,
      Nat.length_digitsAppend (by omega : 1 < 256) 32 h]
  simp only [IsGenuine, toBytes, ofBytes?, hlength]
  rfl

/-- There are as many different peers as one likes, none of them the node itself. -/
theorem exists_peers (own : PeerId) (n : Nat) : ∃ ps : List PeerId, ps.Nodup ∧ ps.length = n ∧
    own ∉ ps ∧ (n < UInt64.size → ∀ p ∈ ps, p.IsGenuine) := by
  -- One more than is needed, as the node itself may be among them.
  have hnodup : ((List.range (n + 1)).map numbered).Nodup :=
    List.nodup_range.map numbered_injective
  have hothers := hnodup.erase own
  have hlength : n ≤ (((List.range (n + 1)).map numbered).erase own).length := by
    have h := List.le_length_erase (a := own) (l := (List.range (n + 1)).map numbered)
    simpa using h
  refine ⟨(((List.range (n + 1)).map numbered).erase own).take n, hothers.sublist
    (List.take_sublist _ _), List.length_take_of_le hlength, fun hmem => ?_, fun hn p hp => ?_⟩
  · exact (hnodup.mem_erase_iff.1 (List.mem_of_mem_take hmem)).1 rfl
  · obtain ⟨i, hi, rfl⟩ := List.mem_map.1 (List.mem_of_mem_erase (List.mem_of_mem_take hp))
    rw [List.mem_range] at hi
    have hword : UInt64.size ≤ 256 ^ 32 := by decide
    exact numbered_isGenuine (by omega)

end PeerId

/-! ## Discoveries -/

namespace PeerSet

variable {s : PeerSet} {ps : List PeerId} {now : Time}

theorem inOrder_discoveries (now : Time) (ps : List PeerId) : InOrder (discoveries now ps) :=
  List.pairwise_map.2 (List.pairwise_of_forall fun _ _ => le_rfl)

theorem changes_discoveries {x : Time × Call} (hx : x ∈ discoveries now ps) : x.2.Changes := by
  obtain ⟨p, -, rfl⟩ := List.mem_map.1 hx
  exact .insert p

/-- A new peer is known beside all the others while there is room. -/
theorem peers_insert_of_room {p : PeerId} (hp : p ∉ s.peers) (hroom : s.size < s.capacity)
    (now : Time) : (s.insert p now).peers = p :: s.peers := by
  rw [(insert_of_notMem s hp now).1, List.take_of_length_le]
  rw [length_peers]
  omega

/-- **Different new peers are all known in the end, if there is room for them.** -/
theorem peers_run_discoveries (hps : ps.Nodup) (hnew : ∀ p ∈ ps, p ∉ s.peers)
    (hroom : s.size + ps.length ≤ s.capacity) (now : Time) :
    (s.run (discoveries now ps)).peers = ps.reverse ++ s.peers := by
  induction ps generalizing s with
  | nil => rfl
  | cons p ps ih =>
    rw [List.length_cons] at hroom
    obtain ⟨hp, hps⟩ := List.nodup_cons.1 hps
    have hinsert := peers_insert_of_room (hnew p List.mem_cons_self) (by omega) now
    have hsize : (s.insert p now).size = s.size + 1 := by
      rw [← length_peers, hinsert, List.length_cons, length_peers]
    have hrest : ∀ q ∈ ps, q ∉ (s.insert p now).peers := by
      intro q hq
      rw [hinsert, List.mem_cons, not_or]
      exact ⟨fun heq => hp (heq ▸ hq), hnew q (List.mem_cons_of_mem _ hq)⟩
    have hcap : (s.insert p now).size + ps.length ≤ (s.insert p now).capacity := by
      show (s.insert p now).size + ps.length ≤ s.capacity
      omega
    show ((s.insert p now).run (discoveries now ps)).peers = _
    rw [ih hps hrest hcap, hinsert, List.reverse_cons, List.append_assoc, List.singleton_append]

end PeerSet

namespace Loop

variable {s : Loop}

/-- **What a loop knows is what discoveries and prunings lead to.** -/
theorem exists_calls_foldl (s : Loop) (acts : List Act) :
    ∃ calls : List (Time × PeerSet.Call), (∀ x ∈ calls, x.2.Changes) ∧
      (acts.foldl act s).peers = s.peers.run calls := by
  induction acts generalizing s with
  | nil => exact ⟨[], nofun, rfl⟩
  | cons x acts ih =>
    obtain ⟨calls, hcalls, hpeers⟩ := ih (s.act x)
    have hmeets := (act_meets s x).2
    rw [List.foldl_cons, hpeers]
    generalize (s.act x).peers = known at hmeets
    cases hmeets with
    | same => exact ⟨calls, hcalls, rfl⟩
    | @pruned now =>
      exact ⟨(now, .prune s.peerTtl) :: calls, List.forall_mem_cons.2 ⟨.prune _, hcalls⟩, rfl⟩
    | @met peer now =>
      exact ⟨(now, .insert peer) :: calls, List.forall_mem_cons.2 ⟨.insert _, hcalls⟩, rfl⟩

theorem exists_calls_run (own : PeerId) (ttl : Time) (n : Nat) (events : List Event) :
    ∃ calls : List (Time × PeerSet.Call), (∀ x ∈ calls, x.2.Changes) ∧
      ((fresh own ttl n).run events).peers = (PeerSet.empty n).run calls := by
  rw [← foldl_flatMap_acts]
  exact exists_calls_foldl _ _

/-- A running loop gets to know the others that it sights. -/
theorem peers_run_sighted {ps : List PeerId} (hrun : s.stopped = false) (hown : s.own ∉ ps)
    (now : Time) : (s.run (ps.map fun p => .sighted p now)).peers =
      s.peers.run (PeerSet.discoveries now ps) := by
  induction ps generalizing s with
  | nil => rfl
  | cons p ps ih =>
    rw [List.mem_cons, not_or] at hown
    have hstep : s.step (.sighted p now) = { s with peers := s.peers.insert p now } := by
      simp [step, live, discover, hrun, Ne.symm hown.1]
    have hrest := ih (s := { s with peers := s.peers.insert p now }) hrun hown.2
    show ((s.step (.sighted p now)).run _).peers = _
    rw [hstep, hrest]
    rfl

end Loop

/-! ## Too few peers -/

namespace Api

/-- Too few peers end a request at the check of the quorum, if there is one. -/
theorem perform_quorumCheck_of_error {σ : Type} {set : Settings} {sv : Services σ} {m : Moment}
    {r : HttpRequest} {x : Exchange σ} {e : VoteError} (henforce : set.enforceQuorum = true)
    (he : set.broadcast.policy.allow (sv.peers x.state.outside).length = .error e) :
    Stage.perform set sv m r x .quorumCheck = (.error (.ofVote e), x) := by
  simp [Stage.perform, henforce, he]

/-- **A request for inference that the limiter admits is refused by the check of the quorum.** -/
theorem respond_of_error {σ : Type} {set : Settings} {sv : Services σ} {m : Moment}
    {r : HttpRequest} {st : State σ} {e : VoteError} (henforce : set.enforceQuorum = true)
    (he : set.broadcast.policy.allow (sv.peers st.outside).length = .error e)
    (hroute : Route.ofPath? (pathOf r.target) = some .inference) (hmethod : r.method = "POST")
    (hcheck : (Limiter.check set.limit st.limiter r.client m.now).2 = .ok ()) :
    (respond set sv m r st).1 = frame r false (.ofError (.ofVote e)) ∧
      (respond set sv m r st).2.effects = [] ∧ (respond set sv m r st).2.state =
        { st with limiter := (Limiter.check set.limit st.limiter r.client m.now).1 } := by
  have hpost : r.method ∈ Route.inference.methods := by
    rw [hmethod]
    decide
  obtain ⟨start, performed, result, x, hstart, heffects, hcourse, heq⟩ :=
    respond_admitted sv hroute hpost hcheck
  have hperform : Stage.perform set sv m r start .quorumCheck = (.error (.ofVote e), start) :=
    perform_quorumCheck_of_error henforce (by rw [hstart]; exact he)
  rw [heq]
  cases hcourse with
  | failed h =>
    rw [hperform] at h
    cases h
    exact ⟨rfl, heffects, hstart⟩
  | passed h hrest =>
    rw [hperform] at h
    cases h

end Api

namespace Node

variable {c : Config} {known : List PeerId}

theorem starved (h : known.length < c.voting.minPeers) : Starved c known := by
  have hgate : (manager c).broadcast.policy.allow known.length =
      .error (.insufficientPeers c.voting.minPeers known.length) := if_pos h
  refine ⟨hgate, fun request ask r hr => (Broadcast.ends_of_few h r).1 hr, ?_, ?_⟩
  · intro σ t st request reply hst
    have hrun : Broadcast.run (manager c).broadcast known request reply =
        ⟨[], [], .error (.insufficientPeers c.voting.minPeers known.length), 0⟩ := by
      rw [Broadcast.run, hgate]
    have hmin : 0 < c.voting.minPeers := Nat.zero_lt_of_lt h
    have hsilent : (manager c).broadcast.policy.allow 0 =
        .error (.insufficientPeers c.voting.minPeers 0) := if_pos hmin
    simp only [Manager.ask, hst, hrun, Broadcast.log, List.length_nil, hsilent, List.map_nil]
  · intro henforce σ sv m r st hst hroute hmethod hcheck
    have hpeers : (settings c).broadcast.policy.allow (sv.peers st.outside).length =
        .error (.insufficientPeers c.voting.minPeers known.length) := by
      rw [hst]
      exact hgate
    obtain ⟨hresponse, heffects, hstate⟩ :=
      Api.respond_of_error henforce hpeers hroute hmethod hcheck
    exact ⟨hresponse, by rw [hresponse]; rfl, heffects, hstate⟩

/-- **A configuration that is accepted lets a node have a quorum exactly if it asks for no more
peers than may be known.** Then any peers that are enough open the gate, and peers with genuine ids
are never short; otherwise the node is starved after every run. What a node's loop comes to know is
always what some discoveries and prunings lead to. -/
theorem gate_spec (c : Config) (hc : c.validate = .ok ()) :
    let passes (known : PeerSet) : Prop :=
      (manager c).broadcast.policy.allow known.peers.length = .ok ()
    let known := (PeerSet.empty c.peering.maxKnownPeers).run
    let loop (own : PeerId) (ttl : Time) := (Loop.fresh own ttl c.peering.maxKnownPeers).run
    ((∃ calls, InOrder calls ∧ (∀ x ∈ calls, x.2.Changes) ∧ passes (known calls)) ↔
      c.voting.minPeers ≤ c.peering.maxKnownPeers) ∧
    (∀ own ttl, (∃ events, passes (loop own ttl events).peers) ↔
      c.voting.minPeers ≤ c.peering.maxKnownPeers) ∧
    (c.voting.minPeers ≤ c.peering.maxKnownPeers → ∀ now ps, ps.Nodup →
      ps.length = c.voting.minPeers → passes (known (PeerSet.discoveries now ps))) ∧
    (c.voting.minPeers < UInt64.size → ∃ ps : List PeerId, ps.Nodup ∧
      ps.length = c.voting.minPeers ∧ ∀ p ∈ ps, p.IsGenuine) ∧
    (c.peering.maxKnownPeers < c.voting.minPeers → ∀ calls, Starved c (known calls).peers) ∧
    ∀ own ttl events, ∃ calls, (∀ x ∈ calls, x.2.Changes) ∧
      (loop own ttl events).peers = known calls := by
  intro passes known loop
  -- A capacity of zero would act as one; an accepted configuration has none.
  have hmax : max c.peering.maxKnownPeers 1 = c.peering.maxKnownPeers :=
    Nat.max_eq_left (Broadcast.validated hc).2.2
  have hbound : ∀ calls, (known calls).peers.length ≤ c.peering.maxKnownPeers := by
    intro calls
    have hroom := (PeerSet.run_bounded c.peering.maxKnownPeers calls).2
    rwa [← PeerSet.length_peers, hmax] at hroom
  have hpasses : ∀ calls, passes (known calls) → c.voting.minPeers ≤ c.peering.maxKnownPeers :=
    fun calls h => (Policy.allow_eq_ok_iff.1 h).trans (hbound calls)
  have henough : c.voting.minPeers ≤ c.peering.maxKnownPeers → ∀ now ps, ps.Nodup →
      ps.length = c.voting.minPeers → passes (known (PeerSet.discoveries now ps)) := by
    intro hle now ps hnodup hlength
    have hroom : (PeerSet.empty c.peering.maxKnownPeers).size + ps.length ≤
        (PeerSet.empty c.peering.maxKnownPeers).capacity := by
      show 0 + ps.length ≤ max c.peering.maxKnownPeers 1
      omega
    have hpeers := PeerSet.peers_run_discoveries hnodup (fun p _ => List.not_mem_nil) hroom now
    refine Policy.allow_eq_ok_iff.2 ?_
    show c.voting.minPeers ≤ (known _).peers.length
    rw [hpeers, List.length_append, List.length_reverse]
    omega
  refine ⟨⟨?_, ?_⟩, fun own ttl => ⟨?_, ?_⟩, henough, ?_, fun hlt calls => ?_, fun own ttl events =>
    Loop.exists_calls_run own ttl _ events⟩
  · rintro ⟨calls, -, -, h⟩
    exact hpasses calls h
  · intro hle
    obtain ⟨ps, hnodup, hlength, -⟩ := PeerId.exists_peers (.numbered 0) c.voting.minPeers
    exact ⟨PeerSet.discoveries 0 ps, PeerSet.inOrder_discoveries 0 ps,
      fun x hx => PeerSet.changes_discoveries hx, henough hle 0 ps hnodup hlength⟩
  · rintro ⟨events, h⟩
    obtain ⟨calls, -, hcalls⟩ := Loop.exists_calls_run own ttl c.peering.maxKnownPeers events
    have hknown : passes (known calls) := hcalls.subst (motive := passes) h
    exact hpasses calls hknown
  · intro hle
    obtain ⟨ps, hnodup, hlength, hown, -⟩ := PeerId.exists_peers own c.voting.minPeers
    have hsighted : (loop own ttl (ps.map fun p => .sighted p 0)).peers =
        known (PeerSet.discoveries 0 ps) := Loop.peers_run_sighted rfl hown 0
    refine ⟨ps.map fun p => .sighted p 0, ?_⟩
    rw [hsighted]
    exact henough hle 0 ps hnodup hlength
  · intro hword
    obtain ⟨ps, hnodup, hlength, -, hgenuine⟩ :=
      PeerId.exists_peers (.numbered 0) c.voting.minPeers
    exact ⟨ps, hnodup, hlength, hgenuine hword⟩
  · exact starved ((hbound calls).trans_lt hlt)

/-- Two peers are needed where one may be known. -/
def cramped : Config :=
  ⟨⟨[], Config.Peering.defaultListen, 1, 3600, 10, 30, false⟩, ⟨2, Double.ofNat 1, 60⟩, .default,
    .default, .default, ⟨3000, true, .default⟩⟩

/-- All that a node knows is the peer that it has met last. -/
def acquaintance : Api.Services Unit where
  query _ := (⟨0, .error (.registry "")⟩, ())
  upload _ _ := (.ok "", ())
  peers _ := [⟨.sha256, [2]⟩]
  ask _ _ _ := ⟨none, .error .closed⟩

/-- A request for inference without a body. -/
def bare : Api.HttpRequest := ⟨"POST", "/api/inference", [], [], .v4 [127, 0, 0, 1]⟩

theorem gate_spec_cramped :
    cramped.validate = .ok () ∧
      (∀ events, (manager cramped).broadcast.policy.allow
        ((Loop.fresh ⟨.sha256, [0]⟩ 9 1).run events).peers.peers.length ≠ .ok ()) ∧
      (Api.respond (settings cramped) acquaintance ⟨0, 0, "id"⟩ bare
        ⟨.empty, .fresh, ()⟩).1.status = 503 := by
  have hc : cramped.validate = .ok () := rfl
  obtain ⟨-, hloop, -, -, hstarved, -⟩ := gate_spec cramped hc
  have hpeers : ((PeerSet.empty 1).run (PeerSet.discoveries 5
      [⟨.sha256, [1]⟩, ⟨.sha256, [2]⟩])).peers = [⟨.sha256, [2]⟩] := by
    decide
  have hknown : Starved cramped [⟨.sha256, [2]⟩] := hpeers ▸ hstarved (by decide) _
  have hroute : Api.Route.ofPath? (Api.pathOf bare.target) = some .inference := by decide +kernel
  obtain ⟨-, hstatus, -⟩ := hknown.refused rfl acquaintance ⟨0, 0, "id"⟩ bare
    ⟨.empty, .fresh, ()⟩ rfl hroute rfl (by decide)
  have hclosed : ¬ 2 ≤ 1 := by decide
  have hshut : ∀ events, (manager cramped).broadcast.policy.allow
      ((Loop.fresh ⟨.sha256, [0]⟩ 9 1).run events).peers.peers.length ≠ .ok () := by
    intro events hpass
    exact hclosed ((hloop ⟨.sha256, [0]⟩ 9).1 ⟨events, hpass⟩)
  exact ⟨hc, hshut, hstatus⟩

end Node

end Quorum
