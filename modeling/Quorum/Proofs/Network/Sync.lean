import Mathlib
import Quorum.Network.Scripted
import Quorum.Proofs.Network.Rounds
import Quorum.Proofs.Peer.Recency

/-!
# Syncs settle

A sync dials the bootstrap nodes that are missing from the peers known when it begins. If the known
peers are a set in which each dial that connects a peer makes it known, and there is room for all of
them (`Attempt.Settles`), then a round adds to the set exactly the peers that it connects and drives
nobody out (`mem_peers_round`). So a sync that follows finds less to do, and `sync_spec` says how
much is left.
-/

namespace Quorum

/-! ## Room -/

/-- A peer that is seen drives nobody out while there is room for all. -/
theorem PeerSet.mem_insert_of_room {ps : PeerSet} {p q : PeerId} (now : Time)
    (hnodup : ps.peers.Nodup) (hroom : (p :: ps.peers).toFinset.card ≤ ps.capacity) :
    q ∈ (ps.insert p now).peers ↔ q = p ∨ q ∈ ps.peers := by
  have hnodup' : (p :: ps.peers.filter (· != p)).Nodup := by
    rw [List.nodup_cons]
    exact ⟨by simp, hnodup.filter _⟩
  have hsame : (p :: ps.peers.filter (· != p)).toFinset = (p :: ps.peers).toFinset := by
    ext r
    by_cases hr : r = p
    · simp [hr]
    · simp [hr]
  have hlength : (p :: ps.peers.filter (· != p)).length ≤ ps.capacity := by
    rw [← List.toFinset_card_of_nodup hnodup', hsame]
    exact hroom
  have hpeers : (ps.insert p now).peers = p :: ps.peers.filter (· != p) := by
    rw [peers_insert, List.take_of_length_le hlength]
  rw [hpeers, List.mem_cons, List.mem_filter, bne_iff_ne]
  by_cases hq : q = p
  · simp [hq]
  · simp [hq]

namespace Dialing

variable {σ : Type} {t : Transport σ} {limit : Time} {view : σ → PeerSet}

/-- The peers that are connected by a row of dials. -/
def connected (limit : Time) (dials : List (Attempt σ)) : List PeerId :=
  dials.filterMap (·.peer? limit)

/-- A dial that connects a peer makes it known, and a dial that does not changes nothing. -/
structure Attempt.Settles (view : σ → PeerSet) (limit : Time) (x : Attempt σ) : Prop where
  known : ∀ p, x.peer? limit = some p →
    ∃ now, view (x.after limit) = (view x.before).insert p now
  unchanged : x.peer? limit = none → view (x.after limit) = view x.before

theorem connected_cons (x : Attempt σ) (dials : List (Attempt σ)) :
    connected limit (x :: dials) = (x.peer? limit).toList ++ connected limit dials := by
  unfold connected
  cases h : x.peer? limit with
  | none => rw [List.filterMap_cons_none h, Option.toList_none, List.nil_append]
  | some p => rw [List.filterMap_cons_some h, Option.toList_some, List.singleton_append]

/-- A dial adds the peer that it connects and drives nobody out, if there is room for it. -/
theorem Attempt.Settles.step {x : Attempt σ} (h : x.Settles view limit)
    (hnodup : (view x.before).peers.Nodup)
    (hroom : ((view x.before).peers ++ (x.peer? limit).toList).toFinset.card ≤
      (view x.before).capacity) :
    (∀ q, q ∈ (view (x.after limit)).peers ↔
      q ∈ (view x.before).peers ∨ q ∈ (x.peer? limit).toList) ∧
    (view (x.after limit)).peers.Nodup ∧
    (view (x.after limit)).capacity = (view x.before).capacity := by
  cases hp : x.peer? limit with
  | none =>
    rw [h.unchanged hp]
    exact ⟨fun q => (or_iff_left List.not_mem_nil).symm, hnodup, rfl⟩
  | some p =>
    obtain ⟨now, hinsert⟩ := h.known p hp
    have hfits : (p :: (view x.before).peers).toFinset.card ≤ (view x.before).capacity := by
      rw [hp, Option.toList_some] at hroom
      rwa [← List.toFinset_eq_of_perm _ _ (List.perm_append_singleton p _)]
    rw [hinsert]
    refine ⟨fun q => ?_, PeerSet.nodup_insert hnodup p now, rfl⟩
    rw [PeerSet.mem_insert_of_room now hnodup hfits, or_comm, Option.toList_some,
      List.mem_singleton]

/-- **A round adds the peers that it connects and drives nobody out**, if there is room for all. -/
theorem mem_peers_round (now : Time) (addresses : List Multiaddr) (s : σ)
    (hnodup : (view s).peers.Nodup)
    (hsettles : ∀ x ∈ attempts t limit addresses s, x.Settles view limit)
    (hroom : ((view s).peers ++ connected limit (attempts t limit addresses s)).toFinset.card ≤
      (view s).capacity) (q : PeerId) :
    q ∈ (view (round t limit now addresses s).2).peers ↔
      q ∈ (view s).peers ∨ q ∈ connected limit (attempts t limit addresses s) := by
  induction addresses generalizing now s with
  | nil => exact (or_iff_left List.not_mem_nil).symm
  | cons a rest ih =>
    rw [attempts] at hsettles
    rw [attempts, connected_cons] at hroom
    rw [round_cons, attempts, connected_cons]
    obtain ⟨hfirst, hrest⟩ := List.forall_mem_cons.1 hsettles
    have hfits : ((view s).peers ++ ((attempt t a s).peer? limit).toList).toFinset.card ≤
        (view s).capacity := by
      refine (Finset.card_le_card ?_).trans hroom
      rw [← List.append_assoc, List.toFinset_append (l := _ ++ _)]
      exact Finset.subset_union_left
    obtain ⟨hmem, hnodup', hcapacity⟩ := hfirst.step hnodup hfits
    -- A peer moves from those to be connected to those that are known; together they stay the same.
    have hsame : ((view ((attempt t a s).after limit)).peers ++
          connected limit (attempts t limit rest ((attempt t a s).after limit))).toFinset =
        ((view s).peers ++ (((attempt t a s).peer? limit).toList ++
          connected limit (attempts t limit rest ((attempt t a s).after limit)))).toFinset := by
      ext p
      simp only [List.mem_toFinset, List.mem_append, hmem p, or_assoc]
      rfl
    rw [ih _ _ hnodup' hrest (by rw [hsame, hcapacity]; exact hroom), hmem, List.mem_append,
      or_assoc]
    rfl

/-! ## Two syncs -/

theorem not_isKnown (known : List PeerId) :
    (fun a => !isKnown known a) = fun a => a.peer?.all (· ∉ known) := by
  funext a
  unfold isKnown
  cases a.peer? with
  | none => rfl
  | some p => simp

/-- A sync is a round over what is missing. -/
theorem sync_eq (m : Manager) (t : Transport σ) (s : σ) :
    let missing := m.bootstrap.filter fun a => a.peer?.all (· ∉ t.peers s)
    let made := round t m.dialTimeout 0 missing s
    (m.sync t s).calls = missing.map .dial ∧ (m.sync t s).state = made.2 ∧
      (m.sync t s).value = .ofRecords made.1 (t.peers made.2).length := by
  intro missing made
  have hmade : sync t m.dialTimeout m.bootstrap s = made := by
    show round t m.dialTimeout 0 (m.bootstrap.filter fun a => !isKnown (t.peers s) a) s = made
    rw [not_isKnown]
  unfold Manager.sync
  rw [hmade]
  refine ⟨?_, rfl, rfl⟩
  have hcalls := congrArg (List.map Manager.Call.dial) (address_round t m.dialTimeout 0 missing s)
  rwa [List.map_map] at hcalls

/-- **A sync dials what is missing, and then there is less to do.** It dials the bootstrap nodes
without an id and those whose id is not known when it begins, in the order given, each as often as
it is configured; it counts them and those of them that connect a peer by the limit, and the peers
that are known when it ends. If the known peers are a set that each dial changes as it should, with
room for the peers that are known and those that the dials connect, then these are the peers that
are known afterwards, and a sync right after it dials the bootstrap nodes without an id and those
whose id was neither known when the first began nor connected by one of its dials. -/
theorem sync_spec (m : Manager) (t : Transport σ) (s : σ) :
    let limit := m.dialTimeout
    let known := t.peers s
    let missing := m.bootstrap.filter fun a => a.peer?.all (· ∉ known)
    let dials := attempts t limit missing s
    let act := m.sync t s
    act.calls = missing.map .dial ∧ act.value.redialed = missing.length ∧
    act.value.reconnected = dials.countP (·.connects limit) ∧
    act.value.reconnected ≤ act.value.redialed ∧
    act.value.knownPeers = (t.peers act.state).length ∧
    ∀ view : σ → PeerSet, (∀ s, t.peers s = (view s).peers) → (view s).peers.Nodup →
      (∀ x ∈ dials, x.Settles view limit) →
      (known ++ connected limit dials).toFinset.card ≤ (view s).capacity →
      (∀ p, p ∈ t.peers act.state ↔ p ∈ known ∨ p ∈ connected limit dials) ∧
      (m.sync t act.state).calls = (m.bootstrap.filter fun a =>
        a.peer?.all fun p => p ∉ known ∧ p ∉ connected limit dials).map .dial := by
  intro limit known missing dials act
  obtain ⟨hcalls, hstate, hvalue⟩ := sync_eq m t s
  have hlength : (round t limit 0 missing s).1.length = missing.length := by
    rw [← List.length_map (·.address), address_round]
  have hredialed : act.value.redialed = missing.length := by
    rw [hvalue]
    exact hlength
  have hreconnected : act.value.reconnected = dials.countP (·.connects limit) := by
    rw [hvalue]
    exact countP_round t limit 0 missing s
  have hknown : act.value.knownPeers = (t.peers act.state).length := by
    rw [hvalue, hstate]
    rfl
  refine ⟨hcalls, hredialed, hreconnected, ?_, hknown, ?_⟩
  · rw [hvalue]
    exact List.countP_le_length
  intro view hpeers hnodup hsettles hroom
  have hafter (p : PeerId) : p ∈ t.peers act.state ↔ p ∈ known ∨ p ∈ connected limit dials := by
    have hroom' : ((view s).peers ++ connected limit dials).toFinset.card ≤ (view s).capacity :=
      hpeers s ▸ hroom
    rw [hstate, hpeers, mem_peers_round 0 missing s hnodup hsettles hroom' p, ← hpeers]
  refine ⟨hafter, ?_⟩
  rw [(sync_eq m t act.state).1]
  congr 2
  funext a
  cases a.peer? with
  | none => rfl
  | some p => simp [hafter]

/-! ## Scripted networks -/

theorem exists_of_mem_attempts {x : Attempt σ} {addresses : List Multiaddr} {s : σ}
    (h : x ∈ attempts t limit addresses s) : ∃ a s, x = attempt t a s := by
  induction addresses generalizing s with
  | nil => cases h
  | cons a rest ih =>
    rcases List.mem_cons.1 h with rfl | h
    · exact ⟨a, s, rfl⟩
    · exact ih h

theorem dial_script (script : Script) (now : Time) (a : Multiaddr) (known : PeerSet) :
    (∃ delay p, (script.transport now).dial a known = ⟨delay, .ok p, known.insert p now, known⟩) ∨
      ∃ delay e, (script.transport now).dial a known = ⟨delay, .error e, known, known⟩ := by
  unfold Script.transport
  dsimp only
  cases script.reached? a with
  | none => exact .inr ⟨_, _, rfl⟩
  | some p => exact .inl ⟨_, p, rfl⟩

/-- Whatever a script says, its peers become known as they are connected, and only so. -/
theorem settles_script (script : Script) (now limit : Time) (a : Multiaddr) (known : PeerSet) :
    (attempt (script.transport now) a known).Settles id limit := by
  obtain ⟨delay, p, hdial⟩ | ⟨delay, e, hdial⟩ := dial_script script now a known
  · rw [attempt, hdial]
    cases htime : delay.any (· ≤ limit) with
    | false =>
      constructor
      · intro q hq
        simp [Attempt.peer?, Attempt.inTime, htime] at hq
      · intro _
        simp [Attempt.after, Attempt.inTime, htime]
    | true =>
      constructor
      · intro q hq
        obtain rfl : p = q := by
          simpa [Attempt.peer?, Attempt.inTime, htime, Except.toOption] using hq
        exact ⟨now, by simp [Attempt.after, Attempt.inTime, htime]⟩
      · intro hnone
        simp [Attempt.peer?, Attempt.inTime, htime, Except.toOption] at hnone
  · rw [attempt, hdial]
    constructor
    · intro q hq
      simp [Attempt.peer?, Except.toOption] at hq
    · intro _
      exact ite_self _

/-- Of four bootstrap nodes one is known, one is reached, one hangs, and one has no id and is
reached. The next sync dials the last two. -/
theorem sync_spec_four :
    let peer (n : UInt8) : PeerId := ⟨.sha256, [n]⟩
    let node (n : Nat) (named : List Component) : Multiaddr :=
      ⟨.ip (.v4 [10, 0, 0, 1]) :: .number .tcp n :: named⟩
    let known := node 1 [.peer (peer 1)]
    let reached := node 2 [.peer (peer 2)]
    let hanging := node 3 [.peer (peer 3)]
    let unnamed := node 4 []
    let script : Script := ⟨[⟨peer 4, ⟨none, .fail⟩, none⟩],
      [(hanging.text, ⟨none, false, none⟩), (unnamed.text, ⟨some 5, false, some 0⟩)]⟩
    let m := patient [known, reached, hanging, unnamed]
    let s := (PeerSet.empty 3).insert (peer 1) 0
    let act := m.sync (script.transport 7) s
    act.calls = [.dial reached, .dial hanging, .dial unnamed] ∧
      act.value = ⟨3, 3, 2⟩ ∧ (∀ n ∈ [1, 2, 4], peer n ∈ act.state.peers) ∧
      (m.sync (script.transport 7) act.state).calls = [.dial hanging, .dial unnamed] := by
  intro peer node known reached hanging unnamed script m s act
  obtain ⟨hcalls, -, -, -, -, hsettled⟩ := sync_spec m (script.transport 7) s
  have hmissing : (m.bootstrap.filter fun a => a.peer?.all (· ∉ s.peers)) =
      [reached, hanging, unnamed] := by decide
  have hconnected : connected m.dialTimeout
      (attempts (script.transport 7) m.dialTimeout [reached, hanging, unnamed] s) =
        [peer 2, peer 4] := by decide +kernel
  have hsettles : ∀ x ∈ attempts (script.transport 7) m.dialTimeout
      [reached, hanging, unnamed] s, x.Settles id m.dialTimeout := by
    intro x hx
    obtain ⟨a, known, rfl⟩ := exists_of_mem_attempts hx
    exact settles_script script 7 m.dialTimeout a known
  specialize hsettled id (fun _ => rfl) (by decide)
  rw [show (script.transport 7).peers s = s.peers from rfl, hmissing] at hcalls hsettled
  obtain ⟨hafter, hagain⟩ := hsettled hsettles (by rw [hconnected]; decide)
  rw [hconnected] at hafter hagain
  have hmissing' : (m.bootstrap.filter fun a =>
      a.peer?.all fun p => p ∉ s.peers ∧ p ∉ [peer 2, peer 4]) = [hanging, unnamed] := by decide
  refine ⟨hcalls, by decide +kernel, fun n hn => ?_,
    hagain.trans (congrArg (List.map Manager.Call.dial) hmissing')⟩
  apply (hafter (peer n)).2
  simp only [List.mem_cons, List.not_mem_nil, or_false] at hn
  rcases hn with rfl | rfl | rfl <;> decide

end Dialing

end Quorum
