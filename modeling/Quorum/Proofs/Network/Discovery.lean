import Mathlib
import Quorum.Network.Notices
import Quorum.Proofs.Network.Commands
import Quorum.Proofs.Peer.Recency

/-!
# Whom a loop knows

`Meets` says once what an act can do to the known peers: it leaves them alone, prunes them, or
takes in a peer that it sees and that is not the node itself. Every act does one of these
(`act_meets`), and each of them keeps `Known`, which therefore holds between any two acts of a
run (`known_foldl`). For the order of an answer and the peer that it names, the acts of an input
are told apart (`Input.acts_cases`): only a connection ends a dial with a peer, and it has seen
that peer one act before.
-/

namespace Quorum

namespace Loop

/-- The notices that make a peer known. -/
inductive Notice.Introduces : Notice → PeerId → Prop where
  | connected {connection : Nat} {peer : PeerId} {now : Time} :
      Introduces (.connected connection peer now) peer
  | identified {peer : PeerId} {now : Time} : Introduces (.identified peer now) peer
  | routed {peer : PeerId} {now : Time} : Introduces (.routed peer now) peer
  | announced {found : List Sighting} {peer : PeerId} {now : Time} (h : ⟨peer, now⟩ ∈ found) :
      Introduces (.announced found) peer

/-- Nothing but a notice makes a peer known. -/
inductive Input.Introduces : Input → PeerId → Prop where
  | notice {n : Notice} {peer : PeerId} (h : n.Introduces peer) : Introduces (.notice n) peer

inductive Event.Sees : Event → PeerId → Time → Prop where
  | established {connection : Nat} {peer : PeerId} {now : Time} :
      Sees (.established connection peer now) peer now
  | sighted {peer : PeerId} {now : Time} : Sees (.sighted peer now) peer now

inductive Act.Sees : Act → PeerId → Time → Prop where
  | see {peer : PeerId} {now : Time} : Sees (.see peer now) peer now
  | handle {e : Event} {peer : PeerId} {now : Time} (h : e.Sees peer now) :
      Sees (.handle e) peer now

/-- What an act can do to the known peers. -/
inductive Meets (s : Loop) (x : Act) : PeerSet → Prop where
  | same : Meets s x s.peers
  | pruned {now : Time} : Meets s x (s.peers.prune s.peerTtl now)
  | met {peer : PeerId} {now : Time} (hx : x.Sees peer now) (hne : peer ≠ s.own) :
      Meets s x (s.peers.insert peer now)

/-- What holds of the peers that a node knows. -/
structure Known (own : PeerId) (n : Nat) (s : Loop) : Prop where
  own_eq : s.own = own
  stranger : own ∉ s.peers.peers
  nodup : s.peers.peers.Nodup
  capacity : s.peers.capacity = max n 1
  room : s.peers.size ≤ max n 1

variable {s : Loop} {own p q : PeerId} {n t : Nat} {now : Time} {e : Event} {x : Act} {i : Input}

/-! ## Acts -/

theorem foldl_acts (s : Loop) (e : Event) : e.acts.foldl act s = s.step e := by
  cases hs : s.stopped with
  | true => cases e <;> simp [Event.acts, act, step, hs]
  | false =>
    cases e with
    | established connection peer now =>
      have hrun : (s.discover peer now).stopped = false := by
        unfold discover
        split <;> exact hs
      simp [Event.acts, act, step, live, hs, hrun]
    | sighted peer now => simp [Event.acts, act, step, live, hs]
    | _ => rfl

theorem foldl_flatMap_acts (s : Loop) (events : List Event) :
    (events.flatMap Event.acts).foldl act s = s.run events := by
  induction events generalizing s with
  | nil => rfl
  | cons e events ih =>
    rw [List.flatMap_cons, List.foldl_append, foldl_acts, ih]
    rfl

theorem Event.Sees.of_acts (hx : x ∈ e.acts) (h : x.Sees p now) : e.Sees p now := by
  cases e with
  | established connection peer seen =>
    rcases List.mem_cons.1 hx with rfl | hx
    · cases h
      exact .established
    · rw [List.mem_singleton.1 hx] at h
      cases h
  | sighted peer seen =>
    rw [List.mem_singleton.1 hx] at h
    cases h
    exact .sighted
  | _ =>
    rw [List.mem_singleton.1 hx] at h
    cases h with
    | handle h => exact h

/-- Who is seen while an input is handled has been introduced by it. -/
theorem Input.introduces_of_sees (hx : x ∈ i.acts) (h : x.Sees p now) : i.Introduces p := by
  obtain ⟨e, he, hx⟩ := List.mem_flatMap.1 hx
  have hsees := Event.Sees.of_acts hx h
  cases i with
  | notice notice =>
    refine .notice ?_
    cases notice with
    | announced found =>
      obtain ⟨e', hmem, rfl⟩ := List.mem_map.1 he
      cases hsees
      exact .announced hmem
    | connected | identified | routed | unreachable | received | answered | requestFailed =>
      cases List.mem_singleton.1 he
      cases hsees <;> constructor
    | _ => cases he
  | _ =>
    cases List.mem_singleton.1 he
    cases hsees

/-! ## The known peers -/

theorem own_discover (s : Loop) (peer : PeerId) (now : Time) :
    (s.discover peer now).own = s.own := by
  unfold discover
  split <;> rfl

theorem discover_meets (hx : x.Sees p now) : s.Meets x (s.discover p now).peers := by
  unfold discover
  split
  · exact .same
  · rename_i hne
    exact .met hx hne

/-- Nothing was done about the known peers. -/
structure SamePeers (s s' : Loop) : Prop where
  own : s'.own = s.own
  peers : s'.peers = s.peers

theorem endDial_samePeers (s : Loop) (connection : Nat) (a : Answer) :
    SamePeers s (s.endDial connection a) := by
  unfold endDial
  split <;> exact ⟨rfl, rfl⟩

theorem endRequest_samePeers (s : Loop) (request : Nat) (answer : Pending → Answer) :
    SamePeers s (s.endRequest request answer) := by
  unfold endRequest
  split <;> exact ⟨rfl, rfl⟩

theorem submit_samePeers (s : Loop) (c : Command) : SamePeers s (s.submit c) := by
  unfold submit
  dsimp only
  split <;> exact ⟨rfl, rfl⟩

theorem take_samePeers (s : Loop) (refusal : Option String) : SamePeers s (s.take refusal) := by
  unfold take
  split
  · exact ⟨rfl, rfl⟩
  · rename_i ticket c rest hq
    cases c <;> cases refusal <;> exact ⟨rfl, rfl⟩

theorem finish_samePeers (s : Loop) (run : Nat) (result : Except BackendError Json) :
    SamePeers s (s.finish run result) := by
  unfold finish
  split <;> exact ⟨rfl, rfl⟩

theorem handOver_samePeers (s : Loop) (run : Nat) : SamePeers s (s.handOver run) := by
  unfold handOver
  split
  · dsimp only
    split
    · exact ⟨rfl, rfl⟩
    · split <;> exact ⟨rfl, rfl⟩
  · exact ⟨rfl, rfl⟩

theorem drain_samePeers (s : Loop) : SamePeers s s.drain := by
  unfold drain
  split <;> exact ⟨rfl, rfl⟩

theorem SamePeers.meets {s' : Loop} (h : SamePeers s s') (x : Act) :
    s'.own = s.own ∧ s.Meets x s'.peers :=
  ⟨h.own, h.peers ▸ .same⟩

/-- **Every act leaves the peers alone, prunes them or takes in one that it sees.** -/
theorem act_meets (s : Loop) (x : Act) : (s.act x).own = s.own ∧ s.Meets x (s.act x).peers := by
  have hidle : SamePeers s s := ⟨rfl, rfl⟩
  cases x with
  | see peer now =>
    unfold act
    dsimp only
    split
    · exact hidle.meets _
    · exact ⟨own_discover s peer now, discover_meets .see⟩
  | endDial connection a =>
    unfold act
    dsimp only
    split
    · exact hidle.meets _
    · exact (endDial_samePeers s connection a).meets _
  | handle e =>
    unfold act step
    dsimp only
    split
    · cases e with
      | submit c => exact (submit_samePeers s c).meets _
      | finished run result => exact (finish_samePeers s run result).meets _
      | handOver run => exact (handOver_samePeers s run).meets _
      | _ => exact hidle.meets _
    · cases e with
      | submit c => exact (submit_samePeers s c).meets _
      | take refusal => exact (take_samePeers s refusal).meets _
      | opened => exact ⟨rfl, .same⟩
      | established connection peer now =>
        have hdial := endDial_samePeers (s.discover peer now) connection (.connected peer)
        refine ⟨hdial.own.trans (own_discover s peer now), ?_⟩
        exact hdial.peers ▸ discover_meets (.handle .established)
      | dialFailed connection reason => exact (endDial_samePeers s connection _).meets _
      | sighted peer now => exact ⟨own_discover s peer now, discover_meets (.handle .sighted)⟩
      | answered request r => exact (endRequest_samePeers s request _).meets _
      | requestFailed request reason => exact (endRequest_samePeers s request _).meets _
      | received peer i => exact ⟨rfl, .same⟩
      | finished run result => exact (finish_samePeers s run result).meets _
      | handOver run => exact (handOver_samePeers s run).meets _
      | drain => exact (drain_samePeers s).meets _
      | prune now => exact ⟨rfl, .pruned⟩
      | explore known => exact hidle.meets _

theorem mem_peers_insert {ps : PeerSet} (h : q ∈ (ps.insert p now).peers) :
    q = p ∨ q ∈ ps.peers := by
  rw [PeerSet.peers_insert] at h
  rcases List.mem_cons.1 (List.mem_of_mem_take h) with rfl | hq
  · exact .inl rfl
  · exact .inr (List.mem_of_mem_filter hq)

theorem mem_peers_prune {ps : PeerSet} {ttl : Time} (h : q ∈ (ps.prune ttl now).peers) :
    q ∈ ps.peers :=
  (List.filter_sublist.map _).subset h

/-- The peer just seen stands first. -/
theorem head?_insert (ps : PeerSet) (p : PeerId) (now : Time) :
    (ps.insert p now).peers.head? = some p := by
  obtain ⟨k, hk⟩ := Nat.exists_eq_succ_of_ne_zero ps.capacity_pos.ne'
  rw [PeerSet.peers_insert, hk, List.take_succ_cons, List.head?_cons]

theorem Known.meets {ps : PeerSet} (h : Known own n s) (hm : s.Meets x ps) :
    Known own n { s with peers := ps } := by
  cases hm with
  | same => exact h
  | pruned =>
    exact ⟨h.own_eq, fun hmem => h.stranger (mem_peers_prune hmem), PeerSet.nodup_prune h.nodup _ _,
      h.capacity, (PeerSet.size_prune_le _ _ _).trans h.room⟩
  | met hx hne =>
    refine ⟨h.own_eq, fun hmem => ?_, PeerSet.nodup_insert h.nodup _ _, h.capacity,
      h.capacity ▸ PeerSet.size_insert_le _ _ _⟩
    rcases mem_peers_insert hmem with heq | hmem
    · exact hne (h.own_eq.trans heq).symm
    · exact h.stranger hmem

theorem Known.act (h : Known own n s) (x : Act) : Known own n (s.act x) := by
  obtain ⟨hown, hmeets⟩ := act_meets s x
  have hkept := h.meets hmeets
  exact ⟨hown.trans h.own_eq, hkept.stranger, hkept.nodup, hkept.capacity, hkept.room⟩

/-- **What holds of the known peers holds between any two acts.** -/
theorem known_foldl (h : Known own n s) (acts : List Act) : Known own n (acts.foldl act s) := by
  induction acts generalizing s with
  | nil => exact h
  | cons x acts ih => exact ih (h.act x)

theorem known_run (own : PeerId) (ttl : Time) (n : Nat) (events : List Event) :
    Known own n ((fresh own ttl n).run events) := by
  rw [← foldl_flatMap_acts]
  have hfresh : Known own n (fresh own ttl n) :=
    ⟨rfl, List.not_mem_nil, List.nodup_nil, rfl, Nat.zero_le _⟩
  exact known_foldl hfresh _

/-- Whoever becomes known along some acts has been seen in one of them. -/
theorem sees_of_mem_foldl {acts : List Act} (h : p ∈ (acts.foldl act s).peers.peers) :
    p ∈ s.peers.peers ∨ ∃ x ∈ acts, ∃ now, x.Sees p now := by
  induction acts generalizing s with
  | nil => exact .inl h
  | cons x acts ih =>
    rcases ih h with hmem | ⟨y, hy, now, hsees⟩
    · have hmeets := (act_meets s x).2
      generalize (s.act x).peers = ps at hmem hmeets
      cases hmeets with
      | same => exact .inl hmem
      | pruned => exact .inl (mem_peers_prune hmem)
      | @met peer now hx hne =>
        rcases mem_peers_insert hmem with rfl | hmem
        · exact .inr ⟨x, List.mem_cons_self, now, hx⟩
        · exact .inl hmem
    · exact .inr ⟨y, List.mem_cons_of_mem _ hy, now, hsees⟩

/-! ## Answers and peers -/

/-- Three kinds of inputs: those that only see peers, connections, and those handled in one act
that is no connection. -/
theorem Input.acts_cases (i : Input) :
    (∀ x ∈ i.acts, ∃ p now, x = .see p now) ∨
      (∃ connection p now, i = .notice (.connected connection p now)) ∨
        ∃ e, i.acts = [.handle e] ∧ ∀ connection p now, e ≠ .established connection p now := by
  cases i with
  | notice notice =>
    cases notice with
    | connected connection p now => exact .inr (.inl ⟨connection, p, now, rfl⟩)
    | identified p now => exact .inl fun x hx => ⟨p, now, List.mem_singleton.1 hx⟩
    | routed p now => exact .inl fun x hx => ⟨p, now, List.mem_singleton.1 hx⟩
    | announced found =>
      refine .inl fun x hx => ?_
      obtain ⟨e, he, hx⟩ := List.mem_flatMap.1 hx
      obtain ⟨e, -, rfl⟩ := List.mem_map.1 he
      exact ⟨e.peer, e.seen, List.mem_singleton.1 hx⟩
    | unreachable | received | answered | requestFailed => exact .inr (.inr ⟨_, rfl, nofun⟩)
    | disconnected | withdrawn | gossip | unanswerable | other => exact .inl nofun
  | _ => exact .inr (.inr ⟨_, rfl, nofun⟩)

theorem answer?_eq_of_answers {s' : Loop} (h : s'.answers = s.answers) (t : Nat) :
    s'.answer? t = s.answer? t :=
  congrArg (List.lookup t) h

theorem answers_see (s : Loop) (p : PeerId) (now : Time) :
    (s.act (.see p now)).answers = s.answers := by
  unfold act
  dsimp only
  split
  · rfl
  · exact congrArg Desk.answers (desk_discover s p now)

theorem answers_foldl_see {acts : List Act} (h : ∀ x ∈ acts, ∃ p now, x = .see p now) :
    (acts.foldl act s).answers = s.answers := by
  induction acts generalizing s with
  | nil => rfl
  | cons x acts ih =>
    obtain ⟨p, now, rfl⟩ := h x List.mem_cons_self
    exact (ih fun y hy => h y (List.mem_cons_of_mem _ hy)).trans (answers_see s p now)

/-- Ending a dial answers nothing else. -/
theorem answer?_endDial {connection : Nat} {a b : Answer}
    (h : (s.endDial connection a).answer? t = some b) : s.answer? t = some b ∨ b = a := by
  unfold endDial at h
  split at h
  · rename_i ticket hd
    simp only [answer?, answer, List.lookup_cons] at h
    split at h
    · exact .inr (Option.some.inj h).symm
    · exact .inl h
  · exact .inl h

theorem Desk.Cause.established {d : Desk} {c : Command} (h : d.Cause e t c (.connected p)) :
    ∃ connection now, e = .established connection p now := by
  cases h with
  | taken hq ha => cases ha
  | dial hd he =>
    cases he
    exact ⟨_, _, rfl⟩
  | ask hr he => cases he

/-- On a connection the peer is seen first, then the dial is answered. -/
theorem head?_of_connected {connection : Nat} {part : List Act} (hown : q ≠ s.own)
    (hpart : part <+: [.see p now, .endDial connection (.connected p)])
    (ht : (part.foldl act s).answer? t = some (.connected q))
    (hs : s.answer? t ≠ some (.connected q)) :
    (part.foldl act s).peers.peers.head? = some q := by
  have hsee : (s.act (.see p now)).answer? t = s.answer? t :=
    answer?_eq_of_answers (answers_see s p now) t
  rcases List.prefix_cons_iff.1 hpart with rfl | ⟨rest, rfl, hrest⟩
  · exact absurd ht hs
  rcases List.prefix_cons_iff.1 hrest with rfl | ⟨last, rfl, hlast⟩
  · exact absurd (hsee.symm.trans ht) hs
  obtain rfl := List.prefix_nil.1 hlast
  simp only [List.foldl_cons, List.foldl_nil] at ht ⊢
  cases hrun : s.stopped with
  | true =>
    simp only [act, hrun, if_true] at ht
    exact absurd ht hs
  | false =>
    have hmet : s.act (.see p now) = s.discover p now := by simp [act, hrun]
    have hstill : (s.discover p now).stopped = false :=
      (congrArg Desk.stopped (desk_discover s p now)).trans hrun
    have hend : (s.discover p now).act (.endDial connection (.connected p)) =
        (s.discover p now).endDial connection (.connected p) := by simp [act, hstill]
    rw [hmet] at hsee
    rw [hmet, hend] at ht ⊢
    rcases answer?_endDial ht with hold | heq
    · exact absurd (hsee.symm.trans hold) hs
    · cases heq
      rw [(endDial_samePeers _ _ _).peers, discover, if_neg hown]
      exact head?_insert s.peers _ now

/-- **Whoever is told of a connection finds the peer known.** However notices, commands and
prunings follow each other, and whenever callers look: the node does not know itself, knows
nobody twice, and no more peers than it has room for. A peer becomes known only by a notice that
introduces it. And when the answer to a dial has just come in and names another peer than the node
itself, that peer is the one most recently seen. -/
theorem discovery_spec (own : PeerId) (ttl : Time) (n : Nat) (before : List Input) (i : Input) :
    let s := (fresh own ttl n).run (before.flatMap Input.events)
    i.acts.foldl act s = (fresh own ttl n).run ((before ++ [i]).flatMap Input.events) ∧
    ∀ part, part <+: i.acts →
      let u := part.foldl act s
      own ∉ u.peers.peers ∧ u.peers.peers.Nodup ∧ u.peers.size ≤ max n 1 ∧
      (∀ p ∈ u.peers.peers, p ∈ s.peers.peers ∨ i.Introduces p) ∧
      ∀ t p, u.answer? t = some (.connected p) → s.answer? t ≠ some (.connected p) → p ≠ own →
        u.peers.peers.head? = some p := by
  intro s
  have hs : Known own n s := known_run own ttl n _
  refine ⟨?_, fun part hpart => ?_⟩
  · rw [List.flatMap_append, List.flatMap_singleton, run, List.foldl_append]
    exact foldl_flatMap_acts s i.events
  intro u
  have hu : Known own n u := known_foldl hs part
  refine ⟨hu.stranger, hu.nodup, hu.room, fun p hp => ?_, fun t p ht hnew hne => ?_⟩
  · rcases sees_of_mem_foldl hp with hp | ⟨x, hx, now, hsees⟩
    · exact .inl hp
    · exact .inr (Input.introduces_of_sees (hpart.subset hx) hsees)
  rcases i.acts_cases with hsee | ⟨connection, q, now, rfl⟩ | ⟨e, hacts, he⟩
  · have hanswers := answers_foldl_see (s := s) fun x hx => hsee x (hpart.subset hx)
    exact absurd ((answer?_eq_of_answers hanswers t).symm.trans ht) hnew
  · exact head?_of_connected (hs.own_eq ▸ hne) hpart ht hnew
  · rw [hacts] at hpart
    rcases List.prefix_cons_iff.1 hpart with rfl | ⟨rest, rfl, hrest⟩
    · exact absurd ht hnew
    obtain rfl := List.prefix_nil.1 hrest
    have hinv := inv_run own ttl n (before.flatMap Input.events)
    have hmove := step_move hinv e
    have ht := (answer?_eq_some_iff (hmove.inv hinv)).1 ht
    rcases (hmove.mem_answers hinv).1 ht with hold | ⟨c, -, hcause⟩
    · exact absurd ((answer?_eq_some_iff hinv).2 hold) hnew
    · obtain ⟨connection, now, rfl⟩ := hcause.established
      exact absurd rfl (he connection p now)

/-- A dial that is answered, and what the caller then finds. -/
theorem discovery_spec_dialed :
    let before : List Input := [.submit (.dial ⟨[]⟩), .take none]
    let s := (fresh ⟨.sha256, [0]⟩ 60 2).run (before.flatMap Input.events)
    let i : Input := .notice (.connected 0 ⟨.sha256, [1]⟩ 5)
    i.acts <+: i.acts ∧ (i.acts.foldl act s).answer? 0 = some (.connected ⟨.sha256, [1]⟩) ∧
      s.answer? 0 ≠ some (.connected ⟨.sha256, [1]⟩) ∧
      (i.acts.foldl act s).peers.peers.head? = some ⟨.sha256, [1]⟩ := by
  intro before s i
  have ht : (i.acts.foldl act s).answer? 0 = some (.connected ⟨.sha256, [1]⟩) := rfl
  have hs : s.answer? 0 ≠ some (.connected ⟨.sha256, [1]⟩) := nofun
  have hspec := (discovery_spec ⟨.sha256, [0]⟩ 60 2 before i).2 i.acts (List.prefix_refl _)
  exact ⟨List.prefix_refl _, ht, hs, hspec.2.2.2.2 0 _ ht hs (by decide)⟩

end Loop

end Quorum
