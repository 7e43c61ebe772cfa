import Mathlib
import Quorum.Proofs.Network.Sync

/-!
# Which peer an address goes by

An address leads to the peer at its end (`target?_eq_some_iff`). But it goes by the first id in it
(`peer?_eq_some_iff`), and that need not be the same one. The two agree on a direct address, which
names nobody before its end; on an address that passes a peer they do not, unless it comes back to
that peer (`peer?_eq_target?_iff`). `naming_spec` says what follows for syncs and for the routes
that a node starts with, and `relayed_misnamed` is an address that is never dialed while its relay
is known.
-/

namespace Quorum

variable {σ : Type} {a : Multiaddr} {p r : PeerId}

theorem Component.peer?_eq_some_iff {c : Component} : c.peer? = some p ↔ c = .peer p := by
  cases c <;> simp [Component.peer?]

namespace Multiaddr

/-- No peer is named before the end. -/
def Direct (a : Multiaddr) : Prop := ∀ c ∈ a.components.dropLast, c.peer? = none

/-- The first peer named is `r`, and the address goes on behind it. -/
def Passes (a : Multiaddr) (r : PeerId) : Prop :=
  ∃ front rest, a.components = front ++ .peer r :: rest ∧ rest ≠ [] ∧ ∀ c ∈ front, c.peer? = none

/-! ## The first id and the last -/

theorem target?_eq_some_iff :
    a.target? = some p ↔ ∃ front, a.components = front ++ [.peer p] := by
  unfold target?
  rw [Option.bind_eq_some_iff]
  constructor
  · rintro ⟨c, hlast, hc⟩
    obtain rfl := Component.peer?_eq_some_iff.1 hc
    exact List.getLast?_eq_some_iff.1 hlast
  · rintro ⟨front, hfront⟩
    exact ⟨.peer p, List.getLast?_eq_some_iff.2 ⟨front, hfront⟩, rfl⟩

theorem peer?_eq_some_iff : a.peer? = some p ↔
    ∃ front rest, a.components = front ++ .peer p :: rest ∧ ∀ c ∈ front, c.peer? = none := by
  unfold peer?
  rw [List.findSome?_eq_some_iff]
  constructor
  · rintro ⟨front, c, rest, heq, hc, hfront⟩
    rw [Component.peer?_eq_some_iff] at hc
    exact ⟨front, rest, hc ▸ heq, hfront⟩
  · rintro ⟨front, rest, heq, hfront⟩
    exact ⟨front, .peer p, rest, heq, rfl, hfront⟩

theorem Passes.peer?_eq (h : a.Passes r) : a.peer? = some r := by
  obtain ⟨front, rest, heq, -, hfront⟩ := h
  exact peer?_eq_some_iff.2 ⟨front, rest, heq, hfront⟩

theorem Direct.not_passes (h : a.Direct) (r : PeerId) : ¬ a.Passes r := by
  rintro ⟨front, rest, heq, hrest, -⟩
  have hmem : Component.peer r ∈ a.components.dropLast := by
    rw [heq, List.dropLast_append_of_ne_nil (List.cons_ne_nil _ _),
      List.dropLast_cons_of_ne_nil hrest]
    simp
  cases h _ hmem

/-- On a direct address the search for an id comes to the end, if to any component. -/
theorem Direct.peer?_eq (h : a.Direct) : a.peer? = a.target? := by
  unfold peer? target?
  rcases List.eq_nil_or_concat' a.components with hnil | ⟨front, c, heq⟩
  · rw [hnil]
    rfl
  · have hfront : ∀ c ∈ front, c.peer? = none := by
      intro c hc
      exact h c (by rw [heq, List.dropLast_concat]; exact hc)
    rw [heq, List.findSome?_append, List.findSome?_eq_none_iff.2 hfront, List.getLast?_concat,
      Option.none_or, List.findSome?_singleton, Option.bind_some]

/-- The address is direct, or somebody is named first and not at the end. -/
theorem direct_or_passes (a : Multiaddr) : a.Direct ∨ ∃ r, a.Passes r := by
  by_cases h : a.Direct
  · exact .inl h
  refine .inr ?_
  unfold Direct at h
  push Not at h
  obtain ⟨c, hc, hid⟩ := h
  obtain ⟨r, hr⟩ : ∃ r, a.components.dropLast.findSome? Component.peer? = some r := by
    rw [← Option.isSome_iff_exists, List.findSome?_isSome_iff]
    exact ⟨c, hc, Option.isSome_iff_ne_none.2 hid⟩
  obtain ⟨front, d, rest, heq, hd, hfront⟩ := List.findSome?_eq_some_iff.1 hr
  rw [Component.peer?_eq_some_iff] at hd
  have hne : a.components ≠ [] := by
    rintro hnil
    rw [hnil] at hc
    cases hc
  refine ⟨r, front, rest ++ [a.components.getLast hne], ?_, by simp, hfront⟩
  conv_lhs => rw [← List.dropLast_concat_getLast hne, heq, hd]
  rw [List.append_assoc, List.cons_append]

/-- **The id that an address goes by is the one it leads to** on direct addresses, and on those that
come back to the first peer that they pass. -/
theorem peer?_eq_target?_iff :
    a.peer? = a.target? ↔ a.Direct ∨ ∃ r, a.Passes r ∧ a.target? = some r := by
  constructor
  · intro h
    refine (direct_or_passes a).imp_right ?_
    rintro ⟨r, hr⟩
    exact ⟨r, hr, h ▸ hr.peer?_eq⟩
  · rintro (h | ⟨r, hr, htarget⟩)
    · exact h.peer?_eq
    · rw [hr.peer?_eq, htarget]

/-! ## Syncs and routes -/

/-- What a sync dials is decided by the id that an address goes by. -/
theorem dial_mem_sync {m : Manager} (t : Transport σ) (s : σ) (ha : a ∈ m.bootstrap) :
    .dial a ∈ (m.sync t s).calls ↔ ∀ p, a.peer? = some p → p ∉ t.peers s := by
  rw [(Dialing.sync_eq m t s).1, List.mem_map]
  simp only [List.mem_filter, Manager.Call.dial.injEq, exists_eq_right, ha, true_and]
  cases a.peer? with
  | none => simp
  | some p => simp

theorem mem_seeds {bootstrap : List Multiaddr} :
    (p, a) ∈ Dialing.seeds bootstrap ↔ a ∈ bootstrap ∧ a.peer? = some p := by
  simp [Dialing.seeds]

/-- **An address leads to the peer at its end, but goes by the first one in it.** On a direct
address the two are one: a sync leaves such a bootstrap node out exactly if the peer that it leads
to is known, and its route is given under that peer's id. An address that passes a peer goes by that
peer, whoever is at its end: it is left out exactly if the peer that it passes is known, and its
route is given under the id of that peer and no other. -/
theorem naming_spec (a : Multiaddr) (m : Manager) (t : Transport σ) (s : σ) :
    let known := t.peers s
    let dialed := Manager.Call.dial a ∈ (m.sync t s).calls
    let routes := Dialing.seeds m.bootstrap
    (∀ p, a.peer? = some p ↔
      ∃ front rest, a.components = front ++ .peer p :: rest ∧ ∀ c ∈ front, c.peer? = none) ∧
    (∀ p, a.target? = some p ↔ ∃ front, a.components = front ++ [.peer p]) ∧
    (a.peer? = a.target? ↔ a.Direct ∨ ∃ r, a.Passes r ∧ a.target? = some r) ∧
    (a.Direct ↔ ∀ r, ¬ a.Passes r) ∧
    (a ∈ m.bootstrap → a.Direct →
      (dialed ↔ ∀ p, a.target? = some p → p ∉ known) ∧
        ∀ p, (p, a) ∈ routes ↔ a.target? = some p) ∧
    ∀ r, a ∈ m.bootstrap → a.Passes r →
      (dialed ↔ r ∉ known) ∧ ∀ p, (p, a) ∈ routes ↔ p = r := by
  intro known dialed routes
  refine ⟨fun p => peer?_eq_some_iff, fun p => target?_eq_some_iff, peer?_eq_target?_iff, ?_, ?_,
    ?_⟩
  · constructor
    · exact Direct.not_passes
    · intro h
      apply (direct_or_passes a).resolve_right
      rintro ⟨r, hr⟩
      exact h r hr
  · intro ha hdirect
    have hname : a.peer? = a.target? := hdirect.peer?_eq
    constructor
    · rw [← hname]
      exact dial_mem_sync t s ha
    · intro p
      rw [← hname]
      exact mem_seeds.trans (and_iff_right ha)
  · intro r ha hr
    have hname : a.peer? = some r := hr.peer?_eq
    constructor
    · apply (dial_mem_sync t s ha).trans
      simp [hname, known]
    · intro p
      apply mem_seeds.trans
      rw [hname, and_iff_right ha, Option.some.injEq, eq_comm]

/-- A bootstrap node behind a relay. -/
def relayed (relay far : PeerId) : Multiaddr :=
  ⟨[.ip (.v4 [10, 0, 0, 1]), .number .tcp 4001, .peer relay, .bare .p2pCircuit, .peer far]⟩

/-- While the relay is known, the node behind it is not dialed, and a node that has its own address
is. -/
theorem naming_spec_relayed :
    let peer (n : UInt8) : PeerId := ⟨.sha256, [n]⟩
    let straight : Multiaddr := ⟨[.ip (.v4 [10, 0, 0, 1]), .number .tcp 4001, .peer (peer 2)]⟩
    let detour := relayed (peer 1) (peer 2)
    let m := Dialing.patient [straight, detour]
    let script : Script := ⟨[], []⟩
    let s := (PeerSet.empty 3).insert (peer 1) 0
    straight.Direct ∧ detour.Passes (peer 1) ∧
      .dial straight ∈ (m.sync (script.transport 7) s).calls ∧
      .dial detour ∉ (m.sync (script.transport 7) s).calls := by
  intro peer straight detour m script s
  have hdirect : straight.Direct := by unfold Direct; decide
  have hpasses : detour.Passes (peer 1) :=
    ⟨[.ip (.v4 [10, 0, 0, 1]), .number .tcp 4001], [.bare .p2pCircuit, .peer (peer 2)], rfl,
      by decide, by decide⟩
  obtain ⟨-, -, -, -, hstraight, -⟩ := naming_spec straight m (script.transport 7) s
  obtain ⟨-, -, -, -, -, hdetour⟩ := naming_spec detour m (script.transport 7) s
  refine ⟨hdirect, hpasses, (hstraight (by decide) hdirect).1.2 ?_, fun h => ?_⟩
  · intro p hp
    obtain rfl : peer 2 = p := Option.some.inj hp
    decide
  · exact (hdetour (peer 1) (by decide) hpasses).1.1 h (by decide)

/-- **The peer at the end of an address is unknown, and the address is not dialed**: it goes by its
relay, in syncs and among the routes. -/
theorem relayed_misnamed :
    let peer (n : UInt8) : PeerId := ⟨.sha256, [n]⟩
    let detour := relayed (peer 1) (peer 2)
    let script : Script := ⟨[], []⟩
    let s := (PeerSet.empty 3).insert (peer 1) 0
    detour.components.getLast? = some (.peer (peer 2)) ∧ detour.peer? = some (peer 1) ∧
      peer 2 ∉ (script.transport 7).peers s ∧
      ((Dialing.patient [detour]).sync (script.transport 7) s).calls = [] ∧
      Dialing.seeds [detour] = [(peer 1, detour)] := by
  refine ⟨rfl, rfl, by decide, ?_, rfl⟩
  rw [(Dialing.sync_eq _ _ _).1]
  decide

end Multiaddr

end Quorum
