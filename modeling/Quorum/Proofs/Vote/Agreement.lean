import Mathlib
import Quorum.Proofs.Vote.Decision

/-!
# Agreement of two votes

Two votes may be held by different nodes, with different policies and over different ballots.
Where they come to different results, a peer that both of them count as agreeing gave them
different answers (`inter_agreeing_subset`). Counting then bounds the two groups together by the
peers that answered and those that changed their answer (`agreeing_add_le`), so large enough
groups force one result (`agreement_spec`).
-/

namespace Quorum.Vote

/-- The peers that cast a ballot. -/
def responders (ballots : List Ballot) : Finset PeerId := (ballots.map Ballot.peer).toFinset

/-- The peers that cast a ballot in both votes, but not for the same value. -/
def changed (ballots ballots' : List Ballot) : Finset PeerId :=
  ((ballots.filter fun b => ballots'.any fun c =>
    c.peer == b.peer && c.output.render != b.output.render).map Ballot.peer).toFinset

theorem mem_changed {ballots ballots' : List Ballot} {p : PeerId} :
    p ∈ changed ballots ballots' ↔ ∃ b ∈ ballots, ∃ c ∈ ballots',
      b.peer = p ∧ c.peer = p ∧ b.output.render ≠ c.output.render := by
  simp only [changed, List.mem_toFinset, List.mem_map, List.mem_filter, List.any_eq_true,
    Bool.and_eq_true, beq_iff_eq, bne_iff_ne]
  constructor
  · rintro ⟨b, ⟨hb, c, hc, hpeer, hne⟩, rfl⟩
    exact ⟨b, hb, c, hc, rfl, hpeer, hne.symm⟩
  · rintro ⟨b, hb, c, hc, rfl, hpeer, hne⟩
    exact ⟨b, ⟨hb, c, hc, hpeer, hne.symm⟩, rfl⟩

/-! ## The agreeing peers of one vote -/

variable {ballots ballots' : List Ballot} {queried queried' : Nat} {o o' : Outcome}

theorem Elected.mem_agreeingPeers (h : Elected ballots queried o) {p : PeerId} :
    p ∈ o.agreeingPeers ↔ ∃ b ∈ ballots, b.output = o.result ∧ b.peer = p := by
  classical
  rw [h.peers.mem_iff, backers, List.mem_map]
  simp only [List.mem_filter, decide_eq_true_eq, and_assoc]

theorem Elected.agreeing_eq_length (hvalid : ∀ b ∈ ballots, b.output.Valid)
    (h : Elected ballots queried o) : o.agreeing = o.agreeingPeers.length := by
  obtain ⟨b, hb, hout⟩ := h.result.given
  rw [h.agreeing, h.peers.length_eq, backers_eq hvalid (hout ▸ hvalid b hb), length_voters,
    h.result.most]

theorem Elected.nodup (h : Elected ballots queried o) (hnodup : (ballots.map Ballot.peer).Nodup) :
    o.agreeingPeers.Nodup := by
  classical
  have hsub : (backers ballots o.result).Sublist (ballots.map Ballot.peer) :=
    List.filter_sublist.map _
  exact h.peers.nodup_iff.2 (hnodup.sublist hsub)

theorem Elected.card_agreeing (hvalid : ∀ b ∈ ballots, b.output.Valid)
    (h : Elected ballots queried o) (hnodup : (ballots.map Ballot.peer).Nodup) :
    o.agreeingPeers.toFinset.card = o.agreeing := by
  rw [List.toFinset_card_of_nodup (h.nodup hnodup), h.agreeing_eq_length hvalid]

theorem Elected.agreeing_subset (h : Elected ballots queried o) :
    o.agreeingPeers.toFinset ⊆ responders ballots := by
  intro p hp
  obtain ⟨b, hb, -, rfl⟩ := h.mem_agreeingPeers.1 (List.mem_toFinset.1 hp)
  exact List.mem_toFinset.2 (List.mem_map_of_mem hb)

/-! ## Two votes -/

/-- A peer that agrees with two results gave both of them. -/
theorem inter_agreeing_subset (h : Elected ballots queried o) (h' : Elected ballots' queried' o')
    (hne : o.result.render ≠ o'.result.render) :
    o.agreeingPeers.toFinset ∩ o'.agreeingPeers.toFinset ⊆ changed ballots ballots' := by
  intro p hp
  rw [Finset.mem_inter, List.mem_toFinset, List.mem_toFinset] at hp
  obtain ⟨b, hb, hout, hpeer⟩ := h.mem_agreeingPeers.1 hp.1
  obtain ⟨c, hc, hout', hpeer'⟩ := h'.mem_agreeingPeers.1 hp.2
  exact mem_changed.2 ⟨b, hb, c, hc, hpeer, hpeer', by rwa [hout, hout']⟩

/-- The groups of two votes with different results overlap only in peers that changed. -/
theorem agreeing_add_le (hvalid : ∀ b ∈ ballots, b.output.Valid)
    (hvalid' : ∀ b ∈ ballots', b.output.Valid) (hnodup : (ballots.map Ballot.peer).Nodup)
    (hnodup' : (ballots'.map Ballot.peer).Nodup) (h : Elected ballots queried o)
    (h' : Elected ballots' queried' o') (hne : o.result.render ≠ o'.result.render) :
    o.agreeing + o'.agreeing ≤
      (responders ballots ∪ responders ballots').card + (changed ballots ballots').card := by
  have hunion : (o.agreeingPeers.toFinset ∪ o'.agreeingPeers.toFinset).card ≤
      (responders ballots ∪ responders ballots').card :=
    Finset.card_le_card (Finset.union_subset_union h.agreeing_subset h'.agreeing_subset)
  have hinter : (o.agreeingPeers.toFinset ∩ o'.agreeingPeers.toFinset).card ≤
      (changed ballots ballots').card :=
    Finset.card_le_card (inter_agreeing_subset h h' hne)
  have hcount := Finset.card_union_add_card_inter o.agreeingPeers.toFinset
    o'.agreeingPeers.toFinset
  rw [h.card_agreeing hvalid hnodup, h'.card_agreeing hvalid' hnodup'] at hcount
  omega

theorem changed_eq_empty
    (hsame : ∀ b ∈ ballots, ∀ c ∈ ballots', b.peer = c.peer → b.output = c.output) :
    changed ballots ballots' = ∅ := by
  refine Finset.eq_empty_of_forall_notMem fun p hp => ?_
  obtain ⟨b, hb, c, hc, hpeer, hpeer', hne⟩ := mem_changed.1 hp
  exact hne (congrArg Json.render (hsame b hb c hc (hpeer.trans hpeer'.symm)))

/-- A peer with one ballot is counted for no other value than that of the ballot. -/
theorem Elected.output_eq (h : Elected ballots queried o)
    (hnodup : (ballots.map Ballot.peer).Nodup) {b : Ballot} (hb : b ∈ ballots)
    (hp : b.peer ∈ o.agreeingPeers) : b.output = o.result := by
  obtain ⟨c, hc, hout, hpeer⟩ := h.mem_agreeingPeers.1 hp
  rw [← hout, List.inj_on_of_nodup_map hnodup hb hc hpeer.symm]

/-- **Two votes that come to different results are told apart by peers that changed their
answer.** A peer that both count gave them different answers; if no peer did so, they count
different peers, no more than answered at all; and if both have the same responders and count
more of them than there are responders and changed answers, their results are the same. -/
theorem agreement_spec {p p' : Policy} (hvalid : ∀ b ∈ ballots, b.output.Valid)
    (hvalid' : ∀ b ∈ ballots', b.output.Valid) (hnodup : (ballots.map Ballot.peer).Nodup)
    (hnodup' : (ballots'.map Ballot.peer).Nodup) (hwon : p.decide ballots queried = .ok o)
    (hwon' : p'.decide ballots' queried' = .ok o') :
    (o.result.render ≠ o'.result.render →
      (∀ peer ∈ o.agreeingPeers, peer ∈ o'.agreeingPeers → peer ∈ changed ballots ballots' ∧
        ∀ b ∈ ballots, ∀ c ∈ ballots', b.peer = peer → c.peer = peer → b.output ≠ c.output) ∧
      ((∀ b ∈ ballots, ∀ c ∈ ballots', b.peer = c.peer → b.output = c.output) →
        o.agreeingPeers.Disjoint o'.agreeingPeers ∧
          o.agreeing + o'.agreeing ≤ (responders ballots ∪ responders ballots').card)) ∧
    (responders ballots = responders ballots' →
      (responders ballots).card + (changed ballots ballots').card < o.agreeing + o'.agreeing →
        o.result = o'.result) := by
  have h := (elected_of_decide hvalid hwon).2.2
  have h' := (elected_of_decide hvalid' hwon').2.2
  refine ⟨fun hne => ⟨fun peer hp hp' => ⟨?_, ?_⟩, fun hsame => ⟨?_, ?_⟩⟩, fun hresp hlt => ?_⟩
  · exact inter_agreeing_subset h h' hne
      (Finset.mem_inter.2 ⟨List.mem_toFinset.2 hp, List.mem_toFinset.2 hp'⟩)
  · rintro b hb c hc rfl hpeer hout
    rw [h.output_eq hnodup hb hp, h'.output_eq hnodup' hc (hpeer ▸ hp')] at hout
    exact hne (congrArg Json.render hout)
  · intro peer hp hp'
    have hmem := inter_agreeing_subset h h' hne
      (Finset.mem_inter.2 ⟨List.mem_toFinset.2 hp, List.mem_toFinset.2 hp'⟩)
    rw [changed_eq_empty hsame] at hmem
    exact Finset.notMem_empty _ hmem
  · have hle := agreeing_add_le hvalid hvalid' hnodup hnodup' h h' hne
    rwa [changed_eq_empty hsame, Finset.card_empty, Nat.add_zero] at hle
  · by_contra hdiff
    obtain ⟨b, hb, hout⟩ := h.result.given
    obtain ⟨c, hc, hout'⟩ := h'.result.given
    have hne : o.result.render ≠ o'.result.render := fun heq => hdiff
      (Json.render_injective (hout ▸ hvalid b hb) (hout' ▸ hvalid' c hc) heq)
    have hle := agreeing_add_le hvalid hvalid' hnodup hnodup' h h' hne
    rw [← hresp, Finset.union_self] at hle
    omega

/-- The voters of `majority` once more, one of which has another answer now. -/
def secondRound : List Ballot :=
  [⟨⟨.sha256, [3]⟩, .integer 7⟩, ⟨⟨.sha256, [2]⟩, .bool true⟩, ⟨⟨.sha256, [1]⟩, .bool true⟩]

theorem agreement_spec_secondRound :
    Policy.decide ⟨2, Double.zero⟩ majority 3 =
        .ok ⟨.integer 7, 2, 3, 3, [⟨.sha256, [1]⟩, ⟨.sha256, [3]⟩]⟩ ∧
      Policy.decide ⟨1, Double.zero⟩ secondRound 4 =
        .ok ⟨.bool true, 2, 3, 4, [⟨.sha256, [1]⟩, ⟨.sha256, [2]⟩]⟩ ∧
      (⟨.sha256, [1]⟩ : PeerId) ∈ changed majority secondRound := by
  have hshare : (share 2 3).lt Double.zero = false := rfl
  have hbest : winner? (groups majority) =
      some ⟨"7", .integer 7, [⟨.sha256, [1]⟩, ⟨.sha256, [3]⟩]⟩ := rfl
  have hbest' : winner? (groups secondRound) =
      some ⟨"true", .bool true, [⟨.sha256, [2]⟩, ⟨.sha256, [1]⟩]⟩ := rfl
  have hsort : [(⟨.sha256, [1]⟩ : PeerId), ⟨.sha256, [3]⟩].mergeSort PeerId.le =
      [⟨.sha256, [1]⟩, ⟨.sha256, [3]⟩] := by cbv
  have hsort' : [(⟨.sha256, [2]⟩ : PeerId), ⟨.sha256, [1]⟩].mergeSort PeerId.le =
      [⟨.sha256, [1]⟩, ⟨.sha256, [2]⟩] := by cbv
  have hwon : Policy.decide ⟨2, Double.zero⟩ majority 3 =
      .ok ⟨.integer 7, 2, 3, 3, [⟨.sha256, [1]⟩, ⟨.sha256, [3]⟩]⟩ := by
    simp [Policy.decide, hbest, hsort, hshare, show majority.length = 3 from rfl]
  have hwon' : Policy.decide ⟨1, Double.zero⟩ secondRound 4 =
      .ok ⟨.bool true, 2, 3, 4, [⟨.sha256, [1]⟩, ⟨.sha256, [2]⟩]⟩ := by
    simp [Policy.decide, hbest', hsort', hshare, show secondRound.length = 3 from rfl]
  have hvalid : ∀ b ∈ majority, b.output.Valid := by
    simp [majority, Json.Valid, Json.IntegerRange, UInt64.size]
  have hvalid' : ∀ b ∈ secondRound, b.output.Valid := by
    simp [secondRound, Json.Valid, Json.IntegerRange, UInt64.size]
  have hspec := agreement_spec hvalid hvalid' (by decide) (by decide) hwon hwon'
  exact ⟨hwon, hwon', ((hspec.1 (by decide)).1 ⟨.sha256, [1]⟩ (by decide) (by decide)).1⟩

end Quorum.Vote
