import Mathlib
import Quorum.Proofs.Json.Equality
import Quorum.Proofs.Json.Reading
import Quorum.Proofs.Vote.Decision

/-!
# The groups of a vote as classes of values

Ballots are grouped by text, and equal text of valid values means equal content down to the
signs of the zeros (`Json.render_eq_iff`). So the groups are the classes of that relation
(`groups_classes`), and they are finer than equality of the values as numbers: two peers that
answer zero with opposite signs do not agree (`zeros_apart`).
-/

namespace Quorum.Vote

variable {ballots : List Ballot} {gs : List Group} {g : Group}

theorem Grouped.valid (h : Grouped ballots gs) (hvalid : ∀ b ∈ ballots, b.output.Valid)
    (hg : g ∈ gs) : g.output.Valid := by
  obtain ⟨b, hb, hout, -⟩ := h.output g hg
  exact hout ▸ hvalid b hb

/-- A ballot gave the text of a group exactly when it is of the class of its output. -/
theorem Grouped.text_eq_iff (h : Grouped ballots gs) (hvalid : ∀ b ∈ ballots, b.output.Valid)
    (hg : g ∈ gs) {b : Ballot} (hb : b ∈ ballots) :
    b.output.render = g.text ↔ b.output.same g.output = true := by
  have htext : g.output.render = g.text := by
    obtain ⟨c, -, hout, htext⟩ := h.output g hg
    rw [← hout, htext]
  rw [← htext, Json.render_eq_iff (hvalid b hb) (h.valid hvalid hg)]

/-- No two groups share a text. -/
theorem Grouped.eq_of_text (h : Grouped ballots gs) {g' : Group} (hg : g ∈ gs) (hg' : g' ∈ gs)
    (ht : g.text = g'.text) : g = g' := by
  have hnodup : (gs.map Group.text).Nodup := List.pairwise_map.2 (h.sorted.imp ne_of_lt)
  exact List.inj_on_of_nodup_map hnodup hg hg' ht

theorem Grouped.peers_class (h : Grouped ballots gs) (hvalid : ∀ b ∈ ballots, b.output.Valid)
    (hg : g ∈ gs) :
    g.peers = (ballots.filter fun b => b.output.same g.output).map Ballot.peer := by
  rw [h.peers g hg, voters]
  refine congrArg (List.map Ballot.peer) (List.filter_congr fun b hb => ?_)
  rw [Bool.eq_iff_iff, decide_eq_true_eq]
  exact h.text_eq_iff hvalid hg hb

theorem Grouped.exists_unique_class (h : Grouped ballots gs)
    (hvalid : ∀ b ∈ ballots, b.output.Valid) {b : Ballot} (hb : b ∈ ballots) :
    ∃! g, g ∈ gs ∧ b.output.same g.output = true := by
  obtain ⟨g, hg, ht⟩ := List.mem_map.1 (h.covers b hb)
  refine ⟨g, ⟨hg, (h.text_eq_iff hvalid hg hb).1 ht.symm⟩, ?_⟩
  rintro g' ⟨hg', hs⟩
  exact h.eq_of_text hg' hg (((h.text_eq_iff hvalid hg' hb).2 hs).symm.trans ht.symm)

theorem support_class (hvalid : ∀ b ∈ ballots, b.output.Valid) {v : Json} (hv : v.Valid) :
    support ballots v.render = ballots.countP fun b => b.output.same v := by
  refine List.countP_congr fun b hb => ?_
  rw [decide_eq_true_eq, Json.render_eq_iff (hvalid b hb) hv]

/-- **The groups of a vote are the classes of its values** by content down to the signs of the
zeros: two ballots share a group exactly when their values are equal by content and their zeros
have the same signs. What is read from a text is a value that this holds for. -/
theorem groups_classes (ballots : List Ballot) (hvalid : ∀ b ∈ ballots, b.output.Valid) :
    (∀ g ∈ groups ballots,
      g.peers = (ballots.filter fun b => b.output.same g.output).map Ballot.peer) ∧
    (∀ b ∈ ballots, ∃! g, g ∈ groups ballots ∧ b.output.same g.output = true) ∧
    (∀ b ∈ ballots, ∀ c ∈ ballots,
      (∃ g ∈ groups ballots, b.output.same g.output = true ∧ c.output.same g.output = true) ↔
        b.output.eqv c.output = true ∧ b.output.zeroSigns = c.output.zeroSigns) ∧
    (∀ p queried o, Policy.decide p ballots queried = .ok o →
      o.agreeing = ballots.countP fun b => b.output.same o.result) ∧
    ∀ s v, Json.read s = .ok v → v.Valid := by
  have h := groups_grouped ballots
  refine ⟨fun g hg => h.peers_class hvalid hg, fun b hb => h.exists_unique_class hvalid hb,
    fun b hb c hc => ?_, fun p queried o ho => ?_, fun s v => Json.valid_of_read⟩
  · rw [← beq_iff_eq (a := b.output.zeroSigns), ← Bool.and_eq_true]
    change _ ↔ b.output.same c.output = true
    constructor
    · rintro ⟨g, hg, hbg, hcg⟩
      rw [Json.eq_iff (hvalid b hb) (h.valid hvalid hg)] at hbg
      rw [Json.eq_iff (hvalid c hc) (h.valid hvalid hg)] at hcg
      rw [Json.eq_iff (hvalid b hb) (hvalid c hc), hbg, hcg]
    · intro hbc
      obtain ⟨g, ⟨hg, hcg⟩, -⟩ := h.exists_unique_class hvalid hc
      rw [Json.eq_iff (hvalid b hb) (hvalid c hc)] at hbc
      exact ⟨g, hg, hbc ▸ hcg, hcg⟩
  · have hverdict := decide_verdict p queried hvalid
    rw [ho] at hverdict
    cases hverdict with
    | elected _ _ _ hel =>
      obtain ⟨b, hb, hout⟩ := hel.result.given
      rw [hel.agreeing, ← hel.result.most, support_class hvalid (hout ▸ hvalid b hb)]

/-- Two peers that answer zero with opposite signs, and one that answers something else. -/
def oppositeZeros : List Ballot :=
  [⟨⟨.sha256, [1]⟩, .double (Double.ofMagnitude false 0)⟩,
    ⟨⟨.sha256, [2]⟩, .double (Double.ofMagnitude true 0)⟩, ⟨⟨.sha256, [3]⟩, .bool true⟩]

theorem groups_classes_oppositeZeros :
    (∀ b ∈ oppositeZeros, b.output.Valid) ∧
      ∀ g ∈ groups oppositeZeros,
        g.peers = (oppositeZeros.filter fun b => b.output.same g.output).map Ballot.peer := by
  have hvalid : ∀ b ∈ oppositeZeros, b.output.Valid := by
    intro b hb
    simp only [oppositeZeros, List.mem_cons, List.not_mem_nil, or_false] at hb
    rcases hb with rfl | rfl | rfl
    · exact Json.valid_zero false
    · exact Json.valid_zero true
    · trivial
  exact ⟨hvalid, (groups_classes oppositeZeros hvalid).1⟩

/-- The two zeros are read from texts and equal by content, yet the peers that answer them form
two groups, so that the largest group is one of three and not two of three. -/
theorem zeros_apart :
    (Json.read (Utf8.encode "0.0") = .ok (.double (Double.ofMagnitude false 0)) ∧
      Json.read (Utf8.encode "-0.0") = .ok (.double (Double.ofMagnitude true 0))) ∧
    (Json.double (Double.ofMagnitude false 0)).eqv (.double (Double.ofMagnitude true 0)) = true ∧
    (groups oppositeZeros).map (·.peers.length) = [1, 1, 1] ∧
    Policy.decide ⟨1, Double.ofNat 1⟩ oppositeZeros 3 =
      .error (.noConsensus 1 3 (Double.ofNat 1)) := by
  refine ⟨⟨?_, ?_⟩, rfl, rfl, rfl⟩
  · cbv
  · cbv

end Quorum.Vote
