import Mathlib
import Quorum.Proofs.Json.Text
import Quorum.Proofs.Peer.Order
import Quorum.Proofs.Text.Order
import Quorum.Proofs.Vote.Groups

/-!
# What a vote decides

`Verdict` says what the answer to some ballots has to be, without groups: by the number of
ballots that gave one text, the largest such number and, where several texts reach it, the one
with the smallest bytes. Only one answer can be right (`Verdict.unique`), reordering the ballots
changes nothing about it (`Verdict.perm`), and `Policy.decide` gives it (`decide_spec`).
-/

namespace Quorum.Vote

/-! ## Support -/

/-- The number of ballots that gave a text. -/
def support (ballots : List Ballot) (text : String) : Nat :=
  ballots.countP fun b => b.output.render = text

/-- The largest number of ballots that gave one text. -/
def topSupport (ballots : List Ballot) : Nat :=
  (ballots.map fun b => support ballots b.output.render).foldr max 0

theorem length_voters (ballots : List Ballot) (text : String) :
    (voters ballots text).length = support ballots text := by
  rw [voters, List.length_map, support, List.countP_eq_length_filter]

theorem support_perm {ballots ballots' : List Ballot} (h : ballots.Perm ballots')
    (text : String) : support ballots text = support ballots' text :=
  h.countP_eq _

theorem topSupport_perm {ballots ballots' : List Ballot} (h : ballots.Perm ballots') :
    topSupport ballots = topSupport ballots' := by
  unfold topSupport
  simp only [support_perm h]
  exact (h.map _).foldr_eq 0

theorem le_topSupport {ballots : List Ballot} {b : Ballot} (hb : b ∈ ballots) :
    support ballots b.output.render ≤ topSupport ballots := by
  have hmem := List.mem_map_of_mem (f := fun b : Ballot => support ballots b.output.render) hb
  exact List.le_max_of_le hmem le_rfl

theorem topSupport_le {ballots : List Ballot} {m : Nat}
    (h : ∀ b ∈ ballots, support ballots b.output.render ≤ m) : topSupport ballots ≤ m := by
  refine List.max_le_of_forall_le _ _ fun n hn => ?_
  obtain ⟨b, hb, rfl⟩ := List.mem_map.1 hn
  exact h b hb

/-! ## The winner -/

/-- A value that a vote may be won by: given by as many ballots as any, and of those the one
whose text has the smallest bytes. -/
structure Wins (ballots : List Ballot) (v : Json) : Prop where
  given : ∃ b ∈ ballots, b.output = v
  most : support ballots v.render = topSupport ballots
  least : ∀ b ∈ ballots, support ballots b.output.render = topSupport ballots →
    Utf8.encode v.render ≤ Utf8.encode b.output.render

theorem Wins.perm {ballots ballots' : List Ballot} {v : Json} (h : Wins ballots v)
    (hp : ballots.Perm ballots') : Wins ballots' v where
  given := by
    obtain ⟨b, hb, hv⟩ := h.given
    exact ⟨b, hp.mem_iff.1 hb, hv⟩
  most := by rw [← support_perm hp, ← topSupport_perm hp, h.most]
  least := by
    intro b hb hs
    rw [← support_perm hp, ← topSupport_perm hp] at hs
    exact h.least b (hp.mem_iff.2 hb) hs

theorem Wins.unique {ballots : List Ballot} {v w : Json}
    (hvalid : ∀ b ∈ ballots, b.output.Valid) (hv : Wins ballots v) (hw : Wins ballots w) :
    v = w := by
  obtain ⟨b, hb, rfl⟩ := hv.given
  obtain ⟨c, hc, rfl⟩ := hw.given
  have hle := Utf8.encode_le_iff.1 (hv.least c hc hw.most)
  have hge := Utf8.encode_le_iff.1 (hw.least b hb hv.most)
  exact Json.render_injective (hvalid b hb) (hvalid c hc) (hle.antisymm hge)

/-- The first of the largest groups is at least as large as any, and of those as large as it
the one with the smallest text. -/
theorem foldl_larger {g : Group} {gs : List Group}
    (hs : (g :: gs).Pairwise fun a b => a.text < b.text) :
    gs.foldl larger g ∈ g :: gs ∧ ∀ a ∈ g :: gs,
      a.peers.length ≤ (gs.foldl larger g).peers.length ∧
        (a.peers.length = (gs.foldl larger g).peers.length →
          (gs.foldl larger g).text ≤ a.text) := by
  induction gs generalizing g with
  | nil => simp
  | cons g' gs ih =>
    obtain ⟨hg, hs'⟩ := List.pairwise_cons.1 hs
    have hg' := (List.pairwise_cons.1 hs').1
    rw [List.foldl_cons]
    by_cases hlt : g.peers.length < g'.peers.length
    · rw [larger, if_pos hlt]
      obtain ⟨hmem, hall⟩ := ih hs'
      refine ⟨List.mem_cons_of_mem _ hmem, fun a ha => ?_⟩
      rcases List.mem_cons.1 ha with rfl | ha
      · have := (hall g' List.mem_cons_self).1
        exact ⟨by omega, fun h => by omega⟩
      · exact hall a ha
    · rw [larger, if_neg hlt]
      have hskip : (g :: gs).Pairwise fun a b => a.text < b.text :=
        List.pairwise_cons.2 ⟨fun a ha => hg a (List.mem_cons_of_mem _ ha),
          (List.pairwise_cons.1 hs').2⟩
      obtain ⟨hmem, hall⟩ := ih hskip
      refine ⟨?_, fun a ha => ?_⟩
      · rcases List.mem_cons.1 hmem with h | h
        · rw [h]; exact List.mem_cons_self
        · exact List.mem_cons_of_mem _ (List.mem_cons_of_mem _ h)
      · rcases List.mem_cons.1 ha with rfl | ha
        · exact hall a List.mem_cons_self
        · rcases List.mem_cons.1 ha with rfl | ha
          · have hfirst := hall g List.mem_cons_self
            refine ⟨by omega, fun h => ?_⟩
            exact (hfirst.2 (by omega)).trans (le_of_lt (hg a List.mem_cons_self))
          · exact hall a (List.mem_cons_of_mem _ ha)

theorem winner?_wins {ballots : List Ballot} {best : Group}
    (h : winner? (groups ballots) = some best) :
    Wins ballots best.output ∧ best.peers = voters ballots best.output.render := by
  have hgr := groups_grouped ballots
  obtain ⟨g, gs, hgs, rfl⟩ : ∃ g gs, groups ballots = g :: gs ∧ gs.foldl larger g = best := by
    cases hgs : groups ballots with
    | nil => rw [hgs] at h; cases h
    | cons g gs => rw [hgs] at h; exact ⟨g, gs, rfl, Option.some.inj h⟩
  rw [hgs] at hgr
  obtain ⟨hmem, hall⟩ := foldl_larger hgr.sorted
  set best := gs.foldl larger g
  obtain ⟨b, hb, hout, htext⟩ := hgr.output best hmem
  rw [hout] at htext
  have hsize : ∀ a ∈ g :: gs, a.peers.length = support ballots a.text := fun a ha => by
    rw [hgr.peers a ha, length_voters]
  have hbest := hsize best hmem
  have htop : topSupport ballots = best.peers.length := by
    refine le_antisymm (topSupport_le fun c hc => ?_) ?_
    · obtain ⟨a, ha, hat⟩ := List.mem_map.1 (hgr.covers c hc)
      rw [← hat, ← hsize a ha]
      exact (hall a ha).1
    · rw [hbest, ← htext, ← hout]
      exact le_topSupport hb
  refine ⟨⟨⟨b, hb, hout⟩, by rw [htext, htop, hbest], fun c hc hs => ?_⟩, ?_⟩
  · obtain ⟨a, ha, hat⟩ := List.mem_map.1 (hgr.covers c hc)
    rw [Utf8.encode_le_iff, htext, ← hat]
    refine (hall a ha).2 ?_
    rw [hsize a ha, hat, hs, htop]
  · rw [htext, hgr.peers best hmem]

/-- Some ballots have a winner. -/
theorem exists_winner {ballots : List Ballot} (h : ballots ≠ []) :
    ∃ best, winner? (groups ballots) = some best := by
  obtain ⟨b, hb⟩ := List.exists_mem_of_ne_nil _ h
  have hcovers := (groups_grouped ballots).covers b hb
  cases hgs : groups ballots with
  | nil =>
    rw [hgs] at hcovers
    exact absurd hcovers List.not_mem_nil
  | cons g gs => exact ⟨gs.foldl larger g, rfl⟩

/-! ## The answer -/

open scoped Classical in
/-- The peers that gave a value, in order of arrival. -/
noncomputable def backers (ballots : List Ballot) (v : Json) : List PeerId :=
  (ballots.filter fun b => b.output = v).map Ballot.peer

theorem backers_eq {ballots : List Ballot} {v : Json} (hvalid : ∀ b ∈ ballots, b.output.Valid)
    (hv : v.Valid) : backers ballots v = voters ballots v.render := by
  classical
  unfold backers voters
  refine congrArg (List.map Ballot.peer) (List.filter_congr fun b hb => ?_)
  rw [decide_eq_decide]
  exact ⟨fun h => h ▸ rfl, Json.render_injective (hvalid b hb) hv⟩

/-- The outcome of a vote that is won. -/
structure Elected (ballots : List Ballot) (queried : Nat) (o : Outcome) : Prop where
  result : Wins ballots o.result
  agreeing : o.agreeing = topSupport ballots
  responded : o.responded = ballots.length
  queried : o.queried = max queried ballots.length
  peers : o.agreeingPeers.Perm (backers ballots o.result)
  sorted : o.agreeingPeers.Pairwise fun p q => p.le q = true

/-- The answers that a vote may give. -/
inductive Verdict (p : Policy) (ballots : List Ballot) (queried : Nat) :
    Except VoteError Outcome → Prop where
  | silent (h : ballots = []) : Verdict p ballots queried (.error .noResponses)
  | few (h : ballots ≠ []) (hn : ballots.length < p.minPeers) :
      Verdict p ballots queried (.error (.insufficientResponses p.minPeers ballots.length))
  | split (h : ballots ≠ []) (hn : p.minPeers ≤ ballots.length)
      (hs : (share (topSupport ballots) ballots.length).lt p.threshold = true) :
      Verdict p ballots queried
        (.error (.noConsensus (topSupport ballots) ballots.length p.threshold))
  | elected {o : Outcome} (h : ballots ≠ []) (hn : p.minPeers ≤ ballots.length)
      (hs : (share (topSupport ballots) ballots.length).lt p.threshold = false)
      (ho : Elected ballots queried o) : Verdict p ballots queried (.ok o)

theorem Elected.perm {ballots ballots' : List Ballot} {queried : Nat} {o : Outcome}
    (h : Elected ballots queried o) (hp : ballots.Perm ballots') :
    Elected ballots' queried o where
  result := h.result.perm hp
  agreeing := by rw [h.agreeing, topSupport_perm hp]
  responded := by rw [h.responded, hp.length_eq]
  queried := by rw [h.queried, hp.length_eq]
  peers := h.peers.trans ((hp.filter _).map _)
  sorted := h.sorted

theorem Elected.unique {ballots : List Ballot} {queried : Nat} {o o' : Outcome}
    (hvalid : ∀ b ∈ ballots, b.output.Valid) (h : Elected ballots queried o)
    (h' : Elected ballots queried o') : o = o' := by
  have hresult := Wins.unique hvalid h.result h'.result
  have hpeers : o.agreeingPeers = o'.agreeingPeers :=
    (h.peers.trans (hresult ▸ h'.peers.symm)).eq_of_pairwise
      (fun _ _ _ _ => PeerId.le_antisymm) h.sorted h'.sorted
  have hagreeing := h.agreeing.trans h'.agreeing.symm
  have hresponded := h.responded.trans h'.responded.symm
  have hqueried := h.queried.trans h'.queried.symm
  cases o; cases o'
  simp only at hresult hpeers hagreeing hresponded hqueried
  rw [hresult, hpeers, hagreeing, hresponded, hqueried]

theorem Verdict.perm {p : Policy} {ballots ballots' : List Ballot} {queried : Nat}
    {r : Except VoteError Outcome} (h : Verdict p ballots queried r)
    (hp : ballots.Perm ballots') : Verdict p ballots' queried r := by
  have hne : ballots ≠ [] → ballots' ≠ [] := fun h h' => h (h' ▸ hp).eq_nil
  cases h with
  | silent h => exact .silent (h ▸ hp).nil_eq.symm
  | few h hn =>
    rw [hp.length_eq] at hn ⊢
    exact .few (hne h) hn
  | split h hn hs =>
    rw [hp.length_eq, topSupport_perm hp] at *
    exact .split (hne h) hn hs
  | elected h hn hs ho =>
    rw [hp.length_eq] at hn
    rw [hp.length_eq, topSupport_perm hp] at hs
    exact .elected (hne h) hn hs (ho.perm hp)

theorem Verdict.unique {p : Policy} {ballots : List Ballot} {queried : Nat}
    {r r' : Except VoteError Outcome} (hvalid : ∀ b ∈ ballots, b.output.Valid)
    (h : Verdict p ballots queried r) (h' : Verdict p ballots queried r') : r = r' := by
  cases h with
  | silent h => cases h' <;> first | rfl | contradiction
  | few h hn => cases h' <;> first | rfl | contradiction | omega
  | split h hn hs => cases h' <;> first | rfl | contradiction | omega | simp_all
  | elected h hn hs ho =>
    cases h' with
    | silent h' => contradiction
    | few _ hn' => omega
    | split _ _ hs' => rw [hs] at hs'; cases hs'
    | elected _ _ _ ho' => rw [Elected.unique hvalid ho ho']

theorem decide_verdict (p : Policy) {ballots : List Ballot} (queried : Nat)
    (hvalid : ∀ b ∈ ballots, b.output.Valid) :
    Verdict p ballots queried (p.decide ballots queried) := by
  unfold Policy.decide
  cases hw : winner? (groups ballots) with
  | none =>
    refine .silent (by_contra fun hne => ?_)
    obtain ⟨best, hbest⟩ := exists_winner hne
    rw [hw] at hbest
    cases hbest
  | some best =>
    obtain ⟨hwins, hpeers⟩ := winner?_wins hw
    obtain ⟨b, hb, hout⟩ := hwins.given
    have hne : ballots ≠ [] := List.ne_nil_of_mem hb
    have htop : best.peers.length = topSupport ballots := by
      rw [hpeers, length_voters, hwins.most]
    simp only [htop]
    split
    · rename_i hlt
      exact .few hne hlt
    · rename_i hge
      split
      · rename_i hs
        exact .split hne (Nat.not_lt.1 hge) hs
      · rename_i hs
        refine .elected hne (Nat.not_lt.1 hge) (Bool.not_eq_true _ ▸ hs)
          ⟨hwins, rfl, rfl, rfl, ?_, PeerId.sort_sorted _⟩
        rw [backers_eq hvalid (hout ▸ hvalid b hb), ← hpeers]
        exact List.mergeSort_perm _ _

/-- What a vote that is won has come to. -/
theorem elected_of_decide {p : Policy} {ballots : List Ballot} {queried : Nat} {o : Outcome}
    (hvalid : ∀ b ∈ ballots, b.output.Valid) (h : p.decide ballots queried = .ok o) :
    p.minPeers ≤ ballots.length ∧
      (share (topSupport ballots) ballots.length).lt p.threshold = false ∧
        Elected ballots queried o := by
  have hverdict := decide_verdict p queried hvalid
  rw [h] at hverdict
  cases hverdict with
  | elected _ hn hs ho => exact ⟨hn, hs, ho⟩

/-- Reordering the ballots changes nothing. -/
theorem decide_perm (p : Policy) {ballots ballots' : List Ballot} (queried : Nat)
    (hvalid : ∀ b ∈ ballots, b.output.Valid) (hp : ballots.Perm ballots') :
    p.decide ballots' queried = p.decide ballots queried := by
  have hvalid' : ∀ b ∈ ballots', b.output.Valid := fun b hb => hvalid b (hp.mem_iff.2 hb)
  have hverdict := (decide_verdict p queried hvalid).perm hp
  exact (decide_verdict p queried hvalid').unique hvalid' hverdict

/-- **A vote gives the one right answer**, whatever order its ballots came in; a threshold that
is no number refuses none. Outputs that were read are valid (`Json.valid_of_read`). -/
theorem decide_spec (p : Policy) (ballots : List Ballot) (queried : Nat)
    (hvalid : ∀ b ∈ ballots, b.output.Valid) :
    (∀ r, p.decide ballots queried = r ↔ Verdict p ballots queried r) ∧
      (∀ ballots', ballots.Perm ballots' →
        p.decide ballots' queried = p.decide ballots queried) ∧
      (p.threshold.isNaN = true → ∀ m n, (share m n).lt p.threshold = false) := by
  have hspec := decide_verdict p queried hvalid
  exact ⟨fun r => ⟨fun h => h ▸ hspec, hspec.unique hvalid⟩,
    fun _ hp => decide_perm p queried hvalid hp, fun hnan m n => by simp [Double.lt, hnan]⟩

/-- Two peers against one. -/
def majority : List Ballot :=
  [⟨⟨.sha256, [1]⟩, .integer 7⟩, ⟨⟨.sha256, [2]⟩, .bool true⟩, ⟨⟨.sha256, [3]⟩, .integer 7⟩]

theorem decide_spec_majority :
    (∀ b ∈ majority, b.output.Valid) ∧
      Verdict ⟨2, Double.zero⟩ majority 3 (Policy.decide ⟨2, Double.zero⟩ majority 3) := by
  have hvalid : ∀ b ∈ majority, b.output.Valid := by
    intro b hb
    simp only [majority, List.mem_cons, List.not_mem_nil, or_false] at hb
    rcases hb with rfl | rfl | rfl
    · exact ⟨by decide, by decide⟩
    · trivial
    · exact ⟨by decide, by decide⟩
  exact ⟨hvalid, ((decide_spec ⟨2, Double.zero⟩ majority 3 hvalid).1 _).1 rfl⟩

end Quorum.Vote
