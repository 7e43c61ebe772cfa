import Mathlib
import Quorum.Proofs.Number.Quotient
import Quorum.Proofs.Vote.Decision

/-!
# More of the winner, less of the others

A ballot more for the winner raises its support above that of any other text (`Wins.cons`), and
a ballot less of another text leaves the winner where it is, also among texts of the same support
(`Wins.of_cons`). The share of the winner falls in neither case. So a vote that is won stays won
by the same value when ballots for it come in, when ballots for others go, and when one is
exchanged for the other (`monotone_spec`).
-/

namespace Quorum.Vote

variable {p : Policy} {ballots ballots' : List Ballot} {b : Ballot} {v : Json} {n queried : Nat}
  {o : Outcome}

/-! ## One ballot more -/

theorem support_cons (b : Ballot) (ballots : List Ballot) (text : String) :
    support (b :: ballots) text =
      support ballots text + if b.output.render = text then 1 else 0 := by
  simp [support, List.countP_cons]

theorem topSupport_le_length (ballots : List Ballot) : topSupport ballots ≤ ballots.length :=
  topSupport_le fun _ _ => List.countP_le_length

theorem Wins.topSupport_cons (h : Wins ballots v) (peer : PeerId) :
    topSupport (⟨peer, v⟩ :: ballots) = topSupport ballots + 1 := by
  refine le_antisymm (topSupport_le fun c hc => ?_) ?_
  · have hle : support ballots c.output.render ≤ topSupport ballots := by
      rcases List.mem_cons.1 hc with rfl | hc
      · exact h.most.le
      · exact le_topSupport hc
    rw [support_cons]
    split <;> omega
  · have hle : support (⟨peer, v⟩ :: ballots) v.render ≤ topSupport (⟨peer, v⟩ :: ballots) :=
      le_topSupport (b := ⟨peer, v⟩) List.mem_cons_self
    rwa [support_cons, if_pos rfl, h.most] at hle

/-- One more ballot for the winner. -/
theorem Wins.cons (h : Wins ballots v) (peer : PeerId) : Wins (⟨peer, v⟩ :: ballots) v where
  given := ⟨⟨peer, v⟩, List.mem_cons_self, rfl⟩
  most := by rw [h.topSupport_cons, support_cons, if_pos rfl, h.most]
  least := by
    intro c hc hs
    rw [h.topSupport_cons, support_cons] at hs
    split at hs
    · rename_i htext
      exact Utf8.encode_le_iff.2 htext.le
    · rename_i hne
      rcases List.mem_cons.1 hc with rfl | hc
      · exact absurd rfl hne
      · have := le_topSupport hc
        omega

/-! ## One ballot less -/

theorem Wins.topSupport_of_cons (h : Wins (b :: ballots) v) (hne : b.output.render ≠ v.render) :
    topSupport ballots = topSupport (b :: ballots) := by
  have hsame : support ballots v.render = topSupport (b :: ballots) := by
    rw [← h.most, support_cons, if_neg hne, Nat.add_zero]
  refine le_antisymm (topSupport_le fun c hc => ?_) ?_
  · have hle := le_topSupport (List.mem_cons_of_mem b hc)
    rw [support_cons] at hle
    exact (Nat.le_add_right _ _).trans hle
  · obtain ⟨c, hc, rfl⟩ := h.given
    rcases List.mem_cons.1 hc with rfl | hc
    · exact absurd rfl hne
    · rw [← hsame]
      exact le_topSupport hc

/-- One ballot less of another text than the winner's. -/
theorem Wins.of_cons (h : Wins (b :: ballots) v) (hne : b.output.render ≠ v.render) :
    Wins ballots v where
  given := by
    obtain ⟨c, hc, rfl⟩ := h.given
    rcases List.mem_cons.1 hc with rfl | hc
    · exact absurd rfl hne
    · exact ⟨c, hc, rfl⟩
  most := by rw [h.topSupport_of_cons hne, ← h.most, support_cons, if_neg hne, Nat.add_zero]
  least := by
    intro c hc hs
    refine h.least c (List.mem_cons_of_mem _ hc) (le_antisymm ?_ ?_)
    · exact le_topSupport (List.mem_cons_of_mem _ hc)
    · rw [← h.topSupport_of_cons hne, ← hs, support_cons]
      exact Nat.le_add_right _ _

/-! ## Shares -/

/-- Of at most `n` ballots, a larger part has no smaller share. -/
def SharesRise (n : Nat) : Prop :=
  ∀ a k a' k', 0 < k → k ≤ n → a ≤ k → 0 < k' → k' ≤ n → a' ≤ k' → a * k' ≤ a' * k →
    (share a k).le (share a' k') = true

theorem SharesRise.mono (h : SharesRise n) {m : Nat} (hle : m ≤ n) : SharesRise m :=
  fun a k a' k' hk hkm hak hk' hkm' => h a k a' k' hk (hkm.trans hle) hak hk' (hkm'.trans hle)

theorem sharesRise (hn : n < 2 ^ 53) : SharesRise n := by
  intro a k a' k' hk hkn hak hk' hkn' hak' hle
  exact Double.div_ofNat_le (by omega) hk (by omega) (by omega) hk' (by omega) hle

theorem lt_eq_false_of_le {x y t : Double} (hle : x.le y = true) (h : x.lt t = false) :
    y.lt t = false := by
  simp only [Double.le, Double.lt, Bool.and_eq_true, Bool.not_eq_true', decide_eq_true_eq,
    Bool.and_eq_false_iff, Bool.not_eq_false', decide_eq_false_iff_not] at hle h ⊢
  rcases h with (h | h) | h
  · rw [hle.1.1] at h
    cases h
  · exact .inl (.inr h)
  · exact .inr (by omega)

/-! ## Votes that are won -/

/-- The vote is won by a value. -/
structure Won (p : Policy) (ballots : List Ballot) (v : Json) : Prop where
  wins : Wins ballots v
  enough : p.minPeers ≤ ballots.length
  reached : (share (topSupport ballots) ballots.length).lt p.threshold = false

theorem Wins.length_pos (h : Wins ballots v) : 0 < ballots.length := by
  obtain ⟨b, hb, -⟩ := h.given
  exact List.length_pos_of_mem hb

theorem Won.perm (h : Won p ballots v) (hp : ballots.Perm ballots') : Won p ballots' v where
  wins := h.wins.perm hp
  enough := hp.length_eq ▸ h.enough
  reached := by
    rw [← topSupport_perm hp, ← hp.length_eq]
    exact h.reached

theorem won_of_decide (hvalid : ∀ b ∈ ballots, b.output.Valid)
    (h : p.decide ballots queried = .ok o) :
    Won p ballots o.result ∧ Elected ballots queried o := by
  obtain ⟨hmin, hs, ho⟩ := elected_of_decide hvalid h
  exact ⟨⟨ho.result, hmin, hs⟩, ho⟩

theorem Won.decide (h : Won p ballots v) (hvalid : ∀ b ∈ ballots, b.output.Valid)
    (queried : Nat) :
    ∃ o, p.decide ballots queried = .ok o ∧ Elected ballots queried o ∧ o.result = v := by
  have hverdict := decide_verdict p queried hvalid
  generalize p.decide ballots queried = r at hverdict
  cases hverdict with
  | silent hnil => exact absurd hnil (List.length_pos_iff.1 h.wins.length_pos)
  | few _ hlt => exact absurd h.enough (Nat.not_le.2 hlt)
  | split _ _ hs =>
    rw [h.reached] at hs
    cases hs
  | elected _ _ _ ho => exact ⟨_, rfl, ho, Wins.unique hvalid ho.result h.wins⟩

/-- A value that wins other ballots, with no smaller a share of them. -/
theorem Won.of_le (h : Won p ballots v) (hwins : Wins ballots' v)
    (hmin : p.minPeers ≤ ballots'.length) (hshare : SharesRise n) (hn : ballots.length ≤ n)
    (hn' : ballots'.length ≤ n)
    (hle : topSupport ballots * ballots'.length ≤ topSupport ballots' * ballots.length) :
    Won p ballots' v where
  wins := hwins
  enough := hmin
  reached := by
    refine lt_eq_false_of_le ?_ h.reached
    exact hshare _ _ _ _ h.wins.length_pos hn (topSupport_le_length _) hwins.length_pos hn'
      (topSupport_le_length _) hle

theorem Won.more (h : Won p ballots v) (hshare : SharesRise (ballots.length + 1))
    (peer : PeerId) : Won p (⟨peer, v⟩ :: ballots) v := by
  refine h.of_le (h.wins.cons peer) (h.enough.trans (Nat.le_succ _)) hshare (Nat.le_succ _)
    le_rfl ?_
  rw [h.wins.topSupport_cons, List.length_cons, Nat.mul_succ, Nat.succ_mul]
  exact Nat.add_le_add_left (topSupport_le_length _) _

theorem Won.less (h : Won p (b :: ballots) v) (hne : b.output.render ≠ v.render)
    (hmin : p.minPeers ≤ ballots.length) (hshare : SharesRise (ballots.length + 1)) :
    Won p ballots v := by
  refine h.of_le (h.wins.of_cons hne) hmin hshare le_rfl (Nat.le_succ _) ?_
  rw [h.wins.topSupport_of_cons hne]
  exact Nat.mul_le_mul_left _ (Nat.le_succ _)

theorem Won.changed (h : Won p (b :: ballots) v) (hne : b.output.render ≠ v.render)
    (hshare : SharesRise (ballots.length + 1)) (peer : PeerId) :
    Won p (⟨peer, v⟩ :: ballots) v := by
  refine h.of_le ((h.wins.of_cons hne).cons peer) h.enough hshare le_rfl le_rfl ?_
  rw [(h.wins.of_cons hne).topSupport_cons, h.wins.topSupport_of_cons hne]
  exact Nat.mul_le_mul_right _ (Nat.le_succ _)

/-! ## Two votes -/

theorem backers_cons_self (ballots : List Ballot) (v : Json) (peer : PeerId) :
    backers (⟨peer, v⟩ :: ballots) v = peer :: backers ballots v := by
  simp [backers]

theorem backers_cons_of_ne (hne : b.output ≠ v) : backers (b :: ballots) v = backers ballots v := by
  simp [backers, hne]

theorem Elected.valid (h : Elected ballots queried o) (hvalid : ∀ b ∈ ballots, b.output.Valid) :
    o.result.Valid := by
  obtain ⟨b, hb, hout⟩ := h.result.given
  exact hout ▸ hvalid b hb

theorem decide_more (hvalid : ∀ b ∈ ballots, b.output.Valid)
    (hshare : SharesRise (ballots.length + 1)) (hwon : p.decide ballots queried = .ok o)
    (peer : PeerId) (queried' : Nat) :
    ∃ o', p.decide (⟨peer, o.result⟩ :: ballots) queried' = .ok o' ∧ o'.result = o.result ∧
      o'.agreeing = o.agreeing + 1 ∧ o'.agreeingPeers.Perm (peer :: o.agreeingPeers) := by
  obtain ⟨hw, ho⟩ := won_of_decide hvalid hwon
  have hvalid' : ∀ c ∈ (⟨peer, o.result⟩ : Ballot) :: ballots, c.output.Valid :=
    List.forall_mem_cons.2 ⟨ho.valid hvalid, hvalid⟩
  obtain ⟨o', hdecide, ho', heq⟩ := (hw.more hshare peer).decide hvalid' queried'
  refine ⟨o', hdecide, heq, ?_, ?_⟩
  · rw [ho'.agreeing, hw.wins.topSupport_cons, ho.agreeing]
  · have hpeers := ho'.peers
    rw [heq, backers_cons_self] at hpeers
    exact hpeers.trans (ho.peers.symm.cons _)

theorem decide_less (hvalid : ∀ c ∈ b :: ballots, c.output.Valid)
    (hshare : SharesRise (ballots.length + 1)) (hwon : p.decide (b :: ballots) queried = .ok o)
    (hne : b.output.render ≠ o.result.render) (hmin : p.minPeers ≤ ballots.length)
    (queried' : Nat) :
    ∃ o', p.decide ballots queried' = .ok o' ∧ o'.result = o.result ∧
      o'.agreeing = o.agreeing ∧ o'.agreeingPeers = o.agreeingPeers := by
  obtain ⟨hw, ho⟩ := won_of_decide hvalid hwon
  obtain ⟨o', hdecide, ho', heq⟩ :=
    (hw.less hne hmin hshare).decide (List.forall_mem_cons.1 hvalid).2 queried'
  refine ⟨o', hdecide, heq, ?_, ?_⟩
  · rw [ho'.agreeing, hw.wins.topSupport_of_cons hne, ho.agreeing]
  · have hpeers := ho.peers
    rw [backers_cons_of_ne fun h => hne (congrArg Json.render h), ← heq] at hpeers
    exact (ho'.peers.trans hpeers.symm).eq_of_pairwise
      (fun _ _ _ _ => PeerId.le_antisymm) ho'.sorted ho.sorted

theorem decide_changed (hvalid : ∀ c ∈ b :: ballots, c.output.Valid)
    (hshare : SharesRise (ballots.length + 1)) (hwon : p.decide (b :: ballots) queried = .ok o)
    (hne : b.output.render ≠ o.result.render) (peer : PeerId) (queried' : Nat) :
    ∃ o', p.decide (⟨peer, o.result⟩ :: ballots) queried' = .ok o' ∧ o'.result = o.result ∧
      o'.agreeing = o.agreeing + 1 := by
  obtain ⟨hw, ho⟩ := won_of_decide hvalid hwon
  have hvalid' : ∀ c ∈ (⟨peer, o.result⟩ : Ballot) :: ballots, c.output.Valid :=
    List.forall_mem_cons.2 ⟨ho.valid hvalid, (List.forall_mem_cons.1 hvalid).2⟩
  obtain ⟨o', hdecide, ho', heq⟩ := (hw.changed hne hshare peer).decide hvalid' queried'
  refine ⟨o', hdecide, heq, ?_⟩
  rw [ho'.agreeing, (hw.wins.of_cons hne).topSupport_cons, hw.wins.topSupport_of_cons hne,
    ho.agreeing]

/-- **A vote that is won is not lost by more of the same.** With one ballot more for the result,
from whatever peer, it is won with one more agreeing peer; with one ballot less of another text,
as long as there are enough, by the same peers; and with one ballot changed to the result it is
won again. All that is asked of shares is that they rise with the exact quotients, which they do
for fewer than `2 ^ 53` ballots (`sharesRise`). -/
theorem monotone_spec (hvalid : ∀ b ∈ ballots, b.output.Valid)
    (hshare : SharesRise (ballots.length + 1)) (hwon : p.decide ballots queried = .ok o) :
    (∀ ballots' peer queried', ballots'.Perm (⟨peer, o.result⟩ :: ballots) →
      ∃ o', p.decide ballots' queried' = .ok o' ∧ o'.result = o.result ∧
        o'.agreeing = o.agreeing + 1 ∧ o'.agreeingPeers.Perm (peer :: o.agreeingPeers)) ∧
    (∀ ballots' b queried', ballots.Perm (b :: ballots') → b.output.render ≠ o.result.render →
      p.minPeers ≤ ballots'.length →
        ∃ o', p.decide ballots' queried' = .ok o' ∧ o'.result = o.result ∧
          o'.agreeing = o.agreeing ∧ o'.agreeingPeers = o.agreeingPeers) ∧
    ∀ rest ballots' b peer queried', ballots.Perm (b :: rest) →
      b.output.render ≠ o.result.render → ballots'.Perm (⟨peer, o.result⟩ :: rest) →
        ∃ o', p.decide ballots' queried' = .ok o' ∧ o'.result = o.result ∧
          o'.agreeing = o.agreeing + 1 := by
  have hresult := (won_of_decide hvalid hwon).2.valid hvalid
  refine ⟨fun ballots' peer queried' hp => ?_, fun ballots' b queried' hp hne hmin => ?_,
    fun rest ballots' b peer queried' hp hne hp' => ?_⟩
  · rw [decide_perm p queried' (List.forall_mem_cons.2 ⟨hresult, hvalid⟩) hp.symm]
    exact decide_more hvalid hshare hwon peer queried'
  · have hvalid' : ∀ c ∈ b :: ballots', c.output.Valid := fun c hc => hvalid c (hp.mem_iff.2 hc)
    have hshare' := hshare.mono (hp.length_eq.ge.trans (Nat.le_succ _))
    rw [← decide_perm p queried hvalid hp] at hwon
    exact decide_less hvalid' hshare' hwon hne hmin queried'
  · have hvalid' : ∀ c ∈ b :: rest, c.output.Valid := fun c hc => hvalid c (hp.mem_iff.2 hc)
    have hshare' := hshare.mono (hp.length_eq.ge.trans (Nat.le_succ _))
    rw [← decide_perm p queried hvalid hp] at hwon
    rw [decide_perm p queried'
      (List.forall_mem_cons.2 ⟨hresult, (List.forall_mem_cons.1 hvalid').2⟩) hp'.symm]
    exact decide_changed hvalid' hshare' hwon hne peer queried'

/-- One peer against two. -/
def panel : List Ballot :=
  [⟨⟨.sha256, [1]⟩, .bool false⟩, ⟨⟨.sha256, [2]⟩, .integer 5⟩, ⟨⟨.sha256, [3]⟩, .integer 5⟩]

/-- A fourth ballot for the result, the other one withdrawn, and the other one changed. -/
theorem monotone_spec_panel :
    Policy.decide ⟨2, share 2 3⟩ panel 3 =
        .ok ⟨.integer 5, 2, 3, 3, [⟨.sha256, [2]⟩, ⟨.sha256, [3]⟩]⟩ ∧
      (∃ o', Policy.decide ⟨2, share 2 3⟩ (panel ++ [⟨⟨.sha256, [4]⟩, .integer 5⟩]) 4 = .ok o' ∧
        o'.result = .integer 5 ∧ o'.agreeing = 3 ∧
          o'.agreeingPeers.Perm [⟨.sha256, [4]⟩, ⟨.sha256, [2]⟩, ⟨.sha256, [3]⟩]) ∧
      (∃ o', Policy.decide ⟨2, share 2 3⟩ panel.tail 3 = .ok o' ∧ o'.result = .integer 5 ∧
        o'.agreeing = 2 ∧ o'.agreeingPeers = [⟨.sha256, [2]⟩, ⟨.sha256, [3]⟩]) ∧
      ∃ o', Policy.decide ⟨2, share 2 3⟩ (panel.tail ++ [⟨⟨.sha256, [1]⟩, .integer 5⟩]) 3 =
        .ok o' ∧ o'.result = .integer 5 ∧ o'.agreeing = 3 := by
  have hshare : (share 2 3).lt (share 2 3) = false := rfl
  have hbest : winner? (groups panel) =
      some ⟨"5", .integer 5, [⟨.sha256, [2]⟩, ⟨.sha256, [3]⟩]⟩ := rfl
  have hsort : [(⟨.sha256, [2]⟩ : PeerId), ⟨.sha256, [3]⟩].mergeSort PeerId.le =
      [⟨.sha256, [2]⟩, ⟨.sha256, [3]⟩] := by cbv
  have hwon : Policy.decide ⟨2, share 2 3⟩ panel 3 =
      .ok ⟨.integer 5, 2, 3, 3, [⟨.sha256, [2]⟩, ⟨.sha256, [3]⟩]⟩ := by
    simp [Policy.decide, hbest, hsort, hshare, show panel.length = 3 from rfl]
  have hvalid : ∀ b ∈ panel, b.output.Valid := by
    simp [panel, Json.Valid, Json.IntegerRange, UInt64.size]
  obtain ⟨hmore, hless, hchanged⟩ := monotone_spec hvalid (sharesRise (by decide)) hwon
  refine ⟨hwon, hmore _ ⟨.sha256, [4]⟩ 4 ?_, hless _ ⟨⟨.sha256, [1]⟩, .bool false⟩ 3 ?_ ?_ ?_,
    hchanged panel.tail _ ⟨⟨.sha256, [1]⟩, .bool false⟩ ⟨.sha256, [1]⟩ 3 ?_ ?_ ?_⟩
  · exact List.perm_append_singleton _ _
  · exact List.Perm.refl _
  · decide
  · decide
  · exact List.Perm.refl _
  · decide
  · exact List.perm_append_singleton _ _

end Quorum.Vote
