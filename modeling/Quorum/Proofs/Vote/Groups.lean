import Mathlib
import Quorum.Vote

/-!
# The groups of a vote

Adding a ballot touches the group of its text and no other (`mem_insert`, `mem_insert_iff`).
From this one step follows what the groups of any list of ballots are: one group for every text
that was given, in increasing order of the texts, with the peers that gave it in order of
arrival (`groups_grouped`).
-/

namespace Quorum.Vote

/-- The peers whose ballots gave a text, in order of arrival. -/
def voters (ballots : List Ballot) (text : String) : List PeerId :=
  (ballots.filter fun b => b.output.render = text).map Ballot.peer

theorem voters_append (ballots : List Ballot) (b : Ballot) (text : String) :
    voters (ballots ++ [b]) text =
      voters ballots text ++ if b.output.render = text then [b.peer] else [] := by
  unfold voters
  rw [List.filter_append, List.map_append]
  by_cases h : b.output.render = text <;> simp [h]

theorem voters_eq_nil_iff {ballots : List Ballot} {text : String} :
    voters ballots text = [] ↔ ∀ b ∈ ballots, b.output.render ≠ text := by
  simp [voters]

/-! ## One ballot -/

theorem mem_texts_insert {text : String} {b : Ballot} {gs : List Group} {t : String} :
    t ∈ (insert text b gs).map Group.text ↔ t = text ∨ t ∈ gs.map Group.text := by
  induction gs with
  | nil => simp [insert]
  | cons g gs ih =>
    unfold insert
    split
    · rename_i h
      simp only [List.map_cons, List.mem_cons, h]
      tauto
    · split
      · simp only [List.map_cons, List.mem_cons]
      · simp only [List.map_cons, List.mem_cons, ih]
        tauto

/-- Only the group of the ballot's text changes. -/
theorem mem_insert {text : String} {b : Ballot} {gs : List Group} {g : Group}
    (hgs : gs.Pairwise fun g g' => g.text < g'.text) (h : g ∈ insert text b gs) :
    (g.text ≠ text ∧ g ∈ gs) ∨
      (∃ g' ∈ gs, g'.text = text ∧ g = { g' with peers := g'.peers ++ [b.peer] }) ∨
      ((∀ g' ∈ gs, g'.text ≠ text) ∧ g = ⟨text, b.output, [b.peer]⟩) := by
  induction gs with
  | nil => exact .inr (.inr ⟨by simp, List.mem_singleton.1 h⟩)
  | cons g₀ gs ih =>
    rw [List.pairwise_cons] at hgs
    unfold insert at h
    split at h
    · rename_i heq
      rcases List.mem_cons.1 h with rfl | h
      · exact .inr (.inl ⟨g₀, List.mem_cons_self, heq.symm, rfl⟩)
      · exact .inl ⟨heq ▸ ne_of_gt (hgs.1 g h), List.mem_cons_of_mem _ h⟩
    · rename_i hne
      split at h
      · rename_i hlt
        have hlater : ∀ g' ∈ g₀ :: gs, text < g'.text := by
          intro g' hg'
          rcases List.mem_cons.1 hg' with rfl | hg'
          · exact hlt
          · exact hlt.trans (hgs.1 g' hg')
        rcases List.mem_cons.1 h with rfl | h
        · exact .inr (.inr ⟨fun g' hg' => ne_of_gt (hlater g' hg'), rfl⟩)
        · exact .inl ⟨ne_of_gt (hlater g h), h⟩
      · rcases List.mem_cons.1 h with rfl | h
        · exact .inl ⟨fun h => hne h.symm, List.mem_cons_self⟩
        · rcases ih hgs.2 h with ⟨ht, hg⟩ | ⟨g', hg', ht, hg⟩ | ⟨hnone, hg⟩
          · exact .inl ⟨ht, List.mem_cons_of_mem _ hg⟩
          · exact .inr (.inl ⟨g', List.mem_cons_of_mem _ hg', ht, hg⟩)
          · refine .inr (.inr ⟨fun g' hg' => ?_, hg⟩)
            rcases List.mem_cons.1 hg' with rfl | hg'
            · exact fun h => hne h.symm
            · exact hnone g' hg'

theorem insert_sorted {text : String} {b : Ballot} {gs : List Group}
    (hgs : gs.Pairwise fun g g' => g.text < g'.text) :
    (insert text b gs).Pairwise fun g g' => g.text < g'.text := by
  induction gs with
  | nil => exact List.pairwise_singleton _ _
  | cons g gs ih =>
    have hcons := List.pairwise_cons.1 hgs
    unfold insert
    split
    · exact List.pairwise_cons.2 hcons
    · rename_i hne
      split
      · rename_i hlt
        refine List.pairwise_cons.2 ⟨fun g' hg' => ?_, hgs⟩
        rcases List.mem_cons.1 hg' with rfl | hg'
        · exact hlt
        · exact hlt.trans (hcons.1 g' hg')
      · rename_i hge
        have hgt : g.text < text := lt_of_le_of_ne (not_lt.1 hge) fun h => hne h.symm
        refine List.pairwise_cons.2 ⟨fun g' hg' => ?_, ih hcons.2⟩
        rcases mem_texts_insert.1 (List.mem_map_of_mem hg') with h | h
        · exact h ▸ hgt
        · obtain ⟨g'', hg'', ht⟩ := List.mem_map.1 h
          exact ht ▸ hcons.1 g'' hg''

/-! ## All ballots -/

/-- What the groups of some ballots are. -/
structure Grouped (ballots : List Ballot) (gs : List Group) : Prop where
  sorted : gs.Pairwise fun g g' => g.text < g'.text
  peers : ∀ g ∈ gs, g.peers = voters ballots g.text
  output : ∀ g ∈ gs, ∃ b ∈ ballots, b.output = g.output ∧ b.output.render = g.text
  covers : ∀ b ∈ ballots, b.output.render ∈ gs.map Group.text

theorem Grouped.insert {ballots : List Ballot} {gs : List Group} (h : Grouped ballots gs)
    (b : Ballot) : Grouped (ballots ++ [b]) (insert b.output.render b gs) where
  sorted := insert_sorted h.sorted
  peers := by
    intro g hg
    rw [voters_append]
    rcases mem_insert h.sorted hg with ⟨ht, hg⟩ | ⟨g', hg', ht, rfl⟩ | ⟨hnone, rfl⟩
    · rw [if_neg fun h => ht h.symm, List.append_nil, h.peers g hg]
    · rw [if_pos ht.symm, h.peers g' hg']
    · have hnil : voters ballots b.output.render = [] := by
        refine voters_eq_nil_iff.2 fun b' hb' ht => ?_
        obtain ⟨g', hg', ht'⟩ := List.mem_map.1 (h.covers b' hb')
        exact hnone g' hg' (ht'.trans ht)
      rw [if_pos rfl, hnil, List.nil_append]
  output := by
    intro g hg
    have hold : ∀ g' ∈ gs, ∃ b' ∈ ballots ++ [b], b'.output = g'.output ∧
        b'.output.render = g'.text := by
      intro g' hg'
      obtain ⟨b', hb', ho⟩ := h.output g' hg'
      exact ⟨b', List.mem_append_left _ hb', ho⟩
    rcases mem_insert h.sorted hg with ⟨-, hg⟩ | ⟨g', hg', -, rfl⟩ | ⟨-, rfl⟩
    · exact hold g hg
    · exact hold g' hg'
    · exact ⟨b, List.mem_append_right _ List.mem_cons_self, rfl, rfl⟩
  covers := by
    intro b' hb'
    rw [mem_texts_insert]
    rcases List.mem_append.1 hb' with hb' | hb'
    · exact .inr (h.covers b' hb')
    · exact .inl (by rw [List.mem_singleton.1 hb'])

theorem foldl_grouped {ballots rest : List Ballot} {gs : List Group} (h : Grouped ballots gs) :
    Grouped (ballots ++ rest)
      (rest.foldl (fun gs b => insert b.output.render b gs) gs) := by
  induction rest generalizing ballots gs with
  | nil => rwa [List.append_nil]
  | cons b rest ih =>
    have := ih (h.insert b)
    rwa [List.append_assoc] at this

/-- **The groups of a list of ballots are what they should be.** -/
theorem groups_grouped (ballots : List Ballot) : Grouped ballots (groups ballots) :=
  have hnil : Grouped [] [] := ⟨List.Pairwise.nil, by simp, by simp, by simp⟩
  foldl_grouped hnil

end Quorum.Vote
