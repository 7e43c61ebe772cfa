import Mathlib
import Quorum.Proofs.Json.Reading

/-!
# The last of several members wins

`last? name ms` is the value of the last member of that name. Sorting members keeps these and no
others (`mem_sortMembers`): the sort does not change the order of members with the same name, and
of each run of them only the last is kept. So sorted members depend on the last members alone
(`sortMembers_congr`), and an object's member is the last one of its name (`member?_ofMembers`).
-/

namespace Quorum.Json

variable {α β : Type} {ms ms' acc : List (String × α)} {m a : String × α} {name : String}

/-- The value of the last member of a name. -/
def last? (name : String) (ms : List (String × α)) : Option α :=
  (ms.reverse.find? (·.1 == name)).map (·.2)

theorem last?_append_singleton (name : String) (ms : List (String × α)) (m : String × α) :
    last? name (ms ++ [m]) = if m.1 = name then some m.2 else last? name ms := by
  by_cases h : m.1 = name <;> simp [last?, h]

theorem last?_map (f : α → β) (name : String) (ms : List (String × α)) :
    last? name (ms.map fun m => (m.1, f m.2)) = (last? name ms).map f := by
  induction ms using List.reverseRecOn with
  | nil => rfl
  | append_singleton ms m ih =>
    rw [List.map_append, List.map_singleton, last?_append_singleton, last?_append_singleton, ih]
    split <;> rfl

/-- Only the members of the name count. -/
theorem last?_filter (name : String) (ms : List (String × α)) :
    last? name (ms.filter (·.1 == name)) = last? name ms := by
  rw [last?, last?, ← List.head?_filter, ← List.head?_filter, ← List.filter_reverse,
    List.filter_filter]
  simp only [Bool.and_self]

/-! ## Sorting -/

/-- Sorting by names does not change the order of members with the same name. -/
theorem filter_mergeSort (name : String) (ms : List (String × α)) :
    (ms.mergeSort fun a b => !decide (b.1 < a.1)).filter (·.1 == name) =
      ms.filter (·.1 == name) := by
  have hsame : (ms.filter (·.1 == name)).Pairwise fun a b => (!decide (b.1 < a.1)) = true := by
    refine List.pairwise_of_forall_mem_list fun a ha b hb => ?_
    have hname : ∀ m ∈ ms.filter (·.1 == name), m.1 = name := fun m hm =>
      eq_of_beq (List.mem_filter.1 hm).2
    rw [hname a ha, hname b hb, decide_eq_false (lt_irrefl name)]
    rfl
  have hsub := @List.sublist_mergeSort _ (fun a b : String × α => !decide (b.1 < a.1)) ms
    (fun a b c hab hbc => by
      simp only [Bool.not_eq_true', decide_eq_false_iff_not, not_lt] at hab hbc ⊢
      exact hab.trans hbc)
    (fun a b => by
      simp only [Bool.or_eq_true, Bool.not_eq_true', decide_eq_false_iff_not, not_lt]
      exact le_total _ _) _ hsame List.filter_sublist
  have hfilter := hsub.filter (·.1 == name)
  rw [List.filter_filter] at hfilter
  simp only [Bool.and_self] at hfilter
  have hlength := ((List.mergeSort_perm ms fun a b => !decide (b.1 < a.1)).filter
    (·.1 == name)).length_eq
  exact (hfilter.eq_of_length hlength.symm).symm

theorem mem_pushMember_iff (hacc : acc.Pairwise fun a b => b.1 < a.1)
    (hm : ∀ a ∈ acc, a.1 ≤ m.1) : a ∈ pushMember acc m ↔ a = m ∨ a ∈ acc ∧ a.1 ≠ m.1 := by
  cases acc with
  | nil => simp [pushMember]
  | cons last earlier =>
    obtain ⟨hlast, -⟩ := List.pairwise_cons.1 hacc
    have hlow : last.1 ≠ m.1 → ∀ b ∈ last :: earlier, b.1 ≠ m.1 := by
      intro hne b hb heq
      rcases List.mem_cons.1 hb with rfl | hb
      · exact hne heq
      · exact absurd (hm last List.mem_cons_self) (not_le.2 (heq ▸ hlast b hb))
    by_cases heq : last.1 = m.1
    · have hrest : ∀ b ∈ earlier, b.1 ≠ m.1 := fun b hb => heq ▸ (hlast b hb).ne
      rw [pushMember, if_pos heq, List.mem_cons, List.mem_cons]
      constructor
      · rintro (rfl | ha)
        · exact .inl rfl
        · exact .inr ⟨.inr ha, hrest a ha⟩
      · rintro (rfl | ⟨rfl | ha, hne⟩)
        · exact .inl rfl
        · exact absurd heq hne
        · exact .inr ha
    · rw [pushMember, if_neg heq, List.mem_cons]
      exact or_congr_right ⟨fun ha => ⟨ha, hlow heq a ha⟩, And.left⟩

/-- Of members in order the last one of every name is kept. -/
theorem mem_pushMembers (hms : ms.Pairwise fun a b => a.1 ≤ b.1) :
    m ∈ ms.foldl pushMember [] ↔ last? m.1 ms = some m.2 := by
  induction ms using List.reverseRecOn with
  | nil => simp [last?]
  | append_singleton ms n ih =>
    obtain ⟨hms, -, hle⟩ := List.pairwise_append.1 hms
    obtain ⟨hsorted, hmem⟩ := pushMembers_sorted hms List.Pairwise.nil (by simp)
    have hn : ∀ a ∈ ms.foldl pushMember [], a.1 ≤ n.1 := fun a ha =>
      hle a ((hmem a ha).resolve_right List.not_mem_nil) n List.mem_cons_self
    rw [List.foldl_append, List.foldl_cons, List.foldl_nil, mem_pushMember_iff hsorted hn, ih hms,
      last?_append_singleton]
    split
    · rename_i heq
      rw [Option.some.injEq]
      exact ⟨fun h => h.elim (fun h => h ▸ rfl) fun h => absurd heq.symm h.2,
        fun h => .inl (Prod.ext heq.symm h.symm)⟩
    · rename_i hne
      exact ⟨fun h => h.elim (fun h => absurd (h ▸ rfl) hne) And.left,
        fun h => .inr ⟨h, fun h' => hne h'.symm⟩⟩

/-- **Sorting keeps the last members, and no others.** -/
theorem mem_sortMembers : m ∈ sortMembers ms ↔ last? m.1 ms = some m.2 := by
  rw [sortMembers, List.mem_reverse, mem_pushMembers (mergeSort_names ms), ← last?_filter,
    filter_mergeSort, last?_filter]

/-- Sorted members depend on the last members alone. -/
theorem sortMembers_congr (h : ∀ name, last? name ms = last? name ms') :
    sortMembers ms = sortMembers ms' := by
  have hnodup (ms : List (String × α)) : (sortMembers ms).Nodup :=
    (sortMembers_spec ms).1.imp fun hlt heq => (heq ▸ hlt).false
  have hperm : (sortMembers ms).Perm (sortMembers ms') :=
    (List.perm_ext_iff_of_nodup (hnodup ms) (hnodup ms')).2 fun m => by
      rw [mem_sortMembers, mem_sortMembers, h]
  exact hperm.eq_of_pairwise (fun _ _ _ _ hlt hgt => absurd hlt hgt.asymm) (sortMembers_spec ms).1
    (sortMembers_spec ms').1

/-- **The member of an object is the last one of its name.** -/
theorem member?_ofMembers (name : String) (ms : List (String × Json)) :
    (ofMembers ms).member? name = last? name ms := by
  show ((sortMembers ms).find? (·.1 == name)).map (·.2) = _
  cases hfind : (sortMembers ms).find? (·.1 == name) with
  | some m =>
    have hname := List.find?_some hfind
    replace hname : m.1 = name := eq_of_beq hname
    rw [← hname]
    exact (mem_sortMembers.1 (List.mem_of_find?_eq_some hfind)).symm
  | none =>
    cases hlast : last? name ms with
    | none => rfl
    | some v =>
      have hmem : (name, v) ∈ sortMembers ms := mem_sortMembers.2 hlast
      exact absurd (beq_self_eq_true name) (List.find?_eq_none.1 hfind _ hmem)

end Quorum.Json
