import Mathlib
import Quorum.Proofs.Json.Spelling

/-!
# The value of a document

However a document is spelled, what is read of it is its collapsed form (`Document.read_eq`): by
induction on the spelling, as the reader that succeeds takes just the bytes of each part.
Documents are `Alike` if their objects have the same last members, at every depth; these collapse
to the same value, so blanks, escapes, the order of members and overridden members do not matter
to the reader (`read_alike`). What is written of an object is a document of it if its members are
(`document_renderMembers`).
-/

namespace Quorum.Json

open Ascii Utf8

/-! ## Parts of a text -/

theorem value_skip {ws : Bytes} (h : Blanks ws) (fuel depth : Nat) (s : Bytes) :
    value fuel depth (ws ++ s) = value fuel depth s := by
  cases fuel with
  | zero => rfl
  | succ fuel =>
    unfold value
    rw [skipBlank_append h]

theorem nextItem_close {ws : Bytes} (h : Blanks ws) (first : Bool) (s : Bytes) :
    nextItem first (ws ++ closeBracket :: s) = .ok (.stop s) := by
  unfold nextItem
  rw [skipBlank_append h]
  rfl

theorem nextName_close {ws : Bytes} (h : Blanks ws) (first : Bool) (s : Bytes) :
    nextName first (ws ++ closeBrace :: s) = .ok (.stop s) := by
  unfold nextName
  rw [skipBlank_append h]
  rfl

theorem nextName_quote {first : Bool} {sep ws : Bytes} (hsep : Separator first sep)
    (hws : Blanks ws) (s : Bytes) :
    nextName first (sep ++ (ws ++ quote :: s)) = .ok (.more s) := by
  unfold nextName
  cases first with
  | true =>
    obtain rfl : sep = [] := hsep
    rw [List.nil_append, skipBlank_append hws]
    rfl
  | false =>
    obtain ⟨ws', hws', rfl⟩ := hsep
    rw [List.append_assoc, skipBlank_append hws', List.singleton_append,
      skipBlank_cons (by decide)]
    simp only [skipBlank_append hws, skipBlank_cons (show isBlank quote = false by decide),
      show ¬ comma = closeBrace by decide, Bool.false_eq_true, ↓reduceIte]

theorem colonAfter_append {ws : Bytes} (h : Blanks ws) (s : Bytes) :
    colonAfter (ws ++ colon :: s) = .ok s := by
  unfold colonAfter
  rw [skipBlank_append h]
  rfl

/-- A value's text begins with something that is no blank and closes no list. -/
theorem Spells.opens {d : Json} {s : Bytes} (h : Spells d s) :
    ∃ ws t, Blanks ws ∧ OpensValue t ∧ s = ws ++ t := by
  cases h with
  | constant hws hs =>
    simp only [constants, List.mem_cons, List.not_mem_nil, or_false, Prod.mk.injEq] at hs
    rcases hs with ⟨rfl, rfl⟩ | ⟨rfl, rfl⟩ | ⟨rfl, rfl⟩ <;>
      exact ⟨_, _, hws, ⟨_, _, rfl, by decide, by decide⟩, rfl⟩
  | @number _ _ negative _ hws hs =>
    refine ⟨_, _, hws, ?_, rfl⟩
    cases negative with
    | true => exact ⟨_, _, rfl, by decide, by decide⟩
    | false => exact (startsNumber_of_number hs).opensValue
  | string hws _ => exact ⟨_, _, hws, ⟨_, _, rfl, by decide, by decide⟩, rfl⟩
  | array hws _ => exact ⟨_, _, hws, ⟨_, _, rfl, by decide, by decide⟩, rfl⟩
  | object hws _ => exact ⟨_, _, hws, ⟨_, _, rfl, by decide, by decide⟩, rfl⟩

/-- The blanks in front of an item are skipped before it is read. -/
theorem nextItem_spells {first : Bool} {sep s : Bytes} {d : Json} (hsep : Separator first sep)
    (hd : Spells d s) (r : Bytes) :
    ∃ ws t, Blanks ws ∧ s = ws ++ t ∧ nextItem first (sep ++ (s ++ r)) = .ok (.more (t ++ r)) := by
  obtain ⟨ws, t, hws, ht, rfl⟩ := hd.opens
  obtain ⟨b, t, rfl, hb, hne⟩ := ht
  refine ⟨ws, b :: t, hws, rfl, ?_⟩
  have hskip : skipBlank (ws ++ b :: t ++ r) = b :: (t ++ r) := by
    rw [List.append_assoc, skipBlank_append hws, List.cons_append, skipBlank_cons hb]
  unfold nextItem
  cases first with
  | true =>
    obtain rfl : sep = [] := hsep
    rw [List.nil_append, hskip]
    simp only [if_neg hne, ↓reduceIte, List.cons_append]
  | false =>
    obtain ⟨ws', hws', rfl⟩ := hsep
    rw [List.append_assoc, skipBlank_append hws', List.singleton_append,
      skipBlank_cons (by decide)]
    simp only [hskip, if_neg hne, show ¬ comma = closeBracket by decide, Bool.false_eq_true,
      ↓reduceIte, List.cons_append]

/-! ## A document that is read gives its value -/

mutual

/-- A text in front of what stops a number is read as its document, if it is read at all. -/
theorem Spells.value_eq {d v : Json} {t rest r : Bytes} (hs : Spells d t) (hr : Stops rest)
    (fuel depth : Nat) (h : value fuel depth (t ++ rest) = .ok (v, r)) :
    v = collapse d ∧ r = rest := by
  cases fuel with
  | zero => cases h
  | succ fuel =>
    cases hs with
    | constant hws hs =>
      rw [List.append_assoc, value_skip hws] at h
      simp only [constants, List.mem_cons, List.not_mem_nil, or_false, Prod.mk.injEq] at hs
      rcases hs with ⟨rfl, rfl⟩ | ⟨rfl, rfl⟩ | ⟨rfl, rfl⟩ <;> cases h <;> exact ⟨rfl, rfl⟩
    | number hws hs =>
      rw [List.append_assoc, value_skip hws, List.append_assoc,
        value_signed ((startsNumber_of_number hs).append rest),
        ((number_extends hr _ _).ok _ _ hs).2] at h
      cases h
      exact ⟨(collapse_number hs).symm, rfl⟩
    | string hws hs =>
      rw [List.append_assoc, value_skip hws, List.cons_append, value,
        skipBlank_cons (by decide)] at h
      simp only [↓reduceIte] at h
      split at h
      · cases h
      · rename_i hread
        cases h
        obtain ⟨rfl, rfl⟩ := hs.text_eq hread
        exact ⟨rfl, rfl⟩
    | array hws hs =>
      rw [List.append_assoc, value_skip hws, List.cons_append, value_openBracket] at h
      split at h
      · cases h
      · exact hs.items_eq fuel (depth - 1) [] rfl h
    | object hws hs =>
      rw [List.append_assoc, value_skip hws, List.cons_append, value_openBrace] at h
      split at h
      · cases h
      · exact hs.members_eq fuel (depth - 1) [] rfl h
termination_by fuel

theorem SpellsItems.items_eq {first : Bool} {vs : List Json} {v : Json} {t rest r : Bytes}
    (hs : SpellsItems first vs t) (fuel depth : Nat) (acc : List Json) (hacc : acc.isEmpty = first)
    (h : items fuel depth acc (t ++ rest) = .ok (v, r)) :
    v = array (acc.reverse ++ collapseItems vs) ∧ r = rest := by
  cases fuel with
  | zero => cases h
  | succ fuel =>
    cases hs with
    | close hws =>
      rw [List.append_assoc, List.singleton_append, items, nextItem_close hws] at h
      cases h
      exact ⟨by rw [collapseItems, List.append_nil], rfl⟩
    | @item _ sep s t w ws hsep hw hws =>
      obtain ⟨blanks, u, hblanks, rfl, hnext⟩ := nextItem_spells hsep hw (t ++ rest)
      rw [List.append_assoc, List.append_assoc, items, hacc, hnext] at h
      dsimp only at h
      rw [← value_skip hblanks, ← List.append_assoc] at h
      split at h
      · cases h
      rename_i w' s' hw'
      obtain ⟨rfl, rfl⟩ := hw.value_eq (hws.stops rest) fuel depth hw'
      obtain ⟨rfl, hr⟩ := hws.items_eq fuel depth (_ :: acc) rfl h
      exact ⟨by simp [collapseItems], hr⟩
termination_by fuel

theorem SpellsMembers.members_eq {first : Bool} {ms : List (String × Json)} {v : Json}
    {t rest r : Bytes} (hs : SpellsMembers first ms t) (fuel depth : Nat)
    (acc : List (String × Json)) (hacc : acc.isEmpty = first)
    (h : members fuel depth acc (t ++ rest) = .ok (v, r)) :
    v = ofMembers (acc.reverse ++ collapseMembers ms) ∧ r = rest := by
  cases fuel with
  | zero => cases h
  | succ fuel =>
    cases hs with
    | close hws =>
      rw [List.append_assoc, List.singleton_append, members, nextName_close hws] at h
      cases h
      exact ⟨by rw [collapseMembers, List.append_nil], rfl⟩
    | member hsep hws hname hws' hw hms =>
      simp only [List.append_assoc, List.cons_append] at h
      rw [members, hacc, nextName_quote hsep hws] at h
      dsimp only at h
      split at h
      · cases h
      rename_i str s htext
      obtain ⟨rfl, rfl⟩ := hname.text_eq htext
      rw [colonAfter_append hws'] at h
      dsimp only at h
      split at h
      · cases h
      rename_i w' s hw'
      obtain ⟨rfl, rfl⟩ := hw.value_eq (hms.stops rest) fuel depth hw'
      obtain ⟨rfl, hr⟩ := hms.members_eq fuel depth (_ :: acc) rfl h
      exact ⟨by simp [collapseMembers], hr⟩
termination_by fuel

end

/-- **A document that is read gives its value.** -/
theorem Document.read_eq {d v : Json} {s : Bytes} (hd : Document d s) (h : read s = .ok v) :
    v = collapse d := by
  obtain ⟨t, ws, ht, hws, rfl⟩ := hd
  obtain ⟨ws', -, hv⟩ := value_of_read h
  exact (ht.value_eq (stops_of_blanks hws) _ _ hv).1

/-! ## Documents that are alike -/

/-- Documents that differ at most in the order of members and in members that are overridden: at
every depth the last members of each name are alike. -/
inductive Alike : Json → Json → Prop where
  | refl (d : Json) : Alike d d
  | array {vs ws : List Json} (hlength : vs.length = ws.length)
      (h : ∀ (i : Nat) (v w : Json), vs[i]? = some v → ws[i]? = some w → Alike v w) :
      Alike (array vs) (array ws)
  | object {ms ns : List (String × Json)}
      (hnames : ∀ name, (last? name ms).isSome = (last? name ns).isSome)
      (h : ∀ name v w, last? name ms = some v → last? name ns = some w → Alike v w) :
      Alike (object ms) (object ns)

theorem collapseItems_eq (vs : List Json) : collapseItems vs = vs.map collapse := by
  induction vs with
  | nil => rfl
  | cons v vs ih => rw [collapseItems, ih, List.map_cons]

theorem collapseMembers_eq (ms : List (String × Json)) :
    collapseMembers ms = ms.map fun m => (m.1, collapse m.2) := by
  induction ms with
  | nil => rfl
  | cons m ms ih => rw [collapseMembers, ih, List.map_cons]

/-- **Alike documents have the same value.** -/
theorem Alike.collapse_eq {d d' : Json} (h : Alike d d') : collapse d = collapse d' := by
  induction h with
  | refl d => rfl
  | @array vs ws hlength _ ih =>
    have hitems : vs.map collapse = ws.map collapse := by
      refine List.ext_getElem? fun i => ?_
      rw [List.getElem?_map, List.getElem?_map]
      by_cases hi : i < vs.length
      · have hv := List.getElem?_eq_getElem hi
        have hw := List.getElem?_eq_getElem (hlength ▸ hi)
        rw [hv, hw, Option.map_some, Option.map_some, ih i _ _ hv hw]
      · rw [List.getElem?_eq_none (not_lt.1 hi),
          List.getElem?_eq_none (hlength ▸ not_lt.1 hi)]
    rw [collapse, collapse, collapseItems_eq, collapseItems_eq, hitems]
  | @object ms ns hnames _ ih =>
    have hlast : ∀ name, last? name (ms.map fun m => (m.1, collapse m.2)) =
        last? name (ns.map fun m => (m.1, collapse m.2)) := by
      intro name
      have hsome := hnames name
      rw [last?_map, last?_map]
      cases hv : last? name ms with
      | none =>
        rw [hv, Option.isSome_none, eq_comm, Option.isSome_eq_false_iff,
          Option.isNone_iff_eq_none] at hsome
        rw [hsome]
      | some v =>
        rw [hv, Option.isSome_some, eq_comm, Option.isSome_iff_exists] at hsome
        obtain ⟨w, hw⟩ := hsome
        rw [hw, Option.map_some, Option.map_some, ih name v w hv hw]
    rw [collapse, collapse, collapseMembers_eq, collapseMembers_eq, ofMembers, ofMembers,
      sortMembers_congr hlast]

/-- **Texts of alike documents are read as the same value.** -/
theorem read_alike {d d' v v' : Json} {s s' : Bytes} (hd : Document d s) (hd' : Document d' s')
    (halike : Alike d d') (h : read s = .ok v) (h' : read s' = .ok v') : v = v' := by
  rw [hd.read_eq h, hd'.read_eq h', halike.collapse_eq]

/-- The last member of the name, if the document is an object that has one. -/
def lastMember? (name : String) : Json → Option Json
  | object ms => last? name ms
  | _ => none

theorem member?_collapse (name : String) (d : Json) :
    (collapse d).member? name = (d.lastMember? name).map collapse := by
  cases d with
  | object ms => rw [collapse, member?_ofMembers, collapseMembers_eq, last?_map, lastMember?]
  | _ => rfl

/-! ## What is written -/

theorem spells_null : Spells null (valueBytes null) :=
  @Spells.constant [] _ _ blanks_nil List.mem_cons_self

theorem spells_string (s : String) : Spells (string s) (valueBytes (string s)) := by
  rw [valueBytes_string]
  exact .string blanks_nil (spellsBytes_stringTail s)

theorem spellsMembers_membersBytes {ms : List (String × Json)}
    (h : ∀ m ∈ ms, Spells m.2 (valueBytes m.2)) :
    SpellsMembers false ms (membersBytes ms ++ [closeBrace]) := by
  induction ms with
  | nil => exact .close blanks_nil
  | cons m ms ih =>
    obtain ⟨name, v⟩ := m
    have hrest := ih fun m hm => h m (List.mem_cons_of_mem _ hm)
    have hmember := SpellsMembers.member (separator_comma blanks_nil) blanks_nil
      (spellsBytes_stringTail name) blanks_nil (h _ List.mem_cons_self) hrest
    rw [membersBytes_cons, memberBytes]
    simpa using hmember

/-- An object is written as a text of itself if its members are. -/
theorem spells_object {ms : List (String × Json)} (h : ∀ m ∈ ms, Spells m.2 (valueBytes m.2)) :
    Spells (object ms) (valueBytes (object ms)) := by
  cases ms with
  | nil =>
    rw [valueBytes_nil_object]
    exact .object blanks_nil (.close blanks_nil)
  | cons m ms =>
    obtain ⟨name, v⟩ := m
    have hrest := spellsMembers_membersBytes fun m hm => h m (List.mem_cons_of_mem _ hm)
    have hmember := SpellsMembers.member separator_first blanks_nil (spellsBytes_stringTail name)
      blanks_nil (h _ List.mem_cons_self) hrest
    have hobject := Spells.object blanks_nil hmember
    rw [valueBytes_object, memberBytes]
    simpa using hobject

/-- **An object is written as a document of it if its members are.** -/
theorem document_renderMembers (ms : List (String × Json))
    (h : ∀ m ∈ ms, Spells m.2 (valueBytes m.2)) :
    Document (object ms) (encode (renderMembers (ms.map fun m => (m.1, m.2.render)))) :=
  ⟨_, [], spells_object h, blanks_nil, by rw [encode_renderMembers, List.append_nil]⟩

end Quorum.Json
