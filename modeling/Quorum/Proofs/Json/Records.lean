import Mathlib
import Quorum.Json.Record
import Quorum.Proofs.Json.Extent

/-!
# What a record takes up

A record is read from the front of a text that is at least as long as its members together, those
left out counted by their fallbacks, and every member gets what it may hold
(`Shape.readFront_leaves`). What the record does not know is skipped, which takes from the text
and never adds to it (`skip_consumes`).
-/

namespace Quorum.Json

open Ascii

/-! ## Skipping -/

/-- What is left after skipping is no longer than what there was. -/
def Consumes (s : Bytes) (r : Except Fault Bytes) : Prop :=
  ∀ rest, r = .ok rest → rest.length ≤ s.length

namespace Consumes

variable {s s' : Bytes} {r r' : Except Fault Bytes}

theorem ok {rest : Bytes} (h : rest.length ≤ s.length) : Consumes s (.ok rest) := by
  rintro _ ⟨⟩
  exact h

theorem error (f : Fault) : Consumes s (.error f) := by
  rintro _ ⟨⟩

theorem ite {c : Prop} [Decidable c] (h : Consumes s r) (h' : Consumes s r') :
    Consumes s (if c then r else r') := by
  split
  · exact h
  · exact h'

theorem mono (h : Consumes s r) (hs : s.length ≤ s'.length) : Consumes s' r :=
  fun rest hr => (h rest hr).trans hs

end Consumes

theorem skipString_consumes (fuel : Nat) (s : Bytes) : Consumes s (skipString fuel s) := by
  fun_induction skipString fuel s with
  | case1 | case2 | case4 | case6 | case8 | case9 => exact .error _
  | case3 => exact .ok (Nat.le_succ _)
  | case5 _ _ _ _ _ ih => exact ih.mono (by simp only [List.length_cons]; omega)
  | case7 fuel rest code t hcode _ _ ih =>
    have := hexEscape_leaves rest code t hcode
    exact ih.mono (by simp only [List.length_cons]; omega)
  | case10 _ _ _ _ _ _ ih => exact ih.mono (Nat.le_succ _)

theorem skipDigits_consumes (count : Nat) (s : Bytes) : Consumes s (.ok (skipDigits count s).2) :=
  .ok (skipDigits_suffix count s).length_le

theorem skipExponent_consumes (s : Bytes) : Consumes s (skipExponent s) := by
  cases s with
  | nil => exact .error _
  | cons b s =>
    have hsign : (if b = plus || b = minus then s else b :: s).length ≤ (b :: s).length := by
      split <;> simp
    unfold skipExponent
    dsimp only
    generalize (if b = plus || b = minus then s else b :: s) = t at hsign ⊢
    cases t with
    | nil => exact .error _
    | cons c t =>
      rw [List.length_cons] at hsign
      exact .ite ((skipDigits_consumes 0 t).mono (by omega)) (.error _)

theorem skipFraction_consumes (s : Bytes) : Consumes s (skipFraction s) := by
  have hrest := (skipDigits_suffix 0 s).length_le
  unfold skipFraction
  generalize skipDigits 0 s = p at hrest ⊢
  obtain ⟨count, t⟩ := p
  dsimp only at hrest ⊢
  refine .ite (.error _) ?_
  cases t with
  | nil => exact .ok (Nat.zero_le _)
  | cons b t =>
    rw [List.length_cons] at hrest
    exact .ite ((skipExponent_consumes t).mono (by omega)) (.ok hrest)

theorem skipNumber_consumes (s : Bytes) : Consumes s (skipNumber s) := by
  cases s with
  | nil => exact .error _
  | cons b s =>
    have hrest := (skipDigits_suffix 0 (b :: s)).length_le
    unfold skipNumber
    refine .ite (.error _) (.ite (.error _) ?_)
    generalize skipDigits 0 (b :: s) = p at hrest ⊢
    obtain ⟨count, t⟩ := p
    dsimp only at hrest ⊢
    cases t with
    | nil => exact .ok (Nat.zero_le _)
    | cons c t =>
      rw [List.length_cons] at hrest
      exact .ite ((skipFraction_consumes t).mono (by omega))
        (.ite ((skipExponent_consumes t).mono (by omega)) (.ok hrest))

theorem ident_consumes (letters : List UInt8) (s : Bytes) : Consumes s (ident letters s) :=
  fun rest h => by
    have := length_of_ident h
    omega

theorem skipScalar_consumes (fuel : Nat) (s : Bytes) : Consumes s (skipScalar fuel s) := by
  cases s with
  | nil => exact .error _
  | cons b s =>
    have hcons : s.length ≤ (b :: s).length := by simp
    exact .ite ((skipString_consumes fuel s).mono hcons)
      (.ite ((skipNumber_consumes s).mono hcons) (.ite (skipNumber_consumes (b :: s))
        (.ite ((ident_consumes ull s).mono hcons) (.ite ((ident_consumes rue s).mono hcons)
          (.ite ((ident_consumes alse s).mono hcons) (.error _))))))

theorem skipName_consumes (fuel : Nat) (s : Bytes) : Consumes s (skipName fuel s) := by
  unfold skipName
  split
  · exact .error _
  · rename_i b rest hs
    have hlength := length_of_skipBlank hs
    refine .ite ?_ (.error _)
    cases hstring : skipString fuel rest with
    | error f => exact .error _
    | ok t =>
      have hstring := skipString_consumes fuel rest t hstring
      intro u hu
      have hcolon := length_of_colonAfter (s := t) hu
      omega

theorem length_behindComma (comma : Bool) (b : UInt8) (rest : Bytes) :
    (if comma then rest else b :: rest).length ≤ rest.length + 1 := by
  split
  · exact Nat.le_succ _
  · exact le_rfl

theorem skipFrom_consumes (fuel : Nat) (place : Place) (frames : List Frame) (s : Bytes) :
    Consumes s (skipFrom fuel place frames s) := by
  fun_induction skipFrom fuel place frames s with
  | case1 | case3 | case6 | case8 | case10 | case12 => exact .error _
  | case2 => exact .ok le_rfl
  | case4 _ _ s rest hs ih | case5 _ _ s rest hs _ ih =>
    have := length_of_skipBlank hs
    exact ih.mono (by omega)
  | case7 fuel _ s b rest hs _ _ t ht ih =>
    have hlength := length_of_skipBlank hs
    have hscalar := skipScalar_consumes fuel (b :: rest) t ht
    rw [List.length_cons] at hscalar
    exact ih.mono (by omega)
  | case9 _ _ _ _ s _ rest hs _ ih =>
    have := length_of_skipBlank hs
    exact ih.mono (by omega)
  | case11 _ comma _ s b rest hs _ t _ ih =>
    have hlength := length_of_skipBlank hs
    have ht : t.length ≤ rest.length + 1 := length_behindComma comma b rest
    exact ih.mono (by omega)
  | case13 fuel comma _ s b rest hs _ t u hname _ ih =>
    have hlength := length_of_skipBlank hs
    have ht : t.length ≤ rest.length + 1 := length_behindComma comma b rest
    have hname := skipName_consumes fuel t u hname
    exact ih.mono (by omega)

theorem skip_consumes (fuel : Nat) (s : Bytes) : Consumes s (skip fuel s) :=
  skipFrom_consumes _ _ _ s

/-! ## Members -/

/-- What reading a member of the kind may give. -/
def MemberKind.Reads (depth : Nat) (kind : MemberKind) (v : Json) : Prop :=
  Valid v ∧ v.depth < depth ∧ (kind = .text → ∃ s, v = string s)

/-- A member gets what was read for it, or its fallback. -/
def Member.Gets (depth : Nat) (m : Member) (v : Json) : Prop :=
  m.kind.Reads depth v ∨ m.fallback = some v

theorem expectText_leaves (expected : String) (fuel : Nat) (s : Bytes) :
    Leaves (fun str rest => extent (string str) + rest.length ≤ s.length)
      (expectText expected fuel s) := by
  unfold expectText
  split
  · exact .error _
  · rename_i b rest hs
    have hlength := length_of_skipBlank hs
    refine .ite ((text_leaves fuel rest).mono fun str t h => ?_) (.error _)
    rw [extent_string]
    omega

theorem MemberKind.read_leaves (kind : MemberKind) (fuel : Nat) {depth : Nat} (hd : 0 < depth)
    (s : Bytes) :
    Leaves (fun v rest => kind.Reads depth v ∧ extent v + rest.length ≤ s.length)
      (kind.read fuel depth s) := by
  cases kind with
  | text =>
    unfold MemberKind.read
    cases ht : expectText "a string" fuel s with
    | error f => exact .error f
    | ok p =>
      obtain ⟨str, rest⟩ := p
      exact .ok ⟨⟨trivial, hd, fun _ => ⟨str, rfl⟩⟩, expectText_leaves _ fuel s str rest ht⟩
  | any =>
    intro v rest hv
    obtain ⟨hdepth, hextent⟩ := value_leaves fuel hd s v rest hv
    exact ⟨⟨value_yields fuel depth s v rest hv, hdepth, nofun⟩, hextent⟩

/-! ## Records -/

namespace Shape

/-- What the values that are there take up together. -/
def slotExtent (slots : Slots) : Nat := (slots.map fun slot => (slot.map extent).getD 0).sum

/-- What the members that may be left out take up when they are. -/
def fallbackExtent (ms : List Member) : Nat := slotExtent (ms.map (·.fallback))

/-- Every place that is taken holds what its member may read. -/
def Hold (depth : Nat) (ms : List Member) (slots : Slots) : Prop :=
  List.Forall₂ (fun m slot => ∀ v ∈ slot, m.kind.Reads depth v) ms slots

/-- Every member has its value, and the values take up `total` at most. -/
def Filled (depth : Nat) (ms : List Member) (total : Nat) (values : List Json) : Prop :=
  List.Forall₂ (Member.Gets depth) ms values ∧ (values.map extent).sum ≤ total

theorem hold_none (depth : Nat) (ms : List Member) : Hold depth ms (ms.map fun _ => none) := by
  induction ms with
  | nil => exact .nil
  | cons m ms ih => exact .cons nofun ih

theorem slotExtent_none (ms : List Member) : slotExtent (ms.map fun _ => none) = 0 := by
  induction ms with
  | nil => rfl
  | cons m ms ih => exact (Nat.zero_add _).trans ih

theorem complete_nil (ms : List Member) : complete ms [] = complete ms (ms.map fun _ => none) := by
  induction ms with
  | nil => rfl
  | cons m ms ih =>
    rw [complete, complete, List.map_cons, List.tail_nil, List.tail_cons, ih]
    rfl

theorem complete_filled {depth : Nat} {ms : List Member} {slots : Slots} {values : List Json}
    (hslots : Hold depth ms slots) (h : complete ms slots = .ok values) :
    Filled depth ms (slotExtent slots + fallbackExtent ms) values := by
  induction hslots generalizing values with
  | nil =>
    cases h
    exact ⟨.nil, Nat.zero_le _⟩
  | @cons m slot ms slots hslot _ ih =>
    rw [complete, List.head?_cons, Option.join_some, List.tail_cons] at h
    cases hv : (slot <|> m.fallback) with
    | none =>
      rw [hv] at h
      cases h
    | some v =>
      rw [hv] at h
      cases hrest : complete ms slots with
      | error e =>
        rw [hrest] at h
        cases h
      | ok rest =>
        rw [hrest] at h
        cases h
        obtain ⟨hrest, hsum⟩ := ih hrest
        have hgets : m.Gets depth v ∧
            extent v ≤ (slot.map extent).getD 0 + (m.fallback.map extent).getD 0 := by
          cases slot with
          | some w =>
            cases hv
            exact ⟨.inl (hslot v rfl), Nat.le_add_right _ _⟩
          | none =>
            have hv : m.fallback = some v := hv
            rw [hv]
            exact ⟨.inr hv, Nat.le_add_left _ _⟩
        refine ⟨.cons hgets.1 hrest, ?_⟩
        simp only [slotExtent, fallbackExtent, List.map_cons, List.sum_cons] at hsum ⊢
        omega

theorem slotExtent_set_le (slots : Slots) (i : Nat) (v : Json) :
    slotExtent (slots.set i (some v)) ≤ slotExtent slots + extent v := by
  induction slots generalizing i with
  | nil => exact Nat.zero_le _
  | cons slot slots ih =>
    cases i with
    | zero =>
      simp only [slotExtent, List.set_cons_zero, List.map_cons, List.sum_cons, Option.map_some,
        Option.getD_some]
      omega
    | succ i =>
      have := ih i
      simp only [slotExtent, List.set_cons_succ, List.map_cons, List.sum_cons] at this ⊢
      omega

/-- A value for the member with a name goes to its place. -/
theorem Hold.set {depth k i : Nat} {name : String} {ms : List Member} {kind : MemberKind}
    {slots : Slots} {v : Json} (h : Hold depth ms slots)
    (hfind : find? name k ms = some (i, kind)) (hv : kind.Reads depth v) :
    k ≤ i ∧ Hold depth ms (slots.set (i - k) (some v)) := by
  induction h generalizing k with
  | nil => cases hfind
  | @cons m slot ms slots hslot hrest ih =>
    rw [find?] at hfind
    split at hfind
    · cases hfind
      refine ⟨le_rfl, ?_⟩
      rw [Nat.sub_self, List.set_cons_zero]
      refine .cons ?_ hrest
      rintro _ ⟨⟩
      exact hv
    · obtain ⟨hle, hset⟩ := ih hfind
      obtain ⟨j, rfl⟩ : ∃ j, i = k + 1 + j := Nat.exists_eq_add_of_le hle
      refine ⟨by omega, ?_⟩
      rw [show k + 1 + j - (k + 1) = j by omega] at hset
      rw [show k + 1 + j - k = j + 1 by omega, List.set_cons_succ]
      exact .cons hslot hset

theorem readMembers_leaves (shape : Shape) {depth : Nat} (hd : 0 < depth) (fuel : Nat)
    (first : Bool) (slots : Slots) (s : Bytes) (hslots : Hold depth shape.members slots) :
    Leaves (fun values rest => ∃ total, Filled depth shape.members total values ∧
      total + rest.length ≤ s.length + slotExtent slots + fallbackExtent shape.members)
      (shape.readMembers depth fuel first slots s) := by
  induction fuel generalizing first slots s with
  | zero => exact .error _
  | succ fuel ih =>
    unfold readMembers
    split
    · exact .error _
    · rename_i rest hnext
      have hstop : rest.length + 1 ≤ s.length := nextName_within hnext
      split
      · rename_i values hvalues
        exact .ok ⟨_, complete_filled hslots hvalues, by omega⟩
      · exact .error _
    · rename_i rest hnext
      have hmore : rest.length ≤ s.length :=
        (Nat.le_add_right _ _).trans (nextName_within hnext)
      split
      · exact .error _
      rename_i name t hname
      have htext := text_leaves fuel rest name t hname
      split
      · split
        · exact .error _
        rename_i u hcolon
        have hcolon := length_of_colonAfter hcolon
        split
        · exact .error _
        rename_i w hskip
        have hskip := skip_consumes fuel u w hskip
        refine (ih false slots w hslots).mono ?_
        rintro values left ⟨total, hfilled, htotal⟩
        exact ⟨total, hfilled, by omega⟩
      · rename_i i kind hfind
        refine .ite (.error _) ?_
        split
        · exact .error _
        rename_i u hcolon
        have hcolon := length_of_colonAfter hcolon
        split
        · exact .error _
        rename_i v w hv
        obtain ⟨hreads, hextent⟩ := kind.read_leaves fuel hd u v w hv
        have hset := (hslots.set hfind hreads).2
        rw [Nat.sub_zero] at hset
        have hextents := slotExtent_set_le slots i v
        refine (ih false _ w hset).mono ?_
        rintro values left ⟨total, hfilled, htotal⟩
        exact ⟨total, hfilled, by omega⟩

theorem length_of_closeList {s rest : Bytes} (h : closeList s = .ok rest) :
    rest.length ≤ s.length := by
  unfold closeList at h
  split at h
  · cases h
  rename_i b t hs
  have hlength := length_of_skipBlank hs
  split at h
  · cases h
    omega
  · split at h
    · split at h
      · split at h <;> cases h
      · cases h
    · cases h

theorem readItems_leaves (shape : Shape) {depth : Nat} (hd : 0 < depth) (fuel : Nat)
    (done ms : List Member) (i : Nat) (acc : List Json) (s : Bytes)
    (hacc : List.Forall₂ (Member.Gets depth) done acc.reverse) :
    Leaves (fun values rest => ∃ total, Filled depth (done ++ ms) total values ∧
      total + rest.length ≤ s.length + (acc.map extent).sum + fallbackExtent ms)
      (shape.readItems fuel depth ms i acc s) := by
  induction ms generalizing done i acc s with
  | nil =>
    unfold readItems
    rw [List.append_nil]
    cases hclose : closeList s with
    | error f => exact .error f
    | ok rest =>
      have := length_of_closeList hclose
      refine .ok ⟨(acc.map extent).sum, ⟨hacc, ?_⟩, by omega⟩
      rw [List.map_reverse, List.sum_reverse]
  | cons m ms ih =>
    unfold readItems
    split
    · exact .error _
    · rename_i rest hnext
      have hstop : rest.length + 1 ≤ s.length := nextItem_within hnext
      split
      · rename_i values hvalues
        rw [complete_nil] at hvalues
        obtain ⟨hgets, htotal⟩ := complete_filled (hold_none depth (m :: ms)) hvalues
        rw [slotExtent_none] at htotal
        refine .ok ⟨(acc.map extent).sum + fallbackExtent (m :: ms),
          ⟨List.rel_append hacc hgets, ?_⟩, by omega⟩
        rw [List.map_append, List.sum_append, List.map_reverse, List.sum_reverse]
        omega
      · exact .error _
    · rename_i rest hnext
      have hmore : rest.length ≤ s.length :=
        (Nat.le_add_right _ _).trans (nextItem_within hnext)
      split
      · exact .error _
      rename_i v t hv
      obtain ⟨hreads, hextent⟩ := m.kind.read_leaves fuel hd rest v t hv
      have hall : List.Forall₂ (Member.Gets depth) (done ++ [m]) (v :: acc).reverse := by
        rw [List.reverse_cons]
        exact List.rel_append hacc (.cons (.inl hreads) .nil)
      refine (ih (done ++ [m]) (i + 1) (v :: acc) t hall).mono ?_
      rintro values left ⟨total, hfilled, htotal⟩
      rw [List.append_assoc] at hfilled
      simp only [List.map_cons, List.sum_cons] at htotal
      have hfallback : fallbackExtent ms ≤ fallbackExtent (m :: ms) := Nat.le_add_left _ _
      exact ⟨total, hfilled, by omega⟩

/-- **A record takes up no more than its text and the members it may do without.** -/
theorem readFront_leaves (shape : Shape) (s : Bytes) :
    Leaves (fun values rest => ∃ total, Filled (depthLimit - 1) shape.members total values ∧
      total + rest.length ≤ s.length + fallbackExtent shape.members) (shape.readFront s) := by
  unfold readFront
  split
  · exact .error _
  rename_i b rest hs
  have hlength := length_of_skipBlank hs
  refine .ite ?_ (.ite ?_ (.error _))
  · refine (shape.readMembers_leaves (by decide) _ true _ rest (hold_none _ _)).mono ?_
    rintro values left ⟨total, hfilled, htotal⟩
    rw [slotExtent_none] at htotal
    exact ⟨total, hfilled, by omega⟩
  · refine (shape.readItems_leaves (by decide) _ [] shape.members 0 [] rest .nil).mono ?_
    rintro values left ⟨total, hfilled, htotal⟩
    exact ⟨total, hfilled, by rw [List.map_nil, List.sum_nil] at htotal; omega⟩

end Shape

end Quorum.Json
