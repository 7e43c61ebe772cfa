import Mathlib
import Quorum.Json.Value
import Quorum.Proofs.Number.Text

/-!
# The text of a value

`chars` is the text of a value as a list of characters, without the accumulator that
`write` appends to (`write_toList`). `Valid` values are those that other programs can
hold: whole numbers in range, finite doubles, members in increasing order of their names.
No text of a valid value followed by something that cannot extend a number is the start of
another one (`chars_append_inj`), so the text determines the value (`render_injective`).
-/

namespace Quorum.Json

open Decimal

/-! ## Characters -/

def stringChars (s : String) : List Char := '"' :: s.toList.flatMap escape ++ ['"']

mutual

def chars : Json → List Char
  | null => ['n', 'u', 'l', 'l']
  | bool true => ['t', 'r', 'u', 'e']
  | bool false => ['f', 'a', 'l', 's', 'e']
  | integer n => (toString n).toList
  | double x => (doubleLayout.text x).toList
  | string s => stringChars s
  | array [] => ['[', ']']
  | array (v :: rest) => '[' :: chars v ++ itemsChars rest ++ [']']
  | object [] => ['\x7b', '\x7d']
  | object ((name, v) :: rest) =>
    '\x7b' :: stringChars name ++ ':' :: chars v ++ membersChars rest ++ ['\x7d']

def itemsChars : List Json → List Char
  | [] => []
  | v :: rest => ',' :: chars v ++ itemsChars rest

def membersChars : List (String × Json) → List Char
  | [] => []
  | (name, v) :: rest => ',' :: stringChars name ++ ':' :: chars v ++ membersChars rest

end

theorem writeChar_toList (acc : String) (c : Char) :
    (writeChar acc c).toList = acc.toList ++ escape c := by
  unfold writeChar
  split
  · rename_i h
    simp only [Bool.and_eq_true, decide_eq_true_eq, bne_iff_ne, ne_eq] at h
    obtain ⟨⟨hc, hq⟩, hb⟩ := h
    have hlow : ∀ d : Char, d.toNat < 32 → c ≠ d := by rintro d hd rfl; omega
    have hesc : escape c = [c] := by
      simp only [escape, hq, hb, hlow '\n' (by decide), hlow '\r' (by decide),
        hlow '\t' (by decide), show ¬ c.toNat = 8 by omega, show ¬ c.toNat = 12 by omega,
        show ¬ c.toNat < 32 by omega, ↓reduceIte]
    rw [hesc, String.toList_push]
  · have hfold (l : List Char) (a : String) : (l.foldl String.push a).toList = a.toList ++ l := by
      induction l generalizing a with
      | nil => simp
      | cons d l ih => rw [List.foldl_cons, ih, String.toList_push]; simp
    exact hfold _ _

theorem writeString_toList (acc s : String) :
    (writeString acc s).toList = acc.toList ++ stringChars s := by
  have hfold (l : List Char) (a : String) :
      (l.foldl writeChar a).toList = a.toList ++ l.flatMap escape := by
    induction l generalizing a with
    | nil => simp
    | cons d l ih => rw [List.foldl_cons, ih, writeChar_toList]; simp
  unfold writeString stringChars
  rw [String.toList_push, String.foldl_eq_foldl_toList, hfold, String.toList_push]
  simp

mutual

theorem write_toList (acc : String) : ∀ v : Json, (write acc v).toList = acc.toList ++ chars v
  | null => by simp [write, chars]
  | bool true => by simp [write, chars]
  | bool false => by simp [write, chars]
  | integer n => by simp [write, chars]
  | double x => by simp [write, chars]
  | string s => by rw [write, chars, writeString_toList]
  | array [] => by simp [write, chars]
  | array (v :: rest) => by
    rw [write, chars, String.toList_push, writeItems_toList, write_toList, String.toList_push]
    simp
  | object [] => by simp [write, chars]
  | object ((name, v) :: rest) => by
    rw [write, chars, String.toList_push, writeMembers_toList, write_toList, String.toList_push,
      writeString_toList, String.toList_push]
    simp

theorem writeItems_toList (acc : String) :
    ∀ vs : List Json, (writeItems acc vs).toList = acc.toList ++ itemsChars vs
  | [] => by simp [writeItems, itemsChars]
  | v :: rest => by
    rw [writeItems, itemsChars, writeItems_toList, write_toList, String.toList_push]
    simp

theorem writeMembers_toList (acc : String) :
    ∀ ms : List (String × Json), (writeMembers acc ms).toList = acc.toList ++ membersChars ms
  | [] => by simp [writeMembers, membersChars]
  | (name, v) :: rest => by
    rw [writeMembers, membersChars, writeMembers_toList, write_toList, String.toList_push,
      writeString_toList, String.toList_push]
    simp

end

theorem render_toList (v : Json) : v.render.toList = chars v := by
  rw [render, write_toList]; simp

/-! ## Values that others can hold -/

mutual

def Valid : Json → Prop
  | integer n => IntegerRange n
  | double x => x.isFinite = true
  | array items => ValidItems items
  | object members => members.Pairwise (fun a b => a.1 < b.1) ∧ ValidMembers members
  | _ => True

def ValidItems : List Json → Prop
  | [] => True
  | v :: rest => Valid v ∧ ValidItems rest

def ValidMembers : List (String × Json) → Prop
  | [] => True
  | (_, v) :: rest => Valid v ∧ ValidMembers rest

end

/-! ## Strings -/

/-- The characters that do not stand for themselves, by their codes. -/
def escapedCodes : List Nat := List.range 32 ++ [34, 92]

theorem escape_cases (c : Char) :
    (escape c = [c] ∧ c ≠ '"' ∧ c ≠ '\\') ∨ c.toNat ∈ escapedCodes := by
  by_cases hm : c.toNat ∈ escapedCodes
  · exact .inr hm
  · left
    simp only [escapedCodes, List.mem_append, List.mem_range, List.mem_cons, List.not_mem_nil,
      or_false, not_or] at hm
    obtain ⟨hlow, hq, hb⟩ := hm
    have hne : ∀ d : Char, d.toNat < 32 ∨ d.toNat = 34 ∨ d.toNat = 92 → c ≠ d := by
      rintro d hd rfl; omega
    refine ⟨?_, hne _ (by decide), hne _ (by decide)⟩
    simp only [escape, hne '"' (by decide), hne '\\' (by decide), hne '\n' (by decide),
      hne '\r' (by decide), hne '\t' (by decide), show ¬ c.toNat = 8 by omega,
      show ¬ c.toNat = 12 by omega, hlow, ↓reduceIte]

theorem escape_escaped : ∀ m ∈ escapedCodes, (escape (Char.ofNat m)).head? = some '\\' := by
  decide

theorem escape_inj_escaped : ∀ m ∈ escapedCodes, ∀ n ∈ escapedCodes,
    escape (Char.ofNat m) <+: escape (Char.ofNat n) → m = n := by
  decide

theorem escape_head (c : Char) : ∃ a rest, escape c = a :: rest ∧ a ≠ '"' := by
  rcases escape_cases c with ⟨he, hq, -⟩ | hc
  · exact ⟨c, [], he, hq⟩
  · have h := escape_escaped _ hc
    rw [Char.ofNat_toNat] at h
    cases he : escape c with
    | nil => rw [he] at h; cases h
    | cons a rest =>
      rw [he] at h
      cases h
      exact ⟨_, _, rfl, by decide⟩

/-- No character is written as the start of another one. -/
theorem eq_of_prefix_escape {c d : Char} (h : escape c <+: escape d) : c = d := by
  rcases escape_cases c with ⟨hc, -, hcb⟩ | hc <;> rcases escape_cases d with ⟨hd, -, hdb⟩ | hd
  · rw [hc, hd] at h
    simpa using h
  · have hs := escape_escaped _ hd
    obtain ⟨t, ht⟩ := h
    rw [Char.ofNat_toNat, ← ht, hc] at hs
    exact absurd (by simpa using hs) hcb
  · have hs := escape_escaped _ hc
    rw [Char.ofNat_toNat] at hs
    obtain ⟨t, ht⟩ := h
    cases he : escape c with
    | nil => rw [he] at hs; cases hs
    | cons a rest =>
      rw [he] at hs ht
      rw [hd] at ht
      cases hs
      exact absurd (List.cons.inj ht).1.symm hdb
  · have hn := escape_inj_escaped _ hc _ hd (by rwa [Char.ofNat_toNat, Char.ofNat_toNat])
    exact Char.toNat_inj.mp hn

theorem escaped_append_inj : ∀ {l m r r' : List Char},
    l.flatMap escape ++ '"' :: r = m.flatMap escape ++ '"' :: r' → l = m ∧ r = r'
  | [], [], _, _, h => ⟨rfl, (List.cons.inj h).2⟩
  | [], d :: m, _, _, h => by
    obtain ⟨a, rest, he, ha⟩ := escape_head d
    rw [List.flatMap_cons, he] at h
    exact absurd (List.cons.inj h).1.symm ha
  | c :: l, [], _, _, h => by
    obtain ⟨a, rest, he, ha⟩ := escape_head c
    rw [List.flatMap_cons, he] at h
    exact absurd (List.cons.inj h).1 ha
  | c :: l, d :: m, r, r', h => by
    rw [List.flatMap_cons, List.flatMap_cons, List.append_assoc, List.append_assoc] at h
    have hcd : c = d := by
      rcases List.prefix_or_prefix_of_prefix (List.prefix_append (escape c) _)
        (h ▸ List.prefix_append (escape d) _) with hp | hp
      · exact eq_of_prefix_escape hp
      · exact (eq_of_prefix_escape hp).symm
    subst hcd
    obtain ⟨rfl, rfl⟩ := escaped_append_inj (List.append_cancel_left h)
    exact ⟨rfl, rfl⟩

theorem stringChars_append_inj {s t : String} {r r' : List Char}
    (h : stringChars s ++ r = stringChars t ++ r') : s = t ∧ r = r' := by
  simp only [stringChars, List.cons_append, List.append_assoc, List.nil_append,
    List.cons.injEq, true_and] at h
  obtain ⟨hs, rfl⟩ := escaped_append_inj h
  exact ⟨String.toList_injective hs, rfl⟩

/-! ## Values -/

/-- What follows a value in a text: nothing that could go on with a number. -/
def Ends (r : List Char) : Prop := ∀ c rest, r = c :: rest → ¬ IsNumeric c

theorem ends_nil : Ends [] := by intro c rest h; cases h

theorem ends_cons {c : Char} (h : ¬ IsNumeric c) (rest : List Char) : Ends (c :: rest) := by
  rintro _ _ ⟨⟩; exact h

/-- Of two texts with numbers in front, the numbers are the same. -/
theorem numeric_append_inj : ∀ {s t r r' : List Char}, (∀ c ∈ s, IsNumeric c) →
    (∀ c ∈ t, IsNumeric c) → Ends r → Ends r' → s ++ r = t ++ r' → s = t ∧ r = r'
  | [], [], _, _, _, _, _, _, h => ⟨rfl, h⟩
  | [], d :: t, _, _, _, ht, hr, _, h => absurd (ht d (by simp)) (hr _ _ h)
  | c :: s, [], _, _, hs, _, _, hr', h => absurd (hs c (by simp)) (hr' _ _ h.symm)
  | c :: s, d :: t, _, _, hs, ht, hr, hr', h => by
    obtain ⟨rfl, h'⟩ := List.cons.inj h
    obtain ⟨rfl, rfl⟩ := numeric_append_inj (fun a ha => hs a (List.mem_cons_of_mem _ ha))
      (fun a ha => ht a (List.mem_cons_of_mem _ ha)) hr hr' h'
    exact ⟨rfl, rfl⟩

/-- What the first character of a text tells about its value. -/
inductive Lead where
  | null
  | bool (b : Bool)
  | number
  | string
  | array
  | object
  deriving DecidableEq

def lead : Json → Lead
  | null => .null
  | bool b => .bool b
  | integer _ | double _ => .number
  | string _ => .string
  | array _ => .array
  | object _ => .object

def leadOf (c : Char) : Lead :=
  if c = 'n' then .null else if c = 't' then .bool true else if c = 'f' then .bool false
  else if c = '"' then .string else if c = '[' then .array else if c = '\x7b' then .object
  else .number

theorem leadOf_numeric {c : Char} (h : IsNumeric c) : leadOf c = .number := by
  have hne : ∀ d : Char, ¬ IsNumeric d → c ≠ d := by rintro d hd rfl; exact hd h
  simp only [leadOf, hne 'n' (by decide), hne 't' (by decide), hne 'f' (by decide),
    hne '"' (by decide), hne '[' (by decide), hne '\x7b' (by decide), ↓reduceIte]

theorem intText_head (n : Int) : ∃ c rest, (toString n).toList = c :: rest ∧ IsNumeric c := by
  cases h : (toString n).toList with
  | nil =>
    rw [intText_toList] at h
    exact absurd (List.append_eq_nil_iff.mp h).2 Nat.toDigits_ne_nil
  | cons c rest => exact ⟨c, rest, rfl, isNumeric_intText (n := n) (h ▸ List.mem_cons_self)⟩

theorem doubleText_head {x : Double} (hx : x.isFinite) :
    ∃ c rest, (doubleLayout.text x).toList = c :: rest ∧ IsNumeric c := by
  cases h : (doubleLayout.text x).toList with
  | nil =>
    rw [doubleText_toList hx] at h
    obtain ⟨c, rest, hc, -⟩ := (fractional_magnitudeText x).head
    rw [hc] at h
    simp at h
  | cons c rest => exact ⟨c, rest, rfl, isNumeric_doubleText hx (h ▸ List.mem_cons_self)⟩

theorem ne_closeBracket {c : Char} (h : IsNumeric c) : c ≠ ']' := by
  rintro rfl; revert h; decide

theorem chars_head {v : Json} (hv : Valid v) :
    ∃ c rest, chars v = c :: rest ∧ leadOf c = lead v ∧ c ≠ ']' := by
  cases v with
  | null => exact ⟨_, _, rfl, rfl, by decide⟩
  | bool b => cases b <;> exact ⟨_, _, rfl, rfl, by decide⟩
  | integer n =>
    obtain ⟨c, rest, h, hc⟩ := intText_head n
    exact ⟨c, rest, h, leadOf_numeric hc, ne_closeBracket hc⟩
  | double x =>
    obtain ⟨c, rest, h, hc⟩ := doubleText_head hv
    exact ⟨c, rest, h, leadOf_numeric hc, ne_closeBracket hc⟩
  | string s => exact ⟨_, _, rfl, rfl, by decide⟩
  | array items => cases items <;> exact ⟨_, _, rfl, rfl, by decide⟩
  | object members =>
    cases members with
    | nil => exact ⟨_, _, rfl, rfl, by decide⟩
    | cons m rest => exact ⟨_, _, by rw [chars]; rfl, rfl, by decide⟩

theorem lead_eq {v w : Json} {r r' : List Char} (hv : Valid v) (hw : Valid w)
    (h : chars v ++ r = chars w ++ r') : lead v = lead w := by
  obtain ⟨c, rest, hc, hcv, -⟩ := chars_head hv
  obtain ⟨d, rest', hd, hdw, -⟩ := chars_head hw
  rw [hc, hd] at h
  rw [← hcv, ← hdw, (List.cons.inj h).1]

theorem ends_items (vs : List Json) (r : List Char) : Ends (itemsChars vs ++ ']' :: r) := by
  cases vs with
  | nil => exact ends_cons (by decide) _
  | cons v rest => rw [itemsChars]; exact ends_cons (by decide) _

theorem ends_members (ms : List (String × Json)) (r : List Char) :
    Ends (membersChars ms ++ '\x7d' :: r) := by
  cases ms with
  | nil => exact ends_cons (by decide) _
  | cons m rest => rw [membersChars]; exact ends_cons (by decide) _

theorem number_chars {v : Json} (hv : Valid v) (hn : lead v = .number) :
    ∀ c ∈ chars v, IsNumeric c := by
  cases v with
  | integer n => exact fun c hc => isNumeric_intText hc
  | double x => exact fun c hc => isNumeric_doubleText hv hc
  | _ => cases hn

theorem number_eq {v w : Json} (hv : Valid v) (hw : Valid w) (hn : lead v = .number)
    (hn' : lead w = .number) (h : chars v = chars w) : v = w := by
  cases v with
  | integer m =>
    cases w with
    | integer n => rw [intText_injective (String.toList_injective h)]
    | double y => exact absurd (String.toList_injective h) (intText_ne_doubleText m hw)
    | _ => cases hn'
  | double x =>
    cases w with
    | integer n => exact absurd (String.toList_injective h.symm) (intText_ne_doubleText n hv)
    | double y => rw [doubleText_injective hv hw (String.toList_injective h)]
    | _ => cases hn'
  | _ => cases hn

theorem number_append_inj {v w : Json} {r r' : List Char} (hr : Ends r) (hr' : Ends r')
    (hv : Valid v) (hw : Valid w) (hn : lead v = .number) (h : chars v ++ r = chars w ++ r') :
    v = w ∧ r = r' := by
  have hn' : lead w = .number := (lead_eq hv hw h).symm.trans hn
  obtain ⟨hc, hrr⟩ := numeric_append_inj (number_chars hv hn) (number_chars hw hn') hr hr' h
  exact ⟨number_eq hv hw hn hn' hc, hrr⟩

/-- No value begins with the bracket that ends a list. -/
theorem closeBracket_ne_chars {v : Json} (hv : Valid v) (r r' : List Char) :
    ']' :: r ≠ chars v ++ r' := by
  obtain ⟨c, rest, hc, -, hne⟩ := chars_head hv
  rw [hc]
  intro h
  exact hne (List.cons.inj h).1.symm

mutual

/-- A valid value can be told from the front of a text. -/
theorem chars_append_inj {r r' : List Char} (hr : Ends r) (hr' : Ends r') :
    ∀ v w : Json, Valid v → Valid w → chars v ++ r = chars w ++ r' → v = w ∧ r = r'
  | null, w, hv, hw, h => by
    have hl := lead_eq hv hw h
    cases w <;> cases hl
    exact ⟨rfl, by simpa [chars] using h⟩
  | bool b, w, hv, hw, h => by
    have hl := lead_eq hv hw h
    cases w <;> cases hl
    exact ⟨rfl, List.append_cancel_left h⟩
  | integer _, _, hv, hw, h => number_append_inj hr hr' hv hw rfl h
  | double _, _, hv, hw, h => number_append_inj hr hr' hv hw rfl h
  | string s, w, hv, hw, h => by
    have hl := lead_eq hv hw h
    cases w <;> cases hl
    obtain ⟨rfl, rfl⟩ := stringChars_append_inj h
    exact ⟨rfl, rfl⟩
  | array [], w, hv, hw, h => by
    have hl := lead_eq hv hw h
    cases w <;> cases hl
    rename_i ws
    cases ws with
    | nil => exact ⟨rfl, List.append_cancel_left h⟩
    | cons w ws =>
      simp only [chars, List.cons_append, List.append_assoc, List.cons.injEq, true_and] at h
      exact absurd h (closeBracket_ne_chars hw.1 _ _)
  | array (v :: vs), w, hv, hw, h => by
    have hl := lead_eq hv hw h
    cases w <;> cases hl
    rename_i ws
    cases ws with
    | nil =>
      simp only [chars, List.cons_append, List.append_assoc, List.cons.injEq, true_and] at h
      exact absurd h.symm (closeBracket_ne_chars hv.1 _ _)
    | cons w ws =>
      simp only [chars, List.cons_append, List.append_assoc, List.cons.injEq, true_and,
        List.nil_append] at h
      obtain ⟨rfl, hitems⟩ :=
        chars_append_inj (ends_items vs r) (ends_items ws r') v w hv.1 hw.1 h
      obtain ⟨rfl, rfl⟩ := items_append_inj vs ws hv.2 hw.2 hitems
      exact ⟨rfl, rfl⟩
  | object [], w, hv, hw, h => by
    have hl := lead_eq hv hw h
    cases w <;> cases hl
    rename_i ws
    cases ws with
    | nil => exact ⟨rfl, List.append_cancel_left h⟩
    | cons w ws =>
      obtain ⟨name, w⟩ := w
      simp [chars, stringChars] at h
  | object ((name, v) :: vs), w, hv, hw, h => by
    have hl := lead_eq hv hw h
    cases w <;> cases hl
    rename_i ws
    cases ws with
    | nil => simp [chars, stringChars] at h
    | cons w ws =>
      obtain ⟨name', w⟩ := w
      simp only [chars, List.cons_append, List.append_assoc, List.cons.injEq, true_and,
        List.nil_append] at h
      obtain ⟨rfl, hvalue⟩ := stringChars_append_inj h
      obtain ⟨rfl, hmembers⟩ := chars_append_inj (ends_members vs r) (ends_members ws r') v w
        hv.2.1 hw.2.1 (List.cons.inj hvalue).2
      obtain ⟨rfl, rfl⟩ := members_append_inj vs ws hv.2.2 hw.2.2 hmembers
      exact ⟨rfl, rfl⟩

theorem items_append_inj {r r' : List Char} : ∀ vs ws : List Json, ValidItems vs → ValidItems ws →
    itemsChars vs ++ ']' :: r = itemsChars ws ++ ']' :: r' → vs = ws ∧ r = r'
  | [], [], _, _, h => ⟨rfl, (List.cons.inj h).2⟩
  | [], _ :: _, _, _, h => by simp [itemsChars] at h
  | _ :: _, [], _, _, h => by simp [itemsChars] at h
  | v :: vs, w :: ws, hv, hw, h => by
    simp only [itemsChars, List.cons_append, List.append_assoc, List.cons.injEq, true_and] at h
    obtain ⟨rfl, hitems⟩ := chars_append_inj (ends_items vs r) (ends_items ws r') v w hv.1 hw.1 h
    obtain ⟨rfl, rfl⟩ := items_append_inj vs ws hv.2 hw.2 hitems
    exact ⟨rfl, rfl⟩

theorem members_append_inj {r r' : List Char} : ∀ vs ws : List (String × Json),
    ValidMembers vs → ValidMembers ws →
    membersChars vs ++ '\x7d' :: r = membersChars ws ++ '\x7d' :: r' → vs = ws ∧ r = r'
  | [], [], _, _, h => ⟨rfl, (List.cons.inj h).2⟩
  | [], (_, _) :: _, _, _, h => by simp [membersChars] at h
  | (_, _) :: _, [], _, _, h => by simp [membersChars] at h
  | (name, v) :: vs, (name', w) :: ws, hv, hw, h => by
    simp only [membersChars, List.cons_append, List.append_assoc, List.cons.injEq, true_and] at h
    obtain ⟨rfl, hvalue⟩ := stringChars_append_inj h
    obtain ⟨rfl, hmembers⟩ := chars_append_inj (ends_members vs r) (ends_members ws r') v w
      hv.1 hw.1 (List.cons.inj hvalue).2
    obtain ⟨rfl, rfl⟩ := members_append_inj vs ws hv.2 hw.2 hmembers
    exact ⟨rfl, rfl⟩

end

/-- **The text of a valid value determines it.** -/
theorem render_injective {v w : Json} (hv : Valid v) (hw : Valid w) (h : v.render = w.render) :
    v = w := by
  have h' := congrArg String.toList h
  rw [render_toList, render_toList] at h'
  exact (chars_append_inj ends_nil ends_nil v w hv hw (congrArg (· ++ []) h')).1

end Quorum.Json
