import Mathlib
import Quorum.Proofs.Json.Extent
import Quorum.Proofs.Json.Members

/-!
# How documents are spelled

`Spells d s` is the grammar: the bytes `s` are a text of the document `d`, whose objects have
their members as they are written, in that order and with repeated names. `collapse` puts the
members into order and keeps the last of several equal names. Whatever `read` gives is the collapsed
form of a document that the bytes spell (`spells_of_read`).
-/

namespace Quorum.Json

open Ascii Utf8

/-! ## The grammar -/

def Blanks (ws : Bytes) : Prop := ∀ b ∈ ws, isBlank b = true

/-- What stands before an item or a member: a comma, unless it is the first one. -/
def Separator (first : Bool) (s : Bytes) : Prop :=
  if first then s = [] else ∃ ws, Blanks ws ∧ s = ws ++ [comma]

/-- The digits of the escape that a character is written as, the first `u` left out. -/
inductive SpellsCode : Char → Bytes → Prop where
  | single {a b c d : UInt8} {n : Nat} (h : hex4 a b c d = some n) (hl : isLeading n = false)
      (ht : isTrailing n = false) : SpellsCode (Char.ofNat n) [a, b, c, d]
  | pair {a b c d a' b' c' d' : UInt8} {n m : Nat} (hn : hex4 a b c d = some n)
      (hl : isLeading n = true) (hm : hex4 a' b' c' d' = some m) (ht : isTrailing m = true) :
      SpellsCode (Char.ofNat (0x10000 + (n - 0xD800) * 0x400 + (m - 0xDC00)))
        [a, b, c, d, backslash, lowerU, a', b', c', d']

/-- The bytes that a string stands for, and its text behind the opening quote. -/
inductive SpellsBytes : Bytes → Bytes → Prop where
  | close : SpellsBytes [] [quote]
  | plain {b : UInt8} {bs s : Bytes} (hb : IsPlain b) (hs : SpellsBytes bs s) :
      SpellsBytes (b :: bs) (b :: s)
  | letter {e c : UInt8} {bs s : Bytes} (he : letterEscape e = some c) (hs : SpellsBytes bs s) :
      SpellsBytes (c :: bs) (backslash :: e :: s)
  | code {c : Char} {u bs s : Bytes} (hu : SpellsCode c u) (hs : SpellsBytes bs s) :
      SpellsBytes (encode (String.singleton c) ++ bs) (backslash :: lowerU :: (u ++ s))

def constants : List (Json × Bytes) :=
  [(null, lowerN :: ull), (bool true, lowerT :: rue), (bool false, lowerF :: alse)]

mutual

/-- The bytes are a text of the document, maybe behind blanks. -/
inductive Spells : Json → Bytes → Prop where
  | constant {ws s : Bytes} {v : Json} (hws : Blanks ws) (hs : (v, s) ∈ constants) :
      Spells v (ws ++ s)
  /-- A number is what reading its text alone gives. -/
  | number {ws s : Bytes} {negative : Bool} {v : Json} (hws : Blanks ws)
      (hs : number negative s = .ok (v, [])) : Spells v (ws ++ (signBytes negative ++ s))
  | string {ws s : Bytes} {str : String} (hws : Blanks ws) (hs : SpellsBytes (encode str) s) :
      Spells (string str) (ws ++ quote :: s)
  | array {ws s : Bytes} {vs : List Json} (hws : Blanks ws) (hs : SpellsItems true vs s) :
      Spells (array vs) (ws ++ openBracket :: s)
  | object {ws s : Bytes} {ms : List (String × Json)} (hws : Blanks ws)
      (hs : SpellsMembers true ms s) : Spells (object ms) (ws ++ openBrace :: s)

/-- The items that are left, with the bracket behind them. -/
inductive SpellsItems : Bool → List Json → Bytes → Prop where
  | close {first : Bool} {ws : Bytes} (hws : Blanks ws) :
      SpellsItems first [] (ws ++ [closeBracket])
  | item {first : Bool} {sep s t : Bytes} {v : Json} {vs : List Json}
      (hsep : Separator first sep) (hv : Spells v s) (hvs : SpellsItems false vs t) :
      SpellsItems first (v :: vs) (sep ++ (s ++ t))

/-- The members that are left, with the brace behind them. -/
inductive SpellsMembers : Bool → List (String × Json) → Bytes → Prop where
  | close {first : Bool} {ws : Bytes} (hws : Blanks ws) :
      SpellsMembers first [] (ws ++ [closeBrace])
  | member {first : Bool} {sep ws n ws' s t : Bytes} {name : String} {v : Json}
      {ms : List (String × Json)} (hsep : Separator first sep) (hws : Blanks ws)
      (hname : SpellsBytes (encode name) n) (hws' : Blanks ws') (hv : Spells v s)
      (hms : SpellsMembers false ms t) :
      SpellsMembers first ((name, v) :: ms)
        (sep ++ (ws ++ quote :: (n ++ (ws' ++ colon :: (s ++ t)))))

end

/-- The bytes are a text of the document and nothing else. -/
def Document (d : Json) (s : Bytes) : Prop := ∃ t ws, Spells d t ∧ Blanks ws ∧ s = t ++ ws

mutual

/-- The value of a document: members in order, the last of several equal names kept. -/
def collapse : Json → Json
  | array vs => array (collapseItems vs)
  | object ms => ofMembers (collapseMembers ms)
  | v => v

def collapseItems : List Json → List Json
  | [] => []
  | v :: vs => collapse v :: collapseItems vs

def collapseMembers : List (String × Json) → List (String × Json)
  | [] => []
  | (name, v) :: ms => (name, collapse v) :: collapseMembers ms

end

/-! ## Blanks -/

theorem blanks_nil : Blanks [] := nofun

theorem Blanks.append {ws ws' : Bytes} (h : Blanks ws) (h' : Blanks ws') : Blanks (ws ++ ws') := by
  intro b hb
  exact (List.mem_append.1 hb).elim (h b) (h' b)

theorem skipBlank_append {ws : Bytes} (h : Blanks ws) (s : Bytes) :
    skipBlank (ws ++ s) = skipBlank s := by
  induction ws with
  | nil => rfl
  | cons b ws ih =>
    rw [List.cons_append, skipBlank, if_pos (h b List.mem_cons_self),
      ih fun c hc => h c (List.mem_cons_of_mem _ hc)]

theorem exists_blanks (s : Bytes) : ∃ ws, Blanks ws ∧ s = ws ++ skipBlank s := by
  induction s with
  | nil => exact ⟨[], blanks_nil, rfl⟩
  | cons b s ih =>
    obtain ⟨ws, hws, hs⟩ := ih
    by_cases hb : isBlank b = true
    · refine ⟨b :: ws, List.forall_mem_cons.2 ⟨hb, hws⟩, ?_⟩
      rw [skipBlank, if_pos hb, List.cons_append, ← hs]
    · exact ⟨[], blanks_nil, by rw [skipBlank, if_neg hb, List.nil_append]⟩

theorem stops_blanks {ws r : Bytes} (h : Blanks ws) (hr : Stops r) : Stops (ws ++ r) := by
  cases ws with
  | nil => exact hr
  | cons b ws =>
    have hb := h b List.mem_cons_self
    simp only [isBlank, Bool.or_eq_true, beq_iff_eq] at hb
    refine stops_cons ?_ _
    rcases hb with ((rfl | rfl) | rfl) | rfl <;> decide

theorem Spells.blanks {d : Json} {s ws : Bytes} (hs : Spells d s) (hws : Blanks ws) :
    Spells d (ws ++ s) := by
  cases hs <;> rw [← List.append_assoc]
  case constant h hs => exact .constant (hws.append h) hs
  case number h hs => exact .number (hws.append h) hs
  case string h hs => exact .string (hws.append h) hs
  case array h hs => exact .array (hws.append h) hs
  case object h hs => exact .object (hws.append h) hs

theorem stops_separator {sep r : Bytes} (h : Separator false sep) : Stops (sep ++ r) := by
  obtain ⟨ws, hws, rfl⟩ := h
  rw [List.append_assoc]
  exact stops_blanks hws (stops_cons (by decide) r)

theorem SpellsItems.stops {vs : List Json} {s : Bytes} (h : SpellsItems false vs s) (r : Bytes) :
    Stops (s ++ r) := by
  cases h with
  | close hws =>
    rw [List.append_assoc]
    exact stops_blanks hws (stops_cons (by decide) r)
  | item hsep _ _ =>
    rw [List.append_assoc]
    exact stops_separator hsep

theorem SpellsMembers.stops {ms : List (String × Json)} {s : Bytes} (h : SpellsMembers false ms s)
    (r : Bytes) : Stops (s ++ r) := by
  cases h with
  | close hws =>
    rw [List.append_assoc]
    exact stops_blanks hws (stops_cons (by decide) r)
  | member hsep _ _ _ _ _ =>
    rw [List.append_assoc]
    exact stops_separator hsep

/-! ## Strings -/

theorem hexEscape_eq_ok {s rest : Bytes} {n : Nat} (h : hexEscape s = .ok (n, rest)) :
    ∃ a b c d, s = a :: b :: c :: d :: rest ∧ hex4 a b c d = some n := by
  unfold hexEscape at h
  split at h
  · split at h
    · cases h
      exact ⟨_, _, _, _, rfl, ‹_›⟩
    · cases h
  · cases h

theorem hexEscape_cons {a b c d : UInt8} {n : Nat} (h : hex4 a b c d = some n) (s : Bytes) :
    hexEscape (a :: b :: c :: d :: s) = .ok (n, s) := by
  simp only [hexEscape, h]

theorem codePoint_append {c : Char} {u : Bytes} (h : SpellsCode c u) (s : Bytes) :
    codePoint (u ++ s) = .ok (c, s) := by
  cases h with
  | single h hl ht =>
    simp only [codePoint, List.cons_append, List.nil_append, hexEscape_cons h, bind, Except.bind,
      hl, ht, Bool.not_false, Bool.false_eq_true, ↓reduceIte]
  | @pair a b c d _ _ _ _ n m hn hl hm ht =>
    have htn : isTrailing n = false := by
      simp only [isLeading, isTrailing, Bool.and_eq_true, decide_eq_true_eq,
        Bool.and_eq_false_iff, decide_eq_false_iff_not] at hl ⊢
      omega
    simp only [codePoint, List.cons_append, List.nil_append, hexEscape_cons hn,
      hexEscape_cons hm, bind, Except.bind, hl, ht, htn, ne_eq, not_true_eq_false, Bool.not_true,
      Bool.false_eq_true, ↓reduceIte]

theorem spellsCode_of_codePoint {s rest : Bytes} {c : Char} (h : codePoint s = .ok (c, rest)) :
    ∃ u, s = u ++ rest ∧ SpellsCode c u := by
  unfold codePoint at h
  cases hn : hexEscape s with
  | error f =>
    rw [hn] at h
    cases h
  | ok p =>
    obtain ⟨n, t⟩ := p
    obtain ⟨a, b, c, d, rfl, hhex⟩ := hexEscape_eq_ok hn
    rw [hn] at h
    simp only [bind, Except.bind] at h
    split at h
    · cases h
    rename_i htrail
    split at h
    · cases h
      rename_i hlead
      exact ⟨_, rfl, .single hhex (by simpa using hlead) (by simpa using htrail)⟩
    rename_i hlead
    split at h
    · cases h
    split at h
    · cases h
    rename_i hslash
    split at h
    · cases h
    split at h
    · cases h
    rename_i hu
    split at h
    · cases h
    rename_i p hm
    obtain ⟨m, t⟩ := p
    obtain ⟨a', b', c', d', rfl, hhex'⟩ := hexEscape_eq_ok hm
    dsimp only at h
    split at h
    · cases h
    rename_i htrail'
    obtain ⟨rfl, rfl⟩ := Prod.mk.inj (Except.ok.inj h)
    rw [not_not] at hslash hu
    subst hslash hu
    exact ⟨_, rfl, .pair hhex (by simpa using hlead) hhex' (by simpa using htrail')⟩

/-- **What a string was read from spells its bytes.** -/
theorem spellsBytes_of_stringBytes {fuel : Nat} {acc s bytes rest : Bytes}
    (h : stringBytes fuel acc s = .ok (bytes, rest)) :
    ∃ bs t, bytes = acc.reverse ++ bs ∧ s = t ++ rest ∧ SpellsBytes bs t := by
  fun_induction stringBytes fuel acc s with
  | case1 | case2 | case4 | case6 | case8 | case9 => cases h
  | case3 fuel acc rest =>
    cases h
    exact ⟨[], [quote], (List.append_nil _).symm, rfl, .close⟩
  | case5 fuel acc e rest c hletter _ ih =>
    obtain ⟨bs, t, rfl, rfl, hs⟩ := ih h
    exact ⟨c :: bs, backslash :: e :: t, by simp, rfl, .letter hletter hs⟩
  | case7 fuel acc rest c t hcode _ _ ih =>
    obtain ⟨bs, t', rfl, rfl, hs⟩ := ih h
    obtain ⟨u, rfl, hu⟩ := spellsCode_of_codePoint hcode
    exact ⟨_, backslash :: lowerU :: (u ++ t'), by simp, by simp, .code hu hs⟩
  | case10 fuel acc b rest hq hb hc ih =>
    obtain ⟨bs, t, rfl, rfl, hs⟩ := ih h
    exact ⟨b :: bs, b :: t, by simp, rfl, .plain ⟨hq, hb, hc⟩ hs⟩

theorem spellsBytes_of_text {fuel : Nat} {s rest : Bytes} {str : String}
    (h : text fuel s = .ok (str, rest)) : ∃ t, s = t ++ rest ∧ SpellsBytes (encode str) t := by
  unfold text at h
  cases hb : stringBytes fuel [] s with
  | error f =>
    rw [hb] at h
    cases h
  | ok p =>
    obtain ⟨bs, t, hbytes, hs, hspells⟩ := spellsBytes_of_stringBytes hb
    rw [hb] at h
    dsimp only at h
    split at h
    · cases h
      rename_i hdecode
      rw [List.reverse_nil, List.nil_append] at hbytes
      exact ⟨t, hs, by rwa [encode_of_decode? hdecode, hbytes]⟩
    · cases h

/-- A string is written as a text of itself. -/
theorem spellsBytes_stringTail (s : String) : SpellsBytes (encode s) (stringTail s) := by
  have hread := text_stringTail (s := s) [] (Nat.le_refl _)
  obtain ⟨t, ht, hspells⟩ := spellsBytes_of_text hread
  rw [List.append_nil, List.append_nil] at ht
  exact ht ▸ hspells

theorem stringBytes_codePoint {c : Char} {u : Bytes} (h : SpellsCode c u) (n : Nat)
    (acc s : Bytes) : stringBytes (n + 1) acc (backslash :: lowerU :: (u ++ s)) =
      stringBytes n ((encode (String.singleton c)).reverse ++ acc) s := by
  have hnone : letterEscape lowerU = none := by decide
  rw [stringBytes, if_neg (by decide), if_pos rfl]
  simp only [hnone, ↓reduceIte, codePoint_append h]

/-- A spelled string is read as what it stands for, if it is read at all. -/
theorem SpellsBytes.read_eq {bs t : Bytes} (h : SpellsBytes bs t) {fuel : Nat}
    {acc rest bytes r : Bytes} (hread : stringBytes fuel acc (t ++ rest) = .ok (bytes, r)) :
    bytes = acc.reverse ++ bs ∧ r = rest := by
  induction h generalizing fuel acc with
  | close =>
    cases fuel with
    | zero => cases hread
    | succ n =>
      rw [List.singleton_append, stringBytes.eq_def] at hread
      dsimp only at hread
      rw [if_pos rfl] at hread
      cases hread
      exact ⟨(List.append_nil _).symm, rfl⟩
  | @plain b bs s hb _ ih =>
    cases fuel with
    | zero => cases hread
    | succ n =>
      have hstep := @stringBytes_plain [b] (by simpa using hb) n acc (s ++ rest)
      rw [List.length_singleton, Nat.add_comm] at hstep
      rw [List.cons_append, ← List.singleton_append, hstep] at hread
      obtain ⟨rfl, hr⟩ := ih hread
      exact ⟨by simp, hr⟩
  | @letter e c bs s he _ ih =>
    cases fuel with
    | zero => cases hread
    | succ n =>
      rw [List.cons_append, List.cons_append, stringBytes_letter he] at hread
      obtain ⟨rfl, hr⟩ := ih hread
      exact ⟨by simp, hr⟩
  | @code c u bs s hu _ ih =>
    cases fuel with
    | zero => cases hread
    | succ n =>
      rw [List.cons_append, List.cons_append, List.append_assoc, stringBytes_codePoint hu] at hread
      obtain ⟨rfl, hr⟩ := ih hread
      exact ⟨by simp, hr⟩

theorem SpellsBytes.text_eq {name str : String} {t : Bytes} (h : SpellsBytes (encode name) t)
    {fuel : Nat} {rest r : Bytes} (hread : text fuel (t ++ rest) = .ok (str, r)) :
    str = name ∧ r = rest := by
  unfold text at hread
  cases hb : stringBytes fuel [] (t ++ rest) with
  | error f =>
    rw [hb] at hread
    cases hread
  | ok p =>
    obtain ⟨bytes, left⟩ := p
    obtain ⟨hbytes, rfl⟩ := h.read_eq hb
    rw [hb] at hread
    dsimp only at hread
    split at hread
    · cases hread
      rename_i hdecode
      rw [List.reverse_nil, List.nil_append] at hbytes
      exact ⟨encode_injective ((encode_of_decode? hdecode).trans hbytes), rfl⟩
    · cases hread

/-! ## Separators -/

theorem separator_first : Separator true [] := rfl

theorem separator_comma {ws : Bytes} (h : Blanks ws) : Separator false (ws ++ [comma]) :=
  ⟨ws, h, rfl⟩

theorem spelled_nextItem {first : Bool} {s : Bytes} {next : Next}
    (h : nextItem first s = .ok next) :
    match next with
    | .stop rest => ∃ ws, Blanks ws ∧ s = ws ++ closeBracket :: rest
    | .more rest => ∃ sep ws, Separator first sep ∧ Blanks ws ∧ s = sep ++ (ws ++ rest) := by
  obtain ⟨ws, hws, hs⟩ := exists_blanks s
  unfold nextItem at h
  split at h
  · cases h
  rename_i b rest hskip
  rw [hskip] at hs
  split at h
  · cases h
    rename_i hb
    exact ⟨ws, hws, hb ▸ hs⟩
  · cases first with
    | true =>
      cases h
      exact ⟨[], ws, separator_first, hws, hs⟩
    | false =>
      rw [if_neg Bool.false_ne_true] at h
      split at h
      · rename_i hcomma
        obtain ⟨ws', hws', hrest⟩ := exists_blanks rest
        split at h
        · cases h
        rename_i c t hskip'
        rw [hskip'] at hrest
        split at h
        · cases h
        · cases h
          exact ⟨ws ++ [comma], ws', separator_comma hws, hws', by simp [hs, hcomma, hrest]⟩
      · cases h

theorem spelled_nextName {first : Bool} {s : Bytes} {next : Next}
    (h : nextName first s = .ok next) :
    match next with
    | .stop rest => ∃ ws, Blanks ws ∧ s = ws ++ closeBrace :: rest
    | .more rest =>
      ∃ sep ws, Separator first sep ∧ Blanks ws ∧ s = sep ++ (ws ++ quote :: rest) := by
  obtain ⟨ws, hws, hs⟩ := exists_blanks s
  unfold nextName at h
  split at h
  · cases h
  rename_i b rest hskip
  rw [hskip] at hs
  split at h
  · cases h
    rename_i hb
    exact ⟨ws, hws, hb ▸ hs⟩
  · cases first with
    | true =>
      rw [if_pos rfl] at h
      split at h
      · cases h
        rename_i hquote
        exact ⟨[], ws, separator_first, hws, hquote ▸ hs⟩
      · cases h
    | false =>
      rw [if_neg Bool.false_ne_true] at h
      split at h
      · rename_i hcomma
        obtain ⟨ws', hws', hrest⟩ := exists_blanks rest
        split at h
        · cases h
        rename_i c t hskip'
        rw [hskip'] at hrest
        split at h
        · cases h
          rename_i hquote
          exact ⟨ws ++ [comma], ws', separator_comma hws, hws',
            by simp [hs, hcomma, hrest, hquote]⟩
        · split at h <;> cases h
      · cases h

theorem spelled_colonAfter {s rest : Bytes} (h : colonAfter s = .ok rest) :
    ∃ ws, Blanks ws ∧ s = ws ++ colon :: rest := by
  obtain ⟨ws, hws, hs⟩ := exists_blanks s
  unfold colonAfter at h
  split at h
  · cases h
  rename_i b t hskip
  rw [hskip] at hs
  split at h
  · cases h
    rename_i hb
    exact ⟨ws, hws, hb ▸ hs⟩
  · cases h

theorem spelled_ident {letters : List UInt8} {s rest : Bytes} {v w : Json}
    (h : (ident letters s).map (fun rest => (w, rest)) = .ok (v, rest)) :
    s = letters ++ rest ∧ w = v := by
  cases hi : ident letters s with
  | error f =>
    rw [hi] at h
    cases h
  | ok t =>
    rw [hi] at h
    cases h
    exact ⟨ident_eq_ok hi, rfl⟩

/-! ## Numbers -/

/-- A number in front of what stops it is read alone. -/
theorem spelled_number {negative : Bool} {s rest : Bytes} {v : Json} (hr : Stops rest)
    (h : number negative s = .ok (v, rest)) :
    ∃ t, s = t ++ rest ∧ number negative t = .ok (v, []) := by
  obtain ⟨t, rfl⟩ := ((number_extends stops_nil negative s).ok v rest h).1
  exact ⟨t, rfl, number_alone hr h⟩

theorem startsNumber_of_number {negative : Bool} {s : Bytes} {p : Json × Bytes}
    (h : number negative s = .ok p) : StartsNumber s := by
  cases s with
  | nil => cases h
  | cons b s =>
    refine ⟨b, s, rfl, ?_⟩
    by_contra hb
    have hzero : b ≠ digit0 := by
      rintro rfl
      exact hb rfl
    rw [number, if_neg hzero, if_neg hb] at h
    cases h

theorem collapse_number {negative : Bool} {s rest : Bytes} {v : Json}
    (h : number negative s = .ok (v, rest)) : collapse v = v := by
  have hdepth := (number_leaves negative s v rest h).1
  cases v with
  | array vs => cases hdepth
  | object ms => cases hdepth
  | _ => rfl

/-! ## What is read was spelled -/

mutual

theorem spells_of_value (fuel depth : Nat) (s : Bytes) {v : Json} {rest : Bytes}
    (hr : Stops rest) (h : value fuel depth s = .ok (v, rest)) :
    ∃ d t, s = t ++ rest ∧ Spells d t ∧ collapse d = v := by
  cases fuel with
  | zero => cases h
  | succ fuel =>
    obtain ⟨ws, hws, hs⟩ := exists_blanks s
    unfold value at h
    split at h
    · cases h
    rename_i b s' hskip
    rw [hskip] at hs
    subst hs
    split_ifs at h with hquote hbracket hdepth hbrace hdepth hminus hdigit hn ht hf
    · subst hquote
      cases htext : text fuel s' with
      | error f =>
        rw [htext] at h
        cases h
      | ok p =>
        rw [htext] at h
        cases h
        obtain ⟨t, rfl, ht⟩ := spellsBytes_of_text htext
        exact ⟨_, ws ++ quote :: t, by simp, .string hws ht, rfl⟩
    · subst hbracket
      obtain ⟨vs, t, rfl, ht, rfl⟩ := spells_of_items fuel _ [] s' h
      exact ⟨_, ws ++ openBracket :: t, by simp, .array hws ht, rfl⟩
    · subst hbrace
      obtain ⟨ms, t, rfl, ht, rfl⟩ := spells_of_members fuel _ [] s' h
      exact ⟨_, ws ++ openBrace :: t, by simp, .object hws ht, rfl⟩
    · subst hminus
      obtain ⟨t, rfl, ht⟩ := spelled_number hr h
      exact ⟨v, ws ++ (signBytes true ++ t), by simp [signBytes], .number hws ht,
        collapse_number h⟩
    · obtain ⟨t, hs', ht⟩ := spelled_number hr h
      exact ⟨v, ws ++ (signBytes false ++ t), by simp [signBytes, hs'], .number hws ht,
        collapse_number h⟩
    · subst hn
      obtain ⟨rfl, rfl⟩ := spelled_ident h
      exact ⟨null, ws ++ lowerN :: ull, by simp, .constant hws (by simp [constants]), rfl⟩
    · subst ht
      obtain ⟨rfl, rfl⟩ := spelled_ident h
      exact ⟨bool true, ws ++ lowerT :: rue, by simp, .constant hws (by simp [constants]), rfl⟩
    · subst hf
      obtain ⟨rfl, rfl⟩ := spelled_ident h
      exact ⟨bool false, ws ++ lowerF :: alse, by simp, .constant hws (by simp [constants]), rfl⟩
termination_by fuel

theorem spells_of_items (fuel depth : Nat) (acc : List Json) (s : Bytes) {v : Json} {rest : Bytes}
    (h : items fuel depth acc s = .ok (v, rest)) :
    ∃ vs t, s = t ++ rest ∧ SpellsItems acc.isEmpty vs t ∧
      v = array (acc.reverse ++ collapseItems vs) := by
  cases fuel with
  | zero => cases h
  | succ fuel =>
    unfold items at h
    split at h
    · cases h
    · cases h
      rename_i hnext
      obtain ⟨ws, hws, rfl⟩ := spelled_nextItem hnext
      exact ⟨[], ws ++ [closeBracket], by simp, .close hws, by rw [collapseItems, List.append_nil]⟩
    · rename_i s' hnext
      obtain ⟨sep, ws, hsep, hws, rfl⟩ := spelled_nextItem hnext
      split at h
      · cases h
      rename_i w s'' hw
      -- what follows the item tells that the item's text ends there
      obtain ⟨vs, t, rfl, hvs, rfl⟩ := spells_of_items fuel depth (w :: acc) s'' h
      obtain ⟨d, u, rfl, hd, rfl⟩ := spells_of_value fuel depth s' (hvs.stops rest) hw
      exact ⟨d :: vs, sep ++ ((ws ++ u) ++ t), by simp, .item hsep (hd.blanks hws) hvs,
        by simp [collapseItems]⟩
termination_by fuel

theorem spells_of_members (fuel depth : Nat) (acc : List (String × Json)) (s : Bytes) {v : Json}
    {rest : Bytes} (h : members fuel depth acc s = .ok (v, rest)) :
    ∃ ms t, s = t ++ rest ∧ SpellsMembers acc.isEmpty ms t ∧
      v = ofMembers (acc.reverse ++ collapseMembers ms) := by
  cases fuel with
  | zero => cases h
  | succ fuel =>
    unfold members at h
    split at h
    · cases h
    · cases h
      rename_i hnext
      obtain ⟨ws, hws, rfl⟩ := spelled_nextName hnext
      exact ⟨[], ws ++ [closeBrace], by simp, .close hws, by rw [collapseMembers, List.append_nil]⟩
    · rename_i s' hnext
      obtain ⟨sep, ws, hsep, hws, rfl⟩ := spelled_nextName hnext
      split at h
      · cases h
      rename_i name afterName hname
      split at h
      · cases h
      rename_i afterColon hcolon
      split at h
      · cases h
      rename_i w s'' hw
      obtain ⟨ms, t, rfl, hms, rfl⟩ := spells_of_members fuel depth ((name, w) :: acc) s'' h
      obtain ⟨d, u, rfl, hd, rfl⟩ := spells_of_value fuel depth afterColon (hms.stops rest) hw
      obtain ⟨ws', hws', rfl⟩ := spelled_colonAfter hcolon
      obtain ⟨n, rfl, hn⟩ := spellsBytes_of_text hname
      exact ⟨(name, d) :: ms, sep ++ (ws ++ quote :: (n ++ (ws' ++ colon :: (u ++ t)))), by simp,
        .member hsep hws hn hws' hd hms, by simp [collapseMembers]⟩
termination_by fuel

end

theorem blanks_of_nothingMore {s : Bytes} (h : nothingMore s = .ok ()) : Blanks s := by
  obtain ⟨ws, hws, hs⟩ := exists_blanks s
  rw [nothingMore] at h
  split at h
  · rename_i hskip
    rw [hskip, List.append_nil] at hs
    exact hs ▸ hws
  · cases h

/-- What a reading of a whole text consists of. -/
theorem value_of_read {s : Bytes} {v : Json} (h : read s = .ok v) :
    ∃ ws, Blanks ws ∧ value (stepsFor s) depthLimit s = .ok (v, ws) := by
  obtain ⟨rest, hv, hmore⟩ := read_eq_ok h
  exact ⟨rest, blanks_of_nothingMore hmore, hv⟩

theorem stops_of_blanks {ws : Bytes} (h : Blanks ws) : Stops ws := by
  have := stops_blanks h stops_nil
  rwa [List.append_nil] at this

/-- **What is read was spelled.** -/
theorem spells_of_read {s : Bytes} {v : Json} (h : read s = .ok v) :
    ∃ d, Document d s ∧ collapse d = v := by
  obtain ⟨ws, hws, hv⟩ := value_of_read h
  obtain ⟨d, t, hs, hd, hcollapse⟩ := spells_of_value _ _ s (stops_of_blanks hws) hv
  exact ⟨d, ⟨t, ws, hd, hws, hs⟩, hcollapse⟩

end Quorum.Json
