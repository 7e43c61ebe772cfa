import Mathlib
import Quorum.Proofs.Json.Spelling

/-!
# Nesting

A scan of a text counts the brackets that are open and knows whether it is inside a string
(`Scan`). A text is `WellNested` if the scan ends where it began and never closes more than was
opened; every value is written in a well-nested text (`wellNested_valueBytes`). An object is
closed only by its last byte, so it has a bracket open wherever it is cut off (`exists_opened`).
-/

namespace Quorum.Json

open Ascii Utf8 Decimal

/-! ## The scan -/

/-- Where a scan stands, and how many brackets are open there. -/
inductive Scan where
  | code (opened : Nat)
  | string (opened : Nat)
  | escape (opened : Nat)
  deriving DecidableEq

namespace Scan

def opened : Scan → Nat
  | code n | string n | escape n => n

/-- The same place inside `k` more brackets. -/
def raise (k : Nat) : Scan → Scan
  | code n => code (n + k)
  | string n => string (n + k)
  | escape n => escape (n + k)

/-- Takes one byte in; a bracket that closes nothing ends the scan. -/
def next : Scan → UInt8 → Option Scan
  | code n, b =>
    if b = quote then some (string n)
    else if b = openBracket ∨ b = openBrace then some (code (n + 1))
    else if b = closeBracket ∨ b = closeBrace then
      match n with
      | 0 => none
      | n + 1 => some (code n)
    else some (code n)
  | string n, b =>
    if b = quote then some (code n)
    else if b = backslash then some (escape n)
    else some (string n)
  | escape n, _ => some (string n)

/-- Takes a text in. -/
def run (a : Scan) (s : Bytes) : Option Scan := s.foldlM next a

variable {a b : Scan} {s t : Bytes}

theorem run_nil (a : Scan) : a.run [] = some a := rfl

theorem run_cons (a : Scan) (b : UInt8) (s : Bytes) :
    a.run (b :: s) = (a.next b).bind fun a => a.run s := rfl

theorem run_append (a : Scan) (s t : Bytes) :
    a.run (s ++ t) = (a.run s).bind fun a => a.run t := List.foldlM_append

theorem next_raise {c : UInt8} (k : Nat) (h : a.next c = some b) :
    (a.raise k).next c = some (b.raise k) := by
  cases a with
  | code n =>
    simp only [raise, next] at h ⊢
    split_ifs at h ⊢ with hquote hopen hclose
    · cases h
      rfl
    · cases h
      exact congrArg (some ∘ code) (Nat.add_right_comm n k 1)
    · cases n with
      | zero => cases h
      | succ n =>
        cases h
        rw [Nat.add_right_comm]
    · cases h
      rfl
  | string n =>
    simp only [raise, next] at h ⊢
    split_ifs at h ⊢ <;> cases h <;> rfl
  | escape n =>
    cases h
    rfl

/-- A scan that goes through goes through inside more brackets. -/
theorem run_raise (k : Nat) (h : a.run s = some b) : (a.raise k).run s = some (b.raise k) := by
  induction s generalizing a with
  | nil =>
    cases h
    rfl
  | cons c s ih =>
    rw [run_cons, Option.bind_eq_some_iff] at h
    obtain ⟨a', hnext, hrest⟩ := h
    rw [run_cons, next_raise k hnext, Option.bind_some, ih hrest]

end Scan

/-- All that is opened in the text is closed in it, strings too, and nothing else. -/
def WellNested (s : Bytes) : Prop := (Scan.code 0).run s = some (.code 0)

instance (s : Bytes) : Decidable (WellNested s) := inferInstanceAs (Decidable (_ = _))

/-- Bytes that a scan passes outside of strings. -/
def Ordinary (b : UInt8) : Prop :=
  b ∉ [quote, openBracket, openBrace, closeBracket, closeBrace]

instance (b : UInt8) : Decidable (Ordinary b) := inferInstanceAs (Decidable (_ ∉ _))

theorem next_ordinary {b : UInt8} (h : Ordinary b) (n : Nat) :
    (Scan.code n).next b = some (.code n) := by
  simp only [Ordinary, List.mem_cons, List.not_mem_nil, or_false, not_or] at h
  obtain ⟨hquote, hbracket, hbrace, hbracket', hbrace'⟩ := h
  simp only [Scan.next, hquote, hbracket, hbrace, hbracket', hbrace', or_self, ↓reduceIte]

namespace WellNested

variable {s t : Bytes}

theorem nil : WellNested [] := rfl

theorem append (hs : WellNested s) (ht : WellNested t) : WellNested (s ++ t) := by
  rw [WellNested, Scan.run_append, hs, Option.bind_some, ht]

theorem run (h : WellNested s) (n : Nat) : (Scan.code n).run s = some (.code n) := by
  have := Scan.run_raise n h
  rwa [Scan.raise, Nat.zero_add] at this

theorem cons {b : UInt8} (hb : Ordinary b) (hs : WellNested s) : WellNested (b :: s) := by
  rw [WellNested, Scan.run_cons, next_ordinary hb, Option.bind_some, hs]

theorem of_ordinary (h : ∀ b ∈ s, Ordinary b) : WellNested s := by
  induction s with
  | nil => exact nil
  | cons b s ih =>
    exact cons (h b List.mem_cons_self) (ih fun c hc => h c (List.mem_cons_of_mem _ hc))

end WellNested

/-! ## What lies between two places of a text -/

/-- Between `s` and its end `rest`, the open brackets go from `m` to `n`. -/
def Passes (m n : Nat) (s rest : Bytes) : Prop :=
  ∃ t, s = t ++ rest ∧ (Scan.code m).run t = some (.code n)

namespace Passes

variable {k m n : Nat} {s t rest : Bytes}

theorem refl (n : Nat) (s : Bytes) : Passes n n s s := ⟨[], rfl, rfl⟩

theorem trans (h : Passes k m s t) (h' : Passes m n t rest) : Passes k n s rest := by
  obtain ⟨u, rfl, hu⟩ := h
  obtain ⟨v, rfl, hv⟩ := h'
  exact ⟨u ++ v, (List.append_assoc _ _ _).symm, by rw [Scan.run_append, hu, Option.bind_some, hv]⟩

theorem raise (k : Nat) (h : Passes m n s rest) : Passes (m + k) (n + k) s rest := by
  obtain ⟨t, rfl, ht⟩ := h
  exact ⟨t, rfl, Scan.run_raise k ht⟩

theorem wellNested (h : WellNested t) (n : Nat) (rest : Bytes) : Passes n n (t ++ rest) rest :=
  ⟨t, rfl, h.run n⟩

theorem ordinary {b : UInt8} (h : Ordinary b) (n : Nat) (s : Bytes) : Passes n n (b :: s) s :=
  wellNested (.cons h .nil) n s

/-- Behind a byte of no importance. -/
theorem cons {b : UInt8} (h : Ordinary b) (hs : Passes m n s rest) : Passes m n (b :: s) rest :=
  (ordinary h m s).trans hs

theorem opening {b : UInt8} (h : b = openBracket ∨ b = openBrace) (n : Nat) (s : Bytes) :
    Passes n (n + 1) (b :: s) s := by
  refine ⟨[b], rfl, ?_⟩
  rcases h with rfl | rfl <;> rfl

theorem closing {b : UInt8} (h : b = closeBracket ∨ b = closeBrace) (n : Nat) (s : Bytes) :
    Passes (n + 1) n (b :: s) s := by
  refine ⟨[b], rfl, ?_⟩
  rcases h with rfl | rfl <;> rfl

end Passes

/-- A text that is closed only by its last byte has a bracket open wherever it is cut off. -/
theorem exists_opened {s p q : Bytes} {b c : UInt8} (hb : b = openBracket ∨ b = openBrace)
    (hs : WellNested s) (h : b :: p ++ q = b :: (s ++ [c])) (hq : q ≠ []) :
    ∃ a, (Scan.code 0).run (b :: p) = some a ∧ 0 < a.opened := by
  -- What is cut off is at least the last byte, so what is left of `s` was inside.
  have hprefix : p <+: s := by
    rw [List.cons_append, List.cons_inj_right] at h
    have hle : p.length ≤ s.length := by
      have := congrArg List.length h
      simp only [List.length_append, List.length_singleton] at this
      have := List.length_pos_iff.2 hq
      omega
    exact List.prefix_of_prefix_length_le ⟨q, h⟩ (List.prefix_append _ _) hle
  obtain ⟨t, rfl⟩ := hprefix
  rw [WellNested, Scan.run_append, Option.bind_eq_some_iff] at hs
  obtain ⟨a, ha, -⟩ := hs
  refine ⟨a.raise 1, ?_, by cases a <;> exact Nat.succ_pos _⟩
  have hraised := Scan.run_raise 1 ha
  rw [Scan.run_cons]
  rcases hb with rfl | rfl <;> exact hraised

/-! ## Strings -/

theorem ordinary_of_isDigit {b : UInt8} (h : Ascii.isDigit b = true) : Ordinary b := by
  have hne := fun a => ne_of_isDigit (a := a) h
  simp [Ordinary, hne quote rfl, hne openBracket rfl, hne openBrace rfl, hne closeBracket rfl,
    hne closeBrace rfl]

theorem ordinary_of_isBlank {b : UInt8} (h : isBlank b = true) : Ordinary b := by
  simp only [isBlank, Bool.or_eq_true, beq_iff_eq] at h
  rcases h with ((rfl | rfl) | rfl) | rfl <;> decide

theorem passes_blanks {ws : Bytes} (h : Blanks ws) (n : Nat) (s : Bytes) : Passes n n (ws ++ s) s :=
  .wellNested (.of_ordinary fun b hb => ordinary_of_isBlank (h b hb)) n s

/-- A digit of an escape does not end the string. -/
theorem string_hexValue {b : UInt8} {m : Nat} (h : hexValue? b = some m) (n : Nat) :
    (Scan.string n).next b = some (.string n) := by
  have hquote : b ≠ quote := by
    rintro rfl
    cases h
  have hslash : b ≠ backslash := by
    rintro rfl
    cases h
  simp only [Scan.next, hquote, hslash, ↓reduceIte]

theorem hex4_digits {a b c d : UInt8} {m : Nat} (h : hex4 a b c d = some m) (n : Nat) (s : Bytes) :
    (Scan.string n).run (a :: b :: c :: d :: s) = (Scan.string n).run s := by
  simp only [hex4, bind, Option.bind_eq_some_iff] at h
  obtain ⟨_, ha, _, hb, _, hc, _, hd, -⟩ := h
  simp only [Scan.run_cons, string_hexValue ha, string_hexValue hb, string_hexValue hc,
    string_hexValue hd, Option.bind_some]

theorem SpellsCode.run {c : Char} {u : Bytes} (h : SpellsCode c u) (n : Nat) :
    (Scan.string n).run u = some (.string n) := by
  cases h with
  | single h _ _ => rw [hex4_digits h, Scan.run_nil]
  | pair hn _ hm _ =>
    rw [hex4_digits hn]
    exact hex4_digits hm n []

theorem string_plain {b : UInt8} (h : IsPlain b) (n : Nat) :
    (Scan.string n).next b = some (.string n) := by
  simp only [Scan.next, h.1, h.2.1, ↓reduceIte]

/-- **A string ends where it is closed**, whatever it holds. -/
theorem SpellsBytes.run {bs t : Bytes} (h : SpellsBytes bs t) (n : Nat) :
    (Scan.string n).run t = some (.code n) := by
  induction h with
  | close => rfl
  | plain hb _ ih => rw [Scan.run_cons, string_plain hb, Option.bind_some, ih]
  | letter _ _ ih => exact ih
  | @code _ u _ s hu _ ih =>
    show (Scan.string n).run (u ++ s) = _
    rw [Scan.run_append, hu.run, Option.bind_some, ih]

theorem SpellsBytes.wellNested {bs t : Bytes} (h : SpellsBytes bs t) : WellNested (quote :: t) :=
  h.run 0

theorem text_passes {fuel : Nat} {s rest : Bytes} {str : String}
    (h : text fuel s = .ok (str, rest)) (n : Nat) : Passes n n (quote :: s) rest := by
  obtain ⟨t, rfl, ht⟩ := spellsBytes_of_text h
  exact .wellNested ht.wellNested n rest

/-! ## What is written -/

theorem ordinary_numeric {c : Char} (h : IsNumeric c) : Ordinary (UInt8.ofNat c.toNat) := by
  rcases h with h | rfl | rfl | rfl | rfl
  · exact ordinary_of_isDigit (digit_byte h).2.1
  all_goals decide

theorem wellNested_numeric {cs : List Char} (h : ∀ c ∈ cs, IsNumeric c) :
    WellNested (encodeChars cs) := by
  induction cs with
  | nil => exact .nil
  | cons c cs ih =>
    have hc := h c List.mem_cons_self
    rw [encodeChars_ascii (numeric_range hc).2]
    exact .cons (ordinary_numeric hc) (ih fun d hd => h d (List.mem_cons_of_mem _ hd))

theorem wellNested_double (x : Double) : WellNested (valueBytes (double x)) := by
  rw [valueBytes, chars]
  by_cases hx : x.isFinite = true
  · exact wellNested_numeric fun c hc => isNumeric_doubleText hx hc
  · rw [Decimal.Layout.text]
    split
    · decide
    · rw [if_pos (by simpa using hx)]
      split <;> decide

theorem wellNested_string (s : String) : WellNested (valueBytes (string s)) := by
  rw [valueBytes_string]
  exact (spellsBytes_stringTail s).wellNested

theorem WellNested.enclosed {s : Bytes} {b c : UInt8} (hb : b = openBracket ∨ b = openBrace)
    (hc : c = closeBracket ∨ c = closeBrace) (h : WellNested s) : WellNested (b :: (s ++ [c])) := by
  obtain ⟨t, ht, hrun⟩ := (Passes.opening hb 0 _).trans
    ((Passes.wellNested h 1 [c]).trans (.closing hc 0 []))
  rw [List.append_nil] at ht
  rw [ht]
  exact hrun

theorem wellNested_member {name : String} {v : Json} (h : WellNested (valueBytes v)) :
    WellNested (quote :: memberBytes name v) := by
  rw [memberBytes, ← List.cons_append, ← valueBytes_string]
  exact (wellNested_string name).append (.cons (by decide) h)

mutual

/-- **A value is written in a well-nested text.** -/
theorem wellNested_valueBytes : ∀ v : Json, WellNested (valueBytes v)
  | null | bool true | bool false => by decide
  | integer n => by
    rw [valueBytes, chars]
    exact wellNested_numeric fun c hc => isNumeric_intText hc
  | double x => wellNested_double x
  | string s => wellNested_string s
  | array [] => by decide
  | array (v :: vs) => by
    rw [valueBytes_array, ← List.append_assoc]
    exact .enclosed (.inl rfl) (.inl rfl)
      ((wellNested_valueBytes v).append (wellNested_itemsBytes vs))
  | object [] => by decide
  | object ((name, v) :: ms) => by
    rw [valueBytes_object, ← List.append_assoc, ← List.cons_append]
    exact .enclosed (.inr rfl) (.inr rfl)
      ((wellNested_member (wellNested_valueBytes v)).append (wellNested_membersBytes ms))

theorem wellNested_itemsBytes : ∀ vs : List Json, WellNested (itemsBytes vs)
  | [] => .nil
  | v :: vs => by
    rw [itemsBytes_cons]
    exact .cons (by decide) ((wellNested_valueBytes v).append (wellNested_itemsBytes vs))

theorem wellNested_membersBytes : ∀ ms : List (String × Json), WellNested (membersBytes ms)
  | [] => .nil
  | (name, v) :: ms => by
    rw [membersBytes_cons, ← List.cons_append]
    exact .cons (by decide)
      ((wellNested_member (wellNested_valueBytes v)).append (wellNested_membersBytes ms))

end

end Quorum.Json
