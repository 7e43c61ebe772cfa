import Mathlib
import Quorum.Proofs.Json.RoundTrip
import Quorum.Proofs.Number.Width

/-!
# What a value takes up

The texts of a value and of what was read differ: blanks are dropped, escapes replaced, members
repeated or put into order, doubles written anew. But apart from its doubles a value never takes
up more than it did in the text that it was read from. `extent` is the length of a value's text
without the doubles; reading a value takes at least its extent away from the text, and no more
nesting than allowed (`value_leaves`, `fits_of_read`).
-/

namespace Quorum.Json

open Ascii Utf8 Decimal

/-- What holds of everything that is read, and of what follows it. -/
def Leaves {α : Type} (P : α → Bytes → Prop) (r : Read α) : Prop :=
  ∀ x rest, r = .ok (x, rest) → P x rest

namespace Leaves

variable {α : Type} {P Q : α → Bytes → Prop} {r r' : Read α}

theorem ok {x : α} {rest : Bytes} (h : P x rest) : Leaves P (.ok (x, rest)) := by
  rintro _ _ ⟨⟩
  exact h

theorem error (f : Fault) : Leaves P (.error f) := by
  rintro _ _ ⟨⟩

theorem ite {c : Prop} [Decidable c] (h : Leaves P r) (h' : Leaves P r') :
    Leaves P (if c then r else r') := by
  split
  · exact h
  · exact h'

theorem either {c : Prop} [Decidable c] (h : c → Leaves P r) (h' : ¬c → Leaves P r') :
    Leaves P (if c then r else r') := by
  split
  · exact h ‹_›
  · exact h' ‹_›

theorem guard {c : Prop} [Decidable c] {f : Fault} (h : ¬ c → Leaves P r) :
    Leaves P (if c then .error f else r) := by
  split
  · exact error f
  · exact h ‹_›

theorem mono (h : Leaves P r) (hpq : ∀ x rest, P x rest → Q x rest) : Leaves Q r :=
  fun x rest hr => hpq x rest (h x rest hr)

end Leaves

/-! ## Strings -/

/-- How many bytes stand for a byte inside a string. -/
def cost (b : UInt8) : Nat :=
  if b = quote || b = backslash || b = 0x08 || b = 0x09 || b = 0x0A || b = 0x0C || b = 0x0D then 2
  else if b < 0x20 then 6
  else 1

def costs (bs : Bytes) : Nat := (bs.map cost).sum

theorem costs_append (bs cs : Bytes) : costs (bs ++ cs) = costs bs + costs cs := by
  simp [costs]

theorem costs_cons (b : UInt8) (bs : Bytes) : costs (b :: bs) = cost b + costs bs := by
  simp [costs]

theorem costs_reverse (bs : Bytes) : costs bs.reverse = costs bs := by
  simp [costs]

theorem cost_plain {b : UInt8} (h : IsPlain b) : cost b = 1 := by
  obtain ⟨hq, hb, hc⟩ := h
  have hne : ∀ c : UInt8, c < 0x20 → b ≠ c := by
    rintro c hlt rfl
    exact hc hlt
  simp only [cost, hq, hb, hc, hne 0x08 (by decide), hne 0x09 (by decide), hne 0x0A (by decide),
    hne 0x0C (by decide), hne 0x0D (by decide), decide_false, Bool.or_self, Bool.false_eq_true,
    if_false]

theorem costs_plain {bs : Bytes} (h : ∀ b ∈ bs, IsPlain b) : costs bs = bs.length := by
  induction bs with
  | nil => rfl
  | cons b bs ih =>
    rw [costs_cons, cost_plain (h b List.mem_cons_self),
      ih fun c hc => h c (List.mem_cons_of_mem _ hc), List.length_cons, Nat.add_comm]

theorem costs_escaped : ∀ m ∈ escapedCodes,
    (encodeChars (escape (Char.ofNat m))).length =
        costs (String.utf8EncodeChar (Char.ofNat m)) ∧
      costs (String.utf8EncodeChar (Char.ofNat m)) ≤ 6 := by
  decide

/-- A character takes up what its bytes cost. -/
theorem length_escape (c : Char) :
    (encodeChars (escape c)).length = costs (String.utf8EncodeChar c) ∧
      costs (String.utf8EncodeChar c) ≤ 6 := by
  by_cases hc : c.toNat ∈ escapedCodes
  · have := costs_escaped _ hc
    rwa [Char.ofNat_toNat] at this
  · have hplain : ∀ b ∈ String.utf8EncodeChar c, IsPlain b := fun b hb => isPlain_of_mem hc hb
    have hself : escape c = [c] := ((escape_cases c).resolve_right hc).1
    rw [hself, encodeChars_singleton, costs_plain hplain, String.length_utf8EncodeChar]
    have := c.utf8Size_le_four
    omega

theorem length_stringTail (s : String) : (stringTail s).length = costs (Utf8.encode s) + 1 := by
  have hall : ∀ cs : List Char,
      (encodeChars (cs.flatMap escape)).length = costs (encodeChars cs) := by
    intro cs
    induction cs with
    | nil => rfl
    | cons c cs ih =>
      rw [List.flatMap_cons, encodeChars_append, List.length_append, ih, (length_escape c).1,
        encodeChars_cons, costs_append]
  rw [stringTail, List.length_append, hall, encode_eq_encodeChars, List.length_singleton]

theorem letterEscape_cost {e c : UInt8} (h : letterEscape e = some c) : cost c ≤ 2 := by
  unfold letterEscape at h
  split at h
  · cases h
    rename_i he
    simp only [Bool.or_eq_true, decide_eq_true_eq] at he
    rcases he with (rfl | rfl) | rfl <;> decide
  · repeat' split at h
    all_goals cases h
    all_goals decide

theorem hexEscape_leaves (s : Bytes) :
    Leaves (fun _ rest => rest.length + 4 ≤ s.length) (hexEscape s) := by
  unfold hexEscape
  split
  · split
    · exact .ok le_rfl
    · exact .error _
  · exact .error _

theorem codePoint_leaves (s : Bytes) :
    Leaves (fun _ rest => rest.length + 4 ≤ s.length) (codePoint s) := by
  unfold codePoint
  cases hn : hexEscape s with
  | error f => exact .error f
  | ok p =>
    obtain ⟨n, t⟩ := p
    have ht := hexEscape_leaves s n t hn
    refine .ite (.error _) (.ite (.ok ht) ?_)
    cases t with
    | nil => exact .error _
    | cons b t =>
      refine .ite (.error _) ?_
      cases t with
      | nil => exact .error _
      | cons b' t =>
        refine .ite (.error _) ?_
        cases hm : hexEscape t with
        | error f => exact .error f
        | ok p =>
          have hrest := hexEscape_leaves t p.1 p.2 hm
          simp only [List.length_cons] at ht
          exact .ite (.error _) (.ok (by omega))

/-- Every byte of a string was read from as many bytes as it costs, or more. -/
theorem stringBytes_leaves (fuel : Nat) (acc s : Bytes) :
    Leaves (fun bytes rest => costs bytes + 1 + rest.length ≤ s.length + costs acc)
      (stringBytes fuel acc s) := by
  fun_induction stringBytes fuel acc s with
  | case1 | case2 | case4 | case6 | case8 | case9 => exact .error _
  | case3 fuel acc rest =>
    refine .ok ?_
    rw [costs_reverse, List.length_cons]
    omega
  | case5 fuel acc e rest c hletter _ ih =>
    have hcost := letterEscape_cost hletter
    refine ih.mono fun bytes left h => ?_
    rw [costs_cons] at h
    simp only [List.length_cons]
    omega
  | case7 fuel acc rest c t hcode _ _ ih =>
    have hlength := codePoint_leaves _ _ _ hcode
    have hcost := (length_escape c).2
    have hbytes : Utf8.encode (String.singleton c) = String.utf8EncodeChar c := by
      rw [encode_eq_encodeChars, String.toList_singleton, encodeChars_singleton]
    refine ih.mono fun bytes left h => ?_
    rw [costs_append, costs_reverse, hbytes] at h
    simp only [List.length_cons]
    omega
  | case10 fuel acc b rest hq hb hc ih =>
    refine ih.mono fun bytes left h => ?_
    rw [costs_cons, cost_plain ⟨hq, hb, hc⟩] at h
    rw [List.length_cons]
    omega

theorem text_leaves (fuel : Nat) (s : Bytes) :
    Leaves (fun str rest => (stringTail str).length + rest.length ≤ s.length) (text fuel s) := by
  unfold text
  cases hb : stringBytes fuel [] s with
  | error f => exact .error f
  | ok p =>
    obtain ⟨bytes, rest⟩ := p
    have hbytes := stringBytes_leaves fuel [] s bytes rest hb
    dsimp only
    split
    · rename_i str hstr
      refine .ok ?_
      rw [length_stringTail, encode_of_decode? hstr]
      exact hbytes
    · exact .error _

/-! ## The extent of a value -/

mutual

/-- The length of a value's text without its doubles. -/
def extent : Json → Nat
  | double _ => 0
  | array items => max 1 (extentItems items) + 1
  | object members => max 1 (extentMembers members) + 1
  | v => (valueBytes v).length

/-- The same of items, each with the comma in front. -/
def extentItems : List Json → Nat
  | [] => 0
  | v :: rest => 1 + extent v + extentItems rest

def extentMembers : List (String × Json) → Nat
  | [] => 0
  | (name, v) :: rest => (stringTail name).length + 3 + extent v + extentMembers rest

end

theorem extent_string (s : String) : extent (string s) = (stringTail s).length + 1 := by
  simp [extent, valueBytes_string]

theorem extent_integer (n : Int) : extent (integer n) = (valueBytes (integer n)).length := by
  simp [extent]

theorem extentItems_eq (vs : List Json) : extentItems vs = (vs.map fun v => 1 + extent v).sum := by
  induction vs with
  | nil => rfl
  | cons v vs ih => rw [extentItems, ih, List.map_cons, List.sum_cons]

theorem extentMembers_eq (ms : List (String × Json)) :
    extentMembers ms = (ms.map fun m => (stringTail m.1).length + 3 + extent m.2).sum := by
  induction ms with
  | nil => rfl
  | cons m ms ih => rw [extentMembers, ih, List.map_cons, List.sum_cons]

theorem sum_pushMember_le {α : Type} (weight : String × α → Nat) (acc : List (String × α))
    (m : String × α) :
    ((pushMember acc m).map weight).sum ≤ weight m + (acc.map weight).sum := by
  cases acc with
  | nil => exact le_rfl
  | cons last earlier =>
    rw [pushMember]
    split
    · simp only [List.map_cons, List.sum_cons]
      omega
    · simp only [List.map_cons, List.sum_cons]
      omega

/-- Putting members into order adds nothing. -/
theorem sum_sortMembers_le {α : Type} (weight : String × α → Nat) (ms : List (String × α)) :
    ((sortMembers ms).map weight).sum ≤ (ms.map weight).sum := by
  have hfold (ns acc : List (String × α)) :
      ((ns.foldl pushMember acc).map weight).sum ≤ (ns.map weight).sum + (acc.map weight).sum := by
    induction ns generalizing acc with
    | nil => simp
    | cons n ns ih =>
      have hpush := sum_pushMember_le weight acc n
      have hrest := ih (pushMember acc n)
      simp only [List.foldl_cons, List.map_cons, List.sum_cons]
      omega
  have hsum := ((List.mergeSort_perm ms fun a b => !decide (b.1 < a.1)).map weight).sum_eq
  rw [sortMembers, List.map_reverse, List.sum_reverse]
  have := hfold (ms.mergeSort fun a b => !decide (b.1 < a.1)) []
  simp only [List.map_nil, List.sum_nil] at this
  omega

mutual

/-- **Apart from the extent, a text holds nothing but doubles.** -/
theorem length_valueBytes_le : ∀ v : Json, Valid v →
    (valueBytes v).length ≤ extent v + 31 * (doubles v).length
  | null, _ => by simp [extent]
  | bool _, _ => by simp [extent]
  | integer _, _ => by simp [extent]
  | string _, _ => by simp [extent]
  | double x, hv => by
    have hascii : ∀ c ∈ (doubleLayout.text x).toList, c.toNat < 128 :=
      fun c hc => (numeric_range (isNumeric_doubleText hv hc)).2
    rw [valueBytes, chars, length_encodeChars hascii, extent, doubles]
    exact (length_doubleText_le hv).trans (by simp)
  | array [], _ => by
    rw [valueBytes_nil_array]
    simp [extent, extentItems]
  | array (v :: vs), hv => by
    have hfirst := length_valueBytes_le v hv.1
    have hrest := length_itemsBytes_le vs hv.2
    rw [valueBytes_array]
    simp only [extent, extentItems, doubles, doublesItems, List.length_cons, List.length_append,
      List.length_nil]
    omega
  | object [], _ => by
    rw [valueBytes_nil_object]
    simp [extent, extentMembers]
  | object ((name, v) :: ms), hv => by
    have hfirst := length_valueBytes_le v hv.2.1
    have hrest := length_membersBytes_le ms hv.2.2
    rw [valueBytes_object]
    simp only [memberBytes, extent, extentMembers, doubles, doublesMembers, List.length_cons,
      List.length_append, List.length_nil]
    omega

theorem length_itemsBytes_le : ∀ vs : List Json, ValidItems vs →
    (itemsBytes vs).length ≤ extentItems vs + 31 * (doublesItems vs).length
  | [], _ => by simp [itemsBytes, itemsChars]
  | v :: vs, hv => by
    have hfirst := length_valueBytes_le v hv.1
    have hrest := length_itemsBytes_le vs hv.2
    rw [itemsBytes_cons]
    simp only [extentItems, doublesItems, List.length_cons, List.length_append]
    omega

theorem length_membersBytes_le : ∀ ms : List (String × Json), ValidMembers ms →
    (membersBytes ms).length ≤ extentMembers ms + 31 * (doublesMembers ms).length
  | [], _ => by simp [membersBytes, membersChars]
  | (name, v) :: ms, hv => by
    have hfirst := length_valueBytes_le v hv.1
    have hrest := length_membersBytes_le ms hv.2
    rw [membersBytes_cons]
    simp only [memberBytes, extentMembers, doublesMembers, List.length_cons, List.length_append]
    omega

end

/-! ## Numbers -/

theorem digitValue_lt {b : UInt8} (h : Ascii.isDigit b = true) : Ascii.digitValue b < 10 := by
  simp only [Ascii.isDigit, Bool.and_eq_true, decide_eq_true_eq, UInt8.le_iff_toNat_le] at h
  rw [Ascii.digitValue]
  have h9 : digit9.toNat = digit0.toNat + 9 := rfl
  omega

/-- Digits stay in step with their number. -/
theorem digits_fits {n k : Nat} (h : n < 10 ^ k) (s : Bytes) :
    (digits n k s).1 < 10 ^ (digits n k s).2.1 ∧
      (digits n k s).2.1 + (digits n k s).2.2.length = k + s.length := by
  induction s generalizing n k with
  | nil => exact ⟨h, rfl⟩
  | cons b s ih =>
    unfold digits
    split
    · rename_i hd
      rw [Bool.and_eq_true] at hd
      have hb := digitValue_lt hd.1
      obtain ⟨hlt, hlength⟩ := ih (n := 10 * n + Ascii.digitValue b) (k := k + 1) (by
        rw [pow_succ]
        omega)
      refine ⟨hlt, ?_⟩
      rw [hlength, List.length_cons]
      omega
    · exact ⟨h, rfl⟩

theorem extent_integer_le {n : Int} {k : Nat} (hk : 0 < k) (h : n.natAbs < 10 ^ k) :
    extent (integer n) ≤ k + (signBytes (n < 0)).length := by
  have hascii : ∀ c ∈ digitText n.natAbs, c.toNat < 128 := fun c hc =>
    (numeric_range (.inl (isDigit_of_mem_digitText hc))).2
  have hlength := length_digitText_le hk h
  rw [extent_integer, valueBytes, chars, intBytes, List.length_append, length_encodeChars hascii]
  omega

theorem extent_whole_le (negative : Bool) {n k : Nat} (hk : 0 < k) (h : n < 10 ^ k) :
    (whole negative n).depth = 0 ∧
      extent (whole negative n) ≤ k + (signBytes negative).length := by
  unfold whole
  split
  · rename_i hpositive
    have := extent_integer_le (n := n) hk h
    rw [decide_eq_false (by omega)] at this
    rw [Bool.not_eq_true'] at hpositive
    exact ⟨rfl, hpositive ▸ this⟩
  · rename_i hnegative
    rw [Bool.not_eq_true, Bool.not_eq_false'] at hnegative
    split
    · exact ⟨rfl, Nat.zero_le _⟩
    · rename_i hn
      simp only [Bool.or_eq_true, decide_eq_true_eq, not_or] at hn
      have := extent_integer_le (n := -n) hk (by rwa [Int.natAbs_neg, Int.natAbs_natCast])
      rw [decide_eq_true (by omega)] at this
      exact ⟨rfl, hnegative ▸ this⟩

theorem numberTail_leaves (negative : Bool) {n k : Nat} (hk : 0 < k) (h : n < 10 ^ k)
    (hn : n ≤ maxSignificand) (s : Bytes) :
    Leaves (fun v rest => v.depth = 0 ∧
      extent v + rest.length ≤ k + s.length + (signBytes negative).length)
      (numberTail negative n s) := by
  intro v rest hv
  have hrest := ((numberTail_extends stops_nil negative n s).ok v rest hv).1.length_le
  rcases numberTail_yields hn v rest hv with rfl | ⟨x, rfl, -⟩
  · obtain ⟨hdepth, hextent⟩ := extent_whole_le negative hk h
    exact ⟨hdepth, by omega⟩
  · refine ⟨rfl, ?_⟩
    rw [extent]
    omega

theorem number_leaves (negative : Bool) (s : Bytes) :
    Leaves (fun v rest => v.depth = 0 ∧
      extent v + rest.length ≤ s.length + (signBytes negative).length) (number negative s) := by
  cases s with
  | nil => exact .error _
  | cons b s =>
    unfold number
    refine .ite (.ite (.error _) ?_) ?_
    · refine (numberTail_leaves negative (k := 1) (by decide) (by decide) (by decide) s).mono ?_
      intro v rest hv
      rw [List.length_cons]
      exact ⟨hv.1, by omega⟩
    · split
      · rename_i hdigit
        have hvalue := digitValue_lt hdigit
        have hfirst : digits 0 0 (b :: s) = digits (Ascii.digitValue b) 1 s := by
          rw [digits, hdigit, Bool.true_and, if_pos, Nat.mul_zero, Nat.zero_add]
          simp only [Nat.mul_zero, Nat.zero_add, maxSignificand, UInt64.size, decide_eq_true_eq]
          omega
        -- the first digit always fits, so one digit is taken at the least
        obtain ⟨hlt, hlength⟩ := digits_fits (n := Ascii.digitValue b) (k := 1) hvalue s
        have hsuffix := (digits_suffix (Ascii.digitValue b) 1 s).length_le
        have hmax : (digits 0 0 (b :: s)).1 ≤ maxSignificand := digits_le (Nat.zero_le _)
        rw [hfirst] at hmax ⊢
        generalize digits (Ascii.digitValue b) 1 s = p at hlt hlength hsuffix hmax ⊢
        obtain ⟨n, count, t⟩ := p
        dsimp only at hlt hlength hsuffix hmax ⊢
        refine (numberTail_leaves negative (by omega) hlt hmax t).mono fun v rest hv => ?_
        rw [List.length_cons]
        exact ⟨hv.1, by omega⟩
      · exact .error _

/-! ## Values -/

theorem length_skipBlank_le (s : Bytes) : (skipBlank s).length ≤ s.length := by
  induction s with
  | nil => exact le_rfl
  | cons b s ih =>
    unfold skipBlank
    split
    · exact ih.trans (Nat.le_succ _)
    · exact le_rfl

theorem length_of_skipBlank {s rest : Bytes} {b : UInt8} (h : skipBlank s = b :: rest) :
    rest.length + 1 ≤ s.length := by
  have := length_skipBlank_le s
  rwa [h, List.length_cons] at this

/-- What is taken at the least: `more` bytes before the next item or name, a bracket at the end. -/
def Next.Within (more : Nat) (s : Bytes) : Next → Prop
  | .more rest => rest.length + more ≤ s.length
  | .stop rest => rest.length + 1 ≤ s.length

theorem nextItem_within {first : Bool} {s : Bytes} {next : Next} (h : nextItem first s = .ok next) :
    next.Within (if first then 0 else 1) s := by
  unfold nextItem at h
  split at h
  · cases h
  rename_i b rest hs
  have hlength := length_of_skipBlank hs
  split at h
  · cases h
    exact hlength
  · split at h
    · cases h
      rename_i hfirst
      rw [hfirst]
      exact hlength
    · rename_i hfirst
      rw [if_neg hfirst]
      split at h
      · split at h
        · cases h
        · rename_i c rest' hs'
          have hrest := length_of_skipBlank hs'
          split at h
          · cases h
          · cases h
            simp only [Next.Within, List.length_cons]
            omega
      · cases h

theorem nextName_within {first : Bool} {s : Bytes} {next : Next} (h : nextName first s = .ok next) :
    next.Within (if first then 1 else 2) s := by
  unfold nextName at h
  split at h
  · cases h
  rename_i b rest hs
  have hlength := length_of_skipBlank hs
  split at h
  · cases h
    exact hlength
  · split at h
    · rename_i hfirst
      rw [hfirst]
      split at h
      · cases h
        exact hlength
      · cases h
    · rename_i hfirst
      rw [if_neg hfirst]
      split at h
      · split at h
        · cases h
        · rename_i c rest' hs'
          have hrest := length_of_skipBlank hs'
          split at h
          · cases h
            simp only [Next.Within]
            omega
          · split at h <;> cases h
      · cases h

theorem length_of_colonAfter {s rest : Bytes} (h : colonAfter s = .ok rest) :
    rest.length + 1 ≤ s.length := by
  unfold colonAfter at h
  split at h
  · cases h
  rename_i b t hs
  have hlength := length_of_skipBlank hs
  split at h
  · cases h
    exact hlength
  · cases h

theorem ident_eq_ok {letters : List UInt8} {s rest : Bytes} (h : ident letters s = .ok rest) :
    s = letters ++ rest := by
  induction letters generalizing s with
  | nil =>
    cases h
    rfl
  | cons c letters ih =>
    cases s with
    | nil => cases h
    | cons b s =>
      rw [ident] at h
      split at h
      · rename_i hbc
        rw [hbc, List.cons_append, ← ih h]
      · cases h

theorem length_of_ident {letters : List UInt8} {s rest : Bytes} (h : ident letters s = .ok rest) :
    rest.length + letters.length = s.length := by
  rw [ident_eq_ok h, List.length_append, Nat.add_comm]

theorem depthItems_lt_iff {vs : List Json} {d : Nat} (hd : 0 < d) :
    depthItems vs < d ↔ ∀ v ∈ vs, v.depth < d := by
  induction vs with
  | nil => simpa [depthItems] using hd
  | cons v vs ih => simp [depthItems, ih]

theorem depthMembers_lt_iff {ms : List (String × Json)} {d : Nat} (hd : 0 < d) :
    depthMembers ms < d ↔ ∀ m ∈ ms, m.2.depth < d := by
  induction ms with
  | nil => simpa [depthMembers] using hd
  | cons m ms ih => simp [depthMembers, ih]

/-- A value no deeper than allowed whose extent was taken from the text. -/
def Fits (depth length : Nat) (v : Json) (rest : Bytes) : Prop :=
  v.depth < depth ∧ extent v + rest.length ≤ length

theorem ident_leaves {letters : List UInt8} {v : Json} {depth length : Nat} {s : Bytes}
    (hd : v.depth < depth) (hv : extent v ≤ letters.length + 1) (hs : s.length + 1 ≤ length) :
    Leaves (Fits depth length) ((ident letters s).map fun rest => (v, rest)) := by
  cases hi : ident letters s with
  | error f => exact .error f
  | ok rest =>
    have := length_of_ident hi
    exact .ok ⟨hd, by omega⟩

mutual

theorem value_leaves (fuel : Nat) {depth : Nat} (hd : 0 < depth) (s : Bytes) :
    Leaves (Fits depth s.length) (value fuel depth s) := by
  cases fuel with
  | zero => exact .error _
  | succ fuel =>
    unfold value
    split
    · exact .error _
    rename_i b rest hs
    have hlength := length_of_skipBlank hs
    refine .ite ?_ (.ite (.guard fun hdepth => ?_) (.ite (.guard fun hdepth => ?_)
      (.ite ?_ (.ite ?_ (.ite (ident_leaves hd (by decide) hlength)
        (.ite (ident_leaves hd (by decide) hlength)
          (.ite (ident_leaves hd (by decide) hlength) (.error _))))))))
    · cases ht : text fuel rest with
      | error f => exact .error f
      | ok p =>
        have htext := text_leaves fuel rest p.1 p.2 ht
        refine .ok ⟨hd, ?_⟩
        rw [extent_string]
        dsimp only at htext ⊢
        omega
    · refine (items_leaves fuel (show 0 < depth - 1 by omega) [] rest (by simp)).mono ?_
      rintro v t ⟨hv, hextent⟩
      rw [extentItems] at hextent
      exact ⟨by omega, by omega⟩
    · refine (members_leaves fuel (show 0 < depth - 1 by omega) [] rest (by simp)).mono ?_
      rintro v t ⟨hv, hextent⟩
      rw [extentMembers] at hextent
      exact ⟨by omega, by omega⟩
    · refine (number_leaves true rest).mono fun v t hv => ⟨by omega, ?_⟩
      have hsign : (signBytes true).length = 1 := rfl
      omega
    · refine (number_leaves false (b :: rest)).mono fun v t hv => ⟨by omega, ?_⟩
      have hsign : (signBytes false).length = 0 := rfl
      rw [List.length_cons] at hv
      omega

theorem items_leaves (fuel : Nat) {depth : Nat} (hd : 0 < depth) (acc : List Json) (s : Bytes)
    (hacc : ∀ v ∈ acc, v.depth < depth) :
    Leaves (Fits (depth + 1) (s.length + max 1 (extentItems acc))) (items fuel depth acc s) := by
  cases fuel with
  | zero => exact .error _
  | succ fuel =>
    unfold items
    split
    · exact .error _
    · rename_i rest hnext
      have hstop : rest.length + 1 ≤ s.length := nextItem_within hnext
      have hdepth : depthItems acc.reverse < depth :=
        (depthItems_lt_iff hd).2 fun v hv => hacc v (List.mem_reverse.1 hv)
      have hextent : extentItems acc.reverse = extentItems acc := by
        rw [extentItems_eq, extentItems_eq, List.map_reverse, List.sum_reverse]
      refine .ok ⟨?_, ?_⟩
      · rw [Json.depth]
        omega
      · rw [extent, hextent]
        omega
    · rename_i rest hnext
      have hmore := nextItem_within hnext
      cases hv : value fuel depth rest with
      | error f => exact .error _
      | ok p =>
        obtain ⟨v, t⟩ := p
        obtain ⟨hdepth, hextent⟩ := value_leaves fuel hd rest v t hv
        refine (items_leaves fuel hd (v :: acc) t (List.forall_mem_cons.2 ⟨hdepth, hacc⟩)).mono ?_
        rintro w u ⟨hw, hu⟩
        refine ⟨hw, ?_⟩
        rw [extentItems] at hu
        -- the comma that an item is counted with was read, but for the first item
        cases acc with
        | nil =>
          have hmore : rest.length + 0 ≤ s.length := hmore
          rw [extentItems] at hu ⊢
          omega
        | cons a acc =>
          have hmore : rest.length + 1 ≤ s.length := hmore
          omega

theorem members_leaves (fuel : Nat) {depth : Nat} (hd : 0 < depth) (acc : List (String × Json))
    (s : Bytes) (hacc : ∀ m ∈ acc, m.2.depth < depth) :
    Leaves (Fits (depth + 1) (s.length + max 1 (extentMembers acc)))
      (members fuel depth acc s) := by
  cases fuel with
  | zero => exact .error _
  | succ fuel =>
    unfold members
    split
    · exact .error _
    · rename_i rest hnext
      have hstop : rest.length + 1 ≤ s.length := nextName_within hnext
      have hdepth : depthMembers (sortMembers acc.reverse) < depth :=
        (depthMembers_lt_iff hd).2 fun m hm =>
          hacc m (List.mem_reverse.1 ((sortMembers_spec _).2 m hm))
      have hextent : extentMembers (sortMembers acc.reverse) ≤ extentMembers acc := by
        have := sum_sortMembers_le (fun m => (stringTail m.1).length + 3 + extent m.2) acc.reverse
        rwa [List.map_reverse, List.sum_reverse, ← extentMembers_eq, ← extentMembers_eq] at this
      refine .ok ⟨?_, ?_⟩
      · rw [ofMembers, Json.depth]
        omega
      · rw [ofMembers, extent]
        omega
    · rename_i rest hnext
      have hmore := nextName_within hnext
      cases hname : text fuel rest with
      | error f => exact .error _
      | ok p =>
        obtain ⟨name, afterName⟩ := p
        have htext := text_leaves fuel rest name afterName hname
        dsimp only
        cases hcolon : colonAfter afterName with
        | error f => exact .error _
        | ok afterColon =>
          have hcolon := length_of_colonAfter hcolon
          dsimp only
          cases hv : value fuel depth afterColon with
          | error f => exact .error _
          | ok p =>
            obtain ⟨v, t⟩ := p
            obtain ⟨hdepth, hextent⟩ := value_leaves fuel hd afterColon v t hv
            refine (members_leaves fuel hd ((name, v) :: acc) t
              (List.forall_mem_cons.2 ⟨hdepth, hacc⟩)).mono ?_
            rintro w u ⟨hw, hu⟩
            refine ⟨hw, ?_⟩
            rw [extentMembers] at hu
            cases acc with
            | nil =>
              have hmore : rest.length + 1 ≤ s.length := hmore
              rw [extentMembers] at hu ⊢
              omega
            | cons a acc =>
              have hmore : rest.length + 2 ≤ s.length := hmore
              omega

end

/-- **A value that was read is neither deeper than allowed nor longer than its text**, apart from
its doubles. -/
theorem fits_of_read {s : Bytes} {v : Json} (h : read s = .ok v) :
    Fits depthLimit s.length v [] := by
  obtain ⟨rest, hv, -⟩ := read_eq_ok h
  obtain ⟨hdepth, hextent⟩ := value_leaves (stepsFor s) (by decide) s v rest hv
  exact ⟨hdepth, Nat.le_trans (Nat.add_le_add_left (Nat.zero_le _) _) hextent⟩

end Quorum.Json
