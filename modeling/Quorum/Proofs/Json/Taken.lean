import Mathlib
import Quorum.Json.Record
import Quorum.Proofs.Json.Nesting

/-!
# What is read is closed

Whatever a reader takes from a text is well nested: a number or a constant, any value
(`value_takes`), a value that is skipped (`skip_passes`), and the members of a record up to the
brace that closes it (`Shape.readMembers_takes`). So a text that is cut off while a bracket is open
(`exists_opened`) is never read as a whole.
-/

namespace Quorum.Json

open Ascii

/-! ## What a reader takes -/

/-- Whatever is read from `s`, the brackets open before the rest of it are `n`, if they were `m`. -/
def Takes {α : Type} (m n : Nat) (s : Bytes) (r : Read α) : Prop :=
  Leaves (fun _ rest => Passes m n s rest) r

theorem Takes.behind {α : Type} {k m n : Nat} {s t : Bytes} {r : Read α} (h : Takes m n t r)
    (hs : Passes k m s t) : Takes k n s r :=
  h.mono fun _ _ => hs.trans

/-! ## Numbers -/

theorem digits_passes (n count : Nat) (s : Bytes) : Passes 0 0 s (digits n count s).2.2 := by
  induction s generalizing n count with
  | nil => exact .refl 0 _
  | cons b s ih =>
    rw [digits]
    split
    · rename_i hb
      exact (ih _ _).cons (ordinary_of_isDigit (Bool.and_eq_true_iff.1 hb).1)
    · exact .refl 0 _

theorem skipDigits_passes (count : Nat) (s : Bytes) : Passes 0 0 s (skipDigits count s).2 := by
  induction s generalizing count with
  | nil => exact .refl 0 _
  | cons b s ih =>
    rw [skipDigits]
    split
    · exact (ih _).cons (ordinary_of_isDigit ‹_›)
    · exact .refl 0 _

theorem exponentDigits_passes (n : Nat) (s : Bytes) : Passes 0 0 s (exponentDigits n s).2 := by
  induction s generalizing n with
  | nil => exact .refl 0 _
  | cons b s ih =>
    rw [exponentDigits]
    split
    · rename_i hb
      split
      · exact .ordinary (ordinary_of_isDigit hb) 0 s
      · exact (ih _).cons (ordinary_of_isDigit hb)
    · exact .refl 0 _

theorem scaled_takes (negative : Bool) (n : Nat) (e : Int) (s : Bytes) :
    Takes 0 0 s (scaled negative n e s) := by
  unfold scaled
  cases scale (Double.ofNat n) e with
  | none => exact .error _
  | some x => exact .ok (.refl 0 s)

theorem exponentTail_takes (negative : Bool) (n : Nat) (start : Int) (down : Bool) (s : Bytes) :
    Takes 0 0 s (exponentTail negative n start down s) := by
  cases s with
  | nil => exact .error _
  | cons b s =>
    unfold exponentTail
    refine .guard fun hb => ?_
    have hdigits := exponentDigits_passes (digitValue b) s
    generalize exponentDigits (digitValue b) s = p at hdigits ⊢
    obtain ⟨e, t⟩ := p
    have hs : Passes 0 0 (b :: s) t := .cons (ordinary_of_isDigit (by simpa using hb)) hdigits
    cases e with
    | some e => exact (scaled_takes negative n _ t).behind hs
    | none => exact .ite (.error _) (.ok (hs.trans (skipDigits_passes 0 t)))

theorem exponent_takes (negative : Bool) (n : Nat) (start : Int) (s : Bytes) :
    Takes 0 0 s (exponent negative n start s) := by
  cases s with
  | nil => exact .error _
  | cons b s =>
    have htail (down : Bool) (hb : Ordinary b) :=
      (exponentTail_takes negative n start down s).behind (.ordinary hb 0 s)
    rw [exponent_cons]
    exact .either (fun hb => htail false (hb ▸ by decide)) fun _ =>
      .either (fun hb => htail true (hb ▸ by decide)) fun _ =>
        exponentTail_takes negative n start false (b :: s)

theorem ordinary_of_exponent {b : UInt8} (h : (b = lowerE || b = upperE) = true) : Ordinary b := by
  simp only [Bool.or_eq_true, decide_eq_true_eq] at h
  rcases h with rfl | rfl <;> decide

theorem exponentOrEnd_takes (negative : Bool) (n : Nat) (e : Int) (s : Bytes) :
    Takes 0 0 s (exponentOrEnd negative n e s) := by
  cases s with
  | nil => exact scaled_takes negative n e []
  | cons b s =>
    exact .either
      (fun hb => (exponent_takes negative n e s).behind (.ordinary (ordinary_of_exponent hb) 0 s))
      fun _ => scaled_takes negative n e (b :: s)

theorem fraction_takes (negative : Bool) (n e : Nat) (s : Bytes) :
    Takes 0 0 s (fraction negative n e s) := by
  have hdigits := digits_passes n 0 s
  unfold fraction
  generalize digits n 0 s = p at hdigits ⊢
  obtain ⟨m, count, t⟩ := p
  refine .ite ((exponentOrEnd_takes _ _ _ _).behind (hdigits.trans (skipDigits_passes 0 t)))
    (.ite ?_ ((exponentOrEnd_takes _ _ _ t).behind hdigits))
  cases t <;> exact .error _

theorem numberTail_takes (negative : Bool) (n : Nat) (s : Bytes) :
    Takes 0 0 s (numberTail negative n s) := by
  cases s with
  | nil => exact .ok (.refl 0 _)
  | cons b s =>
    have hskip := skipDigits_passes 0 (b :: s)
    unfold numberTail
    refine .ite ?_ (.either (fun hb => ?_) fun _ => .either (fun hb => ?_) fun _ => .ok (.refl 0 _))
    · generalize skipDigits 0 (b :: s) = p at hskip ⊢
      obtain ⟨dropped, t⟩ := p
      cases t with
      | nil => exact (scaled_takes negative n dropped []).behind hskip
      | cons c t =>
        exact .either (fun hc => (fraction_takes negative n dropped t).behind
          (hskip.trans (.ordinary (hc ▸ by decide) 0 t)))
          fun _ => (exponentOrEnd_takes negative n dropped (c :: t)).behind hskip
    · exact (fraction_takes negative n 0 s).behind (.ordinary (hb ▸ by decide) 0 s)
    · exact (exponent_takes negative n 0 s).behind (.ordinary (ordinary_of_exponent hb) 0 s)

theorem number_takes (negative : Bool) (s : Bytes) : Takes 0 0 s (number negative s) := by
  cases s with
  | nil => exact .error _
  | cons b s =>
    unfold number
    refine .either (fun hb => .ite (.error _) ?_) fun _ => .ite ?_ (.error _)
    · exact (numberTail_takes negative 0 s).behind (.ordinary (hb ▸ by decide) 0 s)
    · exact (numberTail_takes negative _ _).behind (digits_passes 0 0 (b :: s))

/-! ## Values -/

theorem passes_skipBlank {s : Bytes} (n : Nat) : Passes n n s (skipBlank s) := by
  obtain ⟨ws, hws, hs⟩ := exists_blanks s
  generalize skipBlank s = t at hs
  exact hs ▸ passes_blanks hws n t

theorem passes_of_skipBlank {s t : Bytes} (h : skipBlank s = t) (n : Nat) : Passes n n s t :=
  h ▸ passes_skipBlank n

theorem passes_separator {first : Bool} {sep : Bytes} (h : Separator first sep) (n : Nat)
    (s : Bytes) : Passes n n (sep ++ s) s := by
  cases first with
  | true =>
    obtain rfl : sep = [] := h
    exact .refl n s
  | false =>
    obtain ⟨ws, hws, rfl⟩ := h
    rw [List.append_assoc]
    exact (passes_blanks hws n _).trans (.ordinary (by decide) n s)

/-- A text is well nested if what is read of it is, and nothing more follows. -/
theorem wellNested_of_passes {s rest : Bytes} (h : Passes 0 0 s rest)
    (hmore : nothingMore rest = .ok ()) : WellNested s := by
  have hblanks := passes_blanks (blanks_of_nothingMore hmore) 0 []
  rw [List.append_nil] at hblanks
  obtain ⟨t, ht, hrun⟩ := h.trans hblanks
  rw [List.append_nil] at ht
  exact ht ▸ hrun

/-- What is passed before an item, or with the bracket behind the last one. -/
theorem nextItem_passes {first : Bool} {s : Bytes} {next : Next}
    (h : nextItem first s = .ok next) (n : Nat) :
    match next with
    | .stop rest => Passes (n + 1) n s rest
    | .more rest => Passes n n s rest := by
  have hs := spelled_nextItem h
  cases next with
  | stop rest =>
    obtain ⟨ws, hws, rfl⟩ := hs
    exact (passes_blanks hws _ _).trans (.closing (.inl rfl) n rest)
  | more rest =>
    obtain ⟨sep, ws, hsep, hws, rfl⟩ := hs
    exact (passes_separator hsep n _).trans (passes_blanks hws n rest)

/-- What is passed before a name and its opening quote, or with the brace behind the last member. -/
theorem nextName_passes {first : Bool} {s : Bytes} {next : Next}
    (h : nextName first s = .ok next) (n : Nat) :
    match next with
    | .stop rest => Passes (n + 1) n s rest
    | .more rest => Passes n n s (quote :: rest) := by
  have hs := spelled_nextName h
  cases next with
  | stop rest =>
    obtain ⟨ws, hws, rfl⟩ := hs
    exact (passes_blanks hws _ _).trans (.closing (.inr rfl) n rest)
  | more rest =>
    obtain ⟨sep, ws, hsep, hws, rfl⟩ := hs
    exact (passes_separator hsep n _).trans (passes_blanks hws n _)

theorem colonAfter_passes {s rest : Bytes} (h : colonAfter s = .ok rest) (n : Nat) :
    Passes n n s rest := by
  obtain ⟨ws, hws, rfl⟩ := spelled_colonAfter h
  exact (passes_blanks hws n _).trans (.ordinary (by decide) n rest)

/-- A member of an object, from what separates it from the one before to the end of its value. -/
theorem member_passes {fuel : Nat} {first : Bool} {name : String} {s rest t u w : Bytes}
    (hnext : nextName first s = .ok (.more rest)) (hname : text fuel rest = .ok (name, t))
    (hcolon : colonAfter t = .ok u) (hvalue : Passes 0 0 u w) : Passes 1 1 s w :=
  (nextName_passes hnext 1).trans ((text_passes hname 1).trans
    ((colonAfter_passes hcolon 1).trans (hvalue.raise 1)))

theorem ident_passes {letters : List UInt8} (hletters : ∀ b ∈ letters, Ordinary b) {s rest : Bytes}
    (h : ident letters s = .ok rest) : Passes 0 0 s rest := by
  rw [ident_eq_ok h]
  exact .wellNested (.of_ordinary hletters) 0 rest

theorem ident_takes {letters : List UInt8} (hletters : ∀ b ∈ letters, Ordinary b) (v : Json)
    (s : Bytes) : Takes 0 0 s ((ident letters s).map fun rest => (v, rest)) := by
  cases h : ident letters s with
  | error f => exact .error f
  | ok rest => exact .ok (ident_passes hletters h)

theorem ordinary_constants : ∀ letters ∈ [ull, rue, alse], ∀ b ∈ letters, Ordinary b := by
  decide +kernel

mutual

/-- **What is read as a value is well nested.** -/
theorem value_takes (fuel depth : Nat) (s : Bytes) : Takes 0 0 s (value fuel depth s) := by
  cases fuel with
  | zero => exact .error _
  | succ fuel =>
    unfold value
    split
    · exact .error _
    rename_i b rest hs
    have hord (hb : Ordinary b) : Passes 0 0 (b :: rest) rest := .ordinary hb 0 rest
    have hident {letters : List UInt8} (hletters : letters ∈ [ull, rue, alse]) (v : Json) :=
      ident_takes (ordinary_constants letters hletters) v rest
    refine Takes.behind (t := b :: rest) ?_ (passes_of_skipBlank hs 0)
    refine .either (fun hb => ?_) fun _ => .either (fun hb => .guard fun _ => ?_) fun _ =>
      .either (fun hb => .guard fun _ => ?_) fun _ => .either (fun hb => ?_) fun _ =>
      .ite (number_takes false (b :: rest)) (.either (fun hb => ?_) fun _ =>
      .either (fun hb => ?_) fun _ => .either (fun hb => ?_) fun _ => .error _)
    · cases htext : text fuel rest with
      | error f => exact .error f
      | ok p => exact .ok (hb ▸ text_passes htext 0)
    · exact (items_takes fuel (depth - 1) [] rest).behind (.opening (.inl hb) 0 rest)
    · exact (members_takes fuel (depth - 1) [] rest).behind (.opening (.inr hb) 0 rest)
    · exact (number_takes true rest).behind (hord (hb ▸ by decide))
    · exact (hident (by simp) null).behind (hord (hb ▸ by decide))
    · exact (hident (by simp) (bool true)).behind (hord (hb ▸ by decide))
    · exact (hident (by simp) (bool false)).behind (hord (hb ▸ by decide))

theorem items_takes (fuel depth : Nat) (acc : List Json) (s : Bytes) :
    Takes 1 0 s (items fuel depth acc s) := by
  cases fuel with
  | zero => exact .error _
  | succ fuel =>
    unfold items
    split
    · exact .error _
    · exact .ok (nextItem_passes ‹_› 0)
    · rename_i rest hnext
      split
      · exact .error _
      · rename_i v t hv
        exact (items_takes fuel depth (v :: acc) t).behind
          ((nextItem_passes hnext 1).trans ((value_takes fuel depth rest v t hv).raise 1))

theorem members_takes (fuel depth : Nat) (acc : List (String × Json)) (s : Bytes) :
    Takes 1 0 s (members fuel depth acc s) := by
  cases fuel with
  | zero => exact .error _
  | succ fuel =>
    unfold members
    split
    · exact .error _
    · exact .ok (nextName_passes ‹_› 0)
    · rename_i rest hnext
      split
      · exact .error _
      rename_i name t hname
      split
      · exact .error _
      rename_i u hcolon
      split
      · exact .error _
      rename_i v w hv
      exact (members_takes fuel depth ((name, v) :: acc) w).behind
        (member_passes hnext hname hcolon (value_takes fuel depth u v w hv))

end

/-! ## Skipping -/

/-- Any string ends where it is closed, also one that is not read. -/
theorem skipString_run {fuel : Nat} {s rest : Bytes} (h : skipString fuel s = .ok rest) :
    ∃ t, s = t ++ rest ∧ (Scan.string 0).run t = some (.code 0) := by
  fun_induction skipString fuel s with
  | case1 | case2 | case4 | case6 | case8 | case9 => cases h
  | case3 =>
    cases h
    exact ⟨[quote], rfl, rfl⟩
  | case5 _ e rest _ _ ih =>
    obtain ⟨t, rfl, ht⟩ := ih h
    exact ⟨backslash :: e :: t, rfl, ht⟩
  | case7 fuel rest code t hcode _ _ ih =>
    obtain ⟨u, rfl, hu⟩ := ih h
    obtain ⟨a, b, c, d, rfl, hhex⟩ := hexEscape_eq_ok hcode
    exact ⟨backslash :: lowerU :: a :: b :: c :: d :: u, rfl, (hex4_digits hhex 0 u).trans hu⟩
  | case10 fuel b rest hq hb hc ih =>
    obtain ⟨t, rfl, ht⟩ := ih h
    exact ⟨b :: t, rfl, by rw [Scan.run_cons, string_plain ⟨hq, hb, hc⟩, Option.bind_some, ht]⟩

theorem skipString_passes {fuel : Nat} {s rest : Bytes} (h : skipString fuel s = .ok rest) :
    Passes 0 0 (quote :: s) rest := by
  obtain ⟨t, rfl, ht⟩ := skipString_run h
  exact ⟨quote :: t, rfl, ht⟩

theorem skipExponent_passes {s rest : Bytes} (h : skipExponent s = .ok rest) :
    Passes 0 0 s rest := by
  cases s with
  | nil => cases h
  | cons b s =>
    have hsign : Passes 0 0 (b :: s) (if b = plus || b = minus then s else b :: s) := by
      split
      · rename_i hb
        simp only [Bool.or_eq_true, decide_eq_true_eq] at hb
        exact .ordinary (by rcases hb with rfl | rfl <;> decide) 0 s
      · exact .refl 0 _
    unfold skipExponent at h
    dsimp only at h
    generalize (if b = plus || b = minus then s else b :: s) = t at hsign h
    cases t with
    | nil => cases h
    | cons c t =>
      dsimp only at h
      split at h
      · cases h
        exact hsign.trans (.cons (ordinary_of_isDigit ‹_›) (skipDigits_passes 0 t))
      · cases h

theorem skipFraction_passes {s rest : Bytes} (h : skipFraction s = .ok rest) :
    Passes 0 0 s rest := by
  have hdigits := skipDigits_passes 0 s
  unfold skipFraction at h
  generalize skipDigits 0 s = p at hdigits h
  obtain ⟨count, t⟩ := p
  dsimp only at hdigits h
  split at h
  · cases h
  cases t with
  | nil =>
    cases h
    exact hdigits
  | cons b t =>
    dsimp only at h
    split at h
    · exact hdigits.trans (.cons (ordinary_of_exponent ‹_›) (skipExponent_passes h))
    · cases h
      exact hdigits

theorem skipNumber_passes {s rest : Bytes} (h : skipNumber s = .ok rest) : Passes 0 0 s rest := by
  cases s with
  | nil => cases h
  | cons b s =>
    have hdigits := skipDigits_passes 0 (b :: s)
    unfold skipNumber at h
    dsimp only at h
    split at h
    · cases h
    split at h
    · cases h
    generalize skipDigits 0 (b :: s) = p at hdigits h
    obtain ⟨count, t⟩ := p
    dsimp only at hdigits h
    cases t with
    | nil =>
      cases h
      exact hdigits
    | cons c t =>
      dsimp only at h
      split at h
      · rename_i hc
        exact hdigits.trans (.cons (hc ▸ by decide) (skipFraction_passes h))
      · split at h
        · exact hdigits.trans (.cons (ordinary_of_exponent ‹_›) (skipExponent_passes h))
        · cases h
          exact hdigits

theorem skipScalar_passes {fuel : Nat} {s rest : Bytes} (h : skipScalar fuel s = .ok rest) :
    Passes 0 0 s rest := by
  have hident {letters : List UInt8} (hletters : letters ∈ [ull, rue, alse]) {t : Bytes} :=
    @ident_passes letters (ordinary_constants letters hletters) t rest
  cases s with
  | nil => cases h
  | cons b s =>
    unfold skipScalar at h
    dsimp only at h
    split_ifs at h with hquote hminus hdigit hn ht hf
    · exact hquote ▸ skipString_passes h
    · exact (skipNumber_passes h).cons (hminus ▸ by decide)
    · exact skipNumber_passes h
    · exact (hident (by simp) h).cons (hn ▸ by decide)
    · exact (hident (by simp) h).cons (ht ▸ by decide)
    · exact (hident (by simp) h).cons (hf ▸ by decide)

theorem skipName_passes {fuel : Nat} {s rest : Bytes} (h : skipName fuel s = .ok rest) :
    Passes 0 0 s rest := by
  unfold skipName at h
  split at h
  · cases h
  rename_i b t hs
  split at h
  · rename_i hb
    subst hb
    cases hstring : skipString fuel t with
    | error f =>
      rw [hstring] at h
      cases h
    | ok u =>
      rw [hstring] at h
      exact (passes_of_skipBlank hs 0).trans ((skipString_passes hstring).trans
        (colonAfter_passes h 0))
  · cases h

theorem behindComma_passes {comma : Bool} {b : UInt8} {s t : Bytes} (hs : skipBlank s = b :: t)
    (hb : ¬(comma && b != Ascii.comma) = true) (n : Nat) :
    Passes n n s (if comma then t else b :: t) := by
  refine (passes_of_skipBlank hs n).trans ?_
  cases comma with
  | false => exact .refl n _
  | true =>
    obtain rfl : b = Ascii.comma := by simpa using hb
    exact .ordinary (by decide) n t

/-- What is skipped closes the frames that were open. -/
theorem skipFrom_passes {fuel : Nat} {place : Place} {frames : List Frame} {s rest : Bytes}
    (h : skipFrom fuel place frames s = .ok rest) : Passes frames.length 0 s rest := by
  fun_induction skipFrom fuel place frames s with
  | case1 | case3 | case6 | case8 | case10 | case12 => cases h
  | case2 =>
    cases h
    exact .refl 0 _
  | case4 _ frames s t hs ih =>
    exact (passes_of_skipBlank hs _).trans ((Passes.opening (.inl rfl) _ t).trans (ih h))
  | case5 _ frames s t hs _ ih =>
    exact (passes_of_skipBlank hs _).trans ((Passes.opening (.inr rfl) _ t).trans (ih h))
  | case7 fuel frames s b t hs _ _ u hu ih =>
    have hscalar := (skipScalar_passes hu).raise frames.length
    rw [Nat.zero_add] at hscalar
    exact (passes_of_skipBlank hs _).trans (hscalar.trans (ih h))
  | case9 _ _ frame frames s b t hs hb ih =>
    have hclose : b = closeBracket ∨ b = closeBrace := by
      cases frame with
      | list => exact .inl (eq_of_beq hb)
      | object => exact .inr (eq_of_beq hb)
    exact (passes_of_skipBlank hs _).trans ((Passes.closing hclose _ t).trans (ih h))
  | case11 _ comma frames s b t hs hb u _ ih =>
    exact (behindComma_passes hs hb _).trans (ih h)
  | case13 fuel comma frames s b t hs hb u v hname _ ih =>
    have hname := (skipName_passes hname).raise (frames.length + 1)
    rw [Nat.zero_add] at hname
    exact (behindComma_passes hs hb _).trans (hname.trans (ih h))

theorem skip_passes {fuel : Nat} {s rest : Bytes} (h : skip fuel s = .ok rest) :
    Passes 0 0 s rest := skipFrom_passes h

/-! ## Records -/

theorem expectText_takes (expected : String) (fuel : Nat) (s : Bytes) :
    Takes 0 0 s (expectText expected fuel s) := by
  unfold expectText
  split
  · exact .error _
  · rename_i b rest hs
    refine .either (fun hb str t ht => ?_) fun _ => .error _
    subst hb
    exact (passes_of_skipBlank hs 0).trans (text_passes ht 0)

theorem MemberKind.read_takes (kind : MemberKind) (fuel depth : Nat) (s : Bytes) :
    Takes 0 0 s (kind.read fuel depth s) := by
  cases kind with
  | any => exact value_takes fuel depth s
  | text =>
    unfold MemberKind.read
    cases h : expectText "a string" fuel s with
    | error f => exact .error f
    | ok p => exact .ok (expectText_takes _ fuel s p.1 p.2 h)

/-- What is read as the members of a record ends with the brace that closes it. -/
theorem Shape.readMembers_takes (shape : Shape) (depth fuel : Nat) (first : Bool) (slots : Slots)
    (s : Bytes) : Takes 1 0 s (shape.readMembers depth fuel first slots s) := by
  induction fuel generalizing first slots s with
  | zero => exact .error _
  | succ fuel ih =>
    unfold readMembers
    split
    · exact .error _
    · rename_i rest hnext
      split
      · exact .ok (nextName_passes hnext 0)
      · exact .error _
    · rename_i rest hnext
      split
      · exact .error _
      rename_i name t hname
      split
      · split
        · exact .error _
        rename_i u hcolon
        split
        · exact .error _
        rename_i w hskip
        exact (ih false slots w).behind (member_passes hnext hname hcolon (skip_passes hskip))
      · rename_i i kind _
        refine .ite (.error _) ?_
        split
        · exact .error _
        rename_i u hcolon
        split
        · exact .error _
        rename_i v w hv
        exact (ih false _ w).behind
          (member_passes hnext hname hcolon (kind.read_takes fuel depth u v w hv))

end Quorum.Json
