import Mathlib
import Quorum.Json.Reader
import Quorum.Proofs.Json.Reading
import Quorum.Proofs.Json.Text
import Quorum.Proofs.Text.Encoding

/-!
# Reading numbers

A number is read the same whatever stops it (`number_extends`), so a double that `read` takes
from its own text alone (`ReadsBack`) is also read from the front of a longer one
(`value_double`). Whole numbers in range are always read back (`value_integer`).
-/

namespace Quorum.Json

open Ascii Utf8 Decimal

/-! ## What stops a number -/

/-- A text that does not go on with a number in front of it. -/
def Stops (r : Bytes) : Prop :=
  ∀ b ∈ r.head?, isDigit b = false ∧ b ≠ dot ∧ b ≠ lowerE ∧ b ≠ upperE

theorem stops_nil : Stops [] := by
  intro b hb
  cases hb

theorem stops_cons {b : UInt8} (h : isDigit b = false ∧ b ≠ dot ∧ b ≠ lowerE ∧ b ≠ upperE)
    (r : Bytes) : Stops (b :: r) := by
  intro b' hb
  cases hb
  exact h

/-- `y`, read from `s ++ r` with nothing of `r` taken, is what `x`, read from `s`, is; only `r` is
left behind as well. -/
structure Extends (s r : Bytes) (x y : Read Json) : Prop where
  ok : ∀ v t, x = .ok (v, t) → t <:+ s ∧ y = .ok (v, t ++ r)
  back : ∀ v t, y = .ok (v, t ++ r) → x = .ok (v, t)

namespace Extends

variable {s s' r : Bytes} {x x' y y' : Read Json}

theorem error (f f' : Fault) : Extends s r (.error f) (.error f') := ⟨nofun, nofun⟩

theorem value {v : Json} {t : Bytes} (h : t <:+ s) :
    Extends s r (.ok (v, t)) (.ok (v, t ++ r)) := by
  constructor
  · rintro _ _ ⟨⟩
    exact ⟨h, rfl⟩
  · intro w u hw
    obtain ⟨rfl, hu⟩ := Prod.mk.inj (Except.ok.inj hw)
    rw [List.append_cancel_right hu]

theorem ite {c : Prop} [Decidable c] (h : Extends s r x y) (h' : Extends s r x' y') :
    Extends s r (if c then x else x') (if c then y else y') := by
  split
  · exact h
  · exact h'

theorem mono (h : Extends s r x y) (hs : s <:+ s') : Extends s' r x y where
  ok v t hx := ⟨(h.ok v t hx).1.trans hs, (h.ok v t hx).2⟩
  back := h.back

end Extends

section Local

variable {r : Bytes} (hr : Stops r)

include hr

theorem startsWithDigit_append (s : Bytes) : startsWithDigit (s ++ r) = startsWithDigit s := by
  cases s with
  | cons b s => rfl
  | nil =>
    cases r with
    | nil => rfl
    | cons b r => exact (hr b rfl).1

theorem digits_append (n count : Nat) (s : Bytes) :
    digits n count (s ++ r) =
      ((digits n count s).1, (digits n count s).2.1, (digits n count s).2.2 ++ r) := by
  induction s generalizing n count with
  | nil =>
    cases r with
    | nil => rfl
    | cons b r =>
      simp only [List.nil_append, digits, (hr b rfl).1, Bool.false_and, Bool.false_eq_true,
        ↓reduceIte]
  | cons b s ih =>
    rw [List.cons_append, digits, digits]
    split
    · exact ih _ _
    · rfl

theorem skipDigits_append (count : Nat) (s : Bytes) :
    skipDigits count (s ++ r) = ((skipDigits count s).1, (skipDigits count s).2 ++ r) := by
  induction s generalizing count with
  | nil =>
    cases r with
    | nil => rfl
    | cons b r =>
      simp only [List.nil_append, skipDigits, (hr b rfl).1, Bool.false_eq_true, ↓reduceIte]
  | cons b s ih =>
    rw [List.cons_append, skipDigits, skipDigits]
    split
    · exact ih _
    · rfl

theorem exponentDigits_append (n : Nat) (s : Bytes) :
    exponentDigits n (s ++ r) = ((exponentDigits n s).1, (exponentDigits n s).2 ++ r) := by
  induction s generalizing n with
  | nil =>
    cases r with
    | nil => rfl
    | cons b r =>
      simp only [List.nil_append, exponentDigits, (hr b rfl).1, Bool.false_eq_true, ↓reduceIte]
  | cons b s ih =>
    rw [List.cons_append, exponentDigits, exponentDigits]
    split
    · split
      · rfl
      · exact ih _
    · rfl

end Local

theorem digits_suffix (n count : Nat) (s : Bytes) : (digits n count s).2.2 <:+ s := by
  induction s generalizing n count with
  | nil => exact List.suffix_refl _
  | cons b s ih =>
    rw [digits]
    split
    · exact (ih _ _).trans (List.suffix_cons _ _)
    · exact List.suffix_refl _

theorem skipDigits_suffix (count : Nat) (s : Bytes) : (skipDigits count s).2 <:+ s := by
  induction s generalizing count with
  | nil => exact List.suffix_refl _
  | cons b s ih =>
    rw [skipDigits]
    split
    · exact (ih _).trans (List.suffix_cons _ _)
    · exact List.suffix_refl _

theorem exponentDigits_suffix (n : Nat) (s : Bytes) : (exponentDigits n s).2 <:+ s := by
  induction s generalizing n with
  | nil => exact List.suffix_refl _
  | cons b s ih =>
    rw [exponentDigits]
    split
    · split
      · exact List.suffix_cons _ _
      · exact (ih _).trans (List.suffix_cons _ _)
    · exact List.suffix_refl _

/-! ## Numbers are read locally -/

theorem scaled_extends (r : Bytes) (negative : Bool) (n : Nat) (e : Int) (s : Bytes) :
    Extends s r (scaled negative n e s) (scaled negative n e (s ++ r)) := by
  unfold scaled
  cases scale (Double.ofNat n) e with
  | none => exact .error _ _
  | some x => exact .value (List.suffix_refl _)

/-- Reads behind the sign of the exponent. -/
def exponentTail (negative : Bool) (n : Nat) (start : Int) (down : Bool) (s : Bytes) :
    Read Json :=
  match s with
  | [] => .error (.after .endInValue [])
  | b :: rest =>
    if !isDigit b then .error (.after .invalidNumber rest)
    else match exponentDigits (digitValue b) rest with
      | (some e, rest) => scaled negative n (if down then start - e else start + e) rest
      | (none, rest) =>
        if n != 0 && !down then .error (.after .numberOutOfRange rest)
        else .ok (double (Double.ofMagnitude negative 0), (skipDigits 0 rest).2)

theorem exponent_cons (negative : Bool) (n : Nat) (start : Int) (b : UInt8) (rest : Bytes) :
    exponent negative n start (b :: rest) =
      if b = plus then exponentTail negative n start false rest
      else if b = minus then exponentTail negative n start true rest
      else exponentTail negative n start false (b :: rest) := by
  unfold exponent
  by_cases hp : b = plus
  · simp only [if_pos hp]
    rfl
  · by_cases hm : b = minus
    · simp only [if_neg hp, if_pos hm]
      rfl
    · simp only [if_neg hp, if_neg hm]
      rfl

section Local

variable {r : Bytes} (hr : Stops r)

include hr

theorem exponentTail_extends (negative : Bool) (n : Nat) (start : Int) (down : Bool) (s : Bytes) :
    Extends s r (exponentTail negative n start down s)
      (exponentTail negative n start down (s ++ r)) := by
  cases s with
  | nil =>
    cases r with
    | nil => exact .error _ _
    | cons b r =>
      simp only [List.nil_append, exponentTail, (hr b rfl).1, Bool.not_false, ↓reduceIte]
      exact .error _ _
  | cons b s =>
    unfold exponentTail
    dsimp only [List.cons_append]
    rw [exponentDigits_append hr]
    have hsuffix := exponentDigits_suffix (digitValue b) s
    refine .mono (s := s) (.ite (.error _ _) ?_) (List.suffix_cons _ _)
    generalize exponentDigits (digitValue b) s = p at hsuffix ⊢
    obtain ⟨e, t⟩ := p
    cases e with
    | some e => exact (scaled_extends r _ _ _ t).mono hsuffix
    | none =>
      dsimp only
      rw [skipDigits_append hr]
      exact .ite (.error _ _) (.value ((skipDigits_suffix 0 t).trans hsuffix))

omit hr in
/-- An exponent leaves no more than its text. -/
theorem length_exponentTail_le {negative : Bool} {n : Nat} {start : Int} {down : Bool} {s : Bytes}
    {v : Json} {t : Bytes} (h : exponentTail negative n start down s = .ok (v, t)) :
    t.length ≤ s.length :=
  ((exponentTail_extends stops_nil negative n start down s).ok v t h).1.length_le

theorem exponent_extends (negative : Bool) (n : Nat) (start : Int) (s : Bytes) :
    Extends s r (exponent negative n start s) (exponent negative n start (s ++ r)) := by
  cases s with
  | nil =>
    refine ⟨nofun, fun v t h => ?_⟩
    exfalso
    cases r with
    | nil => cases h
    | cons b r =>
      rw [List.nil_append, exponent_cons] at h
      split_ifs at h
      · have := length_exponentTail_le h
        rw [List.length_append, List.length_cons] at this
        omega
      · have := length_exponentTail_le h
        rw [List.length_append, List.length_cons] at this
        omega
      · have hnil := (exponentTail_extends hr negative n start false []).back v t h
        cases hnil
  | cons b s =>
    have htail (down : Bool) := (exponentTail_extends hr negative n start down s).mono
      (List.suffix_cons b s)
    rw [List.cons_append, exponent_cons, exponent_cons]
    exact .ite (htail _) (.ite (htail _) (exponentTail_extends hr negative n start false (b :: s)))

theorem exponentOrEnd_extends (negative : Bool) (n : Nat) (e : Int) (s : Bytes) :
    Extends s r (exponentOrEnd negative n e s) (exponentOrEnd negative n e (s ++ r)) := by
  cases s with
  | cons b s =>
    exact .ite ((exponent_extends hr negative n e s).mono (List.suffix_cons _ _))
      (scaled_extends r negative n e (b :: s))
  | nil =>
    have hend : exponentOrEnd negative n e r = scaled negative n e r := by
      cases r with
      | nil => rfl
      | cons b r =>
        obtain ⟨-, -, he, hE⟩ := hr b rfl
        simp [exponentOrEnd, he, hE]
    rw [List.nil_append, hend]
    exact scaled_extends r negative n e []

theorem fraction_extends (negative : Bool) (n e : Nat) (s : Bytes) :
    Extends s r (fraction negative n e s) (fraction negative n e (s ++ r)) := by
  have hsuffix := digits_suffix n 0 s
  unfold fraction
  rw [digits_append hr]
  generalize digits n 0 s = p at hsuffix ⊢
  obtain ⟨m, count, t⟩ := p
  dsimp only at hsuffix ⊢
  rw [startsWithDigit_append hr, skipDigits_append hr]
  have hskip := (skipDigits_suffix 0 t).trans hsuffix
  refine .ite ((exponentOrEnd_extends hr _ _ _ _).mono hskip)
    (.ite ?_ ((exponentOrEnd_extends hr _ _ _ _).mono hsuffix))
  cases t with
  | nil => cases r <;> exact .error _ _
  | cons b t => exact .error _ _

theorem numberTail_extends (negative : Bool) (n : Nat) (s : Bytes) :
    Extends s r (numberTail negative n s) (numberTail negative n (s ++ r)) := by
  cases s with
  | nil =>
    have hend : numberTail negative n r = .ok (whole negative n, r) := by
      cases r with
      | nil => rfl
      | cons b r =>
        obtain ⟨hd, hp, he, hE⟩ := hr b rfl
        simp [numberTail, hd, hp, he, hE]
    rw [List.nil_append, hend]
    exact .value (List.suffix_refl _)
  | cons b s =>
    have hcons := List.suffix_cons b s
    have hsuffix := skipDigits_suffix 0 (b :: s)
    unfold numberTail
    dsimp only [List.cons_append]
    refine .ite ?_ (.ite ((fraction_extends hr _ _ _ _).mono hcons)
      (.ite ((exponent_extends hr _ _ _ _).mono hcons) (.value (List.suffix_refl _))))
    rw [← List.cons_append, skipDigits_append hr]
    generalize skipDigits 0 (b :: s) = p at hsuffix ⊢
    obtain ⟨dropped, t⟩ := p
    cases t with
    | cons c t =>
      exact .ite ((fraction_extends hr _ _ _ _).mono ((List.suffix_cons _ _).trans hsuffix))
        ((exponentOrEnd_extends hr _ _ _ (c :: t)).mono hsuffix)
    | nil =>
      have hend := (exponentOrEnd_extends hr negative n dropped []).mono hsuffix
      cases r with
      | nil => exact hend
      | cons c r =>
        dsimp only [List.nil_append]
        rw [if_neg (hr c rfl).2.1]
        exact hend

/-- **What is read of a number does not depend on what stops it.** -/
theorem number_extends (negative : Bool) (s : Bytes) :
    Extends s r (number negative s) (number negative (s ++ r)) := by
  cases s with
  | nil =>
    cases r with
    | nil => exact .error _ _
    | cons b r =>
      have hdigit := (hr b rfl).1
      have hzero : b ≠ digit0 := by
        rintro rfl
        cases hdigit
      simp only [List.nil_append, number, hdigit, hzero, Bool.false_eq_true, ↓reduceIte]
      exact .error _ _
  | cons b s =>
    unfold number
    dsimp only [List.cons_append]
    rw [startsWithDigit_append hr, ← List.cons_append, digits_append hr]
    exact .ite (.ite (.error _ _) ((numberTail_extends hr _ _ _).mono (List.suffix_cons _ _)))
      (.ite ((numberTail_extends hr _ _ _).mono (digits_suffix 0 0 (b :: s))) (.error _ _))

/-- A number that was read up to what stops it is read alone. -/
theorem number_alone {negative : Bool} {s : Bytes} {v : Json}
    (h : number negative (s ++ r) = .ok (v, r)) : number negative s = .ok (v, []) :=
  (number_extends hr negative s).back v [] h

end Local

/-! ## Digits -/

theorem digit_range {c : Char} (hc : c.isDigit = true) : 48 ≤ c.toNat ∧ c.toNat ≤ 57 := by
  simpa [Char.isDigit, Char.le_def, UInt32.le_iff_toNat_le] using hc

theorem toNat_digit_byte {c : Char} (hc : c.isDigit = true) :
    (UInt8.ofNat c.toNat).toNat = c.toNat := by
  have := digit_range hc
  rw [UInt8.toNat_ofNat']
  omega

theorem digit_byte {c : Char} (hc : c.isDigit = true) :
    String.utf8EncodeChar c = [UInt8.ofNat c.toNat] ∧ isDigit (UInt8.ofNat c.toNat) = true ∧
      Ascii.digitValue (UInt8.ofNat c.toNat) = c.toNat - '0'.toNat := by
  have hrange := digit_range hc
  have hbyte := toNat_digit_byte hc
  refine ⟨utf8EncodeChar_ascii (by omega), ?_, ?_⟩
  · simp only [Ascii.isDigit, Bool.and_eq_true, decide_eq_true_eq, UInt8.le_iff_toNat_le, hbyte]
    exact hrange
  · rw [Ascii.digitValue, hbyte]
    rfl

theorem le_ofDigitChars (cs : List Char) (n : Nat) : n ≤ Nat.ofDigitChars 10 cs n := by
  rw [Nat.ofDigitChars_eq_ofDigitChars_zero]
  have := Nat.le_mul_of_pos_left n (Nat.pow_pos (n := cs.length) (show 0 < 10 by decide))
  omega

/-- Digits that stay within the limit are all taken. -/
theorem digits_encodeChars {r : Bytes} (hr : Stops r) : ∀ (cs : List Char) (n count : Nat),
    (∀ c ∈ cs, c.isDigit = true) → Nat.ofDigitChars 10 cs n ≤ maxSignificand →
      digits n count (encodeChars cs ++ r) =
        (Nat.ofDigitChars 10 cs n, count + cs.length, r)
  | [], n, count, _, _ => digits_append hr n count []
  | c :: cs, n, count, hcs, hle => by
    obtain ⟨hbyte, hdigit, hvalue⟩ := digit_byte (hcs c List.mem_cons_self)
    rw [Nat.ofDigitChars_cons] at hle ⊢
    have hfit := (le_ofDigitChars cs _).trans hle
    rw [encodeChars_cons, hbyte, List.singleton_append, List.cons_append, digits, hdigit, hvalue,
      Bool.true_and, if_pos (decide_eq_true hfit),
      digits_encodeChars hr cs _ _ (fun d hd => hcs d (List.mem_cons_of_mem _ hd)) hle,
      List.length_cons]
    congr 2
    omega

/-- A number above zero is not written with a zero in front. -/
theorem digitText_head (n : Nat) (hn : 0 < n) : ∃ c cs, digitText n = c :: cs ∧ c ≠ '0' := by
  unfold digitText
  induction n using Nat.strongRecOn with
  | ind n ih =>
    by_cases hlt : n < 10
    · rw [Nat.toDigits_of_lt_base hlt]
      refine ⟨_, [], rfl, ?_⟩
      have hall : ∀ m < 10, 0 < m → Nat.digitChar m ≠ '0' := by decide
      exact hall n hlt hn
    · obtain ⟨c, cs, hc, hne⟩ := ih (n / 10) (Nat.div_lt_self hn (by decide)) (by omega)
      rw [Nat.toDigits_of_base_le (by decide) (by omega), hc]
      exact ⟨c, _, rfl, hne⟩

/-! ## Whole numbers -/

/-- The bytes of a number behind its sign: a digit comes first. -/
def StartsNumber (s : Bytes) : Prop := ∃ b t, s = b :: t ∧ isDigit b = true

theorem startsNumber_encodeChars {c : Char} (hc : c.isDigit = true) (cs : List Char) :
    StartsNumber (encodeChars (c :: cs)) := by
  obtain ⟨hbyte, hdigit, -⟩ := digit_byte hc
  exact ⟨_, _, by rw [encodeChars_cons, hbyte]; rfl, hdigit⟩

theorem StartsNumber.append {s : Bytes} (hs : StartsNumber s) (r : Bytes) :
    StartsNumber (s ++ r) := by
  obtain ⟨b, t, rfl, hb⟩ := hs
  exact ⟨b, t ++ r, rfl, hb⟩

theorem number_digitText {r : Bytes} (hr : Stops r) (negative : Bool) {n : Nat}
    (hn : n ≤ maxSignificand) :
    number negative (encodeChars (digitText n) ++ r) = .ok (whole negative n, r) := by
  have htail : ∀ m, numberTail negative m r = .ok (whole negative m, r) := fun m =>
    ((numberTail_extends hr negative m []).ok _ _ rfl).2
  have hdigits : ∀ c ∈ digitText n, c.isDigit = true := fun c hc => isDigit_of_mem_digitText hc
  rcases Nat.eq_zero_or_pos n with rfl | hpos
  · show number negative (digit0 :: r) = _
    have hstart := startsWithDigit_append hr []
    rw [List.nil_append] at hstart
    rw [number, if_pos rfl, hstart, if_neg (by decide), htail]
  · obtain ⟨c, cs, htext, hne⟩ := digitText_head n hpos
    have hc : c.isDigit = true := hdigits c (by rw [htext]; exact List.mem_cons_self)
    obtain ⟨hbyte, hdigit, -⟩ := digit_byte hc
    have hzero : UInt8.ofNat c.toNat ≠ digit0 := fun h => by
      have hcode := (congrArg UInt8.toNat h).symm.trans (toNat_digit_byte hc)
      exact hne (Char.toNat_inj.mp hcode.symm)
    have hvalue : Nat.ofDigitChars 10 (digitText n) 0 = n := Nat.ofDigitChars_ten_toDigits
    have hread := digits_encodeChars hr (digitText n) 0 0 hdigits (hvalue.symm ▸ hn)
    rw [hvalue] at hread
    have hbytes : encodeChars (digitText n) ++ r =
        UInt8.ofNat c.toNat :: (encodeChars cs ++ r) := by
      rw [htext, encodeChars_cons, hbyte]
      rfl
    rw [hbytes] at hread ⊢
    rw [number, if_neg hzero, if_pos hdigit, hread]
    exact htail n

theorem startsNumber_digitText (n : Nat) (r : Bytes) :
    StartsNumber (encodeChars (digitText n) ++ r) := by
  cases hd : digitText n with
  | nil => exact absurd hd Nat.toDigits_ne_nil
  | cons c cs =>
    exact (startsNumber_encodeChars (isDigit_of_mem_digitText (n := n) (by simp [hd])) cs).append r

/-- The bytes of a sign. -/
def signBytes (negative : Bool) : Bytes := if negative then [minus] else []

theorem skipBlank_cons {b : UInt8} (h : isBlank b = false) (s : Bytes) :
    skipBlank (b :: s) = b :: s := by
  rw [skipBlank, if_neg (by rw [h]; decide)]

theorem ne_of_isDigit {a b : UInt8} (hb : Ascii.isDigit b = true) (ha : Ascii.isDigit a = false) :
    b ≠ a := by
  rintro rfl
  rw [hb] at ha
  cases ha

theorem isBlank_of_isDigit {b : UInt8} (hb : Ascii.isDigit b = true) : isBlank b = false := by
  simp [isBlank, ne_of_isDigit hb (a := space) rfl, ne_of_isDigit hb (a := lineFeed) rfl,
    ne_of_isDigit hb (a := tab) rfl, ne_of_isDigit hb (a := carriageReturn) rfl]

theorem value_signed {s : Bytes} (hs : StartsNumber s) (negative : Bool) (n depth : Nat) :
    value (n + 1) depth (signBytes negative ++ s) = number negative s := by
  cases negative with
  | true => rfl
  | false =>
    obtain ⟨b, t, rfl, hb⟩ := hs
    have hne := fun a => ne_of_isDigit (a := a) hb
    show value (n + 1) depth (b :: t) = _
    rw [value, skipBlank_cons (isBlank_of_isDigit hb)]
    simp only [hne quote rfl, hne openBracket rfl, hne openBrace rfl, hne minus rfl, hb, ↓reduceIte]

/-- A number read alone is read from the front of any text that stops it. -/
theorem value_of_number {w r : Bytes} {v : Json} (hstart : StartsNumber w)
    (hw : number false w = .ok (v, [])) (hr : Stops r) (fuel depth : Nat) :
    value (fuel + 1) depth (w ++ r) = .ok (v, r) := by
  have hsigned := value_signed (hstart.append r) false fuel depth
  rw [signBytes, if_neg Bool.false_ne_true, List.nil_append] at hsigned
  rw [hsigned]
  exact ((number_extends hr false w).ok v [] hw).2

theorem intBytes (n : Int) :
    encodeChars (toString n).toList = signBytes (n < 0) ++ encodeChars (digitText n.natAbs) := by
  rw [intText_toList, encodeChars_append]
  by_cases h : n < 0
  · rw [if_pos h, decide_eq_true h]
    rfl
  · rw [if_neg h, decide_eq_false h]
    rfl

/-- **A whole number in range is read back.** -/
theorem value_integer {n : Int} (hn : IntegerRange n) {r : Bytes} (hr : Stops r)
    (fuel depth : Nat) :
    value (fuel + 1) depth (encodeChars (chars (integer n)) ++ r) = .ok (integer n, r) := by
  simp only [IntegerRange, UInt64.size] at hn
  have hle : n.natAbs ≤ maxSignificand := by
    simp only [maxSignificand, UInt64.size]
    omega
  rw [chars, intBytes, List.append_assoc, value_signed (startsNumber_digitText _ _),
    number_digitText hr _ hle, whole]
  by_cases h : n < 0
  · have hsmall : ¬ 1 <<< 63 < n.natAbs := by omega
    simp only [h, decide_true, Bool.not_true, Bool.false_eq_true, hsmall, decide_false,
      Bool.or_false, show ¬ n.natAbs = 0 by omega, ↓reduceIte]
    rw [show -(n.natAbs : Int) = n by omega]
  · simp only [h, decide_false, Bool.not_false, ↓reduceIte]
    rw [show (n.natAbs : Int) = n by omega]

/-! ## Doubles -/

/-- The text of a double, read alone, gives the double again. -/
def ReadsBack (x : Double) : Prop := read (Utf8.encode (double x).render) = .ok (double x)

theorem numeric_range {c : Char} (hc : IsNumeric c) : 43 ≤ c.toNat ∧ c.toNat < 128 := by
  rcases hc with hc | rfl | rfl | rfl | rfl
  · have := digit_range hc
    omega
  all_goals decide

theorem isBlank_numeric {c : Char} (hc : IsNumeric c) {b : UInt8}
    (hb : b ∈ String.utf8EncodeChar c) : isBlank b = false := by
  obtain ⟨hlow, hhigh⟩ := numeric_range hc
  rw [utf8EncodeChar_ascii hhigh, List.mem_singleton] at hb
  have hne : ∀ a : UInt8, a.toNat < 43 → b ≠ a := by
    rintro a ha rfl
    rw [hb, UInt8.toNat_ofNat'] at ha
    omega
  simp [isBlank, hne space (by decide), hne lineFeed (by decide), hne tab (by decide),
    hne carriageReturn (by decide)]

/-- What is left of a number's text is nothing, if nothing but blanks may be left. -/
theorem eq_nil_of_nothingMore {cs : List Char} (hcs : ∀ c ∈ cs, IsNumeric c) {t : Bytes}
    (ht : t <:+ encodeChars cs) (h : nothingMore t = .ok ()) : t = [] := by
  cases t with
  | nil => rfl
  | cons b t =>
    obtain ⟨c, hc, hb⟩ := List.mem_flatMap.1 (ht.subset List.mem_cons_self)
    rw [nothingMore, skipBlank_cons (isBlank_numeric (hcs c hc) hb)] at h
    cases h

/-- **A double that is read back from its text alone is read back from any text it stands in
front of.** -/
theorem value_double {x : Double} (hx : x.isFinite = true) (hback : ReadsBack x) {r : Bytes}
    (hr : Stops r) (fuel depth : Nat) :
    value (fuel + 1) depth (encodeChars (chars (double x)) ++ r) = .ok (double x, r) := by
  have hbytes : encodeChars (chars (double x)) =
      signBytes x.isNegative ++ encodeChars (magnitudeText x) := by
    rw [chars, doubleText_toList hx, encodeChars_append]
    cases x.isNegative <;> rfl
  obtain ⟨c, cs, hmag, hc⟩ := (fractional_magnitudeText x).head
  have hstart : StartsNumber (encodeChars (magnitudeText x)) := by
    rw [hmag]
    exact startsNumber_encodeChars hc cs
  -- what reading the text alone says about the reader of numbers
  obtain ⟨t, hback, hmore⟩ := read_eq_ok hback
  unfold stepsFor at hback
  rw [encode_eq_encodeChars, render_toList, hbytes, value_signed hstart] at hback
  obtain ⟨ht, hext⟩ := (number_extends hr _ _).ok _ _ hback
  obtain rfl := eq_nil_of_nothingMore (fractional_magnitudeText x).isNumeric ht hmore
  rw [hbytes, List.append_assoc, value_signed (hstart.append r)]
  exact hext

end Quorum.Json
