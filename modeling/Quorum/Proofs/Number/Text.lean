import Mathlib
import Quorum.Json.Value
import Quorum.Proofs.Number.Shortest

/-!
# The text of a number

`textValue` reads a decimal text back as the exact number it stands for. The text of a
finite double stands for the shortest digits (`textValue_unsigned`), so two finite
doubles with one text are the same (`doubleText_injective`). The text of a whole number
consists of digits behind a sign; that of a double also has a point or an exponent.
-/

namespace Quorum.Decimal

open Double Json

/-! ## Reading a decimal text exactly -/

/-- Digits with an optional point. -/
def pointValue (s : List Char) : ℚ :=
  let fraction := (s.dropWhile (· != '.')).tail
  value (s.takeWhile (· != '.') ++ fraction) * 10 ^ (-(fraction.length : ℤ))

def exponentValue : List Char → ℤ
  | '-' :: digits => -value digits
  | '+' :: digits => value digits
  | _ => 0

/-- The number that a decimal text without a sign stands for. -/
def textValue (s : List Char) : ℚ :=
  pointValue (s.takeWhile (· != 'e')) * 10 ^ exponentValue (s.dropWhile (· != 'e')).tail

theorem span_absent {c : Char} {s : List Char} (h : c ∉ s) :
    s.takeWhile (· != c) = s ∧ s.dropWhile (· != c) = [] := by
  have hne : ∀ d ∈ s, (d != c) = true := fun d hd => by
    simp only [bne_iff_ne, ne_eq]; rintro rfl; exact h hd
  exact ⟨List.takeWhile_eq_self_iff.2 hne, List.dropWhile_eq_nil_iff.2 hne⟩

theorem span_at {c : Char} {s : List Char} (h : c ∉ s) (t : List Char) :
    (s ++ c :: t).takeWhile (· != c) = s ∧ (s ++ c :: t).dropWhile (· != c) = c :: t := by
  have hne : ∀ d ∈ s, (d != c) = true := fun d hd => by
    simp only [bne_iff_ne, ne_eq]; rintro rfl; exact h hd
  rw [List.takeWhile_append_of_pos hne, List.dropWhile_append_of_pos hne]
  simp

theorem pointValue_whole {s : List Char} (h : '.' ∉ s) : pointValue s = value s := by
  simp [pointValue, span_absent h]

theorem pointValue_point {s : List Char} (h : '.' ∉ s) (t : List Char) :
    pointValue (s ++ '.' :: t) = value (s ++ t) * 10 ^ (-(t.length : ℤ)) := by
  simp [pointValue, span_at h]

theorem textValue_plain {s : List Char} (h : 'e' ∉ s) : textValue s = pointValue s := by
  simp [textValue, span_absent h, exponentValue]

theorem textValue_exponent {s : List Char} (h : 'e' ∉ s) (t : List Char) :
    textValue (s ++ 'e' :: t) = pointValue s * 10 ^ exponentValue t := by
  simp [textValue, span_at h]

/-! ## Digits -/

theorem value_eq (s : List Char) : value s = Nat.ofDigitChars 10 s 0 := rfl

theorem isDigit_of_mem_digitText {n : Nat} {c : Char} (h : c ∈ digitText n) : c.isDigit = true :=
  Nat.isDigit_of_mem_toDigits (by decide) (by decide) h

theorem not_mem_digitText {n : Nat} {c : Char} (hc : c.isDigit = false) : c ∉ digitText n :=
  fun h => by rw [isDigit_of_mem_digitText h] at hc; cases hc

theorem value_digitText (n : Nat) : value (digitText n) = n := Nat.ofDigitChars_ten_toDigits

theorem value_append (s t : List Char) : value (s ++ t) = value s * 10 ^ t.length + value t := by
  simp only [value_eq, Nat.ofDigitChars_append]
  rw [Nat.ofDigitChars_eq_ofDigitChars_zero]; ring

theorem value_leading_zeros (n : Nat) (s : List Char) :
    value (List.replicate n '0' ++ s) = value s := by
  rw [value_append]; simp [value_eq]

theorem value_trailing_zeros (n : Nat) (s : List Char) :
    value (s ++ List.replicate n '0') = value s * 10 ^ n := by
  rw [value_append]; simp [value_eq]

/-! ## Layouts -/

/-- The text of a positive decimal. -/
def unsigned (d : Decimal) : List Char :=
  let digits := digitText d.digits
  let exponent := (digits.length : Int) - 1 + d.scale
  (if doubleLayout.positional exponent then positionalText doubleLayout digits (exponent + 1)
    else scientificText digits exponent).toList

theorem textValue_positional (d : Decimal) (whole : Int)
    (h : whole = (digitText d.digits).length + d.scale) :
    textValue (positionalText doubleLayout (digitText d.digits) whole).toList = d.toRat := by
  have hdot : '.' ∉ digitText d.digits := not_mem_digitText (by decide)
  have he : 'e' ∉ digitText d.digits := not_mem_digitText (by decide)
  have hv := value_digitText d.digits
  have hend : doubleLayout.wholeEnd.toList = ['.', '0'] := rfl
  unfold positionalText toRat
  split
  · -- zeros stand between the point and the digits
    rename_i hw
    rw [String.toList_ofList, textValue_plain (by simp [he]), ← List.singleton_append,
      pointValue_point (by simp), show ['0'] = List.replicate 1 '0' from rfl,
      value_leading_zeros, value_leading_zeros, hv, List.length_append, List.length_replicate]
    congr 2; omega
  · split
    · -- zeros stand between the digits and the point
      rename_i hw hl
      rw [String.toList_append, String.toList_ofList, hend,
        textValue_plain (by simp [he]), pointValue_point (by simp [hdot]), List.append_assoc,
        show ['0'] = List.replicate 1 '0' from rfl, List.replicate_append_replicate,
        value_trailing_zeros, hv]
      push_cast
      rw [mul_assoc, ← zpow_natCast, ← zpow_add₀ (by norm_num)]
      congr 2; simp only [List.length_singleton]; omega
    · -- the point stands between two digits
      rename_i hw hl
      rw [String.toList_ofList, textValue_plain (by
          simp only [List.mem_append, List.mem_cons, not_or]
          exact ⟨fun hm => he (List.mem_of_mem_take hm), by decide,
            fun hm => he (List.mem_of_mem_drop hm)⟩),
        pointValue_point (fun hm => hdot (List.mem_of_mem_take hm)), List.take_append_drop, hv,
        List.length_drop]
      congr 2; omega

theorem exponentValue_text (e : Int) :
    exponentValue ((if e < 0 then '-' else '+') :: digitText e.natAbs) = e := by
  split
  · simp only [exponentValue, value_digitText]; omega
  · simp only [exponentValue, value_digitText]; omega

theorem textValue_scientific (d : Decimal) (e : Int)
    (h : e = (digitText d.digits).length - 1 + d.scale) :
    textValue (scientificText (digitText d.digits) e).toList = d.toRat := by
  have hdot : '.' ∉ digitText d.digits := not_mem_digitText (by decide)
  have he : 'e' ∉ digitText d.digits := not_mem_digitText (by decide)
  have hv := value_digitText d.digits
  have hne : digitText d.digits ≠ [] := Nat.toDigits_ne_nil
  unfold scientificText toRat
  rw [String.toList_ofList]
  cases hd : digitText d.digits with
  | nil => exact absurd hd hne
  | cons c rest =>
    rw [hd] at hdot he hv h
    cases rest with
    | nil =>
      rw [textValue_exponent (by simpa using he), exponentValue_text, pointValue_whole hdot, hv]
      congr 2; simp only [List.length_singleton] at h; omega
    | cons c' rest =>
      simp only [List.mem_cons, not_or] at hdot he
      rw [textValue_exponent (by simp [he]), exponentValue_text]
      dsimp only
      rw [show c :: '.' :: c' :: rest = [c] ++ '.' :: c' :: rest from rfl,
        pointValue_point (by simp [hdot]), List.singleton_append, hv, mul_assoc,
        ← zpow_add₀ (by norm_num)]
      congr 2; simp only [List.length_cons] at h ⊢; omega

/-- **The text of a decimal stands for the decimal.** -/
theorem textValue_unsigned (d : Decimal) : textValue d.unsigned = d.toRat := by
  unfold unsigned
  dsimp only
  split
  · exact textValue_positional d _ (by omega)
  · exact textValue_scientific d _ rfl

/-! ## Characters -/

/-- A character that numbers are written with. -/
def IsNumeric (c : Char) : Prop := c.isDigit = true ∨ c = '-' ∨ c = '+' ∨ c = '.' ∨ c = 'e'

instance (c : Char) : Decidable (IsNumeric c) := inferInstanceAs (Decidable (_ ∨ _))

/-- Digits up to a point or an exponent. -/
structure Fractional (s : List Char) : Prop where
  split : ∃ whole mark rest, s = whole ++ mark :: rest ∧ whole ≠ [] ∧
    (∀ c ∈ whole, c.isDigit = true) ∧ (mark = '.' ∨ mark = 'e') ∧ ∀ c ∈ rest, IsNumeric c

theorem isNumeric_digitText {n : Nat} {c : Char} (h : c ∈ digitText n) : IsNumeric c :=
  .inl (isDigit_of_mem_digitText h)

theorem isDigit_zeros {n : Nat} {c : Char} (h : c ∈ List.replicate n '0') : c.isDigit = true := by
  rw [List.eq_of_mem_replicate h]; rfl

theorem fractional_positional (n : Nat) (whole : Int) :
    Fractional (positionalText doubleLayout (digitText n) whole).toList := by
  have hne : digitText n ≠ [] := Nat.toDigits_ne_nil
  have hend : doubleLayout.wholeEnd.toList = ['.', '0'] := rfl
  unfold positionalText
  split
  · refine ⟨['0'], '.', _, by rw [String.toList_ofList]; rfl, by simp, by simp, .inl rfl, ?_⟩
    intro c hc
    rcases List.mem_append.mp hc with h | h
    · exact .inl (isDigit_zeros h)
    · exact isNumeric_digitText h
  · split
    · refine ⟨_, '.', ['0'], by rw [String.toList_append, String.toList_ofList, hend],
        by simp [hne], ?_, .inl rfl, by simp [IsNumeric]⟩
      intro c hc
      rcases List.mem_append.mp hc with h | h
      · exact isDigit_of_mem_digitText h
      · exact isDigit_zeros h
    · refine ⟨_, '.', _, by rw [String.toList_ofList], ?_, ?_, .inl rfl, ?_⟩
      · simp only [ne_eq, List.take_eq_nil_iff, hne, or_false]; omega
      · exact fun c hc => isDigit_of_mem_digitText (List.mem_of_mem_take hc)
      · exact fun c hc => isNumeric_digitText (List.mem_of_mem_drop hc)

theorem fractional_scientific (n : Nat) (e : Int) :
    Fractional (scientificText (digitText n) e).toList := by
  have hne : digitText n ≠ [] := Nat.toDigits_ne_nil
  have hexp : ∀ c ∈ (if e < 0 then '-' else '+') :: digitText e.natAbs, IsNumeric c := by
    intro c hc
    rcases List.mem_cons.mp hc with rfl | h
    · split <;> decide
    · exact isNumeric_digitText h
  unfold scientificText
  rw [String.toList_ofList]
  cases hd : digitText n with
  | nil => exact absurd hd hne
  | cons c rest =>
    have hc : c.isDigit = true := isDigit_of_mem_digitText (n := n) (by simp [hd])
    cases rest with
    | nil => exact ⟨[c], 'e', _, rfl, by simp, by simp [hc], .inr rfl, hexp⟩
    | cons c' rest =>
      refine ⟨[c], '.', _, rfl, by simp, by simp [hc], .inl rfl, ?_⟩
      intro b hb
      rcases List.mem_append.mp hb with h | h
      · exact isNumeric_digitText (n := n) (by rw [hd]; exact List.mem_cons_of_mem _ h)
      · rcases List.mem_cons.mp h with rfl | h
        · decide
        · exact hexp b h

theorem fractional_unsigned (d : Decimal) : Fractional d.unsigned := by
  unfold unsigned
  dsimp only
  split
  · exact fractional_positional _ _
  · exact fractional_scientific _ _

namespace Fractional

variable {s : List Char}

theorem isNumeric (h : Fractional s) : ∀ c ∈ s, IsNumeric c := by
  obtain ⟨whole, mark, rest, rfl, -, hw, hm, hr⟩ := h.split
  intro c hc
  rcases List.mem_append.mp hc with h | h
  · exact .inl (hw c h)
  · rcases List.mem_cons.mp h with rfl | h
    · rcases hm with rfl | rfl <;> decide
    · exact hr c h

theorem marked (h : Fractional s) : '.' ∈ s ∨ 'e' ∈ s := by
  obtain ⟨whole, mark, rest, rfl, -, -, hm, -⟩ := h.split
  rcases hm with rfl | rfl <;> simp

theorem head (h : Fractional s) : ∃ c rest, s = c :: rest ∧ c.isDigit = true := by
  obtain ⟨whole, mark, rest, rfl, hne, hw, -, -⟩ := h.split
  cases whole with
  | nil => exact absurd rfl hne
  | cons c whole => exact ⟨c, _, rfl, hw c (by simp)⟩

end Fractional

/-! ## Doubles -/

/-- The text of a finite double without its sign. -/
def magnitudeText (x : Double) : List Char :=
  if x.isZero then ['0', '.', '0'] else (shortest doubleLayout.tie x).unsigned

theorem doubleText_toList {x : Double} (hf : x.isFinite) :
    (doubleLayout.text x).toList = (if x.isNegative then ['-'] else []) ++ magnitudeText x := by
  have hnan : x.isNaN = false := by
    simp only [isFinite, isNaN, decide_eq_true_eq, decide_eq_false_iff_not] at hf ⊢; omega
  unfold Layout.text magnitudeText
  rw [hnan, hf]
  cases x.isZero with
  | true => cases x.isNegative <;> simp [doubleLayout]
  | false => cases x.isNegative <;> simp [unsigned]

theorem fractional_magnitudeText (x : Double) : Fractional (magnitudeText x) := by
  unfold magnitudeText
  split
  · exact ⟨['0'], '.', ['0'], rfl, by simp, by simp, .inl rfl, by simp [IsNumeric]⟩
  · exact fractional_unsigned _

/-- The text of a magnitude stands for a number that rounds to it. -/
theorem textValue_magnitudeText {x : Double} (hf : x.isFinite) :
    (x.magnitude = 0 ∧ textValue (magnitudeText x) = 0) ∨
      RoundsTo x.magnitude (textValue (magnitudeText x)) := by
  unfold magnitudeText
  split
  · rename_i h0
    left
    refine ⟨by simpa [isZero] using h0, ?_⟩
    rw [textValue_plain (by decide), show ['0', '.', '0'] = ['0'] ++ '.' :: ['0'] from rfl,
      pointValue_point (by decide)]
    simp [value, digitValue]
  · rename_i h0
    right
    rw [textValue_unsigned]
    exact shortest_roundsTo hf h0

theorem magnitude_of_text {x y : Double} (hx : x.isFinite) (hy : y.isFinite)
    (h : magnitudeText x = magnitudeText y) : x.magnitude = y.magnitude := by
  have h' := congrArg textValue h
  rcases textValue_magnitudeText hx with ⟨h0, hv⟩ | hr
  · rcases textValue_magnitudeText hy with ⟨h0', -⟩ | hr'
    · rw [h0, h0']
    · rw [← h', hv] at hr'
      exact absurd hr'.pos (lt_irrefl 0)
  · rcases textValue_magnitudeText hy with ⟨-, hv⟩ | hr'
    · rw [h', hv] at hr
      exact absurd hr.pos (lt_irrefl 0)
    · rw [h'] at hr
      exact hr.unique hr'

end Quorum.Decimal

namespace Quorum.Double

theorem ext_of_magnitude {x y : Double} (hs : x.isNegative = y.isNegative)
    (hm : x.magnitude = y.magnitude) : x = y := by
  have hx := x.bits.toNat_lt; have hy := y.bits.toNat_lt
  have hs' : signBit ≤ x.bits.toNat ↔ signBit ≤ y.bits.toNat := decide_eq_decide.mp hs
  have hbits : x.bits.toNat = y.bits.toNat := by
    simp only [magnitude, signBit] at hs' hm
    omega
  cases x; cases y
  exact congrArg Double.mk (UInt64.toNat_inj.mp hbits)

end Quorum.Double

namespace Quorum.Decimal

open Double Json

/-- **The text of a finite double determines it**, the sign of zero included. -/
theorem doubleText_injective {x y : Double} (hx : x.isFinite) (hy : y.isFinite)
    (h : doubleLayout.text x = doubleLayout.text y) : x = y := by
  have h' := congrArg String.toList h
  rw [doubleText_toList hx, doubleText_toList hy] at h'
  obtain ⟨c, rest, hcx, hc⟩ := (fractional_magnitudeText x).head
  obtain ⟨d, rest', hdy, hd⟩ := (fractional_magnitudeText y).head
  have hsign : ∀ {a : Char}, a.isDigit = true → a ≠ '-' := by rintro _ ha rfl; cases ha
  have key : x.isNegative = y.isNegative ∧ magnitudeText x = magnitudeText y := by
    cases hnx : x.isNegative <;> cases hny : y.isNegative <;> rw [hnx, hny] at h'
    · exact ⟨rfl, h'⟩
    · rw [hcx] at h'
      exact absurd (List.cons.inj h').1 (hsign hc)
    · rw [hdy] at h'
      exact absurd (List.cons.inj h').1.symm (hsign hd)
    · exact ⟨rfl, (List.cons.inj h').2⟩
  exact ext_of_magnitude key.1 (magnitude_of_text hx hy key.2)

/-! ## Whole numbers -/

theorem intText_toList (n : Int) :
    (toString n).toList = (if n < 0 then ['-'] else []) ++ digitText n.natAbs := by
  rw [Int.toString_eq_repr, Int.repr_eq_if]
  split
  · rename_i h
    rw [if_neg (by omega), Nat.toList_repr, show n.toNat = n.natAbs by omega]; rfl
  · rename_i h
    rw [if_pos (by omega), String.toList_append, Nat.toList_repr,
      show (-n).toNat = n.natAbs by omega]
    rfl

theorem intText_injective {m n : Int} (h : toString m = toString n) : m = n := by
  have h' := congrArg String.toList h
  rw [intText_toList, intText_toList] at h'
  have hsign : ∀ {k : Nat}, '-' ∉ digitText k := not_mem_digitText (by decide)
  have habs : ∀ {k l : Nat}, digitText k = digitText l → k = l := fun e => by
    have := congrArg value e
    rwa [value_digitText, value_digitText] at this
  split at h' <;> split at h' <;> simp only [List.singleton_append, List.nil_append] at h'
  · have := habs (List.cons.inj h').2; omega
  · exact absurd (by rw [← h']; simp) hsign
  · exact absurd (by rw [h']; simp) hsign
  · have := habs h'; omega

/-- The text of a whole number is never that of a double. -/
theorem intText_ne_doubleText (n : Int) {x : Double} (hx : x.isFinite) :
    toString n ≠ doubleLayout.text x := by
  intro h
  have h' := congrArg String.toList h
  rw [intText_toList, doubleText_toList hx] at h'
  have hdot : ∀ {c : Char}, c.isDigit = false → c ≠ '-' →
      c ∉ (if n < 0 then ['-'] else []) ++ digitText n.natAbs := fun hc hne hm => by
    rcases List.mem_append.mp hm with h | h
    · split at h <;> simp_all
    · exact not_mem_digitText hc h
  rcases (fractional_magnitudeText x).marked with h | h
  · exact hdot (c := '.') rfl (by decide) (h' ▸ List.mem_append_right _ h)
  · exact hdot (c := 'e') rfl (by decide) (h' ▸ List.mem_append_right _ h)

theorem isNumeric_intText {n : Int} {c : Char} (h : c ∈ (toString n).toList) : IsNumeric c := by
  rw [intText_toList] at h
  rcases List.mem_append.mp h with h | h
  · split at h
    · rw [List.mem_singleton.mp h]; decide
    · cases h
  · exact isNumeric_digitText h

theorem isNumeric_doubleText {x : Double} (hx : x.isFinite) {c : Char}
    (h : c ∈ (doubleLayout.text x).toList) : IsNumeric c := by
  rw [doubleText_toList hx] at h
  rcases List.mem_append.mp h with h | h
  · split at h
    · rw [List.mem_singleton.mp h]; decide
    · cases h
  · exact (fractional_magnitudeText x).isNumeric c h

end Quorum.Decimal
