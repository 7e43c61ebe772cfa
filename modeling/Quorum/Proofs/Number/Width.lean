import Mathlib
import Quorum.Proofs.Number.Text

/-!
# The width of doubles

The search for the shortest digits begins close to the leading digit of a double and takes a
bounded number of steps, so it finds at most 24 digits (`digits_shortest_lt`), and no text of a
finite double has more than 31 characters (`length_doubleText_le`).
-/

namespace Quorum.Decimal

open Double Json

variable {tie : Tie}

/-! ## Digits -/

theorem scale_search (tie : Tie) (m : Nat) (e : Int) (narrow : Bool) : ∀ (steps : Nat) (s : Int),
    s - steps ≤ (search tie m e narrow steps s).scale ∧ (search tie m e narrow steps s).scale ≤ s
  | 0, s => by
    unfold search
    dsimp only
    omega
  | steps + 1, s => by
    have ih := scale_search tie m e narrow steps (s - 1)
    unfold search
    split
    · dsimp only
      omega
    · omega

/-- The search begins no lower than two digits above the leading bit. -/
theorem pow_le_start {l : Int} (hlow : -1074 ≤ l) (hhigh : l ≤ 1023) :
    (2 : ℚ) ^ (l + 1) ≤ 10 ^ (l * 30103 / 100000 + 2) := by
  set t := l * 30103 / 100000 + 2 with ht
  rcases le_or_gt 0 t with h0 | h0
  · -- 28 decimal digits are more than 93 bits
    have hpow : ((2 : ℚ) ^ (l + 1)) ^ (28 : ℕ) ≤ (10 ^ t) ^ (28 : ℕ) := by
      calc ((2 : ℚ) ^ (l + 1)) ^ (28 : ℕ) = 2 ^ ((l + 1) * 28) := by rw [zpow_mul]; rfl
        _ ≤ 2 ^ (93 * t) := zpow_le_zpow_right₀ (by norm_num) (by omega)
        _ = (2 ^ (93 : ℕ)) ^ t := by rw [← zpow_natCast, ← zpow_mul]; rfl
        _ ≤ (10 ^ (28 : ℕ)) ^ t := zpow_le_zpow_left₀ h0 (by norm_num) (by norm_num)
        _ = (10 ^ t) ^ (28 : ℕ) := by
            rw [← zpow_natCast, ← zpow_natCast, ← zpow_mul, ← zpow_mul, mul_comm]
    exact le_of_pow_le_pow_left₀ (by norm_num) (by positivity) hpow
  · -- 31 decimal digits are less than 103 bits
    obtain ⟨n, hn⟩ : ∃ n : Int, t = -n := ⟨-t, by omega⟩
    have hpow : ((10 : ℚ) ^ n) ^ (31 : ℕ) ≤ (2 ^ (-l - 1)) ^ (31 : ℕ) := by
      calc ((10 : ℚ) ^ n) ^ (31 : ℕ) = (10 ^ (31 : ℕ)) ^ n := by
            rw [← zpow_natCast, ← zpow_natCast, ← zpow_mul, ← zpow_mul, mul_comm]
        _ ≤ (2 ^ (103 : ℕ)) ^ n := zpow_le_zpow_left₀ (by omega) (by norm_num) (by norm_num)
        _ = 2 ^ (103 * n) := by rw [← zpow_natCast, ← zpow_mul]; rfl
        _ ≤ 2 ^ ((-l - 1) * 31) := zpow_le_zpow_right₀ (by norm_num) (by omega)
        _ = (2 ^ (-l - 1)) ^ (31 : ℕ) := by rw [zpow_mul]; rfl
    have hle := le_of_pow_le_pow_left₀ (by norm_num) (by positivity) hpow
    rw [hn, zpow_neg, show l + 1 = -(-l - 1) by ring, zpow_neg]
    exact inv_anti₀ (by positivity) hle

/-- What rounds to a magnitude is below the next power of two. -/
theorem lt_pow_of_roundsTo {k : Nat} {q : ℚ} (h : RoundsTo k q) :
    q < 2 ^ ((sigAt k).log2 + exponentAt k + 1) := by
  have hsig : sigAt k + 1 ≤ 2 ^ ((sigAt k).log2 + 1) := Nat.lt_log2_self
  have hsig' : (sigAt k : ℚ) + 1 ≤ 2 ^ ((sigAt k).log2 + 1) := by exact_mod_cast hsig
  have hunit := unitAt_pos k
  have hmid : midAt k < (sigAt k + 1) * unitAt k := by
    unfold midAt valueAt
    linarith
  calc q ≤ midAt k := h.bounds.2
    _ < (sigAt k + 1) * unitAt k := hmid
    _ ≤ 2 ^ ((sigAt k).log2 + 1) * unitAt k := by gcongr
    _ = 2 ^ ((sigAt k).log2 + exponentAt k + 1) := by
      rw [unitAt, ← zpow_natCast, ← zpow_add₀ two_ne_zero]
      congr 1
      push_cast
      ring

/-- **The digits of a double are few**, and they do not stand far out. -/
theorem digits_shortest_lt {x : Double} (hf : x.isFinite) (h0 : ¬ x.isZero) :
    (shortest tie x).digits < 10 ^ 24 ∧
      -400 ≤ (shortest tie x).scale ∧ (shortest tie x).scale ≤ 400 := by
  set k := x.magnitude with hk
  have hfin : k < infinite := by simpa [isFinite] using hf
  have hlog := log2_sigAt_le k
  have hlow : -1074 ≤ exponentAt k := by simp only [exponentAt]; omega
  have hhigh : exponentAt k ≤ 971 := by
    simp only [exponentAt, infinite, implicitBit] at hfin ⊢; omega
  set l : Int := (sigAt k).log2 + exponentAt k with hl
  have hscale := scale_search tie x.significand x.exponent
    (x.significand == implicitBit && 1 < x.magnitude / implicitBit) 24 (l * 30103 / 100000 + 2)
  have hshortest : shortest tie x = search tie x.significand x.exponent
      (x.significand == implicitBit && 1 < x.magnitude / implicitBit) 24
      (l * 30103 / 100000 + 2) := rfl
  rw [← hshortest] at hscale
  refine ⟨?_, by omega, by omega⟩
  have hlt : (shortest tie x).toRat < 2 ^ (l + 1) := lt_pow_of_roundsTo (shortest_roundsTo hf h0)
  have hstart := pow_le_start (l := l) (by omega) (by omega)
  have hgrid : (10 : ℚ) ^ (l * 30103 / 100000 + 2) ≤ 10 ^ ((shortest tie x).scale + 24) :=
    zpow_le_zpow_right₀ (by norm_num) (by omega)
  have hall : (shortest tie x).toRat < 10 ^ ((shortest tie x).scale + 24) :=
    hlt.trans_le (hstart.trans hgrid)
  rw [toRat, add_comm, zpow_add₀ (by norm_num), mul_lt_mul_iff_left₀ (by positivity)] at hall
  exact_mod_cast hall

/-! ## Texts -/

theorem length_digitText_le {n k : Nat} (hk : 0 < k) (h : n < 10 ^ k) :
    (digitText n).length ≤ k := Nat.toDigits_length 10 n k hk h

theorem length_positionalText_le {digits : List Char} {whole : Int} (hd : digits.length ≤ 24)
    (hlow : -4 ≤ whole) (hhigh : whole ≤ 16) :
    (positionalText doubleLayout digits whole).toList.length ≤ 30 := by
  have hend : doubleLayout.wholeEnd.toList = ['.', '0'] := rfl
  unfold positionalText
  split
  · simp only [String.toList_ofList, List.length_cons, List.length_append, List.length_replicate]
    omega
  · split
    · simp only [String.toList_append, String.toList_ofList, hend, List.length_cons,
        List.length_append, List.length_replicate, List.length_nil]
      omega
    · simp only [String.toList_ofList, List.length_append, List.length_cons, List.length_take,
        List.length_drop]
      omega

theorem length_scientificText_le {digits : List Char} {e : Int} (hd : digits.length ≤ 24)
    (he : e.natAbs < 1000) : (scientificText digits e).toList.length ≤ 30 := by
  have hexp := length_digitText_le (k := 3) (by decide) he
  unfold scientificText
  rw [String.toList_ofList, List.length_append, List.length_cons, List.length_cons]
  split
  · simp only [List.length_nil]
    omega
  · simp only [List.length_singleton]
    omega
  · simp only [List.length_cons] at hd ⊢
    omega

theorem length_unsigned_le {d : Decimal} (hd : d.digits < 10 ^ 24) (hlow : -400 ≤ d.scale)
    (hhigh : d.scale ≤ 400) : d.unsigned.length ≤ 30 := by
  have hdigits := length_digitText_le (by decide) hd
  unfold unsigned
  dsimp only
  split
  · rename_i hpos
    simp only [doubleLayout, Bool.and_eq_true, decide_eq_true_eq] at hpos
    exact length_positionalText_le hdigits (by omega) (by omega)
  · exact length_scientificText_le hdigits (by omega)

/-- **No double takes more than 31 characters.** -/
theorem length_doubleText_le {x : Double} (hf : x.isFinite) :
    (doubleLayout.text x).toList.length ≤ 31 := by
  have hmagnitude : (magnitudeText x).length ≤ 30 := by
    unfold magnitudeText
    split
    · decide
    · rename_i h0
      obtain ⟨hd, hlow, hhigh⟩ := digits_shortest_lt hf h0
      exact length_unsigned_le hd hlow hhigh
  rw [doubleText_toList hf, List.length_append]
  split
  · simp only [List.length_singleton]
    omega
  · simp only [List.length_nil]
    omega

end Quorum.Decimal
