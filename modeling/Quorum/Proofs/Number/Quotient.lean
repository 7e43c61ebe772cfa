import Mathlib
import Quorum.Proofs.Number.Rounding

/-!
# Quotients in order

Rounding to the nearest natural keeps the order of quotients (`roundRatio_mono`), and so does
rounding to the nearest double, whatever binades they fall into (`ofRatio_mono`). Naturals of 53
bits are doubles (`valueAt_ofNat`), so the doubles of two of them have the quotient that the
naturals have, rounded once, and such quotients are in the order of the exact ones
(`div_ofNat_le`).
-/

namespace Quorum.Double

/-! ## The nearest natural -/

/-- `x` rounds to the natural `m`, halves to the even one. -/
def Near (m : Nat) (x : ℚ) : Prop :=
  (m : ℚ) - 1 / 2 ≤ x ∧ x ≤ m + 1 / 2 ∧ (m % 2 = 1 → (m : ℚ) - 1 / 2 < x ∧ x < m + 1 / 2)

theorem Near.of_lt {m : Nat} {x : ℚ} (hlow : (m : ℚ) - 1 / 2 < x) (hhigh : x < m + 1 / 2) :
    Near m x := ⟨hlow.le, hhigh.le, fun _ => ⟨hlow, hhigh⟩⟩

/-- Were a larger number rounded to a smaller natural, both would be halfway between the two, of
which one is odd. -/
theorem Near.le {m n : Nat} {x y : ℚ} (hm : Near m x) (hn : Near n y) (h : x ≤ y) : m ≤ n := by
  obtain ⟨hlow, -, hodd⟩ := hm
  obtain ⟨-, hhigh, hodd'⟩ := hn
  by_contra hlt
  have hstep : (n : ℚ) + 1 ≤ m := by exact_mod_cast Nat.lt_of_not_le hlt
  have hnext : m = n + 1 := by
    have hle : (m : ℚ) ≤ n + 1 := by linarith
    exact le_antisymm (by exact_mod_cast hle) (Nat.lt_of_not_le hlt)
  rcases Nat.mod_two_eq_zero_or_one m with heven | hone
  · have := (hodd' (by omega)).2
    linarith
  · have := (hodd hone).1
    linarith

/-- A quotient by its whole part and what is left. -/
theorem div_eq_add_mod (num : Nat) {den : Nat} (hd : 0 < den) :
    (num : ℚ) / den = (num / den : Nat) + (num % den : Nat) / den := by
  have hdq : (den : ℚ) ≠ 0 := Nat.cast_ne_zero.2 hd.ne'
  rw [div_eq_iff hdq, add_mul, div_mul_cancel₀ _ hdq]
  exact_mod_cast (Nat.div_add_mod' num den).symm

theorem roundRatio_near (num : Nat) {den : Nat} (hd : 0 < den) :
    Near (roundRatio num den) (num / den) := by
  have hdq : (0 : ℚ) < den := by exact_mod_cast hd
  have hnonneg : (0 : ℚ) ≤ (num % den : Nat) / den := by positivity
  have hlt : ((num % den : Nat) : ℚ) / den < 1 := by
    rw [div_lt_one hdq]
    exact_mod_cast Nat.mod_lt num hd
  rw [div_eq_add_mod num hd]
  unfold roundRatio
  dsimp only
  generalize num / den = q at *
  generalize num % den = r at *
  split
  · rename_i hless
    have hless : (r : ℚ) / den < 1 / 2 := by
      rw [div_lt_div_iff₀ hdq two_pos]
      exact_mod_cast (show r * 2 < 1 * den by omega)
    exact .of_lt (by linarith) (by linarith)
  · split
    · rename_i hmore
      have hmore : (1 : ℚ) / 2 < r / den := by
        rw [div_lt_div_iff₀ two_pos hdq]
        exact_mod_cast (show 1 * den < r * 2 by omega)
      exact .of_lt (by push_cast; linarith) (by push_cast; linarith)
    · -- A half: the even one of both sides, so that nothing is asked of an odd one.
      have hhalf : (r : ℚ) / den = 1 / 2 := by
        rw [div_eq_div_iff hdq.ne' two_ne_zero]
        exact_mod_cast (show r * 2 = 1 * den by omega)
      have hup : ((q + q % 2 : Nat) : ℚ) ≤ q + 1 := by
        exact_mod_cast (show q + q % 2 ≤ q + 1 by omega)
      have hdown : (q : ℚ) ≤ (q + q % 2 : Nat) := by
        exact_mod_cast Nat.le_add_right q (q % 2)
      exact ⟨by linarith, by linarith, fun hodd => by omega⟩

/-- **Rounding keeps the order of quotients.** -/
theorem roundRatio_mono {num den num' den' : Nat} (hd : 0 < den) (hd' : 0 < den')
    (h : (num : ℚ) / den ≤ num' / den') : roundRatio num den ≤ roundRatio num' den' :=
  (roundRatio_near num hd).le (roundRatio_near num' hd') h

/-! ## The nearest double -/

theorem floorLog2_mono {num den num' den' : Nat} (hn : 0 < num) (hd : 0 < den) (hn' : 0 < num')
    (hd' : 0 < den') (h : (num : ℚ) / den ≤ num' / den') :
    floorLog2 num den ≤ floorLog2 num' den' := by
  have hlt : (2 : ℚ) ^ floorLog2 num den < 2 ^ (floorLog2 num' den' + 1) :=
    ((floorLog2_spec hn hd).1.trans h).trans_lt (floorLog2_spec hn' hd').2
  have := (zpow_lt_zpow_iff_right₀ (by norm_num : (1 : ℚ) < 2)).1 hlt
  omega

/-- **Rounding to a double keeps the order of quotients.** In one binade the significands are in
order; a quotient of a later one has a significand with its leading bit, which no significand of
an earlier one exceeds by more than the next binade holds. -/
theorem ofRatio_mono {num den num' den' : Nat} (hd : 0 < den) (hd' : 0 < den')
    (h : (num : ℚ) / den ≤ num' / den') : ofRatio num den ≤ ofRatio num' den' := by
  rcases Nat.eq_zero_or_pos num with rfl | hn
  · exact Nat.zero_le _
  have hn' : 0 < num' := by
    have hpos : (0 : ℚ) < num / den := div_pos (by exact_mod_cast hn) (by exact_mod_cast hd)
    rcases Nat.eq_zero_or_pos num' with rfl | hn'
    · rw [Nat.cast_zero, zero_div] at h
      exact absurd h (not_le.2 hpos)
    · exact hn'
  have hlog := floorLog2_mono hn hd hn' hd' h
  rw [ofRatio_eq hn, ofRatio_eq hn']
  refine min_le_min_right _ ?_
  rcases (max_le_max_right (-1074) (sub_le_sub_right hlog 52)).eq_or_lt with heq | hlt
  · change roundingExponent num den = roundingExponent num' den' at heq
    rw [← heq]
    refine Nat.add_le_add_left (roundRatio_mono (shiftLeft_pos hd _) (shiftLeft_pos hd' _) ?_) _
    rw [scaled_quotient, scaled_quotient]
    gcongr
  · have hle := significand_le hn hd
    have hge := le_significand hn' hd' (by omega)
    simp only [roundingExponent, implicitBit] at hle hge ⊢
    omega

/-- A significand of at most 53 bits, put behind the exponent `k` as rounding does it: where it
has run over, or lacks its leading bit, the bits still say the same number. -/
theorem valueAt_packed {k m : Nat} (hle : m ≤ 2 * implicitBit) (hge : 0 < k → implicitBit ≤ m) :
    valueAt (k * implicitBit + m) = m * 2 ^ ((k : Int) - 1074) := by
  unfold valueAt unitAt
  rcases hle.eq_or_lt with rfl | hlt
  · have hsig : sigAt (k * implicitBit + 2 * implicitBit) = implicitBit := by
      unfold sigAt
      split <;> simp only [implicitBit] at * <;> omega
    have hexp : exponentAt (k * implicitBit + 2 * implicitBit) = (k : Int) - 1074 + 1 := by
      simp only [exponentAt, implicitBit]
      omega
    rw [hsig, hexp, zpow_add_one₀ two_ne_zero]
    push_cast
    ring
  · have hsig : sigAt (k * implicitBit + m) = m := by
      unfold sigAt
      split <;> simp only [implicitBit] at * <;> omega
    have hexp : exponentAt (k * implicitBit + m) = (k : Int) - 1074 := by
      simp only [exponentAt, implicitBit] at *
      omega
    rw [hsig, hexp]

/-- The magnitude of a rounded quotient stands for the significand it is rounded to. -/
theorem valueAt_ofRatio {num den : Nat} (hn : 0 < num) (hd : 0 < den)
    (hfinite : ofRatio num den < infinite) : valueAt (ofRatio num den) =
      roundRatio (num <<< (-roundingExponent num den).toNat)
        (den <<< (roundingExponent num den).toNat) * 2 ^ roundingExponent num den := by
  have hlow : -1074 ≤ roundingExponent num den := le_max_right _ _
  have hge : 0 < (roundingExponent num den + 1074).toNat → implicitBit ≤
      roundRatio (num <<< (-roundingExponent num den).toNat)
        (den <<< (roundingExponent num den).toNat) := by
    intro hlt
    refine le_significand hn hd ?_
    simp only [roundingExponent] at hlt
    omega
  rw [ofRatio_eq hn] at hfinite ⊢
  rw [Nat.min_eq_left ((min_lt_iff.1 hfinite).resolve_right (lt_irrefl _)).le,
    valueAt_packed (significand_le hn hd) hge]
  congr 2
  omega

/-! ## Naturals -/

/-- **A natural of 53 bits is a double.** -/
theorem valueAt_ofNat {n : Nat} (h : n < 2 ^ 53) : valueAt (Double.ofNat n).magnitude = n := by
  rw [magnitude_ofNat]
  rcases Nat.eq_zero_or_pos n with rfl | hn
  · simp [ofRatio_zero, valueAt, sigAt]
  have hnq : (n : ℚ) < 2 ^ (53 : Int) := by exact_mod_cast h
  have hexp : roundingExponent n 1 ≤ 0 := by
    have hlt := (floorLog2_spec hn one_pos).1.trans_lt ((div_one (n : ℚ)).trans_lt hnq)
    have := (zpow_lt_zpow_iff_right₀ (by norm_num : (1 : ℚ) < 2)).1 hlt
    simp only [roundingExponent]
    omega
  have hfinite : ofRatio n 1 < infinite := by
    refine ofRatio_lt one_pos ?_
    rw [Nat.cast_one, div_one]
    exact hnq.trans (zpow_lt_zpow_right₀ (by norm_num) (by norm_num))
  have hround (m : Nat) : roundRatio m 1 = m := by simp [roundRatio, Nat.mod_one]
  rw [valueAt_ofRatio hn one_pos hfinite, Int.toNat_of_nonpos hexp, Nat.shiftLeft_zero, hround,
    Nat.shiftLeft_eq, Nat.cast_mul, Nat.cast_pow, Nat.cast_ofNat, pow_toNat two_ne_zero, neg_neg,
    Int.toNat_of_nonpos hexp, pow_zero, mul_one, mul_assoc, ← zpow_add₀ two_ne_zero,
    neg_add_cancel, zpow_zero, mul_one]

/-- The two naturals that `div` rounds the quotient of have the quotient of the arguments. -/
theorem div_operands {m n : Nat} (hm : m < 2 ^ 53) (hn : n < 2 ^ 53) :
    let e := (Double.ofNat m).exponent - (Double.ofNat n).exponent
    (((Double.ofNat m).significand <<< e.toNat : Nat) : ℚ) /
      ((Double.ofNat n).significand <<< (-e).toNat : Nat) = m / n := by
  dsimp only
  rw [shift_div, zpow_sub₀ two_ne_zero, div_mul_div_comm]
  have hvalue := valueAt_ofNat hm
  have hvalue' := valueAt_ofNat hn
  rw [valueAt, unitAt, ← significand_eq, ← exponent_eq] at hvalue hvalue'
  rw [hvalue, hvalue']

theorem isNegative_ofMagnitude {m : Nat} (h : m < signBit) :
    (ofMagnitude false m).isNegative = false := by
  simp only [isNegative, ofMagnitude, signBit, UInt64.toNat_ofNat'] at h ⊢
  simp
  omega

/-- Without signs, numbers are in the order of their magnitudes. -/
theorem ofMagnitude_le {m m' : Nat} (h : m ≤ m') (hle : m' ≤ infinite) :
    (ofMagnitude false m).le (ofMagnitude false m') = true := by
  have hlt' : m' < signBit := hle.trans_lt (by decide)
  have hlt : m < signBit := h.trans_lt hlt'
  simp only [Double.le, isNaN, rank, magnitude_ofMagnitude hlt, magnitude_ofMagnitude hlt',
    isNegative_ofMagnitude hlt, isNegative_ofMagnitude hlt']
  simp
  omega

/-- **Quotients of naturals of 53 bits are in the order of the exact quotients.** -/
theorem div_ofNat_le {m n m' n' : Nat} (hm : m < 2 ^ 53) (hn : 0 < n) (hn53 : n < 2 ^ 53)
    (hm' : m' < 2 ^ 53) (hn' : 0 < n') (hn53' : n' < 2 ^ 53) (h : m * n' ≤ m' * n) :
    ((Double.ofNat m).div (Double.ofNat n)).le
      ((Double.ofNat m').div (Double.ofNat n')) = true := by
  have hsign (k : Nat) : (Double.ofNat k).isNegative = false :=
    isNegative_ofMagnitude ((ofRatio_le k 1).trans_lt (by decide))
  have hquotient : (m : ℚ) / n ≤ m' / n' := by
    rw [div_le_div_iff₀ (by exact_mod_cast hn) (by exact_mod_cast hn')]
    exact_mod_cast h
  simp only [div, hsign, bne_self_eq_false]
  refine ofMagnitude_le (ofRatio_mono ?_ ?_ ?_) (ofRatio_le _ _)
  · exact shiftLeft_pos (significand_ofNat_pos hn) _
  · exact shiftLeft_pos (significand_ofNat_pos hn') _
  · rwa [div_operands hm hn53, div_operands hm' hn53']

end Quorum.Double
