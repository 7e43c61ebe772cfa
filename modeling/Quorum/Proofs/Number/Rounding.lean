import Mathlib
import Quorum.Proofs.Number.Magnitude

/-!
# Bounds on rounding

How large the magnitude of a rounded quotient is: `floorLog2` is the binary logarithm
(`floorLog2_spec`), a quotient below `2 ^ 1023` is rounded to a finite magnitude
(`ofRatio_lt`), one that is at least `2 ^ k` to a magnitude of that binade or a later one
(`le_ofRatio`). With them natural numbers of 64 bits and quotients by powers of ten stay finite.
-/

namespace Quorum.Double

/-- Shifting one of two naturals scales their quotient. -/
theorem shift_div (a b : Nat) (e : Int) :
    ((a <<< e.toNat : Nat) : ℚ) / (b <<< (-e).toNat : Nat) = a / b * 2 ^ e := by
  rw [Nat.shiftLeft_eq, Nat.shiftLeft_eq]
  push_cast
  rw [pow_toNat two_ne_zero e, mul_div_mul_comm, mul_div_cancel_right₀ _ (by positivity)]

theorem floorLog2_spec {num den : Nat} (hn : 0 < num) (hd : 0 < den) :
    (2 : ℚ) ^ floorLog2 num den ≤ num / den ∧ (num : ℚ) / den < 2 ^ (floorLog2 num den + 1) := by
  have hdq : (0 : ℚ) < den := by exact_mod_cast hd
  have hn1 : (2 : ℚ) ^ (num.log2 : ℤ) ≤ num := by exact_mod_cast Nat.log2_self_le hn.ne'
  have hn2 : (num : ℚ) < 2 ^ ((num.log2 : ℤ) + 1) := by exact_mod_cast Nat.lt_log2_self (n := num)
  have hd1 : (2 : ℚ) ^ (den.log2 : ℤ) ≤ den := by exact_mod_cast Nat.log2_self_le hd.ne'
  have hd2 : (den : ℚ) < 2 ^ ((den.log2 : ℤ) + 1) := by exact_mod_cast Nat.lt_log2_self (n := den)
  set k : Int := (num.log2 : ℤ) - den.log2 with hk
  have hlow : (2 : ℚ) ^ (k - 1) ≤ num / den := by
    rw [le_div_iff₀ hdq]
    calc (2 : ℚ) ^ (k - 1) * den ≤ 2 ^ (k - 1) * 2 ^ ((den.log2 : ℤ) + 1) := by gcongr
      _ = 2 ^ (num.log2 : ℤ) := by rw [← zpow_add₀ two_ne_zero]; congr 1; omega
      _ ≤ num := hn1
  have hhigh : (num : ℚ) / den < 2 ^ (k + 1) := by
    rw [div_lt_iff₀ hdq]
    calc (num : ℚ) < 2 ^ ((num.log2 : ℤ) + 1) := hn2
      _ = 2 ^ (k + 1) * 2 ^ (den.log2 : ℤ) := by rw [← zpow_add₀ two_ne_zero]; congr 1; omega
      _ ≤ 2 ^ (k + 1) * den := by gcongr
  have hcmp : den <<< k.toNat ≤ num <<< (-k).toNat ↔ (2 : ℚ) ^ k ≤ num / den := by
    have hpos : (0 : ℚ) < (den <<< k.toNat : Nat) := by
      rw [Nat.shiftLeft_eq]; exact_mod_cast Nat.mul_pos hd (by positivity)
    have hs := shift_div num den (-k)
    rw [neg_neg, zpow_neg] at hs
    rw [← Nat.cast_le (α := ℚ), ← one_le_div hpos, hs, ← div_eq_mul_inv, one_le_div (by positivity)]
  simp only [floorLog2, ← hk]
  split
  · rename_i h
    exact ⟨hcmp.1 h, hhigh⟩
  · rename_i h
    rw [sub_add_cancel]
    exact ⟨hlow, lt_of_not_ge fun h' => h (hcmp.2 h')⟩

theorem roundRatio_bounds (num den : Nat) :
    num / den ≤ roundRatio num den ∧ roundRatio num den ≤ num / den + 1 := by
  unfold roundRatio
  dsimp only
  split
  · omega
  · split <;> omega

/-! ## Magnitudes -/

theorem ofRatio_zero (den : Nat) : ofRatio 0 den = 0 := rfl

/-- The exponent that a quotient is rounded with. -/
def roundingExponent (num den : Nat) : Int := max (floorLog2 num den - 52) (-1074)

/-- The quotient in units of that exponent. -/
theorem scaled_quotient (num den : Nat) (q : Int) :
    ((num <<< (-q).toNat : Nat) : ℚ) / (den <<< q.toNat : Nat) = num / den * 2 ^ (-q) := by
  have h := shift_div num den (-q)
  rwa [neg_neg] at h

theorem shiftLeft_pos {d : Nat} (hd : 0 < d) (n : Nat) : 0 < d <<< n := by
  rw [Nat.shiftLeft_eq]; exact Nat.mul_pos hd (by positivity)

/-- A significand is rounded to at most 53 bits. -/
theorem significand_le {num den : Nat} (hn : 0 < num) (hd : 0 < den) :
    roundRatio (num <<< (-roundingExponent num den).toNat)
      (den <<< (roundingExponent num den).toNat) ≤ 2 * implicitBit := by
  set q := roundingExponent num den with hq
  have hD := shiftLeft_pos hd q.toNat
  have hlt : ((num <<< (-q).toNat : Nat) : ℚ) / (den <<< q.toNat : Nat) < 2 ^ 53 := by
    rw [scaled_quotient]
    calc (num : ℚ) / den * 2 ^ (-q) < 2 ^ (floorLog2 num den + 1) * 2 ^ (-q) := by
          gcongr; exact (floorLog2_spec hn hd).2
      _ = 2 ^ (floorLog2 num den + 1 - q) := by rw [← zpow_add₀ two_ne_zero]; rfl
      _ ≤ 2 ^ (53 : ℤ) := zpow_le_zpow_right₀ (by norm_num) (by
          simp only [hq, roundingExponent]; omega)
      _ = 2 ^ 53 := rfl
  rw [div_lt_iff₀ (by exact_mod_cast hD)] at hlt
  have hdiv := (Nat.div_lt_iff_lt_mul hD).2 (show _ < 2 ^ 53 * _ by exact_mod_cast hlt)
  have := (roundRatio_bounds (num <<< (-q).toNat) (den <<< q.toNat)).2
  simp only [implicitBit]
  omega

/-- A significand of a quotient in the normal range has its leading bit. -/
theorem le_significand {num den : Nat} (hn : 0 < num) (hd : 0 < den)
    (hk : -1022 ≤ floorLog2 num den) :
    implicitBit ≤ roundRatio (num <<< (-roundingExponent num den).toNat)
      (den <<< (roundingExponent num den).toNat) := by
  set q := roundingExponent num den with hq
  have hqk : q = floorLog2 num den - 52 := by simp only [hq, roundingExponent]; omega
  have hD := shiftLeft_pos hd q.toNat
  have hge : (2 : ℚ) ^ 52 ≤ (num <<< (-q).toNat : Nat) / (den <<< q.toNat : Nat) := by
    rw [scaled_quotient]
    calc (2 : ℚ) ^ 52 = 2 ^ (floorLog2 num den) * 2 ^ (-q) := by
          rw [← zpow_add₀ two_ne_zero, hqk, show floorLog2 num den + -(floorLog2 num den - 52) = 52
            by omega]
          rfl
      _ ≤ num / den * 2 ^ (-q) := by gcongr; exact (floorLog2_spec hn hd).1
  rw [le_div_iff₀ (by exact_mod_cast hD)] at hge
  have hdiv := (Nat.le_div_iff_mul_le hD).2 (show 2 ^ 52 * _ ≤ _ by exact_mod_cast hge)
  exact hdiv.trans (roundRatio_bounds _ _).1

theorem ofRatio_eq {num den : Nat} (hn : 0 < num) : ofRatio num den =
    min ((roundingExponent num den + 1074).toNat * implicitBit +
      roundRatio (num <<< (-roundingExponent num den).toNat)
        (den <<< (roundingExponent num den).toNat)) infinite := by
  rw [ofRatio, if_neg hn.ne']; rfl

/-- A quotient below `2 ^ 1023` is rounded to a finite magnitude. -/
theorem ofRatio_lt {num den : Nat} (hd : 0 < den) (h : (num : ℚ) / den < 2 ^ (1023 : ℤ)) :
    ofRatio num den < infinite := by
  rcases Nat.eq_zero_or_pos num with rfl | hn
  · rw [ofRatio_zero]; decide
  have hk : floorLog2 num den < 1023 :=
    (zpow_lt_zpow_iff_right₀ (by norm_num : (1 : ℚ) < 2)).1 ((floorLog2_spec hn hd).1.trans_lt h)
  have hs := significand_le hn hd
  rw [ofRatio_eq hn]
  simp only [infinite, implicitBit, roundingExponent] at hs ⊢
  omega

/-- A quotient that is at least `2 ^ k` is rounded into the binade of `2 ^ k` or a later one. -/
theorem le_ofRatio {num den : Nat} {k : Int} (hn : 0 < num) (hd : 0 < den)
    (hk : -1022 ≤ k) (hk' : k ≤ 1023) (h : (2 : ℚ) ^ k ≤ num / den) :
    (k + 1023).toNat * implicitBit ≤ ofRatio num den := by
  have hlog : k ≤ floorLog2 num den := by
    have := (zpow_lt_zpow_iff_right₀ (by norm_num : (1 : ℚ) < 2)).1
      (h.trans_lt (floorLog2_spec hn hd).2)
    omega
  have hs := le_significand hn hd (by omega)
  rw [ofRatio_eq hn]
  simp only [infinite, implicitBit, roundingExponent] at hs ⊢
  omega

/-! ## Finite doubles -/

theorem magnitude_ofMagnitude {negative : Bool} {m : Nat} (h : m < signBit) :
    (ofMagnitude negative m).magnitude = m := by
  simp only [magnitude, ofMagnitude, signBit, UInt64.toNat_ofNat'] at h ⊢
  cases negative <;> simp <;> omega

theorem isFinite_ofMagnitude {negative : Bool} {m : Nat} (h : m < infinite) :
    (ofMagnitude negative m).isFinite = true := by
  have hm : m < signBit := by simp only [infinite, signBit] at h ⊢; omega
  rw [isFinite, magnitude_ofMagnitude hm, decide_eq_true h]

theorem isFinite_neg {x : Double} (h : x.isFinite = true) : x.neg.isFinite = true :=
  isFinite_ofMagnitude (of_decide_eq_true h)

theorem isFinite_ofNat {n : Nat} (h : n < UInt64.size) : (Double.ofNat n).isFinite = true := by
  refine isFinite_ofMagnitude (ofRatio_lt one_pos ?_)
  have hn : (n : ℚ) < 2 ^ 64 := by exact_mod_cast h
  calc (n : ℚ) / (1 : Nat) = n := by simp
    _ < 2 ^ (64 : ℤ) := hn
    _ ≤ 2 ^ (1023 : ℤ) := zpow_le_zpow_right₀ (by norm_num) (by norm_num)

theorem ofRatio_le (num den : Nat) : ofRatio num den ≤ infinite := by
  unfold ofRatio
  split
  · exact Nat.zero_le _
  · exact Nat.min_le_right _ _

/-- A quotient that is exactly one is rounded to one. -/
theorem ofRatio_self {n : Nat} (hn : 0 < n) : ofRatio n n = 1023 * implicitBit := by
  have hlog : floorLog2 n n = 0 := by simp [floorLog2]
  have hround : roundRatio (n <<< 52) n = implicitBit := by
    rw [roundRatio, Nat.shiftLeft_eq, Nat.mul_div_cancel_left _ hn, Nat.mul_mod_right,
      if_pos (by omega)]
    rfl
  rw [ofRatio_eq hn, roundingExponent, hlog]
  show min (1022 * implicitBit + roundRatio (n <<< 52) (n <<< 0)) infinite = _
  rw [Nat.shiftLeft_zero, hround]
  rfl

/-- A double divided by itself is one. -/
theorem div_self {x : Double} (hx : 0 < x.significand) : x.div x = Double.ofNat 1 := by
  simp only [div, Double.ofNat, sub_self, neg_zero, Int.toNat_zero, Nat.shiftLeft_zero,
    bne_self_eq_false, ofRatio_self hx, ofRatio_self one_pos]

theorem magnitude_ofNat (n : Nat) : (Double.ofNat n).magnitude = ofRatio n 1 :=
  magnitude_ofMagnitude ((ofRatio_le n 1).trans_lt (by decide))

theorem significand_ofNat_pos {n : Nat} (hn : 0 < n) : 0 < (Double.ofNat n).significand := by
  have hge : 1023 * implicitBit ≤ ofRatio n 1 := by
    refine le_ofRatio (k := 0) hn one_pos (by norm_num) (by norm_num) ?_
    simpa using Nat.succ_le_of_lt hn
  rw [significand_eq, magnitude_ofNat]
  exact sigAt_pos (lt_of_lt_of_le (by decide) hge)

/-- A double that rounds a natural above one is normal and at least two. -/
theorem magnitude_ofNat_ge {n : Nat} (hn : 2 ≤ n) :
    1024 * implicitBit ≤ (Double.ofNat n).magnitude := by
  rw [magnitude_ofNat]
  refine le_ofRatio (k := 1) (by omega) one_pos (by norm_num) (by norm_num) ?_
  have : (2 : ℚ) ≤ n := by exact_mod_cast hn
  simpa using this

/-- A finite double divided by such a double stays finite. -/
theorem isFinite_div {x : Double} (hx : x.isFinite = true) {n : Nat} (hn : 2 ≤ n) :
    (x.div (Double.ofNat n)).isFinite = true := by
  set y := Double.ofNat n with hy
  have hym : 1024 * implicitBit ≤ y.magnitude := magnitude_ofNat_ge hn
  have hysig : implicitBit ≤ y.significand := by
    rw [significand_eq, sigAt, if_neg (by simp only [implicitBit] at hym ⊢; omega)]
    omega
  have hyexp : -51 ≤ y.exponent := by
    rw [exponent_eq, exponentAt]
    simp only [implicitBit] at hym ⊢; omega
  have hxexp : x.exponent ≤ 971 := by
    have hm : x.magnitude < infinite := of_decide_eq_true hx
    rw [exponent_eq, exponentAt]
    simp only [infinite, implicitBit] at hm ⊢; omega
  have hxsig : (x.significand : ℚ) < 2 * implicitBit := by
    rw [significand_eq]; exact_mod_cast sigAt_lt _
  have hB : (0 : ℚ) < implicitBit := by norm_num [implicitBit]
  have hyq : (implicitBit : ℚ) ≤ y.significand := by exact_mod_cast hysig
  refine isFinite_ofMagnitude (ofRatio_lt (shiftLeft_pos ?_ _) ?_)
  · exact lt_of_lt_of_le (by decide) hysig
  rw [shift_div]
  have hq : (x.significand : ℚ) / y.significand < 2 := by
    rw [div_lt_iff₀ (hB.trans_le hyq)]
    calc (x.significand : ℚ) < 2 * implicitBit := hxsig
      _ ≤ 2 * y.significand := by gcongr
  calc (x.significand : ℚ) / y.significand * 2 ^ (x.exponent - y.exponent)
      < 2 * 2 ^ (x.exponent - y.exponent) := by gcongr
    _ ≤ 2 * 2 ^ (1022 : ℤ) := by
        gcongr
        · norm_num
        · omega
    _ = 2 ^ (1023 : ℤ) := by rw [← zpow_one_add₀ two_ne_zero]; rfl

end Quorum.Double
