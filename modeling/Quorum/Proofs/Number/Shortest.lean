import Mathlib
import Quorum.Number.Decimal
import Quorum.Proofs.Number.Magnitude

/-!
# Shortest digits

The decimal that `shortest` finds rounds to the double it was made for
(`shortest_roundsTo`): a grid whose step is at most a quarter unit has such a point
(`pick_isSome`), and the search comes to one before its steps run out (`pow_le_quarter`).
A decimal rounds to one magnitude only, so the digits determine the double.
-/

namespace Quorum.Decimal

open Double

variable {tie : Tie}

/-- The number that a decimal stands for. -/
def toRat (d : Decimal) : ℚ := d.digits * 10 ^ d.scale

/-! ## Scales -/

theorem scales_pos (e s : Int) : 0 < (scales e s).grid ∧ 0 < (scales e s).unit := by
  simp [scales, Nat.shiftLeft_eq]

/-- Both scales are the real ones times one factor. -/
theorem scales_factor (e s : Int) : ∃ k : ℚ, 0 < k ∧
    ((scales e s).grid : ℚ) = 10 ^ s * k ∧ ((scales e s).unit : ℚ) = 2 ^ e * k := by
  refine ⟨10 ^ (-s).toNat * 2 ^ (-e).toNat, by positivity, ?_, ?_⟩
  · simp only [scales, Nat.shiftLeft_eq, Nat.pow_eq]
    push_cast; rw [pow_toNat (by norm_num) s]; ring
  · simp only [scales, Nat.shiftLeft_eq, Nat.pow_eq]
    push_cast; rw [pow_toNat two_ne_zero e]; ring

theorem unit_le_grid_iff (e s : Int) (b c : Nat) :
    b * (scales e s).unit ≤ c * (scales e s).grid ↔ (b : ℚ) * 2 ^ e ≤ c * 10 ^ s := by
  obtain ⟨k, hk, hg, hu⟩ := scales_factor e s
  rw [← Nat.cast_le (α := ℚ)]
  push_cast
  rw [hg, hu, ← mul_assoc, ← mul_assoc, mul_le_mul_iff_left₀ hk]

theorem grid_le_unit_iff (e s : Int) (b c : Nat) :
    c * (scales e s).grid ≤ b * (scales e s).unit ↔ (c : ℚ) * 10 ^ s ≤ b * 2 ^ e := by
  obtain ⟨k, hk, hg, hu⟩ := scales_factor e s
  rw [← Nat.cast_le (α := ℚ)]
  push_cast
  rw [hg, hu, ← mul_assoc, ← mul_assoc, mul_le_mul_iff_left₀ hk]

/-- `rounds` decides whether a point of the grid rounds to a magnitude. -/
theorem rounds_iff {k : Nat} (hk : 0 < k) (s : Int) (c : Nat) :
    rounds (sigAt k) (decide (NarrowAt k)) (scales (exponentAt k - 2) s).unit
      (c * (scales (exponentAt k - 2) s).grid) = true ↔ RoundsTo k (c * 10 ^ s) := by
  have hpar : sigAt k % 2 = k % 2 := by
    unfold sigAt
    split
    · rfl
    · simp only [implicitBit]; omega
  have hq : unitAt k / 4 = 2 ^ (exponentAt k - 2) := by
    rw [unitAt, zpow_sub₀ two_ne_zero]; norm_num
  unfold rounds RoundsTo
  simp only [hpar, decide_eq_true_eq]
  rw [midAt_pred hk, midAt_eq, hq]
  split
  · rw [Bool.and_eq_true, decide_eq_true_eq, decide_eq_true_eq, unit_le_grid_iff, grid_le_unit_iff]
  · rw [Bool.and_eq_true, decide_eq_true_eq, decide_eq_true_eq, ← not_le, ← not_le,
      grid_le_unit_iff, unit_le_grid_iff, not_le, not_le]

/-! ## Search -/

theorem rounds_of_pick {m : Nat} {e s : Int} {narrow : Bool} {c : Nat}
    (h : pick tie m e narrow s = some c) :
    rounds m narrow (scales (e - 2) s).unit (c * (scales (e - 2) s).grid) = true := by
  unfold pick at h
  dsimp only at h
  split at h
  · rename_i hb
    rw [Bool.and_eq_true] at hb
    split at h <;> cases h
    · exact hb.2
    · exact hb.1
  · split at h
    · cases h; assumption
    · split at h
      · cases h; assumption
      · cases h

/-- The point below a significand rounds to it if a step of the grid is at most a quarter unit. -/
theorem rounds_below {m g u : Nat} (hm : 0 < m) (hg : 0 < g) (narrow : Bool) (h : g ≤ u) :
    rounds m narrow u (4 * m * u / g * g) = true := by
  have hdiv := Nat.div_add_mod (4 * m * u) g
  have hmod := Nat.mod_lt (4 * m * u) hg
  have hmu : u ≤ m * u := Nat.le_mul_of_pos_left u hm
  rw [Nat.mul_comm g] at hdiv
  have hlow : (4 * m - if narrow then 1 else 2) * u < 4 * m * u / g * g := by
    rw [Nat.sub_mul]
    rw [Nat.mul_assoc 4] at hdiv hmod ⊢
    cases narrow <;> simp <;> omega
  have hhigh : 4 * m * u / g * g < (4 * m + 2) * u := by
    rw [Nat.add_mul]
    omega
  simp only [rounds]
  split
  · rw [Bool.and_eq_true, decide_eq_true_eq, decide_eq_true_eq]
    exact ⟨hlow.le, hhigh.le⟩
  · rw [Bool.and_eq_true, decide_eq_true_eq, decide_eq_true_eq]
    exact ⟨hlow, hhigh⟩

theorem pick_isSome (tie : Tie) {m : Nat} (hm : 0 < m) {e s : Int} (narrow : Bool)
    (h : (scales (e - 2) s).grid ≤ (scales (e - 2) s).unit) : (pick tie m e narrow s).isSome := by
  have hg : 0 < (scales (e - 2) s).grid := (scales_pos (e - 2) s).1
  have hr := rounds_below hm hg narrow h
  unfold pick
  dsimp only
  rw [hr]
  split
  · split <;> rfl
  · rfl

/-- The search ends with a pick if one of its grids has one. -/
theorem pick_search {m : Nat} {e : Int} {narrow : Bool} {steps : Nat} {s : Int} {j : Nat}
    (hj : j < steps) (h : (pick tie m e narrow (s - j)).isSome) :
    pick tie m e narrow (search tie m e narrow steps s).scale =
      some (search tie m e narrow steps s).digits := by
  induction steps generalizing s j with
  | zero => omega
  | succ n ih =>
    unfold search
    split
    · assumption
    · rename_i hnone
      cases j with
      | zero => simp [hnone] at h
      | succ j =>
        refine ih (j := j) (by omega) ?_
        rwa [show s - 1 - (j : Int) = s - (j + 1 : Nat) by omega]

/-- The last grid of the search is fine enough for a double whose leading bit is worth `2 ^ l`. -/
theorem pow_le_quarter {l : Int} (hlow : -1074 ≤ l) (hhigh : l ≤ 1023) :
    (10 : ℚ) ^ (l * 30103 / 100000 - 21) ≤ 2 ^ (l - 54) := by
  set t := l * 30103 / 100000 - 21 with ht
  have h2 : (1 : ℚ) ≤ 2 := by norm_num
  rcases le_or_gt 0 t with h0 | h0
  · -- three decimal digits are less than ten bits
    have hcube : ((10 : ℚ) ^ t) ^ (3 : ℕ) ≤ (2 ^ (l - 54)) ^ (3 : ℕ) := by
      calc ((10 : ℚ) ^ t) ^ (3 : ℕ) = (10 ^ (3 : ℕ)) ^ t := by
            rw [← zpow_natCast, ← zpow_natCast, ← zpow_mul, ← zpow_mul, mul_comm]
        _ ≤ (2 ^ (10 : ℕ)) ^ t := zpow_le_zpow_left₀ h0 (by norm_num) (by norm_num)
        _ = 2 ^ (10 * t) := by rw [← zpow_natCast, ← zpow_mul]; rfl
        _ ≤ 2 ^ ((l - 54) * 3) := zpow_le_zpow_right₀ h2 (by omega)
        _ = (2 ^ (l - 54)) ^ (3 : ℕ) := by rw [zpow_mul]; rfl
    exact le_of_pow_le_pow_left₀ (by norm_num) (by positivity) hcube
  · -- 28 decimal digits are more than 93 bits
    obtain ⟨n, hn⟩ : ∃ n : Int, t = -n := ⟨-t, by omega⟩
    have hpow : ((2 : ℚ) ^ (54 - l)) ^ (28 : ℕ) ≤ (10 ^ n) ^ (28 : ℕ) := by
      calc ((2 : ℚ) ^ (54 - l)) ^ (28 : ℕ) = 2 ^ ((54 - l) * 28) := by rw [zpow_mul]; rfl
        _ ≤ 2 ^ (93 * n) := zpow_le_zpow_right₀ h2 (by omega)
        _ = (2 ^ (93 : ℕ)) ^ n := by rw [← zpow_natCast, ← zpow_mul]; rfl
        _ ≤ (10 ^ (28 : ℕ)) ^ n := zpow_le_zpow_left₀ (by omega) (by norm_num) (by norm_num)
        _ = (10 ^ n) ^ (28 : ℕ) := by
            rw [← zpow_natCast, ← zpow_natCast, ← zpow_mul, ← zpow_mul, mul_comm]
    have hle := le_of_pow_le_pow_left₀ (by norm_num) (by positivity) hpow
    rw [hn, zpow_neg, show l - 54 = -(54 - l) by ring, zpow_neg]
    exact inv_anti₀ (by positivity) hle

theorem log2_sigAt_le (k : Nat) : (sigAt k).log2 ≤ 52 := by
  have hlt : sigAt k < 2 ^ 53 := sigAt_lt k
  by_cases h0 : sigAt k = 0
  · simp [h0]
  · have := (Nat.log2_lt h0).2 hlt
    omega

/-- **The shortest digits of a finite double round to it.** -/
theorem shortest_roundsTo {x : Double} (hf : x.isFinite) (h0 : ¬ x.isZero) :
    RoundsTo x.magnitude (shortest tie x).toRat := by
  set k := x.magnitude with hk
  have hpos : 0 < k := by
    simp only [isZero, beq_iff_eq] at h0
    omega
  have hfin : k < infinite := by simpa [isFinite] using hf
  have hlog := log2_sigAt_le k
  have hlow : -1074 ≤ exponentAt k := by simp only [exponentAt]; omega
  have hhigh : exponentAt k ≤ 971 := by
    simp only [exponentAt, infinite, implicitBit] at hfin ⊢; omega
  have hnarrow : (sigAt k == implicitBit && decide (1 < k / implicitBit)) =
      decide (NarrowAt k) := by
    rw [Bool.eq_iff_iff, decide_eq_true_iff]; simp [NarrowAt]
  have hstart : shortest tie x = search tie (sigAt k) (exponentAt k) (decide (NarrowAt k)) 24
      (((sigAt k).log2 + exponentAt k) * 30103 / 100000 + 2) := by
    simp only [shortest, significand_eq, exponent_eq, ← hk, hnarrow]
  set l : Int := (sigAt k).log2 + exponentAt k with hl
  have hgrid : (scales (exponentAt k - 2) (l * 30103 / 100000 + 2 - (23 : Nat))).grid ≤
      (scales (exponentAt k - 2) (l * 30103 / 100000 + 2 - (23 : Nat))).unit := by
    have hq := pow_le_quarter (l := l) (by omega) (by omega)
    have hle : (2 : ℚ) ^ (l - 54) ≤ 2 ^ (exponentAt k - 2) :=
      zpow_le_zpow_right₀ (by norm_num) (by omega)
    have := (grid_le_unit_iff (exponentAt k - 2) (l * 30103 / 100000 + 2 - (23 : Nat)) 1 1).2 (by
      push_cast
      rw [one_mul, one_mul, show l * 30103 / 100000 + 2 - 23 = l * 30103 / 100000 - 21 by ring]
      exact hq.trans hle)
    simpa using this
  have hpick := pick_search (show 23 < 24 by omega)
    (pick_isSome tie (sigAt_pos hpos) (decide (NarrowAt k)) hgrid)
  rw [← hstart] at hpick
  exact (rounds_iff hpos _ _).1 (rounds_of_pick hpick)

/-- This double is half way between two decimals of 16 digits, and both round to it. -/
example : (shortest .toEven ⟨0x3FE0001000000000⟩).digits = 5000076293945312 ∧
    (shortest .upward ⟨0x3FE0001000000000⟩).digits = 5000076293945313 := by decide +kernel

end Quorum.Decimal
