import Mathlib
import Quorum.Number.Double

/-!
# The line of magnitudes

A magnitude `k` stands for `sigAt k * unitAt k`. The next magnitude is one unit
further (`valueAt_succ`), so magnitudes are ordered as their values are
(`valueAt_strictMono`). `RoundsTo k q` says that the real `q` lies between the
midpoints on both sides of `k`, an end counting when `k` is even; no `q` rounds to
two magnitudes (`RoundsTo.unique`).
-/

namespace Quorum.Double

/-- A power with an exponent cut off at zero. -/
theorem pow_toNat {b : ℚ} (hb : b ≠ 0) (n : Int) : b ^ n.toNat = b ^ n * b ^ (-n).toNat := by
  rw [← zpow_natCast, ← zpow_natCast, ← zpow_add₀ hb]; congr 1; omega

def sigAt (k : Nat) : Nat := if k / implicitBit = 0 then k else k % implicitBit + implicitBit

def exponentAt (k : Nat) : Int := (max (k / implicitBit) 1 : Nat) - 1075

/-- The distance to the next magnitude. -/
def unitAt (k : Nat) : ℚ := 2 ^ exponentAt k

def valueAt (k : Nat) : ℚ := sigAt k * unitAt k

theorem significand_eq (x : Double) : x.significand = sigAt x.magnitude := rfl

theorem exponent_eq (x : Double) : x.exponent = exponentAt x.magnitude := rfl

theorem unitAt_pos (k : Nat) : 0 < unitAt k := zpow_pos (by norm_num) _

/-- Within a binade the significand counts on; at its end the unit doubles. -/
theorem sigAt_succ (k : Nat) :
    (sigAt (k + 1) = sigAt k + 1 ∧ exponentAt (k + 1) = exponentAt k) ∨
    (sigAt (k + 1) = implicitBit ∧ sigAt k + 1 = 2 * implicitBit ∧
      exponentAt (k + 1) = exponentAt k + 1 ∧ 1 < (k + 1) / implicitBit) := by
  unfold sigAt exponentAt
  split <;> split <;> simp only [implicitBit, true_and] at * <;> omega

theorem valueAt_succ (k : Nat) : valueAt (k + 1) = valueAt k + unitAt k := by
  rcases sigAt_succ k with ⟨hs, he⟩ | ⟨hs, hk, he, -⟩
  · simp only [valueAt, unitAt, hs, he]
    push_cast; ring
  · have hk' : (sigAt k : ℚ) = 2 * implicitBit - 1 := by
      have := congrArg (Nat.cast (R := ℚ)) hk
      push_cast at this; linarith
    simp only [valueAt, unitAt, hs, he, hk', zpow_add_one₀ (two_ne_zero (α := ℚ))]
    ring

theorem valueAt_strictMono : StrictMono valueAt :=
  strictMono_nat_of_lt_succ fun k => by rw [valueAt_succ]; linarith [unitAt_pos k]

/-! ## Rounding -/

/-- The point halfway to the next magnitude. -/
def midAt (k : Nat) : ℚ := valueAt k + unitAt k / 2

theorem midAt_strictMono : StrictMono midAt :=
  strictMono_nat_of_lt_succ fun k => by
    have := unitAt_pos k; have := unitAt_pos (k + 1)
    simp only [midAt, valueAt_succ]; linarith

theorem midAt_pos (k : Nat) : 0 < midAt k := by
  have h0 : midAt 0 ≤ midAt k := midAt_strictMono.monotone (Nat.zero_le k)
  have : 0 < midAt 0 := by
    have := unitAt_pos 0
    have hv : valueAt 0 = 0 := by simp [valueAt, sigAt]
    simp only [midAt, hv]; linarith
  linarith

/-- `q` rounds to the positive magnitude `k`, halves to the even one. -/
def RoundsTo (k : Nat) (q : ℚ) : Prop :=
  if k % 2 = 0 then midAt (k - 1) ≤ q ∧ q ≤ midAt k else midAt (k - 1) < q ∧ q < midAt k

theorem RoundsTo.bounds {k : Nat} {q : ℚ} (h : RoundsTo k q) :
    midAt (k - 1) ≤ q ∧ q ≤ midAt k := by
  unfold RoundsTo at h
  split at h
  · exact h
  · exact ⟨h.1.le, h.2.le⟩

theorem RoundsTo.pos {k : Nat} {q : ℚ} (h : RoundsTo k q) : 0 < q :=
  lt_of_lt_of_le (midAt_pos _) h.bounds.1

theorem RoundsTo.le {j k : Nat} {q : ℚ} (hj : RoundsTo j q) (hk : RoundsTo k q) : k ≤ j := by
  by_contra hlt
  have hmid : midAt (k - 1) ≤ midAt j := hk.bounds.1.trans hj.bounds.2
  -- the two only meet in the midpoint between neighbours, of which one is odd
  have hadj : k = j + 1 := by
    have := midAt_strictMono.le_iff_le.mp hmid
    omega
  subst hadj
  have hq : q = midAt j := le_antisymm hj.bounds.2 (by simpa using hk.bounds.1)
  unfold RoundsTo at hj hk
  rcases Nat.mod_two_eq_zero_or_one j with h | h
  · rw [if_neg (by omega)] at hk
    have := hk.1
    simp only [Nat.add_sub_cancel] at this
    linarith
  · rw [if_neg (by omega)] at hj
    have := hj.2
    linarith

theorem RoundsTo.unique {j k : Nat} {q : ℚ} (hj : RoundsTo j q) (hk : RoundsTo k q) : j = k :=
  Nat.le_antisymm (hk.le hj) (hj.le hk)

/-- Where the magnitude below is only half a unit away. -/
def NarrowAt (k : Nat) : Prop := sigAt k = implicitBit ∧ 1 < k / implicitBit

instance (k : Nat) : Decidable (NarrowAt k) := inferInstanceAs (Decidable (_ ∧ _))

theorem midAt_eq (k : Nat) : midAt k = (4 * sigAt k + 2 : Nat) * (unitAt k / 4) := by
  simp only [midAt, valueAt]; push_cast; ring

theorem sigAt_pos {k : Nat} (h : 0 < k) : 0 < sigAt k := by
  unfold sigAt
  split <;> simp only [implicitBit] at * <;> omega

theorem sigAt_lt (k : Nat) : sigAt k < 2 * implicitBit := by
  unfold sigAt
  split <;> simp only [implicitBit] at * <;> omega

theorem midAt_pred {k : Nat} (hk : 0 < k) :
    midAt (k - 1) = (4 * sigAt k - (if NarrowAt k then 1 else 2) : Nat) * (unitAt k / 4) := by
  obtain ⟨j, rfl⟩ : ∃ j, k = j + 1 := ⟨k - 1, by omega⟩
  rw [Nat.add_sub_cancel]
  have hpos := sigAt_pos hk
  have hv := valueAt_succ j
  rcases sigAt_succ j with ⟨hs, he⟩ | ⟨hs, hsj, he, hb⟩
  · have hn : ¬ NarrowAt (j + 1) := by
      rintro ⟨h1, h2⟩
      have hlow : sigAt j = implicitBit - 1 := by rw [h1] at hs; omega
      unfold exponentAt at he
      unfold sigAt at hlow
      split at hlow <;> simp only [implicitBit] at * <;> omega
    have hu : unitAt (j + 1) = unitAt j := by simp only [unitAt, he]
    rw [if_neg hn, Nat.cast_sub (by omega)]
    simp only [midAt, valueAt, hu] at hv ⊢
    push_cast; linarith
  · have hn : NarrowAt (j + 1) := ⟨hs, hb⟩
    have hu : unitAt (j + 1) = 2 * unitAt j := by
      simp only [unitAt, he, zpow_add_one₀ (two_ne_zero (α := ℚ))]; ring
    rw [if_pos hn, Nat.cast_sub (by omega)]
    simp only [midAt, valueAt, hu] at hv ⊢
    push_cast; linarith

end Quorum.Double
