import Mathlib.Data.Real.Basic
import Reckoner.Proofs.Binary64.Whole

/-!
# The real number of a binary64 number

A finite number stands for `± m * 2 ^ e`. Its sign, and whether it is whole, can be read off the parts that
are stored.
-/

namespace Reckoner

/-- A power of two as a whole multiple of a lower one. -/
theorem two_zpow_of_le {k l : ℤ} (h : l ≤ k) : (2 : ℝ) ^ k = (2 ^ (k - l).toNat : ℕ) * 2 ^ l := by
  rw [Nat.cast_pow, Nat.cast_ofNat, ← zpow_natCast, ← zpow_add₀ (by norm_num)]
  congr 1
  omega

namespace Binary64

/-- The real number that a finite number stands for; nothing else has one. -/
noncomputable def toReal : Binary64 → ℝ
  | .finite negative m e _ => signFactor negative * (m * 2 ^ e)
  | _ => 0

/-- Is the number less than zero, as infinite numbers of that sign are? -/
def IsNegative (x : Binary64) : Prop := x = .infinite true ∨ x.toReal < 0

variable {x : Binary64} {m : ℕ} {e : ℤ} {h : Canonical m e} {negative : Bool}

theorem toReal_eq_zero_iff : (finite negative m e h).toReal = 0 ↔ m = 0 := by
  have hpos : (2 : ℝ) ^ e ≠ 0 := by positivity
  cases negative <;> simp [toReal, signFactor, hpos]

theorem toReal_neg_iff : (finite negative m e h).toReal < 0 ↔ negative = true ∧ m ≠ 0 := by
  have hpos : (0 : ℝ) < 2 ^ e := by positivity
  have hnonneg : (0 : ℝ) ≤ m * 2 ^ e := by positivity
  cases negative with
  | false => simpa [toReal, signFactor] using hnonneg
  | true => simp [toReal, signFactor, hpos, Nat.pos_iff_ne_zero]

theorem abs_toReal : |(finite negative m e h).toReal| = m * 2 ^ e := by
  have hnonneg : (0 : ℝ) ≤ m * 2 ^ e := by positivity
  cases negative <;> simp [toReal, signFactor, abs_of_nonneg hnonneg]

theorem isBelowZero_iff : x.isBelowZero = true ↔ x.IsNegative := by
  cases x with
  | nan => simp [isBelowZero, signBit, IsNegative, toReal]
  | infinite negative => simp [isBelowZero, signBit, isZero, IsNegative, toReal]
  | finite negative m e h => simp [isBelowZero, signBit, isZero, IsNegative, toReal_neg_iff]

theorem isWhole_eq (x : Binary64) : x.isWhole = x.whole?.isSome := by
  cases x with
  | nan => rfl
  | infinite negative => rfl
  | finite negative m e h =>
    have hcase : e.toNat = 0 ∨ (-e).toNat = 0 := by omega
    rcases hcase with hup | hdown
    · simp only [isWhole, whole?, hup, Nat.pow_zero, Nat.mul_one]
      split <;> simp_all
    · simp [isWhole, whole?, hdown, Nat.mod_one]

theorem isWhole_iff : (finite negative m e h).isWhole = true ↔ ∃ k : ℤ, (finite negative m e h).toReal = k := by
  rw [isWhole_eq, Option.isSome_iff_exists]
  refine exists_congr fun k => ?_
  rw [whole?_finite, toReal, eq_comm, ← Rat.cast_inj (α := ℝ)]
  push_cast
  rfl

end Binary64
end Reckoner
