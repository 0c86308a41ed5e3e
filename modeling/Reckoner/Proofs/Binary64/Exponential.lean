import Mathlib.Analysis.SpecialFunctions.Log.Deriv
import Reckoner.Binary64.Elementary
import Reckoner.Proofs.Binary64.Overflow

/-!
# When the exponential is too great

The logarithm of the bound of overflow lies between the greatest argument whose exponential is finite and the
next greater number of the format (`log_overflowBound`), for which the logarithm of two is enclosed to more than
fifty bits by the series of the inverse hyperbolic tangent.
-/

namespace Reckoner.Binary64

variable {m n : ℕ} {e f : ℤ}

/-! ## Logarithms -/

theorem log_two_bounds :
    (greatestExponent + 1 / 5 : ℝ) / 2 ^ 53 < Real.log 2 ∧ Real.log 2 < (greatestExponent + 1 : ℝ) / 2 ^ 53 := by
  have hthird : (1 + 1 / 3) / (1 - 1 / 3 : ℝ) = 2 := by norm_num
  have hlow := Real.sum_range_le_log_div (x := 1 / 3) (by norm_num) (by norm_num) 18
  have hhigh := Real.log_div_le_sum_range_add (x := 1 / 3) (by norm_num) (by norm_num) 18
  rw [hthird] at hlow hhigh
  rw [greatestExponent]
  constructor
  · norm_num [Finset.sum_range_succ] at hlow ⊢
    linarith
  · norm_num [Finset.sum_range_succ] at hhigh ⊢
    linarith

/-- The bound of overflow is `2 ^ 1024` less a 2^54th part of it. -/
theorem overflowBound_eq : (overflowBound : ℝ) = 2 ^ (1024 : ℤ) * (1 - 2 ^ (-54 : ℤ)) := by
  have hparts : (2 : ℝ) ^ (1024 : ℤ) = 2 ^ 53 * 2 ^ (971 : ℤ) := by
    rw [← zpow_natCast, ← zpow_add₀ (by norm_num)]
    norm_num
  rw [overflowBound, hparts, Rat.cast_mul, Rat.cast_zpow, Rat.cast_ofNat]
  generalize (2 : ℝ) ^ (971 : ℤ) = unit
  norm_num
  ring

theorem log_overflowBound :
    (greatestExponent : ℝ) * 2 ^ (-43 : ℤ) < Real.log overflowBound ∧
    Real.log overflowBound < (greatestExponent + 1 : ℝ) * 2 ^ (-43 : ℤ) := by
  have hlog : Real.log overflowBound = 1024 * Real.log 2 + Real.log (1 - 2 ^ (-54 : ℤ)) := by
    rw [overflowBound_eq, Real.log_mul (by positivity) (by norm_num), Real.log_zpow]
    norm_num
  have hlow := Real.one_sub_inv_le_log_of_pos (x := 1 - 2 ^ (-54 : ℤ)) (by norm_num)
  have hhigh : Real.log (1 - 2 ^ (-54 : ℤ)) < 0 := Real.log_neg (by norm_num) (by norm_num)
  obtain ⟨htwo, htwo'⟩ := log_two_bounds
  rw [hlog]
  rw [greatestExponent] at *
  constructor
  · norm_num at *
    linarith
  · norm_num at *
    linarith

/-! ## The exponential -/

theorem magnitudeExceeds_iff : magnitudeExceeds m e n f = true ↔ (n : ℝ) * 2 ^ f < m * 2 ^ e := by
  obtain ⟨low, hlow⟩ : ∃ low, low = min e f := ⟨_, rfl⟩
  have hpos : (0 : ℝ) < 2 ^ low := by positivity
  have he := two_zpow_of_le (k := e) (l := low) (by omega)
  have hf := two_zpow_of_le (k := f) (l := low) (by omega)
  rw [he, hf, ← mul_assoc, ← mul_assoc, mul_lt_mul_iff_left₀ hpos]
  simp only [magnitudeExceeds, ← hlow, decide_eq_true_eq]
  norm_cast

/-- No number of the format lies between one with 53 bits and the next one at its place. -/
theorem succ_le_of_lt {k : ℤ} (h : Canonical m e) (hn : 2 ^ 52 ≤ n) (hlt : (n : ℝ) * 2 ^ k < m * 2 ^ e) :
    (n + 1 : ℝ) * 2 ^ k ≤ m * 2 ^ e := by
  have hpos : (0 : ℝ) < 2 ^ k := by positivity
  rcases lt_or_ge e k with hek | hke
  · -- a number at a lower place is less than `2 ^ 52` units of the higher one
    exfalso
    have hm : (m : ℝ) < 2 ^ 53 := by exact_mod_cast h.1
    have hn' : (2 : ℝ) ^ 52 ≤ n := by exact_mod_cast hn
    have hless : (m : ℝ) * 2 ^ e < n * 2 ^ k := by
      calc (m : ℝ) * 2 ^ e
        _ ≤ m * 2 ^ (k - 1) := by
          gcongr
          · norm_num
          · omega
        _ < 2 ^ 53 * 2 ^ (k - 1) := by gcongr
        _ = 2 ^ 52 * 2 ^ k := by rw [zpow_sub₀ (by norm_num)]; ring
        _ ≤ n * 2 ^ k := by gcongr
    exact absurd hlt (not_lt.2 hless.le)
  · rw [two_zpow_of_le hke, ← mul_assoc] at hlt ⊢
    have hless : n < m * 2 ^ (e - k).toNat := by exact_mod_cast (mul_lt_mul_iff_left₀ hpos).1 hlt
    gcongr
    exact_mod_cast hless

theorem expOverflows_iff {x : Binary64} :
    x.expOverflows = true ↔ x.isFinite = true ∧ RoundsBeyond (Real.exp x.toReal) := by
  cases x with
  | nan => simp [expOverflows, isFinite]
  | infinite negative => simp [expOverflows, isFinite]
  | finite negative m e h =>
    rw [roundsBeyond_iff, ← Real.log_le_iff_le_exp cast_overflowBound_pos, isFinite, eq_self, true_and]
    obtain ⟨hlow, hhigh⟩ := log_overflowBound
    cases negative with
    | true =>
      have hnonneg : (0 : ℝ) ≤ m * 2 ^ e := by positivity
      have hgreatest : (0 : ℝ) ≤ greatestExponent * 2 ^ (-43 : ℤ) := by positivity
      refine iff_of_false (by simp [expOverflows]) (not_le.2 ?_)
      simp only [toReal, signFactor, if_true]
      push_cast
      linarith
    | false =>
      have hreal : (finite false m e h).toReal = m * 2 ^ e := by simp [toReal, signFactor]
      rw [hreal, expOverflows, magnitudeExceeds_iff]
      constructor
      · intro hlt
        exact hhigh.le.trans (succ_le_of_lt h (by decide) hlt)
      · intro hle
        exact hlow.trans_le hle

end Reckoner.Binary64
