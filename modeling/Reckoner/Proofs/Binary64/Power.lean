import Reckoner.Binary64.Power
import Reckoner.Proofs.Binary64.Overflow
import Reckoner.Proofs.Enclosure.BinaryLogarithm

/-!
# When a power is too great

A power is at least the bound of overflow exactly if its logarithm is at least that of the bound. Bounds that are
apart decide it, because the logarithm of the bound is never one of them (`mul_logb_overflowBound_ne`); where they
are not, whole powers do (`wholePowersOverflow_iff`). What is not too great is a finite number
(`magnitudePower_cases`).
-/

namespace Reckoner.Binary64

open LogBounds (Encloses encloses_ofScaled)

variable {m n : ℕ} {e f : ℤ} {inverse : Bool}

/-- The bound as a whole number. The exponent is a variable so that no proof writes its power out. -/
theorem overflowBound_eq_cast {j : ℕ} (hj : j = 970) : (overflowBound : ℝ) = (leastOverflow * 2 ^ j : ℕ) := by
  have hplace : (971 : ℤ) = j + 1 := by omega
  rw [overflowBound, hplace, leastOverflow]
  push_cast
  rw [zpow_add_one₀ two_ne_zero, zpow_natCast]
  ring

/-- The bound is no root of a power of two, as three divides it. -/
theorem mul_logb_overflowBound_ne {k : ℕ} (hk : 0 < k) (z : ℤ) : (k : ℝ) * Real.logb 2 overflowBound ≠ z := by
  intro h
  have hz : (0 : ℝ) < z := by
    rw [← h]
    exact mul_pos (by exact_mod_cast hk) (Real.logb_pos one_lt_two one_lt_cast_overflowBound)
  obtain ⟨j, rfl⟩ := Int.eq_ofNat_of_zero_le (by exact_mod_cast hz.le : 0 ≤ z)
  have hpower : (overflowBound : ℝ) ^ k = 2 ^ j := by
    rw [← Real.rpow_natCast, ← Real.rpow_natCast, ← Int.cast_natCast j, ← h, mul_comm (k : ℝ),
      Real.rpow_mul zero_le_two, Real.rpow_logb zero_lt_two (by norm_num) cast_overflowBound_pos]
  obtain ⟨i, hi⟩ : ∃ i, i = 970 := ⟨_, rfl⟩
  rw [overflowBound_eq_cast hi] at hpower
  have hpower : (leastOverflow * 2 ^ i) ^ k = 2 ^ j := by exact_mod_cast hpower
  have hthree : 3 ∣ leastOverflow := by decide
  have hdvd : 3 ∣ 2 ^ j := by
    rw [← hpower]
    exact dvd_pow (hthree.mul_right _) hk.ne'
  exact absurd (Nat.prime_three.dvd_of_dvd_pow hdvd) (by norm_num)

/-! ## Powers as exponents -/

theorem magnitude_pos (hm : 0 < m) (e : ℤ) : (0 : ℝ) < m * 2 ^ e := by
  have hm' : (0 : ℝ) < m := by exact_mod_cast hm
  positivity

theorem overflowBound_le_rpow_iff_logb {b : ℝ} (hb : 0 < b) (inverse : Bool) (n : ℕ) (f : ℤ) :
    (overflowBound : ℝ) ≤ b ^ (signFactor inverse * (n * 2 ^ f) : ℝ) ↔
      Real.logb 2 overflowBound * (2 ^ (-f).toNat : ℤ) ≤ signFactor inverse * Real.logb 2 b * (n * 2 ^ f.toNat : ℤ) := by
  have hroot : (0 : ℝ) < (2 ^ (-f).toNat : ℤ) := by positivity
  rw [← Real.logb_le_logb (b := 2) one_lt_two cast_overflowBound_pos (by positivity),
    Real.logb_rpow_eq_mul_logb_of_pos hb, mul_two_zpow, ← le_div_iff₀ hroot]
  refine iff_of_eq (congrArg _ ?_)
  push_cast
  ring

theorem overflowBound_le_rpow_iff_pow {b : ℝ} (hb : 0 < b) (inverse : Bool) (n : ℕ) (f : ℤ) :
    (overflowBound : ℝ) ≤ b ^ (signFactor inverse * (n * 2 ^ f) : ℝ) ↔
      (overflowBound : ℝ) ^ 2 ^ (-f).toNat ≤ (b ^ (n * 2 ^ f.toNat)) ^ signFactor inverse := by
  have hpower : (b ^ (signFactor inverse * (n * 2 ^ f) : ℝ)) ^ 2 ^ (-f).toNat =
      (b ^ (n * 2 ^ f.toNat)) ^ signFactor inverse := by
    calc (b ^ (signFactor inverse * (n * 2 ^ f) : ℝ)) ^ 2 ^ (-f).toNat
      _ = b ^ (signFactor inverse * (n * 2 ^ f) * (2 ^ (-f).toNat : ℕ) : ℝ) := (Real.rpow_mul_natCast hb.le _ _).symm
      _ = b ^ ((n * 2 ^ f.toNat : ℕ) * signFactor inverse : ℝ) := by
        rw [mul_two_zpow]
        congr 1
        field_simp
      _ = (b ^ (n * 2 ^ f.toNat)) ^ signFactor inverse := by
        rw [Real.rpow_mul hb.le, Real.rpow_natCast, Real.rpow_intCast]
  rw [← hpower, pow_le_pow_iff_left₀ cast_overflowBound_pos.le (by positivity) (Nat.two_pow_pos _).ne']

theorem wholePowersOverflow_iff (hm : 0 < m) :
    wholePowersOverflow m e inverse n f = true ↔
      (overflowBound : ℝ) ≤ ((m : ℝ) * 2 ^ e) ^ (signFactor inverse * (n * 2 ^ f) : ℝ) := by
  have hm' : (0 : ℝ) < m := by exact_mod_cast hm
  rw [overflowBound_le_rpow_iff_pow (magnitude_pos hm e)]
  unfold wholePowersOverflow
  generalize n * 2 ^ f.toNat = power, 2 ^ (-f).toNat = root
  obtain ⟨i, hi⟩ : ∃ i, i = 970 := ⟨_, rfl⟩
  rw [← hi, overflowBound_eq_cast hi]
  generalize leastOverflow * 2 ^ i = bound
  obtain ⟨up, hup⟩ : ∃ up, up = m ^ power * 2 ^ (e.toNat * power) := ⟨_, rfl⟩
  obtain ⟨down, hdown⟩ : ∃ down, down = 2 ^ ((-e).toNat * power) := ⟨_, rfl⟩
  have hquotient : ((m : ℝ) * 2 ^ e) ^ power = (up : ℝ) / down := by
    rw [mul_two_zpow, div_pow, hup, hdown]
    push_cast
    ring
  have hup' : (0 : ℝ) < up := by
    rw [hup]
    positivity
  have hdown' : (0 : ℝ) < down := by
    rw [hdown]
    positivity
  simp only [← hup, ← hdown, hquotient]
  cases inverse with
  | false =>
    simp only [signFactor, Bool.false_eq_true, if_false, decide_eq_true_eq, zpow_one, le_div_iff₀ hdown']
    norm_cast
  | true =>
    simp only [signFactor, if_true, decide_eq_true_eq, zpow_neg_one, inv_div, le_div_iff₀ hup']
    norm_cast

/-! ## Overflow by logarithms -/

theorem encloses_overflowBound :
    (LogBounds.ofScaled leastOverflow 970).Encloses (2 ^ 256 * Real.logb 2 overflowBound) := by
  obtain ⟨i, hi⟩ : ∃ i, i = 970 := ⟨_, rfl⟩
  have hplace : (970 : ℤ) = i := by omega
  have hvalue : (overflowBound : ℝ) = leastOverflow * 2 ^ (i : ℤ) := by
    rw [overflowBound_eq_cast hi, Nat.cast_mul, Nat.cast_pow, Nat.cast_ofNat, zpow_natCast]
  rw [hplace, hvalue]
  exact encloses_ofScaled (by decide) i

theorem overflowBound_lo_lt :
    ((LogBounds.ofScaled leastOverflow 970).lo : ℝ) < 2 ^ 256 * Real.logb 2 overflowBound := by
  refine lt_of_le_of_ne encloses_overflowBound.lo_le fun h => ?_
  have hne := mul_logb_overflowBound_ne (Nat.two_pow_pos 256) (LogBounds.ofScaled leastOverflow 970).lo
  rw [Nat.cast_pow, Nat.cast_ofNat] at hne
  exact hne h.symm

/-- The comparison of logarithms, and of whole powers where it leaves the matter open, tells the powers that are
too great. -/
theorem powerOverflows_iff (hm : 0 < m) :
    powerOverflows m e inverse n f = true ↔
      RoundsBeyond (((m : ℝ) * 2 ^ e) ^ (signFactor inverse * (n * 2 ^ f) : ℝ)) := by
  have hb := magnitude_pos hm e
  have hscale : (0 : ℝ) < 2 ^ 256 := by positivity
  have hbase := (encloses_ofScaled hm e).negIf inverse
  have hsigned : (if inverse then -(2 ^ 256 * Real.logb 2 (m * 2 ^ e)) else 2 ^ 256 * Real.logb 2 (m * 2 ^ e)) =
      2 ^ 256 * (signFactor inverse * Real.logb 2 (m * 2 ^ e)) := by
    cases inverse <;> simp [signFactor]
  have htimes : (0 : ℤ) ≤ n * 2 ^ f.toNat := by positivity
  have hroot : (0 : ℤ) < 2 ^ (-f).toNat := by positivity
  rw [hsigned] at hbase
  have hbound := encloses_overflowBound
  have hstrict := overflowBound_lo_lt
  rw [roundsBeyond_iff]
  simp only [powerOverflows]
  -- the bounds stay names, which no later step can evaluate
  generalize (if inverse then (LogBounds.ofScaled m e).neg else LogBounds.ofScaled m e) = base at hbase ⊢
  generalize LogBounds.ofScaled leastOverflow 970 = bound at hbound hstrict ⊢
  split
  · rename_i hover
    refine iff_of_true rfl ((overflowBound_le_rpow_iff_logb hb inverse n f).2 ?_)
    exact hbound.mul_le_mul hscale hbase hroot.le htimes hover
  split
  · rename_i hunder
    refine iff_of_false (by simp) (mt (overflowBound_le_rpow_iff_logb hb inverse n f).1 (not_le.2 ?_))
    exact hbase.mul_lt_mul hscale hstrict htimes hroot hunder
  · exact wholePowersOverflow_iff hm

/-! ## Powers that are not too great -/

theorem powerOfTwo_ne_nan (e : ℤ) : powerOfTwo e ≠ .nan := by
  unfold powerOfTwo
  split_ifs
  · simp [zero]
  · simp
  · exact ofQuotient_ne_nan _ _ _

theorem wholePower_ne_nan {a n : ℕ} {b : ℤ} {x : Binary64} (h : wholePower a b inverse n = some x) : x ≠ .nan := by
  unfold wholePower at h
  generalize (if inverse then -(b * n) else b * n) = e at h
  simp only at h
  split_ifs at h <;> cases h
  · exact powerOfTwo_ne_nan _
  · exact ofQuotient_ne_nan _ _ _
  · exact ofQuotient_ne_nan _ _ _

theorem boundaryPower_ne_nan {x : Binary64} (h : boundaryPower m e inverse n f = some x) : x ≠ .nan := by
  simp only [boundaryPower] at h
  split at h
  · cases h
  · exact wholePower_ne_nan h

theorem settle_ne_nan (enclose : ℕ → SignedEnclosure) (p tries : ℕ) :
    SignedEnclosure.settle enclose p tries ≠ .nan := by
  induction tries generalizing p with
  | zero => exact ofQuotient_ne_nan _ _ _
  | succ tries ih =>
    rw [SignedEnclosure.settle]
    split
    · exact ofQuotient_ne_nan _ _ _
    · exact ih _

theorem isFinite_clamp {x : Binary64} (h : x ≠ .nan) : x.clamp.isFinite = true := by
  cases x with
  | nan => exact absurd rfl h
  | infinite negative => rfl
  | finite negative m e h => rfl

/-- A power is infinite or finite as it is too great or not. -/
theorem magnitudePower_cases (m : ℕ) (e : ℤ) (inverse : Bool) (n : ℕ) (f : ℤ) :
    powerOverflows m e inverse n f = true ∧ magnitudePower m e inverse n f = .infinite false ∨
    powerOverflows m e inverse n f = false ∧ (magnitudePower m e inverse n f).isFinite = true := by
  cases hover : powerOverflows m e inverse n f with
  | true => exact Or.inl ⟨rfl, by simp only [magnitudePower, hover, if_true]⟩
  | false =>
    refine Or.inr ⟨rfl, ?_⟩
    simp only [magnitudePower, hover, Bool.false_eq_true, if_false]
    split
    · rename_i x hx
      exact isFinite_clamp (boundaryPower_ne_nan hx)
    split
    · rfl
    · exact isFinite_clamp (settle_ne_nan _ _ _)

end Reckoner.Binary64
