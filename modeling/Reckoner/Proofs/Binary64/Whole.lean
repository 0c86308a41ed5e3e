import Mathlib.Data.Nat.Cast.Field
import Reckoner.Proofs.Binary64.Sign

/-!
# Whole numbers

Every whole number of magnitude up to 2^53 has the stored form (`exists_canonical`), so that sums and products of
whole numbers are exact as long as they are no greater.
-/

namespace Reckoner.Binary64

/-! ## The whole number that a number is -/

/-- The whole number that a number is equal to, if it is one. -/
def whole? : Binary64 → Option ℤ
  | .finite negative m e _ =>
    if m * 2 ^ e.toNat % 2 ^ (-e).toNat = 0 then
      some (signFactor negative * (m * 2 ^ e.toNat / 2 ^ (-e).toNat : ℕ))
    else none
  | _ => none

variable {m n : ℕ} {e : ℤ} {h : Canonical m e} {negative : Bool} {x y : Binary64} {a b z : ℤ}

theorem whole?_finite : (finite negative m e h).whole? = some z ↔ (z : ℚ) = signFactor negative * (m * 2 ^ e) := by
  have hd : ((2 ^ (-e).toNat : ℕ) : ℚ) ≠ 0 := by positivity
  rw [mul_two_zpow]
  constructor
  · intro hz
    rw [whole?, Option.ite_none_right_eq_some, Option.some_inj] at hz
    obtain ⟨hdvd, rfl⟩ := hz
    rw [Int.cast_mul, Int.cast_natCast, Nat.cast_div (Nat.dvd_of_mod_eq_zero hdvd) hd]
  · intro hz
    have hcross : z * (2 ^ (-e).toNat : ℕ) = signFactor negative * (m * 2 ^ e.toNat : ℕ) := by
      rw [mul_div_assoc', eq_div_iff hd] at hz
      exact_mod_cast hz
    have hmagnitude : z.natAbs * 2 ^ (-e).toNat = m * 2 ^ e.toNat := by
      have := congrArg Int.natAbs hcross
      rwa [natAbs_signFactor_mul, Int.natAbs_mul, Int.natAbs_natCast, Int.natAbs_natCast] at this
    have hpos : 0 < 2 ^ (-e).toNat := Nat.two_pow_pos _
    have hwhole : z = signFactor negative * z.natAbs := by
      rw [← hmagnitude, Nat.cast_mul, ← mul_assoc] at hcross
      exact mul_right_cancel₀ (by exact_mod_cast hpos.ne') hcross
    rw [whole?, ← hmagnitude, if_pos (Nat.mul_mod_left _ _), Nat.mul_div_cancel _ hpos, ← hwhole]

/-- Only finite numbers are whole. -/
theorem exists_finite_of_whole? (hx : x.whole? = some z) : ∃ negative m e h, x = .finite negative m e h := by
  cases x with
  | nan => cases hx
  | infinite negative => cases hx
  | finite negative m e h => exact ⟨negative, m, e, h, rfl⟩

/-- Whole numbers up to 2^53 have the stored form. -/
theorem exists_canonical {k : ℕ} (hk : k ≤ 2 ^ 53) : ∃ m e, Canonical m e ∧ (m : ℚ) * 2 ^ e = k := by
  rcases Nat.eq_zero_or_pos k with rfl | hpos
  · exact ⟨0, -1074, by decide, by simp⟩
  rcases hk.eq_or_lt with rfl | hlt
  · exact ⟨2 ^ 52, 1, by decide, by norm_num⟩
  have hlog : k.log2 ≤ 52 := Nat.lt_succ_iff.1 ((Nat.log2_lt hpos.ne').2 hlt)
  -- the leading bit moves to place 52
  have hlow : 2 ^ 52 ≤ k * 2 ^ (52 - k.log2) := by
    calc 2 ^ 52
        _ = 2 ^ k.log2 * 2 ^ (52 - k.log2) := by rw [← pow_add, Nat.add_sub_cancel' hlog]
        _ ≤ k * 2 ^ (52 - k.log2) := Nat.mul_le_mul_right _ (Nat.log2_self_le hpos.ne')
  have hhigh : k * 2 ^ (52 - k.log2) < 2 ^ 53 := by
    calc k * 2 ^ (52 - k.log2)
        _ < 2 ^ (k.log2 + 1) * 2 ^ (52 - k.log2) := Nat.mul_lt_mul_of_pos_right Nat.lt_log2_self (Nat.two_pow_pos _)
        _ = 2 ^ 53 := by rw [← pow_add]; congr 1; omega
  refine ⟨k * 2 ^ (52 - k.log2), k.log2 - 52, ⟨hhigh, by omega, by omega, .inl hlow⟩, ?_⟩
  have hexp : ((k.log2 : ℤ) - 52) = -((52 - k.log2 : ℕ) : ℤ) := by omega
  rw [hexp, zpow_neg, zpow_natCast]
  push_cast
  field_simp

/-! ## Exact operations -/

/-- A whole quotient is not rounded. -/
theorem whole?_ofQuotient {n d k : ℕ} (hd : 0 < d) (hk : k ≤ 2 ^ 53) (hv : (n : ℚ) / d = k) (negative : Bool) :
    (ofQuotient negative n d).whole? = some (signFactor negative * k) := by
  obtain ⟨m, e, h, hme⟩ := exists_canonical hk
  rw [ofQuotient_of_canonical negative h hd (hv.trans hme.symm), whole?_finite, hme]
  push_cast
  rfl

theorem whole?_ofScaled {k : ℕ} (hk : k ≤ 2 ^ 53) (hv : (n : ℚ) * 2 ^ e = k) (negative : Bool) :
    (ofScaled negative n e).whole? = some (signFactor negative * k) :=
  whole?_ofQuotient (Nat.two_pow_pos _) hk (by rw [← mul_two_zpow, hv]) negative

/-- The product of whole numbers is exact if it is not too great. -/
theorem whole?_mul (hx : x.whole? = some a) (hy : y.whole? = some b) (hab : (a * b).natAbs ≤ 2 ^ 53) :
    (x.mul y).whole? = some (a * b) := by
  obtain ⟨s, m, e, hme, rfl⟩ := exists_finite_of_whole? hx
  obtain ⟨t, n, f, hnf, rfl⟩ := exists_finite_of_whole? hy
  rw [whole?_finite] at hx hy
  have hproduct : ((a * b : ℤ) : ℚ) = signFactor (s ^^ t) * (((m * n : ℕ) : ℚ) * 2 ^ (e + f)) := by
    rw [signFactor_xor, zpow_add₀ two_ne_zero]
    push_cast
    rw [hx, hy]
    ring
  have hmagnitude : ((m * n : ℕ) : ℚ) * 2 ^ (e + f) = (a * b).natAbs := by
    have hpos : (0 : ℚ) ≤ ((m * n : ℕ) : ℚ) * 2 ^ (e + f) := by positivity
    rw [Nat.cast_natAbs, Int.cast_abs, hproduct, abs_mul, abs_of_nonneg hpos]
    cases s <;> cases t <;> simp [signFactor]
  have hwhole : a * b = signFactor (s ^^ t) * (a * b).natAbs := by
    rw [hmagnitude, ← Int.cast_natCast, ← Int.cast_mul, Int.cast_inj] at hproduct
    exact hproduct
  rw [hwhole]
  exact whole?_ofScaled hab hmagnitude _

theorem signedShift_eq (s : Bool) (m k : ℕ) : signedShift s m k = signFactor s * (m * 2 ^ k : ℕ) := by
  cases s <;> simp [signedShift, signFactor]

/-- A term in units of a lower place. -/
theorem signedShift_mul_zpow (s : Bool) (m : ℕ) {e low : ℤ} (hlow : low ≤ e) :
    (signedShift s m (e - low).toNat : ℚ) * 2 ^ low = signFactor s * (m * 2 ^ e) := by
  have hexp : (2 : ℚ) ^ (e - low).toNat * 2 ^ low = 2 ^ e := by
    rw [← zpow_natCast, ← zpow_add₀ two_ne_zero]
    congr 1
    omega
  rw [signedShift_eq, ← hexp]
  push_cast
  ring

/-- The sum of whole numbers is exact if it is not too great. -/
theorem whole?_add (hx : x.whole? = some a) (hy : y.whole? = some b) (hab : (a + b).natAbs ≤ 2 ^ 53) :
    (x.add y).whole? = some (a + b) := by
  obtain ⟨s, m, e, hme, rfl⟩ := exists_finite_of_whole? hx
  obtain ⟨t, n, f, hnf, rfl⟩ := exists_finite_of_whole? hy
  rw [whole?_finite] at hx hy
  rw [add]
  obtain ⟨low, hlow⟩ : ∃ low, low = min e f := ⟨_, rfl⟩
  obtain ⟨sum, hsum⟩ : ∃ sum, sum = signedShift s m (e - low).toNat + signedShift t n (f - low).toNat := ⟨_, rfl⟩
  simp only [← hlow, ← hsum]
  have hpos : (0 : ℚ) < 2 ^ low := by positivity
  have hvalue : (sum : ℚ) * 2 ^ low = (a + b : ℤ) := by
    rw [hsum]
    push_cast
    rw [add_mul, signedShift_mul_zpow s m (by omega), signedShift_mul_zpow t n (by omega), hx, hy]
  split
  · rename_i hzero
    rw [hzero, Int.cast_zero, zero_mul] at hvalue
    rw [← (by exact_mod_cast hvalue : (0 : ℤ) = a + b), zero, whole?_finite]
    simp
  · have hmagnitude : (sum.natAbs : ℚ) * 2 ^ low = (a + b).natAbs := by
      rw [Nat.cast_natAbs, Int.cast_abs, Nat.cast_natAbs, Int.cast_abs, ← hvalue, abs_mul, abs_of_pos hpos]
    -- the scaled sum has the sign of the sum
    have hsign : sum < 0 ↔ a + b < 0 := by
      have : (sum : ℚ) < 0 ↔ ((a + b : ℤ) : ℚ) < 0 := by rw [← hvalue, mul_neg_iff]; simp [hpos, hpos.not_gt]
      exact_mod_cast this
    rw [whole?_ofScaled hab hmagnitude, decide_eq_decide.2 hsign, signFactor_mul_natAbs]

end Reckoner.Binary64
