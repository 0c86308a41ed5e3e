import Reckoner.Binary64.Arithmetic
import Reckoner.Binary64.Bits
import Reckoner.Proofs.Binary64.Rounding

/-!
# Signs

The negative of a number has the same bits but for that of the sign (`toBits_neg`). It is the product with minus one,
in which nothing is rounded (`mul_one_true`).
-/

namespace Reckoner

namespace Binary64

/-! ## Signs as factors -/

def signFactor (negative : Bool) : ℤ := if negative then -1 else 1

theorem signFactor_xor (s t : Bool) : signFactor (s ^^ t) = signFactor s * signFactor t := by
  cases s <;> cases t <;> rfl

theorem natAbs_signFactor_mul (s : Bool) (z : ℤ) : (signFactor s * z).natAbs = z.natAbs := by
  cases s <;> simp [signFactor]

theorem signFactor_mul_natAbs (z : ℤ) : signFactor (z < 0) * z.natAbs = z := by
  rcases lt_or_ge z 0 with h | h
  · simp only [signFactor, h, decide_true, if_true]
    omega
  · simp only [signFactor, not_lt.2 h, decide_false, Bool.false_eq_true, if_false]
    omega

/-! ## The sign bit -/

theorem neg_eq_nan_iff {x : Binary64} : x.neg = .nan ↔ x = .nan := by
  cases x <;> simp [neg]

theorem xor_two_pow {k r : ℕ} (h : r < 2 ^ k) : r ^^^ 2 ^ k = 2 ^ k + r := by
  refine Nat.eq_of_testBit_eq fun i => ?_
  rw [Nat.testBit_xor, Nat.testBit_two_pow]
  rcases Nat.lt_trichotomy i k with hi | rfl | hi
  · simp [Nat.testBit_two_pow_add_gt hi, Nat.ne_of_gt hi]
  · simp [Nat.testBit_two_pow_add_eq]
  · have hr : r < 2 ^ i := Nat.lt_trans h (Nat.pow_lt_pow_right (by omega) hi)
    have hsum : 2 ^ k + r < 2 ^ i := by
      have := Nat.pow_le_pow_right (n := 2) (by omega) hi
      rw [Nat.pow_succ] at this
      omega
    simp [Nat.testBit_lt_two_pow hr, Nat.testBit_lt_two_pow hsum, Nat.ne_of_lt hi]

/-- Only the sign bit of a negative is another one. -/
theorem toBits_neg {x : Binary64} (hx : x ≠ .nan) : x.neg.toBits = x.toBits ^^^ 2 ^ 63 := by
  have flip : ∀ (s : Bool) {r : ℕ}, r < 2 ^ 63 → (!s).toNat * 2 ^ 63 + r = (s.toNat * 2 ^ 63 + r) ^^^ 2 ^ 63 := by
    intro s r hr
    cases s with
    | false => simpa using (xor_two_pow hr).symm
    | true =>
      have h := congrArg (· ^^^ 2 ^ 63) (xor_two_pow hr)
      simpa [Nat.xor_assoc] using h
  cases x with
  | nan => exact absurd rfl hx
  | infinite s => exact flip s (by decide)
  | finite s m e h =>
    refine flip s ?_
    obtain ⟨hm, he, he', hn⟩ := h
    split <;> omega

/-! ## Products with minus one -/

/-- A product with minus one flips the sign bit, whatever the number is, and rounds nothing. -/
theorem mul_one_true (x : Binary64) : (one true).mul x = x.neg := by
  cases x with
  | nan => rfl
  | infinite negative => cases negative <;> rfl
  | finite negative m e h =>
    refine (ofQuotient_of_canonical (true ^^ negative) h (Nat.two_pow_pos _) ?_).trans ?_
    · rw [← mul_two_zpow, zpow_add₀ two_ne_zero]
      push_cast
      norm_num
      ring
    · rw [Bool.true_xor]
      rfl

end Binary64
end Reckoner
