import Mathlib.Algebra.Order.Field.Power
import Mathlib.Data.Rat.Cast.Order
import Mathlib.Tactic.FieldSimp
import Mathlib.Tactic.Linarith
import Mathlib.Tactic.NormNum
import Mathlib.Tactic.Positivity
import Mathlib.Tactic.Ring
import Reckoner.Binary64.Rounding

/-!
# How far rounding goes

A quotient is rounded at the last place of a significand of 53 bits, or at the least exponent (`lastPlace`). A
quotient of the stored form is its own rounding (`ofQuotient_of_canonical`); any other one that is not too great
moves by half a unit of its last place at most, which is a 2^-53rd part of it (`ofQuotient_near`).
-/

namespace Reckoner

/-! ## Powers of two with exponents of both signs -/

section

variable {K : Type} [Field K] [CharZero K]

theorem two_zpow (k : ℤ) : (2 : K) ^ k = (2 ^ k.toNat : ℕ) / (2 ^ (-k).toNat : ℕ) := by
  push_cast
  rw [← zpow_natCast, ← zpow_natCast, ← zpow_sub₀ two_ne_zero]
  congr 1
  omega

theorem mul_two_zpow (n : ℕ) (k : ℤ) : (n : K) * 2 ^ k = (n * 2 ^ k.toNat : ℕ) / (2 ^ (-k).toNat : ℕ) := by
  rw [two_zpow]
  push_cast
  ring

end

/-- The exponent of the leading bit is known from the powers of two on both sides. -/
theorem eq_of_between {x : ℚ} {j k : ℤ} (hj : (2 : ℚ) ^ j ≤ x) (hj' : x < 2 ^ (j + 1)) (hk : (2 : ℚ) ^ k ≤ x)
    (hk' : x < 2 ^ (k + 1)) : j = k := by
  have hlow : j < k + 1 := (zpow_lt_zpow_iff_right₀ (by norm_num)).1 (hj.trans_lt hk')
  have hhigh : k < j + 1 := (zpow_lt_zpow_iff_right₀ (by norm_num)).1 (hk.trans_lt hj')
  omega

theorem leadingExponent_spec {n d : ℕ} (hn : 0 < n) (hd : 0 < d) :
    (2 : ℚ) ^ leadingExponent n d ≤ n / d ∧ (n : ℚ) / d < 2 ^ (leadingExponent n d + 1) := by
  have hd' : (0 : ℚ) < d := by exact_mod_cast hd
  have hn₁ : (2 : ℚ) ^ (n.log2 : ℤ) ≤ n := by exact_mod_cast Nat.log2_self_le hn.ne'
  have hn₂ : (n : ℚ) < 2 ^ ((n.log2 : ℤ) + 1) := by exact_mod_cast Nat.lt_log2_self (n := n)
  have hd₁ : (2 : ℚ) ^ (d.log2 : ℤ) ≤ d := by exact_mod_cast Nat.log2_self_le hd.ne'
  have hd₂ : (d : ℚ) < 2 ^ ((d.log2 : ℤ) + 1) := by exact_mod_cast Nat.lt_log2_self (n := d)
  -- the difference of the two leading exponents is right or one too great
  obtain ⟨k, hk⟩ : ∃ k : ℤ, k = n.log2 - d.log2 := ⟨_, rfl⟩
  have hupper : (n : ℚ) / d < 2 ^ (k + 1) := by
    rw [div_lt_iff₀ hd']
    calc (n : ℚ)
        _ < 2 ^ ((n.log2 : ℤ) + 1) := hn₂
        _ = 2 ^ (k + 1) * 2 ^ (d.log2 : ℤ) := by rw [← zpow_add₀ (by norm_num)]; congr 1; omega
        _ ≤ 2 ^ (k + 1) * d := by gcongr
  have hlower : (2 : ℚ) ^ (k - 1) < n / d := by
    rw [lt_div_iff₀ hd']
    calc (2 : ℚ) ^ (k - 1) * d
        _ < 2 ^ (k - 1) * 2 ^ ((d.log2 : ℤ) + 1) := by gcongr
        _ = 2 ^ (n.log2 : ℤ) := by rw [← zpow_add₀ (by norm_num)]; congr 1; omega
        _ ≤ n := hn₁
  have hle : d * 2 ^ k.toNat ≤ n * 2 ^ (-k).toNat ↔ (2 : ℚ) ^ k ≤ n / d := by
    rw [two_zpow, div_le_div_iff₀ (by positivity) hd']
    norm_cast
    rw [Nat.mul_comm]
  unfold leadingExponent
  simp only [← hk]
  split
  · rename_i h
    exact ⟨hle.1 h, hupper⟩
  · rename_i h
    rw [hle, not_le] at h
    exact ⟨hlower.le, by simpa using h⟩

/-! ## Rounding to whole numbers -/

theorem abs_roundDiv_sub_le {d : ℕ} (hd : 0 < d) (n : ℕ) : |(roundDiv n d : ℚ) - n / d| ≤ 1 / 2 := by
  have hd' : (0 : ℚ) < d := by exact_mod_cast hd
  have hhigh : 2 * ((roundDiv n d : ℚ) * d) ≤ 2 * n + d := by exact_mod_cast roundDiv_le hd n
  have hlow : 2 * (n : ℚ) ≤ 2 * (roundDiv n d * d) + d := by exact_mod_cast le_roundDiv hd n
  have hdiff : (roundDiv n d : ℚ) - n / d = (roundDiv n d * d - n) / d := by field_simp
  rw [hdiff, abs_le, le_div_iff₀ hd', div_le_iff₀ hd']
  constructor <;> linarith

/-- A whole number less than a half away is the nearest one. -/
theorem roundDiv_eq_of_near {n d q : ℕ} (hd : 0 < d) (h : |(q : ℚ) - n / d| < 1 / 2) : roundDiv n d = q := by
  have hround := abs_le.1 (abs_roundDiv_sub_le hd n)
  have hq := abs_lt.1 h
  have hlow : (roundDiv n d : ℚ) < q + 1 := by linarith
  have hhigh : (q : ℚ) < roundDiv n d + 1 := by linarith
  norm_cast at hlow hhigh
  omega

namespace Binary64

/-! ## The last place -/

/-- The exponent of the last place at which `n / d` is rounded. -/
def lastPlace (n d : ℕ) : ℤ := max (leadingExponent n d - 52) (-1074)

/-- The significand of `n / d` before a carry is packed. -/
def significand (n d : ℕ) : ℕ :=
  roundDiv (n * 2 ^ (-lastPlace n d).toNat) (d * 2 ^ (lastPlace n d).toNat)

variable {n d m : ℕ} {e : ℤ}

theorem ofQuotient_eq (negative : Bool) (hn : 0 < n) (d : ℕ) :
    ofQuotient negative n d = ofRounded negative (significand n d) (lastPlace n d) := if_neg hn.ne'

/-- The last place is that of the significand, or the least one. -/
theorem two_zpow_lastPlace_le (hn : 0 < n) (hd : 0 < d) :
    (2 : ℚ) ^ lastPlace n d ≤ max ((n : ℚ) / d / 2 ^ 52) (2 ^ (-1074 : ℤ)) := by
  rcases max_choice (leadingExponent n d - 52) (-1074) with h | h
  · refine le_max_of_le_left ?_
    rw [lastPlace, h, zpow_sub₀ (by norm_num), show (2 : ℚ) ^ (52 : ℤ) = 2 ^ 52 by norm_num]
    gcongr
    exact (leadingExponent_spec hn hd).1
  · refine le_max_of_le_right ?_
    rw [lastPlace, h]

/-- A fraction in units of its last place. -/
theorem div_shifted (n d : ℕ) (k : ℤ) :
    ((n * 2 ^ (-k).toNat : ℕ) : ℚ) / (d * 2 ^ k.toNat : ℕ) = n / d / 2 ^ k := by
  rw [two_zpow]
  push_cast
  field_simp

theorem significand_near (hd : 0 < d) (n : ℕ) :
    |(significand n d : ℚ) - n / d / 2 ^ lastPlace n d| ≤ 1 / 2 := by
  rw [← div_shifted]
  exact abs_roundDiv_sub_le (Nat.mul_pos hd (Nat.two_pow_pos _)) _

/-- A significand has at most 53 bits, or is carried to the next power of two, and has 53 bits above the least place. -/
theorem significand_bounds (hn : 0 < n) (hd : 0 < d) :
    significand n d ≤ 2 ^ 53 ∧ (lastPlace n d ≠ -1074 → 2 ^ 52 ≤ significand n d) := by
  obtain ⟨hlow, hhigh⟩ := leadingExponent_spec hn hd
  obtain ⟨hnear₁, hnear₂⟩ := abs_le.1 (significand_near hd n)
  have hpos : (0 : ℚ) < 2 ^ lastPlace n d := by positivity
  constructor
  · have hscaled : (n : ℚ) / d / 2 ^ lastPlace n d < 2 ^ 53 := by
      rw [div_lt_iff₀ hpos]
      calc (n : ℚ) / d
          _ < 2 ^ (leadingExponent n d + 1) := hhigh
          _ ≤ 2 ^ (53 + lastPlace n d) := by
            refine zpow_le_zpow_right₀ (by norm_num) ?_
            have := le_max_left (leadingExponent n d - 52) (-1074)
            unfold lastPlace
            omega
          _ = 2 ^ 53 * 2 ^ lastPlace n d := by rw [zpow_add₀ (by norm_num)]; norm_num
    have hlt : (significand n d : ℚ) < (2 ^ 53 + 1 : ℕ) := by push_cast; linarith
    exact Nat.lt_succ_iff.1 (by exact_mod_cast hlt)
  · intro hplace
    have he : lastPlace n d = leadingExponent n d - 52 := by
      unfold lastPlace at hplace ⊢
      omega
    have hscaled : (2 : ℚ) ^ 52 ≤ n / d / 2 ^ lastPlace n d := by
      rw [le_div_iff₀ hpos, he, ← zpow_natCast, ← zpow_add₀ (by norm_num)]
      simpa using hlow
    have hlt : ((2 ^ 52 : ℕ) : ℚ) < significand n d + 1 := by push_cast; linarith
    exact Nat.lt_succ_iff.1 (by exact_mod_cast hlt)

/-! ## Quotients of the stored form -/

theorem lastPlace_of_canonical (h : Canonical m e) (hn : 0 < n) (hd : 0 < d) (hv : (n : ℚ) / d = m * 2 ^ e) :
    lastPlace n d = e := by
  obtain ⟨hlow, hhigh⟩ := leadingExponent_spec hn hd
  obtain ⟨hm', he, -, hfull⟩ := h
  have hpos : (0 : ℚ) < 2 ^ e := by positivity
  have hless : (n : ℚ) / d < 2 ^ (52 + e + 1) := by
    rw [hv, show (52 + e + 1 : ℤ) = 53 + e by ring, zpow_add₀ (by norm_num)]
    gcongr
    exact_mod_cast hm'
  rcases hfull with hfull | hleast
  · have hmore : (2 : ℚ) ^ (52 + e) ≤ n / d := by
      rw [hv, zpow_add₀ (by norm_num)]
      gcongr
      exact_mod_cast hfull
    have hlead := eq_of_between hlow hhigh hmore hless
    unfold lastPlace
    omega
  · have hlead : leadingExponent n d < 52 + e + 1 :=
      (zpow_lt_zpow_iff_right₀ (by norm_num)).1 (hlow.trans_lt hless)
    unfold lastPlace
    omega

/-- A number of the stored form is not rounded. -/
theorem ofQuotient_of_canonical (negative : Bool) (h : Canonical m e) (hd : 0 < d) (hv : (n : ℚ) / d = m * 2 ^ e) :
    ofQuotient negative n d = .finite negative m e h := by
  have hd' : (d : ℚ) ≠ 0 := by exact_mod_cast hd.ne'
  rcases Nat.eq_zero_or_pos m with rfl | hm
  · have hn : n = 0 := by
      have : (n : ℚ) = 0 := by simpa [hd'] using hv
      exact_mod_cast this
    obtain rfl : e = -1074 := h.2.2.2.resolve_left (by norm_num)
    exact if_pos hn
  · have hn : 0 < n := by
      have : (0 : ℚ) < n / d := by rw [hv]; positivity
      rcases Nat.eq_zero_or_pos n with rfl | hn
      · simp at this
      · exact hn
    have hplace := lastPlace_of_canonical h hn hd hv
    have hsignificand : significand n d = m := by
      have hwhole : n * 2 ^ (-e).toNat = m * (d * 2 ^ e.toNat) := by
        rw [mul_two_zpow, div_eq_div_iff hd' (by positivity)] at hv
        have hv : n * 2 ^ (-e).toNat = m * 2 ^ e.toNat * d := by exact_mod_cast hv
        rw [hv, Nat.mul_assoc, Nat.mul_comm (2 ^ e.toNat)]
      rw [significand, hplace, hwhole, roundDiv_mul (Nat.mul_pos hd (Nat.two_pow_pos _))]
    rw [ofQuotient_eq negative hn, hplace, hsignificand, ofRounded, if_neg h.1.ne, pack_of_canonical]

/-! ## All quotients that are not too great -/

/-- A quotient moves by half a unit of its last place at most. -/
theorem ofQuotient_near (negative : Bool) (hd : 0 < d) (hsmall : (n : ℚ) / d < 2 ^ (1023 : ℤ)) :
    ∃ m e h, ofQuotient negative n d = .finite negative m e h ∧
      |(m : ℚ) * 2 ^ e - n / d| ≤ max ((n : ℚ) / d / 2 ^ 52) (2 ^ (-1074 : ℤ)) / 2 := by
  rcases Nat.eq_zero_or_pos n with rfl | hn
  · refine ⟨0, -1074, by decide, if_pos rfl, ?_⟩
    rw [Nat.cast_zero, zero_mul, zero_div, sub_zero, abs_zero]
    exact div_nonneg (le_max_of_le_right (zpow_nonneg zero_le_two _)) zero_le_two
  obtain ⟨hmost, hfull⟩ := significand_bounds hn hd
  have hplace : lastPlace n d ≤ 970 := by
    have hlead : leadingExponent n d < 1023 :=
      (zpow_lt_zpow_iff_right₀ (by norm_num)).1 ((leadingExponent_spec hn hd).1.trans_lt hsmall)
    unfold lastPlace
    omega
  have hleast : -1074 ≤ lastPlace n d := le_max_right _ _
  have hnear : |(significand n d : ℚ) * 2 ^ lastPlace n d - n / d| ≤
      max ((n : ℚ) / d / 2 ^ 52) (2 ^ (-1074 : ℤ)) / 2 := by
    have hpos : (0 : ℚ) < 2 ^ lastPlace n d := by positivity
    calc |(significand n d : ℚ) * 2 ^ lastPlace n d - n / d|
        _ = |(significand n d : ℚ) - n / d / 2 ^ lastPlace n d| * 2 ^ lastPlace n d := by
          rw [← abs_of_pos hpos, ← abs_mul, abs_of_pos hpos, sub_mul, div_mul_cancel₀ _ hpos.ne']
        _ ≤ 1 / 2 * 2 ^ lastPlace n d := by gcongr; exact significand_near hd n
        _ ≤ 1 / 2 * max ((n : ℚ) / d / 2 ^ 52) (2 ^ (-1074 : ℤ)) := by gcongr; exact two_zpow_lastPlace_le hn hd
        _ = max ((n : ℚ) / d / 2 ^ 52) (2 ^ (-1074 : ℤ)) / 2 := by ring
  rw [ofQuotient_eq negative hn, ofRounded]
  by_cases hcarry : significand n d = 2 ^ 53
  · have hcanonical : Canonical (2 ^ 52) (lastPlace n d + 1) := ⟨by norm_num, by omega, by omega, .inl le_rfl⟩
    refine ⟨_, _, hcanonical, by rw [if_pos hcarry, pack_of_canonical], ?_⟩
    have hvalue : ((2 ^ 52 : ℕ) : ℚ) * 2 ^ (lastPlace n d + 1) = significand n d * 2 ^ lastPlace n d := by
      rw [hcarry, zpow_add₀ (by norm_num)]
      push_cast
      ring
    rwa [hvalue]
  · have hcanonical : Canonical (significand n d) (lastPlace n d) := by
      refine ⟨by omega, hleast, by omega, ?_⟩
      by_cases h : lastPlace n d = -1074
      · exact .inr h
      · exact .inl (hfull h)
    exact ⟨_, _, hcanonical, by rw [if_neg hcarry, pack_of_canonical], hnear⟩

end Binary64
end Reckoner
