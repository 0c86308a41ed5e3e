import Mathlib.Algebra.Order.Archimedean.Real.Basic
import Mathlib.Tactic.SplitIfs
import Reckoner.Proofs.Binary64.Real

/-!
# What is rounded to infinity

A fraction is rounded to infinity from halfway between the greatest number and the next power of two on
(`ofQuotient_eq_infinite_iff`), and a real number is rounded beyond the greatest number if all fractions from it
on are (`RoundsBeyond`).
-/

namespace Reckoner

/-- An even number is the nearest one from half a unit below it on. -/
theorem le_roundDiv_iff {n d q : ℕ} (hd : 0 < d) (heven : q % 2 = 0) (hq : 0 < q) :
    q ≤ roundDiv n d ↔ (q : ℚ) - 1 / 2 ≤ n / d := by
  obtain ⟨p, rfl⟩ : ∃ p, q = p + 1 := ⟨q - 1, by omega⟩
  have hd' : (0 : ℚ) < d := by exact_mod_cast hd
  have hhalf : ((p + 1 : ℕ) : ℚ) - 1 / 2 ≤ n / d ↔ 2 * (p * d) + d ≤ 2 * n := by
    rw [le_div_iff₀ hd', ← Nat.cast_le (α := ℚ)]
    push_cast
    constructor <;> intro h <;> linarith
  rw [hhalf]
  constructor
  · intro h
    have hscaled : (p + 1) * d ≤ roundDiv n d * d := Nat.mul_le_mul_right d h
    have hle := roundDiv_le hd n
    rw [Nat.add_mul] at hscaled
    omega
  · intro h
    have hmod := Nat.div_add_mod n d
    have hlt := Nat.mod_lt n hd
    rw [Nat.mul_comm] at hmod
    have hp : p ≤ n / d := (Nat.le_div_iff_mul_le hd).2 (by omega)
    rcases hp.eq_or_lt with hp | hp
    · -- the quotient is odd, so that a tie goes up
      rw [← hp] at hmod
      simp only [roundDiv, ← hp]
      split_ifs <;> omega
    · simp only [roundDiv]
      split_ifs <;> omega

namespace Binary64

variable {n d m : ℕ} {e : ℤ}

theorem pack_ne_nan (negative : Bool) (m : ℕ) (e : ℤ) : pack negative m e ≠ .nan := by
  unfold pack
  split_ifs <;> simp

theorem ofQuotient_ne_nan (negative : Bool) (n d : ℕ) : ofQuotient negative n d ≠ .nan := by
  simp only [ofQuotient, ofRounded]
  split_ifs
  · simp [zero]
  · exact pack_ne_nan _ _ _
  · exact pack_ne_nan _ _ _

theorem pack_eq_infinite_iff {negative : Bool} : pack negative m e = .infinite negative ↔ ¬ Canonical m e := by
  unfold pack
  split_ifs with h <;> simp [h]

/-! ## Fractions -/

/-- The least magnitude that is rounded to infinity, half a unit above the greatest number. -/
def overflowBound : ℚ := (2 ^ 53 - 1 / 2) * 2 ^ (971 : ℤ)

theorem overflowBound_bounds : (2 : ℚ) ^ (1023 : ℤ) ≤ overflowBound ∧ overflowBound ≤ 2 ^ (1024 : ℤ) := by
  rw [overflowBound, show (1023 : ℤ) = 52 + 971 by norm_num, show (1024 : ℤ) = 53 + 971 by norm_num,
    zpow_add₀ (by norm_num), zpow_add₀ (by norm_num)]
  constructor <;> gcongr <;> norm_num

theorem one_lt_overflowBound : 1 < overflowBound :=
  (one_lt_zpow₀ one_lt_two (by norm_num)).trans_le overflowBound_bounds.1

theorem overflowBound_pos : 0 < overflowBound := one_pos.trans one_lt_overflowBound

/-- A rounded significand is too great at a place above the greatest one, or if it has been carried there. -/
theorem ofRounded_eq_infinite_iff (hm : m ≤ 2 ^ 53) (he : -1074 ≤ e) (hfull : e ≠ -1074 → 2 ^ 52 ≤ m) :
    ofRounded false m e = .infinite false ↔ 971 < e ∨ e = 971 ∧ m = 2 ^ 53 := by
  unfold ofRounded
  split_ifs <;>
  · rw [pack_eq_infinite_iff, Canonical]
    omega

/-- At the greatest place a significand is carried from the bound on. -/
theorem significand_eq_iff (hd : 0 < d) (hn : 0 < n) (hplace : lastPlace n d = 971) :
    significand n d = 2 ^ 53 ↔ overflowBound ≤ n / d := by
  have hmost := (significand_bounds hn hd).1
  have hpos : (0 : ℚ) < 2 ^ (971 : ℤ) := by positivity
  have hcarry : 2 ^ 53 ≤ significand n d ↔ ((2 ^ 53 : ℕ) : ℚ) - 1 / 2 ≤ n / d / 2 ^ lastPlace n d := by
    rw [← div_shifted]
    exact le_roundDiv_iff (Nat.mul_pos hd (Nat.two_pow_pos _)) (by norm_num) (by norm_num)
  rw [le_antisymm_iff, and_iff_right hmost, hcarry, hplace, le_div_iff₀ hpos, overflowBound,
    Nat.cast_pow, Nat.cast_ofNat]

theorem ofQuotient_eq_infinite_iff (hd : 0 < d) (n : ℕ) :
    ofQuotient false n d = .infinite false ↔ overflowBound ≤ n / d := by
  rcases Nat.eq_zero_or_pos n with rfl | hn
  · refine iff_of_false (by simp [ofQuotient, zero]) ?_
    simpa using overflowBound_pos
  obtain ⟨hlow, hhigh⟩ := leadingExponent_spec hn hd
  obtain ⟨hmost, hfull⟩ := significand_bounds hn hd
  have hleast : -1074 ≤ lastPlace n d := le_max_right _ _
  rw [ofQuotient_eq false hn, ofRounded_eq_infinite_iff hmost hleast hfull]
  rcases lt_trichotomy (lastPlace n d) 971 with hplace | hplace | hplace
  · refine iff_of_false (by omega) (not_le.2 ?_)
    calc (n : ℚ) / d
      _ < 2 ^ (leadingExponent n d + 1) := hhigh
      _ ≤ 2 ^ (1023 : ℤ) := by
        refine zpow_le_zpow_right₀ (by norm_num) ?_
        have := le_max_left (leadingExponent n d - 52) (-1074)
        unfold lastPlace at hplace
        omega
      _ ≤ overflowBound := overflowBound_bounds.1
  · rw [← significand_eq_iff hd hn hplace]
    simp [hplace]
  · refine iff_of_true (Or.inl hplace) ?_
    calc overflowBound
      _ ≤ 2 ^ (1024 : ℤ) := overflowBound_bounds.2
      _ ≤ 2 ^ leadingExponent n d := by
        refine zpow_le_zpow_right₀ (by norm_num) ?_
        unfold lastPlace at hplace
        omega
      _ ≤ n / d := hlow

/-! ## Real numbers -/

theorem one_lt_cast_overflowBound : (1 : ℝ) < overflowBound := by exact_mod_cast one_lt_overflowBound

theorem cast_overflowBound_pos : (0 : ℝ) < overflowBound := one_pos.trans one_lt_cast_overflowBound

/-- Is the real number rounded beyond the greatest number, as every fraction from it on is? -/
def RoundsBeyond (r : ℝ) : Prop := ∀ n d : ℕ, 0 < d → r ≤ n / d → ofQuotient false n d = .infinite false

theorem exists_fraction_between {r s : ℝ} (hrs : r < s) (hs : 0 < s) :
    ∃ n d : ℕ, 0 < d ∧ r ≤ n / d ∧ (n : ℝ) / d < s := by
  obtain ⟨q, hq, hqs⟩ := exists_rat_btwn (max_lt hrs hs)
  have hpos : 0 < q := by exact_mod_cast (le_max_right r 0).trans_lt hq
  have hfraction : (q : ℝ) = (q.num.toNat : ℝ) / q.den := by
    rw [Rat.cast_def, ← Int.cast_natCast q.num.toNat, Int.toNat_of_nonneg (Rat.num_nonneg.2 hpos.le)]
  refine ⟨q.num.toNat, q.den, q.pos, ?_, ?_⟩
  · rw [← hfraction]
    exact (le_max_left r 0).trans hq.le
  · rw [← hfraction]
    exact hqs

theorem roundsBeyond_iff {r : ℝ} : RoundsBeyond r ↔ (overflowBound : ℝ) ≤ r := by
  constructor
  · intro h
    by_contra hless
    obtain ⟨n, d, hd, hr, hbound⟩ := exists_fraction_between (not_le.1 hless) cast_overflowBound_pos
    have hinfinite := (ofQuotient_eq_infinite_iff hd n).1 (h n d hd hr)
    rw [← Rat.cast_le (K := ℝ)] at hinfinite
    push_cast at hinfinite
    exact absurd hbound (not_lt.2 hinfinite)
  · intro h n d hd hr
    rw [ofQuotient_eq_infinite_iff hd, ← Rat.cast_le (K := ℝ)]
    push_cast
    exact h.trans hr

end Binary64
end Reckoner
