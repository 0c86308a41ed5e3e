import Mathlib.Analysis.SpecialFunctions.Log.Base
import Reckoner.Enclosure.BinaryLogarithm

/-!
# The bounds of binary logarithms

Squaring a number doubles its logarithm, and cutting the square to some five hundred bits moves its two bounds
apart by no more than two units of their last place. Over all squarings they stay so close to each other
(`Narrow`) that the lower one is positive, and the leading bits of the last ones enclose the logarithm
(`encloses_ofPowers`).
-/

namespace Reckoner

/-! ## Quotients rounded up -/

theorem le_ceilDiv_mul {d : ℕ} (hd : 0 < d) (n : ℕ) : n ≤ ceilDiv n d * d := by
  have hdiv := Nat.div_add_mod (n + d - 1) d
  have hmod := Nat.mod_lt (n + d - 1) hd
  rw [Nat.mul_comm] at hdiv
  rw [ceilDiv]
  omega

theorem ceilDiv_mul_lt {d : ℕ} (hd : 0 < d) (n : ℕ) : ceilDiv n d * d < n + d := by
  have hdiv := Nat.div_mul_le_self (n + d - 1) d
  rw [ceilDiv]
  omega

namespace LogBounds

/-- Do the bounds enclose the real number? -/
structure Encloses (b : LogBounds) (y : ℝ) : Prop where
  lo_le : (b.lo : ℝ) ≤ y
  le_hi : y ≤ b.hi

theorem Encloses.neg {b : LogBounds} {y : ℝ} (h : b.Encloses y) : b.neg.Encloses (-y) where
  lo_le := by
    have := h.le_hi
    simpa [LogBounds.neg] using this
  le_hi := by
    have := h.lo_le
    simpa [LogBounds.neg] using this

/-- The bounds of a number or of the negated number. -/
theorem Encloses.negIf {b : LogBounds} {y : ℝ} (h : b.Encloses y) (negative : Bool) :
    (if negative then b.neg else b).Encloses (if negative then -y else y) := by
  cases negative with
  | false => exact h
  | true => exact h.neg

section

variable {a b : LogBounds} {s x y : ℝ} {i j : ℤ}

/-- Whole multiples are in the order of their bounds. -/
theorem Encloses.mul_le_mul (hs : 0 < s) (ha : a.Encloses (s * x)) (hb : b.Encloses (s * y)) (hi : 0 ≤ i) (hj : 0 ≤ j)
    (h : a.hi * i ≤ b.lo * j) : x * i ≤ y * j := by
  have hi' : (0 : ℝ) ≤ i := by exact_mod_cast hi
  have hj' : (0 : ℝ) ≤ j := by exact_mod_cast hj
  refine le_of_mul_le_mul_left ?_ hs
  calc s * (x * i)
    _ = s * x * i := by ring
    _ ≤ a.hi * i := by gcongr; exact ha.le_hi
    _ ≤ b.lo * j := by exact_mod_cast h
    _ ≤ s * y * j := by gcongr; exact hb.lo_le
    _ = s * (y * j) := by ring

/-- They differ if the number on the right is not its lower bound. -/
theorem Encloses.mul_lt_mul (hs : 0 < s) (ha : a.Encloses (s * x)) (hb : (b.lo : ℝ) < s * y) (hi : 0 ≤ i) (hj : 0 < j)
    (h : a.hi * i ≤ b.lo * j) : x * i < y * j := by
  have hi' : (0 : ℝ) ≤ i := by exact_mod_cast hi
  have hj' : (0 : ℝ) < j := by exact_mod_cast hj
  refine lt_of_mul_lt_mul_left ?_ hs.le
  calc s * (x * i)
    _ = s * x * i := by ring
    _ ≤ a.hi * i := by gcongr; exact ha.le_hi
    _ ≤ b.lo * j := by exact_mod_cast h
    _ < s * y * j := by gcongr
    _ = s * (y * j) := by ring

end

theorem le_two_pow_log2Up (n : ℕ) : n ≤ 2 ^ log2Up n := by
  unfold log2Up
  split
  · rename_i h
    exact h.le
  · exact Nat.lt_log2_self.le

/-! ## How far the bounds move apart -/

/-- Bounds that are apart by no more than `w` of the 2^511th parts of the greater one, for a `w` that may be doubled
`k` times. -/
structure Narrow (k lo hi : ℕ) : Prop where
  le : lo ≤ hi
  pos : 0 < hi
  width : ∃ w, (w + 1) * 2 ^ k ≤ 2 ^ 511 ∧ hi * 2 ^ 511 ≤ lo * 2 ^ 511 + w * hi

variable {k lo hi m : ℕ} {e : ℤ} {x : ℝ}

theorem Narrow.lo_pos (h : Narrow k lo hi) : 0 < lo := by
  obtain ⟨-, hpos, w, hw, hwidth⟩ := h
  generalize 2 ^ 511 = parts at hw hwidth
  rcases Nat.eq_zero_or_pos lo with rfl | hlo
  · have hk : w + 1 ≤ parts := (Nat.le_mul_of_pos_right _ (Nat.two_pow_pos k)).trans hw
    have hless : w * hi < hi * parts := by nlinarith
    omega
  · exact hlo

/-- Squares cut by a factor of `c`, which leaves 512 bits of them or is one, are apart by twice as much and a unit. -/
theorem width_square {w c parts lo' hi' : ℕ} (hc : 0 < c) (hle : lo ≤ hi) (hwidth : hi * parts ≤ lo * parts + w * hi)
    (hcut : c = 1 ∨ 2 * (c * parts) ≤ hi * hi) (hlo : lo * lo < (lo' + 1) * c) (hhi : hi * hi ≤ hi' * c)
    (hhi' : hi' * c < hi * hi + c) : hi' * parts ≤ lo' * parts + (2 * w + 1) * hi' := by
  have hsquares : hi * hi * parts ≤ lo * lo * parts + 2 * w * (hi * hi) := by
    have hmore : lo * hi ≤ hi * hi := Nat.mul_le_mul_right hi hle
    nlinarith
  refine Nat.le_of_mul_le_mul_right (c := c) ?_ hc
  rcases hcut with rfl | hcut
  · obtain rfl : hi' = hi * hi := by omega
    have hlo : lo * lo ≤ lo' := by omega
    nlinarith
  · calc hi' * parts * c
      _ = hi' * c * parts := by ring
      _ ≤ (hi * hi + c) * parts := Nat.mul_le_mul_right parts hhi'.le
      _ = hi * hi * parts + c * parts := by ring
      _ ≤ lo * lo * parts + 2 * w * (hi * hi) + c * parts := by omega
      _ ≤ (lo' + 1) * c * parts + 2 * w * (hi * hi) + c * parts := by
        have := Nat.mul_le_mul_right parts hlo.le
        omega
      _ = lo' * c * parts + 2 * w * (hi * hi) + 2 * (c * parts) := by ring
      _ ≤ lo' * c * parts + (2 * w + 1) * (hi * hi) := by nlinarith
      _ ≤ lo' * c * parts + (2 * w + 1) * (hi' * c) := by gcongr
      _ = (lo' * parts + (2 * w + 1) * hi') * c := by ring

theorem cut_eq_one_or {a c : ℕ} (ha : 0 < a) (hc : c = 2 ^ (a.log2 - 512)) : c = 1 ∨ 2 * (c * 2 ^ 511) ≤ a := by
  rcases Nat.lt_or_ge 512 a.log2 with hlong | hshort
  · have hexponent : ∀ j, a.log2 - 512 + (j + 1) = a.log2 → 2 * (c * 2 ^ j) = 2 ^ a.log2 := by
      intro j hj
      rw [← hj, hc, Nat.pow_add, Nat.pow_succ]
      ring
    rw [hexponent 511 (by omega)]
    exact Or.inr (Nat.log2_self_le ha.ne')
  · rw [hc, Nat.sub_eq_zero_of_le hshort]
    exact Or.inl rfl

theorem Narrow.square (h : Narrow (k + 1) lo hi) :
    Narrow k (lo * lo / 2 ^ ((hi * hi).log2 - 512)) (ceilDiv (hi * hi) (2 ^ ((hi * hi).log2 - 512))) := by
  obtain ⟨hle, hpos, w, hw, hwidth⟩ := h
  have hsquare := Nat.mul_pos hpos hpos
  obtain ⟨c, hc⟩ : ∃ c, c = 2 ^ ((hi * hi).log2 - 512) := ⟨_, rfl⟩
  have hcpos : 0 < c := by
    rw [hc]
    exact Nat.two_pow_pos _
  rw [← hc]
  have hlo : lo * lo < (lo * lo / c + 1) * c := by
    rw [Nat.add_mul, Nat.one_mul]
    exact Nat.lt_div_mul_add hcpos
  have hhi := le_ceilDiv_mul hcpos (hi * hi)
  have hhi' := ceilDiv_mul_lt hcpos (hi * hi)
  refine ⟨?_, ?_, 2 * w + 1, ?_, width_square hcpos hle hwidth (cut_eq_one_or hsquare hc) hlo hhi hhi'⟩
  · refine Nat.le_of_mul_le_mul_right (c := c) ?_ hcpos
    exact (Nat.div_mul_le_self _ _).trans ((Nat.mul_le_mul hle hle).trans hhi)
  · exact Nat.pos_of_mul_pos_right (hsquare.trans_le hhi)
  · rw [Nat.pow_succ] at hw
    calc (2 * w + 1 + 1) * 2 ^ k
      _ = (w + 1) * (2 ^ k * 2) := by ring
      _ ≤ 2 ^ 511 := hw

/-! ## The logarithm -/

/-- The leading bits of two bounds enclose the logarithm of what is between them. -/
theorem encloses_leading (h : Narrow 0 lo hi) (hlo : (lo : ℝ) * 2 ^ e ≤ x) (hhi : x ≤ hi * 2 ^ e) :
    (ofPowers 0 lo hi e).Encloses (Real.logb 2 x) := by
  have hlopos : (0 : ℝ) < lo := by exact_mod_cast h.lo_pos
  have hx : 0 < x := lt_of_lt_of_le (by positivity) hlo
  have hlow : (2 : ℝ) ^ lo.log2 ≤ lo := by exact_mod_cast Nat.log2_self_le h.lo_pos.ne'
  have hhigh : (hi : ℝ) ≤ 2 ^ log2Up hi := by exact_mod_cast le_two_pow_log2Up hi
  constructor
  · rw [Real.le_logb_iff_rpow_le (by norm_num) hx, Real.rpow_intCast, ofPowers, zpow_add₀ (by norm_num), zpow_natCast]
    calc (2 : ℝ) ^ e * 2 ^ lo.log2
      _ ≤ 2 ^ e * lo := by gcongr
      _ = lo * 2 ^ e := mul_comm ..
      _ ≤ x := hlo
  · rw [Real.logb_le_iff_le_rpow (by norm_num) hx, Real.rpow_intCast, ofPowers, zpow_add₀ (by norm_num), zpow_natCast]
    calc x
      _ ≤ hi * 2 ^ e := hhi
      _ = 2 ^ e * hi := mul_comm ..
      _ ≤ 2 ^ e * 2 ^ log2Up hi := by gcongr

/-- A square lies between the cut squares of the bounds. -/
theorem square_between {lo' hi' c : ℕ} {f : ℤ} (hlo : (lo : ℝ) * 2 ^ e ≤ x) (hhi : x ≤ hi * 2 ^ e) (hc : (c : ℝ) = 2 ^ f)
    (hlo' : lo' * c ≤ lo * lo) (hhi' : hi * hi ≤ hi' * c) :
    (lo' : ℝ) * 2 ^ (2 * e + f) ≤ x * x ∧ x * x ≤ hi' * 2 ^ (2 * e + f) := by
  have hsplit : (2 : ℝ) ^ (2 * e + f) = c * (2 ^ e * 2 ^ e) := by
    rw [hc, ← zpow_add₀ (by norm_num), ← zpow_add₀ (by norm_num)]
    congr 1
    ring
  have hlocast : (lo' : ℝ) * c ≤ lo * lo := by exact_mod_cast hlo'
  have hhicast : (hi : ℝ) * hi ≤ hi' * c := by exact_mod_cast hhi'
  have hnonneg : (0 : ℝ) ≤ lo * 2 ^ e := by positivity
  rw [hsplit]
  constructor
  · calc (lo' : ℝ) * (c * (2 ^ e * 2 ^ e))
      _ = lo' * c * (2 ^ e * 2 ^ e) := by ring
      _ ≤ lo * lo * (2 ^ e * 2 ^ e) := by gcongr
      _ = lo * 2 ^ e * (lo * 2 ^ e) := by ring
      _ ≤ x * x := mul_self_le_mul_self hnonneg hlo
  · calc x * x
      _ ≤ hi * 2 ^ e * (hi * 2 ^ e) := mul_self_le_mul_self (hnonneg.trans hlo) hhi
      _ = hi * hi * (2 ^ e * 2 ^ e) := by ring
      _ ≤ hi' * c * (2 ^ e * 2 ^ e) := by gcongr
      _ = hi' * (c * (2 ^ e * 2 ^ e)) := by ring

/-- As many squarings as the bounds allow keep the logarithm between them. -/
theorem encloses_ofPowers (h : Narrow k lo hi) (hlo : (lo : ℝ) * 2 ^ e ≤ x) (hhi : x ≤ hi * 2 ^ e) :
    (ofPowers k lo hi e).Encloses (2 ^ k * Real.logb 2 x) := by
  induction k generalizing lo hi e x with
  | zero => simpa using encloses_leading h hlo hhi
  | succ k ih =>
    have hlopos : (0 : ℝ) < lo := by exact_mod_cast h.lo_pos
    have hx : 0 < x := lt_of_lt_of_le (by positivity) hlo
    have hdouble : 2 ^ (k + 1) * Real.logb 2 x = 2 ^ k * Real.logb 2 (x * x) := by
      rw [Real.logb_mul hx.ne' hx.ne']
      ring
    have hcut : ((2 ^ ((hi * hi).log2 - 512) : ℕ) : ℝ) = 2 ^ (((hi * hi).log2 - 512 : ℕ) : ℤ) := by
      rw [Nat.cast_pow, Nat.cast_ofNat, zpow_natCast]
    obtain ⟨hlo, hhi⟩ := square_between hlo hhi hcut (Nat.div_mul_le_self _ _) (le_ceilDiv_mul (Nat.two_pow_pos _) _)
    -- the square has twice the logarithm
    rw [hdouble, ofPowers]
    exact ih h.square hlo hhi

theorem encloses_ofScaled (hm : 0 < m) (e : ℤ) : (ofScaled m e).Encloses (2 ^ 256 * Real.logb 2 (m * 2 ^ e)) := by
  have hroom : ∀ j, 256 ≤ j → (0 + 1) * 2 ^ 256 ≤ 2 ^ j := by
    intro j hj
    rw [Nat.zero_add, Nat.one_mul]
    exact Nat.pow_le_pow_right (by norm_num) hj
  exact encloses_ofPowers ⟨le_rfl, hm, 0, hroom 511 (by norm_num), by omega⟩ le_rfl le_rfl

end LogBounds
end Reckoner

