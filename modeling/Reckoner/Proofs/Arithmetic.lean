import Reckoner.Proofs.Application
import Reckoner.Proofs.Binary64.Exponential
import Reckoner.Proofs.Binary64.Power
import Reckoner.Proofs.Except

/-!
# When arithmetic fails

Sums, products, quotients and magnitudes are always numbers. Every other operator fails on a condition on the real
numbers that its operands stand for: an operand is negative, or the exact result does not exist or is rounded
beyond the greatest number (`apply_fails_iff`).
-/

namespace Reckoner

namespace Binary64

variable {x y : Binary64}

theorem isFinite_withSign (negative : Bool) (x : Binary64) : (x.withSign negative).isFinite = x.isFinite := by
  cases x <;> rfl

/-! ## Powers -/

theorem power_fails_iff :
    (∃ e, x.power y = .error e) ↔ x.isFinite = true ∧ y.isFinite = true ∧ (x.pow y).isFinite = false := by
  unfold power
  cases hpow : x.pow y with
  | finite negative m e h => simp [isFinite]
  | nan => cases x.isFinite <;> cases y.isFinite <;> simp [isFinite]
  | infinite negative => cases x.isFinite <;> cases y.isFinite <;> simp [isFinite]

/-- Does the power of two real numbers not exist, or is it rounded beyond the greatest number? -/
def LacksPower (r s : ℝ) : Prop := (r = 0 ∧ s < 0) ∨ (r < 0 ∧ ∀ k : ℤ, s ≠ k) ∨ RoundsBeyond (|r| ^ s)

theorem not_roundsBeyond {r : ℝ} (h : r ≤ 1) : ¬ RoundsBeyond r := by
  rw [roundsBeyond_iff, not_le]
  exact h.trans_lt one_lt_cast_overflowBound

theorem not_lacksPower_zero (r : ℝ) : ¬ LacksPower r 0 := by
  rintro (⟨-, h⟩ | ⟨-, h⟩ | h)
  · exact absurd h (lt_irrefl 0)
  · exact h 0 (by simp)
  · exact not_roundsBeyond (by simp) h

theorem not_lacksPower_one (s : ℝ) : ¬ LacksPower 1 s := by
  rintro (⟨h, -⟩ | ⟨h, -⟩ | h)
  · exact absurd h one_ne_zero
  · exact absurd h (by norm_num)
  · exact not_roundsBeyond (by simp) h

theorem lacksPower_zero_iff {s : ℝ} (hs : s ≠ 0) : LacksPower 0 s ↔ s < 0 := by
  refine ⟨?_, fun h => Or.inl ⟨rfl, h⟩⟩
  rintro (⟨-, h⟩ | ⟨h, -⟩ | h)
  · exact h
  · exact absurd h (lt_irrefl 0)
  · exact absurd h (not_roundsBeyond (by simp [Real.zero_rpow hs]))

theorem toReal_one : (one false).toReal = 1 := by
  simp only [one, toReal, signFactor]
  norm_num

/-- The powers of a base that is not zero and of an exponent for which the sign of the base is no obstacle. -/
theorem isFinite_magnitudePower {s t : Bool} {m n : ℕ} {e f : ℤ} {h : Canonical m e} {h' : Canonical n f} (hm : m ≠ 0)
    (hsign : s = true → (finite t n f h').isWhole = true) (negative : Bool) :
    ((magnitudePower m e t n f).withSign negative).isFinite = false ↔
      LacksPower (finite s m e h).toReal (finite t n f h').toReal := by
  have hover : powerOverflows m e t n f = true ↔
      RoundsBeyond (|(finite s m e h).toReal| ^ (finite t n f h').toReal) := by
    rw [abs_toReal]
    exact powerOverflows_iff (Nat.pos_of_ne_zero hm)
  have hlacks : LacksPower (finite s m e h).toReal (finite t n f h').toReal ↔
      RoundsBeyond (|(finite s m e h).toReal| ^ (finite t n f h').toReal) := by
    refine ⟨?_, fun h => Or.inr (Or.inr h)⟩
    rintro (⟨hzero, -⟩ | ⟨hneg, hwhole⟩ | hbeyond)
    · exact absurd (toReal_eq_zero_iff.1 hzero) hm
    · obtain ⟨k, hk⟩ := isWhole_iff.1 (hsign (toReal_neg_iff.1 hneg).1)
      exact absurd hk (hwhole k)
    · exact hbeyond
  rw [isFinite_withSign, hlacks, ← hover]
  rcases magnitudePower_cases m e t n f with ⟨hinfinite, hpower⟩ | ⟨hfinite, hpower⟩
  · simp [hinfinite, hpower, isFinite]
  · simp [hfinite, hpower]

theorem isFinite_pow_iff (hx : x.isFinite = true) (hy : y.isFinite = true) :
    (x.pow y).isFinite = false ↔ LacksPower x.toReal y.toReal := by
  cases x with
  | nan => cases hx
  | infinite s => cases hx
  | finite s m e h =>
  cases y with
  | nan => cases hy
  | infinite t => cases hy
  | finite t n f h' =>
  have hzero : (finite t n f h').isZero = true ↔ (finite t n f h').toReal = 0 := by
    rw [toReal_eq_zero_iff]
    simp [isZero]
  simp only [pow, Bool.or_eq_true, decide_eq_true_eq]
  split
  · rename_i htrivial
    refine iff_of_false (by simp [one, isFinite]) ?_
    rcases htrivial with hexponent | hbase
    · rw [hzero.1 hexponent]
      exact not_lacksPower_zero _
    · rw [hbase, toReal_one]
      exact not_lacksPower_one _
  rename_i hproper
  rw [not_or, hzero] at hproper
  split
  · rename_i hm
    have hn : n ≠ 0 := fun hn => hproper.1 (toReal_eq_zero_iff.2 hn)
    rw [toReal_eq_zero_iff.2 hm, lacksPower_zero_iff hproper.1, toReal_neg_iff]
    cases t <;> simp [isFinite, zero, hn]
  rename_i hm
  split
  · rename_i hroot
    simp only [Bool.and_eq_true, Bool.not_eq_true'] at hroot
    obtain ⟨hs, hwhole⟩ := hroot
    refine iff_of_true rfl (Or.inr (Or.inl ⟨toReal_neg_iff.2 ⟨hs, hm⟩, fun k hk => ?_⟩))
    rw [isWhole_iff.2 ⟨k, hk⟩] at hwhole
    cases hwhole
  · rename_i hsign
    refine isFinite_magnitudePower hm (fun hs => ?_) _
    simpa [hs] using hsign

/-! ## Functions -/

/-- Neither a zero nor not-a-number is negative. -/
theorem not_isNegative (h : x.isZero = true ∨ x = .nan) : ¬ x.IsNegative := by
  rw [← isBelowZero_iff]
  rcases h with h | rfl
  · simp [isBelowZero, h]
  · simp [isBelowZero, signBit]

theorem squareRoot_fails_iff : (∃ e, x.squareRoot = .error e) ↔ x.IsNegative := by
  rw [← isBelowZero_iff, squareRoot]
  split <;> simp_all

theorem logarithm_fails_iff : (∃ e, x.logarithm = .error e) ↔ x.IsNegative := by
  rw [← isBelowZero_iff, logarithm]
  split <;> simp_all

theorem logarithm_zero (h : x.isZero = true) : x.logarithm = .ok (.infinite true) := by
  cases x with
  | nan => cases h
  | infinite s => cases h
  | finite s m e h' =>
    have hm : m = 0 := by simpa [isZero] using h
    simp [logarithm, isBelowZero, isZero, hm, log]

theorem exponential_fails_iff :
    (∃ e, x.exponential = .error e) ↔ x.isFinite = true ∧ RoundsBeyond (Real.exp x.toReal) := by
  rw [← expOverflows_iff, exponential]
  split <;> simp_all

theorem circular_fails_iff (quantity : Quantity) (f : Binary64 → Binary64) :
    (∃ e, x.circular quantity f = .error e) ↔ ∃ s, x = .infinite s := by
  cases x <;> simp [circular]

/-- A quotient by zero is not-a-number for zero and not-a-number, and else an infinity of the product of the signs. -/
theorem div_zero (hy : y.isZero = true) :
    x.div y = if x = .nan ∨ x.isZero = true then .nan else .infinite (x.signBit ^^ y.signBit) := by
  cases y with
  | nan => cases hy
  | infinite t => cases hy
  | finite t n f h' =>
    have hn : n = 0 := by simpa [isZero] using hy
    cases x with
    | nan => rfl
    | infinite s => rfl
    | finite s m e h =>
      simp only [div, hn, if_true, isZero, signBit, beq_iff_eq, reduceCtorEq, false_or]

end Binary64

open Binary64

/-! ## Operators on numbers -/

namespace Operator

/-- Does the operator fail on the operands? -/
def Fails (op : Operator) (xs : List Operand) (b : Bindings) : Prop := ∃ e, op.apply xs b = .error e

theorem apply_binary (op : BinaryOp) (hop : op ≠ .assign) (v w : Binary64) (b : Bindings) :
    Operator.apply (.binary op) [.real v, .real w] b = (op.calculate v w).map (·, b) := by
  show (Application.binary op (.real v) (.real w)).run b = _
  rw [Application.run_eq]
  cases op with
  | assign => exact absurd rfl hop
  | _ => rfl

theorem apply_function (f : Fn) (v : Binary64) (b : Bindings) :
    Operator.apply (.function f) [.real v] b = (f.calculate v).map (·, b) := by
  show (Application.function f (.real v)).run b = _
  rw [Application.run_eq]
  rfl

theorem fails_function_iff (f : Fn) (v : Binary64) (b : Bindings) :
    Fails (.function f) [.real v] b ↔ ∃ e, f.calculate v = .error e := by
  simp only [Fails, apply_function, map_eq_error_iff]

theorem fails_power_iff (v w : Binary64) (b : Bindings) :
    Fails (.binary .pow) [.real v, .real w] b ↔
      v.isFinite = true ∧ w.isFinite = true ∧ LacksPower v.toReal w.toReal := by
  simp only [Fails, apply_binary .pow (by decide), map_eq_error_iff, BinaryOp.calculate, power_fails_iff]
  exact and_congr_right fun hv => and_congr_right fun hw => isFinite_pow_iff hv hw

/-- An operator on as many operands as it takes fails while it is evaluated. -/
theorem kind_of_apply {op : Operator} {xs : List Operand} {b : Bindings} {e : ExprError} (hlength : xs.length = op.arity)
    (h : op.apply xs b = .error e) : e.kind = .evaluation := by
  have hrun : ∀ a : Application, a.run b = .error e → e.kind = .evaluation := by
    intro a ha
    have hfails := a.failsWith_number b
    rw [a.run_eq, map_eq_error_iff] at ha
    rw [ha] at hfails
    cases e <;> first | rfl | cases hfails
  cases op with
  | binary op =>
    obtain ⟨x, y, rfl⟩ := List.length_eq_two.1 hlength
    exact hrun (.binary op x y) h
  | function f =>
    obtain ⟨x, rfl⟩ := List.length_eq_one_iff.1 hlength
    exact hrun (.function f x) h

end Operator
end Reckoner
