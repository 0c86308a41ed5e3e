import Reckoner.Decimal.Text
import Reckoner.Proofs.Formula.NormalText

/-!
# Digits

Reading the digits of a whole number and writing it again gives the digits without the zeros in front
(`digits_ofDigits`), and padded to their old count the digits themselves (`padZeros_unpadded`). So the digits before
and after a point are written as they were read (`pointed_ofDigits`).
-/

namespace Reckoner.Decimal

/-! ## The number that digits write -/

theorem ofDigits_append (cs ds : List Char) : ofDigits (cs ++ ds) = ofDigits cs * 10 ^ ds.length + ofDigits ds := by
  show Nat.ofDigitChars 10 (cs ++ ds) 0 = _
  rw [Nat.ofDigitChars_append, Nat.ofDigitChars_eq_ofDigitChars_zero, Nat.mul_comm]
  rfl

theorem ofDigits_cons (c : Char) (cs : List Char) :
    ofDigits (c :: cs) = (c.toNat - 48) * 10 ^ cs.length + ofDigits cs := by
  have hdigit : ofDigits [c] = c.toNat - 48 := by simp [ofDigits]
  rw [← hdigit, ← ofDigits_append, List.singleton_append]

theorem ofDigits_zeros (k : Nat) : ofDigits (List.replicate k '0') = 0 := by
  induction k with
  | zero => rfl
  | succ k ih =>
    rw [List.replicate_succ', ofDigits_append, ih]
    rfl

theorem ofDigits_lt {cs : List Char} (h : cs.all Char.isDigit = true) : ofDigits cs < 10 ^ cs.length := by
  induction cs with
  | nil => exact Nat.one_pos
  | cons c cs ih =>
    rw [List.all_cons, Bool.and_eq_true] at h
    have hc := Formula.toNat_of_isDigit h.1
    have hdigit : c.toNat - 48 ≤ 9 := by omega
    calc ofDigits (c :: cs)
        _ = (c.toNat - 48) * 10 ^ cs.length + ofDigits cs := ofDigits_cons c cs
        _ < 9 * 10 ^ cs.length + 10 ^ cs.length := Nat.add_lt_add_of_le_of_lt (Nat.mul_le_mul_right _ hdigit) (ih h.2)
        _ = 10 ^ (c :: cs).length := by rw [List.length_cons, Nat.pow_succ]; omega

/-! ## Zeros in front -/

/-- Zeros in front of other characters. -/
theorem exists_zeros (cs : List Char) :
    ∃ k, cs = List.replicate k '0' ++ cs.dropWhile (· == '0') := by
  have hzeros : cs.takeWhile (· == '0') = List.replicate (cs.takeWhile (· == '0')).length '0' := by
    rw [List.eq_replicate_iff]
    exact ⟨rfl, fun c hc => by simpa using List.all_eq_true.1 List.all_takeWhile c hc⟩
  exact ⟨_, by rw [← hzeros, List.takeWhile_append_dropWhile]⟩

theorem ofDigits_dropWhile (cs : List Char) : ofDigits (cs.dropWhile (· == '0')) = ofDigits cs := by
  obtain ⟨k, hk⟩ := exists_zeros cs
  rw [congrArg ofDigits hk, ofDigits_append, ofDigits_zeros, Nat.zero_mul, Nat.zero_add]

/-- Digits without the zeros in front, but for a zero alone. -/
def unpadded (cs : List Char) : List Char :=
  match cs.dropWhile (· == '0') with
  | [] => ['0']
  | kept => kept

theorem padZeros_unpadded {cs : List Char} (hne : cs ≠ []) : padZeros cs.length (unpadded cs) = cs := by
  obtain ⟨k, hk⟩ := exists_zeros cs
  unfold padZeros unpadded
  split
  · rename_i hnil
    rw [hnil, List.append_nil] at hk
    subst hk
    obtain ⟨k, rfl⟩ : ∃ k', k = k' + 1 := Nat.exists_eq_succ_of_ne_zero (by rintro rfl; exact hne rfl)
    simp [List.replicate_succ']
  · have hcount := congrArg List.length hk
    rw [List.length_append, List.length_replicate] at hcount
    rw [hcount, Nat.add_sub_cancel, ← hk]

/-! ## The digits of the number -/

theorem digits_digit {c : Char} (h : c.isDigit = true) : digits (c.toNat - 48) = [c] := by
  have hc := Formula.toNat_of_isDigit h
  have hchar : Nat.digitChar (c.toNat - 48) = c := by
    apply Char.toNat_inj.1
    rw [Nat.toNat_digitChar_of_lt_ten (by omega)]
    omega
  rw [digits, Nat.toDigits_of_lt_base (by omega), hchar]

/-- The digits of a number go on with those after it. -/
theorem digits_append {n : Nat} (hn : 0 < n) {cs : List Char} (h : cs.all Char.isDigit = true) :
    digits n ++ cs = digits (n * 10 ^ cs.length + ofDigits cs) := by
  induction cs generalizing n with
  | nil => simp [ofDigits]
  | cons c cs ih =>
    rw [List.all_cons, Bool.and_eq_true] at h
    have hc := Formula.toNat_of_isDigit h.1
    have hdigit : digits n ++ [c] = digits (10 * n + (c.toNat - 48)) := by
      rw [← digits_digit h.1]
      exact Nat.toDigits_append_toDigits (by omega) hn (by omega)
    have hvalue : (10 * n + (c.toNat - 48)) * 10 ^ cs.length + ofDigits cs =
        n * 10 ^ (c :: cs).length + ofDigits (c :: cs) := by
      rw [ofDigits_cons, List.length_cons, Nat.pow_succ', Nat.add_mul, Nat.add_assoc, Nat.mul_comm 10 n, Nat.mul_assoc]
    calc digits n ++ c :: cs
        _ = (digits n ++ [c]) ++ cs := by rw [List.append_assoc, List.singleton_append]
        _ = digits ((10 * n + (c.toNat - 48)) * 10 ^ cs.length + ofDigits cs) := by rw [hdigit, ih (by omega) h.2]
        _ = digits (n * 10 ^ (c :: cs).length + ofDigits (c :: cs)) := by rw [hvalue]

/-- What is read is written again without the zeros in front. -/
theorem digits_ofDigits {cs : List Char} (h : cs.all Char.isDigit = true) : digits (ofDigits cs) = unpadded cs := by
  have hkept : (cs.dropWhile (· == '0')).all Char.isDigit = true :=
    List.all_eq_true.2 fun c hc => List.all_eq_true.1 h c ((List.dropWhile_sublist _).subset hc)
  rw [← ofDigits_dropWhile]
  unfold unpadded
  split
  · rename_i hnil
    rw [hnil]
    rfl
  · rename_i hne
    obtain ⟨c, ds, hcs⟩ := List.exists_cons_of_ne_nil hne
    rw [hcs] at hkept ⊢
    rw [List.all_cons, Bool.and_eq_true] at hkept
    -- the first digit that is kept is no zero
    have hpos : 0 < c.toNat - 48 := by
      have hhead := List.head?_dropWhile_not (· == '0') cs
      have hc := Formula.toNat_of_isDigit hkept.1
      have hzero : c.toNat ≠ 48 := fun h48 => by
        rw [hcs, Char.toNat_inj.1 (show c.toNat = '0'.toNat from h48)] at hhead
        simp at hhead
      omega
    rw [ofDigits_cons, ← digits_append hpos hkept.2, digits_digit hkept.1, List.singleton_append]

/-- Digits before and after a point are written as they were read. -/
theorem pointed_ofDigits {ws cs : List Char} (hw : ws.all Char.isDigit = true) (hc : cs.all Char.isDigit = true) :
    pointed (ofDigits (ws ++ cs)) cs.length = unpadded ws ++ if cs.length = 0 then [] else '.' :: cs := by
  have hlt := ofDigits_lt hc
  have hpos : 0 < 10 ^ cs.length := Nat.pow_pos (by omega)
  rw [pointed, ofDigits_append, Nat.mul_comm, Nat.mul_add_div hpos, Nat.div_eq_of_lt hlt, Nat.add_zero,
    Nat.mul_add_mod, Nat.mod_eq_of_lt hlt, digits_ofDigits hw, digits_ofDigits hc]
  split
  · rfl
  · rename_i hne
    rw [padZeros_unpadded fun hnil => hne (by rw [hnil]; rfl)]

end Reckoner.Decimal
