import Reckoner.Proofs.Binary64.Rounding
import Reckoner.Proofs.Decimal.Digits
import Reckoner.Proofs.Formula.Reading
import Reckoner.Proofs.Session

/-!
# Literals as they are shown

A literal is rounded to the nearest number, and this number is rounded again to the decimals that are shown. Up to
fifteen digits the first rounding moves the literal by less than half of the last decimal (`fixed_of_decimal`), so
that the second one brings back what was typed.
-/

namespace Reckoner

/-! ## Decimal fractions -/

namespace Decimal

/-- Below 10^15 in units of its last decimal, the rounding of a fraction is less than half a unit away. -/
theorem near_of_decimal {n d i p : ℕ} (hsmall : (n : ℚ) / d < 10 ^ i) (hdigits : i + p ≤ 15) :
    max ((n : ℚ) / d / 2 ^ 52) (2 ^ (-1074 : ℤ)) / 2 * 10 ^ p < 1 / 2 := by
  have hleast : (2 : ℚ) ^ (-1074 : ℤ) ≤ 10 ^ i / 2 ^ 52 := by
    calc (2 : ℚ) ^ (-1074 : ℤ)
        _ ≤ 2 ^ (-52 : ℤ) := zpow_le_zpow_right₀ one_le_two (by omega)
        _ = 1 / 2 ^ 52 := by norm_num
        _ ≤ 10 ^ i / 2 ^ 52 := by gcongr; exact one_le_pow₀ (by norm_num)
  have hmax : max ((n : ℚ) / d / 2 ^ 52) (2 ^ (-1074 : ℤ)) ≤ 10 ^ i / 2 ^ 52 := by
    refine max_le ?_ hleast
    gcongr
  calc max ((n : ℚ) / d / 2 ^ 52) (2 ^ (-1074 : ℤ)) / 2 * 10 ^ p
      _ ≤ 10 ^ i / 2 ^ 52 / 2 * 10 ^ p := by gcongr
      _ = 10 ^ (i + p) / 2 ^ 52 / 2 := by rw [pow_add]; ring
      _ ≤ 10 ^ 15 / 2 ^ 52 / 2 := by gcongr; norm_num
      _ < 1 / 2 := by norm_num

/-- A decimal fraction of at most fifteen digits is shown exactly. -/
theorem fixed_of_decimal {n d i p q : ℕ} (hd : 0 < d) (hsmall : (n : ℚ) / d < 10 ^ i) (hdigits : i + p ≤ 15)
    (hq : (q : ℚ) = n / d * 10 ^ p) : fixed p (.ofQuotient false n d) = .ofList (pointed q p) := by
  have hfinite : (n : ℚ) / d < 2 ^ (1023 : ℤ) := by
    calc (n : ℚ) / d
        _ < 10 ^ i := hsmall
        _ ≤ 10 ^ 15 := pow_le_pow_right₀ (by norm_num) (by omega)
        _ ≤ 2 ^ (50 : ℤ) := by norm_num
        _ ≤ 2 ^ (1023 : ℤ) := zpow_le_zpow_right₀ one_le_two (by omega)
  obtain ⟨m, e, h, hvalue, hnear⟩ := Binary64.ofQuotient_near false hd hfinite
  have hscaled : ((m * 2 ^ e.toNat * 10 ^ p : ℕ) : ℚ) / (2 ^ (-e).toNat : ℕ) = m * 2 ^ e * 10 ^ p := by
    rw [mul_two_zpow]
    push_cast
    ring
  have hround : roundDiv (m * 2 ^ e.toNat * 10 ^ p) (2 ^ (-e).toNat) = q := by
    refine roundDiv_eq_of_near (Nat.two_pow_pos _) ?_
    rw [hscaled, hq, ← sub_mul, abs_mul, abs_sub_comm, abs_of_pos (by positivity : (0 : ℚ) < 10 ^ p)]
    calc |(m : ℚ) * 2 ^ e - n / d| * 10 ^ p
        _ ≤ max ((n : ℚ) / d / 2 ^ 52) (2 ^ (-1074 : ℤ)) / 2 * 10 ^ p := by gcongr
        _ < 1 / 2 := near_of_decimal hsmall hdigits
  rw [hvalue, fixed, hround]
  rfl

end Decimal

/-! ## Literals -/

namespace Formula.Literal

open Decimal (ofDigits)

def fraction (l : Literal) : List Char := l.places.getD []

/-- The literal written out: the digits before the point without the zeros in front, but for a zero alone, and after
the point the digits that it has, with zeros up to the count. -/
def shown (l : Literal) (places : ℕ) : List Char :=
  Decimal.unpadded l.whole ++
    if places = 0 then [] else '.' :: (l.fraction ++ List.replicate (places - l.fraction.length) '0')

/-- The count of digits before the point without the zeros in front. -/
def wholeDigits (l : Literal) : ℕ := (l.whole.dropWhile (· == '0')).length

theorem value_lt (l : Literal) :
    (ofDigits (l.whole ++ l.fraction) : ℚ) / (10 ^ l.fraction.length : ℕ) < 10 ^ l.wholeDigits := by
  have hdigits : (l.whole.dropWhile (· == '0') ++ l.fraction).all Char.isDigit = true := by
    rw [List.all_append, Bool.and_eq_true]
    exact ⟨List.all_eq_true.2 fun c hc => List.all_eq_true.1 l.whole_digits c ((List.dropWhile_sublist _).subset hc),
      l.places_digits⟩
  have hlt := Decimal.ofDigits_lt hdigits
  rw [Decimal.ofDigits_append, Decimal.ofDigits_dropWhile, ← Decimal.ofDigits_append, List.length_append, pow_add] at hlt
  rw [div_lt_iff₀ (by positivity)]
  exact_mod_cast hlt

/-- Up to fifteen digits a literal is shown as it is typed. -/
theorem fixed_value (l : Literal) {p : ℕ} (hf : l.fraction.length ≤ p) (hp : l.wholeDigits + p ≤ 15) :
    Decimal.fixed p l.value = .ofList (l.shown p) := by
  obtain ⟨places, hplaces⟩ : ∃ cs, cs = l.fraction ++ List.replicate (p - l.fraction.length) '0' := ⟨_, rfl⟩
  have hlength : places.length = p := by
    rw [hplaces, List.length_append, List.length_replicate]
    omega
  have hdigits : places.all Char.isDigit = true := by
    rw [hplaces, List.all_append, Bool.and_eq_true]
    exact ⟨l.places_digits, by simp⟩
  have hvalue : (ofDigits (l.whole ++ places) : ℚ) =
      ofDigits (l.whole ++ l.fraction) / (10 ^ l.fraction.length : ℕ) * 10 ^ p := by
    rw [hplaces, ← List.append_assoc, Decimal.ofDigits_append, Decimal.ofDigits_zeros, List.length_replicate,
      show (10 : ℚ) ^ p = 10 ^ l.fraction.length * 10 ^ (p - l.fraction.length) by rw [← pow_add, Nat.add_sub_cancel' hf]]
    push_cast
    field_simp
    ring
  have hfixed := Decimal.fixed_of_decimal (by positivity) l.value_lt hp hvalue
  rw [show l.value = .ofQuotient false (ofDigits (l.whole ++ l.fraction)) (10 ^ l.fraction.length) from rfl, hfixed]
  have hpointed := Decimal.pointed_ofDigits l.whole_digits hdigits
  rw [hlength] at hpointed
  rw [hpointed, shown, hplaces]

/-- A literal alone is one number. -/
theorem tokenize_chars (l : Literal) : tokenize (.ofList l.chars) = .ok [.real l.value] := by
  have hwritten : written [.number l] = l.chars := by simp [written, Lexeme.written]
  refine tokenize_of_writes (c := .signed 0 (.last (.number l))) ?_
  rw [String.toList_ofList, ← hwritten]
  exact writes_written false _

end Formula.Literal

/-- **What is typed is what is shown.** A literal is answered with its value, and with its own digits if there are no
more decimals than are shown, and with these no more than fifteen digits in all: without the zeros in front, and with
zeros up to the decimals that are shown. The session stays as it is. -/
theorem Session.calculate_literal (s : Session) (l : Formula.Literal)
    (hf : l.fraction.length ≤ s.settings.precision) (hp : l.wholeDigits + s.settings.precision ≤ 15) :
    (s.calculate (.ofList l.chars)).answer = .value l.value (.ofList (l.shown s.settings.precision)) ∧
    (s.calculate (.ofList l.chars)).session = s := by
  have hts : tokenize (.ofList l.chars) = .ok (Infix.Chain.last (.operand (.real l.value))).tokens := l.tokenize_chars
  obtain ⟨hresult, hbindings⟩ := evaluate_of_tokens hts s.bindings
  rw [Infix.Chain.tree_last] at hresult hbindings
  refine ⟨?_, ?_⟩
  · rw [calculate_of_real hresult, l.fixed_value hf hp]
  · rw [session_calculate, hbindings]
    rfl

/-- Zeros in front of the digits, and one decimal less than is shown. -/
theorem Session.calculate_literal_padded :
    let s := Session.fresh { Settings.standard with precision := 3 }
    let l : Formula.Literal := ⟨['0', '0', '7'], some ['5', '0'], rfl, rfl, rfl⟩
    l.fraction.length ≤ s.settings.precision ∧ l.wholeDigits + s.settings.precision ≤ 15 ∧
    (s.calculate "007.50").answer = .value (.ofBits 0x401e000000000000) "7.500" := by
  intro s l
  have hf : l.fraction.length ≤ s.settings.precision := by decide
  have hp : l.wholeDigits + s.settings.precision ≤ 15 := by decide
  have hvalue : l.value = .ofBits 0x401e000000000000 := by decide +kernel
  have hshown : String.ofList (l.shown s.settings.precision) = "7.500" := by decide
  have h := (Session.calculate_literal s l hf hp).1
  rw [hvalue, hshown] at h
  exact ⟨hf, hp, h⟩

end Reckoner
