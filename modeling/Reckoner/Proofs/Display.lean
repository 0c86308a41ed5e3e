import Reckoner.Proofs.Infix.Conservation
import Reckoner.Proofs.Scan.WellFormed
import Reckoner.Proofs.Session

/-!
# What a display is made of

The text of a number is made of digits, a sign, a point and the letters of `inf` and `nan`
(`fixed_all`), and a display is such a text or a name before one (`display_cases`). No colon is among these, so
that no display can be taken for an error (`colon_not_mem_display`).
-/

namespace Reckoner

namespace Decimal

/-- Can the character stand in the text of a number? -/
def isNumeral (c : Char) : Bool := c.isDigit || c ∈ ['-', '.', 'i', 'n', 'f', 'a']

theorem digits_all (n : Nat) : (digits n).all isNumeral = true := by
  refine List.all_eq_true.2 fun c hc => ?_
  have hdigit : c.isDigit = true := Nat.isDigit_of_mem_toDigits (by decide) (by decide) hc
  simp [isNumeral, hdigit]

theorem padZeros_all {cs : List Char} (h : cs.all isNumeral = true) (width : Nat) :
    (padZeros width cs).all isNumeral = true := by
  rw [padZeros, List.all_append, h, Bool.and_true, List.all_replicate]
  split <;> rfl

theorem pointed_all (n places : Nat) : (pointed n places).all isNumeral = true := by
  rw [pointed, List.all_append, digits_all]
  split
  · rfl
  · rw [List.all_cons, padZeros_all (digits_all _)]
    rfl

theorem signed_all {cs : List Char} (h : cs.all isNumeral = true) (negative : Bool) :
    (signed negative cs).toList.all isNumeral = true := by
  rw [signed, String.toList_ofList]
  split
  · rw [List.all_cons, h]
    rfl
  · exact h

theorem fixed_all (places : Nat) (x : Binary64) : (fixed places x).toList.all isNumeral = true := by
  cases x with
  | nan => exact show "nan".toList.all isNumeral = true by decide
  | infinite negative => exact signed_all rfl negative
  | finite negative m e canonical => exact signed_all (pointed_all _ _) negative

theorem colon_not_mem_fixed (places : Nat) (x : Binary64) : ':' ∉ (fixed places x).toList := by
  intro h
  exact absurd (List.all_eq_true.1 (fixed_all places x) ':' h) (by decide)

end Decimal

/-- The names in a postfix list are names that text can write. -/
theorem exists_name_of_mem {text name : String} {ps : List Token} (h : postfixOf text = .ok ps) (hmem : .var name ∈ ps) :
    ∃ n : Formula.Name, n.text = name := by
  obtain ⟨ts, hts, hps⟩ := postfixOf_eq_ok h
  have hread : Token.var name ∈ ts.filter Token.isKept := (perm_of_toPostfix hps).mem_iff.1 hmem
  exact (wellFormed_of_tokenizeWith hts).written _ (List.mem_filter.1 hread).1

theorem Formula.Name.colon_not_mem (n : Formula.Name) : ':' ∉ n.text.toList := by
  rw [Name.text, String.toList_ofList]
  intro h
  exact absurd (Name.isWordChar_of_mem h) (by decide)

namespace Session

variable {s : Session} {text display : String} {v : Binary64} {e : ExprError}

/-- A display is the text of a number, or a name before one. -/
theorem display_cases (h : (s.calculate text).answer = .value v display) :
    display = Decimal.fixed s.settings.precision v ∨
    ∃ n : Formula.Name, display = n.text ++ " = " ++ Decimal.fixed s.settings.precision v := by
  cases hr : (evaluate text s.bindings).result with
  | error e =>
    rw [calculate_of_error hr] at h
    cases h
  | ok x =>
    rcases x with _ | w | name
    · rw [calculate_of_none hr] at h
      cases h
    · rw [calculate_of_real hr] at h
      cases h
      exact Or.inl rfl
    · obtain ⟨n, rfl⟩ := exists_name_of_mem (postfixOf_eq_of_var hr) (List.mem_singleton.2 rfl)
      rw [calculate_of_var hr] at h
      split at h <;> cases h
      exact Or.inr ⟨n, rfl⟩

/-- A failure is an error of the evaluation, or a name that stands alone and is not bound. -/
theorem failure_cases (h : (s.calculate text).answer = .failure e) :
    (evaluate text s.bindings).result = .error e ∨
    ∃ name, postfixOf text = .ok [.var name] ∧ e = .unbound name := by
  cases hr : (evaluate text s.bindings).result with
  | error e' =>
    rw [calculate_of_error hr] at h
    cases h
    exact Or.inl rfl
  | ok x =>
    rcases x with _ | w | name
    · rw [calculate_of_none hr] at h
      cases h
    · rw [calculate_of_real hr] at h
      cases h
    · rw [calculate_of_var hr] at h
      split at h <;> cases h
      exact Or.inr ⟨name, postfixOf_eq_of_var hr, rfl⟩

theorem colon_not_mem_display (h : (s.calculate text).answer = .value v display) : ':' ∉ display.toList := by
  rcases display_cases h with rfl | ⟨n, rfl⟩
  · exact Decimal.colon_not_mem_fixed _ _
  · have hequals : ':' ∉ " = ".toList := by decide
    simp only [String.toList_append, List.mem_append, n.colon_not_mem, hequals, Decimal.colon_not_mem_fixed,
      or_self, not_false_eq_true]

end Session
end Reckoner
