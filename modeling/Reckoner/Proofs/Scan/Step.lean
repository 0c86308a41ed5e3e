import Reckoner.Proofs.Formula.NormalText
import Reckoner.Proofs.Scan.Nesting

/-!
# What a scan does with a character

One equation for each class of characters, and for the runs that a number or a name goes on with.
-/

namespace Reckoner.Scan

open Formula (beginsName toNat_of_isDigit)

/-! ## Classes of characters -/

def isNumberChar (c : Char) : Bool := c.isDigit || c == '-' || c == '.'

theorem toNat_of_beginsName {c : Char} (h : beginsName c = true) : 0x41 ≤ c.toNat := by
  have hleast : ∀ p ∈ Text.letterRanges, 0x41 ≤ p.1 := by decide +kernel
  simp only [beginsName, Bool.or_eq_true, beq_iff_eq] at h
  rcases h with hl | rfl
  · obtain ⟨p, hp, hc, -⟩ := Text.Ranges.mem_of_contains hl
    exact Nat.le_trans (hleast p hp) hc
  · decide

theorem isNameChar_eq (c : Char) : isNameChar c = (beginsName c || c.isDigit) := by
  simp only [isNameChar, beginsName]
  cases Text.isLetter c <;> cases c.isDigit <;> simp

theorem isNameChar_of_beginsName {c : Char} (h : beginsName c = true) : isNameChar c = true := by
  rw [isNameChar_eq, h]
  rfl

theorem isNumberChar_of_beginsName {c : Char} (h : beginsName c = true) : isNumberChar c = false := by
  have hlow := toNat_of_beginsName h
  have hdigit : c.isDigit = false := by
    rw [Bool.eq_false_iff]
    intro hd
    have := toNat_of_isDigit hd
    omega
  have hminus : c ≠ '-' := by rintro rfl; exact absurd hlow (by decide)
  have hpoint : c ≠ '.' := by rintro rfl; exact absurd hlow (by decide)
  simp [isNumberChar, hdigit, hminus, hpoint]

/-! ## One character -/

variable {known : List Fn} {ts : List Token} {d : Nat}

/-- A character of a number goes to a number, unless it goes on with a name. -/
theorem step_of_isNumberChar {c : Char} (h : isNumberChar c = true) {s : Scan}
    (hs : ∀ cs, s.pending = .word cs → isNameChar c = false) : s.step known c = .ok (s.stepNumber c) := by
  have hn : s.takesAsNumber c = true := by
    unfold takesAsNumber
    split
    · rename_i cs hcs
      have hword := hs cs hcs
      rw [isNameChar_eq, Bool.or_eq_false_iff] at hword
      simpa [isNumberChar, hword.2] using h
    · exact h
  simp only [step, hn, if_true]

/-- A character that begins a name is no part of a number. -/
theorem step_of_beginsName {c : Char} (h : beginsName c = true) (s : Scan) : s.step known c = s.stepWord c := by
  have hnumber := isNumberChar_of_beginsName h
  have hn : s.takesAsNumber c = false := by
    unfold takesAsNumber
    split
    · simp only [isNumberChar, Bool.or_eq_false_iff] at hnumber
      simp [hnumber.1.2, hnumber.2]
    · exact hnumber
  simp only [step, hn, isNameChar_of_beginsName h, Bool.false_eq_true, if_false, if_true]

/-- A name goes on with every character of a name. -/
theorem step_of_isNameChar {c : Char} (h : isNameChar c = true) {held : List Char} :
    step known ⟨ts, .word held, d⟩ c = .ok ⟨ts, .word (c :: held), d⟩ := by
  have hminus : c ≠ '-' := by rintro rfl; exact absurd h (by decide)
  have hpoint : c ≠ '.' := by rintro rfl; exact absurd h (by decide)
  simp [step, takesAsNumber, stepWord, h, hminus, hpoint]

/-- A character that is no part of a number or a name. -/
theorem step_of_neither {c : Char} (hb : beginsName c = false) (hc : isNumberChar c = false) (s : Scan) :
    s.step known c =
      match BinaryOp.ofSymbol? c with
      | some op => s.flush.map (·.emit (.binary op))
      | none =>
        if c = '(' then s.stepOpen known
        else if c = ')' then s.stepClose
        else if c = ',' then s.flush.map (·.emit .separator)
        else if c = ' ' then s.flush
        else .error (.unrecognizedCharacter c) := by
  have hc' := hc
  simp only [isNumberChar, Bool.or_eq_false_iff] at hc'
  have hn : ¬ s.takesAsNumber c = true := by
    rw [Bool.not_eq_true]
    unfold takesAsNumber
    split
    · simp [hc'.1.2, hc'.2]
    · exact hc
  have hw : ¬ isNameChar c = true := by
    rw [isNameChar_eq, hb, hc'.1.1]
    exact Bool.false_ne_true
  exact (if_neg hn).trans (if_neg hw)

theorem step_symbol (s : Scan) (op : BinaryOp) : s.step known op.symbol = s.flush.map (·.emit (.binary op)) := by
  rw [step_of_neither (by cases op <;> decide) (by cases op <;> decide), BinaryOp.ofSymbol?_symbol]

theorem step_openParen (s : Scan) : s.step known '(' = s.stepOpen known :=
  step_of_neither (by decide) (by decide) s

theorem step_closeParen (s : Scan) : s.step known ')' = s.stepClose :=
  step_of_neither (by decide) (by decide) s

theorem step_separator (s : Scan) : s.step known ',' = s.flush.map (·.emit .separator) :=
  step_of_neither (by decide) (by decide) s

theorem step_space (s : Scan) : s.step known ' ' = s.flush :=
  step_of_neither (by decide) (by decide) s

/-! ## Runs of characters -/

theorem steps_number {cs : List Char} (h : ∀ c ∈ cs, isNumberChar c = true) (held : List Char) :
    steps known ⟨ts, .number held, d⟩ cs = .ok ⟨ts, .number (cs.reverse ++ held), d⟩ := by
  induction cs generalizing held with
  | nil => rfl
  | cons c cs ih =>
    have hc : step known ⟨ts, .number held, d⟩ c = .ok ⟨ts, .number (c :: held), d⟩ :=
      step_of_isNumberChar (h c (by simp)) (by simp)
    rw [steps_cons_of_ok hc, ih fun e he => h e (by simp [he])]
    simp

theorem steps_word {cs : List Char} (h : ∀ c ∈ cs, isNameChar c = true) (held : List Char) :
    steps known ⟨ts, .word held, d⟩ cs = .ok ⟨ts, .word (cs.reverse ++ held), d⟩ := by
  induction cs generalizing held with
  | nil => rfl
  | cons c cs ih =>
    rw [steps_cons_of_ok (step_of_isNameChar (h c (by simp))), ih fun e he => h e (by simp [he])]
    simp

end Reckoner.Scan
