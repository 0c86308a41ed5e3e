import Reckoner.Proofs.NormalText

/-!
# Normal text in two parts

The normal text of two texts put together is that of the first and a rest (`ofChars_append`), and the rest depends on
the first through two facts alone: which of its characters that are no blanks is the last, and whether a blank follows
that one. Where an operand starts, the rest is the normal text of the second text (`resume_of_expects`). What blanks and
plus signs between the two do can be read off.
-/

namespace Reckoner

namespace NormalText

def visible (cs : List Char) : List Char := cs.filter fun c => !Text.isBlank c

/-- Does an operand start after text whose last visible character is this one, or that has none? -/
def expects (before : Option Char) : Bool := before.all fun c => opensOperand c || c == '-'

/-- What the passes leave of text that is not the first: after the visible character `before`, and after blanks if
there is a gap. -/
def resume (before : Option Char) (gap : Bool) (cs : List Char) : List Char :=
  dropPlus (expects before) (expandMinus (squeezeFrom (afterJoining before) gap cs))

variable {before : Option Char} {c : Char}

theorem visible_cons (c : Char) (cs : List Char) :
    visible (c :: cs) = if Text.isBlank c = true then visible cs else c :: visible cs := by
  cases h : Text.isBlank c <;> simp [visible, h]

/-! ## Characters that an operand follows -/

theorem not_joining_of_expects (h : expects before = true) : afterJoining before = false := by
  cases before with
  | none => rfl
  | some c =>
    simp only [expects, Option.all_some, Bool.or_eq_true, beq_iff_eq] at h
    rcases h with ho | rfl
    · exact (symbol_of_opensOperand ho).2.1
    · decide

/-! ## The passes along two texts -/

theorem squeezeFrom_append (before : Option Char) (gap : Bool) (as bs : List Char) :
    squeezeFrom (afterJoining before) gap (as ++ bs) =
      squeezeFrom (afterJoining before) gap as ++
        squeezeFrom (afterJoining ((visible as).getLast?.or before)) (as.getLast?.elim gap Text.isBlank) bs := by
  induction as generalizing before gap with
  | nil => rfl
  | cons c as ih =>
    have hgap : (c :: as).getLast?.elim gap Text.isBlank = as.getLast?.elim (Text.isBlank c) Text.isBlank := by
      rw [List.getLast?_cons]
      cases as.getLast? <;> rfl
    rw [hgap, List.cons_append, squeezeFrom, squeezeFrom, visible_cons]
    by_cases hb : Text.isBlank c = true
    · simp only [hb, if_true]
      exact ih before true
    · have hc : afterJoining (some c) = joins c := rfl
      have ih := ih (some c) false
      rw [hc] at ih
      simp only [hb, getLast?_cons_or, Bool.false_eq_true, if_false]
      split
      · rename_i hjoin
        have hjoins : joins c = true := (Bool.and_eq_true_iff.1 hjoin).2
        rw [hjoins] at ih
        rw [ih]
        rfl
      · rw [ih]
        rfl

/-- Squeezed text ends in the last visible character. -/
theorem getLast?_squeezeFrom (a g : Bool) (cs : List Char) : (squeezeFrom a g cs).getLast? = (visible cs).getLast? := by
  induction cs generalizing a g with
  | nil => rfl
  | cons c cs ih =>
    rw [squeezeFrom, visible_cons]
    split
    · exact ih a true
    split <;> simp [List.getLast?_cons, ih]

/-- An operand starts after the product sign that a minus sign ends in. -/
theorem atOperand_getLast?_expandMinus (cs : List Char) :
    atOperand (expandMinus cs).getLast? = expects cs.getLast? := by
  rcases List.eq_nil_or_concat cs with rfl | ⟨cs, c, rfl⟩
  · rfl
  · rw [List.concat_eq_append, expandMinus_append, List.getLast?_append, List.getLast?_concat]
    by_cases hc : c = '-'
    · subst hc
      rfl
    · simp [expandMinus, atOperand, expects, hc]

theorem dropPlus_append (before : Option Char) (as bs : List Char) :
    dropPlus (atOperand before) (as ++ bs) =
      dropPlus (atOperand before) as ++ dropPlus (atOperand (as.getLast?.or before)) bs := by
  induction as generalizing before with
  | nil => rfl
  | cons c as ih =>
    have hc : atOperand (some c) = opensOperand c := rfl
    have ih := ih (some c)
    rw [hc] at ih
    rw [getLast?_cons_or, List.cons_append, dropPlus_cons, dropPlus_cons]
    split
    · rename_i hplus
      obtain rfl : c = '+' := by simpa using (Bool.and_eq_true_iff.1 hplus).2
      exact ih
    · rw [ih]
      rfl

/-- Whether an operand starts at the end does not depend on the plus signs that have been dropped. -/
theorem atOperand_getLast?_dropPlus (before : Option Char) (cs : List Char) :
    atOperand ((dropPlus (atOperand before) cs).getLast?.or before) = atOperand (cs.getLast?.or before) := by
  induction cs generalizing before with
  | nil => rfl
  | cons c cs ih =>
    rw [dropPlus_cons, getLast?_cons_or]
    split
    · rename_i hplus
      obtain ⟨hb, hc⟩ := Bool.and_eq_true_iff.1 hplus
      obtain rfl : c = '+' := by simpa using hc
      have ih := ih before
      rw [hb] at ih
      rw [ih]
      cases cs.getLast? with
      | none => exact hb
      | some d => rfl
    · rw [getLast?_cons_or]
      exact ih (some c)

/-! ## Resuming -/

/-- The normal text of two texts. -/
theorem ofChars_append (as bs : List Char) :
    ofChars (as ++ bs) = ofChars as ++ resume (visible as).getLast? (as.getLast?.any Text.isBlank) bs := by
  have hgap : as.getLast?.elim false Text.isBlank = as.getLast?.any Text.isBlank := by cases as.getLast? <;> rfl
  have hsqueeze := squeezeFrom_append none false as bs
  rw [Option.or_none, hgap] at hsqueeze
  have hlast : atOperand ((expandMinus (squeeze as)).getLast?.or none) = expects (visible as).getLast? := by
    rw [Option.or_none, atOperand_getLast?_expandMinus, squeeze, getLast?_squeezeFrom]
  calc ofChars (as ++ bs)
      _ = dropPlus (atOperand none) (expandMinus (squeeze as) ++
            expandMinus (squeezeFrom (afterJoining (visible as).getLast?) (as.getLast?.any Text.isBlank) bs)) := by
        rw [← expandMinus_append]
        exact congrArg (fun cs => dropPlus true (expandMinus cs)) hsqueeze
      _ = ofChars as ++ resume (visible as).getLast? (as.getLast?.any Text.isBlank) bs := by
        rw [dropPlus_append, hlast]
        rfl

/-- An operand starts after normal text exactly if one starts after the text. -/
theorem atOperand_getLast?_ofChars (cs : List Char) :
    atOperand (ofChars cs).getLast? = expects (visible cs).getLast? := by
  have h := atOperand_getLast?_dropPlus none (expandMinus (squeeze cs))
  rw [Option.or_none, Option.or_none, atOperand_getLast?_expandMinus, squeeze, getLast?_squeezeFrom] at h
  exact h

/-- Where an operand starts, text is read as at the beginning. -/
theorem resume_of_expects (h : expects before = true) (gap : Bool) (cs : List Char) :
    resume before gap cs = ofChars cs := by
  rw [resume, h, not_joining_of_expects h, squeezeFrom_false]
  rfl

/-- A character that is neither blank nor sign stays, and nothing comes before it. -/
theorem resume_cons {gap : Bool} (hb : Text.isBlank c = false) (hplus : c ≠ '+') (hminus : c ≠ '-')
    (hjoin : (afterJoining before && gap && joins c) = false) (cs : List Char) :
    resume before gap (c :: cs) = c :: resume (some c) false cs := by
  have hexpects : expects (some c) = opensOperand c := by simp [expects, hminus]
  rw [resume, squeezeFrom_visible hb hjoin, expandMinus_of_ne hminus, dropPlus_of_ne hplus, resume, hexpects]
  rfl

/-- After a symbol that an operand follows, text is read as at the beginning. -/
theorem resume_symbol (hopens : opensOperand c = true) (hplus : c ≠ '+') (gap : Bool) (cs : List Char) :
    resume before gap (c :: cs) = c :: ofChars cs := by
  obtain ⟨hblank, hjoins, hminus⟩ := symbol_of_opensOperand hopens
  rw [resume_cons hblank hplus hminus (by simp [hjoins]), resume_of_expects (by simp [expects, hopens])]

/-- A plus sign stays where an operand has ended. -/
theorem resume_plus (h : expects before = false) (gap : Bool) (cs : List Char) :
    resume before gap ('+' :: cs) = '+' :: ofChars cs := by
  rw [resume, h, squeezeFrom_symbol (by decide) (by decide)]
  rfl

/-- A closing parenthesis stays as it is. -/
theorem resume_closeParen (before : Option Char) (gap : Bool) : resume before gap [')'] = [')'] := by
  have hjoins : joins ')' = false := by decide
  rw [resume_cons (by decide) (by decide) (by decide) (by simp [hjoins])]
  rfl

theorem resume_blank {ws : List Char} (hne : ws ≠ []) (h : ws.all Text.isBlank = true) (before : Option Char)
    (gap : Bool) (cs : List Char) : resume before gap (ws ++ cs) = resume before true cs := by
  have hgap : (gap || !ws.isEmpty) = true := by simp [hne]
  rw [resume, squeezeFrom_blank h, hgap]
  rfl

/-- Blanks leave no trace unless both of their neighbours join. -/
theorem resume_gap {cs : List Char} (h : (afterJoining before && (visible cs).head?.any joins) = false) (g g' : Bool) :
    resume before g cs = resume before g' cs := by
  have hsqueeze : squeezeFrom (afterJoining before) g cs = squeezeFrom (afterJoining before) g' cs := by
    cases cs with
    | nil => rfl
    | cons c cs =>
      rw [visible_cons] at h
      rw [squeezeFrom, squeezeFrom]
      split
      · rfl
      · rename_i hb
        have hjoin : ∀ g, (afterJoining before && g && joins c) = false := fun g => by
          simp only [hb, if_false, List.head?_cons, Option.any_some, Bool.false_eq_true] at h
          cases g <;> simp [h]
        rw [hjoin, hjoin]
  rw [resume, resume, hsqueeze]

end NormalText

end Reckoner
