import Reckoner.Proofs.NormalText.Resumption

/-!
# What may be inserted into a text

Blanks between two texts do no more than one space would, and nothing at all unless the visible characters on their
two sides join. A plus sign does nothing where an operand starts. A text without minus signs is normal once it has
been brought into normal form (`Tidy.unchanged`). `normalize_insensitive` puts these laws together.
-/

namespace Reckoner

namespace NormalText

/-- Blanks between two texts. -/
theorem ofChars_blanks {ws : List Char} (hne : ws ≠ []) (h : ws.all Text.isBlank = true) (as bs : List Char) :
    ofChars (as ++ ws ++ bs) = ofChars as ++ resume (visible as).getLast? true bs := by
  rw [List.append_assoc, ofChars_append, resume_blank hne h]

/-- Blanks part two texts only where the characters beside them join. -/
theorem ofChars_blanks_of_not_joins {ws as bs : List Char} (hne : ws ≠ []) (h : ws.all Text.isBlank = true)
    (hjoin : ((visible as).getLast?.any joins && (visible bs).head?.any joins) = false) :
    ofChars (as ++ ws ++ bs) = ofChars (as ++ bs) := by
  rw [ofChars_blanks hne h, ofChars_append, resume_gap hjoin]

/-- A plus sign where an operand starts. -/
theorem ofChars_plus {as : List Char} (h : expects (visible as).getLast? = true) (bs : List Char) :
    ofChars (as ++ '+' :: bs) = ofChars (as ++ bs) := by
  have hstart : ofChars ('+' :: bs) = ofChars bs := rfl
  rw [ofChars_append, ofChars_append, resume_of_expects h, resume_of_expects h, hstart]

/-- The passes leave normal text without minus signs as it is. -/
theorem Tidy.unchanged {before : Option Char} {cs : List Char} (h : Tidy before cs) (hminus : '-' ∉ cs) :
    dropPlus (atOperand before) (expandMinus (squeezeFrom (afterJoining before) false cs)) = cs := by
  induction h with
  | nil => rfl
  | minus => exact absurd (List.mem_cons_self ..) hminus
  | @plus before cs ended h ih =>
    rw [squeezeFrom_symbol (by decide) (by decide), ended]
    exact congrArg _ (ih fun hm => hminus (List.mem_cons_of_mem _ hm))
  | @space before c cs left right h ih =>
    have hjoining : afterJoining (some c) = true := right
    have ih := ih fun hm => hminus (by simp [hm])
    rw [hjoining] at ih
    rw [left, squeezeFrom_space right, expandMinus_of_ne (by decide), expandMinus_of_ne (ne_of_joins right (by decide)),
      dropPlus_of_ne (by decide), dropPlus_of_ne (ne_of_joins right (by decide))]
    exact congrArg (' ' :: c :: ·) ih
  | @char before c cs minus plus visible h ih =>
    have ih := ih fun hm => hminus (List.mem_cons_of_mem c hm)
    rw [squeezeFrom_visible visible (by simp), expandMinus_of_ne minus, dropPlus_of_ne plus]
    exact congrArg _ ih

theorem ofChars_ofChars {cs : List Char} (h : '-' ∉ cs) : ofChars (ofChars cs) = ofChars cs := by
  refine (tidy_ofChars cs).unchanged fun hm => ?_
  rcases mem_of_mem_ofChars hm with hc | hc | hc | hc | hc
  · exact h hc
  all_goals exact absurd hc (by decide)

end NormalText

open NormalText

/-- **What a text may have inserted.** Blanks between two texts are one space where the visible characters beside
them both join, and nothing where they do not. A plus sign is nothing where an operand starts: at the beginning, and
after a parenthesis that opens, a separator or an operator. The normal text of a text without minus signs is its own
normal text. -/
theorem normalize_insensitive (a b : String) :
    (∀ w : String, w ≠ "" → w.toList.all Text.isBlank = true → normalize (a ++ w ++ b) =
      if ((visible a.toList).getLast?.any joins && (visible b.toList).head?.any joins) = true
      then normalize (a ++ " " ++ b) else normalize (a ++ b)) ∧
    (expects (visible a.toList).getLast? = true → normalize (a ++ "+" ++ b) = normalize (a ++ b)) ∧
    ('-' ∉ a.toList → normalize (normalize a) = normalize a) := by
  refine ⟨fun w hne hw => ?_, fun h => ?_, fun h => ?_⟩
  · have hne : w.toList ≠ [] := by simpa using hne
    have hspace : (" " : String).toList ≠ [] ∧ (" " : String).toList.all Text.isBlank = true := by decide
    unfold normalize
    simp only [String.toList_append]
    split
    · rw [ofChars_blanks hne hw, ofChars_blanks hspace.1 hspace.2]
    · rename_i hjoin
      rw [ofChars_blanks_of_not_joins hne hw (Bool.eq_false_iff.2 hjoin)]
  · have hplus : a.toList ++ ("+" : String).toList ++ b.toList = a.toList ++ '+' :: b.toList := by simp
    unfold normalize
    rw [String.toList_append, String.toList_append, hplus, ofChars_plus h, String.toList_append]
  · unfold normalize
    rw [String.toList_ofList, ofChars_ofChars h]

/-- Blanks between a number and a name and between a number and an operator, a plus sign after a minus sign, and
a text in which a space and a plus sign stay. -/
theorem normalize_insensitive_sample :
    normalize "2 \t\n x" = normalize "2   x" ∧ normalize "2 \t\n *x" = normalize "2 *x" ∧
    normalize "2 - +(x)" = normalize "2 - (x)" ∧ normalize (normalize "(+2 . + + x") = normalize "(+2 . + + x" := by
  obtain ⟨hblanks, -, -⟩ := normalize_insensitive "2 " " x"
  obtain ⟨hblanks', -, -⟩ := normalize_insensitive "2 " " *x"
  obtain ⟨-, hplus, -⟩ := normalize_insensitive "2 - " "(x)"
  obtain ⟨-, -, hagain⟩ := normalize_insensitive "(+2 . + + x" ""
  exact ⟨hblanks "\t\n" (by decide) (by decide), hblanks' "\t\n" (by decide) (by decide), hplus (by decide),
    hagain (by decide)⟩

end Reckoner
