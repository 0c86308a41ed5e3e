import Reckoner.Proofs.NormalText

/-!
# What stands where in normal text

`Fits` says what a character of normal text has around it: a space has two characters that join, a plus sign has
the end of an operand before it, and a minus sign the start of one before it and `1*` after it. `normalize_fits`
has this for every place of a normal text. It also says that nothing else is lost or added: without its blanks, its
plus signs and the `1*` after its minus signs, a normal text is the text without its blanks and plus signs.
-/

namespace Reckoner

namespace NormalText

/-! ## Places -/

/-- What may stand around a character of normal text: the character before it and the text after it. -/
structure Fits (before : Option Char) (c : Char) (after : List Char) : Prop where
  /-- A blank is one space between two characters that join. -/
  blank : Text.isBlank c = true → c = ' ' ∧
    ∃ l r, before = some l ∧ after.head? = some r ∧ joins l = true ∧ joins r = true ∧
      Text.isBlank l = false ∧ Text.isBlank r = false
  /-- A plus sign is neither first nor where an operand starts. -/
  plus : c = '+' → atOperand before = false
  /-- A minus sign is first or where an operand starts, and is written as a product with minus one. -/
  minus : c = '-' → atOperand before = true ∧ ['1', '*'] <+: after

/-- Do all characters of a text fit, after a character? -/
def Fitting : Option Char → List Char → Prop
  | _, [] => True
  | before, c :: cs => Fits before c cs ∧ Fitting (some c) cs

variable {before : Option Char} {c : Char} {cs : List Char}

theorem Fits.of_visible (visible : Text.isBlank c = false) (plus : c ≠ '+') (minus : c ≠ '-') : Fits before c cs where
  blank h := absurd (h.symm.trans visible) Bool.noConfusion
  plus h := absurd h plus
  minus h := absurd h minus

theorem fits_plus (h : atOperand before = false) : Fits before '+' cs where
  blank h := absurd h (by decide)
  plus _ := h
  minus h := absurd h (by decide)

theorem fits_minus (h : atOperand before = true) : Fits before '-' ('1' :: '*' :: cs) where
  blank h := absurd h (by decide)
  plus h := absurd h (by decide)
  minus _ := ⟨h, cs, rfl⟩

theorem fits_space (hl : afterJoining before = true) (hr : joins c = true) : Fits before ' ' (c :: cs) where
  blank _ := by
    cases before with
    | none => cases hl
    | some l => exact ⟨rfl, l, c, rfl, rfl, hl, hr, not_isBlank_of_joins hl, not_isBlank_of_joins hr⟩
  plus h := absurd h (by decide)
  minus h := absurd h (by decide)

theorem Tidy.fitting (h : Tidy before cs) : Fitting before cs := by
  induction h with
  | nil => trivial
  | minus starts h ih =>
    exact ⟨fits_minus starts, .of_visible (by decide) (by decide) (by decide),
      .of_visible (by decide) (by decide) (by decide), ih⟩
  | plus ended h ih => exact ⟨fits_plus ended, ih⟩
  | @space before c cs left right h ih =>
    have hvisible : Fits (some ' ') c cs :=
      .of_visible (not_isBlank_of_joins right) (ne_of_joins right (by decide)) (ne_of_joins right (by decide))
    exact ⟨fits_space left right, hvisible, ih⟩
  | char minus plus visible h ih => exact ⟨.of_visible visible plus minus, ih⟩

theorem Fitting.fits {as bs : List Char} (h : Fitting before (as ++ c :: bs)) :
    Fits (as.getLast?.or before) c bs := by
  induction as generalizing before with
  | nil => exact h.1
  | cons a as ih =>
    rw [getLast?_cons_or]
    exact ih h.2

/-! ## Contents -/

/-- The text without the `1*` after its minus signs. -/
def dropFactors : List Char → List Char
  | '-' :: '1' :: '*' :: cs => '-' :: dropFactors cs
  | c :: cs => c :: dropFactors cs
  | [] => []

/-- The characters of a text that are neither blanks nor plus signs. -/
def contents (cs : List Char) : List Char := cs.filter fun c => !Text.isBlank c && c != '+'

theorem dropFactors_cons (h : c ≠ '-') (cs : List Char) : dropFactors (c :: cs) = c :: dropFactors cs := by
  rw [dropFactors]
  rintro _ rfl
  exact absurd rfl h

theorem contents_cons (c : Char) (cs : List Char) :
    contents (c :: cs) = if (!Text.isBlank c && c != '+') = true then c :: contents cs else contents cs :=
  List.filter_cons

theorem contents_squeezeFrom (a g : Bool) (cs : List Char) : contents (squeezeFrom a g cs) = contents cs := by
  induction cs generalizing a g with
  | nil => rfl
  | cons c cs ih =>
    rw [squeezeFrom]
    split
    · rename_i hb
      rw [ih, contents_cons, hb]
      rfl
    split
    · have hspace : contents (' ' :: c :: squeezeFrom true false cs) = contents (c :: squeezeFrom true false cs) := rfl
      rw [hspace, contents_cons, contents_cons, ih]
    · rw [contents_cons, contents_cons, ih]

/-- A minus sign stays, its factor goes, and so does a plus sign, whether it has been dropped or not. -/
theorem contents_signs (b : Bool) (cs : List Char) :
    contents (dropFactors (dropPlus b (expandMinus cs))) = contents cs := by
  induction cs generalizing b with
  | nil => rfl
  | cons c cs ih =>
    by_cases hminus : c = '-'
    · subst hminus
      have hsign : ∀ ds, contents (dropFactors (dropPlus true ('-' :: '1' :: '*' :: ds))) =
          '-' :: contents (dropFactors (dropPlus true ds)) := fun _ => rfl
      rw [expandMinus_minus]
      cases b with
      | true => exact (hsign _).trans (congrArg _ (ih true))
      | false => exact (hsign _).trans (congrArg _ (ih true))
    rw [expandMinus_of_ne hminus]
    by_cases hplus : c = '+'
    · subst hplus
      cases b with
      | true => exact ih true
      | false => exact ih true
    · rw [dropPlus_of_ne hplus, dropFactors_cons hminus, contents_cons, contents_cons, ih]

end NormalText

open NormalText

/-- **The shape of normal text.** Every character of a normal text fits where it stands, and a normal text has the
contents of its text, a factor after each minus sign apart. -/
theorem normalize_fits (text : String) :
    (∀ before c after, (normalize text).toList = before ++ c :: after → Fits before.getLast? c after) ∧
    contents (dropFactors (normalize text).toList) = contents text.toList := by
  have htext : (normalize text).toList = ofChars text.toList := String.toList_ofList
  rw [htext]
  constructor
  · intro before c after h
    have hfit := (tidy_ofChars text.toList).fitting
    rw [h] at hfit
    simpa using hfit.fits
  · rw [ofChars, squeeze, contents_signs, contents_squeezeFrom]

/-- A space that stays, a sign, a subtraction, and plus signs of which none stays. -/
example : normalize "+ x  .y - -( + 2 )" = "x .y+-1*-1*(2)" := rfl

end Reckoner
