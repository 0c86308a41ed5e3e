import Reckoner.Text.Blank
import Reckoner.Text.Word

/-!
# The normal text of an expression

Before an expression is read its text goes through three passes. Blanks go, but one space stays
where they part two characters of words or numbers. Every minus sign becomes `+-1*`, so that
subtraction is the addition of a product with minus one. A plus sign goes where no operand stands
before it: at the start, and directly after an operator, an opening parenthesis or a separator.

| here | `SPEC_FULL.md` |
| --- | --- |
| `squeeze` | 4.1 step 1 (71-75) |
| `expandMinus`, `dropPlus` | 4.1 step 2 (76-82) |
-/

namespace Reckoner.NormalText

/-- Can the character be part of a name or a number, so that a blank beside it parts two of them? -/
def joins (c : Char) : Bool := Text.isWord c || c == '.'

/-- Drops blanks, but keeps one space between two characters that join. `afterJoining` says whether
the last character kept joins, `gap` whether blanks were dropped since. -/
def squeezeFrom : (afterJoining gap : Bool) → List Char → List Char
  | _, _, [] => []
  | afterJoining, gap, c :: cs =>
    if Text.isBlank c then squeezeFrom afterJoining true cs
    else if afterJoining && gap && joins c then ' ' :: c :: squeezeFrom true false cs
    else c :: squeezeFrom (joins c) false cs

/-- The text without blanks, but for single spaces between characters that join. -/
def squeeze (cs : List Char) : List Char := squeezeFrom false false cs

/-- The text with every minus sign as the addition of a product with minus one. -/
def expandMinus (cs : List Char) : List Char :=
  cs.flatMap fun c => if c = '-' then ['+', '-', '1', '*'] else [c]

/-- Does an operand start after the character, so that a plus sign there means nothing? -/
def opensOperand (c : Char) : Bool :=
  c == '(' || c == ',' || c == '+' || c == '*' || c == '/' || c == '^' || c == '='

/-- Drops plus signs at the places where an operand starts; `atOperand` says whether the text
begins at such a place. -/
def dropPlus : (atOperand : Bool) → List Char → List Char
  | _, [] => []
  | atOperand, c :: cs =>
    if atOperand && c == '+' then dropPlus true cs else c :: dropPlus (opensOperand c) cs

/-- The normal text, as characters. -/
def ofChars (cs : List Char) : List Char := dropPlus true (expandMinus (squeeze cs))

end NormalText

/-- The normal text of an expression (`SPEC_FULL.md`:71-82). -/
def normalize (text : String) : String := .ofList (NormalText.ofChars text.toList)

end Reckoner
