import Reckoner.Token
import Reckoner.Text.Quoted

/-!
# Errors of an expression

An error records what went wrong; `kind` sorts errors into seven kinds, and `message` words them
(`SPEC_FULL.md` 7, 150-154).
-/

namespace Reckoner

inductive ErrorKind where
  | unrecognizedCharacter
  | unrecognizedOperator
  | malformedNumber
  | improperParentheses
  | conversion
  | arity
  | evaluation
  deriving DecidableEq

/-- The name under which reports carry a kind. -/
def ErrorKind.name : ErrorKind → String
  | unrecognizedCharacter => "unrecognized_character"
  | unrecognizedOperator => "unrecognized_operator"
  | malformedNumber => "malformed_number"
  | improperParentheses => "improper_parentheses"
  | conversion => "conversion"
  | arity => "arity"
  | evaluation => "evaluation"

/-- A fault in the parentheses of an expression. -/
inductive ParenFault where
  /-- A closing parenthesis comes before its opening one. -/
  | closedEarly
  /-- Nothing stands between a pair. -/
  | emptyPair
  /-- A pair stays open at the end of the text. -/
  | leftOpen
  /-- A closing parenthesis of a token list has no opening one. -/
  | missingOpen
  /-- An opening parenthesis of a token list has no closing one. -/
  | missingClose
  deriving DecidableEq

def ParenFault.message : ParenFault → String
  | closedEarly => "Closing parenthesis occurs before opening parenthesis."
  | emptyPair => "Empty parentheses pair."
  | leftOpen => "Unbalanced parentheses. Closing parenthesis missing."
  | missingOpen => "Mismatched parentheses; missing opening parenthesis."
  | missingClose => "Mismatched parentheses."

/-- What a calculation that has no finite result was to give. -/
inductive Quantity where
  | power
  | sine
  | cosine
  | tangent
  | exponential
  deriving DecidableEq

def Quantity.name : Quantity → String
  | power => "power"
  | sine => "sine"
  | cosine => "cosine"
  | tangent => "tangent"
  | exponential => "exponential"

inductive ExprError where
  /-- A character that no token begins with. -/
  | unrecognizedCharacter (c : Char)
  /-- A name before a parenthesis that names no known function. -/
  | unrecognizedFunction (name : String)
  /-- A run of digits, points and signs that is no number. -/
  | malformedNumber (literal : String)
  | parentheses (fault : ParenFault)
  /-- A separator outside all parentheses. -/
  | misplacedSeparator
  /-- A token of no kind among infix tokens. -/
  | unknownToken
  /-- An operator that finds `found` operands instead of its arity. -/
  | arity (op : Operator) (found : Int)
  /-- A name that is read before it is bound. -/
  | unbound (name : String)
  /-- An assignment to a number. -/
  | assignmentTarget
  /-- The square root of a number below zero. -/
  | negativeRoot
  /-- The logarithm of a number below zero. -/
  | negativeLogarithm
  /-- A quantity of `x` that does not exist. -/
  | undefinedResult (quantity : Quantity) (x : Binary64)
  /-- A quantity of `x` that is greater than every number. -/
  | overflow (quantity : Quantity) (x : Binary64)
  /-- A token in a postfix list that is neither operand nor operator. -/
  | strayToken (t : Token)
  /-- More than one operand is left at the end. -/
  | tooManyOperands
  /-- No operand is left at the end. -/
  | noOperands
  deriving DecidableEq

namespace ExprError

/-- The kind of an error. What fails while operators are applied is of the last kind, a wrong count
of operands apart. -/
def kind : ExprError → ErrorKind
  | unrecognizedCharacter _ => .unrecognizedCharacter
  | unrecognizedFunction _ => .unrecognizedOperator
  | malformedNumber _ => .malformedNumber
  | parentheses _ => .improperParentheses
  | misplacedSeparator | unknownToken => .conversion
  | arity .. => .arity
  | unbound _ | assignmentTarget | negativeRoot | negativeLogarithm | undefinedResult .. | overflow ..
  | strayToken _ | tooManyOperands | noOperands => .evaluation

def message : ExprError → String
  | unrecognizedCharacter c => "Unrecognised character encountered while parsing: " ++ .singleton c
  | unrecognizedFunction name => "Unrecognised operation : " ++ name
  | malformedNumber literal => "Malformed numeric literal: " ++ Text.quoted literal
  | parentheses fault => fault.message
  | misplacedSeparator =>
    "Either argument separator (,) is misplaced, or parentheses are unbalanced."
  | unknownToken => "Unexpected token: Token()"
  | arity op found =>
    "The number of operands expected for " ++ op.symbol ++ " is " ++ toString op.arity ++
      ". Found " ++ toString found
  | unbound name => "Variable " ++ name ++ " is not initialized."
  | assignmentTarget => "Assignment only works for variables."
  | negativeRoot => "Cannot calculate square root of a negative real number."
  | negativeLogarithm => "Cannot calculate logarithm of a negative real number."
  | undefinedResult quantity x =>
    "Cannot calculate " ++ quantity.name ++ " of " ++ Decimal.general x ++ ": math domain error"
  | overflow quantity x =>
    "Cannot calculate " ++ quantity.name ++ " of " ++ Decimal.general x ++ ": math range error"
  | strayToken t => "Unexpected token in postfix expression: " ++ t.text
  | tooManyOperands => "Too many operands. There might be an operator (or more) missing."
  | noOperands => "Internal error. No operands in stack."

end ExprError
end Reckoner
