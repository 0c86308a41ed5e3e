import Reckoner.Operand
import Reckoner.Operator

/-!
# Tokens

The units that an expression is read into (`SPEC_FULL.md` 3, 41-43). `unknown` is a token of no kind, which no reading
produces but which a list given from outside may hold.
-/

namespace Reckoner

/-- A unit of an expression. -/
inductive Token where
  | operand (x : Operand)
  | operator (op : Operator)
  | openParen
  | closeParen
  | separator
  | unknown
  deriving DecidableEq

namespace Token

abbrev real (value : Binary64) : Token := .operand (.real value)

abbrev var (name : String) : Token := .operand (.var name)

abbrev binary (op : BinaryOp) : Token := .operator (.binary op)

abbrev function (f : Fn) : Token := .operator (.function f)

/-- A token as it is written; a token of no kind has no text. -/
def text : Token → String
  | operand x => x.text
  | operator op => op.symbol
  | openParen => "("
  | closeParen => ")"
  | separator => ","
  | unknown => ""

/-- The texts of tokens, one space between two. -/
def texts (ts : List Token) : String := " ".intercalate (ts.map text)

end Token
end Reckoner
