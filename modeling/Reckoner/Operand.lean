import Reckoner.Decimal.Text

/-!
# Operands

An operand is a number or a name that stands for whatever number is bound to it when it is read
(`SPEC_FULL.md` 3, 45-49).
-/

namespace Reckoner

/-- A number, or a name to be read later. -/
inductive Operand where
  | real (value : Binary64)
  | var (name : String)
  deriving DecidableEq

/-- A number with six significant digits, or the name. -/
def Operand.text : Operand → String
  | .real value => Decimal.general value
  | .var name => name

end Reckoner
