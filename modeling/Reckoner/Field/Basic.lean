import Reckoner.Binary64.Basic

/-!
# Loosely typed fields

Settings and reports may be given as named values of any type. Each field is read by itself, and a
fault says what is wrong with it.
-/

namespace Reckoner

/-- A value as it is given. -/
inductive FieldValue where
  | null
  | bool (b : Bool)
  | int (n : Int)
  | float (x : Binary64)
  | text (s : String)
  | other

/-- Named values, each name at most once. -/
abbrev Fields := List (String × FieldValue)

/-- What is wrong with the value of a field. -/
inductive Fault where
  | missing
  | stringType
  | intType
  | intParsing
  | intParsingSize
  | intFromFloat
  | finiteNumber
  | greaterThanEqual
  | lessThanEqual
  | floatType
  | floatParsing
  | valueError
  deriving DecidableEq

def Fault.name : Fault → String
  | missing => "missing"
  | stringType => "string_type"
  | intType => "int_type"
  | intParsing => "int_parsing"
  | intParsingSize => "int_parsing_size"
  | intFromFloat => "int_from_float"
  | finiteNumber => "finite_number"
  | greaterThanEqual => "greater_than_equal"
  | lessThanEqual => "less_than_equal"
  | floatType => "float_type"
  | floatParsing => "float_parsing"
  | valueError => "value_error"

structure FieldFault where
  field : String
  fault : Fault
  deriving DecidableEq

/-- The fault of a field that was read, as a list of at most one. -/
def FieldFault.ofReading {α : Type} (field : String) : Except Fault α → List FieldFault
  | .ok _ => []
  | .error fault => [⟨field, fault⟩]

end Reckoner
