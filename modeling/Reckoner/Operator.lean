/-!
# Operators

Five binary operators stand between two operands, seven functions before one operand in
parentheses. A priority orders the binary operators below the functions (`SPEC_FULL.md` 3, 51-55, and
4.4, 122 and 128).
-/

namespace Reckoner

inductive Priority where
  | assignment
  | additive
  | multiplicative
  | exponential
  | functional
  deriving DecidableEq

namespace Priority

def level : Priority → Nat
  | assignment => 0
  | additive => 1
  | multiplicative => 2
  | exponential => 3
  | functional => 4

def name : Priority → String
  | assignment => "ASSIGNMENT"
  | additive => "ADDITIVE"
  | multiplicative => "MULTIPLICATIVE"
  | exponential => "EXPONENTIAL"
  | functional => "FUNCTIONAL"

end Priority

/-- An operator between two operands. -/
inductive BinaryOp where
  | assign
  | add
  | mul
  | div
  | pow
  deriving DecidableEq

namespace BinaryOp

def symbol : BinaryOp → Char
  | assign => '='
  | add => '+'
  | mul => '*'
  | div => '/'
  | pow => '^'

/-- The operator that a character writes. -/
def ofSymbol? : Char → Option BinaryOp
  | '=' => some assign
  | '+' => some add
  | '*' => some mul
  | '/' => some div
  | '^' => some pow
  | _ => none

theorem ofSymbol?_symbol (op : BinaryOp) : ofSymbol? op.symbol = some op := by cases op <;> rfl

theorem ofSymbol?_eq_some_iff {c : Char} {op : BinaryOp} : ofSymbol? c = some op ↔ c = op.symbol := by
  constructor
  · unfold ofSymbol?; split <;> simp <;> rintro rfl <;> rfl
  · rintro rfl; exact ofSymbol?_symbol op

/-- The priority of a binary operator, always below that of a function. -/
def priority : BinaryOp → Priority
  | assign => .assignment
  | add => .additive
  | mul | div => .multiplicative
  | pow => .exponential

end BinaryOp

inductive Fn where
  | abs
  | sqrt
  | sin
  | cos
  | tan
  | exp
  | log
  deriving DecidableEq

namespace Fn

def name : Fn → String
  | abs => "abs"
  | sqrt => "sqrt"
  | sin => "sin"
  | cos => "cos"
  | tan => "tan"
  | exp => "exp"
  | log => "log"

def all : List Fn := [abs, sqrt, sin, cos, tan, exp, log]

theorem mem_all (f : Fn) : f ∈ all := by cases f <;> decide

/-- The function of a name, among those that are known. -/
def ofName? (known : List Fn) (name : String) : Option Fn := known.find? (·.name == name)

end Fn

inductive Operator where
  | binary (op : BinaryOp)
  | function (f : Fn)
  deriving DecidableEq

namespace Operator

def symbol : Operator → String
  | binary op => .singleton op.symbol
  | function f => f.name

def arity : Operator → Nat
  | binary _ => 2
  | function _ => 1

def priority : Operator → Priority
  | binary op => op.priority
  | function _ => .functional

/-- Does the operator stand before its operand? -/
def isFunction : Operator → Bool
  | binary _ => false
  | function _ => true

end Operator
end Reckoner
