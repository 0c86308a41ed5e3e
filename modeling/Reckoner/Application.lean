import Reckoner.Bindings
import Reckoner.Error
import Reckoner.Binary64.Power

/-!
# Applying operators

A calculation on numbers fails only where the exact result does not exist or, for powers and the
exponential, is too great; sums, products and quotients always give a number. Applying an operator
reads its operands from left to right when it is applied, and not before. Only an assignment
changes the bindings, and only when its right side can be read.

| here | `SPEC_FULL.md` |
| --- | --- |
| `Binary64.power`, `Binary64.exponential`, `Binary64.circular` | 4.4 (125-127), results that cannot be represented |
| `Binary64.squareRoot`, `Binary64.logarithm` | 4.4 (128-130), arguments that are refused |
| `Operand.value` | 3 (47-49) and 4.4 (130), names are read late |
| `Operand.describe` | 6 (143-144), the display form |
| `Operator.check`, `Application.ofOperands` | 3 (54-55, 62-63), the count of operands |
| `Application.run` | 4.4 (122-125), operators and assignment |
-/

namespace Reckoner

/-! ## Calculations on numbers -/

namespace Binary64

/-- The power, where it exists and is not too great. Infinite operands have no faulty powers. -/
def power (x y : Binary64) : Except ExprError Binary64 :=
  match x.pow y with
  | .nan => if x.isFinite && y.isFinite then .error (.undefinedResult .power x) else .ok .nan
  | .infinite negative =>
    if x.isFinite && y.isFinite then
      .error (if x.isZero then .undefinedResult .power x else .overflow .power x)
    else .ok (.infinite negative)
  | z => .ok z

def squareRoot (x : Binary64) : Except ExprError Binary64 :=
  if x.isBelowZero then .error .negativeRoot else .ok x.sqrt

def logarithm (x : Binary64) : Except ExprError Binary64 :=
  if x.isBelowZero then .error .negativeLogarithm else .ok x.log

def exponential (x : Binary64) : Except ExprError Binary64 :=
  if x.expOverflows then .error (.overflow .exponential x) else .ok x.exp

def circular (quantity : Quantity) (f : Binary64 → Binary64) : Binary64 → Except ExprError Binary64
  | .infinite negative => .error (.undefinedResult quantity (.infinite negative))
  | x => .ok (f x)

end Binary64

def Fn.calculate : Fn → Binary64 → Except ExprError Binary64
  | abs, x => .ok x.abs
  | sqrt, x => x.squareRoot
  | sin, x => x.circular .sine Binary64.sin
  | cos, x => x.circular .cosine Binary64.cos
  | tan, x => x.circular .tangent Binary64.tan
  | exp, x => x.exponential
  | log, x => x.logarithm

/-! ## Operands -/

namespace Operand

/-- The number that an operand stands for (`SPEC_FULL.md`:47-49, 130). -/
def value (b : Bindings) : Operand → Except ExprError Binary64
  | real x => .ok x
  | var name =>
    match b.get? name with
    | some x => .ok x
    | none => .error (.unbound name)

/-- An operand as it is shown: a number with `places` decimals, a bound name with its number, any
other name alone. -/
def describe (b : Bindings) (places : Nat) : Operand → String
  | real x => Decimal.fixed places x
  | var name =>
    match b.get? name with
    | some x => name ++ " = " ++ Decimal.fixed places x
    | none => name

end Operand

/-! ## Operators on operands -/

/-- An operator with as many operands as it takes. -/
inductive Application where
  | binary (op : BinaryOp) (x y : Operand)
  | function (f : Fn) (x : Operand)
  deriving DecidableEq

/-- Refuses a count of operands other than the arity. -/
def Operator.check (op : Operator) (count : Int) : Except ExprError Unit :=
  if count = op.arity then .ok () else .error (.arity op count)

namespace Application

/-- The application of an operator to a list of operands, which must be as many as its arity. -/
def ofOperands : Operator → List Operand → Except ExprError Application
  | .binary op, [x, y] => .ok (binary op x y)
  | .function f, [x] => .ok (function f x)
  | op, xs => .error (.arity op xs.length)

/-- The application written out, a binary operator between its operands and a function in
parentheses with its operand. -/
def text : Application → String
  | binary op x y => x.text ++ " " ++ .singleton op.symbol ++ " " ++ y.text
  | function f x => "(" ++ f.name ++ " " ++ x.text ++ ")"

/-- The number that an application gives, and the bindings after it (`SPEC_FULL.md`:122-125). -/
def run (b : Bindings) : Application → Except ExprError (Binary64 × Bindings)
  | binary .assign (.var name) y => (y.value b).map fun v => (v, b.insert name v)
  | binary .assign (.real _) _ => .error .assignmentTarget
  | binary .add x y => do let v ← x.value b; let w ← y.value b; .ok (v.add w, b)
  | binary .mul x y => do let v ← x.value b; let w ← y.value b; .ok (v.mul w, b)
  | binary .div x y => do let v ← x.value b; let w ← y.value b; .ok (v.div w, b)
  | binary .pow x y => do let v ← x.value b; let w ← y.value b; let z ← v.power w; .ok (z, b)
  | function f x => do let v ← x.value b; let z ← f.calculate v; .ok (z, b)

end Application

def Operator.apply (op : Operator) (xs : List Operand) (b : Bindings) :
    Except ExprError (Binary64 × Bindings) :=
  Application.ofOperands op xs >>= Application.run b

end Reckoner
