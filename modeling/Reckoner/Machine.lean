import Reckoner.Application

/-!
# The stack machine

Postfix tokens are worked off from left to right: operands go on a stack, an operator takes its
operands from it and puts its value back. A run halts at the first token that fails and keeps the
bindings made before it. This is `evaluate(tokens, environment)` of `SPEC_FULL.md` 4.3 (112-119).
-/

namespace Reckoner

/-- The state of a run: the operands with the topmost first, the bindings, and the applications
begun so far with the most recent first. -/
structure Machine where
  stack : List Operand
  bindings : Bindings
  applied : List Application
  deriving DecidableEq

/-- A run that has failed: the error, and the state in which it left the machine. -/
structure Halt where
  error : ExprError
  machine : Machine
  deriving DecidableEq

/-- How a run ends: its operand, if it has one, or its error, with the bindings at the end and the
applications in the order in which they were begun. -/
structure Outcome where
  result : Except ExprError (Option Operand)
  bindings : Bindings
  applied : List Application

namespace Machine

def start (b : Bindings) : Machine := ⟨[], b, []⟩

/-- Begins an application whose operands have been taken, and puts its value on the stack. -/
def apply (m : Machine) (a : Application) : Except Halt Machine :=
  let m := { m with applied := a :: m.applied }
  match a.run m.bindings with
  | .ok (v, b) => .ok ⟨.real v :: m.stack, b, m.applied⟩
  | .error e => .error ⟨e, m⟩

/-- One postfix token (`SPEC_FULL.md`:115-117). -/
def step (m : Machine) : Token → Except Halt Machine
  | .operand x => .ok { m with stack := x :: m.stack }
  | .operator op =>
    let taken := m.stack.take op.arity
    if taken.length < op.arity then .error ⟨.arity op m.stack.length, m⟩
    else
      match Application.ofOperands op taken.reverse with
      | .ok a => apply { m with stack := m.stack.drop op.arity } a
      | .error e => .error ⟨e, m⟩
  | t => .error ⟨.strayToken t, m⟩

def steps (m : Machine) (ts : List Token) : Except Halt Machine := ts.foldlM step m

theorem steps_append (m : Machine) (ts us : List Token) :
    m.steps (ts ++ us) = m.steps ts >>= (·.steps us) := List.foldlM_append

/-- The operand at the end of a run, which must be the only one (`SPEC_FULL.md`:118-119). -/
def result (m : Machine) : Except ExprError Operand :=
  match m.stack with
  | [x] => .ok x
  | [] => .error .noOperands
  | _ => .error .tooManyOperands

end Machine

/-- Works off a postfix list (`evaluate(tokens, environment)`, `SPEC_FULL.md`:112-119). An empty list has no
operand. -/
def evaluatePostfix (ts : List Token) (b : Bindings) : Outcome :=
  if ts.isEmpty then ⟨.ok none, b, []⟩
  else
    match (Machine.start b).steps ts with
    | .ok m => ⟨m.result.map some, m.bindings, m.applied.reverse⟩
    | .error h => ⟨.error h.error, h.machine.bindings, h.machine.applied.reverse⟩

end Reckoner
