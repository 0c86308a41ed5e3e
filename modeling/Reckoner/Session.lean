import Reckoner.Evaluation
import Reckoner.Report
import Reckoner.Settings

/-!
# Sessions

A session keeps bindings from one expression to the next. `calculate` never fails: an error is an
answer. A name that stands alone is read by `calculate`, but not by `evaluate`.
-/

namespace Reckoner

/-- A sequence of calculations with common bindings. -/
structure Session where
  bindings : Bindings
  settings : Settings
  deriving DecidableEq

/-- An answer, the session after it and the events in order. -/
structure Calculation where
  answer : Answer
  session : Session
  events : List Event

namespace Session

/-- A session in which only the constants are bound. -/
def fresh (settings : Settings) : Session := ⟨.constants, settings⟩

def describe (s : Session) (x : Operand) : String := x.describe s.bindings s.settings.precision

/-- Answers an expression: `CalculatorSession.calculate(expression)` of `SPEC_FULL.md` 6 and 7 (139-140,
155-157). -/
def calculate (s : Session) (text : String) : Calculation :=
  let ev := evaluate text s.bindings
  let after := { s with bindings := ev.bindings }
  let failed (e : ExprError) : Calculation := ⟨.failure e, after, ev.events ++ [.failed text e]⟩
  match ev.result with
  | .error e => failed e
  | .ok none => ⟨.blank, after, ev.events⟩
  | .ok (some x) =>
    match x.value ev.bindings with
    | .error e => failed e
    | .ok v => ⟨.value v (after.describe x), after, ev.events ++ [.answered text (after.describe x)]⟩

/-- Binds a name to the number that an operand stands for. -/
def bind (s : Session) (name : String) (x : Operand) : Except ExprError (Binary64 × Session) :=
  (x.value s.bindings).map fun v => (v, { s with bindings := s.bindings.insert name v })

end Session
end Reckoner
