import Reckoner.Error

/-!
# Postfix order

Infix tokens are put into postfix order: operands go out at once, operators are held until an
operator of lower priority, a separator or the end of their parentheses. An operator lets go only
of held operators of strictly higher priority, so a chain of one priority groups from the right. A
function goes out when its parentheses close. This is `convert(tokens)` of `SPEC_FULL.md` 4.2 (99-110).
-/

namespace Reckoner

/-- What is held back: an operator or an opening parenthesis. -/
inductive Held where
  | operator (op : Operator)
  | openParen
  deriving DecidableEq

/-- The state of a reordering: the tokens put out so far and what is held back, both with the most
recent first. -/
structure Reordering where
  output : List Token
  held : List Held
  deriving DecidableEq

namespace Reordering

def start : Reordering := ⟨[], []⟩

/-- Puts out the held operators of priority higher than `level`, up to a parenthesis
(`SPEC_FULL.md`:103-104). -/
def releaseAbove (level : Nat) : (output : List Token) → List Held → Reordering
  | output, .operator op :: held =>
    if level < op.priority.level then releaseAbove level (.operator op :: output) held
    else ⟨output, .operator op :: held⟩
  | output, held => ⟨output, held⟩

/-- Puts out all held operators up to a parenthesis. -/
def releaseAll : (output : List Token) → List Held → Reordering
  | output, .operator op :: held => releaseAll (.operator op :: output) held
  | output, held => ⟨output, held⟩

/-- Puts out the function whose parentheses have just closed (`SPEC_FULL.md`:109). -/
def releaseFunction (r : Reordering) : Reordering :=
  match r.held with
  | .operator op :: held => if op.isFunction then ⟨.operator op :: r.output, held⟩ else r
  | _ => r

def hold (r : Reordering) (op : Operator) : Reordering :=
  if op.isFunction then { r with held := .operator op :: r.held }
  else
    let r := releaseAbove op.priority.level r.output r.held
    { r with held := .operator op :: r.held }

/-- One infix token (`SPEC_FULL.md`:102-109). -/
def step (r : Reordering) : Token → Except ExprError Reordering
  | .operand x => .ok { r with output := .operand x :: r.output }
  | .operator op => .ok (r.hold op)
  | .openParen => .ok { r with held := .openParen :: r.held }
  | .separator =>
    let r := releaseAll r.output r.held
    if r.held.isEmpty then .error .misplacedSeparator else .ok r
  | .closeParen =>
    let r := releaseAll r.output r.held
    match r.held with
    | [] => .error (.parentheses .missingOpen)
    | _ :: held => .ok (releaseFunction ⟨r.output, held⟩)
  | .unknown => .error .unknownToken

def steps (r : Reordering) (ts : List Token) : Except ExprError Reordering := ts.foldlM step r

theorem steps_append (r : Reordering) (ts us : List Token) :
    r.steps (ts ++ us) = r.steps ts >>= (·.steps us) := List.foldlM_append

def finish (r : Reordering) : Except ExprError (List Token) :=
  let r := releaseAll r.output r.held
  if r.held.isEmpty then .ok r.output.reverse else .error (.parentheses .missingClose)

end Reordering

/-- Infix tokens in postfix order (`convert(tokens)`, `SPEC_FULL.md`:99-110). -/
def toPostfix (ts : List Token) : Except ExprError (List Token) := do
  let r ← Reordering.start.steps ts
  r.finish

end Reckoner
