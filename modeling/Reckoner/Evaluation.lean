import Reckoner.Level
import Reckoner.Machine
import Reckoner.Postfix
import Reckoner.Scan

/-!
# Evaluating an expression

An expression is read into tokens, put into postfix order and worked off. Every stage that
succeeds leaves an event, and so does every application that is begun; an event has a level and a
message for the journal (`SPEC_FULL.md` 8, 164-165).
-/

namespace Reckoner

/-- What happened in the course of a calculation, or at the end of a conversation. -/
inductive Event where
  | tokenized (text : String) (ts : List Token)
  | reordered (ts : List Token)
  | applying (a : Application)
  | answered (text display : String)
  | failed (text : String) (e : ExprError)
  | stopped

namespace Event

/-- The level of an event: answers and the end of a conversation inform, failures are errors, and all else is
for debugging. -/
def level : Event → Level
  | tokenized .. | reordered _ | applying _ => .debug
  | answered .. | stopped => .info
  | failed .. => .error

def message : Event → String
  | tokenized text ts => "Tokenized " ++ Text.quoted text ++ ": " ++ Token.texts ts
  | reordered ts => "Postfix: " ++ Token.texts ts
  | applying a => "Applying " ++ a.text
  | answered text display => "✅ " ++ text ++ " -> " ++ display
  | failed text e => "❌ Could not evaluate " ++ Text.quoted text ++ ": " ++ e.message
  | stopped => "👋 REPL stopped"

def keptAt (l : Level) (e : Event) : Bool := l.threshold ≤ e.level.severity

end Event

/-- How an evaluation ends: its operand, if it has one, or its error, with the bindings at the end
and the events in order. -/
structure Evaluation where
  result : Except ExprError (Option Operand)
  bindings : Bindings
  events : List Event

def postfixOf (text : String) : Except ExprError (List Token) := tokenize text >>= toPostfix

/-- Evaluates an expression: `ExpressionParser.evaluate(expression, environment)` of `SPEC_FULL.md` 6 (138). -/
def evaluate (text : String) (b : Bindings) : Evaluation :=
  match tokenize text with
  | .error e => ⟨.error e, b, []⟩
  | .ok ts =>
    match toPostfix ts with
    | .error e => ⟨.error e, b, [.tokenized text ts]⟩
    | .ok ps =>
      let o := evaluatePostfix ps b
      ⟨o.result, o.bindings, .tokenized text ts :: .reordered ps :: o.applied.map .applying⟩

end Reckoner
