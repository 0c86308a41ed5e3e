import Reckoner.Decimal.Literal
import Reckoner.Error
import Reckoner.NormalText

/-!
# Reading tokens from text

One pass over the normal text. Characters of a number or a name are held back until a character
ends them; every other character is a token of its own. A product is put in where a number meets a
name or an opening parenthesis, and where a closing parenthesis meets an opening one. A name before
an opening parenthesis must be a known function.

| here | `SPEC_FULL.md` |
| --- | --- |
| `Pending`, `Scan.takesAsNumber`, `Scan.isNameChar` | 4.1 step 3 (83-85), the two buffers |
| `Scan.flush`, `Scan.step` | steps 4, 7 and 8 (86-88, 94-95) |
| `Scan.stepWord`, `Scan.stepOpen` | step 5 (89-91), products left out and names of functions |
| `Scan.stepClose`, `Scan.finish` | step 6 (92-93), the counter of parentheses |
| `Scan.numberToken` | 96-97, malformed literals |
| `tokenizeWith`, `tokenize` | `tokenize(input)` (68-70); `known` is the table of functions that a lexer is given |
-/

namespace Reckoner

/-- Characters held back, the most recent first. -/
inductive Pending where
  | none
  | number (cs : List Char)
  | word (cs : List Char)
  deriving DecidableEq

/-- The state of a pass: the tokens so far, the most recent first, the characters held back and
the count of open parentheses. -/
structure Scan where
  tokens : List Token
  pending : Pending
  depth : Nat
  deriving DecidableEq

namespace Scan

def start : Scan := ⟨[], .none, 0⟩

def numberToken (cs : List Char) : Except ExprError Token :=
  match Decimal.readLiteral cs.reverse with
  | some x => .ok (.real x)
  | none => .error (.malformedNumber (.ofList cs.reverse))

def emit (s : Scan) (t : Token) : Scan := { s with tokens := t :: s.tokens }

/-- Turns the characters held back into a number or a name. -/
def flush (s : Scan) : Except ExprError Scan :=
  match s.pending with
  | .none => .ok s
  | .number cs => (numberToken cs).map fun t => ⟨t :: s.tokens, .none, s.depth⟩
  | .word cs => .ok ⟨.var (.ofList cs.reverse) :: s.tokens, .none, s.depth⟩

/-- A character of a number. It ends a name. -/
def stepNumber (s : Scan) (c : Char) : Scan :=
  match s.pending with
  | .none => { s with pending := .number [c] }
  | .number cs => { s with pending := .number (c :: cs) }
  | .word cs => ⟨.var (.ofList cs.reverse) :: s.tokens, .number [c], s.depth⟩

/-- A character of a name. It ends a number, which it multiplies (`SPEC_FULL.md`:89), also if the character is
an underscore. -/
def stepWord (s : Scan) (c : Char) : Except ExprError Scan :=
  match s.pending with
  | .none => .ok { s with pending := .word [c] }
  | .number cs => (numberToken cs).map fun t => ⟨.binary .mul :: t :: s.tokens, .word [c], s.depth⟩
  | .word cs => .ok { s with pending := .word (c :: cs) }

/-- An opening parenthesis: after a name it opens the operand of a function, after a number or a
closing parenthesis the second factor of a product. -/
def stepOpen (known : List Fn) (s : Scan) : Except ExprError Scan :=
  match s.pending with
  | .word cs =>
    match Fn.ofName? known (.ofList cs.reverse) with
    | some f => .ok ⟨.openParen :: .function f :: s.tokens, .none, s.depth + 1⟩
    | none => .error (.unrecognizedFunction (.ofList cs.reverse))
  | .number cs =>
    (numberToken cs).map fun t => ⟨.openParen :: .binary .mul :: t :: s.tokens, .none, s.depth + 1⟩
  | .none =>
    match s.tokens with
    | .closeParen :: _ => .ok ⟨.openParen :: .binary .mul :: s.tokens, .none, s.depth + 1⟩
    | _ => .ok ⟨.openParen :: s.tokens, .none, s.depth + 1⟩

/-- A closing parenthesis: it needs an open one with something in between (`SPEC_FULL.md`:92-93). -/
def stepClose (s : Scan) : Except ExprError Scan :=
  if s.depth = 0 then .error (.parentheses .closedEarly)
  else if s.pending = .none ∧ s.tokens.head? = some .openParen then .error (.parentheses .emptyPair)
  else s.flush.map fun s => ⟨.closeParen :: s.tokens, s.pending, s.depth - 1⟩

/-- Is the character part of a number at this point? A digit within a name is not. -/
def takesAsNumber (s : Scan) (c : Char) : Bool :=
  match s.pending with
  | .word _ => c == '-' || c == '.'
  | _ => c.isDigit || c == '-' || c == '.'

/-- Can the character be part of a name? -/
def isNameChar (c : Char) : Bool := Text.isLetter c || c.isDigit || c == '_'

/-- One character of normal text. -/
def step (known : List Fn) (s : Scan) (c : Char) : Except ExprError Scan :=
  if s.takesAsNumber c then .ok (s.stepNumber c)
  else if isNameChar c then s.stepWord c
  else
    match BinaryOp.ofSymbol? c with
    | some op => s.flush.map (·.emit (.binary op))
    | none =>
      if c = '(' then s.stepOpen known
      else if c = ')' then s.stepClose
      else if c = ',' then s.flush.map (·.emit .separator)
      else if c = ' ' then s.flush
      else .error (.unrecognizedCharacter c)

def steps (known : List Fn) (s : Scan) (cs : List Char) : Except ExprError Scan :=
  cs.foldlM (step known) s

theorem steps_append (known : List Fn) (s : Scan) (cs ds : List Char) :
    s.steps known (cs ++ ds) = s.steps known cs >>= (·.steps known ds) := List.foldlM_append

def finish (s : Scan) : Except ExprError (List Token) :=
  if s.depth = 0 then s.flush.map (·.tokens.reverse) else .error (.parentheses .leftOpen)

end Scan

/-- The tokens of an expression in which the functions of a list are known (`tokenize(input)`,
`SPEC_FULL.md`:67-97). -/
def tokenizeWith (known : List Fn) (text : String) : Except ExprError (List Token) := do
  let s ← Scan.start.steps known (NormalText.ofChars text.toList)
  s.finish

def tokenize (text : String) : Except ExprError (List Token) := tokenizeWith Fn.all text

end Reckoner
