import Reckoner.Decimal.Literal
import Reckoner.Proofs.Infix.Chain
import Reckoner.Text.Letter
import Reckoner.Text.Blank

/-!
# Formulas

The grammar of expressions as they are written. A chain is a row of primaries, each but the first
joined to the one before it, with minus signs before any of them. A primary is a number, a name, a
chain in parentheses or a call of a function. The type of a primary carries its shape, so that a
joint without a product sign can only be built where the sign may be left out.

`Chain.lexemes` lists what is written, `Writes` says which texts write it, and `Chain.expand` gives
the infix chain that it stands for: a minus sign is a product with minus one, a subtraction the
addition of one.
-/

namespace Reckoner.Formula

/-! ## Numbers and names -/

/-- A number without a sign: ASCII digits with at most one point among them. -/
structure Literal where
  whole : List Char
  places : Option (List Char)
  whole_digits : whole.all Char.isDigit = true
  places_digits : (places.getD []).all Char.isDigit = true
  some_digit : (whole ++ places.getD []).isEmpty = false

namespace Literal

def chars (l : Literal) : List Char := l.whole ++ l.places.elim [] ('.' :: ·)

/-- The number nearest to the decimal fraction. -/
def value (l : Literal) : Binary64 :=
  .ofQuotient false (Decimal.ofDigits (l.whole ++ l.places.getD [])) (10 ^ (l.places.getD []).length)

end Literal

def beginsName (c : Char) : Bool := Text.isLetter c || c == '_'

/-- A letter or underscore, then letters, underscores and ASCII digits. -/
structure Name where
  head : Char
  tail : List Char
  head_begins : beginsName head = true
  tail_within : tail.all (fun c => beginsName c || c.isDigit) = true

namespace Name

def chars (n : Name) : List Char := n.head :: n.tail

def text (n : Name) : String := .ofList n.chars

def ofFn : Fn → Name
  | .abs => ⟨'a', ['b', 's'], rfl, rfl⟩
  | .sqrt => ⟨'s', ['q', 'r', 't'], rfl, rfl⟩
  | .sin => ⟨'s', ['i', 'n'], rfl, rfl⟩
  | .cos => ⟨'c', ['o', 's'], rfl, rfl⟩
  | .tan => ⟨'t', ['a', 'n'], rfl, rfl⟩
  | .exp => ⟨'e', ['x', 'p'], rfl, rfl⟩
  | .log => ⟨'l', ['o', 'g'], rfl, rfl⟩

theorem text_ofFn (f : Fn) : (ofFn f).text = f.name := by cases f <;> rfl

theorem ofName?_text_ofFn (f : Fn) : Fn.ofName? Fn.all (ofFn f).text = some f := by
  rw [text_ofFn]
  cases f <;> rfl

end Name

/-! ## The grammar -/

inductive Shape where
  | number
  | name
  | group
  | call
  deriving DecidableEq

/-- The shapes between which the product sign may be left out. -/
inductive Omits : Shape → Shape → Prop
  | number_name : Omits .number .name
  | number_call : Omits .number .call
  | number_group : Omits .number .group
  | group_group : Omits .group .group
  | call_group : Omits .call .group

/-- What joins a primary to the one before it: an operator or a subtraction, with minus signs after
it, or nothing where a product sign is left out. -/
inductive Joint : Shape → Shape → Type
  | operator {k k' : Shape} (op : BinaryOp) (signs : Nat) : Joint k k'
  | subtraction {k k' : Shape} (signs : Nat) : Joint k k'
  | omitted {k k' : Shape} (h : Omits k k') : Joint k k'

mutual

/-- What stands between two joints. -/
inductive Primary : Shape → Type
  | number (l : Literal) : Primary .number
  | name (n : Name) : Primary .name
  | group (c : Chain) : Primary .group
  | call (f : Fn) (c : Chain) : Primary .call

/-- Primaries with a joint between each two; the shape is that of the first. -/
inductive Row : Shape → Type
  | last {k : Shape} (p : Primary k) : Row k
  | link {k k' : Shape} (p : Primary k) (j : Joint k k') (r : Row k') : Row k

/-- A row with minus signs before it. -/
inductive Chain : Type
  | signed {k : Shape} (signs : Nat) (r : Row k) : Chain

end

/-! ## What is written -/

/-- A unit of the written text. A sign stands before an operand, a subtraction after one. -/
inductive Lexeme where
  | number (l : Literal)
  | name (n : Name)
  | operator (op : BinaryOp)
  | subtraction
  | sign
  | openParen
  | closeParen

namespace Lexeme

def written : Lexeme → List Char
  | number l => l.chars
  | name n => n.chars
  | operator op => [op.symbol]
  | subtraction => ['-']
  | sign => ['-']
  | openParen => ['(']
  | closeParen => [')']

/-- Is the lexeme a number or a name? -/
def isWord : Lexeme → Bool
  | number _ | name _ => true
  | _ => false

end Lexeme

def Joint.lexemes {k k' : Shape} : Joint k k' → List Lexeme
  | .operator op signs => .operator op :: .replicate signs .sign
  | .subtraction signs => .subtraction :: .replicate signs .sign
  | .omitted _ => []

mutual

def Primary.lexemes {k : Shape} : Primary k → List Lexeme
  | .number l => [.number l]
  | .name n => [.name n]
  | .group c => .openParen :: (c.lexemes ++ [.closeParen])
  | .call f c => .name (.ofFn f) :: .openParen :: (c.lexemes ++ [.closeParen])

def Row.lexemes {k : Shape} : Row k → List Lexeme
  | .last p => p.lexemes
  | .link p j r => p.lexemes ++ (j.lexemes ++ r.lexemes)

def Chain.lexemes : Chain → List Lexeme
  | .signed signs r => .replicate signs .sign ++ r.lexemes

end

/-- The texts that write lexemes: blanks may stand before each and at the end, but not between a
number and the name that it multiplies. `afterWord` says whether a number or a name comes before. -/
inductive Writes : (afterWord : Bool) → List Lexeme → List Char → Prop
  | done {afterWord : Bool} (gap : List Char) (blank : gap.all Text.isBlank = true) : Writes afterWord [] gap
  | next {afterWord : Bool} (gap : List Char) {l : Lexeme} {ls : List Lexeme} {cs : List Char}
      (blank : gap.all Text.isBlank = true) (adjacent : afterWord = true → l.isWord = true → gap = [])
      (rest : Writes l.isWord ls cs) : Writes afterWord (l :: ls) (gap ++ (l.written ++ cs))

/-! ## What it stands for -/

/-- The operator of a joint in the infix chain. -/
def Joint.op {k k' : Shape} : Joint k k' → BinaryOp
  | .operator op _ => op
  | .subtraction _ => .add
  | .omitted _ => .mul

/-- How often the chain after a joint is multiplied with minus one. -/
def Joint.signs {k k' : Shape} : Joint k k' → Nat
  | .operator _ signs => signs
  | .subtraction signs => signs + 1
  | .omitted _ => 0

/-- An infix chain after products with minus one. -/
def negated : Nat → Infix.Chain → Infix.Chain
  | 0, c => c
  | n + 1, c => .link (.operand (.real (.one true))) .mul (negated n c)

mutual

def Primary.expand {k : Shape} : Primary k → Infix.Primary
  | .number l => .operand (.real l.value)
  | .name n => .operand (.var n.text)
  | .group c => .group c.expand
  | .call f c => .call f c.expand

def Row.expand {k : Shape} : Row k → Infix.Chain
  | .last p => .last p.expand
  | .link p j r => .link p.expand j.op (negated j.signs r.expand)

def Chain.expand : Chain → Infix.Chain
  | .signed signs r => negated signs r.expand

end

end Reckoner.Formula
