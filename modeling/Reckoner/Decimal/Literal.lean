import Reckoner.Binary64.Rounding

/-!
# Decimal literals

A literal is a run of ASCII digits with at most one point and at least one digit, and stands for
the binary64 number nearest to it. A minus sign may come first; the scientific form may also have
a plus sign and an exponent.
-/

namespace Reckoner.Decimal

def ofDigits (cs : List Char) : Nat :=
  cs.foldl (fun n c => 10 * n + (c.toNat - '0'.toNat)) 0

/-- An unsigned literal as its digits, read as a whole number, and its count of decimal places. -/
def readUnsigned (cs : List Char) : Option (Nat × Nat) :=
  let whole := cs.takeWhile Char.isDigit
  match cs.dropWhile Char.isDigit with
  | [] => if whole.isEmpty then none else some (ofDigits whole, 0)
  | c :: places =>
    if c = '.' && places.all Char.isDigit && !(whole.isEmpty && places.isEmpty) then
      some (ofDigits (whole ++ places), places.length)
    else none

def readMagnitude (negative : Bool) (cs : List Char) : Option Binary64 :=
  (readUnsigned cs).map fun (n, places) => .ofQuotient negative n (10 ^ places)

/-- The number that a literal stands for. -/
def readLiteral : List Char → Option Binary64
  | '-' :: cs => readMagnitude true cs
  | cs => readMagnitude false cs

/-! ## The scientific form -/

/-- The number nearest to `± n * 10 ^ e`. An exponent far outside the range of the format decides
the answer without the power. -/
def scale (negative : Bool) (n : Nat) (e : Int) : Binary64 :=
  if n = 0 then .zero negative
  else if 400 < e then .infinite negative
  else if n.log2 + 1 + 3 * e < -1100 then .zero negative
  else .ofDecimal negative n e

def splitSign : List Char → Bool × List Char
  | '-' :: cs => (true, cs)
  | '+' :: cs => (false, cs)
  | cs => (false, cs)

/-- A signed whole number in ASCII digits. -/
def readExponent (cs : List Char) : Option Int :=
  let (negative, digits) := splitSign cs
  if digits.isEmpty || !digits.all Char.isDigit then none
  else some (if negative then -(ofDigits digits : Int) else ofDigits digits)

/-- The number that a literal with optional sign and exponent stands for. -/
def readScientific (cs : List Char) : Option Binary64 :=
  let (negative, cs) := splitSign cs
  let isMark (c : Char) : Bool := c = 'e' || c = 'E'
  let exponent := match cs.dropWhile (!isMark ·) with
    | [] => some 0
    | _ :: ds => readExponent ds
  match readUnsigned (cs.takeWhile (!isMark ·)), exponent with
  | some (n, places), some e => some (scale negative n (e - places))
  | _, _ => none

end Reckoner.Decimal
