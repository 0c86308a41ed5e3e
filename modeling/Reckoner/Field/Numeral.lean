import Reckoner.Decimal.Literal
import Reckoner.Field.Basic
import Reckoner.Text.Blank

/-!
# Numbers given as text

A whole number is an optional minus sign and digits without zeros in front (`readPlain`). A text
that is not written so is brought to its plainest writing (`cleanWhole`) and read again. Zeros in
front of the first other digit, and zeros alone behind the point, do not change a number and are
dropped; a point with nothing behind it is no number. That a number is too long is said only of a
text as it stands. A float is a literal with optional sign and exponent, an infinity or
not-a-number.
-/

namespace Reckoner

namespace FieldText

/-- Drops underscores; none if there is none, or one at an end, or two in a row. -/
def dropUnderscores (cs : List Char) : Option (List Char) :=
  let doubled := (cs.zip (cs.drop 1)).any fun (a, b) => a == '_' && b == '_'
  if cs.head? = some '_' ∨ cs.getLast? = some '_' ∨ '_' ∉ cs ∨ doubled then none
  else some (cs.filter (· != '_'))

/-- The rest of a number after its leading zero, from the first character that is neither a zero
nor an underscore: a digit or a minus sign. A zero before a point, or at the end, stays. `last` is
the character before. -/
def dropZeros (last : Char) : List Char → Option (List Char)
  | [] => some [last]
  | c :: cs =>
    if c = '0' || c = '_' then dropZeros c cs
    else if c = '.' then some (last :: c :: cs)
    else if c.isDigit || c = '-' then some (c :: cs)
    else none

/-- A number without zeros in front. It begins with a digit. -/
def dropLeadingZeros : List Char → Option (List Char)
  | '0' :: cs => dropZeros '0' cs
  | c :: cs => if c.isDigit then some (c :: cs) else none
  | [] => none

/-- A number without a plus sign and without zeros in front, a minus sign kept. A digit follows
either sign. -/
def dropSignedZeros : List Char → Option (List Char)
  | '+' :: cs => dropLeadingZeros cs
  | '-' :: cs => (dropLeadingZeros cs).map ('-' :: ·)
  | cs => dropLeadingZeros cs

/-- A number without its decimal places, if there are some and all are zero. -/
def dropZeroPlaces (cs : List Char) : List Char :=
  let places := (cs.dropWhile (· != '.')).drop 1
  if !places.isEmpty && places.all (· == '0') then cs.takeWhile (· != '.') else cs

/-- The plainest writing of a whole number: white space, a plus sign, zeros in front, decimal places
that are zero and underscores are dropped. -/
def cleanWhole (cs : List Char) : Option (List Char) :=
  (dropSignedZeros (Text.trim Text.isSpace cs)).map fun cs =>
    let cs := dropZeroPlaces cs
    (dropUnderscores cs).getD cs

def mostDigits : Nat := 4300

/-- A whole number in ASCII digits without zeros in front; a minus sign may come first. The digits
are counted before what follows them is looked at, so a number that is too long is so whatever
stands behind it. -/
def readPlain (cs : List Char) : Except Fault Int :=
  let (negative, unsigned) := match cs with
    | '-' :: cs => (true, cs)
    | cs => (false, cs)
  let ds := unsigned.takeWhile Char.isDigit
  if ds.isEmpty || (ds.head? == some '0' && ds.length != 1) then .error .intParsing
  else if mostDigits < ds.length then .error .intParsingSize
  else if ds.length != unsigned.length then .error .intParsing
  else .ok (if negative then -(Decimal.ofDigits ds : Int) else Decimal.ofDigits ds)

/-- A whole number as text: as it stands, or else in its plainest writing. Only a text that has too
many digits as it stands is too long; one that has them in its plainest writing is no number. -/
def readWhole (s : String) : Except Fault Int :=
  let cs := s.toList
  match readPlain cs with
  | .error .intParsing =>
    match (cleanWhole cs).map readPlain with
    | some (.ok n) => .ok n
    | _ => .error .intParsing
  | r => r

/-- A float as text: a literal with optional sign and exponent, infinity or not-a-number. -/
def readFloat (cs : List Char) : Option Binary64 :=
  let (negative, word) := Decimal.splitSign cs
  let word := String.ofList (word.map Char.toLower)
  if word = "inf" ∨ word = "infinity" then some (.infinite negative)
  else if word = "nan" then some .nan
  else Decimal.readScientific cs

/-- A float as text between white space, or with underscores between its characters. -/
def readNumber (s : String) : Except Fault Binary64 :=
  let cs := s.toList
  match readFloat (Text.trim Text.isSpace cs), (dropUnderscores cs).bind readFloat with
  | some x, _ => .ok x
  | none, some x => .ok x
  | none, none => .error .floatParsing

end FieldText

end Reckoner
