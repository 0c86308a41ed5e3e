import Reckoner.Binary64.Rounding
import Reckoner.Field.Numeral

/-!
# Reading a field

A field is read with the conversions that lose nothing: a whole number also from a whole float, a
truth value or its decimal text, a float also from a whole number, a truth value or its text. A
field that is not given has its default.
-/

namespace Reckoner

namespace FieldValue

def asText : FieldValue → Except Fault String
  | text s => .ok s
  | _ => .error .stringType

/-- A float that is a whole number of 64 bits with a sign. -/
def wholeOfFloat (x : Binary64) : Except Fault Int :=
  match x with
  | .finite negative m e _ =>
    if !x.isWhole then .error .intFromFloat
    else
      let n := m * 2 ^ e.toNat / 2 ^ (-e).toNat
      if n < 2 ^ 63 then .ok (if negative then -(n : Int) else n) else .error .intParsingSize
  | _ => .error .finiteNumber

def asWhole : FieldValue → Except Fault Int
  | int n => .ok n
  | bool b => .ok (if b then 1 else 0)
  | float x => wholeOfFloat x
  | text s => FieldText.readWhole s
  | _ => .error .intType

def asFloat : FieldValue → Except Fault Binary64
  | float x => .ok x
  | int n => if (Binary64.ofInt n).isFinite then .ok (.ofInt n) else .error .floatType
  | bool b => .ok (if b then .one false else .zero false)
  | text s => FieldText.readNumber s
  | _ => .error .floatType

/-- A value that must lie between two whole numbers. -/
def asWholeWithin (least most : Int) (v : FieldValue) : Except Fault Int := do
  let n ← v.asWhole
  if n < least then .error .greaterThanEqual
  else if most < n then .error .lessThanEqual
  else .ok n

end FieldValue

/-- The value of a field, read in the given way, or its default. -/
def Fields.read {α : Type} (fs : Fields) (field : String) (read : FieldValue → Except Fault α)
    (default : Except Fault α) : Except Fault α :=
  match fs.lookup field with
  | some v => read v
  | none => default

end Reckoner
