import Reckoner.Binary64.Rounding

/-!
# Numbers as decimal text

`fixed` writes a number with a given count of decimal places, `general` with six significant
digits and no trailing zeros. Both round the exact binary value once, a tie going to the even
digit, and keep the sign of a zero.
-/

namespace Reckoner.Decimal

def digits (n : Nat) : List Char := Nat.toDigits 10 n

def padZeros (width : Nat) (cs : List Char) : List Char :=
  List.replicate (width - cs.length) '0' ++ cs

/-- The whole number `n` with its last `places` digits after a point. -/
def pointed (n places : Nat) : List Char :=
  digits (n / 10 ^ places) ++
    if places = 0 then [] else '.' :: padZeros places (digits (n % 10 ^ places))

def signed (negative : Bool) (cs : List Char) : String :=
  .ofList (if negative then '-' :: cs else cs)

/-- The number with exactly `places` decimal places. -/
def fixed (places : Nat) : Binary64 → String
  | .nan => "nan"
  | .infinite negative => signed negative "inf".toList
  | .finite negative m e _ =>
    signed negative (pointed (roundDiv (m * 2 ^ e.toNat * 10 ^ places) (2 ^ (-e).toNat)) places)

/-! ## Six significant digits -/

/-- The exponent of the leading decimal digit of `n / d`, for positive `n` and `d`. -/
def leadingPlace (n d : Nat) : Int :=
  if d ≤ n then (digits (n / d)).length - 1 else -((digits ((d - 1) / n)).length : Int)

/-- `n / d` as six digits, a whole number below a million, and the exponent of the first. -/
def sixDigits (n d : Nat) : Nat × Int :=
  let place := leadingPlace n d
  let six := roundDiv (n * 10 ^ (5 - place).toNat) (d * 10 ^ (place - 5).toNat)
  if six = 10 ^ 6 then (10 ^ 5, place + 1) else (six, place)

/-- Digits after a point without the zeros at the end; no point if none are left. -/
def fraction (cs : List Char) : List Char :=
  match (cs.reverse.dropWhile (· == '0')).reverse with
  | [] => []
  | kept => '.' :: kept

/-- A decimal exponent: its sign and at least two digits. -/
def exponentText (e : Int) : List Char :=
  'e' :: (if e < 0 then '-' else '+') :: padZeros 2 (digits e.natAbs)

/-- The positive magnitude `n / d` with six significant digits: with an exponent if the first
digit stands below the fourth or above the sixth place from the point, else without. -/
def generalMagnitude (n d : Nat) : List Char :=
  let (six, place) := sixDigits n d
  let cs := digits six
  if place < -4 ∨ 6 ≤ place then cs.take 1 ++ fraction (cs.drop 1) ++ exponentText place
  else if place < 0 then '0' :: fraction (List.replicate (-place - 1).toNat '0' ++ cs)
  else cs.take (place.toNat + 1) ++ fraction (cs.drop (place.toNat + 1))

/-- The number with six significant digits. -/
def general : Binary64 → String
  | .nan => "nan"
  | .infinite negative => signed negative "inf".toList
  | .finite negative m e _ =>
    signed negative (if m = 0 then ['0'] else generalMagnitude (m * 2 ^ e.toNat) (2 ^ (-e).toNat))

end Reckoner.Decimal
