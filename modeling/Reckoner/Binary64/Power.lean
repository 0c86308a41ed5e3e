import Reckoner.Binary64.Elementary
import Reckoner.Binary64.Arithmetic
import Reckoner.Enclosure.BinaryLogarithm

/-!
# Powers

`pow x y` is the number nearest to `x ^ y`. Whether the magnitude passes the greatest finite
number is decided first, by comparing logarithms and, if they are too close, by comparing whole
powers. Then come the powers that may be exact or lie halfway between two numbers; the others
are settled as the exponential of `y * log x`.

This is an idealisation: the power of a library is near the exact one but need not be the nearest
number, and may differ from `pow` in the last digit (`9^17` and `3^34` are such).
-/

namespace Reckoner.Binary64

/-! ## Overflow -/

/-- Numbers from `leastOverflow * 2 ^ 970` on are rounded to infinity. -/
def leastOverflow : Nat := 2 ^ 54 - 1

/-- Is `(m * 2 ^ e) ^ (± n * 2 ^ f)` at least the bound of overflow? Compares whole powers. -/
def wholePowersOverflow (m : Nat) (e : Int) (inverse : Bool) (n : Nat) (f : Int) : Bool :=
  let power := n * 2 ^ f.toNat
  let root := 2 ^ (-f).toNat
  let up := m ^ power * 2 ^ (e.toNat * power)
  let down := 2 ^ ((-e).toNat * power)
  let bound := (leastOverflow * 2 ^ 970) ^ root
  if inverse then bound * up ≤ down else bound * down ≤ up

/-- Is `(m * 2 ^ e) ^ (± n * 2 ^ f)` at least the bound of overflow? For positive `m`. -/
def powerOverflows (m : Nat) (e : Int) (inverse : Bool) (n : Nat) (f : Int) : Bool :=
  let base := LogBounds.ofScaled m e
  let base := if inverse then base.neg else base
  let bound := LogBounds.ofScaled leastOverflow 970
  let times : Int := n * 2 ^ f.toNat
  let root : Int := 2 ^ (-f).toNat
  if bound.hi * root ≤ base.lo * times then true
  else if base.hi * times ≤ bound.lo * root then false
  else wholePowersOverflow m e inverse n f

/-! ## Exact powers -/

/-- `n * 2 ^ e` with the factors of two of `n` moved to the exponent. -/
def oddPart (n : Nat) (e : Int) : Nat × Int :=
  if n = 0 ∨ n % 2 = 1 then (n, e) else oddPart (n / 2) (e + 1)
termination_by n

/-- The `2 ^ k`-th root of `a * 2 ^ b`, for odd `a`, if it has that form again. -/
def exactRoot : (k a : Nat) → (b : Int) → Option (Nat × Int)
  | 0, a, b => some (a, b)
  | k + 1, a, b =>
    let r := isqrt a
    if r * r = a ∧ b % 2 = 0 then exactRoot k r (b / 2) else none

/-- `2 ^ e` as a number; far outside the range of the format it is zero or infinite. -/
def powerOfTwo (e : Int) : Binary64 :=
  if e < -1100 then zero false else if 1100 < e then .infinite false else ofScaled false 1 e

/-- `(a * 2 ^ b) ^ (± n)` for odd `a`, if `a` is one or `n` is at most 64. A larger power of a
larger `a` has too many digits to lie on a rounding boundary. -/
def wholePower (a : Nat) (b : Int) (inverse : Bool) (n : Nat) : Option Binary64 :=
  let e := if inverse then -(b * n) else b * n
  if a = 1 then some (powerOfTwo e)
  else if 64 < n then none
  else if inverse then some (ofQuotient false (2 ^ e.toNat) (a ^ n * 2 ^ (-e).toNat))
  else some (ofScaled false (a ^ n) e)

/-- `(m * 2 ^ e) ^ (± n * 2 ^ f)` where it may lie on a rounding boundary. -/
def boundaryPower (m : Nat) (e : Int) (inverse : Bool) (n : Nat) (f : Int) : Option Binary64 :=
  let (a, b) := oddPart m e
  let (n, f) := oddPart n f
  match exactRoot (-f).toNat a b with
  | none => none
  | some (a, b) => wholePower a b inverse (n * 2 ^ f.toNat)

/-! ## All powers -/

/-- `(m * 2 ^ e) ^ (± n * 2 ^ f)` for positive `m` and `n`. -/
def magnitudePower (m : Nat) (e : Int) (inverse : Bool) (n : Nat) (f : Int) : Binary64 :=
  if powerOverflows m e inverse n f then .infinite false
  else
    match boundaryPower m e inverse n f with
    | some x => x.clamp
    | none =>
      let exponent (p : Nat) : SignedEnclosure :=
        let log := SignedEnclosure.log p m e
        ⟨log.negative ^^ inverse, log.magnitude.scale n f⟩
      let first := exponent SignedEnclosure.firstPrecision
      if first.negative && 1100 * 2 ^ SignedEnclosure.firstPrecision < first.magnitude.lo then
        zero false
      else (SignedEnclosure.nearest 0 fun p => (exponent p).exp p).clamp

def exceedsOne : Binary64 → Bool
  | .nan => false
  | .infinite _ => true
  | .finite _ m e _ => magnitudeExceeds m e 1 0

/-- The power `x ^ y`; not-a-number for a negative `x` and a `y` that is not whole, infinite where
it passes the greatest finite number and for a negative power of zero. -/
def pow (x y : Binary64) : Binary64 :=
  if y.isZero || x = one false then one false
  else
    match x, y with
    | .nan, _ | _, .nan => .nan
    | .infinite s, _ =>
      let negative := s && y.isOdd
      if y.signBit then zero negative else .infinite negative
    | x, .infinite t =>
      if x.abs = one false then one false
      else if x.exceedsOne ^^ t then .infinite false
      else zero false
    | .finite s m e _, .finite t n f _ =>
      let negative := s && y.isOdd
      if m = 0 then if t then .infinite negative else zero negative
      else if s && !y.isWhole then .nan
      else (magnitudePower m e t n f).withSign negative

end Reckoner.Binary64
