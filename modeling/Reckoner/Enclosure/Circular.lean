import Reckoner.Enclosure.Exponential

/-!
# Sine, cosine and tangent

The argument is reduced by whole quarter turns, with a quarter turn enclosed to so many bits that
the reduced argument keeps its precision; the count of quarter turns modulo four picks the
function and its sign.
-/

namespace Reckoner

/-- The sum of the series `1 + 1/3 + 1·2/(3·5) + 1·2·3/(3·5·7) + …` from its `k`-th term, whose
limit is half of pi. Upwards, twice the next term bounds the rest of the series. -/
def quarterTurnTerms (up : Bool) : (count k term : Nat) → Nat
  | 0, _, term => if up then 2 * term else 0
  | count + 1, k, term =>
    term + quarterTurnTerms up count (k + 1) (divToward up (term * (k + 1)) (2 * k + 3))

/-- Half of pi. -/
def Enclosure.quarterTurn (p : Nat) : Enclosure :=
  ⟨quarterTurnTerms false (p + 8) 0 (2 ^ p), quarterTurnTerms true (p + 8) 0 (2 ^ p)⟩

/-- An angle reduced to the first quadrant: its cosine and sine there, and the count of quarter
turns taken off, modulo four. -/
structure ReducedAngle where
  quadrant : Nat
  cos : Enclosure
  sin : Enclosure

namespace ReducedAngle

/-- Reduces the angle `m * 2 ^ e`. -/
def of (p m : Nat) (e : Int) : ReducedAngle :=
  let angle := Enclosure.ofScaled p m e
  let turn := Enclosure.quarterTurn p
  let quarters := angle.lo / turn.lo
  let (cos, sin) := (angle.sub (turn.times quarters)).cosSin p
  ⟨quarters % 4, cos, sin⟩

/-- The sine of the whole angle, negated if `negative`. -/
def sine (negative : Bool) (a : ReducedAngle) : SignedEnclosure :=
  match a.quadrant with
  | 0 => ⟨negative, a.sin⟩
  | 1 => ⟨negative, a.cos⟩
  | 2 => ⟨!negative, a.sin⟩
  | _ => ⟨!negative, a.cos⟩

def cosine (a : ReducedAngle) : SignedEnclosure :=
  match a.quadrant with
  | 0 => ⟨false, a.cos⟩
  | 1 => ⟨true, a.sin⟩
  | 2 => ⟨true, a.cos⟩
  | _ => ⟨false, a.sin⟩

/-- The tangent of the whole angle, negated if `negative`. -/
def tangent (p : Nat) (negative : Bool) (a : ReducedAngle) : SignedEnclosure :=
  if a.quadrant % 2 = 0 then ⟨negative, a.sin.div p a.cos⟩ else ⟨!negative, a.cos.div p a.sin⟩

/-- The bits that the reduction of an angle with exponent `e` takes. -/
def extraBits (e : Int) : Nat := e.toNat + 128

end ReducedAngle
end Reckoner
