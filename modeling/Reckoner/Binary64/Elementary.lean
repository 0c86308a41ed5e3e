import Reckoner.Binary64.Basic
import Reckoner.Enclosure.Exponential
import Reckoner.Enclosure.Logarithm
import Reckoner.Enclosure.Circular

/-!
# Exponential, logarithm and the circular functions

Each function gives the number nearest to its exact value. Apart from the arguments that are
answered outright, no exact value lies on a rounding boundary, so enclosures settle it.

This is an idealisation: the functions of a library are near the exact ones but need not give the
nearest number, and may differ from these in the last digit (the cosine of 1155 is such).
-/

namespace Reckoner.Binary64

/-- The number itself, or the greatest of its sign in place of an infinity. -/
def clamp : Binary64 → Binary64
  | .infinite negative => greatest negative
  | x => x

/-- Is `m * 2 ^ e` greater than `n * 2 ^ f`? -/
def magnitudeExceeds (m : Nat) (e : Int) (n : Nat) (f : Int) : Bool :=
  let low := min e f
  n * 2 ^ (f - low).toNat < m * 2 ^ (e - low).toNat

/-- The greatest number whose exponential is finite, 709.78…, is this times `2 ^ -43`. -/
def greatestExponent : Nat := 0x162e42fefa39ef

/-- Does the exponential of the number pass the greatest finite one? -/
def expOverflows : Binary64 → Bool
  | .finite false m e _ => magnitudeExceeds m e greatestExponent (-43)
  | _ => false

/-- The exponential; infinite where it passes the greatest finite number. -/
def exp (x : Binary64) : Binary64 :=
  match x with
  | .nan => .nan
  | .infinite negative => if negative then zero false else .infinite false
  | .finite negative m e _ =>
    if x.expOverflows then .infinite false
    else if negative && magnitudeExceeds m e 1100 0 then zero false
    else (SignedEnclosure.nearest 0 fun p => SignedEnclosure.exp p ⟨negative, .ofScaled p m e⟩).clamp

/-- The natural logarithm; not-a-number below zero, and minus infinity at zero. -/
def log : Binary64 → Binary64
  | .nan => .nan
  | .infinite negative => if negative then .nan else .infinite false
  | .finite negative m e _ =>
    if m = 0 then .infinite true
    else if negative then .nan
    else SignedEnclosure.nearest 0 fun p => .log p m e

/-- The sine; not-a-number for an infinity. -/
def sin (x : Binary64) : Binary64 :=
  match x with
  | .finite negative m e _ =>
    if m = 0 then x
    else SignedEnclosure.nearest (ReducedAngle.extraBits e) fun p => (ReducedAngle.of p m e).sine negative
  | _ => .nan

/-- The cosine; not-a-number for an infinity. -/
def cos : Binary64 → Binary64
  | .finite _ m e _ => SignedEnclosure.nearest (ReducedAngle.extraBits e) fun p => (ReducedAngle.of p m e).cosine
  | _ => .nan

/-- The tangent; not-a-number for an infinity. -/
def tan (x : Binary64) : Binary64 :=
  match x with
  | .finite negative m e _ =>
    if m = 0 then x
    else SignedEnclosure.nearest (ReducedAngle.extraBits e) fun p => (ReducedAngle.of p m e).tangent p negative
  | _ => .nan

end Reckoner.Binary64
