import Reckoner.Enclosure.Basic

/-!
# The natural logarithm

With `m = 2 ^ k * u` and `1 ≤ u < 2`, the logarithm of `m * 2 ^ e` is `(e + k) log 2 + log u`, and
`log u` is twice the inverse hyperbolic tangent of `(u - 1) / (u + 1)`, which is at most a third.
-/

namespace Reckoner
namespace Enclosure

/-- The sum of `power * w ^ (2 i) / (2 (j + i) + 1)` over `i < count`, where `w ^ 2 = n / d` is at
most a ninth. Upwards, twice the next power bounds the rest of the series. -/
def oddPowers (up : Bool) (n d : Nat) : (count j power : Nat) → Nat
  | 0, _, power => if up then 2 * power else 0
  | count + 1, j, power =>
    divToward up power (2 * j + 1) + oddPowers up n d count (j + 1) (divToward up (power * n) d)

/-- The inverse hyperbolic tangent of `n / d`, which is at most a third. -/
def artanh (p n d : Nat) : Enclosure :=
  let bound (up : Bool) : Nat :=
    oddPowers up (n * n) (d * d) (p / 3 + 8) 0 (divToward up (n * 2 ^ p) d)
  ⟨bound false, bound true⟩

def logTwo (p : Nat) : Enclosure := (artanh p 1 3).times 2

end Enclosure

/-- The logarithm of `m * 2 ^ e`, for positive `m`. -/
def SignedEnclosure.log (p m : Nat) (e : Int) : SignedEnclosure :=
  let k := m.log2
  let whole := e + k
  let twos := (Enclosure.logTwo p).times whole.natAbs
  let part := (Enclosure.artanh p (m - 2 ^ k) (m + 2 ^ k)).times 2
  if whole < 0 then ⟨true, twos.sub part⟩ else ⟨false, twos.add part⟩

end Reckoner
