import Reckoner.Enclosure.Basic

/-!
# The binary logarithm by repeated squaring

The exponent of the leading bit of `x ^ (2 ^ k)` is `2 ^ k * log₂ x` rounded down. The powers are
kept between two significands with one exponent, cut to some five hundred bits after each squaring.
-/

namespace Reckoner

/-- Bounds on a real number, in units of `2 ^ -k` for a `k` known from elsewhere. -/
structure LogBounds where
  lo : Int
  hi : Int

namespace LogBounds

def neg (b : LogBounds) : LogBounds := ⟨-b.hi, -b.lo⟩

/-- The least `k` with `n ≤ 2 ^ k`. -/
def log2Up (n : Nat) : Nat := if n = 2 ^ n.log2 then n.log2 else n.log2 + 1

/-- Bounds on `2 ^ k * log₂ x` for any `x` between `lo * 2 ^ e` and `hi * 2 ^ e`. -/
def ofPowers : (k lo hi : Nat) → (e : Int) → LogBounds
  | 0, lo, hi, e => ⟨e + lo.log2, e + log2Up hi⟩
  | k + 1, lo, hi, e =>
    let cut := (hi * hi).log2 - 512
    ofPowers k (lo * lo / 2 ^ cut) (ceilDiv (hi * hi) (2 ^ cut)) (2 * e + cut)

/-- Bounds on `2 ^ 256 * log₂ (m * 2 ^ e)`, for positive `m`. -/
def ofScaled (m : Nat) (e : Int) : LogBounds := ofPowers 256 m m e

end LogBounds
end Reckoner
