import Reckoner.Enclosure.Basic

/-!
# The exponential series and what it gives

`quarters` sums the terms `t ^ k / k!` into four sums by `k mod 4`, every term rounded down (a
lower bound) or up with a bound on the terms left out (an upper bound). All four together enclose
the exponential; the first less the third, and the second less the fourth, the cosine and sine.
-/

namespace Reckoner

/-- Sums of every fourth term of a series, by the index of their first term. -/
structure Quarters where
  zeroth : Nat
  first : Nat
  second : Nat
  third : Nat

namespace Quarters

/-- The sums over `t ^ j / j!` for `j = k, k + 1, …` (`count` terms, sorted by `j - k`), where
`term` is the one for `j = k`. Upwards, twice the next term bounds the rest of the series. -/
def ofTerms (up : Bool) (p t : Nat) : (count k term : Nat) → Quarters
  | 0, _, term => let rest := if up then 2 * term else 0; ⟨rest, rest, rest, rest⟩
  | count + 1, k, term =>
    let rest := ofTerms up p t count (k + 1) (divToward up (term * t) (2 ^ p * (k + 1)))
    ⟨term + rest.third, rest.zeroth, rest.first, rest.second⟩

/-- The sums of the exponential series at `t * 2 ^ -p`, for `t` below `2 ^ (p + 1)`. -/
def ofArgument (up : Bool) (p t : Nat) : Quarters := ofTerms up p t (p / 4 + 16) 0 (2 ^ p)

def total (q : Quarters) : Nat := q.zeroth + q.first + q.second + q.third

end Quarters

namespace Enclosure

/-- The exponential of a number that is not negative: the argument is halved down to at most one,
and the sum of the series squared as often. -/
def exp (p : Nat) (x : Enclosure) : Enclosure :=
  let halvings := x.hi.log2 + 1 - p
  let t := x.shrink halvings
  squares p halvings
    ⟨(Quarters.ofArgument false p t.lo).total, (Quarters.ofArgument true p t.hi).total⟩

def expNeg (p : Nat) (x : Enclosure) : Enclosure := div p ⟨2 ^ p, 2 ^ p⟩ (x.exp p)

/-- The cosine and the sine of a number of the first quadrant. -/
def cosSin (p : Nat) (x : Enclosure) : Enclosure × Enclosure :=
  let low := Quarters.ofArgument false p x.lo
  let high := Quarters.ofArgument true p x.hi
  (⟨low.zeroth - high.second, high.zeroth - low.second⟩,
   ⟨low.first - high.third, high.first - low.third⟩)

end Enclosure

/-- The exponential of a signed real number. -/
def SignedEnclosure.exp (p : Nat) (x : SignedEnclosure) : SignedEnclosure :=
  ⟨false, if x.negative then x.magnitude.expNeg p else x.magnitude.exp p⟩

end Reckoner
