import Reckoner.Binary64.Rounding

/-!
# Sum, product, quotient and square root

Each operation takes the exact result of its operands and rounds it once. An exact zero of a sum
is negative only when both terms are negative. The square root rounds `2 r` or `2 r + 1`, where
`r` is the whole root of the scaled significand: the odd value stands for any root strictly
between `r` and `r + 1`, as no rounding boundary lies there.
-/

namespace Reckoner

/-- The greatest `r` with `r * r ≤ n`. -/
def isqrt (n : Nat) : Nat :=
  if n = 0 then 0
  else
    let r := 2 * isqrt (n / 4)
    if (r + 1) * (r + 1) ≤ n then r + 1 else r

theorem isqrt_spec (n : Nat) : isqrt n * isqrt n ≤ n ∧ n < (isqrt n + 1) * (isqrt n + 1) := by
  fun_induction isqrt n with
  | case1 => simp
  | case2 n h r ok ih =>
    refine ⟨ok, ?_⟩
    have step : ∀ q, n / 4 < (q + 1) * (q + 1) → n < (2 * q + 1 + 1) * (2 * q + 1 + 1) := by grind
    exact step _ ih.2
  | case3 n h r no ih =>
    refine ⟨?_, by omega⟩
    have step : ∀ q, q * q ≤ n / 4 → 2 * q * (2 * q) ≤ n := by grind
    exact step _ ih.1

namespace Binary64

/-- The whole number `± m * 2 ^ k`. -/
def signedShift (negative : Bool) (m k : Nat) : Int :=
  if negative then -((m * 2 ^ k : Nat) : Int) else (m * 2 ^ k : Nat)

/-- The sum; not-a-number for infinities of both signs. -/
def add : Binary64 → Binary64 → Binary64
  | .nan, _ | _, .nan => .nan
  | .infinite s, .infinite t => if s = t then .infinite s else .nan
  | .infinite s, .finite .. => .infinite s
  | .finite .., .infinite t => .infinite t
  | .finite s m e _, .finite t n f _ =>
    let low := min e f
    let sum := signedShift s m (e - low).toNat + signedShift t n (f - low).toNat
    if sum = 0 then zero (s && t) else ofScaled (sum < 0) sum.natAbs low

/-- The product; not-a-number for zero times an infinity. -/
def mul : Binary64 → Binary64 → Binary64
  | .nan, _ | _, .nan => .nan
  | .infinite s, y => if y.isZero then .nan else .infinite (s ^^ y.signBit)
  | x, .infinite t => if x.isZero then .nan else .infinite (x.signBit ^^ t)
  | .finite s m e _, .finite t n f _ => ofScaled (s ^^ t) (m * n) (e + f)

/-- The quotient. Zero by zero, and infinity by infinity, is not-a-number; any other number by zero
is infinite. -/
def div : Binary64 → Binary64 → Binary64
  | .nan, _ | _, .nan => .nan
  | .infinite _, .infinite _ => .nan
  | .infinite s, .finite t _ _ _ => .infinite (s ^^ t)
  | .finite s _ _ _, .infinite t => zero (s ^^ t)
  | .finite s m e _, .finite t n f _ =>
    if n = 0 then if m = 0 then .nan else .infinite (s ^^ t)
    else ofQuotient (s ^^ t) (m * 2 ^ (e - f).toNat) (n * 2 ^ (f - e).toNat)

/-- The square root; not-a-number below zero, and zero keeps its sign. -/
def sqrt : Binary64 → Binary64
  | .nan => .nan
  | .infinite negative => if negative then .nan else .infinite false
  | .finite negative m e _ =>
    if m = 0 then zero negative
    else if negative then .nan
    else
      let scaled := if e % 2 = 0 then m * 2 ^ 120 else m * 2 ^ 121
      let root := isqrt scaled
      ofScaled false (if root * root = scaled then 2 * root else 2 * root + 1) (e / 2 - 61)

end Binary64
end Reckoner
