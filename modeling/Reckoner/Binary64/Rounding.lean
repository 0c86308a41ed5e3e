import Reckoner.Binary64.Basic

/-!
# Rounding to binary64

`ofQuotient` gives the number nearest to `± n / d`, a tie going to the even significand. All
arithmetic, and the reading of decimal literals, end in this one function. `roundDiv` is the
rounding itself: `roundDiv_mul` says that it leaves a whole quotient alone, and
`roundDiv_le` and `le_roundDiv` that it stays within half a unit.
-/

namespace Reckoner

/-- The whole number nearest to `n / d`; a tie goes to the even one. -/
def roundDiv (n d : Nat) : Nat :=
  let q := n / d
  let r := 2 * (n % d)
  if r < d then q else if d < r then q + 1 else q + q % 2

theorem roundDiv_mul {d : Nat} (h : 0 < d) (q : Nat) : roundDiv (q * d) d = q := by
  simp [roundDiv, Nat.mul_div_cancel _ h, h]

theorem roundDiv_le {d : Nat} (h : 0 < d) (n : Nat) : 2 * (roundDiv n d * d) ≤ 2 * n + d := by
  have hn := Nat.div_add_mod n d
  have hm := Nat.mod_lt n h
  have hq : n / d % 2 ≤ 1 := by omega
  rw [Nat.mul_comm] at hn
  simp only [roundDiv]
  split
  · omega
  · split
    · rw [Nat.add_mul]; omega
    · have : n / d % 2 * d ≤ 1 * d := Nat.mul_le_mul_right d hq
      rw [Nat.add_mul]; omega

theorem le_roundDiv {d : Nat} (h : 0 < d) (n : Nat) : 2 * n ≤ 2 * (roundDiv n d * d) + d := by
  have hn := Nat.div_add_mod n d
  have hm := Nat.mod_lt n h
  rw [Nat.mul_comm] at hn
  simp only [roundDiv]
  split
  · omega
  · split
    · rw [Nat.add_mul]; omega
    · rw [Nat.add_mul]; omega

/-- The exponent of the leading bit of `n / d`, for positive `n` and `d`. -/
def leadingExponent (n d : Nat) : Int :=
  let k := (n.log2 : Int) - d.log2
  if d * 2 ^ k.toNat ≤ n * 2 ^ (-k).toNat then k else k - 1

namespace Binary64

/-- `± m * 2 ^ e` for a significand that rounding may have carried to 54 bits. -/
def ofRounded (negative : Bool) (m : Nat) (e : Int) : Binary64 :=
  if m = 2 ^ 53 then pack negative (2 ^ 52) (e + 1) else pack negative m e

/-- The number nearest to `± n / d`, for positive `d`. -/
def ofQuotient (negative : Bool) (n d : Nat) : Binary64 :=
  if n = 0 then zero negative
  else
    let e := max (leadingExponent n d - 52) (-1074)
    ofRounded negative (roundDiv (n * 2 ^ (-e).toNat) (d * 2 ^ e.toNat)) e

/-- The number nearest to `± n * 2 ^ e`. -/
def ofScaled (negative : Bool) (n : Nat) (e : Int) : Binary64 :=
  ofQuotient negative (n * 2 ^ e.toNat) (2 ^ (-e).toNat)

/-- The number nearest to `± n * 10 ^ e`. -/
def ofDecimal (negative : Bool) (n : Nat) (e : Int) : Binary64 :=
  ofQuotient negative (n * 10 ^ e.toNat) (10 ^ (-e).toNat)

def ofInt (n : Int) : Binary64 := ofQuotient (n < 0) n.natAbs 1

end Binary64
end Reckoner
