import Reckoner.Binary64.Rounding

/-!
# Enclosures of real numbers

An enclosure at precision `p` bounds a real number that is not negative between two multiples of
`2 ^ -p`. A function is rounded correctly by enclosing its exact value ever more closely until
both bounds round to the same number (`settle`).
-/

namespace Reckoner

def ceilDiv (n d : Nat) : Nat := (n + d - 1) / d

def divToward (up : Bool) (n d : Nat) : Nat := if up then ceilDiv n d else n / d

/-- Bounds on a real number that is not negative, in units of `2 ^ -p`. -/
structure Enclosure where
  lo : Nat
  hi : Nat

namespace Enclosure

/-- The exact value `m * 2 ^ e`, a multiple of the unit when `-p ≤ e`. -/
def ofScaled (p m : Nat) (e : Int) : Enclosure :=
  let units := m * 2 ^ (e + p).toNat
  ⟨units, units⟩

def add (x y : Enclosure) : Enclosure := ⟨x.lo + y.lo, x.hi + y.hi⟩

def sub (x y : Enclosure) : Enclosure := ⟨x.lo - y.hi, x.hi - y.lo⟩

def times (k : Nat) (x : Enclosure) : Enclosure := ⟨k * x.lo, k * x.hi⟩

/-- The number times `2 ^ -k`. -/
def shrink (k : Nat) (x : Enclosure) : Enclosure := ⟨x.lo / 2 ^ k, ceilDiv x.hi (2 ^ k)⟩

/-- The number times `m * 2 ^ e`. -/
def scale (m : Nat) (e : Int) (x : Enclosure) : Enclosure :=
  (x.times (m * 2 ^ e.toNat)).shrink (-e).toNat

def square (p : Nat) (x : Enclosure) : Enclosure :=
  ⟨x.lo * x.lo / 2 ^ p, ceilDiv (x.hi * x.hi) (2 ^ p)⟩

def squares (p : Nat) : Nat → Enclosure → Enclosure
  | 0, x => x
  | k + 1, x => squares p k (x.square p)

def div (p : Nat) (x y : Enclosure) : Enclosure :=
  ⟨x.lo * 2 ^ p / y.hi, ceilDiv (x.hi * 2 ^ p) y.lo⟩

end Enclosure

/-- An enclosure of the magnitude of a real number, and the sign of that number. -/
structure SignedEnclosure where
  negative : Bool
  magnitude : Enclosure

namespace SignedEnclosure

def roundLo (p : Nat) (x : SignedEnclosure) : Binary64 := .ofQuotient x.negative x.magnitude.lo (2 ^ p)

def roundHi (p : Nat) (x : SignedEnclosure) : Binary64 := .ofQuotient x.negative x.magnitude.hi (2 ^ p)

/-- The number nearest to the real number that `enclose` encloses: the precision is doubled until
both bounds agree, `tries` times at most. -/
def settle (enclose : Nat → SignedEnclosure) : (p tries : Nat) → Binary64
  | p, 0 => (enclose p).roundLo p
  | p, tries + 1 =>
    let x := enclose p
    if x.roundLo p = x.roundHi p then x.roundLo p else settle enclose (2 * p) tries

/-- The bits of a first try: enough to write the least positive number, and two hundred more. -/
def firstPrecision : Nat := 1280

/-- The nearest number, from enclosures of at least the first precision and `extra` bits. -/
def nearest (extra : Nat) (enclose : Nat → SignedEnclosure) : Binary64 :=
  settle enclose (firstPrecision + extra) 2

end SignedEnclosure
end Reckoner
