/-!
# Binary64 numbers

A binary64 number is not-a-number, a signed infinity, or `± m * 2 ^ e` in the one form that the
format stores: a significand of 53 bits, or a shorter one at the least exponent. The form is
unique, so two numbers are equal exactly when they have the same bits (there is one not-a-number).
-/

namespace Reckoner

-- Powers with natural exponents are the core library's, whatever other powers are imported beside them.
attribute [instance (20000), default_instance 20000] instPowNat

/-- The stored form of a finite magnitude `m * 2 ^ e`. -/
def Canonical (m : Nat) (e : Int) : Prop :=
  m < 2 ^ 53 ∧ -1074 ≤ e ∧ e ≤ 971 ∧ (2 ^ 52 ≤ m ∨ e = -1074)

instance (m : Nat) (e : Int) : Decidable (Canonical m e) := by
  unfold Canonical; infer_instance

/-- A number of the binary64 format, up to the payload of a not-a-number. -/
inductive Binary64 where
  | nan
  | infinite (negative : Bool)
  | finite (negative : Bool) (m : Nat) (e : Int) (canonical : Canonical m e)
  deriving DecidableEq

namespace Binary64

def zero (negative : Bool) : Binary64 := .finite negative 0 (-1074) (by decide)

instance : Inhabited Binary64 := ⟨zero false⟩

def one (negative : Bool) : Binary64 := .finite negative (2 ^ 52) (-52) (by decide)

def greatest (negative : Bool) : Binary64 := .finite negative (2 ^ 53 - 1) 971 (by decide)

/-- `± m * 2 ^ e` for a significand in stored form; a magnitude past the greatest is infinite. -/
def pack (negative : Bool) (m : Nat) (e : Int) : Binary64 :=
  if h : Canonical m e then .finite negative m e h else .infinite negative

theorem pack_of_canonical (negative : Bool) {m : Nat} {e : Int} (h : Canonical m e) :
    pack negative m e = .finite negative m e h := dif_pos h

/-! ## Sign and kind -/

def signBit : Binary64 → Bool
  | .nan => false
  | .infinite negative => negative
  | .finite negative _ _ _ => negative

/-- Is the number a zero of either sign? -/
def isZero : Binary64 → Bool
  | .finite _ m _ _ => m == 0
  | _ => false

/-- Is the number neither infinite nor not-a-number? -/
def isFinite : Binary64 → Bool
  | .finite .. => true
  | _ => false

/-- Is the number less than zero? A negative zero and not-a-number are not. -/
def isBelowZero (x : Binary64) : Bool := x.signBit && !x.isZero

def isWhole : Binary64 → Bool
  | .finite _ m e _ => m % 2 ^ (-e).toNat == 0
  | _ => false

def isOdd (x : Binary64) : Bool :=
  match x with
  | .finite _ m e _ => x.isWhole && e ≤ 0 && m / 2 ^ (-e).toNat % 2 == 1
  | _ => false

/-- The number with its sign bit flipped. -/
def neg : Binary64 → Binary64
  | .nan => .nan
  | .infinite negative => .infinite (!negative)
  | .finite negative m e h => .finite (!negative) m e h

/-- The number with its sign bit set to `negative`. -/
def withSign (negative : Bool) : Binary64 → Binary64
  | .nan => .nan
  | .infinite _ => .infinite negative
  | .finite _ m e h => .finite negative m e h

def abs (x : Binary64) : Binary64 := x.withSign false

@[simp] theorem neg_neg (x : Binary64) : x.neg.neg = x := by
  cases x <;> simp [neg]

end Binary64
end Reckoner
