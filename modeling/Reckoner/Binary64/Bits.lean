import Reckoner.Binary64.Basic

/-!
# The interchange bits of a number

Sign, eleven bits of biased exponent, 52 bits of trailing significand. `ofBits_toBits` says that
writing and reading gives the number back.
-/

namespace Reckoner.Binary64

/-- The 64 bits of a number; a not-a-number is written as the quiet positive one. -/
def toBits : Binary64 → Nat
  | .nan => 0x7ff8000000000000
  | .infinite negative => negative.toNat * 2 ^ 63 + 0x7ff * 2 ^ 52
  | .finite negative m e _ =>
    negative.toNat * 2 ^ 63 + (if m < 2 ^ 52 then m else (e + 1075).toNat * 2 ^ 52 + (m - 2 ^ 52))

def ofBits (bits : Nat) : Binary64 :=
  let negative := bits / 2 ^ 63 % 2 == 1
  let biased : Nat := bits / 2 ^ 52 % 2 ^ 11
  let trailing : Nat := bits % 2 ^ 52
  if biased = 0x7ff then
    if trailing = 0 then .infinite negative else .nan
  else if biased = 0 then pack negative trailing (-1074)
  else pack negative (2 ^ 52 + trailing) ((biased : Int) - 1075)

theorem ofBits_toBits (x : Binary64) : ofBits x.toBits = x := by
  cases x with
  | nan => rfl
  | infinite negative => cases negative <;> rfl
  | finite negative m e h =>
    have h' := h
    obtain ⟨hm, he, he', hn⟩ := h'
    have hs : negative.toNat ≤ 1 := by cases negative <;> decide
    have sign : (negative.toNat == 1) = negative := by cases negative <;> rfl
    by_cases small : m < 2 ^ 52
    · have he0 : e = -1074 := by omega
      have b1 : (negative.toNat * 2 ^ 63 + m) / 2 ^ 63 % 2 = negative.toNat := by omega
      have b2 : (negative.toNat * 2 ^ 63 + m) / 2 ^ 52 % 2 ^ 11 = 0 := by omega
      have b3 : (negative.toNat * 2 ^ 63 + m) % 2 ^ 52 = m := by omega
      subst he0
      simp only [toBits, small, if_true, ofBits, b1, b2, b3, sign]
      simp [pack, h]
    · obtain ⟨k, hk⟩ : ∃ k : Nat, (e + 1075).toNat = k := ⟨_, rfl⟩
      have hk1 : 1 ≤ k := by omega
      have hk2 : k ≤ 2046 := by omega
      have b1 : (negative.toNat * 2 ^ 63 + (k * 2 ^ 52 + (m - 2 ^ 52))) / 2 ^ 63 % 2 =
          negative.toNat := by omega
      have b2 : (negative.toNat * 2 ^ 63 + (k * 2 ^ 52 + (m - 2 ^ 52))) / 2 ^ 52 % 2 ^ 11 = k := by
        omega
      have b3 : (negative.toNat * 2 ^ 63 + (k * 2 ^ 52 + (m - 2 ^ 52))) % 2 ^ 52 = m - 2 ^ 52 := by
        omega
      have b4 : 2 ^ 52 + (m - 2 ^ 52) = m := by omega
      have b5 : ((k : Int) - 1075) = e := by omega
      have n1 : k ≠ 0x7ff := by omega
      have n2 : k ≠ 0 := by omega
      simp only [toBits, small, if_false, hk, ofBits, b1, b2, b3, b4, b5, n1, n2, sign]
      exact pack_of_canonical negative h

end Reckoner.Binary64
