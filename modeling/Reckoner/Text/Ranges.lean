/-!
# Sets of characters as ranges of code points

A table lists closed ranges in increasing order, so that a search stops at the first range that
begins past the character.
-/

namespace Reckoner.Text

/-- Closed ranges of code points, in increasing order. -/
abbrev Ranges := List (Nat × Nat)

def Ranges.contains : Ranges → Nat → Bool
  | [], _ => false
  | (first, last) :: rest, n => if n < first then false else n ≤ last || contains rest n

theorem Ranges.contains_eq_false {r : Ranges} {n : Nat} (h : ∀ p ∈ r, ¬(p.1 ≤ n ∧ n ≤ p.2)) :
    r.contains n = false := by
  induction r with
  | nil => rfl
  | cons p r ih =>
    obtain ⟨first, last⟩ := p
    have here := h (first, last) (by simp)
    have there := ih fun q hq => h q (by simp [hq])
    simp only [contains]
    split
    · rfl
    · simp only [there, Bool.or_false, decide_eq_false_iff_not]; omega

theorem Ranges.mem_of_contains {r : Ranges} {n : Nat} (h : r.contains n = true) :
    ∃ p ∈ r, p.1 ≤ n ∧ n ≤ p.2 := by
  false_or_by_contra
  rename_i no
  rw [contains_eq_false fun p hp hn => no ⟨p, hp, hn⟩] at h
  exact absurd h (by decide)

end Reckoner.Text
