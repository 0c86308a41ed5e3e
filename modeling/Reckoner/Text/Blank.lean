import Reckoner.Text.Ranges

/-!
# Blanks

White space is what has the Unicode property White_Space. A blank is white space or one of the
four separators U+001C to U+001F.
-/

namespace Reckoner.Text

def spaceRanges : Ranges :=
  [(0x9, 0xd), (0x20, 0x20), (0x85, 0x85), (0xa0, 0xa0), (0x1680, 0x1680), (0x2000, 0x200a),
   (0x2028, 0x2029), (0x202f, 0x202f), (0x205f, 0x205f), (0x3000, 0x3000)]

def isSpace (c : Char) : Bool := spaceRanges.contains c.toNat

/-- Is the character a blank? -/
def isBlank (c : Char) : Bool := (0x1c ≤ c.toNat && c.toNat ≤ 0x1f) || isSpace c

/-- The text without the characters of a kind at its two ends. -/
def trim (drops : Char → Bool) (cs : List Char) : List Char :=
  ((cs.dropWhile drops).reverse.dropWhile drops).reverse

/-- The text without the blanks at its two ends. -/
def strip (cs : List Char) : List Char := trim isBlank cs

/-- A text is its trimmed text between what has been dropped. -/
theorem exists_trim (drops : Char → Bool) (cs : List Char) :
    ∃ front back, cs = front ++ (trim drops cs ++ back) ∧ front.all drops = true ∧ back.all drops = true := by
  refine ⟨cs.takeWhile drops, ((cs.dropWhile drops).reverse.takeWhile drops).reverse, ?_, List.all_takeWhile, ?_⟩
  · rw [trim, ← List.reverse_append, List.takeWhile_append_dropWhile, List.reverse_reverse,
      List.takeWhile_append_dropWhile]
  · rw [List.all_reverse]
    exact List.all_takeWhile

/-- What is dropped at the end of a text may stand there. -/
theorem trim_concat {drops : Char → Bool} {c : Char} (h : drops c = true) (cs : List Char) :
    trim drops (cs ++ [c]) = trim drops cs := by
  have hc : [c].dropWhile drops = [] := by simp [h]
  unfold trim
  rw [List.dropWhile_append]
  split
  · rename_i hnil
    rw [hc, List.isEmpty_iff.1 hnil]
  · rw [List.reverse_append, List.reverse_singleton, List.singleton_append, List.dropWhile_cons_of_pos h]

end Reckoner.Text
