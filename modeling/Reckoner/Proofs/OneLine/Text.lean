import Reckoner.Proofs.Display
import Reckoner.Text.Quoted

/-!
# Text on one line

Ten characters end a line. All of them are blanks, so that the normal text of an expression holds none, and
none of them is printable, so that quoted text holds none either, whatever is quoted. The texts of numbers
are made of digits, signs, points and letters.
-/

namespace Reckoner

namespace Text

/-- The code points of the characters that end a line. -/
def lineBreakRanges : Ranges := [(0xa, 0xd), (0x1c, 0x1e), (0x85, 0x85), (0x2028, 0x2029)]

def isLineBreak (c : Char) : Bool := lineBreakRanges.contains c.toNat

/-- Does no character of the text end a line? -/
def OneLine (cs : List Char) : Prop := ∀ c ∈ cs, isLineBreak c = false

instance (cs : List Char) : Decidable (OneLine cs) := List.decidableBAll (isLineBreak · = false) cs

variable {as bs cs : List Char} {c : Char}

@[simp]
theorem oneLine_append : OneLine (as ++ bs) ↔ OneLine as ∧ OneLine bs := List.forall_mem_append

@[simp]
theorem oneLine_cons : OneLine (c :: cs) ↔ isLineBreak c = false ∧ OneLine cs := List.forall_mem_cons

@[simp]
theorem oneLine_nil : OneLine [] := fun _ h => absurd h List.not_mem_nil

structure IsLine (text : String) : Prop where
  oneLine : OneLine text.toList
  ne_empty : text ≠ ""

theorem oneLine_concat {a b : String} (ha : OneLine a.toList) (hb : OneLine b.toList) : OneLine (a ++ b).toList := by
  rw [String.toList_append]
  exact oneLine_append.2 ⟨ha, hb⟩

theorem IsLine.concat {a b : String} (ha : IsLine a) (hb : OneLine b.toList) : IsLine (a ++ b) :=
  ⟨oneLine_concat ha.oneLine hb, by simp [ha.ne_empty]⟩

theorem OneLine.subset (h : OneLine bs) (hsub : as ⊆ bs) : OneLine as := fun c hc => h c (hsub hc)

/-! ## Characters that do not end a line -/

/-- What ends a line is a blank. -/
theorem isLineBreak_of_visible (h : isBlank c = false) : isLineBreak c = false := by
  rw [Bool.eq_false_iff]
  intro hbreak
  obtain ⟨p, hp, hc⟩ := Ranges.mem_of_contains hbreak
  simp only [isBlank, isSpace, spaceRanges, Ranges.contains] at h
  simp only [lineBreakRanges, List.mem_cons, List.not_mem_nil, or_false] at hp
  rcases hp with rfl | rfl | rfl | rfl <;> grind

theorem printableRanges_apart : ∀ q ∈ lineBreakRanges, ∀ p ∈ printableRanges, p.2 < q.1 ∨ q.2 < p.1 := by
  decide +kernel

/-- What ends a line is not printable. -/
theorem isLineBreak_of_isPrintable (h : isPrintable c = true) : isLineBreak c = false := by
  rw [Bool.eq_false_iff]
  intro hbreak
  obtain ⟨p, hp, hp₁, hp₂⟩ := Ranges.mem_of_contains h
  obtain ⟨q, hq, hq₁, hq₂⟩ := Ranges.mem_of_contains hbreak
  have := printableRanges_apart q hq p hp
  omega

/-! ## Digits -/

theorem isLineBreak_digitChar : ∀ n < 16, isLineBreak (Nat.digitChar n) = false := by decide

theorem oneLine_toDigits {b : Nat} (hb : 1 < b) (hb' : b ≤ 16) (n : Nat) : OneLine (b.toDigits n) := by
  induction n using Nat.strongRecOn with
  | ind n ih =>
    rw [Nat.toDigits_eq_if hb]
    split
    · rename_i hn
      exact oneLine_cons.2 ⟨isLineBreak_digitChar n (by omega), oneLine_nil⟩
    · have hlast : n % b < 16 := Nat.lt_of_lt_of_le (Nat.mod_lt n (by omega)) hb'
      refine oneLine_append.2 ⟨ih _ (Nat.div_lt_self (by omega) hb), ?_⟩
      exact oneLine_cons.2 ⟨isLineBreak_digitChar _ hlast, oneLine_nil⟩

theorem oneLine_replicate (hc : isLineBreak c = false) (n : Nat) : OneLine (List.replicate n c) := by
  intro d hd
  rw [List.eq_of_mem_replicate hd, hc]

/-! ## Quoted text -/

theorem oneLine_hexDigits (width n : Nat) : OneLine (hexDigits width n) :=
  oneLine_append.2 ⟨oneLine_replicate (by decide) _, oneLine_toDigits (by decide) (by decide) n⟩

theorem oneLine_escape {quote : Char} (hquote : isLineBreak quote = false) (c : Char) : OneLine (escape quote c) := by
  unfold escape
  split
  · rename_i h
    rw [Bool.or_eq_true, decide_eq_true_eq, decide_eq_true_eq] at h
    rcases h with rfl | rfl
    · decide
    · simpa [hquote] using (by decide : isLineBreak '\\' = false)
  repeat' split
  · decide
  · decide
  · decide
  · rename_i h
    simpa using isLineBreak_of_isPrintable h
  all_goals simpa [oneLine_hexDigits] using (by decide)

theorem oneLine_quoted (text : String) : OneLine (quoted text).toList := by
  have hquote : isLineBreak (quoteFor text.toList) = false := by
    unfold quoteFor
    split <;> decide
  rw [quoted, String.toList_ofList]
  simp only [List.cons_append, oneLine_cons, oneLine_append, oneLine_nil, hquote, and_true, true_and]
  intro c hc
  obtain ⟨d, -, hd⟩ := List.mem_flatMap.1 hc
  exact oneLine_escape hquote d c hd

end Text

open Text

/-! ## Texts of numbers -/

theorem oneLine_natText (n : Nat) : OneLine (toString n).toList := by
  rw [Nat.toString_eq_ofList_toDigits, String.toList_ofList]
  exact oneLine_toDigits (by decide) (by decide) n

theorem oneLine_intText (n : Int) : OneLine (toString n).toList := by
  cases n with
  | ofNat n => exact oneLine_natText n
  | negSucc n =>
    show OneLine ("-" ++ toString (n + 1)).toList
    rw [String.toList_append, oneLine_append]
    exact ⟨by decide, oneLine_natText (n + 1)⟩

namespace Decimal

variable {cs : List Char}

theorem oneLine_digits (n : Nat) : OneLine (digits n) := oneLine_toDigits (by decide) (by decide) n

theorem oneLine_padZeros (h : OneLine cs) (width : Nat) : OneLine (padZeros width cs) :=
  oneLine_append.2 ⟨oneLine_replicate (by decide) _, h⟩

theorem oneLine_signed (h : OneLine cs) (negative : Bool) : OneLine (signed negative cs).toList := by
  rw [signed, String.toList_ofList]
  split
  · exact oneLine_cons.2 ⟨by decide, h⟩
  · exact h

/-- No character of the text of a number ends a line. -/
theorem isLineBreak_of_isNumeral {c : Char} (h : isNumeral c = true) : isLineBreak c = false := by
  rw [isNumeral, Bool.or_eq_true, decide_eq_true_eq] at h
  rcases h with hdigit | hother
  · have hword : Formula.isWordChar c = true := by simp [Formula.isWordChar, hdigit]
    exact isLineBreak_of_visible (Formula.not_isBlank_of_isWordChar hword)
  · have hothers : OneLine ['-', '.', 'i', 'n', 'f', 'a'] := by decide
    exact hothers c hother

theorem oneLine_fixed (places : Nat) (x : Binary64) : OneLine (fixed places x).toList :=
  fun c hc => isLineBreak_of_isNumeral (List.all_eq_true.1 (fixed_all places x) c hc)

theorem oneLine_fraction (h : OneLine cs) : OneLine (fraction cs) := by
  have hkept : OneLine (cs.reverse.dropWhile (· == '0')).reverse :=
    h.subset fun c hc => by
      simpa using (List.dropWhile_sublist _).subset (List.mem_reverse.1 hc)
  unfold fraction
  split
  · exact oneLine_nil
  · exact oneLine_cons.2 ⟨by decide, hkept⟩

theorem oneLine_exponentText (e : Int) : OneLine (exponentText e) := by
  rw [exponentText, oneLine_cons, oneLine_cons]
  refine ⟨by decide, ?_, oneLine_padZeros (oneLine_digits _) _⟩
  split <;> decide

theorem oneLine_generalMagnitude (n d : Nat) : OneLine (generalMagnitude n d) := by
  have hdigits := oneLine_digits (sixDigits n d).1
  have htake := fun k => hdigits.subset (List.take_subset k _)
  have hdrop := fun k => oneLine_fraction (hdigits.subset (List.drop_subset k _))
  simp only [generalMagnitude]
  split
  · exact oneLine_append.2 ⟨oneLine_append.2 ⟨htake _, hdrop _⟩, oneLine_exponentText _⟩
  split
  · refine oneLine_cons.2 ⟨by decide, oneLine_fraction ?_⟩
    exact oneLine_append.2 ⟨oneLine_replicate (by decide) _, hdigits⟩
  · exact oneLine_append.2 ⟨htake _, hdrop _⟩

theorem oneLine_general (x : Binary64) : OneLine (general x).toList := by
  cases x with
  | nan => decide
  | infinite negative => exact oneLine_signed (by decide) negative
  | finite negative m e canonical =>
    refine oneLine_signed ?_ negative
    split
    · decide
    · exact oneLine_generalMagnitude _ _

end Decimal
end Reckoner
