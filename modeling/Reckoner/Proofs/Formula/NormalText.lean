import Reckoner.Proofs.NormalText
import Reckoner.Proofs.Formula.Basic

/-!
# The normal text of a formula

Blanks are dropped from a text that writes lexemes, and every lexeme then turns into its normal
text on its own: whether a minus sign keeps the plus sign before it depends only on whether an
operand has been read, which is the difference between a sign and a subtraction. `Settles` composes
this over the grammar.
-/

namespace Reckoner

namespace Formula

open NormalText

/-! ## Characters of words -/

def isWordChar (c : Char) : Bool := beginsName c || c.isDigit || c == '.'

theorem toNat_of_isDigit {c : Char} (h : c.isDigit = true) : 0x30 ≤ c.toNat ∧ c.toNat ≤ 0x39 := by
  simp only [Char.isDigit, Bool.and_eq_true, decide_eq_true_eq, ge_iff_le, UInt32.le_iff_toNat_le] at h
  exact h

theorem joins_of_isWordChar {c : Char} (h : isWordChar c = true) : joins c = true := by
  simp only [isWordChar, beginsName, Bool.or_eq_true, beq_iff_eq] at h
  simp only [joins, Text.isWord, Bool.or_eq_true, beq_iff_eq]
  rcases h with ((hl | rfl) | hd) | rfl
  · exact Or.inl (Or.inl (Or.inr hl))
  · exact Or.inl (Or.inl (Or.inl rfl))
  · obtain ⟨hlow, hhigh⟩ := toNat_of_isDigit hd
    have e : Text.isNumeral c = (if c.toNat < 0x30 then false else
        c.toNat ≤ 0x39 || Text.Ranges.contains Text.numeralRanges.tail c.toNat) := rfl
    rw [if_neg (Nat.not_lt.2 hlow)] at e
    exact Or.inl (Or.inr (by simp [e, hhigh]))
  · exact Or.inr rfl

theorem not_isBlank_of_isWordChar {c : Char} (h : isWordChar c = true) : Text.isBlank c = false :=
  not_isBlank_of_joins (joins_of_isWordChar h)

/-- A character of a word is none that the rules for signs know. -/
theorem ne_of_isWordChar {c d : Char} (h : isWordChar c = true) (hd : isWordChar d = false) : c ≠ d := by
  rintro rfl
  simp [h] at hd

theorem opensOperand_of_isWordChar {c : Char} (h : isWordChar c = true) : opensOperand c = false :=
  opensOperand_of_joins (joins_of_isWordChar h)

theorem Literal.digit_or_point {l : Literal} {c : Char} (h : c ∈ l.chars) : c.isDigit = true ∨ c = '.' := by
  rcases List.mem_append.1 h with h | h
  · exact Or.inl (List.all_eq_true.1 l.whole_digits c h)
  · have hd := l.places_digits
    cases hp : l.places with
    | none => rw [hp] at h; cases h
    | some ds =>
      rw [hp] at h hd
      rcases List.mem_cons.1 h with rfl | h
      · exact Or.inr rfl
      · exact Or.inl (List.all_eq_true.1 hd c h)

theorem Literal.isWordChar_of_mem {l : Literal} {c : Char} (h : c ∈ l.chars) : isWordChar c = true := by
  rcases l.digit_or_point h with hd | rfl
  · simp [isWordChar, hd]
  · rfl

theorem Literal.chars_ne_nil (l : Literal) : l.chars ≠ [] := by
  obtain ⟨whole, places, hw, hp, hne⟩ := l
  cases places with
  | none => simpa [chars] using hne
  | some ds => simp [chars]

theorem Name.isWordChar_of_mem {n : Name} {c : Char} (h : c ∈ n.chars) : isWordChar c = true := by
  rcases List.mem_cons.1 h with rfl | h
  · simp [isWordChar, n.head_begins]
  · have hc : (beginsName c || c.isDigit) = true := List.all_eq_true.1 n.tail_within c h
    simp only [isWordChar, hc, Bool.true_or]

/-! ## Blanks -/

/-- The text of lexemes without blanks. -/
def written (ls : List Lexeme) : List Char := ls.flatMap Lexeme.written

/-- Lexemes may be written without blanks. -/
theorem writes_written (a : Bool) (ls : List Lexeme) : Writes a ls (written ls) := by
  induction ls generalizing a with
  | nil => exact .done [] rfl
  | cons l ls ih => exact .next [] rfl (fun _ _ => rfl) (ih l.isWord)

theorem squeezeFrom_word {w : List Char} (h : ∀ c ∈ w, isWordChar c = true) (cs : List Char) :
    squeezeFrom true false (w ++ cs) = w ++ squeezeFrom true false cs := by
  induction w with
  | nil => rfl
  | cons c w ih =>
    have hc := h c (by simp)
    rw [List.cons_append, squeezeFrom_visible (not_isBlank_of_isWordChar hc) (by simp), joins_of_isWordChar hc,
      ih fun d hd => h d (by simp [hd]), List.cons_append]

/-- A word is kept as it is unless blanks part it from another one. -/
theorem squeezeFrom_word_first {w : List Char} (hne : w ≠ []) (h : ∀ c ∈ w, isWordChar c = true) {a g : Bool}
    (hg : a = true → g = false) (cs : List Char) :
    squeezeFrom a g (w ++ cs) = w ++ squeezeFrom true false cs := by
  obtain ⟨c, w, rfl⟩ := List.exists_cons_of_ne_nil hne
  have hc := h c (by simp)
  have hag : (a && g) = false := by
    cases a
    · rfl
    · exact hg rfl
  rw [List.cons_append, squeezeFrom_visible (not_isBlank_of_isWordChar hc) (by simp [hag]), joins_of_isWordChar hc,
    squeezeFrom_word fun d hd => h d (by simp [hd]), List.cons_append]

theorem squeezeFrom_lexeme (l : Lexeme) {a g : Bool} (h : a = true → l.isWord = true → g = false) (cs : List Char) :
    squeezeFrom a g (l.written ++ cs) = l.written ++ squeezeFrom l.isWord false cs := by
  cases l with
  | number l => exact squeezeFrom_word_first l.chars_ne_nil (fun _ => l.isWordChar_of_mem) (fun ha => h ha rfl) cs
  | name n =>
    exact squeezeFrom_word_first (by simp [Name.chars]) (fun _ => n.isWordChar_of_mem) (fun ha => h ha rfl) cs
  | operator op => cases op <;> exact squeezeFrom_symbol (by decide) (by decide) a g cs
  | subtraction => exact squeezeFrom_symbol (by decide) (by decide) a g cs
  | sign => exact squeezeFrom_symbol (by decide) (by decide) a g cs
  | openParen => exact squeezeFrom_symbol (by decide) (by decide) a g cs
  | closeParen => exact squeezeFrom_symbol (by decide) (by decide) a g cs

/-- All blanks of a text that writes lexemes are dropped. -/
theorem squeezeFrom_writes {a : Bool} {ls : List Lexeme} {cs : List Char} (h : Writes a ls cs) :
    squeezeFrom a false cs = written ls := by
  induction h with
  | done gap blank => simpa [squeezeFrom, written] using squeezeFrom_blank blank _ false []
  | @next a gap l ls cs blank adjacent rest ih =>
    have hg : a = true → l.isWord = true → (false || !gap.isEmpty) = false := by
      intro ha hl
      simp [adjacent ha hl]
    rw [squeezeFrom_blank blank, squeezeFrom_lexeme l hg, ih]
    rfl

/-! ## Minus and plus signs -/

def Lexeme.normal : Lexeme → List Char
  | .subtraction => ['+', '-', '1', '*']
  | .sign => ['-', '1', '*']
  | l => l.written

def normal (ls : List Lexeme) : List Char := ls.flatMap Lexeme.normal

theorem normal_append (ls ms : List Lexeme) : normal (ls ++ ms) = normal ls ++ normal ms := List.flatMap_append

/-- Lexemes turn into their normal text, whatever follows them. The flags say whether an operand
starts before and after them. -/
def Settles (before : Bool) (ls : List Lexeme) (after : Bool) : Prop :=
  ∀ rest, dropPlus before (expandMinus (written ls) ++ rest) = normal ls ++ dropPlus after rest

theorem Settles.nil (b : Bool) : Settles b [] b := fun _ => rfl

theorem Settles.append {b b' b'' : Bool} {ls ms : List Lexeme} (h : Settles b ls b') (h' : Settles b' ms b'') :
    Settles b (ls ++ ms) b'' := by
  intro rest
  have e : expandMinus (written (ls ++ ms)) = expandMinus (written ls) ++ expandMinus (written ms) := by
    rw [written, List.flatMap_append, expandMinus_append]
    rfl
  rw [e, normal_append, List.append_assoc, h, h', List.append_assoc]

theorem dropPlus_word {w : List Char} (hne : w ≠ []) (h : ∀ c ∈ w, isWordChar c = true) (b : Bool)
    (rest : List Char) : dropPlus b (w ++ rest) = w ++ dropPlus false rest := by
  induction w generalizing b with
  | nil => exact absurd rfl hne
  | cons c w ih =>
    have hc := h c (by simp)
    have hplus : (c == '+') = false := beq_eq_false_iff_ne.2 (ne_of_isWordChar hc (by decide))
    simp only [List.cons_append, dropPlus, hplus, Bool.and_false, Bool.false_eq_true, if_false,
      opensOperand_of_isWordChar hc]
    cases w with
    | nil => rfl
    | cons d w => rw [ih (by simp) fun e he => h e (by simp [he])]

theorem expandMinus_word {w : List Char} (h : ∀ c ∈ w, isWordChar c = true) : expandMinus w = w := by
  induction w with
  | nil => rfl
  | cons c w ih =>
    have hc : c ≠ '-' := ne_of_isWordChar (h c (by simp)) (by decide)
    rw [expandMinus_of_ne hc, ih fun d hd => h d (by simp [hd])]

theorem settles_word {l : Lexeme} (hn : l.normal = l.written) (hne : l.written ≠ [])
    (h : ∀ c ∈ l.written, isWordChar c = true) (b : Bool) : Settles b [l] false := by
  intro rest
  have e : written [l] = l.written := by simp [written]
  have e' : normal [l] = l.written := by simp [normal, hn]
  rw [e, e', expandMinus_word h, dropPlus_word hne h]

theorem settles_number (l : Literal) (b : Bool) : Settles b [.number l] false :=
  settles_word (l := .number l) rfl l.chars_ne_nil (fun _ => l.isWordChar_of_mem) b

theorem settles_name (n : Name) (b : Bool) : Settles b [.name n] false :=
  settles_word (l := .name n) rfl (by simp [Lexeme.written, Name.chars]) (fun _ => n.isWordChar_of_mem) b

theorem settles_open (b : Bool) : Settles b [.openParen] true := by
  intro rest
  cases b <;> rfl

theorem settles_close (b : Bool) : Settles b [.closeParen] false := by
  intro rest
  cases b <;> rfl

theorem settles_signs (n : Nat) : Settles true (.replicate n .sign) true := by
  induction n with
  | zero => exact .nil true
  | succ n ih =>
    have hsign : Settles true [.sign] true := fun _ => rfl
    exact hsign.append ih

/-- After a joint another operand may or may not be read, but the joint itself settles. -/
theorem settles_joint {k k' : Shape} (j : Joint k k') : ∃ b, Settles false j.lexemes b := by
  cases j with
  | operator op signs =>
    have hop : Settles false [.operator op] true := by
      intro rest
      cases op <;> rfl
    exact ⟨true, hop.append (settles_signs signs)⟩
  | subtraction signs =>
    have hminus : Settles false [.subtraction] true := fun _ => rfl
    exact ⟨true, hminus.append (settles_signs signs)⟩
  | omitted h => exact ⟨false, .nil false⟩

mutual

theorem settles_primary {k : Shape} : ∀ (p : Primary k) (b : Bool), Settles b p.lexemes false
  | .number l, b => settles_number l b
  | .name n, b => settles_name n b
  | .group c, b => (settles_open b).append ((settles_chain c).append (settles_close false))
  | .call f c, b =>
    (settles_name (.ofFn f) b).append <| (settles_open false).append <| (settles_chain c).append (settles_close false)

theorem settles_row {k : Shape} : ∀ (r : Row k) (b : Bool), Settles b r.lexemes false
  | .last p, b => settles_primary p b
  | .link p j r, b => by
    obtain ⟨b', hj⟩ := settles_joint j
    exact (settles_primary p b).append (hj.append (settles_row r b'))

theorem settles_chain : ∀ c : Chain, Settles true c.lexemes false
  | .signed signs r => (settles_signs signs).append (settles_row r true)

end

/-- The normal text of a chain is put together from those of its lexemes. -/
theorem ofChars_writes {c : Chain} {cs : List Char} (h : Writes false c.lexemes cs) :
    NormalText.ofChars cs = normal c.lexemes := by
  have hs := settles_chain c []
  simp only [List.append_nil, dropPlus] at hs
  rw [ofChars, squeeze, squeezeFrom_writes h, hs]

end Formula
end Reckoner
