import Reckoner.Proofs.Scan.Step

/-!
# Pieces of text

Text is cut from left to right into names and numbers, each as long as it can be, and single
characters. `tokensOf` gives the tokens of the pieces: a piece sees no more than the one after it,
which makes a name a function and puts in the product sign that has been left out.
-/

namespace Reckoner

open Formula (beginsName)
open Scan (isNameChar isNumberChar)

/-- A piece of text. A stray character is one that no token begins with. -/
inductive Piece where
  | word (cs : List Char)
  | number (cs : List Char)
  | operator (op : BinaryOp)
  | openParen
  | closeParen
  | separator
  | space
  | stray (c : Char)
  deriving DecidableEq

namespace Piece

def chars : Piece → List Char
  | word cs | number cs => cs
  | operator op => [op.symbol]
  | openParen => ['(']
  | closeParen => [')']
  | separator => [',']
  | space => [' ']
  | stray c => [c]

/-- The piece of a character that is no part of a name or a number. -/
def ofChar (c : Char) : Piece :=
  match BinaryOp.ofSymbol? c with
  | some op => operator op
  | none =>
    if c = '(' then openParen
    else if c = ')' then closeParen
    else if c = ',' then separator
    else if c = ' ' then space
    else stray c

theorem chars_ofChar (c : Char) : (ofChar c).chars = [c] := by
  unfold ofChar
  split
  · rename_i op h
    rw [chars, BinaryOp.ofSymbol?_eq_some_iff.1 h]
  · repeat' split
    all_goals simp_all [chars]

theorem ofChar_ne_word (c : Char) (w : List Char) : ofChar c ≠ word w := by
  unfold ofChar
  repeat' split
  all_goals exact nofun

theorem ofChar_ne_number (c : Char) (w : List Char) : ofChar c ≠ number w := by
  unfold ofChar
  repeat' split
  all_goals exact nofun

def cut : List Char → List Piece
  | [] => []
  | c :: cs =>
    if beginsName c then word (c :: cs.takeWhile isNameChar) :: cut (cs.dropWhile isNameChar)
    else if isNumberChar c then number (c :: cs.takeWhile isNumberChar) :: cut (cs.dropWhile isNumberChar)
    else ofChar c :: cut cs
termination_by cs => cs.length
decreasing_by
  · exact Nat.lt_succ_of_le (List.dropWhile_sublist _).length_le
  · exact Nat.lt_succ_of_le (List.dropWhile_sublist _).length_le
  · exact Nat.lt_succ_self _

theorem cut_cons (c : Char) (cs : List Char) :
    cut (c :: cs) =
      if beginsName c then word (c :: cs.takeWhile isNameChar) :: cut (cs.dropWhile isNameChar)
      else if isNumberChar c then number (c :: cs.takeWhile isNumberChar) :: cut (cs.dropWhile isNumberChar)
      else ofChar c :: cut cs := by
  rw [cut]

/-- Nothing is lost in cutting. -/
theorem chars_cut (cs : List Char) : (cut cs).flatMap chars = cs := by
  fun_induction cut cs with
  | case1 => rfl
  | case2 c cs h ih => simp [chars, ih, List.takeWhile_append_dropWhile]
  | case3 c cs h h' ih => simp [chars, ih, List.takeWhile_append_dropWhile]
  | case4 c cs h h' ih => simp [chars_ofChar, ih]

/-! ## Where text is cut -/

/-- Does the text begin with no character of a class? -/
def EndsBefore (p : Char → Bool) (cs : List Char) : Prop := ∀ c ∈ cs.head?, p c = false

theorem endsBefore_dropWhile (p : Char → Bool) (cs : List Char) : EndsBefore p (cs.dropWhile p) := by
  intro c hc
  have h := List.head?_dropWhile_not p cs
  rw [hc] at h
  simpa using h

theorem takeWhile_append_of_endsBefore {p : Char → Bool} {w cs : List Char} (hw : ∀ c ∈ w, p c = true)
    (hcs : EndsBefore p cs) : (w ++ cs).takeWhile p = w := by
  rw [List.takeWhile_append_of_pos hw]
  cases cs with
  | nil => simp
  | cons c cs => simp [hcs c rfl]

theorem dropWhile_append_of_endsBefore {p : Char → Bool} {w cs : List Char} (hw : ∀ c ∈ w, p c = true)
    (hcs : EndsBefore p cs) : (w ++ cs).dropWhile p = cs := by
  rw [List.dropWhile_append_of_pos hw]
  cases cs with
  | nil => rfl
  | cons c cs => simp [hcs c rfl]

theorem cut_word {c : Char} {w cs : List Char} (hc : beginsName c = true) (hw : ∀ e ∈ w, isNameChar e = true)
    (hcs : EndsBefore isNameChar cs) : cut (c :: (w ++ cs)) = word (c :: w) :: cut cs := by
  rw [cut_cons, if_pos hc, takeWhile_append_of_endsBefore hw hcs, dropWhile_append_of_endsBefore hw hcs]

theorem cut_number {c : Char} {w cs : List Char} (hc : isNumberChar c = true) (hw : ∀ e ∈ w, isNumberChar e = true)
    (hcs : EndsBefore isNumberChar cs) : cut (c :: (w ++ cs)) = number (c :: w) :: cut cs := by
  have hb : ¬ beginsName c = true := fun hb => by simp [Scan.isNumberChar_of_beginsName hb] at hc
  rw [cut_cons, if_neg hb, if_pos hc, takeWhile_append_of_endsBefore hw hcs, dropWhile_append_of_endsBefore hw hcs]

theorem cut_ofChar {c : Char} (hb : beginsName c = false) (hc : isNumberChar c = false) (cs : List Char) :
    cut (c :: cs) = ofChar c :: cut cs := by
  simp [cut_cons, hb, hc]

/-! ## The tokens of pieces -/

def isFactor : Piece → Bool
  | word _ | openParen => true
  | _ => false

/-- The product sign that is left out before a piece, if one is. -/
def product (leftOut : Bool) : List Token := if leftOut then [.binary .mul] else []

/-- The tokens of a piece before the next one. A piece that stands for no token has none. -/
def tokens (known : List Fn) (next : Option Piece) : Piece → List Token
  | word cs =>
    if next = some openParen then (Fn.ofName? known (.ofList cs)).toList.map .function else [.var (.ofList cs)]
  | number cs => (Decimal.readLiteral cs).toList.map .real ++ product (next.any isFactor)
  | operator op => [.binary op]
  | openParen => [.openParen]
  | closeParen => .closeParen :: product (next = some openParen)
  | separator => [.separator]
  | space | stray _ => []

def tokensOf (known : List Fn) : List Piece → List Token
  | [] => []
  | p :: ps => p.tokens known ps.head? ++ tokensOf known ps

/-- A product sign may have been put in, but every other operator is written. -/
theorem operator_mem_of_mem_tokensOf {known : List Fn} {ps : List Piece} {op : BinaryOp}
    (h : .binary op ∈ tokensOf known ps) (hop : op ≠ .mul) : operator op ∈ ps := by
  have hproduct : ∀ b, .binary op ∉ product b := by
    intro b
    cases b <;> simp [product, hop]
  induction ps with
  | nil => cases h
  | cons p ps ih =>
    rcases List.mem_append.1 h with hp | hps
    · cases p with
      | operator op' =>
        obtain rfl : op = op' := by simpa [tokens] using hp
        exact List.mem_cons_self ..
      | word cs =>
        simp only [tokens] at hp
        split at hp <;> simp at hp
      | number cs => simp [tokens, hproduct] at hp
      | closeParen => simp [tokens, hproduct] at hp
      | _ => simp [tokens] at hp
    · exact List.mem_cons_of_mem p (ih hps)

end Piece
end Reckoner
