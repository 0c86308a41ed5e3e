import Reckoner.Proofs.NormalText.Resumption
import Reckoner.Proofs.Scan.Munch

/-!
# Texts joined by a symbol

Between two texts an operator or a separator parts their normal texts. The pieces of the two sides have their tokens
and their faults as before, so that texts that can be read can be read when they are joined (`tokenizeWith_append`).
-/

namespace Reckoner

/-! ## Pieces -/

namespace Piece

variable {known : List Fn} {p q : Piece}

/-- Does the piece part what stands before it from what follows? -/
def parts : Piece → Bool
  | operator _ | separator => true
  | _ => false

theorem tokens_of_parts (hq : q.parts = true) (p : Piece) : p.tokens known (some q) = p.tokens known none := by
  cases q <;> first | (cases p <;> rfl) | cases hq

theorem tokens_parts (hq : q.parts = true) (next : Option Piece) : q.tokens known next = q.tokens known none := by
  cases q <;> first | rfl | cases hq

/-- Pieces before one that no piece looks at have their tokens as at the end. -/
theorem tokensOf_append (hq : ∀ p : Piece, p.tokens known (some q) = p.tokens known none) (ps qs : List Piece) :
    tokensOf known (ps ++ q :: qs) = tokensOf known ps ++ tokensOf known (q :: qs) := by
  induction ps with
  | nil => rfl
  | cons p ps ih =>
    have hp : p.tokens known (ps ++ q :: qs).head? = p.tokens known ps.head? := by
      cases ps with
      | nil => exact hq p
      | cons => rfl
    show p.tokens known (ps ++ q :: qs).head? ++ tokensOf known (ps ++ q :: qs) = _
    rw [hp, ih, ← List.append_assoc]
    rfl

/-- A fault after a piece that parts shows without it. -/
theorem faulty_after_parts {qs : List Piece} {d : Nat} {e : ExprError} (hq : q.parts = true)
    (h : Faulty known d (some q) qs e) : Faulty known d none qs e := by
  cases h with
  | later hd h => exact .later hd h
  | here h =>
    refine .here ?_
    generalize qs.head? = next at h
    cases h with
    | number | function | emptyPair => cases hq
    | stray => exact .stray
    | closedEarly => exact .closedEarly
    | leftOpen => exact .leftOpen

/-- A fault of pieces on the two sides of one that parts is a fault of one of the sides. -/
theorem faulty_of_append {ps qs : List Piece} {d : Nat} {p : Option Piece} {e : ExprError} (hq : q.parts = true)
    (h : Faulty known d p (ps ++ q :: qs) e) : (∃ e', Faulty known d p ps e') ∨ Faulty known 0 none qs e := by
  induction ps generalizing d p with
  | nil =>
    cases d with
    | succ d => exact Or.inl ⟨_, .here .leftOpen⟩
    | zero =>
      cases h with
      | later hd h =>
        have hzero : q.depthAfter 0 = some 0 := by cases q <;> first | rfl | cases hq
        cases hzero.symm.trans hd
        exact Or.inr (faulty_after_parts hq h)
      | here h =>
        generalize hn : (([] : List Piece) ++ q :: qs).head? = next at h
        cases h with
        | number unread => exact Or.inl ⟨_, .here (.number unread)⟩
        | function | stray | closedEarly | emptyPair => cases hn; cases hq
  | cons r ps ih =>
    cases h with
    | here h => exact Or.inl ⟨e, .here h⟩
    | later hd h =>
      rcases ih h with ⟨e', he'⟩ | hright
      · exact Or.inl ⟨e', .later hd he'⟩
      · exact Or.inr hright

theorem eq_of_parts_ofChar {c : Char} (hc : (ofChar c).parts = true) : (∃ op : BinaryOp, c = op.symbol) ∨ c = ',' := by
  have hchars := chars_ofChar c
  generalize ofChar c = q at hc hchars
  cases q with
  | operator op => exact Or.inl ⟨op, by simpa [chars] using hchars.symm⟩
  | separator => exact Or.inr (by simpa [chars] using hchars.symm)
  | _ => cases hc

end Piece

/-! ## Tokens -/

open Piece

variable {known : List Fn} {a b text : String} {as bs : List Token} {c : Char}

/-- Texts whose normal texts a symbol joins. -/
theorem tokenizeWith_join (ha : tokenizeWith known a = .ok as) (hb : tokenizeWith known b = .ok bs)
    (hc : (ofChar c).parts = true)
    (htext : NormalText.ofChars text.toList = NormalText.ofChars a.toList ++ c :: NormalText.ofChars b.toList) :
    tokenizeWith known text = .ok (as ++ ((ofChar c).tokens known none ++ bs)) := by
  obtain ⟨rfl, hcleanA⟩ := tokens_of_tokenizeWith ha
  obtain ⟨rfl, hcleanB⟩ := tokens_of_tokenizeWith hb
  have hcut : Scan.isNameChar c = false ∧ Scan.isNumberChar c = false := by
    rcases eq_of_parts_ofChar hc with ⟨op, rfl⟩ | rfl
    · cases op <;> decide
    · decide
  have hr := reads_ofChars known text
  rw [htext, cut_append hcut.1 hcut.2] at hr
  generalize tokenizeWith known text = r at hr
  cases hr with
  | ok clean =>
    have htokens := @tokensOf_append known _ (tokens_of_parts hc) (cut (NormalText.ofChars a.toList))
      (cut (NormalText.ofChars b.toList))
    rw [tokensOf, tokens_parts hc] at htokens
    exact congrArg Except.ok htokens
  | error fault =>
    rcases faulty_of_append hc fault with ⟨e, he⟩ | he
    · exact absurd he (hcleanA e)
    · exact absurd he (hcleanB _)

/-- **Reading goes through symbols.** Two texts that can be read can be read with a product, a quotient, a power,
an assignment or a separator between them: the tokens are those of both with that of the symbol between them. -/
theorem tokenizeWith_append (ha : tokenizeWith known a = .ok as) (hb : tokenizeWith known b = .ok bs)
    (hc : (ofChar c).parts = true) (hplus : c ≠ '+') (htext : text.toList = a.toList ++ c :: b.toList) :
    tokenizeWith known text = .ok (as ++ ((ofChar c).tokens known none ++ bs)) := by
  have hopens : NormalText.opensOperand c = true := by
    rcases eq_of_parts_ofChar hc with ⟨op, rfl⟩ | rfl
    · cases op <;> rfl
    · rfl
  refine tokenizeWith_join ha hb hc ?_
  rw [htext, NormalText.ofChars_append, NormalText.resume_symbol hopens hplus]

end Reckoner
