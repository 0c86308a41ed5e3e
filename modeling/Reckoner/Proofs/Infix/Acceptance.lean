import Reckoner.Proofs.Evaluation
import Reckoner.Proofs.Infix.Conservation
import Reckoner.Proofs.Scan.Nesting
import Reckoner.Proofs.Tree.Run

/-!
# Which expressions have a value

A value only needs the right number of operands at every operator, so an expression that is no
sentence may have one: in `1 2+` the operator that is missing between the operands stands behind them.
Reordering keeps operands and operators, and a tree has one operand more than binary operators. Hence
the gaps of an expression with a value come in pairs, and it is a sentence when it has none.
-/

namespace Reckoner

open Infix

/-- A tree has one operand more than binary operators. -/
theorem Tree.countP_postorder (t : Tree) :
    t.postorder.countP Token.isOperand = t.postorder.countP Token.isBinary + 1 := by
  induction t with
  | leaf x => rfl
  | binary op l r ihl ihr =>
    simp only [postorder, List.countP_append, ihl, ihr, List.countP_singleton, Token.isOperand, Token.isBinary]
    simp only [Bool.false_eq_true, if_false, if_true]
    omega
  | function f t ih =>
    simp only [postorder, List.countP_append, ih, List.countP_singleton, Token.isOperand, Token.isBinary]
    simp

/-- Where there is a value, as many operands are missing as operators. -/
theorem gaps_eq_of_value {ts ps : List Token} {b : Bindings} {r : Operand} (hp : toPostfix ts = .ok ps)
    (hr : (evaluatePostfix ps b).result = .ok (some r)) : missingOperands false ts = missingOperators false ts := by
  obtain ⟨t, rfl⟩ := exists_tree_of_evaluatePostfix hr
  have hx := countP_of_toPostfix hp Token.isOperand fun t h => by
    cases t <;> simp_all [Token.isOperand, Token.isKept]
  have hop := countP_of_toPostfix hp Token.isBinary fun t h => by
    cases t <;> simp_all [Token.isBinary, Token.isKept]
  have ht := t.countP_postorder
  have hb := gaps_balance false ts
  rw [hx, hop] at ht
  simp only [Bool.false_eq_true, if_false] at hb
  omega

/-- Without gaps every binary operator has an operand on both sides. -/
theorem between_operands {after : Bool} {l r : List Token} {op : BinaryOp}
    (h : Gapless after (l ++ .binary op :: r)) :
    ((l = [] ∧ after = true) ∨ ∃ x, l.getLast? = some x ∧ x.endsOperand = true) ∧
    ∃ y, r.head? = some y ∧ y.startsOperand = true := by
  induction l generalizing after with
  | nil =>
    obtain ⟨⟨hafter, -, -⟩, hr⟩ := gapless_cons.1 h
    refine ⟨Or.inl ⟨rfl, by simpa [Token.startsOperand] using hafter⟩, ?_⟩
    cases r with
    | nil => exact absurd hr gapless_false_nil
    | cons y r => exact ⟨y, rfl, by simpa [Token.endsOperand] using (gapless_cons.1 hr).1.1⟩
  | cons x l ih =>
    obtain ⟨hl, hr⟩ := ih (gapless_cons.1 h).2
    refine ⟨Or.inr ?_, hr⟩
    rcases hl with ⟨rfl, hx⟩ | ⟨z, hz, hz'⟩
    · exact ⟨x, rfl, hx⟩
    · exact ⟨z, by simp [List.getLast?_cons, hz], hz'⟩

/-- **Gaps come in pairs.** An expression with a value has as many missing operands as missing
operators, and is a sentence exactly if no operator is missing; then every binary operator stands
between two operands. -/
theorem gaps_of_value {text : String} {b : Bindings} {r : Operand} (h : (evaluate text b).result = .ok (some r)) :
    ∃ ts, tokenize text = .ok ts ∧
      missingOperands false ts = missingOperators false ts ∧
      (IsSentence ts ↔ missingOperators false ts = 0) ∧
      (missingOperators false ts = 0 → ∀ (l : List Token) (op : BinaryOp) (r : List Token),
        ts = l ++ .binary op :: r →
          (∃ x, l.getLast? = some x ∧ x.endsOperand = true) ∧ ∃ y, r.head? = some y ∧ y.startsOperand = true) := by
  obtain ⟨ts, ps, hts, hps, hr⟩ := evaluate_eq_ok h
  have heq := gaps_eq_of_value hps hr
  obtain ⟨hcalled, hdepth⟩ := nested_of_tokenizeWith hts
  have hgap : Gapless false ts ↔ missingOperators false ts = 0 := by unfold Gapless; omega
  have hsentence : IsSentence ts ↔ Gapless false ts := by
    rw [isSentence_iff]
    exact ⟨fun h => h.2.2, fun h => ⟨hcalled, hdepth, h⟩⟩
  refine ⟨ts, hts, heq, hsentence.trans hgap, ?_⟩
  rintro h0 l op r rfl
  obtain ⟨hl, hr⟩ := between_operands (hgap.2 h0)
  exact ⟨hl.resolve_left fun h => Bool.noConfusion h.2, hr⟩

/-- A missing operator and a misplaced one in parentheses. -/
theorem gaps_of_value_nested :
    (evaluate "2(3 4+)" .constants).result = .ok (some (.real (.ofBits 0x402c000000000000))) ∧
    ∃ ts, tokenize "2(3 4+)" = .ok ts ∧
      missingOperands false ts = missingOperators false ts ∧
      (IsSentence ts ↔ missingOperators false ts = 0) ∧
      (missingOperators false ts = 0 → ∀ (l : List Token) (op : BinaryOp) (r : List Token),
        ts = l ++ .binary op :: r →
          (∃ x, l.getLast? = some x ∧ x.endsOperand = true) ∧ ∃ y, r.head? = some y ∧ y.startsOperand = true) :=
  ⟨rfl, gaps_of_value (b := .constants) (r := .real (.ofBits 0x402c000000000000)) rfl⟩

/-- Lists that are no sentences may have a value: two operands before their operator, and a function
of two operands before an operator. -/
theorem value_without_sentence :
    ((evaluate "1 2+" .constants).result = .ok (some (.real (.ofBits 0x4008000000000000))) ∧
      ¬ ∃ ts, tokenize "1 2+" = .ok ts ∧ IsSentence ts) ∧
    ((evaluate "abs(3,4)+" .constants).result = .ok (some (.real (.ofBits 0x401c000000000000))) ∧
      ¬ ∃ ts, tokenize "abs(3,4)+" = .ok ts ∧ IsSentence ts) := by
  -- a sentence has no gaps, but an operator is missing in both lists
  have no_sentence : ∀ (text : String) (ts : List Token), tokenize text = .ok ts →
      missingOperators false ts ≠ 0 → ¬ ∃ us, tokenize text = .ok us ∧ IsSentence us := by
    rintro text ts hts hne ⟨us, hus, hs⟩
    rw [hts] at hus
    cases hus
    exact hne (isSentence_iff.1 hs).2.2.2
  let one : Token := .real (.ofBits 0x3ff0000000000000)
  let two : Token := .real (.ofBits 0x4000000000000000)
  let three : Token := .real (.ofBits 0x4008000000000000)
  let four : Token := .real (.ofBits 0x4010000000000000)
  refine ⟨⟨rfl, no_sentence _ [one, two, .binary .add] rfl (by decide)⟩, rfl, no_sentence _
    [.function .abs, .openParen, three, .separator, four, .closeParen, .binary .add] rfl (by decide)⟩

end Reckoner
