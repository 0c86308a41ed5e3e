import Reckoner.Evaluation
import Reckoner.Proofs.Except

/-!
# An evaluation by its stages

An expression that has no postfix list fails before anything is evaluated, and with a postfix list its
evaluation is that of the list.
-/

namespace Reckoner

variable {text : String} {e : ExprError} {ps : List Token}

/-- A postfix list has been read and reordered. -/
theorem postfixOf_eq_ok (h : postfixOf text = .ok ps) : ∃ ts, tokenize text = .ok ts ∧ toPostfix ts = .ok ps :=
  bind_eq_ok h

/-- Either the text has no tokens, or its tokens have no postfix list. -/
theorem postfixOf_eq_error (h : postfixOf text = .error e) :
    tokenize text = .error e ∨ ∃ ts, tokenize text = .ok ts ∧ toPostfix ts = .error e :=
  bind_eq_error h

theorem evaluate_of_postfixOf_error (h : postfixOf text = .error e) (b : Bindings) :
    (evaluate text b).result = .error e ∧ (evaluate text b).bindings = b := by
  unfold evaluate
  rcases postfixOf_eq_error h with hts | ⟨ts, hts, hps⟩
  · simp only [hts, and_self]
  · simp only [hts, hps, and_self]

theorem evaluate_of_postfixOf (h : postfixOf text = .ok ps) (b : Bindings) :
    (evaluate text b).result = (evaluatePostfix ps b).result ∧
    (evaluate text b).bindings = (evaluatePostfix ps b).bindings := by
  obtain ⟨ts, hts, hps⟩ := postfixOf_eq_ok h
  unfold evaluate
  simp only [hts, hps, and_self]

/-- The stages of an evaluation that has an operand. -/
theorem evaluate_eq_ok {b : Bindings} {r : Operand} (h : (evaluate text b).result = .ok (some r)) :
    ∃ ts ps, tokenize text = .ok ts ∧ toPostfix ts = .ok ps ∧ (evaluatePostfix ps b).result = .ok (some r) := by
  cases hps : postfixOf text with
  | error e =>
    rw [(evaluate_of_postfixOf_error hps b).1] at h
    cases h
  | ok ps =>
    obtain ⟨ts, hts, hreordered⟩ := postfixOf_eq_ok hps
    rw [(evaluate_of_postfixOf hps b).1] at h
    exact ⟨ts, ps, hts, hreordered, h⟩

/-- An evaluation sees no more of an expression than its normal text. -/
theorem evaluate_congr {text text' : String} (h : NormalText.ofChars text.toList = NormalText.ofChars text'.toList)
    (b : Bindings) :
    (evaluate text b).result = (evaluate text' b).result ∧ (evaluate text b).bindings = (evaluate text' b).bindings := by
  have hps : postfixOf text = postfixOf text' := by
    unfold postfixOf tokenize tokenizeWith
    rw [h]
  cases hp : postfixOf text with
  | error e =>
    obtain ⟨hresult, hbindings⟩ := evaluate_of_postfixOf_error hp b
    obtain ⟨hresult', hbindings'⟩ := evaluate_of_postfixOf_error (hps ▸ hp) b
    exact ⟨hresult.trans hresult'.symm, hbindings.trans hbindings'.symm⟩
  | ok ps =>
    obtain ⟨hresult, hbindings⟩ := evaluate_of_postfixOf hp b
    obtain ⟨hresult', hbindings'⟩ := evaluate_of_postfixOf (hps ▸ hp) b
    exact ⟨hresult.trans hresult'.symm, hbindings.trans hbindings'.symm⟩

end Reckoner
