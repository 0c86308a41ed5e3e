import Reckoner.Proofs.Infix.Acceptance
import Reckoner.Proofs.Infix.Obstacle
import Reckoner.Proofs.Machine.Halt
import Reckoner.Proofs.Scan.Munch
import Reckoner.Proofs.Scan.WellFormed

/-!
# Errors that cannot occur

What has been read has matching parentheses and tokens of known kinds only, so that a reordering can
stop at nothing but a separator outside all parentheses (`toPostfix_of_nested`). What it puts out are
operands and operators; the machine fails on them only where an operator finds too few operands or
cannot be applied, or where operands are left over (`calculates_evaluatePostfix`).
-/

namespace Reckoner

open Infix

/-! ## Reordering what has been read -/

/-- An obstacle among nested tokens is a separator outside all parentheses. -/
theorem eq_of_obstacle {l us : List Token} {t : Token} {d : Nat} {e : ExprError} (ht : t ≠ .unknown)
    (hd : depthAfter 0 (l ++ t :: us) = some 0) (hl : depthAfter 0 l = some d) (h : obstacle d t = some e) :
    t = .separator ∧ d = 0 ∧ e = .misplacedSeparator := by
  rw [depthAfter_append, hl] at hd
  rcases t with _ | _ | _ | _ | _ | _ <;> rcases d with _ | d <;> cases h
  · cases hd
  · exact ⟨rfl, rfl, rfl⟩
  · exact absurd rfl ht
  · exact absurd rfl ht

/-- Nested tokens have a postfix list, unless a separator stands outside all parentheses. -/
theorem toPostfix_of_nested {ts : List Token} (hd : depthAfter 0 ts = some 0) (hts : .unknown ∉ ts) :
    ((∃ ps, toPostfix ts = .ok ps) ∧ ¬ ∃ l r, ts = l ++ .separator :: r ∧ depthAfter 0 l = some 0) ∨
    (toPostfix ts = .error .misplacedSeparator ∧ ∃ l r, ts = l ++ .separator :: r ∧ depthAfter 0 l = some 0) := by
  rcases clear_or_obstacle 0 ts with h | ⟨l, t, us, d, e, rfl, hclear, hl, he⟩
  · refine Or.inl ⟨toPostfix_of_clear h hd, ?_⟩
    rintro ⟨l, r, e, hl⟩
    cases h l .separator r 0 e hl
  · have ht : t ≠ .unknown := by
      rintro rfl
      simp at hts
    have hstop : toPostfix (l ++ t :: us) = .error e := toPostfix_of_obstacle hclear hl he
    obtain ⟨rfl, rfl, rfl⟩ := eq_of_obstacle ht hd hl he
    exact Or.inr ⟨hstop, l, us, rfl, hl⟩

/-! ## Working off operands and operators -/

namespace ExprError

/-- Can the error come from working off operands and operators? -/
def isCalculation : ExprError → Bool
  | arity .. | tooManyOperands => true
  | e => e.isApplication

theorem isCalculation_of_isApplication {e : ExprError} (h : e.isApplication = true) : e.isCalculation = true := by
  cases e <;> first | rfl | cases h

theorem kind_of_isCalculation {e : ExprError} (h : e.isCalculation = true) :
    e.kind = .arity ∨ e.kind = .evaluation := by
  cases e <;> first | exact Or.inl rfl | exact Or.inr rfl | cases h

end ExprError

namespace Machine

/-- Every step that succeeds leaves an operand on the stack. -/
theorem stack_ne_nil_of_step {m m' : Machine} {t : Token} (h : m.step t = .ok m') : m'.stack ≠ [] := by
  rcases step_eq_ok h with ⟨x, -, rfl⟩ | ⟨op, x, y, s, -, -, ha⟩ | ⟨f, x, s, -, -, ha⟩
  · exact List.cons_ne_nil _ _
  · obtain ⟨z, hz, -⟩ := settle_of_apply ha
    simp [hz]
  · obtain ⟨z, hz, -⟩ := settle_of_apply ha
    simp [hz]

theorem stack_ne_nil_of_steps {m m' : Machine} {ts : List Token} (h : m.steps ts = .ok m')
    (hne : m.stack ≠ [] ∨ ts ≠ []) : m'.stack ≠ [] := by
  induction ts generalizing m with
  | nil =>
    cases h
    exact hne.resolve_right fun hnil => hnil rfl
  | cons t ts ih =>
    rw [steps_cons] at h
    obtain ⟨m₁, ht, h⟩ := bind_eq_ok h
    exact ih h (Or.inl (stack_ne_nil_of_step ht))

/-- An operand or an operator halts a machine with no other error. -/
theorem calculates_step {m : Machine} {t : Token} {h : Halt} (ht : t.isKept = true) (hs : m.step t = .error h) :
    h.error.isCalculation = true := by
  rcases error_of_step hs with ⟨op, -, he⟩ | ⟨op, -, he⟩ | ⟨hother, -⟩
  · rw [he]
    rfl
  · exact ExprError.isCalculation_of_isApplication he
  · rw [ht] at hother
    cases hother

theorem calculates_steps {m : Machine} {ts : List Token} {h : Halt} (hts : ∀ t ∈ ts, t.isKept = true)
    (hs : m.steps ts = .error h) : h.error.isCalculation = true := by
  obtain ⟨k, m', -, t, ht, hfails⟩ := exists_haltsAt hs
  exact calculates_step (hts t (List.mem_of_getElem? ht)) hfails

end Machine

/-- Working off operands and operators fails with no other error. -/
theorem calculates_evaluatePostfix {ps : List Token} (hps : ∀ t ∈ ps, t.isKept = true) (b : Bindings) :
    FailsWith ExprError.isCalculation (evaluatePostfix ps b).result := by
  unfold evaluatePostfix
  split
  · trivial
  rename_i hne
  split
  · rename_i m hm
    have hstack := Machine.stack_ne_nil_of_steps hm (Or.inr (by simpa using hne))
    refine FailsWith.map ?_
    unfold Machine.result
    split
    · trivial
    · rename_i hnil
      exact absurd hnil hstack
    · rfl
  · rename_i h hs
    exact Machine.calculates_steps hps hs

/-! ## From text to operand -/

theorem kind_of_fault {known : List Fn} {cs : List Char} {e : ExprError} (h : Piece.Fault known cs e) :
    e.kind ∈ [.unrecognizedCharacter, .unrecognizedOperator, .malformedNumber, .improperParentheses] := by
  cases h <;> simp [ExprError.kind]

/-- What is read is nested, and of known kinds. -/
theorem toPostfix_of_tokenize {text : String} {ts : List Token} (h : tokenize text = .ok ts) :
    ((∃ ps, toPostfix ts = .ok ps) ∧ ¬ ∃ l r, ts = l ++ .separator :: r ∧ depthAfter 0 l = some 0) ∨
    (toPostfix ts = .error .misplacedSeparator ∧ ∃ l r, ts = l ++ .separator :: r ∧ depthAfter 0 l = some 0) := by
  refine toPostfix_of_nested (nested_of_tokenizeWith h).2 fun hmem => ?_
  exact (whole_of_tokenizeWith h).linked.isWritten .unknown (List.mem_reverse.2 hmem)

theorem error_of_toPostfix {text : String} {ts : List Token} {e : ExprError} (h : tokenize text = .ok ts)
    (he : toPostfix ts = .error e) : e = .misplacedSeparator := by
  rcases toPostfix_of_tokenize h with ⟨⟨ps, hps⟩, -⟩ | ⟨herr, -⟩
  · rw [hps] at he
    cases he
  · rw [herr] at he
    cases he
    rfl

theorem isKept_of_toPostfix {ts ps : List Token} (h : toPostfix ts = .ok ps) : ∀ t ∈ ps, t.isKept = true :=
  fun _ ht => (List.mem_filter.1 ((perm_of_toPostfix h).subset ht)).2

theorem ne_of_isCalculation {e : ExprError} (h : e.isCalculation = true) : e ≠ .noOperands ∧ ∀ t, e ≠ .strayToken t := by
  refine ⟨?_, fun t => ?_⟩ <;>
  · rintro rfl
    cases h

/-- **Safety from text to operand.** The tokens of an expression fail to be reordered exactly if a
separator stands outside all parentheses, and with that error alone. What is put out are operands and
operators, on which the machine meets no stray token and does not end with an empty stack. Every
error of an evaluation is of the kinds of the stage that it comes from. -/
theorem errors_of_evaluate (text : String) :
    (∀ ts, tokenize text = .ok ts →
      ((∃ e, toPostfix ts = .error e) ↔ ∃ l r, ts = l ++ .separator :: r ∧ depthAfter 0 l = some 0) ∧
      (∀ e, toPostfix ts = .error e → e = .misplacedSeparator) ∧
      ∀ ps, toPostfix ts = .ok ps → (∀ t ∈ ps, t.isKept = true) ∧
        ∀ b e, (evaluatePostfix ps b).result = .error e → e ≠ .noOperands ∧ ∀ t, e ≠ .strayToken t) ∧
    ∀ b e, (evaluate text b).result = .error e →
      (tokenize text = .error e ∧
        e.kind ∈ [.unrecognizedCharacter, .unrecognizedOperator, .malformedNumber, .improperParentheses]) ∨
      (∃ ts, tokenize text = .ok ts ∧ toPostfix ts = .error e ∧ e.kind = .conversion) ∨
      ∃ ts ps, tokenize text = .ok ts ∧ toPostfix ts = .ok ps ∧ (e.kind = .arity ∨ e.kind = .evaluation) := by
  refine ⟨fun ts hts => ⟨?_, fun e => error_of_toPostfix hts, fun ps hps => ⟨isKept_of_toPostfix hps, fun b e he => ?_⟩⟩,
    fun b e he => ?_⟩
  · rcases toPostfix_of_tokenize hts with ⟨⟨ps, hps⟩, hnone⟩ | ⟨herr, hsome⟩
    · exact iff_of_false (fun ⟨e, he⟩ => by rw [hps] at he; cases he) hnone
    · exact iff_of_true ⟨_, herr⟩ hsome
  · have hc := calculates_evaluatePostfix (isKept_of_toPostfix hps) b
    rw [he] at hc
    exact ne_of_isCalculation hc
  · unfold evaluate at he
    split at he
    · rename_i e' htext
      cases he
      exact Or.inl ⟨htext, kind_of_fault (fault_of_tokenizeWith htext)⟩
    rename_i ts hts
    split at he
    · rename_i e' hps
      cases he
      obtain rfl := error_of_toPostfix hts hps
      exact Or.inr (Or.inl ⟨ts, hts, hps, rfl⟩)
    · rename_i ps hps
      have he : (evaluatePostfix ps b).result = .error e := he
      have hc := calculates_evaluatePostfix (isKept_of_toPostfix hps) b
      rw [he] at hc
      exact Or.inr (Or.inr ⟨ts, ps, hts, hps, ExprError.kind_of_isCalculation hc⟩)

end Reckoner
