import Reckoner.Proofs.Evaluation
import Reckoner.Proofs.Safety

/-!
# What a failing evaluation leaves behind

An expression that cannot be read or reordered leaves the bindings as they were. Otherwise the machine
fails at one token of the postfix list, or at its end with operands left over, and what has been
assigned until then stays assigned.
-/

namespace Reckoner

open Machine (HaltsAt)

variable {text : String} {b : Bindings} {ps : List Token} {e : ExprError}

/-! ## The stage of an error -/

/-- The kinds of the errors of reading and reordering. -/
theorem kind_of_postfixOf (h : postfixOf text = .error e) :
    e.kind ∈ [.unrecognizedCharacter, .unrecognizedOperator, .malformedNumber, .improperParentheses, .conversion] := by
  rcases postfixOf_eq_error h with hts | ⟨ts, hts, hps⟩
  · have hkind := kind_of_fault (fault_of_tokenizeWith hts)
    exact List.mem_append_left [.conversion] hkind
  · obtain rfl := error_of_toPostfix hts hps
    decide

/-- The kinds of the errors of working off a list. -/
theorem kind_of_evaluatePostfix (hps : postfixOf text = .ok ps) (he : (evaluatePostfix ps b).result = .error e) :
    e.kind ∈ [.arity, .evaluation] := by
  obtain ⟨ts, -, hreordered⟩ := postfixOf_eq_ok hps
  have hc := calculates_evaluatePostfix (isKept_of_toPostfix hreordered) b
  rw [he] at hc
  rcases ExprError.kind_of_isCalculation hc with hkind | hkind <;> simp [hkind]

/-- The two stages have no kind in common. -/
theorem kinds_apart {kind : ErrorKind}
    (h : kind ∈ [.unrecognizedCharacter, .unrecognizedOperator, .malformedNumber, .improperParentheses, .conversion]) :
    kind ∉ [.arity, .evaluation] := by
  cases kind <;> simp at h ⊢

/-- No token fails with the error of the end of a list. -/
theorem ne_tooManyOperands_of_haltsAt {m₀ m : Machine} {k : Nat} {h : Halt} (hk : HaltsAt m₀ ps k m h) :
    h.error ≠ .tooManyOperands := by
  intro e
  obtain ⟨t, -, hs⟩ := hk.fails
  rcases Machine.error_of_step hs with ⟨op, -, he⟩ | ⟨op, -, he⟩ | ⟨-, he⟩ <;>
  · rw [e] at he
    cases he

/-- Working off a list fails at one of its tokens, or at its end with operands left over. -/
theorem error_of_evaluatePostfix (he : (evaluatePostfix ps b).result = .error e) :
    (∃ k m h, HaltsAt (.start b) ps k m h ∧ h.error = e) ∨
    (e = .tooManyOperands ∧ ∃ m, (Machine.start b).steps ps = .ok m ∧ (evaluatePostfix ps b).bindings = m.bindings) := by
  have hb := (Machine.evaluatePostfix_eq_last ps b).1
  unfold evaluatePostfix at he
  split at he
  · cases he
  rename_i hne
  split at he
  · rename_i m hm
    have hstack := Machine.stack_ne_nil_of_steps hm (Or.inr (by simpa using hne))
    rw [hm] at hb
    refine Or.inr ⟨?_, m, hm, hb⟩
    rcases hs : m.stack with _ | ⟨x, _ | ⟨y, s⟩⟩
    · exact absurd hs hstack
    · simp only [Machine.result, hs, Except.map] at he
      cases he
    · simp only [Machine.result, hs, Except.map] at he
      cases he
      rfl
  · rename_i h hs
    obtain ⟨k, m, hk⟩ := Machine.exists_haltsAt hs
    cases he
    exact Or.inl ⟨k, m, h, hk, rfl⟩

/-! ## The bindings after an error -/

/-- What cannot be read or reordered is not evaluated. -/
theorem bindings_of_unread (he : (evaluate text b).result = .error e)
    (hkind : e.kind ∈
      [.unrecognizedCharacter, .unrecognizedOperator, .malformedNumber, .improperParentheses, .conversion]) :
    (evaluate text b).bindings = b := by
  cases hps : postfixOf text with
  | error e' => exact (evaluate_of_postfixOf_error hps b).2
  | ok ps =>
    rw [(evaluate_of_postfixOf hps b).1] at he
    exact absurd (kind_of_evaluatePostfix hps he) (kinds_apart hkind)

/-- Any other error comes from the postfix list. -/
theorem exists_postfixOf (he : (evaluate text b).result = .error e) (hkind : e.kind ∈ [.arity, .evaluation]) :
    ∃ ps, postfixOf text = .ok ps ∧ (evaluatePostfix ps b).result = .error e := by
  cases hps : postfixOf text with
  | error e' =>
    rw [(evaluate_of_postfixOf_error hps b).1] at he
    cases he
    exact absurd hkind (kinds_apart (kind_of_postfixOf hps))
  | ok ps =>
    rw [(evaluate_of_postfixOf hps b).1] at he
    exact ⟨ps, rfl, he⟩

theorem evaluate_of_haltsAt {m : Machine} {k : Nat} {h : Halt} (hps : postfixOf text = .ok ps)
    (hk : HaltsAt (.start b) ps k m h) :
    (evaluate text b).result = .error h.error ∧ (evaluate text b).bindings = m.bindings := by
  rw [(evaluate_of_postfixOf hps b).1, (evaluate_of_postfixOf hps b).2]
  exact hk.evaluatePostfix_eq

/-- Operands are left over only where the whole list has been worked off. -/
theorem steps_of_tooManyOperands (he : (evaluate text b).result = .error .tooManyOperands) :
    ∃ ps m, postfixOf text = .ok ps ∧ (Machine.start b).steps ps = .ok m ∧ (evaluate text b).bindings = m.bindings := by
  obtain ⟨ps, hps, he⟩ := exists_postfixOf he (by simp [ExprError.kind])
  rcases error_of_evaluatePostfix he with ⟨k, m, h, hk, hmany⟩ | ⟨-, m, hm, hb⟩
  · exact absurd hmany (ne_tooManyOperands_of_haltsAt hk)
  · exact ⟨ps, m, hps, hm, (evaluate_of_postfixOf hps b).2.trans hb⟩

/-- **What a failure leaves.** An expression that cannot be read or reordered changes no bindings. Any
other error comes from one token of the postfix list, or is that of operands left over. An error at
place `k` leaves the bindings of the `k` tokens before it, to which the failing token adds nothing, and
so does every list with the same `k + 1` tokens in front. Operands left over leave the bindings of the
whole list. -/
theorem bindings_of_failure (text : String) (b : Bindings) :
    (∀ e, (evaluate text b).result = .error e →
      e.kind ∈ [.unrecognizedCharacter, .unrecognizedOperator, .malformedNumber, .improperParentheses, .conversion] →
      (evaluate text b).bindings = b) ∧
    (∀ e, (evaluate text b).result = .error e → e.kind ∈ [.arity, .evaluation] →
      ∃ ps, postfixOf text = .ok ps ∧
        ((∃ k m h, HaltsAt (.start b) ps k m h ∧ h.error = e) ∨ e = .tooManyOperands)) ∧
    (∀ ps k m h, postfixOf text = .ok ps → HaltsAt (.start b) ps k m h →
      (evaluate text b).result = .error h.error ∧ h.error ≠ .tooManyOperands ∧
      (evaluate text b).bindings = m.bindings ∧ h.machine.bindings = m.bindings ∧
      (evaluatePostfix (ps.take k) b).bindings = m.bindings ∧
      ∀ us, us.take (k + 1) = ps.take (k + 1) →
        (evaluatePostfix us b).result = .error h.error ∧ (evaluatePostfix us b).bindings = m.bindings) ∧
    ((evaluate text b).result = .error .tooManyOperands →
      ∃ ps m, postfixOf text = .ok ps ∧ (Machine.start b).steps ps = .ok m ∧ (evaluate text b).bindings = m.bindings) := by
  refine ⟨fun e => bindings_of_unread, fun e he hkind => ?_, fun ps k m h hps hk => ?_, steps_of_tooManyOperands⟩
  · obtain ⟨ps, hps, he⟩ := exists_postfixOf he hkind
    refine ⟨ps, hps, ?_⟩
    rcases error_of_evaluatePostfix he with hk | ⟨hmany, -⟩
    · exact Or.inl hk
    · exact Or.inr hmany
  · obtain ⟨hresult, hbindings⟩ := evaluate_of_haltsAt hps hk
    obtain ⟨t, -, hfails⟩ := hk.fails
    refine ⟨hresult, ne_tooManyOperands_of_haltsAt hk, hbindings, Machine.bindings_of_step_error hfails,
      hk.bindings_take, ?_⟩
    intro us hus
    exact (hk.congr hus).evaluatePostfix_eq

end Reckoner
