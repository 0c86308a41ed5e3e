import Reckoner.Exchange
import Reckoner.Proofs.Evaluation
import Reckoner.Proofs.NormalText
import Reckoner.Proofs.Tree.Run

/-!
# Calculating and evaluating

Every operator gives a number, so an evaluation gives a name only where the postfix list is this name
alone (`postfixOf_eq_of_var`). This is the one place where `calculate`, which reads the name, can fail
after an evaluation that has not.
-/

namespace Reckoner

/-! ## A name as a result -/

theorem Ending.andThen_eq_ok {o : Ending} {k : Operand → Bindings → Ending} {x : Operand}
    (h : (o.andThen k).1 = .ok x) : ∃ y b, (k y b).1 = .ok x := by
  obtain ⟨r, b⟩ := o
  cases r with
  | error e => cases h
  | ok y => exact ⟨y, b, h⟩

theorem Application.real_of_settle {a : Application} {b : Bindings} {x : Operand} (h : (a.settle b).1 = .ok x) :
    ∃ v, x = .real v := by
  unfold settle at h
  split at h
  · cases h
    exact ⟨_, rfl⟩
  · cases h

/-- Only a leaf evaluates to a name. -/
theorem Tree.eq_leaf_of_eval {t : Tree} {b : Bindings} {name : String} (h : (t.eval b).1 = .ok (.var name)) :
    t = .leaf (.var name) := by
  cases t with
  | leaf x =>
    simp only [eval, Except.ok.injEq] at h
    rw [h]
  | binary op l r =>
    obtain ⟨x, b₁, h⟩ := Ending.andThen_eq_ok h
    obtain ⟨y, b₂, h⟩ := Ending.andThen_eq_ok h
    obtain ⟨v, hv⟩ := Application.real_of_settle h
    cases hv
  | function f t =>
    obtain ⟨x, b₁, h⟩ := Ending.andThen_eq_ok h
    obtain ⟨v, hv⟩ := Application.real_of_settle h
    cases hv

theorem eq_of_evaluatePostfix_var {ps : List Token} {b : Bindings} {name : String}
    (h : (evaluatePostfix ps b).result = .ok (some (.var name))) : ps = [.var name] := by
  obtain ⟨t, rfl⟩ := exists_tree_of_evaluatePostfix h
  rw [(evaluatePostfix_postorder t b).1] at h
  obtain ⟨x, hx, hname⟩ := map_eq_ok h
  cases hname
  rw [Tree.eq_leaf_of_eval hx]
  rfl

theorem postfixOf_eq_of_var {text : String} {b : Bindings} {name : String}
    (h : (evaluate text b).result = .ok (some (.var name))) : postfixOf text = .ok [.var name] := by
  obtain ⟨ts, ps, hts, hps, hresult⟩ := evaluate_eq_ok h
  obtain rfl := eq_of_evaluatePostfix_var hresult
  exact bind_ok hts hps

/-- A name alone is given back, and nothing is bound. -/
theorem evaluate_of_var {text : String} {name : String} (h : postfixOf text = .ok [.var name]) (b : Bindings) :
    (evaluate text b).result = .ok (some (.var name)) ∧ (evaluate text b).bindings = b :=
  evaluate_of_postfixOf h b

/-! ## The answer of a session -/

namespace Session

variable {s : Session} {text : String}

theorem session_calculate (s : Session) (text : String) :
    (s.calculate text).session = { s with bindings := (evaluate text s.bindings).bindings } := by
  simp only [calculate]
  split
  · rfl
  · rfl
  · split <;> rfl

theorem calculate_of_error {e : ExprError} (h : (evaluate text s.bindings).result = .error e) :
    (s.calculate text).answer = .failure e := by
  simp only [calculate, h]

theorem calculate_of_none (h : (evaluate text s.bindings).result = .ok none) :
    (s.calculate text).answer = .blank := by
  simp only [calculate, h]

theorem calculate_of_real {v : Binary64} (h : (evaluate text s.bindings).result = .ok (some (.real v))) :
    (s.calculate text).answer = .value v (Decimal.fixed s.settings.precision v) := by
  simp only [calculate, h]
  rfl

theorem calculate_of_var {name : String} (h : (evaluate text s.bindings).result = .ok (some (.var name))) :
    (s.calculate text).answer =
      match s.bindings.get? name with
      | some v => .value v (name ++ " = " ++ Decimal.fixed s.settings.precision v)
      | none => .failure (.unbound name) := by
  have hb := (evaluate_of_var (postfixOf_eq_of_var h) s.bindings).2
  simp only [calculate, h, Operand.value, hb]
  cases hv : s.bindings.get? name with
  | none => rfl
  | some v => simp only [describe, Operand.describe, hv]

/-- Blanks around an expression do not change its answer. -/
theorem answer_strip (s : Session) (text : String) :
    (s.calculate (.ofList (Text.strip text.toList))).answer = (s.calculate text).answer := by
  have hnormal : NormalText.ofChars (String.ofList (Text.strip text.toList)).toList = NormalText.ofChars text.toList := by
    rw [String.toList_ofList, NormalText.ofChars_strip]
  obtain ⟨hresult, hbindings⟩ := evaluate_congr hnormal s.bindings
  simp only [calculate, hresult, hbindings]
  split
  · rfl
  · rfl
  · split <;> rfl

/-- Only a name that is not bound is an error for `calculate` and none for `evaluate`. -/
theorem calculate_fails_iff (s : Session) (text : String) :
    (∃ x, (evaluate text s.bindings).result = .ok x) ∧ ((s.calculate text).answer.report text).ok = false ↔
      ∃ name, postfixOf text = .ok [.var name] ∧ s.bindings.get? name = none := by
  constructor
  · rintro ⟨⟨x, h⟩, hfails⟩
    rcases x with _ | v | name
    · rw [calculate_of_none h] at hfails
      cases hfails
    · rw [calculate_of_real h] at hfails
      cases hfails
    · refine ⟨name, postfixOf_eq_of_var h, ?_⟩
      rw [calculate_of_var h] at hfails
      cases hv : s.bindings.get? name with
      | none => rfl
      | some v =>
        rw [hv] at hfails
        cases hfails
  · rintro ⟨name, hps, hv⟩
    have h := (evaluate_of_var hps s.bindings).1
    refine ⟨⟨_, h⟩, ?_⟩
    rw [calculate_of_var h, hv]
    rfl

/-- **Calculating is evaluating.** `calculate` leaves the session as `evaluate` does. It reports every error
of `evaluate` with its text and kind, and fills nothing in where there is no value; a number is reported
with its display. A name is the result only of a postfix list that is this name alone: it is reported
with its number if it is bound, and else as an error, which `evaluate` has in no such case. -/
theorem calculate_eq_evaluate (s : Session) (text : String) :
    (s.calculate text).session = { s with bindings := (evaluate text s.bindings).bindings } ∧
    (s.calculate text).session = (s.serve (.evaluate text)).2 ∧
    (∀ e, (evaluate text s.bindings).result = .error e →
      (s.calculate text).answer.report text = ⟨text, none, none, some e.message, some e.kind.name⟩) ∧
    ((evaluate text s.bindings).result = .ok none →
      (s.calculate text).answer.report text = ⟨text, none, none, none, none⟩ ∧ ((s.calculate text).answer.report text).ok = true) ∧
    (∀ v, (evaluate text s.bindings).result = .ok (some (.real v)) →
      (s.calculate text).answer.report text = ⟨text, some v, some (Decimal.fixed s.settings.precision v), none, none⟩) ∧
    (∀ name, (evaluate text s.bindings).result = .ok (some (.var name)) ↔ postfixOf text = .ok [.var name]) ∧
    (∀ name, (evaluate text s.bindings).result = .ok (some (.var name)) →
      (∀ v, s.bindings.get? name = some v → (s.calculate text).answer.report text =
        ⟨text, some v, some (name ++ " = " ++ Decimal.fixed s.settings.precision v), none, none⟩) ∧
      (s.bindings.get? name = none → (s.calculate text).answer.report text =
        ⟨text, none, none, some ("Variable " ++ name ++ " is not initialized."), some "evaluation"⟩)) ∧
    ((∃ x, (evaluate text s.bindings).result = .ok x) ∧ ((s.calculate text).answer.report text).ok = false ↔
      ∃ name, postfixOf text = .ok [.var name] ∧ s.bindings.get? name = none) := by
  refine ⟨s.session_calculate text, s.session_calculate text, ?_, ?_, ?_, ?_, ?_, s.calculate_fails_iff text⟩
  · intro e h
    rw [calculate_of_error h]
    rfl
  · intro h
    rw [calculate_of_none h]
    exact ⟨rfl, rfl⟩
  · intro v h
    rw [calculate_of_real h]
    rfl
  · intro name
    exact ⟨postfixOf_eq_of_var, fun h => (evaluate_of_var h s.bindings).1⟩
  · intro name h
    rw [calculate_of_var h]
    constructor
    · intro v hv
      rw [hv]
      rfl
    · intro hv
      rw [hv]
      rfl

end Session
end Reckoner
