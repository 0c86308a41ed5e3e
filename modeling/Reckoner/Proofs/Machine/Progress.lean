import Reckoner.Proofs.Machine.Halt

/-!
# What a run has begun to apply

A machine begins one application for every operator that finds enough operands, in the order of the list: every step
that succeeds begins that of its operator (`operators_step`, `operators_steps`), and the token that halts a run begins
one more exactly if there are enough operands for it (`operators_halt`). So the applications of a run tell how far it
has come (`begins_evaluatePostfix`).
-/

namespace Reckoner

def operators (ts : List Token) : List Operator :=
  ts.filterMap fun
    | .operator op => some op
    | _ => none

theorem operators_append (ts us : List Token) : operators (ts ++ us) = operators ts ++ operators us :=
  List.filterMap_append

namespace Machine

variable {m m' : Machine} {t : Token} {ts ps : List Token} {h : Halt} {b : Bindings}

/-- The operators of the applications begun so far, the most recent first. -/
def begun (m : Machine) : List Operator := m.applied.map Application.operator

/-! ## One token -/

theorem begun_apply_ok {a : Application} (hs : m.apply a = .ok m') : m'.begun = a.operator :: m.begun := by
  rw [apply_eq] at hs
  split at hs <;> cases hs
  rfl

theorem begun_apply_error {a : Application} (hs : m.apply a = .error h) : h.machine.begun = a.operator :: m.begun := by
  rw [apply_eq] at hs
  split at hs <;> cases hs
  rfl

theorem operators_step (hs : m.step t = .ok m') : m'.begun = (operators [t]).reverse ++ m.begun := by
  rcases step_eq_ok hs with ⟨x, rfl, rfl⟩ | ⟨op, x, y, s, rfl, -, ha⟩ | ⟨f, x, s, rfl, -, ha⟩
  · rfl
  · exact begun_apply_ok ha
  · exact begun_apply_ok ha

theorem length_operands (a : Application) : a.operands.length = a.operator.arity := by
  cases a <;> rfl

/-- An operator that fails has begun its application if there are enough operands. -/
theorem operators_halt {op : Operator} (hs : m.step (.operator op) = .error h) :
    (m.stack.length < op.arity ∧ h.machine.begun = m.begun) ∨
    (op.arity ≤ m.stack.length ∧ h.machine.begun = op :: m.begun) := by
  have hm := m.step_move (.operator op)
  rw [hs] at hm
  generalize ht : Token.operator op = t, hr : (Except.error h : Except Halt Machine) = r at hm
  cases hm with
  | push x => cases ht
  | @apply a s taken =>
    cases ht
    have hbegun := begun_apply_error hr.symm
    refine Or.inr ⟨?_, hbegun⟩
    rw [taken, List.length_append, List.length_reverse, length_operands]
    exact Nat.le_add_right _ _
  | short few =>
    cases ht
    cases hr
    exact Or.inl ⟨few, rfl⟩
  | stray other => subst ht; cases other

/-! ## Runs -/

theorem operators_steps (hs : m.steps ts = .ok m') : m'.begun = (operators ts).reverse ++ m.begun := by
  induction ts generalizing m with
  | nil => cases hs; rfl
  | cons t ts ih =>
    rw [steps_cons] at hs
    obtain ⟨m₁, ht, hs⟩ := bind_eq_ok hs
    have hsplit : operators (t :: ts) = operators [t] ++ operators ts := operators_append [t] ts
    rw [ih hs, operators_step ht, hsplit, List.reverse_append, List.append_assoc]

/-- The operators that a run over a list begins to apply: all of them where it comes to the end of the list, and else
those before the place where it halts, with the one that stands there if it has found enough operands. -/
inductive Begins (b : Bindings) (ps : List Token) : List Operator → Prop
  | all {m : Machine} (ends : (start b).steps ps = .ok m) : Begins b ps (operators ps)
  | raised {k : Nat} {m : Machine} {h : Halt} {op : Operator} (halts : HaltsAt (start b) ps k m h)
    (here : ps[k]? = some (.operator op)) (enough : op.arity ≤ m.stack.length) :
    Begins b ps (operators (ps.take k) ++ [op])
  | short {k : Nat} {m : Machine} {h : Halt} {op : Operator} (halts : HaltsAt (start b) ps k m h)
    (here : ps[k]? = some (.operator op)) (few : m.stack.length < op.arity) : Begins b ps (operators (ps.take k))

theorem begins_last (hps : ∀ t ∈ ps, t.isKept = true) (b : Bindings) :
    Begins b ps (last ((start b).steps ps)).begun.reverse := by
  cases hs : (start b).steps ps with
  | ok m =>
    rw [show (last (.ok m)).begun = m.begun from rfl, operators_steps hs, List.reverse_append, List.reverse_reverse]
    exact .all hs
  | error h =>
    obtain ⟨k, m, hk⟩ := exists_haltsAt hs
    obtain ⟨-, t, ht, hfails⟩ := id hk
    have hbefore : m.begun.reverse = operators (ps.take k) := by
      rw [operators_steps hk.before, List.reverse_append, List.reverse_reverse]
      rfl
    have hkept := hps t (List.mem_of_getElem? ht)
    cases t with
    | operand x => cases hfails
    | operator op =>
      show Begins b ps h.machine.begun.reverse
      rcases operators_halt hfails with ⟨few, hbegun⟩ | ⟨enough, hbegun⟩
      · rw [hbegun, hbefore]
        exact .short hk ht few
      · rw [hbegun, List.reverse_cons, hbefore]
        exact .raised hk ht enough
    | _ => cases hkept

end Machine

open Machine

variable {ps : List Token}

theorem operator_applied (ps : List Token) (b : Bindings) :
    (evaluatePostfix ps b).applied.map Application.operator = (last ((start b).steps ps)).begun.reverse := by
  rw [(evaluatePostfix_eq_last ps b).2, List.map_reverse]
  rfl

theorem begins_evaluatePostfix (hps : ∀ t ∈ ps, t.isKept = true) (b : Bindings) :
    Begins b ps ((evaluatePostfix ps b).applied.map Application.operator) := by
  rw [operator_applied]
  exact begins_last hps b

/-- A list that has been worked off without an error has had all its operators applied. -/
theorem operators_of_result {b : Bindings} {x : Option Operand} (h : (evaluatePostfix ps b).result = .ok x) :
    (evaluatePostfix ps b).applied.map Application.operator = operators ps := by
  rw [operator_applied]
  cases hs : (start b).steps ps with
  | ok m =>
    show m.begun.reverse = operators ps
    rw [operators_steps hs, List.reverse_append, List.reverse_reverse]
    rfl
  | error halt =>
    obtain ⟨k, m, hk⟩ := exists_haltsAt hs
    rw [hk.evaluatePostfix_eq.1] at h
    cases h

end Reckoner
