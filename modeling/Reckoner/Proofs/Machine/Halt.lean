import Reckoner.Proofs.Machine.Step

/-!
# Runs that halt

A run that fails halts at one token (`exists_haltsAt`, `HaltsAt.unique`): the tokens before it have
been worked off, and this token has failed. It has bound nothing, and the tokens behind it have no
part in the outcome (`HaltsAt.evaluatePostfix_eq`).
-/

namespace Reckoner.Machine

variable {m m₀ m' : Machine} {t : Token} {ts us : List Token} {h h' : Halt} {k k' : Nat}

/-! ## The token that fails -/

/-- A token that fails binds nothing. -/
theorem bindings_of_step_error (hs : m.step t = .error h) : h.machine.bindings = m.bindings := by
  have hm := m.step_move t
  rw [hs] at hm
  generalize hr : (Except.error h : Except Halt Machine) = r at hm
  cases hm with
  | push x => cases hr
  | @apply a s taken =>
    rw [apply_eq] at hr
    cases hn : a.number m.bindings <;> rw [hn] at hr <;> cases hr
    rfl
  | short few => cases hr; rfl
  | stray other => cases hr; rfl

/-- An operator finds too few operands or cannot be applied to them, or the token is neither operand nor
operator. -/
theorem error_of_step (hs : m.step t = .error h) :
    (∃ op, t = .operator op ∧ h.error = .arity op m.stack.length) ∨
    (∃ op, t = .operator op ∧ h.error.isApplication = true) ∨
    (t.isKept = false ∧ h.error = .strayToken t) := by
  have hm := m.step_move t
  rw [hs] at hm
  generalize hr : (Except.error h : Except Halt Machine) = r at hm
  cases hm with
  | push x => cases hr
  | @apply a s taken =>
    have hnumber := a.failsWith_number m.bindings
    rw [apply_eq] at hr
    refine Or.inr (Or.inl ⟨a.operator, rfl, ?_⟩)
    cases hn : a.number m.bindings with
    | ok v =>
      rw [hn] at hr
      cases hr
    | error e =>
      rw [hn] at hr hnumber
      cases hr
      exact hnumber
  | @short op few =>
    cases hr
    exact Or.inl ⟨op, rfl, rfl⟩
  | stray other =>
    cases hr
    exact Or.inr (Or.inr ⟨other, rfl⟩)

/-! ## The place where a run halts -/

/-- A run from `m₀` halts at place `k` of a list, counted from zero: the `k` tokens before it have been
worked off and have left the machine `m`, on which the token at this place fails with `h`. -/
structure HaltsAt (m₀ : Machine) (ts : List Token) (k : Nat) (m : Machine) (h : Halt) : Prop where
  before : m₀.steps (ts.take k) = .ok m
  fails : ∃ t, ts[k]? = some t ∧ m.step t = .error h

/-- A run that fails halts somewhere. -/
theorem exists_haltsAt (hs : m₀.steps ts = .error h) : ∃ k m, HaltsAt m₀ ts k m h := by
  induction ts generalizing m₀ with
  | nil => cases hs
  | cons t ts ih =>
    rw [steps_cons] at hs
    cases ht : m₀.step t with
    | error e =>
      rw [ht] at hs
      cases hs
      exact ⟨0, m₀, rfl, t, rfl, ht⟩
    | ok m₁ =>
      rw [ht] at hs
      obtain ⟨k, m, hbefore, t', ht', hfails⟩ := ih hs
      refine ⟨k + 1, m, ?_, t', by simpa using ht', hfails⟩
      rw [List.take_succ_cons, steps_cons, ht]
      exact hbefore

namespace HaltsAt

theorem lt_length (hk : HaltsAt m₀ ts k m h) : k < ts.length := by
  obtain ⟨-, t, ht, -⟩ := hk
  exact (List.getElem?_eq_some_iff.1 ht).1

/-- The tokens up to the failing one decide the end of the run. -/
theorem steps_eq (hk : HaltsAt m₀ ts k m h) : m₀.steps ts = .error h := by
  obtain ⟨hbefore, t, ht, hfails⟩ := hk
  obtain ⟨hlt, rfl⟩ := List.getElem?_eq_some_iff.1 ht
  have hsplit : ts = ts.take k ++ ts[k] :: ts.drop (k + 1) := by
    rw [← List.drop_eq_getElem_cons hlt, List.take_append_drop]
  rw [hsplit, steps_append, hbefore]
  show m.steps (ts[k] :: ts.drop (k + 1)) = .error h
  rw [steps_cons, hfails]
  rfl

/-- Every list that begins alike halts alike. -/
theorem congr (hk : HaltsAt m₀ ts k m h) (hus : us.take (k + 1) = ts.take (k + 1)) : HaltsAt m₀ us k m h := by
  obtain ⟨hbefore, t, ht, hfails⟩ := hk
  have htake : us.take k = ts.take k := by
    have hk := congrArg (List.take k) hus
    rwa [List.take_take, List.take_take, Nat.min_eq_left (Nat.le_succ k)] at hk
  refine ⟨by rw [htake, hbefore], t, ?_, hfails⟩
  have hget := congrArg (·[k]?) hus
  simp only [List.getElem?_take, Nat.lt_succ_self, if_true] at hget
  rw [hget, ht]

/-- A run halts at one place. -/
theorem unique (hk : HaltsAt m₀ ts k m h) (hk' : HaltsAt m₀ ts k' m' h') : k = k' ∧ m = m' ∧ h = h' := by
  -- the run up to a later place would have failed already
  have not_lt : ∀ {k k' m m' h h'}, HaltsAt m₀ ts k m h → HaltsAt m₀ ts k' m' h' → ¬ k < k' := by
    intro k k' m m' h h' hk hk' hlt
    have hearly : HaltsAt m₀ (ts.take k') k m h := by
      refine hk.congr ?_
      rw [List.take_take, Nat.min_eq_left hlt]
    have hfail := hearly.steps_eq
    rw [hk'.before] at hfail
    cases hfail
  have hkk : k = k' := by
    have h₁ := not_lt hk hk'
    have h₂ := not_lt hk' hk
    omega
  subst hkk
  have hm := hk.before.symm.trans hk'.before
  have hh := hk.steps_eq.symm.trans hk'.steps_eq
  cases hm
  cases hh
  exact ⟨rfl, rfl, rfl⟩

/-- A list on which the machine halts gives the error of the token that fails and the bindings that the
tokens before it have left. -/
theorem evaluatePostfix_eq {b : Bindings} (hk : HaltsAt (start b) ts k m h) :
    (evaluatePostfix ts b).result = .error h.error ∧ (evaluatePostfix ts b).bindings = m.bindings := by
  obtain ⟨-, t, -, hfails⟩ := id hk
  have hne : ts.isEmpty = false := by
    have := hk.lt_length
    cases ts <;> simp_all
  unfold evaluatePostfix
  simp only [hne, hk.steps_eq, Bool.false_eq_true, if_false, true_and]
  exact bindings_of_step_error hfails

/-- They are the bindings that the tokens before it leave as a list of their own. -/
theorem bindings_take {b : Bindings} (hk : HaltsAt (start b) ts k m h) :
    (evaluatePostfix (ts.take k) b).bindings = m.bindings := by
  rw [(evaluatePostfix_eq_last (ts.take k) b).1, hk.before]
  rfl

end HaltsAt
end Reckoner.Machine
