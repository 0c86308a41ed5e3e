import Reckoner.Proofs.Except
import Reckoner.Proofs.Tree.Basic

/-!
# The stack machine on the tokens of a tree

Two inductions tie the machine to trees. Over a tree: its tokens leave its operand on the stack, or
halt with its error (`lands_postorder`). Over a run: what stands on the stack has been grown from
trees whose tokens are the tokens read so far (`Grown`, `grown_steps`). Together with unique
readability they make the machine an evaluator of trees.
-/

namespace Reckoner

namespace Machine

/-! ## One step -/

@[simp] theorem steps_nil (m : Machine) : m.steps [] = .ok m := rfl

@[simp] theorem steps_singleton (m : Machine) (t : Token) : m.steps [t] = m.step t := by
  simp only [steps, List.foldlM_cons, List.foldlM_nil]
  cases m.step t <;> rfl

theorem steps_cons (m : Machine) (t : Token) (ts : List Token) :
    m.steps (t :: ts) = m.step t >>= (·.steps ts) := List.foldlM_cons

theorem step_binary {m : Machine} {x y : Operand} {s : List Operand} (op : BinaryOp)
    (hm : m.stack = y :: x :: s) :
    m.step (.binary op) = { m with stack := s }.apply (.binary op x y) := by
  simp [step, hm, Operator.arity, Application.ofOperands]

theorem step_function {m : Machine} {x : Operand} {s : List Operand} (f : Fn) (hm : m.stack = x :: s) :
    m.step (.function f) = { m with stack := s }.apply (.function f x) := by
  simp [step, hm, Operator.arity, Application.ofOperands]

/-- What a step that succeeds has done. -/
theorem step_eq_ok {m m' : Machine} {t : Token} (h : m.step t = .ok m') :
    (∃ x, t = .operand x ∧ m' = { m with stack := x :: m.stack }) ∨
    (∃ op x y s, t = .binary op ∧ m.stack = y :: x :: s ∧
      { m with stack := s }.apply (.binary op x y) = .ok m') ∨
    (∃ f x s, t = .function f ∧ m.stack = x :: s ∧ { m with stack := s }.apply (.function f x) = .ok m') := by
  cases t with
  | operand x => exact Or.inl ⟨x, rfl, by simpa [step] using h.symm⟩
  | operator op =>
    right
    cases op with
    | binary op =>
      rcases hs : m.stack with _ | ⟨y, _ | ⟨x, s⟩⟩
      · simp [step, hs, Operator.arity] at h
      · simp [step, hs, Operator.arity] at h
      · rw [step_binary op hs] at h
        exact Or.inl ⟨op, x, y, s, rfl, rfl, h⟩
    | function f =>
      rcases hs : m.stack with _ | ⟨x, s⟩
      · simp [step, hs, Operator.arity] at h
      · rw [step_function f hs] at h
        exact Or.inr ⟨f, x, s, rfl, rfl, h⟩
  | openParen => cases h
  | closeParen => cases h
  | separator => cases h
  | unknown => cases h

/-! ## The tokens of a tree -/

/-- The end of a run that evaluates something on top of a stack: its operand lies on the stack, or
the machine has halted with its error; the bindings are those of the evaluation. -/
inductive Lands (s : List Operand) : Ending → Except Halt Machine → Prop
  | ok {x : Operand} {b : Bindings} {m : Machine} :
    m.stack = x :: s → m.bindings = b → Lands s (.ok x, b) (.ok m)
  | error {e : ExprError} {b : Bindings} {h : Halt} :
    h.error = e → h.machine.bindings = b → Lands s (.error e, b) (.error h)

theorem Lands.steps {s s' : List Operand} {o : Ending} {run : Except Halt Machine} {ts : List Token}
    {k : Operand → Bindings → Ending} (h : Lands s o run)
    (hk : ∀ (x : Operand) (m : Machine), m.stack = x :: s → Lands s' (k x m.bindings) (m.steps ts)) :
    Lands s' (o.andThen k) (run >>= (·.steps ts)) := by
  cases h with
  | ok hs hb => subst hb; exact hk _ _ hs
  | error he hb => exact .error he hb

theorem lands_apply (m : Machine) (a : Application) : Lands m.stack (a.settle m.bindings) (m.apply a) := by
  unfold apply Application.settle
  cases h : a.run m.bindings with
  | error e => simp only [h]; exact .error rfl rfl
  | ok p => simp only [h]; exact .ok rfl rfl

theorem lands_postorder (t : Tree) (m : Machine) :
    Lands m.stack (t.eval m.bindings) (m.steps t.postorder) := by
  induction t generalizing m with
  | leaf x => exact .ok rfl rfl
  | binary op l r ihl ihr =>
    rw [Tree.postorder, List.append_assoc, steps_append]
    refine (ihl m).steps fun x m₁ h₁ => ?_
    rw [steps_append]
    refine (ihr m₁).steps fun y m₂ h₂ => ?_
    rw [steps_singleton, step_binary op (h₂.trans (by rw [h₁]))]
    exact lands_apply { m₂ with stack := m.stack } _
  | function f t ih =>
    rw [Tree.postorder, steps_append]
    refine (ih m).steps fun x m₁ h₁ => ?_
    rw [steps_singleton, step_function f h₁]
    exact lands_apply { m₁ with stack := m.stack } _

/-! ## Every run grows trees -/

/-- Trees, the most recent first, that give a stack and bindings when they are evaluated one after
another from the bindings `b₀`. -/
inductive Grown (b₀ : Bindings) : List Tree → List Operand → Bindings → Prop
  | nil : Grown b₀ [] [] b₀
  | cons {us : List Tree} {u : Tree} {s : List Operand} {x : Operand} {b b' : Bindings} :
    Grown b₀ us s b → u.eval b = (.ok x, b') → Grown b₀ (u :: us) (x :: s) b'

/-- The tokens of trees, the most recent last. -/
def spelled : List Tree → List Token
  | [] => []
  | u :: us => spelled us ++ u.postorder

theorem settle_of_apply {m m' : Machine} {a : Application} (h : m.apply a = .ok m') :
    ∃ x, m'.stack = x :: m.stack ∧ a.settle m.bindings = (.ok x, m'.bindings) := by
  have hl := lands_apply m a
  rw [h] at hl
  generalize a.settle m.bindings = o at hl
  cases hl with
  | ok hs hb => exact ⟨_, hs, by rw [hb]⟩

/-- One step adds its token to what the trees on the stack spell. -/
theorem grown_step {b₀ : Bindings} {us : List Tree} {m m' : Machine} {t : Token}
    (hg : Grown b₀ us m.stack m.bindings) (h : m.step t = .ok m') :
    ∃ us', Grown b₀ us' m'.stack m'.bindings ∧ spelled us' = spelled us ++ [t] := by
  rcases step_eq_ok h with ⟨x, rfl, rfl⟩ | ⟨op, x, y, s, rfl, hs, ha⟩ | ⟨f, x, s, rfl, hs, ha⟩
  · exact ⟨.leaf x :: us, hg.cons rfl, rfl⟩
  · rw [hs] at hg
    obtain ⟨z, hz, he⟩ := settle_of_apply ha
    match us, hg with
    | r :: l :: us, .cons (.cons hg hl) hr =>
      refine ⟨.binary op l r :: us, ?_, by simp [spelled, Tree.postorder]⟩
      rw [hz]
      exact hg.cons (by simp [Tree.eval, Ending.andThen, hl, hr, he])
  · rw [hs] at hg
    obtain ⟨z, hz, he⟩ := settle_of_apply ha
    match us, hg with
    | u :: us, .cons hg hu =>
      refine ⟨.function f u :: us, ?_, by simp [spelled, Tree.postorder]⟩
      rw [hz]
      exact hg.cons (by simp [Tree.eval, Ending.andThen, hu, he])

theorem grown_steps {b₀ : Bindings} {us : List Tree} {m m' : Machine} {ts : List Token}
    (hg : Grown b₀ us m.stack m.bindings) (h : m.steps ts = .ok m') :
    ∃ us', Grown b₀ us' m'.stack m'.bindings ∧ spelled us' = spelled us ++ ts := by
  induction ts generalizing us m with
  | nil => cases h; exact ⟨us, hg, by simp⟩
  | cons t ts ih =>
    rw [steps_cons] at h
    obtain ⟨m₁, ht, h⟩ := bind_eq_ok h
    obtain ⟨us₁, hg₁, e₁⟩ := grown_step hg ht
    obtain ⟨us', hg', e'⟩ := ih hg₁ h
    exact ⟨us', hg', by rw [e', e₁, List.append_assoc, List.singleton_append]⟩

end Machine

/-! ## Working off a postfix list -/

/-- The end of working off a tree's tokens. -/
theorem evaluatePostfix_postorder (t : Tree) (b : Bindings) :
    (evaluatePostfix t.postorder b).result = (t.eval b).1.map some ∧
    (evaluatePostfix t.postorder b).bindings = (t.eval b).2 := by
  have hl : Machine.Lands [] (t.eval b) ((Machine.start b).steps t.postorder) :=
    Machine.lands_postorder t (.start b)
  have hne : t.postorder.isEmpty = false := by simp [t.postorder_ne_nil]
  unfold evaluatePostfix
  rw [hne]
  generalize t.eval b = o, (Machine.start b).steps t.postorder = run at hl
  cases hl with
  | ok hs hb => simp [Machine.result, hs, hb, Except.map]
  | error he hb => simp [he, hb, Except.map]

/-- A list that gives an operand is spelled by a tree. -/
theorem exists_tree_of_evaluatePostfix {ts : List Token} {b : Bindings} {r : Operand}
    (h : (evaluatePostfix ts b).result = .ok (some r)) : ∃ t : Tree, t.postorder = ts := by
  unfold evaluatePostfix at h
  split at h
  · cases h
  · cases hr : (Machine.start b).steps ts with
    | error e => rw [hr] at h; cases h
    | ok m =>
      rw [hr] at h
      obtain ⟨us, hg, hsp⟩ := Machine.grown_steps (.nil : Machine.Grown b [] [] b) hr
      match hs : m.stack, us, hg with
      | [x], [t], .cons .nil _ => exact ⟨t, by simpa [Machine.spelled] using hsp⟩
      | [], _, _ => simp [Machine.result, hs, Except.map] at h
      | _ :: _ :: _, _, _ => simp [Machine.result, hs, Except.map] at h

/-- A name on the left of an operator is read when the operator is applied: with the bindings that
the right side leaves behind. -/
theorem evaluatePostfix_late_read (op : BinaryOp) (name : String) {t : Tree} {b b' : Bindings} {y : Operand}
    (h : t.eval b = (.ok y, b')) :
    (evaluatePostfix (.var name :: (t.postorder ++ [.binary op])) b).result =
      ((Application.binary op (.var name) y).settle b').1.map some ∧
    (evaluatePostfix (.var name :: (t.postorder ++ [.binary op])) b).bindings =
      ((Application.binary op (.var name) y).settle b').2 := by
  have hp := evaluatePostfix_postorder (.binary op (.leaf (.var name)) t) b
  simpa only [Tree.postorder, Tree.eval, Ending.andThen, h, List.cons_append, List.nil_append] using hp

/-- **The machine evaluates trees.** A list gives an operand exactly if it is spelled by a tree, which
is then the only one, and the tree gives this operand; the bindings at the end are the same. The
tokens of a tree whose evaluation fails fail alike. In `x + (x = v)` the first `x` is `v`. -/
theorem evaluatePostfix_iff_eval (ts : List Token) (b : Bindings) :
    (∀ (r : Operand) (b' : Bindings),
      ((evaluatePostfix ts b).result = .ok (some r) ∧ (evaluatePostfix ts b).bindings = b') ↔
        ∃ t : Tree, t.postorder = ts ∧ (∀ u : Tree, u.postorder = ts → u = t) ∧ t.eval b = (.ok r, b')) ∧
    (∀ t : Tree,
      (evaluatePostfix t.postorder b).result = (t.eval b).1.map some ∧
      (evaluatePostfix t.postorder b).bindings = (t.eval b).2) ∧
    (∀ (name : String) (v : Binary64),
      (evaluatePostfix [.var name, .var name, .real v, .binary .assign, .binary .add] b).result =
        .ok (some (.real (v.add v))) ∧
      (evaluatePostfix [.var name, .var name, .real v, .binary .assign, .binary .add] b).bindings =
        b.insert name v) := by
  refine ⟨fun r b' => ⟨?_, ?_⟩, fun t => evaluatePostfix_postorder t b, fun name v => ?_⟩
  · rintro ⟨hr, rfl⟩
    obtain ⟨t, rfl⟩ := exists_tree_of_evaluatePostfix hr
    obtain ⟨h₁, h₂⟩ := evaluatePostfix_postorder t b
    refine ⟨t, rfl, fun u hu => Tree.postorder_injective hu, ?_⟩
    rw [h₁] at hr
    rw [h₂]
    match t.eval b, hr with
    | (.ok x, b₁), hr => cases hr; rfl
    | (.error e, b₁), hr => cases hr
  · rintro ⟨t, rfl, -, he⟩
    obtain ⟨h₁, h₂⟩ := evaluatePostfix_postorder t b
    rw [h₁, h₂, he]
    exact ⟨rfl, rfl⟩
  · have ht : (Tree.binary .assign (.leaf (.var name)) (.leaf (.real v))).eval b =
        (.ok (.real v), b.insert name v) := rfl
    obtain ⟨h₁, h₂⟩ := evaluatePostfix_late_read .add name ht
    have hs : (Application.binary .add (.var name) (.real v)).settle (b.insert name v) =
        (.ok (.real (v.add v)), b.insert name v) := by
      simp [Application.settle, Application.run, Operand.value, bind, Except.bind]
    rw [hs] at h₁ h₂
    exact ⟨h₁, h₂⟩

end Reckoner
