import Reckoner.Proofs.Application
import Reckoner.Proofs.Infix.Conservation
import Reckoner.Proofs.Tree.Run

/-!
# What one token does to a machine

`Move` lists the four ways in which a token is met. A property that every step keeps, also a step that
halts, holds at the end of every run (`last_steps`); two machines that every step keeps related end
together, on one list (`together_steps`) or on lists that are related place by place (`together_placewise`).
-/

namespace Reckoner

/-! ## Lists place by place -/

/-- Lists of the same length whose entries are related place by place. -/
inductive Placewise {α : Type} (R : α → α → Prop) : List α → List α → Prop
  | nil : Placewise R [] []
  | cons {x y : α} {xs ys : List α} : R x y → Placewise R xs ys → Placewise R (x :: xs) (y :: ys)

theorem Placewise.length_eq {α : Type} {R : α → α → Prop} {xs ys : List α} (h : Placewise R xs ys) :
    ys.length = xs.length := by
  induction h with
  | nil => rfl
  | cons _ _ ih => simp [ih]

theorem Placewise.refl {α : Type} {R : α → α → Prop} (h : ∀ x, R x x) : ∀ xs : List α, Placewise R xs xs
  | [] => .nil
  | x :: xs => .cons (h x) (refl h xs)

namespace Machine

variable {m m' : Machine} {t : Token} {ts : List Token} {r : Except Halt Machine}

/-! ## One token -/

/-- An application, with its number and what it writes. -/
theorem apply_eq (m : Machine) (a : Application) :
    m.apply a =
      match a.number m.bindings with
      | .ok v => .ok ⟨.real v :: m.stack, a.after v m.bindings, a :: m.applied⟩
      | .error e => .error ⟨e, { m with applied := a :: m.applied }⟩ := by
  simp only [apply, a.run_eq]
  cases a.number m.bindings <;> rfl

/-- How a machine meets a token. -/
inductive Move (m : Machine) : Token → Except Halt Machine → Prop
  /-- An operand goes on the stack. -/
  | push (x : Operand) : Move m (.operand x) (.ok { m with stack := x :: m.stack })
  /-- An operator takes its operands from the stack, where the last is topmost, and is applied. -/
  | apply {a : Application} {s : List Operand} (taken : m.stack = a.operands.reverse ++ s) :
    Move m (.operator a.operator) ({ m with stack := s }.apply a)
  /-- An operator finds too few operands. -/
  | short {op : Operator} (few : m.stack.length < op.arity) :
    Move m (.operator op) (.error ⟨.arity op m.stack.length, m⟩)
  /-- A token is neither operand nor operator. -/
  | stray {t : Token} (other : t.isKept = false) : Move m t (.error ⟨.strayToken t, m⟩)

theorem step_short {op : Operator} (few : m.stack.length < op.arity) :
    m.step (.operator op) = .error ⟨.arity op m.stack.length, m⟩ := by
  have htaken : (m.stack.take op.arity).length < op.arity := by
    rw [List.length_take]
    omega
  simp only [step, htaken, if_true]

theorem step_move (m : Machine) (t : Token) : m.Move t (m.step t) := by
  cases t with
  | operand x => exact .push x
  | operator op =>
    by_cases few : m.stack.length < op.arity
    · rw [step_short few]
      exact .short few
    · cases op with
      | binary op =>
        rcases hs : m.stack with _ | ⟨y, _ | ⟨x, s⟩⟩
        · simp [hs, Operator.arity] at few
        · simp [hs, Operator.arity] at few
        · rw [step_binary op hs]
          exact Move.apply (a := .binary op x y) hs
      | function f =>
        rcases hs : m.stack with _ | ⟨x, s⟩
        · simp [hs, Operator.arity] at few
        · rw [step_function f hs]
          exact Move.apply (a := .function f x) hs
  | _ => exact .stray rfl

/-- There is one move for every token. -/
theorem Move.step_eq (h : m.Move t r) : m.step t = r := by
  cases h with
  | push x => rfl
  | @apply a s taken =>
    cases a with
    | binary op x y => exact step_binary op taken
    | function f x => exact step_function f taken
  | short few => exact step_short few
  | stray other => cases t <;> first | rfl | cases other

/-! ## The end of a run -/

/-- The machine at the end of a run, whether it has halted or not. -/
def last : Except Halt Machine → Machine
  | .ok m => m
  | .error h => h.machine

theorem last_steps {P : Machine → Prop} (hstep : ∀ t ∈ ts, ∀ m, P m → P (last (m.step t))) (h : P m) :
    P (last (m.steps ts)) := by
  induction ts generalizing m with
  | nil => exact h
  | cons t ts ih =>
    have ht := hstep t (by simp) m h
    rw [steps_cons]
    cases hs : m.step t with
    | error e =>
      rw [hs] at ht
      exact ht
    | ok m₁ =>
      rw [hs] at ht
      exact ih (fun u hu => hstep u (by simp [hu])) ht

/-- Two runs that end alike: neither or both have halted, with the same error, and the machines at the
end are related. -/
inductive Together (R : Machine → Machine → Prop) : Except Halt Machine → Except Halt Machine → Prop
  | ok {m m' : Machine} : R m m' → Together R (.ok m) (.ok m')
  | error {m m' : Machine} (e : ExprError) : R m m' → Together R (.error ⟨e, m⟩) (.error ⟨e, m'⟩)

theorem together_placewise {R : Machine → Machine → Prop} {T : Token → Token → Prop} {us : List Token}
    (hstep : ∀ t ∈ ts, ∀ u, T t u → ∀ m m', R m m' → Together R (m.step t) (m'.step u)) (hts : Placewise T ts us)
    (h : R m m') : Together R (m.steps ts) (m'.steps us) := by
  induction hts generalizing m m' with
  | nil => exact .ok h
  | @cons t u ts us htu hts ih =>
    have ht := hstep t (by simp) u htu m m' h
    rw [steps_cons, steps_cons]
    generalize m.step t = r, m'.step u = r' at ht
    cases ht with
    | ok h₁ => exact ih (fun v hv => hstep v (by simp [hv])) h₁
    | error e h₁ => exact .error e h₁

theorem together_steps {R : Machine → Machine → Prop}
    (hstep : ∀ t ∈ ts, ∀ m m', R m m' → Together R (m.step t) (m'.step t)) (h : R m m') :
    Together R (m.steps ts) (m'.steps ts) := by
  refine together_placewise (T := Eq) ?_ (.refl (fun _ => rfl) ts) h
  rintro t ht u rfl
  exact hstep t ht

/-- Working off a list leaves the bindings and the applications of its run. -/
theorem evaluatePostfix_eq_last (ts : List Token) (b : Bindings) :
    (evaluatePostfix ts b).bindings = (last ((start b).steps ts)).bindings ∧
    (evaluatePostfix ts b).applied = (last ((start b).steps ts)).applied.reverse := by
  unfold evaluatePostfix
  cases ts with
  | nil => exact ⟨rfl, rfl⟩
  | cons t ts =>
    simp only [List.isEmpty_cons, Bool.false_eq_true, if_false]
    cases (start b).steps (t :: ts) <;> exact ⟨rfl, rfl⟩

end Machine
end Reckoner
