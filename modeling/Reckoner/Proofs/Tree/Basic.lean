import Reckoner.Machine

/-!
# Expression trees

A tree is what a postfix list spells: operands at the leaves, operators at the nodes. It is
evaluated from left to right; a leaf is not read until the operator above it is applied.

`append_postorder_inj` is the unique readability of postfix lists: a tree can be read off the end
of a list in one way at most.
-/

namespace Reckoner

/-- Operands joined by operators. -/
inductive Tree where
  | leaf (x : Operand)
  | binary (op : BinaryOp) (l r : Tree)
  | function (f : Fn) (t : Tree)
  deriving DecidableEq

/-- How an evaluation ends: its operand or its first error, and the bindings at the end. -/
abbrev Ending := Except ExprError Operand × Bindings

/-- Goes on from the operand of an evaluation, if there is one. -/
def Ending.andThen : Ending → (Operand → Bindings → Ending) → Ending
  | (.ok x, b), k => k x b
  | (.error e, b), _ => (.error e, b)

/-- Runs an application; an error leaves the bindings as they are. -/
def Application.settle (a : Application) (b : Bindings) : Ending :=
  match a.run b with
  | .ok (v, b) => (.ok (.real v), b)
  | .error e => (.error e, b)

namespace Tree

/-- The tokens of a tree, every operator after its operands. -/
def postorder : Tree → List Token
  | leaf x => [.operand x]
  | binary op l r => l.postorder ++ r.postorder ++ [.binary op]
  | function f t => t.postorder ++ [.function f]

/-- Evaluates the subtrees in order, then applies the operator to their operands. A leaf is its own
operand and is not read here. -/
def eval : Tree → Bindings → Ending
  | leaf x, b => (.ok x, b)
  | binary op l r, b =>
    (l.eval b).andThen fun x b => (r.eval b).andThen fun y b => (Application.binary op x y).settle b
  | function f t, b => (t.eval b).andThen fun x b => (Application.function f x).settle b

theorem postorder_ne_nil (t : Tree) : t.postorder ≠ [] := by
  cases t <;> simp [postorder]

/-! ## Unique readability -/

theorem append_postorder_inj {t u : Tree} {ts us : List Token} (h : ts ++ t.postorder = us ++ u.postorder) :
    ts = us ∧ t = u := by
  -- the last token names the root; what stands before it splits into the subtrees from the right
  induction t generalizing u ts us with
  | leaf x =>
    cases u with
    | leaf y =>
      obtain ⟨h, hx⟩ := List.append_inj' h rfl
      simp only [postorder, List.cons.injEq, Token.operand.injEq, and_true] at hx
      exact ⟨h, by rw [hx]⟩
    | binary op l r => simp [postorder, ← List.append_assoc] at h
    | function f t => simp [postorder, ← List.append_assoc] at h
  | binary op l r ihl ihr =>
    cases u with
    | leaf y => simp [postorder, ← List.append_assoc] at h
    | binary op' l' r' =>
      simp only [postorder, ← List.append_assoc] at h
      obtain ⟨h, hop⟩ := List.append_inj' h rfl
      obtain ⟨hl, rfl⟩ := ihr h
      obtain ⟨rfl, rfl⟩ := ihl hl
      simp only [List.cons.injEq, Token.operator.injEq, Operator.binary.injEq, and_true] at hop
      exact ⟨rfl, by rw [hop]⟩
    | function f t => simp [postorder, ← List.append_assoc] at h
  | function f t ih =>
    cases u with
    | leaf y => simp [postorder, ← List.append_assoc] at h
    | binary op l r => simp [postorder, ← List.append_assoc] at h
    | function g u =>
      simp only [postorder, ← List.append_assoc] at h
      obtain ⟨h, hf⟩ := List.append_inj' h rfl
      obtain ⟨rfl, rfl⟩ := ih h
      simp only [List.cons.injEq, Token.operator.injEq, Operator.function.injEq, and_true] at hf
      exact ⟨rfl, by rw [hf]⟩

theorem postorder_injective {t u : Tree} (h : t.postorder = u.postorder) : t = u :=
  (@append_postorder_inj t u [] [] h).2

end Tree
end Reckoner
