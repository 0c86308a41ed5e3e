import Reckoner.Proofs.Application
import Reckoner.Proofs.Binary64.Whole
import Reckoner.Proofs.Infix.Chain

/-!
# Whole numbers in trees

In a tree of sums and products of whole numbers nothing is rounded while no value in it is greater than 2^53
(`eval_of_whole?`). The tree of a chain groups from the right, but its exact value is that of the chain read from the
left, the products before the sums (`whole?_ofLinks`).
-/

namespace Reckoner

/-! ## Exact values -/

namespace Tree

def subtrees : Tree → List Tree
  | leaf x => [leaf x]
  | binary op l r => binary op l r :: (l.subtrees ++ r.subtrees)
  | function f t => function f t :: t.subtrees

/-- The exact value of sums and products of whole numbers. -/
def whole? : Tree → Option ℤ
  | leaf (.real x) => x.whole?
  | binary .add l r => l.whole?.bind fun a => r.whole?.map (a + ·)
  | binary .mul l r => l.whole?.bind fun a => r.whole?.map (a * ·)
  | _ => none

theorem self_mem_subtrees (t : Tree) : t ∈ t.subtrees := by
  cases t <;> exact List.mem_cons_self ..

/-- No value of the tree is greater in magnitude than 2^53. -/
def Moderate (t : Tree) : Prop := ∀ u ∈ t.subtrees, ∀ z ∈ u.whole?, z.natAbs ≤ 2 ^ 53

instance (t : Tree) : Decidable t.Moderate := by
  unfold Moderate
  infer_instance

variable {l r t : Tree} {op : BinaryOp} {b : Bindings} {z : ℤ}

theorem Moderate.natAbs_le (h : t.Moderate) (hz : t.whole? = some z) : z.natAbs ≤ 2 ^ 53 :=
  h t t.self_mem_subtrees z hz

theorem Moderate.binary (h : (binary op l r).Moderate) : l.Moderate ∧ r.Moderate := by
  constructor
  · exact fun u hu => h u (List.mem_cons_of_mem _ (List.mem_append_left _ hu))
  · exact fun u hu => h u (List.mem_cons_of_mem _ (List.mem_append_right _ hu))

/-- An operator that binds nothing is applied to the numbers of its two sides. -/
theorem eval_binary {op : BinaryOp} {l r : Tree} {b : Bindings} {x y : Operand} {v w z : Binary64} (hop : op ≠ .assign)
    (hl : l.eval b = (.ok x, b)) (hr : r.eval b = (.ok y, b)) (hx : x.value b = .ok v) (hy : y.value b = .ok w)
    (hz : op.calculate v w = .ok z) : (binary op l r).eval b = (.ok (.real z), b) := by
  have hrun : (Application.binary op x y).run b = .ok (z, b) := by
    rw [Application.run_eq]
    cases op with
    | assign => exact absurd rfl hop
    | _ => simp only [Application.number, hx, hy, bind, Except.bind, hz, Except.map, Application.after]
  simp only [eval, Ending.andThen, hl, hr, Application.settle, hrun]

/-- A tree is evaluated to its exact value. -/
theorem eval_of_whole? (hz : t.whole? = some z) (h : t.Moderate) (b : Bindings) :
    ∃ x, t.eval b = (.ok (.real x), b) ∧ x.whole? = some z := by
  induction t generalizing z with
  | leaf x =>
    cases x with
    | real x => exact ⟨x, rfl, hz⟩
    | var name => cases hz
  | function f t => cases hz
  | binary op l r ihl ihr =>
    have hle := h.natAbs_le hz
    cases op with
    | add =>
      obtain ⟨a, ha, hrest⟩ := Option.bind_eq_some_iff.1 hz
      obtain ⟨c, hc, rfl⟩ := Option.map_eq_some_iff.1 hrest
      obtain ⟨x, hx, hxa⟩ := ihl ha h.binary.1
      obtain ⟨y, hy, hyc⟩ := ihr hc h.binary.2
      exact ⟨x.add y, eval_binary (by decide) hx hy rfl rfl rfl, Binary64.whole?_add hxa hyc hle⟩
    | mul =>
      obtain ⟨a, ha, hrest⟩ := Option.bind_eq_some_iff.1 hz
      obtain ⟨c, hc, rfl⟩ := Option.map_eq_some_iff.1 hrest
      obtain ⟨x, hx, hxa⟩ := ihl ha h.binary.1
      obtain ⟨y, hy, hyc⟩ := ihr hc h.binary.2
      exact ⟨x.mul y, eval_binary (by decide) hx hy rfl rfl rfl, Binary64.whole?_mul hxa hyc hle⟩
    | assign | div | pow => cases hz

end Tree

/-! ## Sums of products -/

namespace Links

/-- The exact value of a row of operators read from the left: `done` is the sum of the terms that have ended, and
`scale` the product of the factors of the last one. -/
def whole? (done scale : ℤ) : Links → Option ℤ
  | [] => some (done + scale)
  | (.add, t) :: links => t.whole?.bind fun v => whole? (done + scale) v links
  | (.mul, t) :: links => t.whole?.bind fun v => whole? done (scale * v) links
  | _ :: _ => none

variable {left right links : Links} {op : BinaryOp} {next : Tree} {done scale : ℤ}

/-- Terms that have ended are added to the value. -/
theorem whole?_done (links : Links) (a done scale : ℤ) :
    whole? (a + done) scale links = (whole? done scale links).map (a + ·) := by
  induction links generalizing done scale with
  | nil => simp only [whole?, Option.map_some, add_assoc]
  | cons l links ih =>
    obtain ⟨op, t⟩ := l
    cases op with
    | add => simp only [whole?, Option.map_bind, Function.comp_def, add_assoc, ih]
    | mul => simp only [whole?, Option.map_bind, Function.comp_def, ih]
    | assign | div | pow => rfl

/-- Where no other term follows, a factor multiplies the value. -/
theorem whole?_scale (h : ∀ l ∈ links, l.1 ≠ .add) (a scale : ℤ) :
    whole? 0 (a * scale) links = (whole? 0 scale links).map (a * ·) := by
  induction links generalizing scale with
  | nil => simp only [whole?, Option.map_some, zero_add]
  | cons l links ih =>
    obtain ⟨op, t⟩ := l
    rw [List.forall_mem_cons] at h
    cases op with
    | add => exact absurd rfl h.1
    | mul => simp only [whole?, Option.map_bind, Function.comp_def, mul_assoc, ih h.2]
    | assign | div | pow => rfl

/-- At a plus sign all terms before it have ended. -/
theorem whole?_append_add :
    whole? done scale (left ++ (.add, next) :: right) =
      (whole? done scale left).bind fun a => next.whole?.bind fun v => whole? a v right := by
  induction left generalizing done scale with
  | nil => rfl
  | cons l left ih =>
    obtain ⟨op, t⟩ := l
    cases op with
    | add | mul => simp only [List.cons_append, whole?, ih, Option.bind_assoc]
    | assign | div | pow => rfl

/-- With another operator there is no value. -/
theorem whole?_append_eq_none (hadd : op ≠ .add) (hmul : op ≠ .mul) :
    whole? done scale (left ++ (op, next) :: right) = none := by
  induction left generalizing done scale with
  | nil => cases op <;> first | rfl | contradiction
  | cons l left ih =>
    obtain ⟨op', t⟩ := l
    cases op' with
    | add | mul => simp [whole?, ih]
    | assign | div | pow => rfl

end Links

/-- The exact value of a tree that groups from the right is that of its operators from the left. -/
theorem Tree.whole?_ofLinks (first : Tree) (links : Links) :
    (ofLinks first links).whole? = first.whole?.bind fun a => links.whole? 0 a := by
  by_cases hne : links = []
  · subst hne
    simp [ofLinks_nil, Links.whole?]
  obtain ⟨left, op, next, right, rfl, hleast⟩ := links.exists_leftmostLeast hne
  have hl := whole?_ofLinks first left
  have hr := whole?_ofLinks next right
  rw [ofLinks_split first next hleast]
  cases op with
  | add =>
    simp only [whole?, hl, hr, Links.whole?_append_add, Option.bind_assoc, Option.map_bind, Function.comp_def]
    simp only [← Links.whole?_done, add_zero]
  | mul =>
    have hright : ∀ l ∈ right, l.1 ≠ .add := by
      intro l hl e
      have hlevel := hleast.right_least l hl
      rw [e] at hlevel
      exact absurd hlevel (by decide)
    cases left with
    | nil =>
      rw [ofLinks_nil] at hl ⊢
      simp only [whole?, hr, List.nil_append, Links.whole?, Option.map_bind, Function.comp_def]
      simp only [Links.whole?_scale hright]
    | cons l left =>
      -- only a power stands above a product
      obtain ⟨op, t⟩ := l
      have hlevel : BinaryOp.mul.priority.level < op.priority.level := hleast.left_above (op, t) (List.mem_cons_self ..)
      cases op with
      | pow => simp [whole?, hl, Links.whole?]
      | add | mul | assign | div => exact absurd hlevel (by decide)
  | assign | div | pow => simp [whole?, Links.whole?_append_eq_none]
termination_by links.length

end Reckoner
