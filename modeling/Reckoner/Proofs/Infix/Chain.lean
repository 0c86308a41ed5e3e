import Reckoner.Proofs.Tree.Basic

/-!
# Infix chains

The grammar of infix token lists: a chain is a row of primaries with a binary operator between each
two, and a primary is an operand, a chain in parentheses, or a function before a chain in
parentheses. The tree of a chain has the leftmost operator of minimal priority at its root, so that
operators of one priority group from the right (`ofLinks_split`).
-/

namespace Reckoner

namespace Infix

mutual

/-- What stands between two operators. -/
inductive Primary where
  | operand (x : Operand)
  | group (c : Chain)
  | call (f : Fn) (c : Chain)

/-- Primaries with a binary operator between each two. -/
inductive Chain where
  | last (p : Primary)
  | link (p : Primary) (op : BinaryOp) (rest : Chain)

end

mutual

def Primary.tokens : Primary → List Token
  | .operand x => [.operand x]
  | .group c => .openParen :: (c.tokens ++ [.closeParen])
  | .call f c => .function f :: .openParen :: (c.tokens ++ [.closeParen])

def Chain.tokens : Chain → List Token
  | .last p => p.tokens
  | .link p op c => p.tokens ++ .binary op :: c.tokens

end

end Infix

/-! ## The tree of a chain -/

/-- The operators of a chain, each with the tree on its right. -/
abbrev Links := List (BinaryOp × Tree)

/-- Has no operator of the links a lower priority? -/
def Links.hasLeast (links : Links) (op : BinaryOp) : Bool :=
  links.all fun l => op.priority.level ≤ l.1.priority.level

/-- A tree followed by links as one tree, with the leftmost operator of minimal priority at the
root, and likewise on both sides of it. -/
def Tree.ofLinks (first : Tree) (links : Links) : Tree :=
  match _h : links.dropWhile (!links.hasLeast ·.1) with
  | [] => first
  | (op, next) :: right => .binary op (ofLinks first (links.takeWhile (!links.hasLeast ·.1))) (ofLinks next right)
termination_by links.length
decreasing_by
  all_goals
    have := congrArg List.length (links.takeWhile_append_dropWhile (p := (!links.hasLeast ·.1)))
    simp only [_h, List.length_append, List.length_cons] at this
    omega

/-- An operator is the leftmost one of minimal priority between what stands on its two sides. -/
structure LeftmostLeast (left : Links) (op : BinaryOp) (right : Links) : Prop where
  left_above : ∀ l ∈ left, op.priority.level < l.1.priority.level
  right_least : ∀ r ∈ right, op.priority.level ≤ r.1.priority.level

theorem Links.exists_leftmostLeast :
    ∀ links : Links, links ≠ [] →
      ∃ left op next right, links = left ++ (op, next) :: right ∧ LeftmostLeast left op right
  | [], h => absurd rfl h
  | [(op, next)], _ => ⟨[], op, next, [], rfl, by simp, by simp⟩
  | (op, next) :: l :: rest, _ => by
    obtain ⟨left, op', next', right, e, h⟩ := exists_leftmostLeast (l :: rest) (by simp)
    rw [e]
    by_cases hlt : op'.priority.level < op.priority.level
    · refine ⟨(op, next) :: left, op', next', right, rfl, ?_, h.right_least⟩
      intro l hl
      rcases List.mem_cons.1 hl with rfl | hl
      · exact hlt
      · exact h.left_above l hl
    · refine ⟨[], op, next, left ++ (op', next') :: right, rfl, by simp, ?_⟩
      intro l hl
      rcases List.mem_append.1 hl with hl | hl
      · have := h.left_above l hl; omega
      · rcases List.mem_cons.1 hl with rfl | hl
        · exact Nat.le_of_not_lt hlt
        · have := h.right_least l hl; omega

theorem Tree.ofLinks_nil (first : Tree) : ofLinks first [] = first := by
  unfold ofLinks
  rfl

theorem Tree.ofLinks_split {left right : Links} {op : BinaryOp} (first next : Tree)
    (h : LeftmostLeast left op right) :
    ofLinks first (left ++ (op, next) :: right) = .binary op (ofLinks first left) (ofLinks next right) := by
  have hop : (left ++ (op, next) :: right).hasLeast op = true := by
    simp only [Links.hasLeast, List.all_append, List.all_cons, Bool.and_eq_true, List.all_eq_true,
      decide_eq_true_eq, Nat.le_refl, true_and]
    exact ⟨fun l hl => Nat.le_of_lt (h.left_above l hl), h.right_least⟩
  have hleft : ∀ l ∈ left, (!(left ++ (op, next) :: right).hasLeast l.1) = true := by
    intro l hl
    have := h.left_above l hl
    simp only [Links.hasLeast, List.all_append, List.all_cons, Bool.not_eq_true', Bool.and_eq_false_iff]
    right; left; simp; omega
  rw [ofLinks]
  split
  · rename_i e
    rw [List.dropWhile_append_of_pos hleft, List.dropWhile_cons_of_neg (by simp [hop])] at e
    cases e
  · rename_i op' next' right' e
    rw [List.dropWhile_append_of_pos hleft, List.dropWhile_cons_of_neg (by simp [hop])] at e
    cases e
    rw [List.takeWhile_append_of_pos hleft, List.takeWhile_cons_of_neg (by simp [hop]), List.append_nil]

namespace Infix

mutual

/-- The tree of a primary: parentheses are dropped, and a function stands above its chain. -/
def Primary.tree : Primary → Tree
  | .operand x => .leaf x
  | .group c => .ofLinks c.first c.links
  | .call f c => .function f (.ofLinks c.first c.links)

def Chain.first : Chain → Tree
  | .last p => p.tree
  | .link p _ _ => p.tree

/-- The operators of a chain with the trees of the primaries on their right. -/
def Chain.links : Chain → Links
  | .last _ => []
  | .link _ op c => (op, c.first) :: c.links

end

def Chain.tree (c : Chain) : Tree := .ofLinks c.first c.links

theorem Chain.tree_last (p : Primary) : (last p).tree = p.tree := Tree.ofLinks_nil p.tree

/-- The first operator stands above all others if none of them has a lower priority. -/
theorem Chain.tree_link (p : Primary) {op : BinaryOp} {c : Chain}
    (h : ∀ l ∈ c.links, op.priority.level ≤ l.1.priority.level) :
    (link p op c).tree = .binary op p.tree c.tree := by
  have hleast : LeftmostLeast [] op c.links := ⟨nofun, h⟩
  have hsplit := Tree.ofLinks_split p.tree c.first hleast
  rw [Tree.ofLinks_nil] at hsplit
  exact hsplit

end Infix
end Reckoner
