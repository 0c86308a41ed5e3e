import Reckoner.Postfix
import Reckoner.Proofs.Infix.Chain

/-!
# Reordering a chain

While a chain is read, the operators held above the last parenthesis are the spine of a half-built
tree: each waits for the operand on its right. `Spine` says that putting them out finishes the tree
of what was read. `spine_links` keeps it along the leftmost-minimum split of a chain: the operators
left of the root all bind tighter, so the root releases them, and it is itself released by none on
its right.
-/

namespace Reckoner

namespace Reordering

/-! ## One step -/

theorem steps_cons (r : Reordering) (t : Token) (ts : List Token) :
    r.steps (t :: ts) = r.step t >>= (·.steps ts) := List.foldlM_cons

@[simp] theorem steps_nil (r : Reordering) : r.steps [] = .ok r := rfl

@[simp] theorem steps_singleton (r : Reordering) (t : Token) : r.steps [t] = r.step t := by
  rw [steps_cons]
  cases r.step t <;> rfl

theorem steps_cons_of_ok {r r' : Reordering} {t : Token} (h : r.step t = .ok r') (ts : List Token) :
    r.steps (t :: ts) = r'.steps ts := by
  rw [steps_cons, h]
  rfl

theorem steps_append_of_ok {r r' : Reordering} {ts : List Token} (h : r.steps ts = .ok r') (us : List Token) :
    r.steps (ts ++ us) = r'.steps us := by
  rw [steps_append, h]
  rfl

def holding (ops : List BinaryOp) (held : List Held) : List Held := ops.map (.operator <| .binary ·) ++ held

/-- The output after held operators have been put out, the topmost first. -/
def released (ops : List BinaryOp) (out : List Token) : List Token := ops.reverse.map .binary ++ out

theorem releaseAll_holding (ops : List BinaryOp) (out : List Token) (held : List Held) :
    releaseAll out (holding ops held) = releaseAll (released ops out) held := by
  induction ops generalizing out with
  | nil => rfl
  | cons op ops ih =>
    have e : released ops (.binary op :: out) = released (op :: ops) out := by simp [released]
    rw [← e, ← ih]
    rfl

theorem releaseAbove_holding {n : Nat} {ops : List BinaryOp} (h : ∀ op ∈ ops, n < op.priority.level)
    (out : List Token) (held : List Held) :
    releaseAbove n out (holding ops held) = releaseAbove n (released ops out) held := by
  induction ops generalizing out with
  | nil => rfl
  | cons op ops ih =>
    have e : released ops (.binary op :: out) = released (op :: ops) out := by simp [released]
    rw [← e, ← ih fun o ho => h o (by simp [ho])]
    simp [holding, releaseAbove, Operator.priority, h op (by simp)]

/-! ## The spine -/

/-- Is the topmost held operator one that an operator of level `n` leaves where it is? -/
def Stays (n : Nat) : List Held → Prop
  | .operator op :: _ => op.priority.level ≤ n
  | _ => True

theorem releaseAbove_of_stays {n : Nat} {held : List Held} (h : Stays n held) (out : List Token) :
    releaseAbove n out held = ⟨out, held⟩ := by
  match held, h with
  | [], _ => rfl
  | .openParen :: _, _ => rfl
  | .operator op :: _, h => simp only [releaseAbove, Nat.not_lt.2 h, if_false]

def NoFunction (held : List Held) : Prop := ∀ f rest, held ≠ .operator (.function f) :: rest

theorem noFunction_binary (op : BinaryOp) (held : List Held) :
    NoFunction (.operator (.binary op) :: held) := by
  intro f rest h
  simp at h

theorem noFunction_openParen (held : List Held) : NoFunction (.openParen :: held) := by
  intro f rest h
  simp at h

/-- What the tokens of a primary do: its tree goes out, and what is held stays. -/
def Emits (ts : List Token) (t : Tree) : Prop :=
  ∀ out held, NoFunction held → steps ⟨out, held⟩ ts = .ok ⟨t.postorder.reverse ++ out, held⟩

/-- The tokens of a chain whose primaries emit their trees. -/
inductive ChainEmits : List Token → Tree → Links → Prop
  | last {ts : List Token} {t : Tree} : Emits ts t → ChainEmits ts t []
  | link {ts us : List Token} {t next : Tree} {op : BinaryOp} {links : Links} :
    Emits ts t → ChainEmits us next links → ChainEmits (ts ++ .binary op :: us) t ((op, next) :: links)

theorem ChainEmits.split {right : Links} {op : BinaryOp} {next : Tree} :
    ∀ {left : Links} {ts : List Token} {first : Tree}, ChainEmits ts first (left ++ (op, next) :: right) →
      ∃ us vs, ts = us ++ .binary op :: vs ∧ ChainEmits us first left ∧ ChainEmits vs next right
  | [], _, _, .link he hc => ⟨_, _, rfl, .last he, hc⟩
  | _ :: _, _, _, .link he hc => by
    obtain ⟨us, vs, rfl, hl, hr⟩ := hc.split
    exact ⟨_, vs, by simp, .link he hl, hr⟩

/-- The state after a chain read from `⟨out, held⟩`: operators of the chain are held above `held`,
and putting them out finishes the tree `t`. -/
structure Spine (out : List Token) (held : List Held) (links : Links) (t : Tree) (r : Reordering)
    (ops : List BinaryOp) : Prop where
  held_eq : r.held = holding ops held
  of_chain : ∀ op ∈ ops, ∃ l ∈ links, l.1 = op
  finished : released ops r.output = t.postorder.reverse ++ out

theorem Spine.releaseAll_eq {out : List Token} {held : List Held} {links : Links} {t : Tree} {r : Reordering}
    {ops : List BinaryOp} (h : Spine out held links t r ops) :
    releaseAll r.output r.held = releaseAll (t.postorder.reverse ++ out) held := by
  rw [h.held_eq, releaseAll_holding, h.finished]

/-- An operator that stands below a whole chain releases the chain's tree. -/
theorem Spine.step_binary {out : List Token} {held : List Held} {links : Links} {t : Tree} {r : Reordering}
    {ops : List BinaryOp} (h : Spine out held links t r ops) {op : BinaryOp}
    (hop : ∀ l ∈ links, op.priority.level < l.1.priority.level) (hs : Stays op.priority.level held) :
    r.step (.binary op) = .ok ⟨t.postorder.reverse ++ out, .operator (.binary op) :: held⟩ := by
  have habove : ∀ o ∈ ops, op.priority.level < o.priority.level := by
    intro o ho
    obtain ⟨l, hl, rfl⟩ := h.of_chain o ho
    exact hop l hl
  have hr : releaseAbove op.priority.level r.output r.held = ⟨t.postorder.reverse ++ out, held⟩ := by
    rw [h.held_eq, releaseAbove_holding habove, h.finished, releaseAbove_of_stays hs]
  simp [step, hold, Operator.isFunction, Operator.priority, hr]

theorem spine_links {ts : List Token} {first : Tree} {links : Links} (hc : ChainEmits ts first links)
    (out : List Token) {held : List Held} (hf : NoFunction held)
    (hs : ∀ l ∈ links, Stays l.1.priority.level held) :
    ∃ r ops, steps ⟨out, held⟩ ts = .ok r ∧ Spine out held links (.ofLinks first links) r ops := by
  -- the recursion of `ofLinks`: the part left of the root, then the part right of it
  induction hn : links.length using Nat.strongRecOn generalizing ts first links out held with
  | ind n ih =>
  by_cases hne : links = []
  · subst hne
    cases hc with
    | last he =>
      exact ⟨_, [], he out held hf, rfl, by simp, by simp [released, Tree.ofLinks_nil]⟩
  obtain ⟨left, op, next, right, rfl, hsplit⟩ := links.exists_leftmostLeast hne
  obtain ⟨us, vs, rfl, hl, hr⟩ := hc.split
  simp only [List.length_append, List.length_cons] at hn
  obtain ⟨r₁, ops₁, hrun₁, h₁⟩ :=
    ih left.length (by omega) hl out hf (fun l hl => hs l (by simp [hl])) rfl
  have hstep := h₁.step_binary hsplit.left_above (hs (op, next) (by simp))
  obtain ⟨r₂, ops₂, hrun₂, h₂⟩ :=
    ih right.length (by omega) hr ((Tree.ofLinks first left).postorder.reverse ++ out)
      (noFunction_binary op held) hsplit.right_least rfl
  refine ⟨r₂, ops₂ ++ [op], ?_, ?_, ?_, ?_⟩
  · rw [steps_append_of_ok hrun₁, steps_cons_of_ok hstep, hrun₂]
  · rw [h₂.held_eq]; simp [holding]
  · intro o ho
    rcases List.mem_append.1 ho with ho | ho
    · obtain ⟨l, hl, rfl⟩ := h₂.of_chain o ho
      exact ⟨l, by simp [hl], rfl⟩
    · exact ⟨(op, next), by simp, (List.mem_singleton.1 ho).symm⟩
  · have e : released (ops₂ ++ [op]) r₂.output = .binary op :: released ops₂ r₂.output := by simp [released]
    rw [e, h₂.finished, Tree.ofLinks_split first next hsplit]
    simp [Tree.postorder]

/-! ## Primaries and chains -/

theorem releaseFunction_of_noFunction {out : List Token} {held : List Held} (h : NoFunction held) :
    releaseFunction ⟨out, held⟩ = ⟨out, held⟩ := by
  match held, h with
  | [], _ => rfl
  | .openParen :: _, _ => rfl
  | .operator (.binary _) :: _, _ => rfl
  | .operator (.function f) :: held, h => exact absurd rfl (h f held)

/-- A chain in parentheses leaves only its tree, and lets go of a function that waits for it. -/
theorem steps_parentheses {ts : List Token} {first : Tree} {links : Links} (hc : ChainEmits ts first links)
    (out : List Token) (held : List Held) :
    steps ⟨out, held⟩ (.openParen :: (ts ++ [.closeParen])) =
      .ok (releaseFunction ⟨(Tree.ofLinks first links).postorder.reverse ++ out, held⟩) := by
  obtain ⟨r, ops, hrun, h⟩ := spine_links hc out (noFunction_openParen held) (fun _ _ => trivial)
  have hclose : r.step .closeParen =
      .ok (releaseFunction ⟨(Tree.ofLinks first links).postorder.reverse ++ out, held⟩) := by
    simp only [step, h.releaseAll_eq, releaseAll]
  have hopen : step ⟨out, held⟩ .openParen = .ok ⟨out, .openParen :: held⟩ := rfl
  rw [steps_cons_of_ok hopen, steps_append_of_ok hrun, steps_singleton, hclose]

open Infix in
mutual

theorem primary_emits : ∀ p : Primary, Emits p.tokens p.tree
  | .operand _, _, _, _ => rfl
  | .group c, out, held, hf => by
    rw [Primary.tokens, steps_parentheses (chain_emits c) out held, releaseFunction_of_noFunction hf, Primary.tree]
  | .call f c, out, held, _ => by
    have hcall : step ⟨out, held⟩ (.function f) = .ok ⟨out, .operator (.function f) :: held⟩ := rfl
    rw [Primary.tokens, steps_cons_of_ok hcall, steps_parentheses (chain_emits c)]
    simp [releaseFunction, Operator.isFunction, Primary.tree, Tree.postorder]

theorem chain_emits : ∀ c : Chain, ChainEmits c.tokens c.first c.links
  | .last p => .last (primary_emits p)
  | .link p _ c => .link (primary_emits p) (chain_emits c)

end

end Reordering

/-- The end of reordering: what is still held goes out. -/
theorem toPostfix_of_chainEmits {ts : List Token} {first : Tree} {links : Links}
    (hc : Reordering.ChainEmits ts first links) : toPostfix ts = .ok (Tree.ofLinks first links).postorder := by
  have hf : Reordering.NoFunction [] := nofun
  obtain ⟨r, ops, hrun, h⟩ := Reordering.spine_links hc [] hf (fun _ _ => trivial)
  have hfin : r.finish = .ok (Tree.ofLinks first links).postorder := by
    simp [Reordering.finish, h.releaseAll_eq, Reordering.releaseAll]
  unfold toPostfix Reordering.start
  rw [hrun]
  exact hfin

/-- **Reordering spells the tree of a chain.** Every chain is reordered into the postorder of its
tree, and the root of that tree is the leftmost operator of minimal priority. -/
theorem toPostfix_tokens (c : Infix.Chain) :
    toPostfix c.tokens = .ok c.tree.postorder ∧
    (c.links = [] → c.tree = c.first) ∧
    (∀ left op next right, c.links = left ++ (op, next) :: right → LeftmostLeast left op right →
      c.tree = .binary op (.ofLinks c.first left) (.ofLinks next right)) := by
  refine ⟨toPostfix_of_chainEmits (Reordering.chain_emits c), fun h => ?_, fun left op next right e h => ?_⟩
  · rw [Infix.Chain.tree, h, Tree.ofLinks_nil]
  · rw [Infix.Chain.tree, e, Tree.ofLinks_split c.first next h]

end Reckoner
