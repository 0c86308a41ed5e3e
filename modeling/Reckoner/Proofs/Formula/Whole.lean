import Reckoner.Proofs.Formula.Reading
import Reckoner.Proofs.Tree.Whole

/-!
# Formulas of whole numbers

`Chain.whole?` is the value that ordinary arithmetic gives a formula of whole numbers: sums and differences are taken
from the left, products before them. It is the exact value of the tree that is evaluated, although this groups from
the right and has products with minus one in place of signs and differences.
-/

namespace Reckoner

open Decimal (ofDigits)

namespace Formula

/-! ## Ordinary arithmetic -/

def Literal.whole? (l : Literal) : Option ℤ :=
  match l.places with
  | none => some (ofDigits l.whole)
  | some _ => none

mutual

/-- The value of a whole number or of a chain in parentheses. -/
def Primary.whole? {k : Shape} : Primary k → Option ℤ
  | .number l => l.whole?
  | .group c => c.whole?
  | .name _ | .call _ _ => none

/-- The value of a row read from the left: `done` is the sum of the terms that have ended, and `scale` the product of
the factors before the row, with their signs. -/
def Row.wholeFrom {k : Shape} (done scale : ℤ) : Row k → Option ℤ
  | .last p => p.whole?.map fun v => done + scale * v
  | .link p (.operator .add signs) r => p.whole?.bind fun v => r.wholeFrom (done + scale * v) ((-1) ^ signs)
  | .link p (.subtraction signs) r => p.whole?.bind fun v => r.wholeFrom (done + scale * v) (-(-1) ^ signs)
  | .link p (.operator .mul signs) r => p.whole?.bind fun v => r.wholeFrom done (scale * v * (-1) ^ signs)
  | .link p (.omitted _) r => p.whole?.bind fun v => r.wholeFrom done (scale * v)
  | .link _ (.operator _ _) _ => none

def Chain.whole? : Chain → Option ℤ
  | .signed signs r => r.wholeFrom 0 ((-1) ^ signs)

end

end Formula

/-! ## The exact value of infix chains -/

namespace Infix.Chain

/-- The exact value of an infix chain after terms with the sum `done` and factors with the product `scale`. -/
def wholeFrom (done scale : ℤ) (c : Chain) : Option ℤ :=
  c.first.whole?.bind fun v => c.links.whole? done (scale * v)

variable {p : Primary} {c : Chain} {done scale : ℤ}

theorem whole?_tree (c : Chain) : c.tree.whole? = c.wholeFrom 0 1 := by
  simp only [tree, Tree.whole?_ofLinks, wholeFrom, one_mul]

theorem wholeFrom_last : (last p).wholeFrom done scale = p.tree.whole?.map fun v => done + scale * v := by
  simp only [wholeFrom, first, links, Links.whole?]
  cases p.tree.whole? <;> rfl

theorem wholeFrom_add :
    (link p .add c).wholeFrom done scale = p.tree.whole?.bind fun v => c.wholeFrom (done + scale * v) 1 := by
  simp only [wholeFrom, first, links, Links.whole?, one_mul]

theorem wholeFrom_mul :
    (link p .mul c).wholeFrom done scale = p.tree.whole?.bind fun v => c.wholeFrom done (scale * v) := by
  simp only [wholeFrom, first, links, Links.whole?]

end Infix.Chain

namespace Formula

/-- A product with minus one changes the sign of the first term. -/
theorem wholeFrom_negated (n : ℕ) (c : Infix.Chain) (done scale : ℤ) :
    (negated n c).wholeFrom done scale = c.wholeFrom done (scale * (-1) ^ n) := by
  induction n generalizing scale with
  | zero => simp only [negated, pow_zero, mul_one]
  | succ n ih =>
    have hone : (Infix.Primary.operand (.real (.one true))).tree.whole? = some (-1) := by decide +kernel
    rw [negated, Infix.Chain.wholeFrom_mul, hone, Option.bind_some, ih, mul_assoc, ← pow_succ']

/-- A whole number up to 2^53 is read exactly. -/
theorem Literal.whole?_value {l : Literal} {z : ℤ} (hz : l.whole? = some z) (h : ofDigits l.whole ≤ 2 ^ 53) :
    l.value.whole? = some z := by
  unfold whole? at hz
  split at hz
  · rename_i hplaces
    cases hz
    have hvalue := Binary64.whole?_ofQuotient (n := ofDigits l.whole) Nat.one_pos h (by simp) false
    simpa [value, hplaces, Binary64.signFactor] using hvalue
  · cases hz

/-- No literal of the lexemes is greater than 2^53. -/
def Short (ls : List Lexeme) : Prop := ∀ l, .number l ∈ ls → ofDigits l.whole ≤ 2 ^ 53

theorem short_append {ls ms : List Lexeme} : Short (ls ++ ms) ↔ Short ls ∧ Short ms := by
  simp only [Short, List.mem_append, or_imp, forall_and]

mutual

/-- The exact value of the tree of a primary is its ordinary value. -/
theorem primary_whole : ∀ {k : Shape} (p : Primary k) {z : ℤ}, Short p.lexemes → p.whole? = some z →
    p.expand.tree.whole? = some z
  | _, .number l, _, hs, hz => l.whole?_value hz (hs l (List.mem_singleton_self _))
  | _, .group c, _, hs, hz => by
    have hc : Short c.lexemes := fun l hl => hs l (by simp [Primary.lexemes, hl])
    exact chain_whole c hc hz
  | _, .name _, _, _, hz => by cases hz
  | _, .call _ _, _, _, hz => by cases hz

/-- The exact value of the infix chain of a row is its ordinary value. -/
theorem row_whole : ∀ {k : Shape} (r : Row k) {done scale z : ℤ}, Short r.lexemes → r.wholeFrom done scale = some z →
    r.expand.wholeFrom done scale = some z
  | _, .last p, done, scale, z, hs, hz => by
    obtain ⟨v, hv, rfl⟩ := Option.map_eq_some_iff.1 hz
    rw [Row.expand, Infix.Chain.wholeFrom_last, primary_whole p hs hv]
    rfl
  | _, .link p j r, done, scale, z, hs, hz => by
    rw [Row.lexemes, short_append, short_append] at hs
    obtain ⟨hp, -, hr⟩ := hs
    cases j with
    | operator op signs =>
      cases op with
      | add =>
        obtain ⟨v, hv, hz⟩ := Option.bind_eq_some_iff.1 hz
        simp only [Row.expand, Joint.op, Joint.signs, Infix.Chain.wholeFrom_add, primary_whole p hp hv, Option.bind_some,
          wholeFrom_negated, one_mul]
        exact row_whole r hr hz
      | mul =>
        obtain ⟨v, hv, hz⟩ := Option.bind_eq_some_iff.1 hz
        simp only [Row.expand, Joint.op, Joint.signs, Infix.Chain.wholeFrom_mul, primary_whole p hp hv, Option.bind_some,
          wholeFrom_negated]
        exact row_whole r hr hz
      | assign | div | pow => cases hz
    | subtraction signs =>
      obtain ⟨v, hv, hz⟩ := Option.bind_eq_some_iff.1 hz
      simp only [Row.expand, Joint.op, Joint.signs, Infix.Chain.wholeFrom_add, primary_whole p hp hv, Option.bind_some,
        wholeFrom_negated, one_mul, pow_succ, mul_neg_one]
      exact row_whole r hr hz
    | omitted h =>
      obtain ⟨v, hv, hz⟩ := Option.bind_eq_some_iff.1 hz
      simp only [Row.expand, Joint.op, Joint.signs, Infix.Chain.wholeFrom_mul, primary_whole p hp hv, Option.bind_some,
        negated]
      exact row_whole r hr hz

/-- The exact value of the tree of a chain is its ordinary value. -/
theorem chain_whole : ∀ (c : Chain) {z : ℤ}, Short c.lexemes → c.whole? = some z → c.expand.tree.whole? = some z
  | .signed signs r, z, hs, hz => by
    rw [Chain.lexemes, short_append] at hs
    rw [Infix.Chain.whole?_tree, Chain.expand, wholeFrom_negated, one_mul]
    exact row_whole r hs.2 hz

end

end Formula

/-- **Whole numbers are exact.** A text that writes whole numbers with sums, differences, products, signs and
parentheses evaluates to a number that is equal to their ordinary value, if neither a literal nor a value in the tree
that is evaluated is greater in magnitude than 2^53. No binding is changed. -/
theorem evaluate_whole {c : Formula.Chain} {text : String} {z : ℤ} (h : Formula.Writes false c.lexemes text.toList)
    (hz : c.whole? = some z) (hliterals : Formula.Short c.lexemes) (hvalues : c.expand.tree.Moderate) (b : Bindings) :
    (∃ x, (evaluate text b).result = .ok (some (.real x)) ∧ x.whole? = some z) ∧ (evaluate text b).bindings = b := by
  obtain ⟨hresult, hbindings⟩ := evaluate_of_tokens (tokenize_of_writes h) b
  obtain ⟨x, heval, hx⟩ := Tree.eval_of_whole? (Formula.chain_whole c hliterals hz) hvalues b
  rw [heval] at hresult hbindings
  exact ⟨⟨x, hresult, hx⟩, hbindings⟩

/-- A product that is left out, and a product with a sign in a difference. -/
theorem evaluate_whole_sample :
    let digit (c : Char) (h : [c].all Char.isDigit = true) : Formula.Literal := ⟨[c], none, h, rfl, rfl⟩
    let c : Formula.Chain :=
      .signed 0 <| .link (.number (digit '2' rfl)) (.omitted .number_group) <|
        .link (.group (.signed 0 (.link (.number (digit '3' rfl)) (.subtraction 0) <|
          .link (.number (digit '4' rfl)) (.operator .mul 1) (.last (.number (digit '5' rfl))))))
          (.subtraction 0) (.last (.number (digit '7' rfl)))
    Formula.Writes false c.lexemes "2(3-4*-5)-7".toList ∧ c.whole? = some 39 ∧
    ∃ x, (evaluate "2(3-4*-5)-7" .constants).result = .ok (some (.real x)) ∧ x.whole? = some 39 := by
  intro digit c
  have h : Formula.Writes false c.lexemes "2(3-4*-5)-7".toList := Formula.writes_written false c.lexemes
  have hz : c.whole? = some 39 := by decide +kernel
  have hliterals : Formula.Short c.lexemes := by
    intro l hl
    simp only [c, digit, Formula.Chain.lexemes, Formula.Row.lexemes, Formula.Primary.lexemes, Formula.Joint.lexemes,
      List.mem_append, List.mem_cons, List.mem_replicate, List.not_mem_nil, Formula.Lexeme.number.injEq, reduceCtorEq,
      and_false, false_or, or_false] at hl
    rcases hl with rfl | (rfl | rfl | rfl) | rfl <;> decide
  have hvalues : c.expand.tree.Moderate := by decide +kernel
  exact ⟨h, hz, (evaluate_whole h hz hliterals hvalues .constants).1⟩

end Reckoner
