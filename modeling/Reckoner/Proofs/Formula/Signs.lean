import Mathlib.Logic.Function.Iterate
import Reckoner.Proofs.Formula.Reading
import Reckoner.Proofs.Tree.Whole

/-!
# Minus signs

A minus sign is written as a product with minus one, which flips the sign bit of its operand and rounds nothing. So
`n` minus signs flip it `n` times, and a subtraction is the sum with the negative.
-/

namespace Reckoner

/-! ## The tree of a negated chain -/

/-- Minus signs group from the right. -/
theorem Formula.tree_negated_succ (n : ℕ) (x : Operand) :
    (negated (n + 1) (.last (.operand x))).tree =
      .binary .mul (.leaf (.real (.one true))) (negated n (.last (.operand x))).tree := by
  have hlinks : ∀ l ∈ (negated n (.last (.operand x))).links, l.1 = .mul := by
    induction n with
    | zero => exact nofun
    | succ n ih =>
      intro l hl
      rcases List.mem_cons.1 hl with rfl | hl
      · rfl
      · exact ih l hl
  exact Infix.Chain.tree_link _ fun l hl => by rw [hlinks l hl]

/-! ## The value of a negated operand -/

variable {b : Bindings} {x y : Operand} {v w : Binary64} {t : Tree}

theorem Tree.eval_negative (h : t.eval b = (.ok x, b)) (hv : x.value b = .ok v) :
    (binary .mul (leaf (.real (.one true))) t).eval b = (.ok (.real v.neg), b) := by
  have hproduct : BinaryOp.mul.calculate (.one true) v = .ok v.neg := congrArg Except.ok v.mul_one_true
  exact eval_binary (by decide) rfl h rfl hv hproduct

/-- The sign bit of a number is flipped once for each minus sign before it. -/
theorem Formula.eval_negated (hv : x.value b = .ok v) (n : ℕ) :
    ∃ r, (negated n (.last (.operand x))).tree.eval b = (.ok r, b) ∧ r.value b = .ok (Binary64.neg^[n] v) ∧
      (n = 0 → r = x) ∧ (0 < n → r = .real (Binary64.neg^[n] v)) := by
  induction n with
  | zero => exact ⟨x, by rw [negated, Infix.Chain.tree_last]; rfl, hv, fun _ => rfl, fun h => absurd h (Nat.lt_irrefl 0)⟩
  | succ n ih =>
    obtain ⟨r, heval, hread, -⟩ := ih
    rw [tree_negated_succ, Function.iterate_succ_apply']
    exact ⟨_, Tree.eval_negative heval hread, rfl, fun h => absurd h (Nat.succ_ne_zero n), fun _ => rfl⟩

theorem Binary64.iterate_neg_eq_nan_iff (n : ℕ) : Binary64.neg^[n] v = .nan ↔ v = .nan := by
  induction n with
  | zero => rfl
  | succ n ih => rw [Function.iterate_succ_apply', neg_eq_nan_iff, ih]

/-- The bits of a number whose sign is flipped several times. -/
theorem Binary64.toBits_iterate_neg (hv : v ≠ .nan) (n : ℕ) :
    (Binary64.neg^[n] v).toBits = (· ^^^ 2 ^ 63)^[n] v.toBits := by
  induction n with
  | zero => rfl
  | succ n ih =>
    rw [Function.iterate_succ_apply', toBits_neg (mt (iterate_neg_eq_nan_iff n).1 hv), ih, Function.iterate_succ_apply']

/-! ## Texts with minus signs -/

/-- A name after minus signs has the tokens of products with minus one. -/
theorem tokenize_signs (n : ℕ) (x : Formula.Name) :
    tokenize (.ofList (.replicate n '-' ++ x.chars)) =
      .ok (Formula.negated n (.last (.operand (.var x.text)))).tokens := by
  have hwritten : Formula.written (.replicate n .sign ++ [.name x]) = .replicate n '-' ++ x.chars := by
    simp [Formula.written, Formula.Lexeme.written, List.flatMap_replicate]
  refine tokenize_of_writes (c := .signed n (.last (.name x))) ?_
  rw [String.toList_ofList, ← hwritten]
  exact Formula.writes_written false _

/-- A difference of names has the tokens of a sum with a product with minus one. -/
theorem tokenize_subtraction (x y : Formula.Name) :
    tokenize (.ofList (x.chars ++ '-' :: y.chars)) =
      .ok (Infix.Chain.link (.operand (.var x.text)) .add (Formula.negated 1 (.last (.operand (.var y.text))))).tokens := by
  have hwritten : Formula.written [.name x, .subtraction, .name y] = x.chars ++ '-' :: y.chars := by
    simp [Formula.written, Formula.Lexeme.written]
  refine tokenize_of_writes (c := .signed 0 (.link (.name x) (.subtraction 0) (.last (.name y)))) ?_
  rw [String.toList_ofList, ← hwritten]
  exact Formula.writes_written false _

theorem Operand.value_of_get? {name : String} (h : b.get? name = some v) : (var name).value b = .ok v := by
  simp only [value, h]

/-- **Minus signs are exact.** Before a name that is bound to a number, `n` minus signs give the number whose bits are
those of this number with the sign bit flipped `n` times; without a sign the name itself is given. A subtraction of
two names gives the sum of the first number and the second one with its sign bit flipped. No binding is changed. -/
theorem evaluate_signs (x : Formula.Name) {b : Bindings} {v : Binary64} (hv : b.get? x.text = some v) :
    (∀ n, let ev := evaluate (.ofList (.replicate n '-' ++ x.chars)) b
      ev.bindings = b ∧
      (n = 0 → ev.result = .ok (some (.var x.text))) ∧
      (0 < n → ∃ r, ev.result = .ok (some (.real r)) ∧
        (v = .nan → r = .nan) ∧ (v ≠ .nan → r.toBits = (· ^^^ 2 ^ 63)^[n] v.toBits))) ∧
    ∀ (y : Formula.Name) (w : Binary64), b.get? y.text = some w →
      let ev := evaluate (.ofList (x.chars ++ '-' :: y.chars)) b
      ev.bindings = b ∧ ev.result = .ok (some (.real (v.add w.neg))) := by
  have hx := Operand.value_of_get? hv
  constructor
  · intro n ev
    obtain ⟨hresult, hbindings⟩ := evaluate_of_tokens (tokenize_signs n x) b
    obtain ⟨r, heval, -, hnone, hsome⟩ := Formula.eval_negated hx n
    rw [heval] at hresult hbindings
    refine ⟨hbindings, fun hn => ?_, fun hn => ⟨_, ?_, (Binary64.iterate_neg_eq_nan_iff n).2, fun hne =>
      Binary64.toBits_iterate_neg hne n⟩⟩
    · rw [hresult, hnone hn]
      rfl
    · rw [hresult, hsome hn]
      rfl
  · intro y w hw ev
    have hy := Operand.value_of_get? hw
    obtain ⟨hresult, hbindings⟩ := evaluate_of_tokens (tokenize_subtraction x y) b
    obtain ⟨r, heval, hread, -⟩ := Formula.eval_negated hy 1
    have hlinks : ∀ l ∈ (Formula.negated 1 (.last (.operand (.var y.text)))).links,
        BinaryOp.add.priority.level ≤ l.1.priority.level := by
      simp [Formula.negated, Infix.Chain.links, BinaryOp.priority, Priority.level]
    rw [Infix.Chain.tree_link _ hlinks] at hresult hbindings
    have hsum : (Tree.binary .add (.leaf (.var x.text)) (Formula.negated 1 (.last (.operand (.var y.text)))).tree).eval b =
        (.ok (.real (v.add w.neg)), b) := Tree.eval_binary (by decide) rfl heval hx hread rfl
    have htree : (Infix.Primary.operand (.var x.text)).tree = .leaf (.var x.text) := rfl
    rw [htree, hsum] at hresult hbindings
    exact ⟨hbindings, hresult⟩

/-- Three signs before the least number, and a difference with a negative zero. -/
theorem evaluate_signs_least :
    let b : Bindings := ⟨[("x1", .ofBits 1), ("_", .zero true)]⟩
    let x : Formula.Name := ⟨'x', ['1'], rfl, rfl⟩
    let y : Formula.Name := ⟨'_', [], rfl, rfl⟩
    b.get? x.text = some (.ofBits 1) ∧ b.get? y.text = some (.zero true) ∧
    (∃ r, (evaluate "---x1" b).result = .ok (some (.real r)) ∧ r.toBits = 0x8000000000000001) ∧
    (evaluate "_-x1" b).result = .ok (some (.real (.ofBits 0x8000000000000001))) := by
  intro b x y
  have hx : b.get? x.text = some (.ofBits 1) := rfl
  have hy : b.get? y.text = some (.zero true) := rfl
  have hne : Binary64.ofBits 1 ≠ .nan := by decide +kernel
  obtain ⟨-, -, h⟩ := (evaluate_signs x hx).1 3
  obtain ⟨r, hr, -, hbits⟩ := h (by omega)
  have hsum : (Binary64.zero true).add (Binary64.ofBits 1).neg = .ofBits 0x8000000000000001 := by decide +kernel
  have hone : (Binary64.ofBits 1).toBits = 1 := by decide +kernel
  rw [hone] at hbits
  exact ⟨hx, hy, ⟨r, hr, hbits hne⟩, hsum ▸ ((evaluate_signs y hy).2 x _ hx).2⟩

end Reckoner
