import Reckoner.Proofs.Application
import Reckoner.Proofs.Evaluation
import Reckoner.Proofs.Formula.Reading
import Reckoner.Proofs.Infix.Sentence
import Reckoner.Proofs.Scan.Joining

/-!
# Chains of assignments

Assignments group from the right, so that in `x=y=e` the name `x` stands above the assignment of `e` to `y`, and
`e` is evaluated before any name is written. Then every name is given the number that the one to its right has got
(`Tree.eval_assigned`). Where `e` has none, no name is written.
-/

namespace Reckoner

/-- A text assigned to names, as in `x=y=text`. -/
def assigning (names : List Formula.Name) (text : String) : String :=
  names.foldr (fun n rest => n.text ++ "=" ++ rest) text

/-- The bindings with names bound to one number, from the last one to the first. -/
def Bindings.insertAll (b : Bindings) (names : List Formula.Name) (v : Binary64) : Bindings :=
  names.foldr (fun n b => b.insert n.text v) b

theorem Bindings.get?_insertAll (b : Bindings) (names : List Formula.Name) (v : Binary64) (key : String) :
    (b.insertAll names v).get? key = if key ∈ names.map (·.text) then some v else b.get? key := by
  induction names with
  | nil => simp [insertAll]
  | cons n names ih =>
    show ((b.insertAll names v).insert n.text v).get? key = _
    rw [get?_insert, ih]
    by_cases hn : key = n.text <;> simp [hn]

/-! ## The tree of a chain of assignments -/

def Tree.assigned (names : List Formula.Name) (t : Tree) : Tree :=
  names.foldr (fun n t => .binary .assign (.leaf (.var n.text)) t) t

def Infix.Chain.assigned (names : List Formula.Name) (c : Chain) : Chain :=
  names.foldr (fun n c => .link (.operand (.var n.text)) .assign c) c

/-- No operator has a lower priority than an assignment, so that the leftmost one stands above all others. -/
theorem Infix.Chain.tree_assign (x : Operand) (c : Chain) :
    (link (.operand x) .assign c).tree = .binary .assign (.leaf x) c.tree :=
  tree_link (.operand x) fun _ _ => Nat.zero_le _

theorem Infix.Chain.tree_assigned (names : List Formula.Name) (c : Chain) :
    (c.assigned names).tree = c.tree.assigned names := by
  induction names with
  | nil => rfl
  | cons n names ih =>
    show (link (.operand (.var n.text)) .assign (c.assigned names)).tree = _
    rw [tree_assign, ih]
    rfl

/-! ## The tokens of a chain of assignments -/

theorem tokenize_name (n : Formula.Name) : tokenize n.text = .ok [.var n.text] := by
  refine tokenize_of_writes (c := .signed 0 (.last (.name n))) ?_
  have h : Formula.Writes false [.name n] ([] ++ (n.chars ++ [])) := .next [] rfl nofun (.done [] rfl)
  rw [List.nil_append, List.append_nil] at h
  rwa [Formula.Name.text, String.toList_ofList]

theorem tokenize_assigning {text : String} {c : Infix.Chain} (h : tokenize text = .ok c.tokens)
    (names : List Formula.Name) : tokenize (assigning names text) = .ok (c.assigned names).tokens := by
  induction names with
  | nil => exact h
  | cons n names ih =>
    have htext : (assigning (n :: names) text).toList = n.text.toList ++ '=' :: (assigning names text).toList := by
      simp [assigning, String.toList_append]
    exact tokenizeWith_append (tokenize_name n) ih rfl (by decide) htext

/-! ## The value of a chain of assignments -/

namespace Tree

variable {t : Tree} {b b' : Bindings} {r : Operand} {e : ExprError}

/-- The right side of an assignment is evaluated first, and then read and written. -/
theorem eval_assign (name : String) (t : Tree) (b : Bindings) :
    (binary .assign (leaf (.var name)) t).eval b =
      (t.eval b).andThen fun y b => (Application.binary .assign (.var name) y).settle b := rfl

/-- Every name is given the number, whether it is that of the expression or of the assignment before. -/
theorem eval_assigned {v : Binary64} (h : t.eval b = (.ok r, b')) (hv : r.value b' = .ok v)
    (names : List Formula.Name) :
    ∃ r', (t.assigned names).eval b = (.ok r', b'.insertAll names v) ∧ r'.value (b'.insertAll names v) = .ok v ∧
      (names ≠ [] → r' = .real v) := by
  induction names with
  | nil => exact ⟨r, h, hv, fun hne => absurd rfl hne⟩
  | cons n names ih =>
    obtain ⟨r', heval, hread, -⟩ := ih
    refine ⟨.real v, ?_, rfl, fun _ => rfl⟩
    show (binary .assign (leaf (.var n.text)) (t.assigned names)).eval b = _
    rw [eval_assign, heval]
    simp only [Ending.andThen, Application.settle, Application.run, hread, Except.map]
    rfl

theorem eval_assigned_error (h : t.eval b = (.error e, b')) (names : List Formula.Name) :
    (t.assigned names).eval b = (.error e, b') := by
  induction names with
  | nil => exact h
  | cons n names ih =>
    show (binary .assign (leaf (.var n.text)) (t.assigned names)).eval b = _
    rw [eval_assign, ih]
    rfl

/-- What cannot be read fails at the last name, which would be the first to be written. -/
theorem eval_assigned_unread (h : t.eval b = (.ok r, b')) (hr : r.value b' = .error e) {names : List Formula.Name}
    (hne : names ≠ []) : (t.assigned names).eval b = (.error e, b') := by
  have hlast : (t.assigned [names.getLast hne]).eval b = (.error e, b') := by
    show (binary .assign (leaf _) t).eval b = _
    rw [eval_assign, h]
    simp only [Ending.andThen, Application.settle, Application.run, hr, Except.map]
  rw [← List.dropLast_concat_getLast hne, assigned, List.foldr_append]
  exact eval_assigned_error hlast names.dropLast

end Tree

/-- **A chain of assignments writes all of its names or none.** An expression has been evaluated when the first
name is written. If its operand has a number, the chain gives this number, and its bindings are those of the
expression with every name of the chain bound to the number. If the expression fails or its operand is a name that
is not bound, the chain fails in the same way, or for this name, and its bindings are those of the expression. -/
theorem evaluate_assigning {names : List Formula.Name} (hne : names ≠ []) {text : String} {ts : List Token}
    (htext : tokenize text = .ok ts) (hts : Infix.IsSentence ts) (b : Bindings) :
    let alone := evaluate text b
    let whole := evaluate (assigning names text) b
    alone.result ≠ .ok none ∧
    (∀ r v, alone.result = .ok (some r) → r.value alone.bindings = .ok v →
      whole.result = .ok (some (.real v)) ∧
      ∀ key, whole.bindings.get? key = if key ∈ names.map (·.text) then some v else alone.bindings.get? key) ∧
    (∀ e, alone.result = .error e → whole.result = .error e ∧ whole.bindings = alone.bindings) ∧
    (∀ name, alone.result = .ok (some (.var name)) → alone.bindings.contains name = false →
      whole.result = .error (.unbound name) ∧ whole.bindings = alone.bindings) := by
  intro alone whole
  obtain ⟨c, rfl⟩ := hts
  obtain ⟨halone, hbindings⟩ := evaluate_of_tokens htext b
  obtain ⟨hwhole, hbindings'⟩ := evaluate_of_tokens (tokenize_assigning htext names) b
  rw [Infix.Chain.tree_assigned] at hwhole hbindings'
  have failed : ∀ {e b'}, (c.tree.assigned names).eval b = (.error e, b') →
      whole.result = .error e ∧ whole.bindings = b' := by
    intro e b' h
    rw [hwhole, hbindings', h]
    exact ⟨rfl, rfl⟩
  rcases heval : c.tree.eval b with ⟨e | r, b'⟩ <;> rw [heval] at halone hbindings
  · have halone : alone.result = .error e := halone
    have hbindings : alone.bindings = b' := hbindings
    rw [halone, hbindings]
    refine ⟨by simp, by simp, fun e' he => ?_, by simp⟩
    cases he
    exact failed (Tree.eval_assigned_error heval names)
  · have halone : alone.result = .ok (some r) := halone
    have hbindings : alone.bindings = b' := hbindings
    rw [halone, hbindings]
    refine ⟨by simp, fun r' v hr hv => ?_, by simp, fun name hr hunbound => ?_⟩
    · cases hr
      obtain ⟨r', heval', -, hreal⟩ := Tree.eval_assigned heval hv names
      cases hreal hne
      rw [hwhole, hbindings', heval']
      exact ⟨rfl, b'.get?_insertAll names v⟩
    · cases hr
      exact failed (Tree.eval_assigned_unread heval (Operand.value_of_not_contains hunbound) hne)

/-- An expression that assigns one of the names itself, and is assigned to another one twice. -/
theorem evaluate_assigning_nested :
    let x : Formula.Name := ⟨'x', [], rfl, rfl⟩
    let y : Formula.Name := ⟨'y', [], rfl, rfl⟩
    let three : Binary64 := .ofBits 0x4008000000000000
    assigning [x, y, x] "(y=2)+1" = "x=y=x=(y=2)+1" ∧
    (evaluate "(y=2)+1" .constants).result = .ok (some (.real three)) ∧
    (evaluate "x=y=x=(y=2)+1" .constants).result = .ok (some (.real three)) ∧
    (evaluate "x=y=x=(y=2)+1" .constants).bindings.get? "y" = some three := by
  intro x y three
  let two : Token := .real (.ofBits 0x4000000000000000)
  let one : Token := .real (.ofBits 0x3ff0000000000000)
  have htext : tokenize "(y=2)+1" =
      .ok [.openParen, .var "y", .binary .assign, two, .closeParen, .binary .add, one] := rfl
  have hts : Infix.IsSentence [.openParen, .var "y", .binary .assign, two, .closeParen, .binary .add, one] :=
    ⟨.link (.group (.link (.operand (.var "y")) .assign (.last (.operand (.real (.ofBits 0x4000000000000000))))))
      .add (.last (.operand (.real (.ofBits 0x3ff0000000000000)))), rfl⟩
  have halone : (evaluate "(y=2)+1" .constants).result = .ok (some (.real three)) := rfl
  have hne : [x, y, x] ≠ [] := by simp
  obtain ⟨-, hvalue, -⟩ := evaluate_assigning hne htext hts .constants
  obtain ⟨hresult, hbindings⟩ := hvalue _ three halone rfl
  exact ⟨rfl, halone, hresult, hbindings "y"⟩

end Reckoner
