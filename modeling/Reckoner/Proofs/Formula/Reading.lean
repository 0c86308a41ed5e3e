import Reckoner.Proofs.Evaluation
import Reckoner.Proofs.Formula.Literal
import Reckoner.Proofs.Infix.Reordering
import Reckoner.Proofs.Scan.Step
import Reckoner.Proofs.Tree.Run

/-!
# The value of a formula

The scan of a formula's normal text puts out the tokens of the infix chain that it stands for. After
a primary the scan may still hold it back (`Ends`); an operator, a closing parenthesis or the end
lets go of it, and so does what follows a product sign that was left out (`Ends.step_omitted`).
Together with reordering and the machine this gives the value of every text that writes a formula:
that of the tree of its infix chain.
-/

namespace Reckoner

namespace Formula

/-! ## Words -/

open Scan

variable {known : List Fn} {ts : List Token} {d : Nat}

theorem Literal.isNumberChar_of_mem {l : Literal} {c : Char} (h : c ∈ l.chars) : isNumberChar c = true := by
  rcases l.digit_or_point h with hd | rfl
  · simp [isNumberChar, hd]
  · rfl

theorem Literal.numberToken_chars (l : Literal) : numberToken l.chars.reverse = .ok (.real l.value) := by
  simp [numberToken, l.readLiteral_chars]

theorem steps_literal (l : Literal) :
    steps known ⟨ts, .none, d⟩ l.chars = .ok ⟨ts, .number l.chars.reverse, d⟩ := by
  obtain ⟨c, cs, hl⟩ := List.exists_cons_of_ne_nil l.chars_ne_nil
  have h : ∀ e ∈ c :: cs, isNumberChar e = true := fun e he => l.isNumberChar_of_mem (hl ▸ he)
  have hc : step known ⟨ts, .none, d⟩ c = .ok ⟨ts, .number [c], d⟩ :=
    step_of_isNumberChar (h c (by simp)) (by simp)
  rw [hl, steps_cons_of_ok hc, steps_number fun e he => h e (by simp [he])]
  simp

theorem steps_name (n : Name) : steps known ⟨ts, .none, d⟩ n.chars = .ok ⟨ts, .word n.chars.reverse, d⟩ := by
  have hc : step known ⟨ts, .none, d⟩ n.head = .ok ⟨ts, .word [n.head], d⟩ :=
    step_of_beginsName n.head_begins _
  have htail : ∀ c ∈ n.tail, isNameChar c = true := fun c hm => by
    rw [isNameChar_eq]
    exact List.all_eq_true.1 n.tail_within c hm
  rw [Name.chars, steps_cons_of_ok hc, steps_word htail]
  simp

/-! ## The end of a primary -/

/-- The state after a primary of a shape: the tokens with it are `ts`, but a number or a name is
still held back. -/
inductive Ends : Shape → List Token → Nat → Scan → Prop
  | number {cs : List Char} {t : Token} {ts : List Token} {d : Nat} (h : numberToken cs = .ok t) :
    Ends .number (t :: ts) d ⟨ts, .number cs, d⟩
  | name {cs : List Char} {ts : List Token} {d : Nat} :
    Ends .name (.var (.ofList cs.reverse) :: ts) d ⟨ts, .word cs, d⟩
  | group {ts : List Token} {d : Nat} : Ends .group (.closeParen :: ts) d ⟨.closeParen :: ts, .none, d⟩
  | call {ts : List Token} {d : Nat} : Ends .call (.closeParen :: ts) d ⟨.closeParen :: ts, .none, d⟩

variable {k k' : Shape} {s : Scan}

theorem Ends.flush (h : Ends k ts d s) : s.flush = .ok ⟨ts, .none, d⟩ := by
  cases h with
  | number h => simp [Scan.flush, h, Except.map]
  | name => rfl
  | group => rfl
  | call => rfl

theorem Ends.step_symbol (h : Ends k ts d s) (op : BinaryOp) :
    s.step known op.symbol = .ok ⟨.binary op :: ts, .none, d⟩ := by
  rw [Scan.step_symbol, h.flush]
  rfl

theorem Ends.step_closeParen (h : Ends k ts (d + 1) s) : s.step known ')' = .ok ⟨.closeParen :: ts, .none, d⟩ := by
  have hd : s.depth = d + 1 := (depth_of_flush h.flush).symm
  have hfull : ¬ (s.pending = .none ∧ s.tokens.head? = some .openParen) := by cases h <;> simp
  rw [Scan.step_closeParen, stepClose, if_neg (by omega), if_neg hfull, h.flush]
  rfl

/-- The characters with which a primary may begin that follows without a product sign. -/
def Begins : Shape → Char → Prop
  | .number, _ => True
  | .name, c | .call, c => beginsName c = true
  | .group, c => c = '('

/-- Where the product sign may be left out, what follows reads as if it stood there. -/
theorem Ends.step_omitted {c : Char} (h : Ends k ts d s) (ho : Omits k k') (hc : Begins k' c) :
    s.step known c = step known ⟨.binary .mul :: ts, .none, d⟩ c := by
  -- a name after a number
  have after_number : ∀ {cs : List Char} {t : Token} {ts : List Token},
      numberToken cs = .ok t → beginsName c = true →
      step known ⟨ts, .number cs, d⟩ c = step known ⟨.binary .mul :: t :: ts, .none, d⟩ c := by
    intro cs t ts ht hb
    rw [step_of_beginsName hb, step_of_beginsName hb]
    simp [stepWord, ht, Except.map]
  cases ho with
  | number_name =>
    cases h with
    | number ht => exact after_number ht hc
  | number_call =>
    cases h with
    | number ht => exact after_number ht hc
  | number_group =>
    cases h with
    | number ht =>
      cases hc
      rw [step_openParen, step_openParen]
      simp [stepOpen, ht, Except.map]
  | group_group =>
    cases h
    cases hc
    rfl
  | call_group =>
    cases h
    cases hc
    rfl

/-! ## Primaries and chains -/

/-- What lexemes that end in a primary of a shape do: they add tokens. -/
def Reads (ls : List Lexeme) (us : List Token) (k : Shape) : Prop :=
  ∀ ts d, ts.head? ≠ some .closeParen →
    ∃ s, steps Fn.all ⟨ts, .none, d⟩ (normal ls) = .ok s ∧ Ends k (us.reverse ++ ts) d s

theorem steps_sign : steps known ⟨ts, .none, d⟩ ['-', '1', '*'] =
    .ok ⟨.binary .mul :: .real (.one true) :: ts, .none, d⟩ := by
  have hone : numberToken ['1', '-'] = .ok (.real (.one true)) := by rfl
  have hread : steps known ⟨ts, .none, d⟩ ['-', '1'] = .ok ⟨ts, .number ['1', '-'], d⟩ := by rfl
  have hmul : step known ⟨ts, .number ['1', '-'], d⟩ '*' = .ok ⟨.binary .mul :: .real (.one true) :: ts, .none, d⟩ :=
    (Ends.number hone).step_symbol .mul
  rw [show ['-', '1', '*'] = ['-', '1'] ++ ['*'] from rfl, steps_append_of_ok hread, steps_singleton, hmul]

theorem Reads.negated {ls : List Lexeme} {c : Infix.Chain} (h : Reads ls c.tokens k) (n : Nat) :
    Reads (.replicate n .sign ++ ls) (negated n c).tokens k := by
  induction n with
  | zero => exact h
  | succ n ih =>
    intro ts d _
    obtain ⟨s, hs, he⟩ := ih (.binary .mul :: .real (.one true) :: ts) d (by simp)
    refine ⟨s, ?_, ?_⟩
    · have e : normal (List.replicate (n + 1) .sign ++ ls) =
          ['-', '1', '*'] ++ normal (.replicate n .sign ++ ls) := rfl
      rw [e, steps_append_of_ok steps_sign, hs]
    · simpa [Formula.negated, Infix.Chain.tokens, Infix.Primary.tokens] using he

/-- Lexemes in parentheses, after the opening one. -/
theorem Reads.closed {ls : List Lexeme} {us : List Token} (h : Reads ls us k) (ts : List Token) (d : Nat) :
    steps Fn.all ⟨.openParen :: ts, .none, d + 1⟩ (normal (ls ++ [.closeParen])) =
      .ok ⟨.closeParen :: (us.reverse ++ .openParen :: ts), .none, d⟩ := by
  obtain ⟨s, hs, he⟩ := h (.openParen :: ts) (d + 1) (by simp)
  rw [normal_append, steps_append_of_ok hs]
  show s.steps Fn.all [')'] = _
  rw [steps_singleton, he.step_closeParen]

theorem reads_number (l : Literal) : Reads [.number l] [.real l.value] .number := by
  intro ts d _
  refine ⟨⟨ts, .number l.chars.reverse, d⟩, ?_, .number l.numberToken_chars⟩
  rw [show normal [.number l] = l.chars from List.append_nil _, steps_literal]

theorem reads_name (n : Name) : Reads [.name n] [.var n.text] .name := by
  intro ts d _
  have he : Ends .name (.var (.ofList n.chars.reverse.reverse) :: ts) d ⟨ts, .word n.chars.reverse, d⟩ := .name
  rw [List.reverse_reverse] at he
  refine ⟨⟨ts, .word n.chars.reverse, d⟩, ?_, he⟩
  rw [show normal [.name n] = n.chars from List.append_nil _, steps_name]

/-- An opening parenthesis that neither calls a function nor multiplies. -/
theorem step_openParen_of_ne (hts : ts.head? ≠ some .closeParen) :
    step known ⟨ts, .none, d⟩ '(' = .ok ⟨.openParen :: ts, .none, d + 1⟩ := by
  rw [step_openParen]
  match ts, hts with
  | [], _ => rfl
  | .closeParen :: _, hts => exact absurd rfl hts
  | .operand _ :: _, _ | .operator _ :: _, _ | .openParen :: _, _ | .separator :: _, _ | .unknown :: _, _ => rfl

/-- An opening parenthesis after the name of a function. -/
theorem step_openParen_call (f : Fn) : step Fn.all ⟨ts, .word (Name.ofFn f).chars.reverse, d⟩ '(' =
    .ok ⟨.openParen :: .function f :: ts, .none, d + 1⟩ := by
  have hf : Fn.ofName? Fn.all (.ofList (Name.ofFn f).chars.reverse.reverse) = some f := by
    rw [List.reverse_reverse]
    exact Name.ofName?_text_ofFn f
  rw [step_openParen]
  simp only [stepOpen, hf]

theorem Reads.group {ls : List Lexeme} {us : List Token} (h : Reads ls us k) :
    Reads (.openParen :: (ls ++ [.closeParen])) (.openParen :: (us ++ [.closeParen])) .group := by
  intro ts d hts
  refine ⟨⟨.closeParen :: (us.reverse ++ .openParen :: ts), .none, d⟩, ?_, by simpa using Ends.group⟩
  show steps Fn.all ⟨ts, .none, d⟩ ('(' :: normal (ls ++ [.closeParen])) = _
  rw [steps_cons_of_ok (step_openParen_of_ne hts), h.closed]

theorem Reads.call {ls : List Lexeme} {us : List Token} (h : Reads ls us k) (f : Fn) :
    Reads (.name (.ofFn f) :: .openParen :: (ls ++ [.closeParen]))
      (.function f :: .openParen :: (us ++ [.closeParen])) .call := by
  intro ts d _
  refine ⟨⟨.closeParen :: (us.reverse ++ .openParen :: .function f :: ts), .none, d⟩, ?_, by simpa using Ends.call⟩
  show steps Fn.all ⟨ts, .none, d⟩ ((Name.ofFn f).chars ++ '(' :: normal (ls ++ [.closeParen])) = _
  rw [steps_append_of_ok (steps_name _), steps_cons_of_ok (step_openParen_call f), h.closed]

theorem primary_begins (p : Primary k) : ∃ c cs, normal p.lexemes = c :: cs ∧ Begins k c := by
  cases p with
  | number l =>
    obtain ⟨c, cs, hl⟩ := List.exists_cons_of_ne_nil l.chars_ne_nil
    exact ⟨c, cs, by simp [normal, Primary.lexemes, Lexeme.normal, Lexeme.written, hl], trivial⟩
  | name n => exact ⟨n.head, n.tail ++ [], rfl, n.head_begins⟩
  | group c => exact ⟨'(', _, rfl, rfl⟩
  | call f c => exact ⟨(Name.ofFn f).head, _, rfl, (Name.ofFn f).head_begins⟩

theorem row_begins (r : Row k) : ∃ c cs, normal r.lexemes = c :: cs ∧ Begins k c := by
  cases r with
  | last p => exact primary_begins p
  | link p j r =>
    obtain ⟨c, cs, e, hb⟩ := primary_begins p
    exact ⟨c, cs ++ normal (j.lexemes ++ r.lexemes), by rw [Row.lexemes, normal_append, e]; rfl, hb⟩

/-- A joint and what follows it, after a primary. -/
theorem Ends.steps_joint {k'' : Shape} {ls : List Lexeme} {c : Infix.Chain} (h : Ends k ts d s) (j : Joint k k')
    (hb : ∃ c cs, normal ls = c :: cs ∧ Begins k' c) (hr : Reads ls c.tokens k'') :
    ∃ s', s.steps Fn.all (normal (j.lexemes ++ ls)) = .ok s' ∧
      Ends k'' ((Formula.negated j.signs c).tokens.reverse ++ .binary j.op :: ts) d s' := by
  -- an operator, and then signs
  have operator : ∀ op n, ∃ s', s.steps Fn.all (normal (.operator op :: (.replicate n .sign ++ ls))) = .ok s' ∧
      Ends k'' ((Formula.negated n c).tokens.reverse ++ .binary op :: ts) d s' := by
    intro op n
    obtain ⟨s', hs, he⟩ := hr.negated n (.binary op :: ts) d (by simp)
    refine ⟨s', ?_, he⟩
    show s.steps Fn.all (op.symbol :: normal (.replicate n .sign ++ ls)) = _
    rw [steps_cons_of_ok (h.step_symbol op), hs]
  cases j with
  | operator op signs => exact operator op signs
  | subtraction signs => exact operator .add (signs + 1)
  | omitted ho =>
    obtain ⟨x, cs, e, hx⟩ := hb
    obtain ⟨s', hs, he⟩ := hr (.binary .mul :: ts) d (by simp)
    refine ⟨s', ?_, he⟩
    show s.steps Fn.all (normal ls) = _
    rw [e, Scan.steps_cons, h.step_omitted ho hx, ← Scan.steps_cons, ← e, hs]

mutual

theorem primary_reads : ∀ {k : Shape} (p : Primary k), Reads p.lexemes p.expand.tokens k
  | _, .number l => reads_number l
  | _, .name n => reads_name n
  | _, .group c => by
    obtain ⟨k', hr⟩ := chain_reads c
    exact hr.group
  | _, .call f c => by
    obtain ⟨k', hr⟩ := chain_reads c
    exact hr.call f

theorem row_reads : ∀ {k : Shape} (r : Row k), ∃ k', Reads r.lexemes r.expand.tokens k'
  | k, .last p => ⟨k, primary_reads p⟩
  | _, .link p j r => by
    obtain ⟨k', hr⟩ := row_reads r
    refine ⟨k', fun ts d hts => ?_⟩
    obtain ⟨s, hs, he⟩ := primary_reads p ts d hts
    obtain ⟨s', hs', he'⟩ := he.steps_joint j (row_begins r) hr
    refine ⟨s', ?_, ?_⟩
    · rw [Row.lexemes, normal_append, steps_append_of_ok hs, hs']
    · simpa [Row.expand, Infix.Chain.tokens] using he'

theorem chain_reads : ∀ c : Chain, ∃ k, Reads c.lexemes c.expand.tokens k
  | .signed signs r => by
    obtain ⟨k, hr⟩ := row_reads r
    exact ⟨k, hr.negated signs⟩

end

end Formula

/-- The tokens of a text that writes a formula are those of its infix chain. -/
theorem tokenize_of_writes {c : Formula.Chain} {text : String} (h : Formula.Writes false c.lexemes text.toList) :
    tokenize text = .ok c.expand.tokens := by
  obtain ⟨k, hr⟩ := Formula.chain_reads c
  obtain ⟨s, hs, he⟩ := hr [] 0 (by simp)
  have hd : s.depth = 0 := (Scan.depth_of_flush he.flush).symm
  have hfin : s.finish = .ok c.expand.tokens := by
    simp [Scan.finish, hd, he.flush, Except.map]
  unfold tokenize tokenizeWith Scan.start
  rw [Formula.ofChars_writes h, hs]
  exact hfin

/-- An expression with the tokens of a chain has the value of its tree. -/
theorem evaluate_of_tokens {text : String} {c : Infix.Chain} (h : tokenize text = .ok c.tokens) (b : Bindings) :
    (evaluate text b).result = (c.tree.eval b).1.map some ∧ (evaluate text b).bindings = (c.tree.eval b).2 := by
  have hps : postfixOf text = .ok c.tree.postorder :=
    bind_ok h (toPostfix_of_chainEmits (Reordering.chain_emits c))
  obtain ⟨hresult, hbindings⟩ := evaluate_of_postfixOf hps b
  obtain ⟨hresult', hbindings'⟩ := evaluatePostfix_postorder c.tree b
  exact ⟨hresult.trans hresult', hbindings.trans hbindings'⟩

/-- **The value of a formula.** A text that writes a formula, with any blanks and products left out
where they may be, evaluates to the operand or the error of the tree of its infix chain, worked off
from left to right, and leaves the same bindings. -/
theorem evaluate_of_writes {c : Formula.Chain} {text : String} (h : Formula.Writes false c.lexemes text.toList)
    (b : Bindings) :
    (evaluate text b).result = (c.expand.tree.eval b).1.map some ∧
    (evaluate text b).bindings = (c.expand.tree.eval b).2 := by
  have hp : toPostfix c.expand.tokens = .ok c.expand.tree.postorder :=
    toPostfix_of_chainEmits (Reordering.chain_emits c.expand)
  unfold evaluate
  simp only [tokenize_of_writes h, hp]
  exact evaluatePostfix_postorder c.expand.tree b

/-- The formula of `-2pi - abs(x = .5)(4)`: two products without a sign, one of them negated. -/
def Formula.sample : Formula.Chain :=
  let two : Formula.Literal := ⟨['2'], none, rfl, rfl, rfl⟩
  let half : Formula.Literal := ⟨[], some ['5'], rfl, rfl, rfl⟩
  let four : Formula.Literal := ⟨['4'], none, rfl, rfl, rfl⟩
  let pi : Formula.Name := ⟨'p', ['i'], rfl, rfl⟩
  let x : Formula.Name := ⟨'x', [], rfl, rfl⟩
  .signed 1 <| .link (.number two) (.omitted .number_name) <| .link (.name pi) (.subtraction 0) <|
    .link (.call .abs (.signed 0 (.link (.name x) (.operator .assign 0) (.last (.number half)))))
      (.omitted .call_group) (.last (.group (.signed 0 (.last (.number four)))))

/-- The value of the sample, with blanks wherever they may stand. -/
theorem evaluate_of_writes_sample :
    Formula.Writes false Formula.sample.lexemes " - 2pi -abs ( x = .5 ) ( 4) ".toList ∧
    (evaluate " - 2pi -abs ( x = .5 ) ( 4) " .constants).result =
      (Formula.sample.expand.tree.eval .constants).1.map some ∧
    (evaluate " - 2pi -abs ( x = .5 ) ( 4) " .constants).bindings =
      (Formula.sample.expand.tree.eval .constants).2 := by
  have h : Formula.Writes false Formula.sample.lexemes " - 2pi -abs ( x = .5 ) ( 4) ".toList := by
    refine .next [' '] (by decide) (by simp [Formula.Lexeme.isWord]) ?_
    refine .next [' '] (by decide) (by simp [Formula.Lexeme.isWord]) ?_
    refine .next [] (by decide) (fun _ _ => rfl) ?_
    refine .next [' '] (by decide) (by simp [Formula.Lexeme.isWord]) ?_
    refine .next [] (by decide) (by simp [Formula.Lexeme.isWord]) ?_
    refine .next [' '] (by decide) (by simp [Formula.Lexeme.isWord]) ?_
    refine .next [' '] (by decide) (by simp [Formula.Lexeme.isWord]) ?_
    refine .next [' '] (by decide) (by simp [Formula.Lexeme.isWord]) ?_
    refine .next [' '] (by decide) (by simp [Formula.Lexeme.isWord]) ?_
    refine .next [' '] (by decide) (by simp [Formula.Lexeme.isWord]) ?_
    refine .next [' '] (by decide) (by simp [Formula.Lexeme.isWord]) ?_
    refine .next [' '] (by decide) (by simp [Formula.Lexeme.isWord]) ?_
    refine .next [] (by decide) (by simp [Formula.Lexeme.isWord]) ?_
    exact .done [' '] (by decide)
  exact ⟨h, evaluate_of_writes h .constants⟩

end Reckoner
