import Reckoner.Proofs.Scan.WellFormed

/-!
# Writing tokens

Well-formed tokens can be written so that reading gives them back: a minus sign for a product with
minus one, any literal of its value for a number, and for every other token its name or symbol. One
space parts an operand from an operand or a function after it; nothing else is put between.
-/

namespace Reckoner

def Token.isWord : Token → Bool
  | .operand _ | .operator (.function _) => true
  | _ => false

/-- The texts that write a token by itself. -/
inductive Token.Writes : Token → List Char → Prop
  | number (l : Formula.Literal) : Writes (.real l.value) l.chars
  | name (name : String) : Writes (.var name) name.toList
  | function (f : Fn) : Writes (.function f) f.name.toList
  | binary (op : BinaryOp) : Writes (.binary op) [op.symbol]
  | openParen : Writes .openParen ['(']
  | closeParen : Writes .closeParen [')']
  | separator : Writes .separator [',']

/-- What stands between a token and the one after it. -/
def Token.gap (before : Option Token) (t : Token) : List Char :=
  if before.any Token.isOperand && t.isWord then [' '] else []

/-- The texts that write tokens after the token `before`. -/
inductive Spells : Option Token → List Token → List Char → Prop
  | done {before : Option Token} : Spells before [] []
  | sign {before : Option Token} {ts : List Token} {cs : List Char} (rest : Spells (some (.binary .mul)) ts cs) :
      Spells before (.real (.one true) :: .binary .mul :: ts) ('-' :: cs)
  | token {before : Option Token} {t : Token} {ts : List Token} {w cs : List Char} (text : t.Writes w)
      (rest : Spells (some t) ts cs) : Spells before (t :: ts) (t.gap before ++ (w ++ cs))

namespace Scan

open Infix (Adjoins atOperand depthAfter)
open Formula (Name isWordChar)
open NormalText (squeezeFrom dropPlus expandMinus)

variable {t : Token} {w : List Char} {before : Option Token}

theorem gap_of_symbol (hword : t.isWord = false) : t.gap before = [] := by
  rw [Token.gap, hword, Bool.and_false]
  rfl

/-! ## The normal text -/

/-- Operands and functions are written with the characters of words. -/
theorem word_of_writes (h : t.Writes w) (ht : t.IsWritten) (hword : t.isWord = true) :
    w ≠ [] ∧ ∀ c ∈ w, isWordChar c = true := by
  cases h with
  | number l => exact ⟨l.chars_ne_nil, fun _ => l.isWordChar_of_mem⟩
  | name name =>
    obtain ⟨n, rfl⟩ := ht
    rw [Name.text, String.toList_ofList]
    exact ⟨List.cons_ne_nil _ _, fun _ => n.isWordChar_of_mem⟩
  | function f =>
    rw [← Name.text_ofFn, Name.text, String.toList_ofList]
    exact ⟨List.cons_ne_nil _ _, fun _ => (Name.ofFn f).isWordChar_of_mem⟩
  | _ => cases hword

/-- Every other token is written with one symbol, which says whether an operand starts after it. -/
theorem symbol_of_writes (h : t.Writes w) (hword : t.isWord = false) :
    ∃ c, w = [c] ∧ Text.isBlank c = false ∧ NormalText.joins c = false ∧ c ≠ '-' ∧
      NormalText.opensOperand c = t.opensOperand ∧ (c = '+' → t = .binary .add) := by
  cases h with
  | number l => cases hword
  | name name => cases hword
  | function f => cases hword
  | binary op =>
    refine ⟨_, rfl, ?_⟩
    cases op <;> decide
  | openParen => exact ⟨_, rfl, by decide⟩
  | closeParen => exact ⟨_, rfl, by decide⟩
  | separator => exact ⟨_, rfl, by decide⟩

/-- A space between two words stays. -/
theorem squeezeFrom_word_parted (hne : w ≠ []) (hw : ∀ c ∈ w, isWordChar c = true) (cs : List Char) :
    squeezeFrom true false (' ' :: (w ++ cs)) = ' ' :: (w ++ squeezeFrom true false cs) := by
  obtain ⟨c, w, rfl⟩ := List.exists_cons_of_ne_nil hne
  have hc := hw c (by simp)
  rw [List.cons_append, NormalText.squeezeFrom_space (Formula.joins_of_isWordChar hc),
    Formula.squeezeFrom_word fun d hd => hw d (by simp [hd]), List.cons_append]

/-- Written tokens have no blanks to be dropped. -/
theorem squeezeFrom_spells {ts : List Token} {cs : List Char} (h : Spells before ts cs)
    (hts : ∀ t ∈ ts, t.IsWritten) : squeezeFrom (before.any Token.isWord) false cs = cs := by
  induction h with
  | done => rfl
  | sign rest ih =>
    have hrest := ih fun t ht => hts t (List.mem_cons_of_mem _ (List.mem_cons_of_mem _ ht))
    rw [NormalText.squeezeFrom_symbol (by decide) (by decide)]
    exact congrArg _ hrest
  | @token before t ts w cs text rest ih =>
    obtain ⟨ht, hts⟩ := List.forall_mem_cons.1 hts
    have hrest : squeezeFrom t.isWord false cs = cs := ih hts
    cases hword : t.isWord with
    | true =>
      obtain ⟨hne, hw⟩ := word_of_writes text ht hword
      rw [hword] at hrest
      cases hb : before.any Token.isOperand with
      | true =>
        have hb' : before.any Token.isWord = true := by
          rcases before with _ | _ | _ <;> first | rfl | cases hb
        rw [Token.gap, hb, hb', hword]
        show squeezeFrom true false (' ' :: (w ++ cs)) = _
        rw [squeezeFrom_word_parted hne hw, hrest]
        rfl
      | false =>
        rw [Token.gap, hb, Bool.false_and, if_neg Bool.false_ne_true, List.nil_append,
          Formula.squeezeFrom_word_first hne hw fun _ => rfl, hrest]
    | false =>
      obtain ⟨c, rfl, hblank, hjoins, -⟩ := symbol_of_writes text hword
      rw [hword] at hrest
      rw [gap_of_symbol hword, List.nil_append, List.singleton_append, NormalText.squeezeFrom_symbol hblank hjoins, hrest]

/-- A token is kept by the passes over signs where it may stand. -/
theorem dropPlus_token (h : t.Writes w) (ht : t.IsWritten) (ha : Adjoins before (some t)) (cs : List Char) :
    dropPlus (atOperand before) (expandMinus (t.gap before ++ (w ++ cs))) =
      t.gap before ++ (w ++ dropPlus t.opensOperand (expandMinus cs)) := by
  cases hword : t.isWord with
  | true =>
    obtain ⟨hne, hw⟩ := word_of_writes h ht hword
    have hopens : t.opensOperand = false := by
      rcases t with _ | (_ | _) | _ | _ | _ | _ <;> first | rfl | cases hword
    rw [NormalText.expandMinus_append, NormalText.expandMinus_append, Formula.expandMinus_word hw, hopens]
    unfold Token.gap
    split
    · show dropPlus _ (' ' :: (w ++ _)) = _
      rw [NormalText.dropPlus_of_ne (by decide), Formula.dropPlus_word hne hw]
      rfl
    · exact Formula.dropPlus_word hne hw ..
  | false =>
    obtain ⟨c, rfl, -, -, hminus, hopens, hplus⟩ := symbol_of_writes h hword
    have hkept : (atOperand before && c == '+') = false := by
      rw [Bool.and_eq_false_iff, beq_eq_false_iff_ne]
      by_cases hc : c = '+'
      · exact Or.inl (ha.plus (congrArg some (hplus hc)))
      · exact Or.inr hc
    rw [gap_of_symbol hword, List.nil_append, List.nil_append, List.singleton_append, List.singleton_append,
      NormalText.expandMinus_of_ne hminus, NormalText.dropPlus_cons, hkept, hopens]
    rfl

/-! ## The scan -/

/-- A scan that carries tokens, the most recent first, though it may still hold the last one back. -/
inductive Carries : List Token → Nat → Scan → Prop
  | opening {ts : List Token} {d : Nat} (starts : atOperand ts.head? = true) : Carries ts d ⟨ts, .none, d⟩
  | ended {k : Formula.Shape} {ts : List Token} {d : Nat} {s : Scan} (h : Formula.Ends k ts d s) : Carries ts d s
  | function {ts : List Token} {d : Nat} (f : Fn) :
      Carries (.function f :: ts) d ⟨ts, .word (Name.ofFn f).chars.reverse, d⟩

variable {acc : List Token} {d : Nat} {s : Scan}

/-- An operand has ended after a primary. -/
theorem ended_of_ends {k : Formula.Shape} (h : Formula.Ends k acc d s) :
    atOperand acc.head? = false ∧ ∀ f, acc.head? ≠ some (.function f) := by
  cases h with
  | number ht =>
    obtain ⟨x, -, rfl⟩ := numberToken_eq_ok ht
    exact ⟨rfl, nofun⟩
  | _ => exact ⟨rfl, nofun⟩

/-- Nothing is held back where an operand starts. -/
theorem Carries.eq_of_atOperand (h : Carries acc d s) (hacc : atOperand acc.head? = true) : s = ⟨acc, .none, d⟩ := by
  cases h with
  | opening starts => rfl
  | ended h => exact absurd ((ended_of_ends h).1.symm.trans hacc) Bool.false_ne_true
  | function f => cases hacc

/-- All but a function can be flushed. -/
theorem Carries.flush (h : Carries acc d s) (hf : ∀ f, acc.head? ≠ some (.function f)) :
    s.flush = .ok ⟨acc, .none, d⟩ := by
  cases h with
  | opening starts => rfl
  | ended h => exact h.flush
  | function f => exact absurd rfl (hf f)

/-- The space before a word flushes what is held back. -/
theorem Carries.gap (h : Carries acc d s) (ha : Adjoins acc.head? (some t)) (hword : t.isWord = true) :
    s.steps Fn.all (t.gap acc.head?) = .ok ⟨acc, .none, d⟩ := by
  have hf : ∀ f, acc.head? ≠ some (.function f) := by
    intro f e
    cases ha.called f e
    cases hword
  cases hx : acc.head?.any Token.isOperand with
  | true =>
    rw [Token.gap, hx, hword]
    show s.steps Fn.all [' '] = _
    rw [steps_singleton, step_space, h.flush hf]
  | false =>
    rw [Token.gap, hx, Bool.false_and, if_neg Bool.false_ne_true, steps_nil]
    cases h with
    | opening starts => rfl
    | ended h =>
      cases h with
      | number ht =>
        obtain ⟨x, -, rfl⟩ := numberToken_eq_ok ht
        cases hx
      | name => cases hx
      | group => rfl
      | call => rfl
    | function f => exact absurd rfl (hf f)

/-- An opening parenthesis at the start of an operand or after a function. -/
theorem Carries.openParen (h : Carries acc d s) (ha : Adjoins acc.head? (some .openParen)) :
    s.step Fn.all '(' = .ok ⟨.openParen :: acc, .none, d + 1⟩ := by
  cases h with
  | opening starts => exact Formula.step_openParen_of_ne (fun e => by rw [e] at starts; cases starts)
  | ended h =>
    rcases ha.opens rfl with hstarts | ⟨f, hf⟩
    · exact absurd ((ended_of_ends h).1.symm.trans hstarts) Bool.false_ne_true
    · exact absurd hf ((ended_of_ends h).2 f)
  | function f => exact Formula.step_openParen_call f

/-- A closing parenthesis, if one is open and not empty. -/
theorem Carries.closeParen (h : Carries acc (d + 1) s) (ha : Adjoins acc.head? (some .closeParen)) :
    s.step Fn.all ')' = .ok ⟨.closeParen :: acc, .none, d⟩ := by
  have hflush := h.flush fun f hf => by cases ha.called f hf
  have hdepth : s.depth ≠ 0 := by
    have : s.depth = d + 1 := (depth_of_flush hflush).symm
    omega
  have hfull : ¬ (s.pending = .none ∧ s.tokens.head? = some .openParen) := by
    rintro ⟨hp, ho⟩
    have e : s.flush = .ok s := by unfold Scan.flush; rw [hp]
    rw [e] at hflush
    cases hflush
    exact ha.filled ho rfl
  rw [step_closeParen, stepClose, if_neg hdepth, if_neg hfull, hflush]
  rfl

/-- The text of a token adds it to the tokens that a scan carries. -/
theorem Carries.token {d' : Nat} (h : Carries acc d s) (text : t.Writes w) (ht : t.IsWritten)
    (ha : Adjoins acc.head? (some t)) (hd : depthAfter d [t] = some d') :
    ∃ s', s.steps Fn.all (t.gap acc.head? ++ w) = .ok s' ∧ Carries (t :: acc) d' s' := by
  have hf : t ≠ .openParen → ∀ f, acc.head? ≠ some (.function f) := fun ht f hf => ht (Option.some.inj (ha.called f hf))
  have hsame : t ≠ .openParen → t ≠ .closeParen → d = d' := fun ho hc =>
    Option.some.inj ((Infix.depthAfter_cons_of_ne ho hc d []).symm.trans hd)
  cases text with
  | number l =>
    obtain rfl := hsame (by simp) (by simp)
    refine ⟨_, ?_, .ended (.number l.numberToken_chars)⟩
    rw [steps_append_of_ok (h.gap ha rfl), Formula.steps_literal]
  | name name =>
    obtain rfl := hsame (by simp) (by simp)
    obtain ⟨n, rfl⟩ := ht
    have hend : Formula.Ends .name (.var (.ofList n.chars.reverse.reverse) :: acc) d
        ⟨acc, .word n.chars.reverse, d⟩ := .name
    rw [List.reverse_reverse] at hend
    refine ⟨_, ?_, .ended hend⟩
    rw [steps_append_of_ok (h.gap ha rfl), Name.text, String.toList_ofList, Formula.steps_name]
  | function f =>
    obtain rfl := hsame (by simp) (by simp)
    refine ⟨_, ?_, .function f⟩
    rw [steps_append_of_ok (h.gap ha rfl), ← Name.text_ofFn, Name.text, String.toList_ofList, Formula.steps_name]
  | binary op =>
    obtain rfl := hsame (by simp) (by simp)
    refine ⟨⟨.binary op :: acc, .none, d⟩, ?_, .opening rfl⟩
    rw [gap_of_symbol rfl, List.nil_append, steps_singleton, step_symbol, h.flush (hf (by simp))]
    rfl
  | openParen =>
    obtain rfl : d + 1 = d' := by cases d <;> exact Option.some.inj hd
    refine ⟨_, ?_, .opening rfl⟩
    rw [gap_of_symbol rfl, List.nil_append, steps_singleton, h.openParen ha]
  | closeParen =>
    obtain ⟨d, rfl⟩ : ∃ e, d = e + 1 := Nat.exists_eq_succ_of_ne_zero (by rintro rfl; cases hd)
    obtain rfl : d = d' := Option.some.inj hd
    refine ⟨_, ?_, .ended .group⟩
    rw [gap_of_symbol rfl, List.nil_append, steps_singleton, h.closeParen ha]
  | separator =>
    obtain rfl := hsame (by simp) (by simp)
    refine ⟨⟨.separator :: acc, .none, d⟩, ?_, .opening rfl⟩
    rw [gap_of_symbol rfl, List.nil_append, steps_singleton, step_separator, h.flush (hf (by simp))]
    rfl

/-- The text of tokens adds them to the tokens that a scan carries. -/
theorem Carries.spells {ts : List Token} {cs : List Char} {d' : Nat} (h : Carries acc d s) (hs : Spells acc.head? ts cs)
    (ha : ∀ l r, acc.reverse ++ ts = l ++ r → Adjoins l.getLast? r.head?) (ht : ∀ t ∈ ts, t.IsWritten)
    (hd : depthAfter d ts = some d') :
    ∃ s', s.steps Fn.all (dropPlus (atOperand acc.head?) (expandMinus cs)) = .ok s' ∧ Carries (ts.reverse ++ acc) d' s' := by
  generalize hb : acc.head? = before at hs
  induction hs generalizing acc d s with
  | done => exact ⟨s, rfl, by cases hd; exact h⟩
  | @sign before ts cs rest ih =>
    have hstarts : atOperand before = true := by
      have := (ha acc.reverse _ rfl).sign rfl
      rwa [List.getLast?_reverse, hb] at this
    obtain rfl := h.eq_of_atOperand (hb ▸ hstarts)
    have hrest : depthAfter d ts = some d' := by cases d <;> exact hd
    have ht' : ∀ t ∈ ts, t.IsWritten := fun t ht' => ht t (List.mem_cons_of_mem _ (List.mem_cons_of_mem _ ht'))
    have hopen : Carries (.binary .mul :: .real (.one true) :: acc) d
        ⟨.binary .mul :: .real (.one true) :: acc, .none, d⟩ := .opening rfl
    obtain ⟨s', hs', hc⟩ := ih hopen (fun l r e => ha l r (by simpa using e)) ht' hrest rfl
    refine ⟨s', ?_, by simpa using hc⟩
    rw [hstarts]
    show Scan.steps Fn.all _ (['-', '1', '*'] ++ dropPlus true (expandMinus cs)) = _
    rw [steps_append_of_ok Formula.steps_sign]
    exact hs'
  | @token before t ts w cs text rest ih =>
    obtain ⟨htw, ht⟩ := List.forall_mem_cons.1 ht
    have hadj : Adjoins acc.head? (some t) := by
      have := ha acc.reverse _ rfl
      rwa [List.getLast?_reverse] at this
    rw [Infix.depthAfter_cons] at hd
    obtain ⟨d₁, hd₁, hd⟩ := Option.bind_eq_some_iff.1 hd
    obtain ⟨s₁, hs₁, h₁⟩ := h.token text htw hadj hd₁
    obtain ⟨s', hs', hc⟩ := ih h₁ (fun l r e => ha l r (by simpa using e)) ht hd rfl
    refine ⟨s', ?_, by simpa using hc⟩
    rw [← hb, dropPlus_token text htw hadj, ← List.append_assoc, steps_append_of_ok hs₁]
    exact hs'

end Scan

open Infix (WellFormed balanced_iff)

/-- **Reading gives back what was written.** Whatever literals are chosen for the numbers of
well-formed tokens, the text that writes them has these tokens. -/
theorem tokenize_of_spells {ts : List Token} {text : String} (hw : WellFormed ts) (h : Spells none ts text.toList) :
    tokenize text = .ok ts := by
  have hnormal : NormalText.ofChars text.toList = NormalText.dropPlus true (NormalText.expandMinus text.toList) := by
    rw [NormalText.ofChars, NormalText.squeeze]
    exact congrArg _ (congrArg _ (Scan.squeezeFrom_spells h hw.written))
  have hstart : Scan.Carries [] 0 .start := .opening rfl
  obtain ⟨s, hs, hc⟩ := hstart.spells h hw.adjoins hw.written (balanced_iff.1 hw.balanced)
  have hlast : ∀ f, ts.getLast? ≠ some (.function f) := by
    intro f hf
    cases (hw.adjoins ts [] (List.append_nil ts).symm).called f hf
  rw [List.append_nil] at hc
  have hflush := hc.flush (by simpa using hlast)
  have hdepth : s.depth = 0 := (Scan.depth_of_flush hflush).symm
  have hfinish : s.finish = .ok ts := by simp [Scan.finish, hdepth, hflush, Except.map]
  unfold tokenize tokenizeWith
  rw [hnormal]
  exact bind_ok hs hfinish

/-- Two products with minus one, words beside each other, and literals that are not the shortest. -/
theorem tokenize_of_spells_sample :
    let ts : List Token := [.real (.one true), .binary .mul, .real (.ofBits 0x3fe0000000000000), .var "x",
      .binary .assign, .openParen, .separator, .real (.one true), .binary .mul, .function .sin, .openParen,
      .real (.ofBits 0x4008000000000000), .closeParen, .function .exp, .openParen, .var "e", .closeParen, .closeParen,
      .binary .pow]
    WellFormed ts ∧ Spells none ts "-.50 x=(,-sin(03.)exp(e))^".toList ∧
      tokenize "-.50 x=(,-sin(03.)exp(e))^" = .ok ts := by
  intro ts
  have hread : tokenizeWith Fn.all " - 0.5 x = ( , -sin(3) exp( +e))^" = .ok ts := rfl
  have hw : WellFormed ts := (whole_of_tokenizeWith hread).wellFormed rfl
  have half : Token.Writes (.real (.ofBits 0x3fe0000000000000)) ['.', '5', '0'] :=
    .number ⟨[], some ['5', '0'], rfl, rfl, rfl⟩
  have three : Token.Writes (.real (.ofBits 0x4008000000000000)) ['0', '3', '.'] :=
    .number ⟨['0', '3'], some [], rfl, rfl, rfl⟩
  have h : Spells none ts "-.50 x=(,-sin(03.)exp(e))^".toList := by
    refine .sign (.token half (.token (.name "x") (.token (.binary .assign) (.token .openParen ?_))))
    refine .token .separator (.sign (.token (.function .sin) (.token .openParen (.token three ?_))))
    refine .token .closeParen (.token (.function .exp) (.token .openParen (.token (.name "e") ?_)))
    exact .token .closeParen (.token .closeParen (.token (.binary .pow) .done))
  exact ⟨hw, h, tokenize_of_spells hw h⟩

end Reckoner
