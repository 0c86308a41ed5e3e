import Reckoner.Proofs.Scan.Piece

/-!
# A scan reads pieces

A scan goes from piece to piece. After a piece it may still hold it back (`Scan.after`), and what it
does with the next one depends on the two pieces and the depth alone: it settles the tokens of the
first, or finds one of the faults that show between them (`Crosses`). `reads_cut` puts the crossings
of a text together.
-/

namespace Reckoner

open Formula (beginsName)
open Scan (isNameChar isNumberChar)

namespace Piece

/-- The tokens of the piece before, if there is one; they are settled by the next piece. -/
def owed (known : List Fn) (p next : Option Piece) : List Token := p.elim [] (tokens known next)

/-- How many parentheses are open after a piece, if it does not close one too many. -/
def depthAfter : (depth : Nat) → Piece → Option Nat
  | d, openParen => some (d + 1)
  | 0, closeParen => none
  | d + 1, closeParen => some d
  | d, _ => some d

/-- The faults that show between a piece and the next one, with `depth` parentheses open. -/
inductive FaultBetween (known : List Fn) : (depth : Nat) → (p next : Option Piece) → ExprError → Prop
  | number {d : Nat} {cs : List Char} {next : Option Piece} (unread : Decimal.readLiteral cs = none) :
    FaultBetween known d (some (number cs)) next (.malformedNumber (.ofList cs))
  | function {d : Nat} {cs : List Char} (unknown : Fn.ofName? known (.ofList cs) = none) :
    FaultBetween known d (some (word cs)) (some openParen) (.unrecognizedFunction (.ofList cs))
  | stray {d : Nat} {p : Option Piece} {c : Char} :
    FaultBetween known d p (some (stray c)) (.unrecognizedCharacter c)
  | closedEarly {p : Option Piece} : FaultBetween known 0 p (some closeParen) (.parentheses .closedEarly)
  | emptyPair {d : Nat} : FaultBetween known d (some openParen) (some closeParen) (.parentheses .emptyPair)
  | leftOpen {d : Nat} {p : Option Piece} : FaultBetween known (d + 1) p none (.parentheses .leftOpen)

/-- The faults of pieces after a piece. -/
inductive Faulty (known : List Fn) : (depth : Nat) → Option Piece → List Piece → ExprError → Prop
  | here {d : Nat} {p : Option Piece} {ps : List Piece} {e : ExprError} :
    FaultBetween known d p ps.head? e → Faulty known d p ps e
  | later {d d' : Nat} {p : Option Piece} {q : Piece} {ps : List Piece} {e : ExprError} :
    q.depthAfter d = some d' → Faulty known d' (some q) ps e → Faulty known d p (q :: ps) e

end Piece

namespace Scan

open Piece

/-- The scan after a piece, if one has been read: names and numbers are held back. -/
def after (ts : List Token) (d : Nat) : Option Piece → Scan
  | none | some .space | some (.stray _) => ⟨ts, .none, d⟩
  | some (.operator op) => ⟨.binary op :: ts, .none, d⟩
  | some .openParen => ⟨.openParen :: ts, .none, d⟩
  | some .closeParen => ⟨.closeParen :: ts, .none, d⟩
  | some .separator => ⟨.separator :: ts, .none, d⟩
  | some (.word cs) => ⟨ts, .word cs.reverse, d⟩
  | some (.number cs) => ⟨ts, .number cs.reverse, d⟩

/-- Can the text follow the piece? What has been read has ended, and no parenthesis follows a space. -/
def Follows (ts : List Token) (cs : List Char) : Option Piece → Prop
  | none => ts = []
  | some (.word _) => EndsBefore isNameChar cs
  | some (.number _) => EndsBefore isNumberChar cs
  | some .space => EndsBefore (fun c => c == '(' || c == ')') cs
  | some (.stray _) => False
  | _ => True

/-- A scan has gone on to the piece `q`, or it has found a fault before it. -/
inductive Crosses (known : List Fn) (ts : List Token) (d : Nat) (p : Option Piece) (q : Piece) :
    Except ExprError Scan → Prop
  | ok {d' : Nat} (depth : q.depthAfter d = some d') (clean : ∀ e, ¬ FaultBetween known d p (some q) e) :
    Crosses known ts d p q (.ok (after ((owed known p (some q)).reverse ++ ts) d' (some q)))
  | error {e : ExprError} (fault : FaultBetween known d p (some q) e) : Crosses known ts d p q (.error e)

variable {known : List Fn} {ts : List Token} {d : Nat} {p : Option Piece} {cs : List Char}

theorem Crosses.of_eq {q : Piece} {d' : Nat} {run : Except ExprError Scan} (depth : q.depthAfter d = some d')
    (e : run = .ok (after ((owed known p (some q)).reverse ++ ts) d' (some q)))
    (clean : ∀ e, ¬ FaultBetween known d p (some q) e) : Crosses known ts d p q run := by
  rw [e]
  exact .ok depth clean

theorem depth_after (ts : List Token) (d : Nat) (p : Option Piece) : (after ts d p).depth = d := by
  rcases p with _ | _ | _ | _ | _ | _ | _ | _ | _ <;> rfl

/-- Flushing settles the piece before, unless it is no number. -/
theorem flush_after (known : List Fn) (ts : List Token) (d : Nat) (p next : Option Piece)
    (hnext : next.any isFactor = false) :
    ((∀ cs, p = some (.number cs) → Decimal.readLiteral cs ≠ none) ∧
      (after ts d p).flush = .ok ⟨(owed known p next).reverse ++ ts, .none, d⟩) ∨
    ∃ cs, p = some (.number cs) ∧ Decimal.readLiteral cs = none ∧
      (after ts d p).flush = .error (.malformedNumber (.ofList cs)) := by
  have hopen : next ≠ some .openParen := by rintro rfl; exact absurd hnext (by decide)
  cases p with
  | none => exact Or.inl ⟨by simp, rfl⟩
  | some p =>
    cases p with
    | word cs => exact Or.inl ⟨by simp, by simp [after, flush, owed, Piece.tokens, hopen]⟩
    | number cs =>
      cases hx : Decimal.readLiteral cs with
      | none => exact Or.inr ⟨cs, rfl, hx, by simp [after, flush, numberToken, hx, Except.map]⟩
      | some x =>
        refine Or.inl ⟨by rintro cs' h; cases h; simp [hx], ?_⟩
        simp [after, flush, numberToken, hx, Except.map, owed, Piece.tokens, hnext, product]
    | closeParen => exact Or.inl ⟨by simp, by simp [after, flush, owed, Piece.tokens, product, hopen]⟩
    | operator op => exact Or.inl ⟨by simp, rfl⟩
    | openParen => exact Or.inl ⟨by simp, rfl⟩
    | separator => exact Or.inl ⟨by simp, rfl⟩
    | space => exact Or.inl ⟨by simp, rfl⟩
    | stray c => exact Or.inl ⟨by simp, rfl⟩

/-! ## Pieces of one character -/

/-- A piece that flushes and adds a token, where nothing but a number can be at fault. -/
theorem crosses_flush {q : Piece} {d' : Nat} {f : Scan → Scan} (hq : (some q).any isFactor = false)
    (hd : q.depthAfter d = some d') (hf : ∀ us, f ⟨us, .none, d⟩ = after us d' (some q))
    (hfault : ∀ e, FaultBetween known d p (some q) e → ∃ cs, p = some (.number cs) ∧ Decimal.readLiteral cs = none) :
    Crosses known ts d p q ((after ts d p).flush.map f) := by
  rcases flush_after known ts d p (some q) hq with ⟨hread, e⟩ | ⟨cs, rfl, hcs, e⟩
  · rw [e]
    show Crosses known ts d p q (.ok (f _))
    rw [hf]
    refine .ok hd fun e he => ?_
    obtain ⟨cs, hp, hcs⟩ := hfault e he
    exact hread cs hp hcs
  · rw [e]
    exact .error (.number hcs)

theorem crosses_operator (op : BinaryOp) :
    Crosses known ts d p (.operator op) ((after ts d p).step known op.symbol) := by
  rw [step_symbol]
  refine crosses_flush rfl rfl (fun us => rfl) fun e he => ?_
  cases he with
  | number h => exact ⟨_, rfl, h⟩

theorem crosses_separator : Crosses known ts d p .separator ((after ts d p).step known ',') := by
  rw [step_separator]
  refine crosses_flush rfl rfl (fun us => rfl) fun e he => ?_
  cases he with
  | number h => exact ⟨_, rfl, h⟩

theorem crosses_space : Crosses known ts d p .space ((after ts d p).step known ' ') := by
  have e : (after ts d p).flush = (after ts d p).flush.map id := by cases (after ts d p).flush <;> rfl
  rw [step_space, e]
  refine crosses_flush rfl rfl (fun us => rfl) fun e he => ?_
  cases he with
  | number h => exact ⟨_, rfl, h⟩

/-- A closing parenthesis finds nothing in its pair exactly after the opening one. -/
theorem empty_after (h : Follows ts (')' :: cs) p) :
    ((after ts d p).pending = .none ∧ (after ts d p).tokens.head? = some .openParen) ↔ p = some .openParen := by
  cases p with
  | none => cases h; simp [after]
  | some p =>
    cases p with
    | space => exact absurd (h ')' rfl) (by decide)
    | stray c => cases h
    | _ => simp [after]

theorem crosses_closeParen (h : Follows ts (')' :: cs) p) :
    Crosses known ts d p .closeParen ((after ts d p).step known ')') := by
  rw [step_closeParen, stepClose, depth_after]
  cases d with
  | zero => exact .error .closedEarly
  | succ d =>
    rw [if_neg (by omega)]
    by_cases hp : p = some .openParen
    · rw [if_pos ((empty_after h).2 hp), hp]
      exact .error .emptyPair
    · rw [if_neg (mt (empty_after h).1 hp)]
      refine crosses_flush rfl rfl (fun us => rfl) fun e he => ?_
      cases he with
      | number unread => exact ⟨_, rfl, unread⟩
      | emptyPair => exact absurd rfl hp

/-- A number is multiplied with the factor after it. -/
theorem crosses_factor {w : List Char} {q : Piece} {d' : Nat} {f : List Token → Scan} (hq : q.isFactor = true)
    (hd : q.depthAfter d = some d') (hf : ∀ us, f us = after us d' (some q)) :
    Crosses known ts d (some (.number w)) q ((numberToken w.reverse).map fun t => f (.binary .mul :: t :: ts)) := by
  unfold numberToken
  rw [List.reverse_reverse]
  cases hx : Decimal.readLiteral w with
  | none => exact .error (.number hx)
  | some x =>
    have e : .binary .mul :: .real x :: ts = (owed known (some (.number w)) (some q)).reverse ++ ts := by
      simp [owed, Piece.tokens, product, hx, hq]
    show Crosses known ts d (some (.number w)) q (.ok (f (.binary .mul :: .real x :: ts)))
    rw [hf, e]
    refine .ok hd fun e he => ?_
    cases he with
    | number unread => simp [hx] at unread
    | stray => cases hq
    | closedEarly => cases hq

/-- A name before an opening parenthesis is a function. -/
theorem crosses_call (w : List Char) :
    Crosses known ts d (some (.word w)) .openParen ((after ts d (some (.word w))).stepOpen known) := by
  cases hf : Fn.ofName? known (.ofList w) with
  | none =>
    have e : (after ts d (some (.word w))).stepOpen known = .error (.unrecognizedFunction (.ofList w)) := by
      simp [after, stepOpen, hf]
    rw [e]
    exact .error (.function hf)
  | some f =>
    have e : (after ts d (some (.word w))).stepOpen known =
        .ok (after ((owed known (some (.word w)) (some .openParen)).reverse ++ ts) (d + 1) (some .openParen)) := by
      simp [after, stepOpen, owed, Piece.tokens, hf]
    rw [e]
    refine .ok rfl fun e he => ?_
    cases he with
    | function unknown => simp [hf] at unknown

theorem crosses_openParen (h : Follows ts ('(' :: cs) p) :
    Crosses known ts d p .openParen ((after ts d p).step known '(') := by
  rw [step_openParen]
  cases p with
  | none => cases h; exact .of_eq rfl rfl fun e he => by cases he
  | some p =>
    cases p with
    | word w => exact crosses_call w
    | number w => exact crosses_factor rfl rfl fun us => rfl
    | space => exact absurd (h '(' rfl) (by decide)
    | stray c => cases h
    | _ => exact .of_eq rfl rfl fun e he => by cases he

theorem crosses_ofChar {c : Char} (hb : beginsName c = false) (hc : isNumberChar c = false)
    (h : Follows ts (c :: cs) p) : Crosses known ts d p (ofChar c) ((after ts d p).step known c) := by
  unfold ofChar
  split
  · rename_i op hop
    rw [BinaryOp.ofSymbol?_eq_some_iff.1 hop]
    exact crosses_operator op
  rename_i hop
  split
  · rename_i e; subst e; exact crosses_openParen h
  split
  · rename_i e; subst e; exact crosses_closeParen h
  split
  · rename_i e; subst e; exact crosses_separator
  split
  · rename_i e; subst e; exact crosses_space
  · rename_i h₁ h₂ h₃ h₄
    rw [step_of_neither hb hc, hop]
    simp only [h₁, h₂, h₃, h₄, if_false]
    exact .error .stray

/-! ## Names and numbers -/

theorem crosses_word_first {c : Char} (hc : beginsName c = true) (h : Follows ts (c :: cs) p) :
    Crosses known ts d p (.word [c]) ((after ts d p).step known c) := by
  rw [step_of_beginsName hc]
  cases p with
  | none => exact .of_eq rfl rfl fun e he => by cases he
  | some p =>
    cases p with
    | word w =>
      have hn : isNameChar c = false := h c rfl
      rw [isNameChar_of_beginsName hc] at hn
      cases hn
    | number w => exact crosses_factor rfl rfl fun us => rfl
    | stray c => cases h
    | _ => exact .of_eq rfl rfl fun e he => by cases he

theorem crosses_number_first {c : Char} (hc : isNumberChar c = true) (h : Follows ts (c :: cs) p) :
    Crosses known ts d p (.number [c]) ((after ts d p).step known c) := by
  have hs : ∀ w, (after ts d p).pending = .word w → isNameChar c = false := by
    intro w hw
    cases p with
    | none => cases hw
    | some p =>
      cases p with
      | word w => exact h c rfl
      | _ => cases hw
  rw [step_of_isNumberChar hc hs]
  cases p with
  | none => exact .of_eq rfl rfl fun e he => by cases he
  | some p =>
    cases p with
    | number w =>
      have hn : isNumberChar c = false := h c rfl
      rw [hc] at hn
      cases hn
    | word w =>
      have e : (after ts d (some (.word w))).stepNumber c =
          after ((owed known (some (.word w)) (some (.number [c]))).reverse ++ ts) d (some (.number [c])) := by
        simp [after, stepNumber, owed, Piece.tokens]
      rw [e]
      exact .of_eq rfl rfl fun e he => by cases he
    | stray c => cases h
    | _ => exact .of_eq rfl rfl fun e he => by cases he

/-- A piece that goes on crosses like its beginning. -/
theorem Crosses.extend {q q' : Piece} {w : List Char} {run : Except ExprError Scan} (h : Crosses known ts d p q run)
    (hdepth : q'.depthAfter d = q.depthAfter d) (howed : owed known p (some q') = owed known p (some q))
    (hfault : ∀ e, FaultBetween known d p (some q') e ↔ FaultBetween known d p (some q) e)
    (hsteps : ∀ us e, (after us e (some q)).steps known w = .ok (after us e (some q'))) :
    Crosses known ts d p q' (run >>= (·.steps known w)) := by
  cases h with
  | ok depth clean =>
    refine .of_eq (hdepth.trans depth) ?_ fun e he => clean e ((hfault e).1 he)
    rw [howed]
    exact hsteps _ _
  | error fault => exact .error ((hfault _).2 fault)

/-- Before a name or a number nothing but a number can be at fault. -/
theorem faultBetween_iff {q : Piece} {e : ExprError} (hq : ∃ w, q = .word w ∨ q = .number w) :
    FaultBetween known d p (some q) e ↔
      ∃ cs, p = some (.number cs) ∧ Decimal.readLiteral cs = none ∧ e = .malformedNumber (.ofList cs) := by
  constructor
  · intro h
    obtain ⟨w, rfl | rfl⟩ := hq <;> cases h with
    | number unread => exact ⟨_, rfl, unread, rfl⟩
  · rintro ⟨cs, rfl, unread, rfl⟩
    exact .number unread

theorem Crosses.word {c : Char} {w : List Char} {run : Except ExprError Scan} (h : Crosses known ts d p (.word [c]) run)
    (hw : ∀ e ∈ w, isNameChar e = true) : Crosses known ts d p (.word (c :: w)) (run >>= (·.steps known w)) := by
  refine h.extend rfl ?_ (fun e => ?_) fun us e => ?_
  · rcases p with _ | _ | _ | _ | _ | _ | _ | _ | _ <;> rfl
  · rw [faultBetween_iff ⟨_, Or.inl rfl⟩, faultBetween_iff ⟨_, Or.inl rfl⟩]
  · show steps known ⟨us, .word [c], e⟩ w = _
    rw [steps_word hw]
    simp [after]

theorem Crosses.number {c : Char} {w : List Char} {run : Except ExprError Scan}
    (h : Crosses known ts d p (.number [c]) run) (hw : ∀ e ∈ w, isNumberChar e = true) :
    Crosses known ts d p (.number (c :: w)) (run >>= (·.steps known w)) := by
  refine h.extend rfl ?_ (fun e => ?_) fun us e => ?_
  · rcases p with _ | _ | _ | _ | _ | _ | _ | _ | _ <;> rfl
  · rw [faultBetween_iff ⟨_, Or.inr rfl⟩, faultBetween_iff ⟨_, Or.inr rfl⟩]
  · show steps known ⟨us, .number [c], e⟩ w = _
    rw [steps_number hw]
    simp [after]

/-! ## The whole text -/

/-- A scan after a piece has come to the end of the text with the tokens of all pieces, or has found
one of their faults. -/
inductive Reads (known : List Fn) (ts : List Token) (d : Nat) (p : Option Piece) (ps : List Piece) :
    Except ExprError (List Token) → Prop
  | ok (clean : ∀ e, ¬ Faulty known d p ps e) :
    Reads known ts d p ps (.ok (ts.reverse ++ (owed known p ps.head? ++ tokensOf known ps)))
  | error {e : ExprError} (fault : Faulty known d p ps e) : Reads known ts d p ps (.error e)

theorem reads_end (known : List Fn) (ts : List Token) (d : Nat) (p : Option Piece) :
    Reads known ts d p [] (after ts d p).finish := by
  rw [finish, depth_after]
  cases d with
  | succ d => exact .error (.here .leftOpen)
  | zero =>
    rw [if_pos rfl]
    rcases flush_after known ts 0 p none rfl with ⟨hread, e⟩ | ⟨cs, rfl, hcs, e⟩
    · have e' : ((after ts 0 p).flush.map (·.tokens.reverse)) =
          .ok (ts.reverse ++ (owed known p none ++ tokensOf known [])) := by
        rw [e]
        simp [Except.map, tokensOf]
      rw [e']
      refine .ok fun e he => ?_
      cases he with
      | here h =>
        cases h with
        | number unread => exact hread _ rfl unread
    · rw [e]
      exact .error (.here (.number hcs))

theorem Crosses.reads {q : Piece} {ps : List Piece} {run : Except ExprError Scan} {k : Scan → Except ExprError (List Token)}
    (h : Crosses known ts d p q run)
    (hk : ∀ us d', (∀ e, ¬ FaultBetween known d p (some q) e) → Reads known us d' (some q) ps (k (after us d' (some q)))) :
    Reads known ts d p (q :: ps) (run >>= k) := by
  cases h with
  | @ok d' depth clean =>
    have hr := hk ((owed known p (some q)).reverse ++ ts) d' clean
    show Reads known ts d p (q :: ps) (k _)
    generalize k _ = r at hr
    cases hr with
    | ok clean' =>
      have e : ((owed known p (some q)).reverse ++ ts).reverse ++ (owed known (some q) ps.head? ++ tokensOf known ps) =
          ts.reverse ++ (owed known p (some q) ++ tokensOf known (q :: ps)) := by
        simp [tokensOf, owed]
      rw [e]
      refine .ok fun e he => ?_
      cases he with
      | here h => exact clean e h
      | later hd h =>
        rw [depth] at hd
        cases hd
        exact clean' e h
    | error fault => exact .error (.later depth fault)
  | error fault => exact .error (.here fault)

/-- The run over a piece, and then over the rest. -/
theorem steps_bind (known : List Fn) (s : Scan) (c : Char) (w rest : List Char) {β : Type} (k : Scan → Except ExprError β) :
    s.steps known (c :: (w ++ rest)) >>= k =
      (s.step known c >>= (·.steps known w)) >>= fun s => s.steps known rest >>= k := by
  simp only [steps_cons, steps_append, bind_assoc]

/-- No parenthesis follows a space. -/
def Unparted (cs : List Char) : Prop := ∀ c, [' ', c] <:+: cs → c ≠ '(' ∧ c ≠ ')'

theorem Unparted.of_suffix {ds : List Char} (h : Unparted cs) (hs : ds <:+ cs) : Unparted ds :=
  fun c hc => h c (hc.trans hs.isInfix)

theorem follows_ofChar {c : Char} (hs : Unparted (c :: cs)) (clean : ∀ e, ¬ FaultBetween known d p (some (ofChar c)) e) :
    Follows ts cs (some (ofChar c)) := by
  cases hq : ofChar c with
  | space =>
    have hc : c = ' ' := by
      have := chars_ofChar c
      rw [hq] at this
      simpa [chars] using this.symm
    subst hc
    intro e he
    obtain ⟨cs', rfl⟩ := List.head?_eq_some_iff.1 he
    obtain ⟨h₁, h₂⟩ := hs e ⟨[], cs', rfl⟩
    simp [h₁, h₂]
  | stray e =>
    rw [hq] at clean
    exact absurd .stray (clean _)
  | word w => exact absurd hq (ofChar_ne_word c w)
  | number w => exact absurd hq (ofChar_ne_number c w)
  | _ => trivial

/-- A scan of text reads its pieces. -/
theorem reads_cut (hs : Unparted cs) (h : Follows ts cs p) :
    Reads known ts d p (cut cs) ((after ts d p).steps known cs >>= finish) := by
  fun_induction cut cs generalizing ts d p with
  | case1 => exact reads_end known ts d p
  | case2 c cs hc ih =>
    have hsuffix : cs.dropWhile isNameChar <:+ c :: cs := (List.dropWhile_suffix _).trans (List.suffix_cons c cs)
    have e := steps_bind known (after ts d p) c (cs.takeWhile isNameChar) (cs.dropWhile isNameChar) finish
    rw [List.takeWhile_append_dropWhile] at e
    rw [e]
    exact ((crosses_word_first hc h).word fun e he => List.all_eq_true.1 List.all_takeWhile e he).reads fun us d' _ =>
      ih (hs.of_suffix hsuffix) (endsBefore_dropWhile isNameChar cs)
  | case3 c cs hb hc ih =>
    have hsuffix : cs.dropWhile isNumberChar <:+ c :: cs := (List.dropWhile_suffix _).trans (List.suffix_cons c cs)
    have e := steps_bind known (after ts d p) c (cs.takeWhile isNumberChar) (cs.dropWhile isNumberChar) finish
    rw [List.takeWhile_append_dropWhile] at e
    rw [e]
    exact ((crosses_number_first hc h).number fun e he => List.all_eq_true.1 List.all_takeWhile e he).reads fun us d' _ =>
      ih (hs.of_suffix hsuffix) (endsBefore_dropWhile isNumberChar cs)
  | case4 c cs hb hc ih =>
    rw [Bool.not_eq_true] at hb hc
    rw [steps_cons, bind_assoc]
    exact (crosses_ofChar hb hc h).reads fun us d' clean =>
      ih (hs.of_suffix (List.suffix_cons c cs)) (follows_ofChar hs clean)

end Scan
end Reckoner
