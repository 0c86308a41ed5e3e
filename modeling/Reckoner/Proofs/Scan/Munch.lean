import Reckoner.Proofs.Formula.Literal
import Reckoner.Proofs.NormalText
import Reckoner.Proofs.Scan.Crossing

/-!
# Reading is cutting

What a scan reads from normal text are the tokens of its pieces, and it fails exactly if one of the
six conditions of `Fault` is violated. The faults that a scan finds from piece to piece are faults of
the whole text (`Faulty.fault`), and text in which it finds none has none (`not_fault_of_clean`).
-/

namespace Reckoner

open Formula (beginsName)
open Scan (isNameChar isNumberChar)

namespace Piece

/-! ## What a cut makes -/

/-- The characters that a piece of a cut may have. -/
def WellCut : Piece → Prop
  | word cs => ∃ c w, cs = c :: w ∧ beginsName c = true ∧ ∀ e ∈ w, isNameChar e = true
  | number cs => ∀ e ∈ cs, isNumberChar e = true
  | stray c => ofChar c = stray c
  | _ => True

theorem wellCut_ofChar (c : Char) : (ofChar c).WellCut := by
  cases h : ofChar c with
  | stray e =>
    have hc := chars_ofChar c
    rw [h] at hc
    obtain rfl : e = c := by simpa [chars] using hc
    exact h
  | word w => exact absurd h (ofChar_ne_word c w)
  | number w => exact absurd h (ofChar_ne_number c w)
  | _ => trivial

theorem wellCut_of_mem {cs : List Char} {q : Piece} (h : q ∈ cut cs) : q.WellCut := by
  fun_induction cut cs with
  | case1 => cases h
  | case2 c cs hc ih =>
    rcases List.mem_cons.1 h with rfl | h
    · exact ⟨c, _, rfl, hc, fun e he => List.all_eq_true.1 List.all_takeWhile e he⟩
    · exact ih h
  | case3 c cs hb hc ih =>
    rcases List.mem_cons.1 h with rfl | h
    · intro e he
      rcases List.mem_cons.1 he with rfl | he
      · exact hc
      · exact List.all_eq_true.1 List.all_takeWhile e he
    · exact ih h
  | case4 c cs hb hc ih =>
    rcases List.mem_cons.1 h with rfl | h
    · exact wellCut_ofChar c
    · exact ih h

/-- Parentheses are pieces of their own. -/
theorem WellCut.paren_of_mem {q : Piece} (h : q.WellCut) :
    ('(' ∈ q.chars → q = openParen) ∧ (')' ∈ q.chars → q = closeParen) := by
  cases q with
  | word cs =>
    obtain ⟨c, w, rfl, hc, hw⟩ := h
    have hn : ∀ e ∈ c :: w, isNameChar e = true := by
      intro e he
      rcases List.mem_cons.1 he with rfl | he
      · exact Scan.isNameChar_of_beginsName hc
      · exact hw e he
    exact ⟨fun ho => absurd (hn _ ho) (by decide), fun ho => absurd (hn _ ho) (by decide)⟩
  | number cs => exact ⟨fun ho => absurd (h _ ho) (by decide), fun ho => absurd (h _ ho) (by decide)⟩
  | operator op => cases op <;> simp [chars, BinaryOp.symbol]
  | stray c =>
    refine ⟨fun ho => ?_, fun ho => ?_⟩ <;>
    · obtain rfl := List.mem_singleton.1 ho
      cases h
  | openParen => simp [chars]
  | closeParen => simp [chars]
  | separator => simp [chars]
  | space => simp [chars]

theorem depthAfter_of_ne {q : Piece} (ho : q ≠ openParen) (hc : q ≠ closeParen) (d : Nat) :
    q.depthAfter d = some d := by
  cases q <;> cases d <;> first | rfl | exact absurd rfl ho | exact absurd rfl hc

/-- A piece opens and closes as many parentheses as its characters say. -/
theorem WellCut.count_parens {q : Piece} (h : q.WellCut) {d d' : Nat} (hd : q.depthAfter d = some d') :
    d' + q.chars.count ')' = d + q.chars.count '(' := by
  by_cases ho : q = openParen
  · subst ho
    cases d <;> cases hd <;> rfl
  by_cases hc : q = closeParen
  · subst hc
    cases d <;> cases hd
    rfl
  rw [depthAfter_of_ne ho hc] at hd
  cases hd
  rw [List.count_eq_zero.2 (mt h.paren_of_mem.1 ho), List.count_eq_zero.2 (mt h.paren_of_mem.2 hc)]

/-- Within a piece that does not close too early no parenthesis does. -/
theorem WellCut.count_le_within {q : Piece} (h : q.WellCut) {d d' : Nat} (hd : q.depthAfter d = some d') {l : List Char}
    (hl : l <+: q.chars) : l.count ')' ≤ d + l.count '(' := by
  have hle := hl.sublist.count_le ')'
  by_cases hc : q = closeParen
  · subst hc
    cases d with
    | zero => cases hd
    | succ d =>
      have : (closeParen.chars).count ')' = 1 := rfl
      omega
  · rw [List.count_eq_zero.2 (mt h.paren_of_mem.2 hc)] at hle
    omega

/-! ## Faults of text -/

/-- What can be wrong with text: a stray character, a number that is no literal, a name before a
parenthesis that is no known function, a parenthesis that closes too early, an empty pair, and
parentheses that do not match in number. -/
inductive Fault (known : List Fn) (cs : List Char) : ExprError → Prop
  | stray {c : Char} (found : stray c ∈ cut cs) : Fault known cs (.unrecognizedCharacter c)
  | number {w : List Char} (found : number w ∈ cut cs) (malformed : ¬ Formula.IsSigned w) :
    Fault known cs (.malformedNumber (.ofList w))
  | function {w : List Char} (found : [word w, openParen] <:+: cut cs) (unknown : ∀ f ∈ known, f.name ≠ .ofList w) :
    Fault known cs (.unrecognizedFunction (.ofList w))
  | closedEarly {l : List Char} (found : l <+: cs) (more : l.count '(' < l.count ')') :
    Fault known cs (.parentheses .closedEarly)
  | emptyPair (found : ['(', ')'] <:+: cs) : Fault known cs (.parentheses .emptyPair)
  | leftOpen (differ : cs.count '(' ≠ cs.count ')') : Fault known cs (.parentheses .leftOpen)

theorem ofName?_eq_none_iff (known : List Fn) (name : String) :
    Fn.ofName? known name = none ↔ ∀ f ∈ known, f.name ≠ name := by
  simp [Fn.ofName?, List.find?_eq_none]

/-! ## Faults found from piece to piece -/

variable {known : List Fn} {cs : List Char} {d : Nat} {p : Option Piece} {l ps : List Piece} {e : ExprError}

/-- A fault between two pieces of a text is a fault of the text. -/
theorem FaultBetween.fault (h : FaultBetween known d l.getLast? ps.head? e) (hcut : cut cs = l ++ ps)
    (hd : d + (l.flatMap chars).count ')' = (l.flatMap chars).count '(') : Fault known cs e := by
  have hcs : cs = l.flatMap chars ++ ps.flatMap chars := by rw [← chars_cut cs, hcut, List.flatMap_append]
  generalize hp : l.getLast? = p at h
  generalize hn : ps.head? = next at h
  cases h with
  | @number d w next unread =>
    obtain ⟨l', rfl⟩ := List.getLast?_eq_some_iff.1 hp
    exact .number (by simp [hcut]) ((Formula.readLiteral_eq_none_iff w).1 unread)
  | @function d w unknown =>
    obtain ⟨l', rfl⟩ := List.getLast?_eq_some_iff.1 hp
    obtain ⟨ps', rfl⟩ := List.head?_eq_some_iff.1 hn
    exact .function ⟨l', ps', by simp [hcut]⟩ ((ofName?_eq_none_iff known _).1 unknown)
  | stray =>
    obtain ⟨ps', rfl⟩ := List.head?_eq_some_iff.1 hn
    exact .stray (by simp [hcut])
  | closedEarly =>
    obtain ⟨ps', rfl⟩ := List.head?_eq_some_iff.1 hn
    refine .closedEarly (l := l.flatMap chars ++ [')']) ⟨ps'.flatMap chars, by rw [hcs]; simp [chars]⟩ ?_
    simp only [List.count_append, List.count_singleton_self]
    have : List.count '(' [')'] = 0 := by decide
    omega
  | emptyPair =>
    obtain ⟨l', rfl⟩ := List.getLast?_eq_some_iff.1 hp
    obtain ⟨ps', rfl⟩ := List.head?_eq_some_iff.1 hn
    exact .emptyPair ⟨l'.flatMap chars, ps'.flatMap chars, by rw [hcs]; simp [chars]⟩
  | leftOpen =>
    obtain rfl := List.head?_eq_none_iff.1 hn
    refine .leftOpen ?_
    rw [hcs, List.flatMap_nil, List.append_nil]
    omega

/-- What a scan finds is a fault of the text. -/
theorem Faulty.fault (h : Faulty known d p ps e) (hp : p = l.getLast?) (hcut : cut cs = l ++ ps)
    (hd : d + (l.flatMap chars).count ')' = (l.flatMap chars).count '(') : Fault known cs e := by
  induction h generalizing l with
  | here h =>
    subst hp
    exact h.fault hcut hd
  | @later d d' p q ps e hq h ih =>
    have hmem : q ∈ cut cs := by simp [hcut]
    have hcount := (wellCut_of_mem hmem).count_parens hq
    refine ih (l := l ++ [q]) (by simp) (by simp [hcut]) ?_
    simp only [List.flatMap_append, List.flatMap_singleton, List.count_append]
    omega

/-- A fault between two pieces is found, or an earlier one. -/
theorem Faulty.of_split (h : ∀ d, ∃ e, FaultBetween known d (l.getLast?.or p) ps.head? e) :
    ∃ e, Faulty known d p (l ++ ps) e := by
  induction l generalizing d p with
  | nil =>
    obtain ⟨e, he⟩ := h d
    exact ⟨e, .here he⟩
  | cons q l ih =>
    cases hq : q.depthAfter d with
    | none =>
      cases q <;> cases d <;> cases hq
      exact ⟨_, .here .closedEarly⟩
    | some d' =>
      rw [getLast?_cons_or] at h
      obtain ⟨e, he⟩ := @ih d' (some q) h
      exact ⟨e, .later hq he⟩

/-- In pieces without fault no parenthesis closes too early, and all are closed. -/
theorem depth_of_clean (hw : ∀ q ∈ ps, q.WellCut) (clean : ∀ e, ¬ Faulty known d p ps e) :
    (∀ l, l <+: ps.flatMap chars → l.count ')' ≤ d + l.count '(') ∧
    d + (ps.flatMap chars).count '(' = (ps.flatMap chars).count ')' := by
  induction ps generalizing d p with
  | nil =>
    cases d with
    | zero => exact ⟨fun l hl => by rw [List.prefix_nil.1 hl]; simp, rfl⟩
    | succ d => exact absurd (.here .leftOpen) (clean _)
  | cons q ps ih =>
    cases hq : q.depthAfter d with
    | none =>
      cases q <;> cases d <;> cases hq
      exact absurd (.here .closedEarly) (clean _)
    | some d' =>
      have hcount := (hw q (by simp)).count_parens hq
      obtain ⟨hwithin, htotal⟩ := ih (fun r hr => hw r (by simp [hr])) fun e he => clean e (.later hq he)
      rw [List.flatMap_cons]
      refine ⟨fun l hl => ?_, by rw [List.count_append, List.count_append]; omega⟩
      rcases List.prefix_or_prefix_of_prefix hl (List.prefix_append q.chars _) with hl' | ⟨m, rfl⟩
      · exact (hw q (by simp)).count_le_within hq hl'
      · have := hwithin m ((List.prefix_append_right_inj q.chars).1 hl)
        rw [List.count_append, List.count_append]
        omega

/-- Text is cut at a character that is no part of a name or a number. -/
theorem cut_append {c : Char} (hn : isNameChar c = false) (hc : isNumberChar c = false) (as bs : List Char) :
    cut (as ++ c :: bs) = cut as ++ ofChar c :: cut bs := by
  have hb : beginsName c = false := by
    rw [Bool.eq_false_iff]
    intro hb
    rw [Scan.isNameChar_of_beginsName hb] at hn
    cases hn
  -- what ended before the character ends before it in the longer text
  have ends : ∀ {q : Char → Bool} {ds : List Char}, q c = false → EndsBefore q ds → EndsBefore q (ds ++ c :: bs) := by
    intro q ds hq hds e he
    cases ds with
    | nil => cases he; exact hq
    | cons x ds => exact hds e he
  fun_induction cut as with
  | case1 => exact cut_ofChar hb hc bs
  | case2 x xs hx ih =>
    have e : x :: xs ++ c :: bs = x :: (xs.takeWhile isNameChar ++ (xs.dropWhile isNameChar ++ c :: bs)) := by
      rw [← List.append_assoc, List.takeWhile_append_dropWhile, List.cons_append]
    rw [e, cut_word hx (fun y hy => List.all_eq_true.1 List.all_takeWhile y hy)
      (ends hn (endsBefore_dropWhile isNameChar xs)), ih, List.cons_append]
  | case3 x xs hx hx' ih =>
    have e : x :: xs ++ c :: bs = x :: (xs.takeWhile isNumberChar ++ (xs.dropWhile isNumberChar ++ c :: bs)) := by
      rw [← List.append_assoc, List.takeWhile_append_dropWhile, List.cons_append]
    rw [e, cut_number hx' (fun y hy => List.all_eq_true.1 List.all_takeWhile y hy)
      (ends hc (endsBefore_dropWhile isNumberChar xs)), ih, List.cons_append]
  | case4 x xs hx hx' ih =>
    rw [Bool.not_eq_true] at hx hx'
    rw [List.cons_append, cut_ofChar hx hx', ih, List.cons_append]

/-- Text in whose pieces no fault is found has none. -/
theorem not_fault_of_clean (clean : ∀ e, ¬ Faulty known 0 none (cut cs) e) : ¬ Fault known cs e := by
  have hdepth := depth_of_clean (fun q hq => wellCut_of_mem hq) clean
  rw [chars_cut] at hdepth
  -- a fault between two pieces of the cut
  have found : ∀ l ps, cut cs = l ++ ps → ¬ ∀ d, ∃ e, FaultBetween known d (l.getLast?.or none) ps.head? e := by
    intro l ps hcut h
    obtain ⟨e, he⟩ := @Faulty.of_split known 0 none l ps h
    exact clean e (hcut ▸ he)
  intro h
  cases h with
  | @stray c hmem =>
    obtain ⟨l, r, hcut⟩ := List.append_of_mem hmem
    exact found l (Piece.stray c :: r) hcut fun d => ⟨_, .stray⟩
  | @number w hmem malformed =>
    obtain ⟨l, r, hcut⟩ := List.append_of_mem hmem
    refine found (l ++ [Piece.number w]) r (by simp [hcut]) fun d => ⟨.malformedNumber (.ofList w), ?_⟩
    simpa using .number ((Formula.readLiteral_eq_none_iff w).2 malformed)
  | @function w hinfix unknown =>
    obtain ⟨l, r, hcut⟩ := hinfix
    refine found (l ++ [word w]) (openParen :: r) (by simp [← hcut]) fun d => ⟨.unrecognizedFunction (.ofList w), ?_⟩
    simpa using .function ((ofName?_eq_none_iff known _).2 unknown)
  | @closedEarly l hl more =>
    have := hdepth.1 l hl
    omega
  | emptyPair hinfix =>
    obtain ⟨as, bs, e⟩ := hinfix
    have hcut : cut cs = (cut as ++ [openParen]) ++ closeParen :: cut bs := by
      rw [← e, List.append_assoc, List.cons_append, List.cons_append, List.nil_append,
        cut_append (by decide) (by decide), cut_ofChar (by decide) (by decide), List.append_assoc]
      rfl
    refine found _ _ hcut fun d => ⟨.parentheses .emptyPair, ?_⟩
    simpa using .emptyPair
  | leftOpen differ =>
    have := hdepth.2
    omega

end Piece

/-! ## The tokens of an expression -/

open Piece

/-- What is read from an expression are the tokens of the pieces of its normal text. -/
theorem reads_ofChars (known : List Fn) (text : String) :
    Scan.Reads known [] 0 none (cut (NormalText.ofChars text.toList)) (tokenizeWith known text) := by
  have hs : Scan.Unparted (NormalText.ofChars text.toList) := by
    intro c hc
    have hjoin := (NormalText.tidy_ofChars text.toList).joins_after_space hc
    exact ⟨by rintro rfl; exact absurd hjoin (by decide), by rintro rfl; exact absurd hjoin (by decide)⟩
  exact Scan.reads_cut (p := none) hs rfl

theorem tokens_of_tokenizeWith {known : List Fn} {text : String} {ts : List Token} (h : tokenizeWith known text = .ok ts) :
    ts = tokensOf known (cut (NormalText.ofChars text.toList)) ∧
    ∀ e, ¬ Faulty known 0 none (cut (NormalText.ofChars text.toList)) e := by
  have hr := reads_ofChars known text
  rw [h] at hr
  generalize e : (Except.ok ts : Except ExprError (List Token)) = r at hr
  cases hr with
  | ok clean => cases e; exact ⟨rfl, clean⟩
  | error fault => cases e

/-- An operator other than a product sign stands in the normal text. -/
theorem symbol_mem_of_tokenizeWith {known : List Fn} {text : String} {ts : List Token} {op : BinaryOp}
    (h : tokenizeWith known text = .ok ts) (hmem : .binary op ∈ ts) (hop : op ≠ .mul) :
    op.symbol ∈ NormalText.ofChars text.toList := by
  rw [(tokens_of_tokenizeWith h).1] at hmem
  have hpiece := operator_mem_of_mem_tokensOf hmem hop
  rw [← chars_cut (NormalText.ofChars text.toList), List.mem_flatMap]
  exact ⟨_, hpiece, by simp [chars]⟩

theorem fault_of_tokenizeWith {known : List Fn} {text : String} {e : ExprError} (h : tokenizeWith known text = .error e) :
    Piece.Fault known (NormalText.ofChars text.toList) e := by
  have hr := reads_ofChars known text
  rw [h] at hr
  generalize e' : (Except.error e : Except ExprError (List Token)) = r at hr
  cases hr with
  | ok => cases e'
  | error fault =>
    cases e'
    exact fault.fault (l := []) rfl rfl rfl

/-- **Reading is cutting.** An expression has tokens exactly if its normal text has no fault, and they
are the tokens of its pieces. Where it has none, the error is one of the faults. -/
theorem tokenizeWith_eq_tokensOf (known : List Fn) (text : String) :
    ((∃ ts, tokenizeWith known text = .ok ts) ↔ ∀ e, ¬ Piece.Fault known (NormalText.ofChars text.toList) e) ∧
    (∀ ts, tokenizeWith known text = .ok ts → ts = tokensOf known (cut (NormalText.ofChars text.toList))) ∧
    ∀ e, tokenizeWith known text = .error e → Piece.Fault known (NormalText.ofChars text.toList) e := by
  refine ⟨⟨?_, fun h => ?_⟩, fun ts h => (tokens_of_tokenizeWith h).1, fun e h => fault_of_tokenizeWith h⟩
  · rintro ⟨ts, h⟩ e
    exact not_fault_of_clean (tokens_of_tokenizeWith h).2
  · cases hr : tokenizeWith known text with
    | ok ts => exact ⟨ts, rfl⟩
    | error e => exact absurd (fault_of_tokenizeWith hr) (h e)

end Reckoner
