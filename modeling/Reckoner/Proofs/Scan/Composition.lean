import Reckoner.Proofs.Scan.Joining

/-!
# Composed texts

Texts that can be read are put together by an operator or a separator between two of them, or by parentheses around one
that is not blank, and the tokens are put together in the same way. For the parentheses, a fault that a scan finds
between them is found without them, one parenthesis less deep (`faulty_of_enclosed`).
-/

namespace Reckoner

namespace Piece

variable {known : List Fn} {p q : Piece} {ps : List Piece} {d : Nat} {e : ExprError}

/-! ## Pieces in parentheses -/

theorem tokensOf_enclosed (ps : List Piece) :
    tokensOf known (openParen :: (ps ++ [closeParen])) = .openParen :: (tokensOf known ps ++ [.closeParen]) := by
  have hclose : ∀ p : Piece, p.tokens known (some closeParen) = p.tokens known none := fun p => by cases p <;> rfl
  have htokens := tokensOf_append hclose ps []
  rw [tokensOf, htokens]
  rfl

/-- One parenthesis deeper, a piece leads one deeper, unless it closes that parenthesis. -/
theorem depthAfter_succ {d' : Nat} (h : q.depthAfter (d + 1) = some d') :
    q = closeParen ∧ d = 0 ∨ ∃ d₁, d' = d₁ + 1 ∧ q.depthAfter d = some d₁ := by
  cases q with
  | closeParen =>
    cases d with
    | zero => exact Or.inl ⟨rfl, rfl⟩
    | succ d => cases h; exact Or.inr ⟨d, rfl, rfl⟩
  | openParen => cases h; exact Or.inr ⟨d + 1, rfl, by cases d <;> rfl⟩
  | _ => cases h; exact Or.inr ⟨d, rfl, by cases d <;> rfl⟩

/-- A fault between two pieces shows at every smaller depth. -/
theorem FaultBetween.less_deep {p : Option Piece} (h : FaultBetween known (d + 1) p (some q) e) :
    FaultBetween known d p (some q) e := by
  cases h with
  | number unread => exact .number unread
  | function unknown => exact .function unknown
  | stray => exact .stray
  | emptyPair => exact .emptyPair

/-- A fault before the closing parenthesis is one without it. -/
theorem faulty_of_enclosed {p : Option Piece} (h : Faulty known (d + 1) p (ps ++ [closeParen]) e)
    (hp : ps = [] → p = some openParen → d ≠ 0) : ∃ e', Faulty known d p ps e' := by
  induction ps generalizing d p with
  | nil =>
    cases d with
    | succ d => exact ⟨_, .here .leftOpen⟩
    | zero =>
      cases h with
      | here h =>
        have h : FaultBetween known 1 p (some closeParen) e := h
        cases h with
        | number unread => exact ⟨_, .here (.number unread)⟩
        | emptyPair => exact absurd rfl (hp rfl rfl)
      | later hd h =>
        cases hd
        cases h with
        | here h => cases h
  | cons q ps ih =>
    cases h with
    | here h => exact ⟨e, .here h.less_deep⟩
    | later hd h =>
      rcases depthAfter_succ hd with ⟨rfl, rfl⟩ | ⟨d₁, rfl, hd₁⟩
      · exact ⟨_, .here .closedEarly⟩
      · obtain ⟨e', he'⟩ := ih h fun _ hq => by
          cases hq
          cases d <;> cases hd₁ <;> simp
        exact ⟨e', .later hd₁ he'⟩

/-- A fault of pieces after an opening parenthesis, whose depth is not counted, is one at the start. -/
theorem faulty_start (h : Faulty known 0 (some openParen) (q :: ps) e) : ∃ e', Faulty known 0 none (q :: ps) e' := by
  cases h with
  | later hd h => exact ⟨e, .later hd h⟩
  | here h =>
    have h : FaultBetween known 0 (some openParen) (some q) e := h
    cases h with
    | stray => exact ⟨_, .here .stray⟩
    | closedEarly => exact ⟨_, .here .closedEarly⟩
    | emptyPair => exact ⟨_, .here .closedEarly⟩

/-- Pieces without fault have none in parentheses, if there are any. -/
theorem clean_enclosed (hne : ps ≠ []) (clean : ∀ e, ¬ Faulty known 0 none ps e) (e : ExprError) :
    ¬ Faulty known 0 none (openParen :: (ps ++ [closeParen])) e := by
  intro h
  cases h with
  | here h => cases h
  | later hd h =>
    cases hd
    obtain ⟨e', he'⟩ := faulty_of_enclosed h fun hps => absurd hps hne
    obtain ⟨q, ps, rfl⟩ := List.exists_cons_of_ne_nil hne
    obtain ⟨e'', he''⟩ := faulty_start he'
    exact clean e'' he''

end Piece

/-! ## Texts in parentheses -/

open Piece

variable {known : List Fn} {a b : String} {as bs : List Token}

theorem NormalText.ofChars_enclosed (cs : List Char) : ofChars ('(' :: (cs ++ [')'])) = '(' :: (ofChars cs ++ [')']) := by
  have hstart : ofChars ('(' :: (cs ++ [')'])) = resume none false ('(' :: (cs ++ [')'])) := rfl
  rw [hstart, resume_symbol (by decide) (by decide), ofChars_append, resume_closeParen]

theorem cut_enclosed (cs : List Char) : cut ('(' :: (cs ++ [')'])) = openParen :: (cut cs ++ [closeParen]) := by
  have hopen : ofChar '(' = openParen := rfl
  have hclose : ofChar ')' = closeParen := rfl
  rw [cut_ofChar (by decide) (by decide), cut_append (by decide) (by decide), hopen, hclose, cut]

/-- A text that can be read and is not blank can be read in parentheses. -/
theorem tokenizeWith_enclosed (ha : tokenizeWith known a = .ok as) (hne : as ≠ []) :
    tokenizeWith known ("(" ++ a ++ ")") = .ok (.openParen :: (as ++ [.closeParen])) := by
  obtain ⟨rfl, clean⟩ := tokens_of_tokenizeWith ha
  have hcut : cut (NormalText.ofChars a.toList) ≠ [] := by
    intro h
    rw [h] at hne
    exact hne rfl
  have htext : ("(" ++ a ++ ")").toList = '(' :: (a.toList ++ [')']) := by simp [String.toList_append]
  have hr := reads_ofChars known ("(" ++ a ++ ")")
  rw [htext, NormalText.ofChars_enclosed, cut_enclosed] at hr
  generalize tokenizeWith known ("(" ++ a ++ ")") = r at hr
  cases hr with
  | ok => exact congrArg Except.ok (tokensOf_enclosed _)
  | error fault => exact absurd fault (clean_enclosed hcut clean _)

/-! ## Texts joined by a plus sign -/

/-- A plus sign joins two texts where an operand has ended. -/
theorem tokenizeWith_plus (ha : tokenizeWith known a = .ok as) (hb : tokenizeWith known b = .ok bs)
    (ended : NormalText.atOperand (normalize a).toList.getLast? = false) :
    tokenizeWith known (a ++ "+" ++ b) = .ok (as ++ .binary .add :: bs) := by
  have htext : (a ++ "+" ++ b).toList = a.toList ++ '+' :: b.toList := by simp [String.toList_append]
  have hexpects : NormalText.expects (NormalText.visible a.toList).getLast? = false := by
    rw [← NormalText.atOperand_getLast?_ofChars, ← ended, normalize, String.toList_ofList]
  refine tokenizeWith_join (c := '+') ha hb rfl ?_
  rw [htext, NormalText.ofChars_append, NormalText.resume_plus hexpects]

/-- **Reading is compositional.** Let two texts be read. With an operator or a separator between them they are read as
the tokens of the one, that of the symbol and those of the other; for a plus sign an operand must have ended in the
normal text of the first. In parentheses a text that has tokens is read as these in parentheses. -/
theorem tokenizeWith_composed (ha : tokenizeWith known a = .ok as) (hb : tokenizeWith known b = .ok bs) :
    (∀ op : BinaryOp, op ≠ .add →
      tokenizeWith known (a ++ .singleton op.symbol ++ b) = .ok (as ++ .binary op :: bs)) ∧
    tokenizeWith known (a ++ "," ++ b) = .ok (as ++ .separator :: bs) ∧
    ((∃ c, (normalize a).toList.getLast? = some c ∧ NormalText.opensOperand c = false) →
      tokenizeWith known (a ++ "+" ++ b) = .ok (as ++ .binary .add :: bs)) ∧
    (as ≠ [] → tokenizeWith known ("(" ++ a ++ ")") = .ok (.openParen :: (as ++ [.closeParen]))) := by
  refine ⟨fun op hop => ?_, ?_, fun h => ?_, tokenizeWith_enclosed ha⟩
  · have hpiece : ofChar op.symbol = .operator op := by rw [ofChar, BinaryOp.ofSymbol?_symbol]
    have hparts : (ofChar op.symbol).parts = true := by rw [hpiece]; rfl
    have hplus : op.symbol ≠ '+' := by cases op <;> first | decide | exact absurd rfl hop
    have htext : (a ++ .singleton op.symbol ++ b).toList = a.toList ++ op.symbol :: b.toList := by
      simp [String.toList_append]
    have h := tokenizeWith_append ha hb hparts hplus htext
    rw [hpiece] at h
    exact h
  · exact tokenizeWith_append (c := ',') ha hb rfl (by decide) (by simp [String.toList_append])
  · obtain ⟨c, hlast, hc⟩ := h
    refine tokenizeWith_plus ha hb ?_
    rw [hlast]
    exact hc

/-- A text that a blank ends, and one that begins with signs. -/
theorem tokenizeWith_composed_signs :
    let x : Token := .var "x"
    let as : List Token := [.real (.ofBits 0x4000000000000000), .binary .mul, .openParen, x, .closeParen]
    let bs : List Token := [.real (.one true), .binary .mul, x]
    tokenizeWith Fn.all "2(x) " = .ok as ∧ tokenizeWith Fn.all "+ -x" = .ok bs ∧
    tokenizeWith Fn.all "2(x) ^+ -x" = .ok (as ++ .binary .pow :: bs) ∧
    tokenizeWith Fn.all "2(x) ,+ -x" = .ok (as ++ .separator :: bs) ∧
    tokenizeWith Fn.all "2(x) ++ -x" = .ok (as ++ .binary .add :: bs) ∧
    tokenizeWith Fn.all "(2(x) )" = .ok (.openParen :: (as ++ [.closeParen])) := by
  intro x as bs
  have ha : tokenizeWith Fn.all "2(x) " = .ok as := rfl
  have hb : tokenizeWith Fn.all "+ -x" = .ok bs := rfl
  obtain ⟨hoperator, hseparator, hplus, hparens⟩ := tokenizeWith_composed ha hb
  exact ⟨ha, hb, hoperator .pow (by decide), hseparator, hplus ⟨')', rfl, rfl⟩, hparens (by simp [as])⟩

end Reckoner
