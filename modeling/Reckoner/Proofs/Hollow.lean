import Reckoner.Proofs.Safety
import Reckoner.Proofs.Session

/-!
# Expressions without a value

An evaluation gives neither an operand nor an error exactly if no operand and no operator is read. Then the normal
text is empty, or it is hollow: commas within parentheses are all that it is made of. No empty pair of parentheses is
read, but a pair that holds nothing except commas is.
-/

namespace Reckoner

open Infix
open Piece hiding Fault depthAfter

/-! ## Hollow text -/

def IsMark (c : Char) : Prop := c = '(' ∨ c = ')' ∨ c = ','

/-- Normal text of parentheses and commas: the parentheses match, every comma stands within some, no pair is empty and
no pair is multiplied with another one. -/
structure Hollow (cs : List Char) : Prop where
  marks : ∀ c ∈ cs, IsMark c
  within : ∀ l, l <+: cs → l.count ')' ≤ l.count '('
  total : cs.count '(' = cs.count ')'
  inside : ∀ l r, cs = l ++ ',' :: r → l.count ')' < l.count '('
  filled : ¬ ['(', ')'] <:+: cs
  apart : ¬ [')', '('] <:+: cs

theorem hollow_nil : Hollow [] where
  marks := nofun
  within l hl := by simp [List.prefix_nil.1 hl]
  total := rfl
  inside l r e := by simp at e
  filled := by simp
  apart := by simp

/-- Hollow text begins with a parenthesis. -/
theorem Hollow.eq_cons {cs : List Char} (h : Hollow cs) (hne : cs ≠ []) : ∃ cs', cs = '(' :: cs' := by
  obtain ⟨c, cs', rfl⟩ := List.exists_cons_of_ne_nil hne
  rcases h.marks c (by simp) with rfl | rfl | rfl
  · exact ⟨cs', rfl⟩
  · have hcount := h.within [')'] ⟨cs', rfl⟩
    exact absurd hcount (by decide)
  · have hcount := h.inside [] cs' rfl
    exact absurd hcount (by decide)

/-- Without commas the first pair that closes is empty. -/
theorem Hollow.eq_nil {cs : List Char} (h : Hollow cs) (hcomma : ',' ∉ cs) : cs = [] := by
  refine Classical.not_not.1 fun hne => ?_
  obtain ⟨cs, rfl⟩ := h.eq_cons hne
  have hclose : ')' ∈ '(' :: cs := by
    rw [← List.count_pos_iff, ← h.total]
    exact List.count_pos_iff.2 (by simp)
  obtain ⟨l, r, hcs, hl⟩ := List.eq_append_cons_of_mem hclose
  -- an opening parenthesis is all that can stand before the first closing one
  obtain ⟨l, c, rfl⟩ : ∃ l' c, l = l' ++ [c] := by
    refine ⟨l.dropLast, l.getLast ?_, (List.dropLast_concat_getLast _).symm⟩
    rintro rfl
    cases hcs
  have hmem : c ∈ '(' :: cs := by simp [hcs]
  rcases h.marks c hmem with rfl | rfl | rfl
  · exact h.filled ⟨l, r, by rw [hcs]; simp⟩
  · exact hl (by simp)
  · exact hcomma hmem

/-! ## The tokens of hollow text -/

def markToken (c : Char) : Token := if c = '(' then .openParen else if c = ')' then .closeParen else .separator

variable {known : List Fn} {cs : List Char}

theorem isKept_markToken (c : Char) : (markToken c).isKept = false := by
  unfold markToken
  split
  · rfl
  · split <;> rfl

theorem markToken_eq_separator_iff {c : Char} (h : IsMark c) : markToken c = .separator ↔ c = ',' := by
  rcases h with rfl | rfl | rfl <;> decide

theorem count_markToken (h : ∀ c ∈ cs, IsMark c) :
    (cs.map markToken).count .openParen = cs.count '(' ∧ (cs.map markToken).count .closeParen = cs.count ')' := by
  simp only [List.count_eq_countP, List.countP_map]
  constructor <;>
  · refine List.countP_congr fun c hc => ?_
    rcases h c hc with rfl | rfl | rfl <;> decide

/-- Parentheses and commas are pieces of their own. -/
theorem cut_marks (h : ∀ c ∈ cs, IsMark c) : cut cs = cs.map ofChar := by
  induction cs with
  | nil => rw [cut]; rfl
  | cons c cs ih =>
    rw [List.forall_mem_cons] at h
    have hc : Formula.beginsName c = false ∧ Scan.isNumberChar c = false := by
      rcases h.1 with rfl | rfl | rfl <;> decide
    rw [cut_ofChar hc.1 hc.2, ih h.2, List.map_cons]

theorem tokensOf_marks (h : ∀ c ∈ cs, IsMark c) (apart : ¬ [')', '('] <:+: cs) :
    tokensOf known (cs.map ofChar) = cs.map markToken := by
  induction cs with
  | nil => rfl
  | cons c cs ih =>
    rw [List.forall_mem_cons] at h
    have hrest := ih h.2 fun hi => apart (hi.trans (List.suffix_cons c cs).isInfix)
    rw [List.map_cons, tokensOf, hrest, List.map_cons]
    rcases h.1 with rfl | rfl | rfl
    · rfl
    · have hnext : (cs.map ofChar).head? ≠ some .openParen := by
        intro e
        cases cs with
        | nil => cases e
        | cons d cs =>
          rw [List.forall_mem_cons] at h
          rcases h.2.1 with rfl | rfl | rfl
          · exact apart ⟨[], cs, rfl⟩
          · cases e
          · cases e
      have hclose : ofChar ')' = closeParen := rfl
      rw [hclose, tokens, product, decide_eq_false hnext]
      rfl
    · rfl

/-- The depth after a beginning of such text is zero exactly if it closes as many parentheses as it opens. -/
theorem depthAfter_marks {l : List Char} (h : ∀ c ∈ l, IsMark c)
    (hwithin : ∀ m, m <+: l → m.count ')' ≤ m.count '(') :
    depthAfter 0 (l.map markToken) = some 0 ↔ l.count '(' = l.count ')' := by
  rw [depthAfter_eq_some_iff, (count_markToken h).1, (count_markToken h).2]
  refine ⟨fun h => by omega, fun hcount => ⟨fun m hm => ?_, by omega⟩⟩
  obtain ⟨m, hml, rfl⟩ := List.prefix_map_iff.1 hm
  have hmarks := count_markToken fun c hc => h c (hml.subset hc)
  rw [hmarks.1, hmarks.2, Nat.zero_add]
  exact hwithin m hml

/-- A comma outside all parentheses is a separator outside all parentheses. -/
theorem exists_outside_iff (h : ∀ c ∈ cs, IsMark c)
    (hwithin : ∀ l, l <+: cs → l.count ')' ≤ l.count '(') :
    (∃ l r, cs.map markToken = l ++ .separator :: r ∧ depthAfter 0 l = some 0) ↔
      ∃ l r, cs = l ++ ',' :: r ∧ l.count '(' = l.count ')' := by
  have before : ∀ {l r : List Char}, cs = l ++ r →
      (depthAfter 0 (l.map markToken) = some 0 ↔ l.count '(' = l.count ')') := by
    rintro l r rfl
    exact depthAfter_marks (fun c hc => h c (by simp [hc])) fun m hm => hwithin m (hm.trans (List.prefix_append l r))
  constructor
  · rintro ⟨l, r, e, hd⟩
    obtain ⟨l, rest, rfl, rfl, hrest⟩ := List.map_eq_append_iff.1 e
    obtain ⟨c, r, rfl, hc, -⟩ := List.map_eq_cons_iff.1 hrest
    rw [markToken_eq_separator_iff (h c (by simp))] at hc
    subst hc
    exact ⟨l, r, rfl, (before rfl).1 hd⟩
  · rintro ⟨l, r, rfl, hcount⟩
    exact ⟨l.map markToken, r.map markToken, by rw [List.map_append]; rfl, (before rfl).2 hcount⟩

/-! ## From hollow text to no value -/

/-- No scan fails on hollow text. -/
theorem Hollow.not_fault (h : Hollow cs) (e : ExprError) : ¬ Piece.Fault known cs e := by
  have hcut := cut_marks h.marks
  -- the pieces of the text are those of its characters
  have hmem : ∀ q ∈ cut cs, ∃ c, IsMark c ∧ ofChar c = q := by
    intro q hq
    rw [hcut] at hq
    obtain ⟨c, hc, rfl⟩ := List.mem_map.1 hq
    exact ⟨c, h.marks c hc, rfl⟩
  intro hfault
  cases hfault with
  | stray found =>
    obtain ⟨c, rfl | rfl | rfl, hc⟩ := hmem _ found <;> cases hc
  | number found malformed =>
    obtain ⟨c, -, hc⟩ := hmem _ found
    exact ofChar_ne_number c _ hc
  | function found unknown =>
    obtain ⟨c, -, hc⟩ := hmem _ (found.subset (List.mem_cons_self ..))
    exact ofChar_ne_word c _ hc
  | closedEarly found more => exact absurd (h.within _ found) (by omega)
  | emptyPair found => exact h.filled found
  | leftOpen differ => exact differ h.total

/-- The tokens of hollow text are those of its characters, and nothing is left of them in postfix order. -/
theorem postfixOf_of_hollow {text : String} (h : Hollow (NormalText.ofChars text.toList)) : postfixOf text = .ok [] := by
  cases hts : tokenize text with
  | error e => exact absurd (fault_of_tokenizeWith hts) (h.not_fault e)
  | ok ts =>
    obtain ⟨rfl, -⟩ := tokens_of_tokenizeWith hts
    rw [cut_marks h.marks, tokensOf_marks h.marks h.apart] at hts
    rcases toPostfix_of_tokenize hts with ⟨⟨ps, hps⟩, -⟩ | ⟨-, hseparator⟩
    · have hnone : ((NormalText.ofChars text.toList).map markToken).filter Token.isKept = [] := by
        simp [List.filter_eq_nil_iff, isKept_markToken]
      obtain rfl : ps = [] := (hnone ▸ perm_of_toPostfix hps).eq_nil
      exact bind_ok hts hps
    · obtain ⟨l, r, e, hcount⟩ := (exists_outside_iff h.marks h.within).1 hseparator
      exact absurd (h.inside l r e) (by omega)

/-! ## From no value to hollow text -/

/-- A token of a piece is one of the text. -/
theorem Piece.mem_tokensOf {l r : List Piece} {q : Piece} {t : Token} (h : t ∈ q.tokens known r.head?) :
    t ∈ tokensOf known (l ++ q :: r) := by
  induction l with
  | nil => exact List.mem_append_left _ h
  | cons p l ih => exact List.mem_append_right _ ih

/-- Pieces in which nothing is at fault and that give neither operands nor operators are parentheses, commas and
spaces. -/
theorem Piece.mark_of_mem (clean : ∀ e, ¬ Piece.Fault known cs e) (bare : ∀ t ∈ tokensOf known (cut cs), t.isKept = false)
    {q : Piece} (hq : q ∈ cut cs) : q = openParen ∨ q = closeParen ∨ q = separator ∨ q = space := by
  obtain ⟨l, r, hcut⟩ := List.append_of_mem hq
  have hkept : ∀ t ∈ q.tokens known r.head?, t.isKept = false := fun t ht => bare t (hcut ▸ mem_tokensOf ht)
  cases q with
  | openParen | closeParen | separator | space => simp
  | operator op => exact absurd (hkept (.binary op) (by simp [tokens])) (by simp [Token.isKept])
  | stray c => exact absurd (.stray hq) (clean _)
  | number w =>
    cases hx : Decimal.readLiteral w with
    | none => exact absurd (.number hq ((Formula.readLiteral_eq_none_iff w).1 hx)) (clean _)
    | some x => exact absurd (hkept (.real x) (by simp [tokens, hx])) (by simp [Token.isKept])
  | word w =>
    by_cases hnext : r.head? = some openParen
    · cases hf : Fn.ofName? known (.ofList w) with
      | some f => exact absurd (hkept (.function f) (by simp [tokens, hnext, hf])) (by simp [Token.isKept])
      | none =>
        obtain ⟨r, rfl⟩ := List.head?_eq_some_iff.1 hnext
        have hfound : [word w, openParen] <:+: cut cs := ⟨l, r, by simp [hcut]⟩
        exact absurd (.function hfound ((ofName?_eq_none_iff known _).1 hf)) (clean _)
    · exact absurd (hkept (.var (.ofList w)) (by simp [tokens, hnext])) (by simp [Token.isKept])

/-- Normal text of such pieces is made of parentheses and commas. -/
theorem marks_of_bare {before : Option Char} (tidy : NormalText.Tidy before cs) (clean : ∀ e, ¬ Piece.Fault known cs e)
    (bare : ∀ t ∈ tokensOf known (cut cs), t.isKept = false) : ∀ c ∈ cs, IsMark c := by
  have hmarks : ∀ c ∈ cs, IsMark c ∨ c = ' ' := by
    intro c hc
    rw [← chars_cut cs] at hc
    obtain ⟨q, hq, hc⟩ := List.mem_flatMap.1 hc
    rcases mark_of_mem clean bare hq with rfl | rfl | rfl | rfl <;> simp [IsMark, List.mem_singleton.1 hc]
  intro c hc
  refine (hmarks c hc).resolve_right ?_
  rintro rfl
  obtain ⟨e, he, hjoins⟩ := tidy.exists_joins hc
  rcases hmarks e he with (rfl | rfl | rfl) | rfl <;> exact absurd hjoins (by decide)

/-- Between two pairs a product sign is read. -/
theorem apart_of_bare (bare : ∀ t ∈ tokensOf known (cut cs), t.isKept = false) : ¬ [')', '('] <:+: cs := by
  rintro ⟨as, bs, rfl⟩
  have hcut : cut (as ++ [')', '('] ++ bs) = cut as ++ closeParen :: openParen :: cut bs := by
    rw [List.append_assoc, List.cons_append, List.cons_append, List.nil_append, cut_append (by decide) (by decide),
      cut_ofChar (by decide) (by decide)]
    rfl
  have hmul : Token.binary .mul ∈ tokensOf known (cut as ++ closeParen :: openParen :: cut bs) :=
    mem_tokensOf (by simp [tokens, product])
  exact absurd (bare _ (hcut ▸ hmul)) (by simp [Token.isKept])

theorem hollow_of_postfixOf {text : String} (h : postfixOf text = .ok []) : Hollow (NormalText.ofChars text.toList) := by
  obtain ⟨ts, hts, hps⟩ := postfixOf_eq_ok h
  have hts' := hts
  obtain ⟨rfl, hclean⟩ := tokens_of_tokenizeWith hts'
  have clean : ∀ e, ¬ Piece.Fault Fn.all (NormalText.ofChars text.toList) e := fun e => not_fault_of_clean hclean
  have bare : ∀ t ∈ tokensOf Fn.all (cut (NormalText.ofChars text.toList)), t.isKept = false := by
    have hperm := (perm_of_toPostfix hps).symm.eq_nil
    simpa [List.filter_eq_nil_iff] using hperm
  have marks := marks_of_bare (NormalText.tidy_ofChars text.toList) clean bare
  have within : ∀ l, l <+: NormalText.ofChars text.toList → l.count ')' ≤ l.count '(' :=
    fun l hl => Nat.le_of_not_lt fun more => clean _ (.closedEarly hl more)
  have apart := apart_of_bare bare
  refine ⟨marks, within, Classical.not_not.1 fun differ => clean _ (.leftOpen differ), fun l r e => ?_,
    fun found => clean _ (.emptyPair found), apart⟩
  rw [cut_marks marks, tokensOf_marks marks apart] at hts hps
  rcases toPostfix_of_tokenize hts with ⟨-, hseparator⟩ | ⟨herr, -⟩
  · rw [exists_outside_iff marks within] at hseparator
    have hle := within l ⟨',' :: r, e.symm⟩
    exact Nat.lt_of_le_of_ne hle fun hcount => hseparator ⟨l, r, e, hcount.symm⟩
  · rw [herr] at hps
    cases hps

/-! ## Evaluations without a value -/

/-- Only an empty postfix list has no value. -/
theorem evaluatePostfix_eq_none_iff {ps : List Token} {b : Bindings} :
    (evaluatePostfix ps b).result = .ok none ↔ ps = [] := by
  refine ⟨fun h => ?_, by rintro rfl; rfl⟩
  unfold evaluatePostfix at h
  split at h
  · rename_i hempty
    exact List.isEmpty_iff.1 hempty
  · split at h
    · obtain ⟨x, -, hx⟩ := map_eq_ok h
      cases hx
    · cases h

theorem evaluate_eq_none_iff {text : String} {b : Bindings} :
    (evaluate text b).result = .ok none ↔ postfixOf text = .ok [] := by
  cases hps : postfixOf text with
  | error e =>
    rw [(evaluate_of_postfixOf_error hps b).1]
    exact iff_of_false nofun nofun
  | ok ps =>
    rw [(evaluate_of_postfixOf hps b).1, evaluatePostfix_eq_none_iff, Except.ok.injEq]

/-- A report of `calculate` is good and empty exactly if `evaluate` gives no operand. -/
theorem Session.report_blank_iff {s : Session} {text : String} :
    (s.calculate text).answer.report text = ⟨text, none, none, none, none⟩ ↔ (evaluate text s.bindings).result = .ok none := by
  cases h : (evaluate text s.bindings).result with
  | error e =>
    rw [calculate_of_error h]
    exact iff_of_false nofun nofun
  | ok x =>
    rcases x with _ | v | name
    · rw [calculate_of_none h]
      exact iff_of_true rfl rfl
    · rw [calculate_of_real h]
      exact iff_of_false nofun nofun
    · rw [calculate_of_var h]
      refine iff_of_false ?_ nofun
      split <;> exact nofun

/-- **No value means nothing to work off.** An evaluation gives neither an operand nor an error exactly if the normal
text is empty, or the text has commas and the normal text is hollow; then no binding is changed. `calculate` reports
neither a value nor an error for the same texts alone. The normal text is empty if there are only blanks and plus
signs. -/
theorem evaluate_hollow (text : String) (b : Bindings) :
    ((evaluate text b).result = .ok none ↔
      normalize text = "" ∨ ',' ∈ text.toList ∧ Hollow (NormalText.ofChars text.toList)) ∧
    ((evaluate text b).result = .ok none → (evaluate text b).bindings = b) ∧
    (∀ settings, ((⟨b, settings⟩ : Session).calculate text).answer.report text = ⟨text, none, none, none, none⟩ ↔
      (evaluate text b).result = .ok none) ∧
    (normalize text = "" ↔ ∀ c ∈ text.toList, Text.isBlank c = true ∨ c = '+') := by
  have hnormal : normalize text = "" ↔ NormalText.ofChars text.toList = [] := by
    rw [normalize, String.ofList_eq_empty_iff]
  refine ⟨?_, fun h => (evaluate_of_postfixOf (evaluate_eq_none_iff.1 h) b).2, fun settings => Session.report_blank_iff,
    hnormal.trans NormalText.ofChars_eq_nil_iff⟩
  rw [evaluate_eq_none_iff]
  constructor
  · intro h
    have hhollow := hollow_of_postfixOf h
    by_cases hcomma : ',' ∈ text.toList
    · exact Or.inr ⟨hcomma, hhollow⟩
    -- without a comma in the text there is none in the normal text
    · refine Or.inl (hnormal.2 (hhollow.eq_nil fun hmem => ?_))
      rcases NormalText.mem_of_mem_ofChars hmem with h | h | h | h | h
      · exact hcomma h
      all_goals cases h
  · rintro (h | ⟨-, h⟩)
    · exact postfixOf_of_hollow (hnormal.1 h ▸ hollow_nil)
    · exact postfixOf_of_hollow h

/-- A comma fills a pair of parentheses, but not with a value. -/
theorem evaluate_pair_of_comma : (evaluate "(,)" .constants).result = .ok none ∧ normalize "(,)" ≠ "" :=
  ⟨rfl, by decide⟩

end Reckoner
