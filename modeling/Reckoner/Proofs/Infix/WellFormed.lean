import Reckoner.Proofs.Formula.Basic
import Reckoner.Proofs.Infix.Sentence

/-!
# Well-formed tokens

What reading leaves to be relied on: parentheses match, every token is one that text can write, and
every two neighbours may stand beside each other. `Adjoins` is the condition on two neighbours, with
`none` for the beginning and the end of a list.
-/

namespace Reckoner

namespace Token

def opensOperand : Token → Bool
  | operator (.binary _) | openParen | separator => true
  | _ => false

/-- Can text write the token? Minus one is what a sign writes; a literal writes a number whose sign
bit is clear. -/
def IsWritten : Token → Prop
  | operand (.real x) => x = .one true ∨ (x ≠ .nan ∧ x.signBit = false)
  | operand (.var name) => ∃ n : Formula.Name, n.text = name
  | unknown => False
  | _ => True

end Token

namespace Infix

def atOperand (before : Option Token) : Bool := before.all Token.opensOperand

structure Adjoins (before after : Option Token) : Prop where
  /-- A parenthesis opens where an operand starts, or after a function. -/
  opens : after = some .openParen → atOperand before = true ∨ ∃ f, before = some (.function f)
  /-- Parentheses have something in between. -/
  filled : before = some .openParen → after ≠ some .closeParen
  /-- A parenthesis opens after every function. -/
  called : ∀ f, before = some (.function f) → after = some .openParen
  /-- A plus sign stands only where an operand has ended. -/
  plus : after = some (.binary .add) → atOperand before = false
  /-- Minus one stands only where an operand starts. -/
  sign : after = some (.real (.one true)) → atOperand before = true
  /-- Minus one is a factor. -/
  factor : before = some (.real (.one true)) → after = some (.binary .mul)

/-- Do parentheses match? No beginning of the list closes more than it opens. -/
structure Balanced (ts : List Token) : Prop where
  within : ∀ l, l <+: ts → l.count .closeParen ≤ l.count .openParen
  total : ts.count .openParen = ts.count .closeParen

/-- Are the tokens such as reading leaves? -/
structure WellFormed (ts : List Token) : Prop where
  balanced : Balanced ts
  written : ∀ t ∈ ts, t.IsWritten
  adjoins : ∀ l r, ts = l ++ r → Adjoins l.getLast? r.head?

/-! ## Depth by counting -/

/-- A token that is no parenthesis changes no depth. -/
theorem depthAfter_cons_of_ne {t : Token} (ho : t ≠ .openParen) (hc : t ≠ .closeParen) (d : Nat) (ts : List Token) :
    depthAfter d (t :: ts) = depthAfter d ts := by
  cases t <;> cases d <;> first | rfl | exact absurd rfl ho | exact absurd rfl hc

/-- The depth after a list is the count of the parentheses that it leaves open, if no beginning of it
closes too many. -/
theorem depthAfter_eq_some_iff {d d' : Nat} {ts : List Token} :
    depthAfter d ts = some d' ↔
      (∀ l, l <+: ts → l.count .closeParen ≤ d + l.count .openParen) ∧
      d + ts.count .openParen = d' + ts.count .closeParen := by
  induction ts generalizing d with
  | nil => simp [depthAfter, List.prefix_nil]
  | cons t ts ih =>
    have within : ∀ {p : List Token → Prop}, p [] → ((∀ l, l <+: t :: ts → p l) ↔ ∀ l, l <+: ts → p (t :: l)) := by
      intro p hp
      refine ⟨fun h l hl => h _ (List.cons_prefix_cons.2 ⟨rfl, hl⟩), fun h l hl => ?_⟩
      rcases List.prefix_cons_iff.1 hl with rfl | ⟨m, rfl, hm⟩
      · exact hp
      · exact h m hm
    rw [within (by simp)]
    by_cases ho : t = .openParen
    · subst ho
      simp only [depthAfter, ih, List.count_cons_self,
        List.count_cons_of_ne (show Token.openParen ≠ .closeParen by decide)]
      exact and_congr (forall₂_congr fun l _ => by omega) (by omega)
    by_cases hc : t = .closeParen
    · subst hc
      cases d with
      | zero =>
        refine iff_of_false nofun fun h => ?_
        have := h.1 [] List.nil_prefix
        simp at this
      | succ d =>
        simp only [depthAfter, ih, List.count_cons_self,
          List.count_cons_of_ne (show Token.closeParen ≠ .openParen by decide)]
        exact and_congr (forall₂_congr fun l _ => by omega) (by omega)
    · rw [depthAfter_cons_of_ne ho hc, ih]
      simp only [List.count_cons_of_ne ho, List.count_cons_of_ne hc]

theorem balanced_iff {ts : List Token} : Balanced ts ↔ depthAfter 0 ts = some 0 := by
  rw [depthAfter_eq_some_iff]
  simp only [Nat.zero_add]
  exact ⟨fun h => ⟨h.within, h.total⟩, fun h => ⟨h.1, h.2⟩⟩

/-! ## Linked tokens -/

/-- Tokens that text can write, the most recent first, of which each may stand after the one before. -/
def Linked : List Token → Prop
  | [] => True
  | t :: ts => Adjoins ts.head? (some t) ∧ t.IsWritten ∧ Linked ts

variable {ts : List Token} {t : Token}

theorem Linked.isWritten (h : Linked ts) : ∀ t ∈ ts, t.IsWritten := by
  induction ts with
  | nil => exact fun t ht => absurd ht List.not_mem_nil
  | cons t ts ih => exact List.forall_mem_cons.2 ⟨h.2.1, ih h.2.2⟩

theorem Linked.adjoins {l r : List Token} (h : Linked (r ++ t :: l)) : Adjoins l.head? (some t) := by
  induction r with
  | nil => exact h.1
  | cons u r ih => exact ih h.2.2

/-- Linked tokens that could be a whole list. -/
structure Whole (ts : List Token) : Prop where
  linked : Linked ts
  last : Adjoins ts.head? none

/-- Whole tokens adjoin wherever they are parted. -/
theorem Whole.adjoins_reverse {l r : List Token} (h : Whole ts) (e : ts.reverse = l ++ r) :
    Adjoins l.getLast? r.head? := by
  obtain ⟨hlinked, hlast⟩ := h
  obtain rfl : ts = r.reverse ++ l.reverse := by rw [← List.reverse_append, ← e, List.reverse_reverse]
  rw [← List.head?_reverse]
  cases r with
  | nil => exact hlast
  | cons t r =>
    rw [List.reverse_cons, List.append_assoc] at hlinked
    exact hlinked.adjoins

/-- Whole tokens are well-formed if parentheses match. -/
theorem Whole.wellFormed (h : Whole ts.reverse) (hd : depthAfter 0 ts = some 0) : WellFormed ts where
  balanced := balanced_iff.2 hd
  written t ht := h.linked.isWritten t (List.mem_reverse.2 ht)
  adjoins _ _ e := h.adjoins_reverse ((List.reverse_reverse ts).trans e)

/-! ## Longer lists -/

/-- What may end a list may stand before a token, as far as the token allows it. -/
theorem Adjoins.next {before : Option Token} (h : Adjoins before none)
    (opens : t = .openParen → atOperand before = true) (filled : before = some .openParen → t ≠ .closeParen)
    (plus : t = .binary .add → atOperand before = false) (sign : t = .real (.one true) → atOperand before = true) :
    Adjoins before (some t) where
  opens ht := Or.inl (opens (Option.some.inj ht))
  filled hb ht := filled hb (Option.some.inj ht)
  called f hf := absurd (h.called f hf) nofun
  plus ht := plus (Option.some.inj ht)
  sign ht := sign (Option.some.inj ht)
  factor hb := absurd (h.factor hb) nofun

/-- All but a function and minus one may end a list. -/
theorem Adjoins.last (called : ∀ f, t ≠ .function f) (factor : t ≠ .real (.one true)) : Adjoins (some t) none where
  opens := nofun
  filled _ := nofun
  called f hf := absurd (Option.some.inj hf) (called f)
  plus := nofun
  sign := nofun
  factor ht := absurd (Option.some.inj ht) factor

/-- A list goes on with a token that may end it. -/
theorem Whole.cons (h : Whole ts) (written : t.IsWritten) (called : ∀ f, t ≠ .function f)
    (factor : t ≠ .real (.one true)) (opens : t = .openParen → atOperand ts.head? = true)
    (filled : ts.head? = some .openParen → t ≠ .closeParen)
    (plus : t = .binary .add → atOperand ts.head? = false) : Whole (t :: ts) :=
  ⟨⟨h.last.next opens filled plus fun e => absurd e factor, written, h.linked⟩, .last called factor⟩

theorem Whole.operand {x : Operand} (h : Whole ts) (hx : x ≠ .real (.one true)) (hw : (Token.operand x).IsWritten) :
    Whole (.operand x :: ts) :=
  h.cons hw nofun (fun e => hx (Token.operand.inj e)) nofun (fun _ => nofun) nofun

theorem Whole.mul (h : Whole ts) : Whole (.binary .mul :: ts) :=
  h.cons trivial nofun nofun nofun (fun _ => nofun) nofun

theorem Whole.openParen (h : Whole ts) (hts : atOperand ts.head? = true) : Whole (.openParen :: ts) :=
  h.cons trivial nofun nofun (fun _ => hts) (fun _ => nofun) nofun

theorem Whole.closeParen (h : Whole ts) (hts : ts.head? ≠ some .openParen) : Whole (.closeParen :: ts) :=
  h.cons trivial nofun nofun nofun (fun e => absurd e hts) nofun

/-- A function goes on a list together with the parenthesis of its operand. -/
theorem Whole.call (h : Whole ts) (f : Fn) : Whole (.openParen :: .function f :: ts) := by
  have hf : Adjoins ts.head? (some (.function f)) := h.last.next nofun (fun _ => nofun) nofun nofun
  have ho : Adjoins (some (.function f)) (some .openParen) :=
    ⟨fun _ => Or.inr ⟨f, rfl⟩, nofun, fun _ _ => rfl, nofun, nofun, nofun⟩
  exact ⟨⟨ho, trivial, hf, trivial, h.linked⟩, .last nofun nofun⟩

/-- So does minus one together with its product, where an operand starts. -/
theorem Whole.sign (h : Whole ts) (hts : atOperand ts.head? = true) :
    Whole (.binary .mul :: .real (.one true) :: ts) := by
  have hs : Adjoins ts.head? (some (.real (.one true))) := h.last.next nofun (fun _ => nofun) nofun fun _ => hts
  have hm : Adjoins (some (.real (.one true))) (some (.binary .mul)) :=
    ⟨nofun, nofun, nofun, nofun, nofun, fun _ => rfl⟩
  exact ⟨⟨hm, trivial, hs, Or.inl rfl, h.linked⟩, .last nofun nofun⟩

end Infix
end Reckoner
