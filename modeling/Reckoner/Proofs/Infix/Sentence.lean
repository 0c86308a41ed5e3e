import Reckoner.Proofs.Infix.Chain

/-!
# Sentences and gaps

A sentence is the token list of a chain. In a list that is none, gaps are counted from left to
right: an operand is missing where one would have to start and none does, an operator is missing
where an operand ends and the next one starts, and at every separator. Each operand closes a gap of
the first kind and each binary operator one of the second, so the two counts differ by as much as the
numbers of operands and operators do (`gaps_balance`). The sentences are the lists without gaps in
which parentheses match and an opening one follows every function (`isSentence_iff`).
-/

namespace Reckoner

namespace Token

def endsOperand : Token → Bool
  | operand _ | closeParen => true
  | _ => false

def startsOperand : Token → Bool
  | operand _ | openParen | operator (.function _) => true
  | _ => false

def separates : Token → Bool
  | separator | unknown => true
  | _ => false

def isOperand : Token → Bool
  | operand _ => true
  | _ => false

def isBinary : Token → Bool
  | operator (.binary _) => true
  | _ => false

def isFunction : Token → Bool
  | operator (.function _) => true
  | _ => false

end Token

namespace Infix

def IsSentence (ts : List Token) : Prop := ∃ c : Chain, c.tokens = ts

/-! ## Gaps -/

/-- How many operands are missing; `after` says whether an operand has just ended. -/
def missingOperands : (after : Bool) → List Token → Nat
  | after, [] => if after then 0 else 1
  | after, t :: ts => (if !after && !t.startsOperand then 1 else 0) + missingOperands t.endsOperand ts

/-- How many operators are missing; `after` says whether an operand has just ended. -/
def missingOperators : (after : Bool) → List Token → Nat
  | _, [] => 0
  | after, t :: ts =>
    (if t.separates || (after && t.startsOperand) then 1 else 0) + missingOperators t.endsOperand ts

theorem gaps_balance (after : Bool) (ts : List Token) :
    (if after then 1 else 0) + ts.countP Token.isOperand + missingOperands after ts =
      1 + ts.countP Token.isBinary + missingOperators after ts := by
  induction ts generalizing after with
  | nil => cases after <;> rfl
  | cons t ts ih =>
    have h := ih t.endsOperand
    rw [List.countP_cons, List.countP_cons, missingOperands, missingOperators]
    rcases t with _ | (_ | _) | _ | _ | _ | _ <;> cases after <;>
      simp [Token.endsOperand, Token.startsOperand, Token.separates, Token.isOperand, Token.isBinary] at h ⊢ <;>
      omega

/-- Nothing is missing in a list read from a state. -/
def Gapless (after : Bool) (ts : List Token) : Prop :=
  missingOperands after ts = 0 ∧ missingOperators after ts = 0

theorem gapless_cons {after : Bool} {t : Token} {ts : List Token} :
    Gapless after (t :: ts) ↔
      ((after || t.startsOperand) = true ∧ t.separates = false ∧ (after && t.startsOperand) = false) ∧
        Gapless t.endsOperand ts := by
  simp only [Gapless, missingOperands, missingOperators]
  cases after <;> cases t.startsOperand <;> cases t.separates <;> simp [Nat.add_eq_zero_iff]

theorem gapless_false_nil : ¬ Gapless false [] := by simp [Gapless, missingOperands]

theorem gapless_true_nil : Gapless true [] := ⟨rfl, rfl⟩

mutual

theorem gapless_primary : ∀ (p : Primary) (ts : List Token), Gapless false (p.tokens ++ ts) ↔ Gapless true ts
  | .operand x, ts => by simp [Primary.tokens, gapless_cons, Token.startsOperand, Token.endsOperand, Token.separates]
  | .group c, ts => by
    rw [Primary.tokens, List.cons_append, List.append_assoc, gapless_cons]
    simp [Token.startsOperand, Token.endsOperand, Token.separates, gapless_chain c, gapless_cons]
  | .call f c, ts => by
    rw [Primary.tokens, List.cons_append, List.cons_append, List.append_assoc, gapless_cons, gapless_cons]
    simp [Token.startsOperand, Token.endsOperand, Token.separates, gapless_chain c, gapless_cons]

theorem gapless_chain : ∀ (c : Chain) (ts : List Token), Gapless false (c.tokens ++ ts) ↔ Gapless true ts
  | .last p, ts => gapless_primary p ts
  | .link p op c, ts => by
    rw [Chain.tokens, List.append_assoc, gapless_primary p, List.cons_append, gapless_cons]
    simp [Token.startsOperand, Token.endsOperand, Token.separates, gapless_chain c]

end

/-! ## Parentheses -/

/-- How many parentheses are open after a list, if none closes too early. -/
def depthAfter : (depth : Nat) → List Token → Option Nat
  | d, [] => some d
  | d, .openParen :: ts => depthAfter (d + 1) ts
  | 0, .closeParen :: _ => none
  | d + 1, .closeParen :: ts => depthAfter d ts
  | d, _ :: ts => depthAfter d ts

/-- Does an opening parenthesis follow every function? -/
def Called : List Token → Prop
  | [] => True
  | t :: ts => (t.isFunction = true → ts.head? = some .openParen) ∧ Called ts

theorem Called.append {us : List Token} (hu : Called us) : ∀ {ts : List Token}, Called ts → Called (ts ++ us)
  | [], _ => hu
  | t :: ts, ⟨ht, hts⟩ => by
    refine ⟨fun h => ?_, hu.append hts⟩
    cases ts with
    | nil => exact absurd (ht h) (by simp)
    | cons v vs => exact ht h

theorem depthAfter_append (d : Nat) (ts us : List Token) :
    depthAfter d (ts ++ us) = (depthAfter d ts).bind (depthAfter · us) := by
  induction ts generalizing d with
  | nil => rfl
  | cons t ts ih =>
    rcases t with _ | _ | _ | _ | _ | _ <;> cases d <;> simp [depthAfter, ih]

theorem depthAfter_cons (d : Nat) (t : Token) (ts : List Token) :
    depthAfter d (t :: ts) = (depthAfter d [t]).bind (depthAfter · ts) := depthAfter_append d [t] ts

mutual

theorem depthAfter_primary : ∀ (p : Primary) (d : Nat) (ts : List Token),
    depthAfter d (p.tokens ++ ts) = depthAfter d ts
  | .operand x, d, ts => by simp [Primary.tokens, depthAfter]
  | .group c, d, ts => by simp [Primary.tokens, depthAfter, depthAfter_chain c]
  | .call f c, d, ts => by simp [Primary.tokens, depthAfter, depthAfter_chain c]

theorem depthAfter_chain : ∀ (c : Chain) (d : Nat) (ts : List Token),
    depthAfter d (c.tokens ++ ts) = depthAfter d ts
  | .last p, d, ts => depthAfter_primary p d ts
  | .link p op c, d, ts => by
    simp [Chain.tokens, depthAfter_primary p, depthAfter, depthAfter_chain c]

end

mutual

theorem called_primary : ∀ (p : Primary) (ts : List Token), Called (p.tokens ++ ts) ↔ Called ts
  | .operand x, ts => by simp [Primary.tokens, Called, Token.isFunction]
  | .group c, ts => by simp [Primary.tokens, Called, Token.isFunction, called_chain c]
  | .call f c, ts => by simp [Primary.tokens, Called, Token.isFunction, called_chain c]

theorem called_chain : ∀ (c : Chain) (ts : List Token), Called (c.tokens ++ ts) ↔ Called ts
  | .last p, ts => called_primary p ts
  | .link p op c, ts => by
    simp [Chain.tokens, called_primary p, Called, Token.isFunction, called_chain c]

end

/-! ## Sentences are the lists without gaps -/

/-- A list that can still be the rest of a sentence after something of depth `d`. -/
structure Continues (after : Bool) (d : Nat) (ts : List Token) : Prop where
  gapless : Gapless after ts
  called : Called ts
  closes : depthAfter d ts = some 0

/-- A list that begins with a chain, after which it ends or a parenthesis closes. -/
def BeginsWithChain (d : Nat) (ts : List Token) : Prop :=
  ∃ (c : Chain) (rest : List Token), ts = c.tokens ++ rest ∧ Continues true d rest ∧
    (rest = [] ∨ ∃ us, rest = .closeParen :: us)

/-- A primary goes on to a chain if every shorter rest begins with one. -/
theorem beginsWithChain_of_primary (p : Primary) {d : Nat} {ts : List Token} (h : Continues true d ts)
    (ih : ∀ us : List Token, us.length < ts.length → Continues false d us → BeginsWithChain d us) :
    BeginsWithChain d (p.tokens ++ ts) := by
  obtain ⟨hg, hc, hd⟩ := h
  cases ts with
  | nil => exact ⟨.last p, [], rfl, ⟨hg, hc, hd⟩, Or.inl rfl⟩
  | cons t us =>
    obtain ⟨⟨-, hsep, hstart⟩, hg'⟩ := gapless_cons.1 hg
    rcases t with x | (op | f) | _ | _ | _ | _
    case closeParen => exact ⟨.last p, .closeParen :: us, rfl, ⟨hg, hc, hd⟩, Or.inr ⟨us, rfl⟩⟩
    case operator.binary =>
      obtain ⟨c, rest, rfl, hrest, hend⟩ := ih us (by simp) ⟨hg', hc.2, hd⟩
      exact ⟨.link p op c, rest, by simp [Chain.tokens], hrest, hend⟩
    all_goals simp [Token.startsOperand, Token.separates] at hstart hsep

theorem beginsWithChain {d : Nat} {ts : List Token} (h : Continues false d ts) : BeginsWithChain d ts := by
  induction hn : ts.length using Nat.strongRecOn generalizing d ts with
  | ind n ih =>
  have shorter : ∀ {d us}, us.length < ts.length → Continues false d us → BeginsWithChain d us :=
    fun hlt hus => ih _ (by omega) hus rfl
  -- a chain in parentheses: it cannot end the list, since the parenthesis is still open
  have group : ∀ {us}, us.length < ts.length → Continues false (d + 1) us →
      ∃ (c : Chain) (vs : List Token), us = c.tokens ++ .closeParen :: vs ∧ Continues true d vs := by
    intro us hlt hus
    obtain ⟨c, rest, rfl, ⟨hg, hc, hd⟩, hend⟩ := shorter hlt hus
    rcases hend with rfl | ⟨vs, rfl⟩
    · simp [depthAfter] at hd
    · exact ⟨c, vs, rfl, (gapless_cons.1 hg).2, hc.2, hd⟩
  obtain ⟨hg, hc, hd⟩ := h
  cases ts with
  | nil => exact absurd hg gapless_false_nil
  | cons t us =>
    obtain ⟨⟨hstart, -, -⟩, hg'⟩ := gapless_cons.1 hg
    rcases t with x | (op | f) | _ | _ | _ | _
    case operand =>
      exact beginsWithChain_of_primary (.operand x) ⟨hg', hc.2, hd⟩ fun vs hlt hvs => shorter (by simp; omega) hvs
    case openParen =>
      obtain ⟨c, vs, rfl, hvs⟩ := group (by simp) ⟨hg', hc.2, hd⟩
      have e : .openParen :: (c.tokens ++ .closeParen :: vs) = (Primary.group c).tokens ++ vs := by
        simp [Primary.tokens]
      rw [e]
      exact beginsWithChain_of_primary _ hvs fun ws hlt hws => shorter (by simp; omega) hws
    case operator.function =>
      obtain ⟨ws, rfl⟩ : ∃ ws, us = .openParen :: ws := List.head?_eq_some_iff.1 (hc.1 rfl)
      have hlt : ws.length < (.function f :: .openParen :: ws : List Token).length := by
        simp only [List.length_cons]; omega
      obtain ⟨c, vs, rfl, hvs⟩ := group hlt ⟨(gapless_cons.1 hg').2, hc.2.2, hd⟩
      have e : .function f :: .openParen :: (c.tokens ++ .closeParen :: vs) = (Primary.call f c).tokens ++ vs := by
        simp [Primary.tokens]
      rw [e]
      exact beginsWithChain_of_primary _ hvs fun ws hlt hws => shorter (by simp; omega) hws
    all_goals simp [Token.startsOperand] at hstart

/-- The sentences are the lists with matching parentheses, called functions and no gaps. -/
theorem isSentence_iff {ts : List Token} :
    IsSentence ts ↔ Called ts ∧ depthAfter 0 ts = some 0 ∧ Gapless false ts := by
  constructor
  · rintro ⟨c, rfl⟩
    have hc := called_chain c []
    have hd := depthAfter_chain c 0 []
    have hg := gapless_chain c []
    rw [List.append_nil] at hc hd hg
    exact ⟨hc.2 trivial, hd, hg.2 gapless_true_nil⟩
  · rintro ⟨hc, hd, hg⟩
    obtain ⟨c, rest, rfl, ⟨-, -, hd'⟩, hend⟩ := beginsWithChain ⟨hg, hc, hd⟩
    rcases hend with rfl | ⟨us, rfl⟩
    · exact ⟨c, by simp⟩
    · simp [depthAfter] at hd'

end Infix
end Reckoner
