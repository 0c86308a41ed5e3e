import Reckoner.Proofs.Formula.Reading
import Reckoner.Proofs.Infix.WellFormed
import Reckoner.Proofs.NormalText.Resumption

/-!
# What a scan reads is well-formed

Between two characters of normal text a scan stands in one of three ways (`Reading`): nothing is held
back, and an operand starts after the tokens exactly if one starts after the last character; or a
part of a number or of a name is held back. `sound_step` keeps this, and with it that each token may
stand after the one before it, for every character but the signs, which `sound_sign` reads at once.
-/

namespace Reckoner

namespace Scan

open Infix (Adjoins Whole atOperand)
open Formula (Name beginsName)
open NormalText (Tidy)

variable {ts : List Token} {t : Token}

/-! ## How a scan stands -/

/-- How a scan stands after the character `before`. -/
inductive Reading : Option Char → Scan → Prop
  | settled {before : Option Char} {ts : List Token} {d : Nat}
      (same : atOperand ts.head? = NormalText.atOperand before)
      (closed : before ≠ some ' ' → atOperand ts.head? = false → ts.head? = some .closeParen) :
      Reading before ⟨ts, .none, d⟩
  | number {c : Char} {cs : List Char} {ts : List Token} {d : Nat}
      (digits : ∀ e ∈ c :: cs, isNumberChar e = true ∧ e ≠ '-') : Reading (some c) ⟨ts, .number (c :: cs), d⟩
  | word {c : Char} {cs : List Char} {ts : List Token} {d : Nat} (n : Name) (chars : n.chars = (c :: cs).reverse) :
      Reading (some c) ⟨ts, .word (c :: cs), d⟩

/-- The invariant of a scan. -/
structure Sound (before : Option Char) (s : Scan) : Prop where
  whole : Whole s.tokens
  reading : Reading before s

variable {known : List Fn} {s s' : Scan} {before : Option Char} {c : Char}

/-! ## Characters of numbers and names -/

theorem isWordChar_of_isNumberChar (h : isNumberChar c = true) (hc : c ≠ '-') : Formula.isWordChar c = true := by
  simp only [isNumberChar, Bool.or_eq_true, beq_iff_eq, hc, or_false] at h
  rcases h with hd | rfl
  · simp [Formula.isWordChar, hd]
  · rfl

/-- No operand starts after a part of a number or a name. -/
theorem Reading.atOperand_eq (h : Reading before s) (hp : s.pending ≠ .none) : NormalText.atOperand before = false := by
  cases h with
  | settled => exact absurd rfl hp
  | number digits =>
    obtain ⟨hn, hc⟩ := digits _ (List.mem_cons_self ..)
    exact Formula.opensOperand_of_isWordChar (isWordChar_of_isNumberChar hn hc)
  | word n chars => exact Formula.opensOperand_of_isWordChar (n.isWordChar_of_mem (by simp [chars]))

/-- A name goes on with any character of a name. -/
theorem exists_name_append (n : Name) (h : isNameChar c = true) : ∃ n' : Name, n'.chars = n.chars ++ [c] := by
  rw [isNameChar_eq] at h
  exact ⟨⟨n.head, n.tail ++ [c], n.head_begins, by rw [List.all_append, n.tail_within]; simpa using h⟩, rfl⟩

/-! ## What is held back -/

/-- A number of digits and points goes on with a whole list. -/
theorem whole_number {cs : List Char} (h : Whole ts) (ht : numberToken cs = .ok t)
    (digits : ∀ e ∈ cs, isNumberChar e = true ∧ e ≠ '-') : Whole (t :: ts) ∧ ∃ x, t = .operand x := by
  obtain ⟨x, hx, rfl⟩ := numberToken_eq_ok ht
  obtain ⟨l, -, rfl⟩ := Formula.exists_literal_of_readLiteral hx fun hm => (digits _ (List.mem_reverse.1 hm)).2 rfl
  refine ⟨h.operand (fun e => ?_) (Or.inr l.value_nonnegative), _, rfl⟩
  have hsign := l.value_nonnegative.2
  rw [Operand.real.inj e] at hsign
  exact Bool.noConfusion hsign

/-- So does a name. -/
theorem whole_word {cs : List Char} (h : Whole ts) (n : Name) (chars : n.chars = cs.reverse) :
    Whole (.var (.ofList cs.reverse) :: ts) := by
  rw [← chars]
  exact h.operand nofun ⟨n, rfl⟩

/-- What a flush leaves is whole, and an operand starts after it exactly if one starts after the last
character. -/
theorem sound_flush (h : Sound before s) (hs : s.flush = .ok s') :
    ∃ ts, s' = ⟨ts, .none, s.depth⟩ ∧ Whole ts ∧ atOperand ts.head? = NormalText.atOperand before := by
  obtain ⟨hwhole, hreading⟩ := h
  have hbefore := hreading.atOperand_eq
  cases hreading with
  | settled same closed =>
    cases hs
    exact ⟨_, rfl, hwhole, same⟩
  | number digits =>
    obtain ⟨t, ht, rfl⟩ := map_eq_ok hs
    obtain ⟨hwhole, x, rfl⟩ := whole_number hwhole ht digits
    exact ⟨_, rfl, hwhole, (hbefore Pending.noConfusion).symm⟩
  | word n chars =>
    cases hs
    exact ⟨_, rfl, whole_word hwhole n chars, (hbefore Pending.noConfusion).symm⟩

/-! ## One character -/

/-- A token after what a flush leaves. -/
theorem sound_emit (h : Sound before s) (hs : s.flush.map (·.emit t) = .ok s')
    (ht : t.opensOperand = NormalText.opensOperand c) (opens : t.opensOperand = true) (hparen : t ≠ .openParen)
    (plus : t = .binary .add → NormalText.atOperand before = false) : Sound (some c) s' := by
  obtain ⟨s₁, hf, rfl⟩ := map_eq_ok hs
  obtain ⟨ts, rfl, hwhole, same⟩ := sound_flush h hf
  have hw : t.IsWritten ∧ (∀ f, t ≠ .function f) ∧ t ≠ .real (.one true) ∧ t ≠ .closeParen := by
    rcases t with _ | (_ | _) | _ | _ | _ | _ <;>
      first | exact Bool.noConfusion opens | exact ⟨trivial, nofun, nofun, nofun⟩
  refine ⟨hwhole.cons hw.1 hw.2.1 hw.2.2.1 (fun e => absurd e hparen) (fun _ => hw.2.2.2)
    (fun e => same.trans (plus e)), .settled ht fun _ e => ?_⟩
  exact absurd (opens.symm.trans e) Bool.noConfusion

theorem sound_stepNumber (h : Sound before s) (hc : isNumberChar c = true) (hminus : c ≠ '-')
    (hs : s.step known c = .ok s') : Sound (some c) s' := by
  obtain ⟨hwhole, hreading⟩ := h
  cases hreading with
  | settled same closed =>
    rw [step_of_isNumberChar hc fun _ e => Pending.noConfusion e] at hs
    cases hs
    exact ⟨hwhole, .number (by simp [hc, hminus])⟩
  | number digits =>
    rw [step_of_isNumberChar hc fun _ e => Pending.noConfusion e] at hs
    cases hs
    exact ⟨hwhole, .number (List.forall_mem_cons.2 ⟨⟨hc, hminus⟩, digits⟩)⟩
  | word n chars =>
    cases hn : isNameChar c with
    | true =>
      rw [step_of_isNameChar hn] at hs
      cases hs
      obtain ⟨n', hn'⟩ := exists_name_append n hn
      exact ⟨hwhole, .word n' (by rw [hn', chars]; simp)⟩
    | false =>
      rw [step_of_isNumberChar hc fun _ _ => hn] at hs
      cases hs
      exact ⟨whole_word hwhole n chars, .number (by simp [hc, hminus])⟩

theorem sound_stepWord (h : Sound before s) (hc : beginsName c = true) (hs : s.step known c = .ok s') :
    Sound (some c) s' := by
  have hname : (Name.mk c [] hc rfl).chars = [c].reverse := rfl
  obtain ⟨hwhole, hreading⟩ := h
  cases hreading with
  | settled same closed =>
    rw [step_of_beginsName hc] at hs
    cases hs
    exact ⟨hwhole, .word _ hname⟩
  | number digits =>
    rw [step_of_beginsName hc] at hs
    obtain ⟨t, ht, rfl⟩ := map_eq_ok hs
    exact ⟨(whole_number hwhole ht digits).1.mul, .word _ hname⟩
  | word n chars =>
    rw [step_of_isNameChar (isNameChar_of_beginsName hc)] at hs
    cases hs
    obtain ⟨n', hn'⟩ := exists_name_append n (isNameChar_of_beginsName hc)
    exact ⟨hwhole, .word n' (by rw [hn', chars]; simp)⟩

theorem sound_openParen (h : Sound before s) (hb : before ≠ some ' ') (hs : s.stepOpen known = .ok s') :
    Sound (some '(') s' := by
  obtain ⟨hwhole, hreading⟩ := h
  -- all that is left to show after an opening parenthesis
  have opened : ∀ {ts : List Token} {d : Nat}, Whole (.openParen :: ts) →
      Sound (some '(') ⟨.openParen :: ts, .none, d⟩ :=
    fun hwhole => ⟨hwhole, .settled rfl fun _ e => Bool.noConfusion e⟩
  cases hreading with
  | settled same closed =>
    simp only [stepOpen] at hs
    split at hs
    · cases hs
      exact opened (hwhole.mul.openParen rfl)
    · rename_i hts
      cases hs
      refine opened (hwhole.openParen ?_)
      rw [← Bool.not_eq_false]
      intro e
      obtain ⟨us, hus⟩ := List.head?_eq_some_iff.1 (closed hb e)
      exact hts us hus
  | number digits =>
    obtain ⟨t, ht, rfl⟩ := map_eq_ok hs
    exact opened ((whole_number hwhole ht digits).1.mul.openParen rfl)
  | word n chars =>
    simp only [stepOpen] at hs
    split at hs <;> cases hs
    exact opened (hwhole.call _)

theorem sound_closeParen (h : Sound before s) (hs : s.stepClose = .ok s') : Sound (some ')') s' := by
  unfold stepClose at hs
  split at hs
  · cases hs
  split at hs
  · cases hs
  · rename_i hempty
    obtain ⟨s₁, hf, rfl⟩ := map_eq_ok hs
    have hopen : s₁.tokens.head? ≠ some .openParen := by
      intro e
      rcases h with ⟨-, - | - | -⟩
      · cases hf
        exact hempty ⟨rfl, e⟩
      · obtain ⟨t, ht, rfl⟩ := map_eq_ok hf
        obtain ⟨x, -, rfl⟩ := numberToken_eq_ok ht
        cases e
      · cases hf
        cases e
    obtain ⟨ts, rfl, hwhole, same⟩ := sound_flush h hf
    exact ⟨hwhole.closeParen hopen, .settled rfl fun _ _ => rfl⟩

/-- A space after a number or a name. -/
theorem sound_space (h : Sound before s) (hb : NormalText.afterJoining before = true) (hs : s.flush = .ok s') :
    Sound (some ' ') s' := by
  obtain ⟨ts, rfl, hwhole, same⟩ := sound_flush h hs
  refine ⟨hwhole, .settled (same.trans ?_) fun e => absurd rfl e⟩
  cases before with
  | none => cases hb
  | some c => exact NormalText.opensOperand_of_joins hb

/-- Every character but a minus sign. -/
theorem sound_step (h : Sound before s) (hminus : c ≠ '-') (plus : c = '+' → NormalText.atOperand before = false)
    (space : c = ' ' → NormalText.afterJoining before = true) (paren : c = '(' → before ≠ some ' ')
    (hs : s.step known c = .ok s') : Sound (some c) s' := by
  cases hn : isNumberChar c with
  | true => exact sound_stepNumber h hn hminus hs
  | false =>
  cases hb : beginsName c with
  | true => exact sound_stepWord h hb hs
  | false =>
  rw [step_of_neither hb hn] at hs
  split at hs
  · rename_i op hop
    obtain rfl := BinaryOp.ofSymbol?_eq_some_iff.1 hop
    refine sound_emit h hs (by cases op <;> rfl) rfl nofun fun e => plus ?_
    cases e
    rfl
  split at hs
  · rename_i hc
    subst hc
    exact sound_openParen h (paren rfl) hs
  split at hs
  · rename_i hc
    subst hc
    exact sound_closeParen h hs
  split at hs
  · rename_i hc
    subst hc
    exact sound_emit h hs rfl rfl nofun nofun
  split at hs
  · rename_i hc
    subst hc
    exact sound_space h (space rfl) hs
  · cases hs

/-- A minus sign, as a product with minus one. -/
theorem sound_sign (known : List Fn) (h : Sound before s) (hb : NormalText.atOperand before = true) :
    ∃ s', s.steps known ['-', '1', '*'] = .ok s' ∧ Sound (some '*') s' := by
  obtain ⟨hwhole, hreading⟩ := h
  have hnone : s.pending = .none := by
    refine Classical.not_not.1 fun hp => ?_
    rw [hreading.atOperand_eq hp] at hb
    cases hb
  cases hreading with
  | settled same closed =>
    exact ⟨_, Formula.steps_sign, hwhole.sign (same.trans hb), .settled rfl fun _ e => Bool.noConfusion e⟩
  | number digits => cases hnone
  | word n chars => cases hnone

/-! ## A whole text -/

theorem sound_steps {cs : List Char} (ht : Tidy before cs) (hb : before ≠ some ' ') (h : Sound before s)
    (hs : s.steps known cs = .ok s') : ∃ before', Sound before' s' := by
  induction ht generalizing s with
  | nil =>
    cases hs
    exact ⟨_, h⟩
  | @minus before cs starts ht ih =>
    obtain ⟨s₁, hsign, h₁⟩ := sound_sign known h starts
    rw [show '-' :: '1' :: '*' :: cs = ['-', '1', '*'] ++ cs from rfl, steps_append_of_ok hsign] at hs
    exact ih (by decide) h₁ hs
  | plus ended ht ih =>
    rw [steps_cons] at hs
    obtain ⟨s₁, hc, hs⟩ := bind_eq_ok hs
    exact ih (by decide) (sound_step h (by decide) (fun _ => ended) nofun nofun hc) hs
  | @space before c cs left right ht ih =>
    rw [steps_cons] at hs
    obtain ⟨s₁, hspace, hs⟩ := bind_eq_ok hs
    rw [steps_cons] at hs
    obtain ⟨s₂, hc, hs⟩ := bind_eq_ok hs
    have h₁ : Sound (some ' ') s₁ := sound_step h (by decide) nofun (fun _ => left) nofun hspace
    have hne : ∀ {e : Char}, NormalText.joins e = false → c ≠ e := by
      rintro e he rfl
      rw [right] at he
      cases he
    have hspace : c ≠ ' ' := hne (by decide)
    refine ih (fun e => hspace (Option.some.inj e)) (sound_step h₁ (hne (by decide)) (fun e => ?_) (fun e => ?_)
      (fun e => ?_) hc) hs
    · exact absurd e (hne (by decide))
    · exact absurd e hspace
    · exact absurd e (hne (by decide))
  | @char before c cs minus plus visible ht ih =>
    rw [steps_cons] at hs
    obtain ⟨s₁, hc, hs⟩ := bind_eq_ok hs
    have hspace : c ≠ ' ' := by
      rintro rfl
      exact absurd visible (by decide)
    refine ih (fun e => hspace (Option.some.inj e)) (sound_step h minus (fun e => absurd e plus)
      (fun e => absurd e hspace) (fun _ => hb) hc) hs

end Scan

/-- The tokens of a text are linked. -/
theorem whole_of_tokenizeWith {known : List Fn} {text : String} {ts : List Token}
    (h : tokenizeWith known text = .ok ts) : Infix.Whole ts.reverse := by
  unfold tokenizeWith at h
  obtain ⟨s, hs, h⟩ := bind_eq_ok h
  have hstart : Scan.Sound none .start := ⟨⟨trivial, ⟨nofun, nofun, nofun, nofun, nofun, nofun⟩⟩, .settled rfl fun _ e => Bool.noConfusion e⟩
  obtain ⟨before, hsound⟩ := Scan.sound_steps (NormalText.tidy_ofChars text.toList) nofun hstart hs
  unfold Scan.finish at h
  split at h
  · obtain ⟨s', hf, rfl⟩ := map_eq_ok h
    obtain ⟨ts, rfl, hwhole, -⟩ := Scan.sound_flush hsound hf
    rwa [List.reverse_reverse]
  · cases h

/-- **What is read is well-formed.** Whenever an expression has tokens, its parentheses match, its
numbers and names are such as text can write, and every two neighbours may stand beside each other. -/
theorem wellFormed_of_tokenizeWith {known : List Fn} {text : String} {ts : List Token}
    (h : tokenizeWith known text = .ok ts) : Infix.WellFormed ts :=
  (whole_of_tokenizeWith h).wellFormed (nested_of_tokenizeWith h).2

/-- Signs, a product that is left out and an argument that is missing. -/
theorem wellFormed_of_tokenizeWith_sample :
    let ts : List Token := [.real (.one true), .binary .mul, .real (.one true), .binary .mul,
      .real (.ofBits 0x4000000000000000), .binary .mul, .openParen, .function .sin, .openParen, .var "x_1",
      .closeParen, .separator, .closeParen, .binary .mul, .openParen, .binary .pow, .closeParen]
    tokenizeWith Fn.all "+ - -2 (sin (+x_1) ,) (^)" = .ok ts ∧ Infix.WellFormed ts :=
  ⟨rfl, @wellFormed_of_tokenizeWith Fn.all "+ - -2 (sin (+x_1) ,) (^)" _ rfl⟩

end Reckoner
