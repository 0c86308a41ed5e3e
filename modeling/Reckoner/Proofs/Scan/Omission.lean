import Reckoner.Proofs.Formula.Reading
import Reckoner.Proofs.NormalText.Resumption

/-!
# Products without a sign

A product is meant where a number meets a name or an opening parenthesis, and where a closing parenthesis meets an
opening one. A scan goes on there as it does after a product sign (`Formula.Ends.steps_mul`, `Scan.steps_mul_of_number`),
and the passes over the text leave what follows alike. So the sign may be left out of any text, one that cannot be
read included: its tokens or its error stay the same.
-/

namespace Reckoner

open Formula (beginsName)
open NormalText (ofChars ofChars_append opensOperand resume resume_cons resume_symbol resume_closeParen)

/-! ## A scan at a product -/

/-- Where the product sign may be left out, it may be written. -/
theorem Formula.Ends.steps_mul {known : List Fn} {k k' : Shape} {ts : List Token} {d : Nat} {s : Scan} {c : Char}
    (h : Ends k ts d s) (ho : Omits k k') (hc : Begins k' c) : s.steps known ['*', c] = s.step known c := by
  have hmul : s.step known '*' = .ok ⟨.binary .mul :: ts, .none, d⟩ := h.step_symbol .mul
  rw [Scan.steps_cons_of_ok hmul, Scan.steps_singleton, h.step_omitted ho hc]

namespace Scan

variable {known : List Fn} {s : Scan} {c : Char}

/-- After a number that is held back, the product sign may be left out even if the number is malformed. -/
theorem steps_mul_of_number {held : List Char} (hs : s.pending = .number held) (hc : beginsName c = true ∨ c = '(') :
    s.steps known ['*', c] = s.step known c := by
  obtain ⟨ts, pending, d⟩ := s
  cases hs
  cases hn : numberToken held with
  | ok t =>
    have hends : Formula.Ends .number (t :: ts) d ⟨ts, .number held, d⟩ := .number hn
    rcases hc with hb | rfl
    · exact hends.steps_mul .number_name hb
    · exact hends.steps_mul .number_group rfl
  | error e =>
    have hmul : step known ⟨ts, .number held, d⟩ '*' = .error e := by
      have h := @step_symbol known ⟨ts, .number held, d⟩ .mul
      simp only [flush, hn, Except.map] at h
      exact h
    have hfactor : step known ⟨ts, .number held, d⟩ c = .error e := by
      rcases hc with hb | rfl
      · rw [step_of_beginsName hb]
        simp only [stepWord, hn, Except.map]
      · rw [step_openParen]
        simp only [stepOpen, hn, Except.map]
    rw [steps_cons, hmul, hfactor]
    rfl

theorem stepClose_eq_ok {s' : Scan} (h : s.stepClose = .ok s') : ∃ ts d, s' = ⟨.closeParen :: ts, .none, d⟩ := by
  unfold stepClose at h
  split at h
  · cases h
  split at h
  · cases h
  · obtain ⟨s₁, hf, rfl⟩ := map_eq_ok h
    rcases flush_eq_ok hf with rfl | ⟨x, rfl⟩ <;> exact ⟨_, _, rfl⟩

end Scan

/-! ## Texts at a product -/

/-- Two texts between which a product is meant where they meet. In the first case no blank ends the first text, and its
scan holds a number back at the end. -/
inductive Meet (known : List Fn) : List Char → List Char → Prop
  | number {as bs held : List Char} {c : Char} {s : Scan} (solid : as.getLast?.any Text.isBlank = false)
      (scanned : Scan.start.steps known (ofChars as) = .ok s) (number : s.pending = .number held)
      (factor : beginsName c = true ∨ c = '(') : Meet known as (c :: bs)
  | parentheses {as bs : List Char} : Meet known (as ++ [')']) ('(' :: bs)

/-- What stands at the meeting: no blank and no sign. -/
theorem visible_of_factor {c : Char} (hc : beginsName c = true ∨ c = '(') :
    Text.isBlank c = false ∧ c ≠ '+' ∧ c ≠ '-' := by
  rcases hc with hb | rfl
  · have hword : Formula.isWordChar c = true := by simp [Formula.isWordChar, hb]
    exact ⟨Formula.not_isBlank_of_isWordChar hword, Formula.ne_of_isWordChar hword (by decide),
      Formula.ne_of_isWordChar hword (by decide)⟩
  · decide

/-- With the product sign or without it, the normal text goes on alike. -/
theorem Meet.normal {known : List Fn} {as bs : List Char} (h : Meet known as bs) :
    ∃ c rest, ofChars (as ++ bs) = ofChars as ++ c :: rest ∧ ofChars (as ++ '*' :: bs) = ofChars as ++ '*' :: c :: rest ∧
      ∀ s, Scan.start.steps known (ofChars as) = .ok s → s.steps known ['*', c] = s.step known c := by
  have hmul : opensOperand '*' = true := by decide
  have hstart : ∀ cs, ofChars cs = resume none false cs := fun _ => rfl
  cases h with
  | @number as bs held c s solid scanned number factor =>
    obtain ⟨hblank, hplus, hminus⟩ := visible_of_factor factor
    refine ⟨c, resume (some c) false bs, ?_, ?_, fun s' hs' => ?_⟩
    · rw [ofChars_append, solid, resume_cons hblank hplus hminus (by simp)]
    · rw [ofChars_append, resume_symbol hmul (by decide), hstart (c :: bs),
        resume_cons hblank hplus hminus rfl]
    · cases scanned.symm.trans hs'
      exact Scan.steps_mul_of_number number factor
  | @parentheses as bs =>
    have hopen : opensOperand '(' = true := by decide
    refine ⟨'(', ofChars bs, ?_, ?_, fun s hs => ?_⟩
    · rw [ofChars_append, resume_symbol hopen (by decide)]
    · rw [ofChars_append, resume_symbol hmul (by decide), hstart ('(' :: bs),
        resume_symbol hopen (by decide)]
    · rw [ofChars_append, resume_closeParen, Scan.steps_append] at hs
      obtain ⟨s₁, -, hs⟩ := bind_eq_ok hs
      rw [Scan.steps_singleton, Scan.step_closeParen] at hs
      obtain ⟨ts, d, rfl⟩ := Scan.stepClose_eq_ok hs
      exact Formula.Ends.group.steps_mul .group_group rfl

/-- **A product sign may be left out.** Between two texts that meet at a product, an explicit product sign changes
neither the tokens nor the error. -/
theorem tokenizeWith_mul {known : List Fn} {a b : String} (h : Meet known a.toList b.toList) :
    tokenizeWith known (a ++ b) = tokenizeWith known (a ++ "*" ++ b) := by
  obtain ⟨c, rest, htext, hmul, hstep⟩ := h.normal
  have hchars : (a ++ "*" ++ b).toList = a.toList ++ '*' :: b.toList := by simp [String.toList_append]
  unfold tokenizeWith
  rw [String.toList_append, htext, hchars, hmul, Scan.steps_append, Scan.steps_append]
  cases hs : Scan.start.steps known (ofChars a.toList) with
  | error e => rfl
  | ok s =>
    have hsteps : s.steps known ('*' :: c :: rest) = s.steps known (c :: rest) := by
      rw [show '*' :: c :: rest = ['*', c] ++ rest from rfl, Scan.steps_append, hstep s hs, ← Scan.steps_cons]
    show s.steps known (c :: rest) >>= Scan.finish = s.steps known ('*' :: c :: rest) >>= Scan.finish
    rw [hsteps]

/-- A number that is malformed, before a name. -/
theorem tokenizeWith_mul_malformed :
    Meet Fn.all "(x) -1.2.3".toList "y_2)".toList ∧
    tokenizeWith Fn.all "(x) -1.2.3*y_2)" = .error (.malformedNumber "1.2.3") ∧
    tokenizeWith Fn.all "(x) -1.2.3y_2)" = .error (.malformedNumber "1.2.3") := by
  have hmeet : Meet Fn.all "(x) -1.2.3".toList "y_2)".toList := .number (by decide) rfl rfl (Or.inl (by decide))
  have hmul : tokenizeWith Fn.all "(x) -1.2.3*y_2)" = .error (.malformedNumber "1.2.3") := rfl
  exact ⟨hmeet, hmul, (tokenizeWith_mul (a := "(x) -1.2.3") (b := "y_2)") hmeet).trans hmul⟩

end Reckoner
