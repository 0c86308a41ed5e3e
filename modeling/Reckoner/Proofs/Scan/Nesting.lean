import Reckoner.Proofs.Except
import Reckoner.Proofs.Infix.Sentence
import Reckoner.Scan

/-!
# What a scan reads is nested

At every point of a scan the parentheses read so far match as far as they have closed, the depth is
the count of those still open, and an opening parenthesis follows every function. One lemma for each
way in which a step adds tokens, then `nested_step`, and by induction `nested_steps`.
-/

namespace Reckoner

namespace Scan

open Infix

/-! ## The run of a scan -/

theorem steps_cons (known : List Fn) (s : Scan) (c : Char) (cs : List Char) :
    s.steps known (c :: cs) = s.step known c >>= (·.steps known cs) := List.foldlM_cons

@[simp] theorem steps_nil (known : List Fn) (s : Scan) : s.steps known [] = .ok s := rfl

@[simp] theorem steps_singleton (known : List Fn) (s : Scan) (c : Char) : s.steps known [c] = s.step known c := by
  rw [steps_cons]
  cases s.step known c <;> rfl

theorem steps_cons_of_ok {known : List Fn} {s s' : Scan} {c : Char} (h : s.step known c = .ok s') (cs : List Char) :
    s.steps known (c :: cs) = s'.steps known cs := by
  rw [steps_cons, h]
  rfl

theorem steps_append_of_ok {known : List Fn} {s s' : Scan} {cs : List Char} (h : s.steps known cs = .ok s')
    (ds : List Char) : s.steps known (cs ++ ds) = s'.steps known ds := by
  rw [steps_append, h]
  rfl

theorem numberToken_eq_ok {cs : List Char} {t : Token} (h : numberToken cs = .ok t) :
    ∃ x, Decimal.readLiteral cs.reverse = some x ∧ t = .real x := by
  unfold numberToken at h
  split at h
  · rename_i x hx
    cases h
    exact ⟨x, hx, rfl⟩
  · cases h

/-- What a flush adds: one operand, or nothing. -/
theorem flush_eq_ok {s s' : Scan} (h : s.flush = .ok s') :
    s' = ⟨s.tokens, .none, s.depth⟩ ∨ ∃ x, s' = ⟨.operand x :: s.tokens, .none, s.depth⟩ := by
  obtain ⟨tokens, pending, depth⟩ := s
  cases pending with
  | none => cases h; exact Or.inl rfl
  | number cs =>
    obtain ⟨t, hn, rfl⟩ := map_eq_ok h
    obtain ⟨x, -, rfl⟩ := numberToken_eq_ok hn
    exact Or.inr ⟨_, rfl⟩
  | word cs => cases h; exact Or.inr ⟨_, rfl⟩

theorem depth_of_flush {s s' : Scan} (h : s.flush = .ok s') : s'.depth = s.depth := by
  rcases flush_eq_ok h with rfl | ⟨x, rfl⟩ <;> rfl

/-! ## Nested tokens -/

/-- Tokens, the most recent first, that leave `depth` parentheses open. -/
structure Nested (tokens : List Token) (depth : Nat) : Prop where
  called : Called tokens.reverse
  depth_eq : depthAfter 0 tokens.reverse = some depth

variable {tokens : List Token} {d : Nat}

theorem Nested.append {d' : Nat} (h : Nested tokens d) (us : List Token) (hc : Called us)
    (hd : depthAfter d us = some d') : Nested (us.reverse ++ tokens) d' := by
  constructor
  · rw [List.reverse_append, List.reverse_reverse]
    exact hc.append h.called
  · rw [List.reverse_append, List.reverse_reverse, depthAfter_append, h.depth_eq]
    exact hd

theorem Nested.operand (h : Nested tokens d) (x : Operand) : Nested (.operand x :: tokens) d :=
  h.append [.operand x] ⟨nofun, trivial⟩ (by simp [depthAfter])

theorem Nested.binary (h : Nested tokens d) (op : BinaryOp) : Nested (.binary op :: tokens) d :=
  h.append [.binary op] ⟨nofun, trivial⟩ (by simp [depthAfter])

theorem Nested.separator (h : Nested tokens d) : Nested (.separator :: tokens) d :=
  h.append [.separator] ⟨nofun, trivial⟩ (by simp [depthAfter])

theorem Nested.openParen (h : Nested tokens d) : Nested (.openParen :: tokens) (d + 1) :=
  h.append [.openParen] ⟨nofun, trivial⟩ (by simp [depthAfter])

theorem Nested.call (h : Nested tokens d) (f : Fn) : Nested (.openParen :: .function f :: tokens) (d + 1) :=
  h.append [.function f, .openParen] ⟨fun _ => rfl, nofun, trivial⟩ (by simp [depthAfter])

theorem Nested.closeParen (h : Nested tokens (d + 1)) : Nested (.closeParen :: tokens) d :=
  h.append [.closeParen] ⟨nofun, trivial⟩ (by simp [depthAfter])

/-! ## Every step keeps tokens nested -/

variable {s s' : Scan}

theorem nested_flush (h : Nested s.tokens s.depth) (hs : s.flush = .ok s') : Nested s'.tokens s'.depth := by
  rcases flush_eq_ok hs with rfl | ⟨x, rfl⟩
  · exact h
  · exact h.operand x

theorem nested_stepNumber (h : Nested s.tokens s.depth) (c : Char) :
    Nested (s.stepNumber c).tokens (s.stepNumber c).depth := by
  unfold stepNumber
  split
  · exact h
  · exact h
  · exact h.operand _

theorem nested_stepWord {c : Char} (h : Nested s.tokens s.depth) (hs : s.stepWord c = .ok s') :
    Nested s'.tokens s'.depth := by
  unfold stepWord at hs
  split at hs
  · cases hs; exact h
  · obtain ⟨t, hn, rfl⟩ := map_eq_ok hs
    obtain ⟨x, -, rfl⟩ := numberToken_eq_ok hn
    exact (h.operand _).binary .mul
  · cases hs; exact h

theorem nested_stepOpen {known : List Fn} (h : Nested s.tokens s.depth) (hs : s.stepOpen known = .ok s') :
    Nested s'.tokens s'.depth := by
  unfold stepOpen at hs
  split at hs
  · split at hs <;> cases hs
    exact h.call _
  · obtain ⟨t, hn, rfl⟩ := map_eq_ok hs
    obtain ⟨x, -, rfl⟩ := numberToken_eq_ok hn
    exact ((h.operand _).binary .mul).openParen
  · split at hs <;> cases hs
    · exact (h.binary .mul).openParen
    · exact h.openParen

theorem nested_stepClose (h : Nested s.tokens s.depth) (hs : s.stepClose = .ok s') :
    Nested s'.tokens s'.depth := by
  unfold stepClose at hs
  split at hs
  · cases hs
  split at hs
  · cases hs
  · rename_i hd _
    obtain ⟨s₁, hf, rfl⟩ := map_eq_ok hs
    have hn := nested_flush h hf
    obtain ⟨d, e⟩ : ∃ d, s₁.depth = d + 1 := ⟨s₁.depth - 1, by rw [depth_of_flush hf]; omega⟩
    rw [e] at hn
    simpa [e] using hn.closeParen

theorem nested_step {known : List Fn} {c : Char} (h : Nested s.tokens s.depth) (hs : s.step known c = .ok s') :
    Nested s'.tokens s'.depth := by
  -- a flush followed by one more token
  have after_flush : ∀ {f : Scan → Scan}, s.flush.map f = .ok s' →
      (∀ s₁ : Scan, Nested s₁.tokens s₁.depth → Nested (f s₁).tokens (f s₁).depth) →
      Nested s'.tokens s'.depth := by
    intro f hs hf
    obtain ⟨s₁, hfl, rfl⟩ := map_eq_ok hs
    exact hf s₁ (nested_flush h hfl)
  unfold step at hs
  split at hs
  · cases hs; exact nested_stepNumber h c
  split at hs
  · exact nested_stepWord h hs
  split at hs
  · exact after_flush hs fun s₁ h₁ => h₁.binary _
  split at hs
  · exact nested_stepOpen h hs
  split at hs
  · exact nested_stepClose h hs
  split at hs
  · exact after_flush hs fun s₁ h₁ => h₁.separator
  split at hs
  · exact nested_flush h hs
  · cases hs

theorem nested_steps {known : List Fn} {cs : List Char} (h : Nested s.tokens s.depth)
    (hs : s.steps known cs = .ok s') : Nested s'.tokens s'.depth := by
  induction cs generalizing s with
  | nil => cases hs; exact h
  | cons c cs ih =>
    rw [steps_cons] at hs
    obtain ⟨s₁, hc, hs⟩ := bind_eq_ok hs
    exact ih (nested_step h hc) hs

end Scan

/-- The tokens of an expression have matching parentheses, and every function is called. -/
theorem nested_of_tokenizeWith {known : List Fn} {text : String} {ts : List Token}
    (h : tokenizeWith known text = .ok ts) : Infix.Called ts ∧ Infix.depthAfter 0 ts = some 0 := by
  unfold tokenizeWith at h
  obtain ⟨s, hs, h⟩ := bind_eq_ok h
  have hn : Scan.Nested s.tokens s.depth := Scan.nested_steps (s := .start) ⟨trivial, rfl⟩ hs
  unfold Scan.finish at h
  split at h
  · rename_i hd
    obtain ⟨s', hf, rfl⟩ := map_eq_ok h
    have hn' := Scan.nested_flush hn hf
    rw [Scan.depth_of_flush hf, hd] at hn'
    exact ⟨hn'.called, hn'.depth_eq⟩
  · cases h

end Reckoner
