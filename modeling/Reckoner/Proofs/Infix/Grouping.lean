import Reckoner.Proofs.Infix.Obstacle

/-!
# Reordering a group

Tokens in parentheses are reordered as if they stood alone, and go on where an operand would stand. An
opening parenthesis is a floor under which a reordering does not reach (`step_above`), and what has been
put out before decides nothing (`steps_after`), so that whatever leaves what is held as it was can take
the place of an operand (`PutsOut`, `toPostfix_of_putsOut`).
-/

namespace Reckoner

namespace Reordering

open Infix (obstacle Called)

variable {r r' : Reordering} {t : Token} {floor held : List Held}

/-! ## Above a floor -/

/-- The state with output before its own and a floor under what it holds. -/
def above (r : Reordering) (out : List Token) (floor : List Held) : Reordering := ⟨r.output ++ out, r.held ++ floor⟩

/-- Does nothing on top wait to be put out? -/
inductive IsFloor : List Held → Prop
  | bottom : IsFloor []
  | openParen (held : List Held) : IsFloor (.openParen :: held)

theorem releaseAbove_above (hf : IsFloor floor) (n : Nat) (o out : List Token) (held : List Held) :
    releaseAbove n (o ++ out) (held ++ floor) = (releaseAbove n o held).above out floor := by
  induction held generalizing o with
  | nil => cases hf <;> rfl
  | cons h held ih =>
    cases h with
    | openParen => rfl
    | operator op =>
      simp only [List.cons_append, releaseAbove]
      split
      · exact ih (.operator op :: o)
      · rfl

theorem releaseAll_above (hf : IsFloor floor) (o out : List Token) (held : List Held) :
    releaseAll (o ++ out) (held ++ floor) = (releaseAll o held).above out floor := by
  induction held generalizing o with
  | nil => cases hf <;> rfl
  | cons h held ih =>
    cases h with
    | openParen => rfl
    | operator op => exact ih (.operator op :: o)

theorem releaseFunction_above (hf : IsFloor floor) (r : Reordering) (out : List Token) :
    (r.above out floor).releaseFunction = r.releaseFunction.above out floor := by
  obtain ⟨o, held⟩ := r
  match held with
  | [] => cases hf <;> rfl
  | .openParen :: _ => rfl
  | .operator (.binary _) :: _ => rfl
  | .operator (.function _) :: _ => rfl

theorem hold_above (hf : IsFloor floor) (r : Reordering) (out : List Token) (op : Operator) :
    (r.above out floor).hold op = (r.hold op).above out floor := by
  cases op with
  | function f => rfl
  | binary op =>
    have h := releaseAbove_above hf (Operator.binary op).priority.level r.output out r.held
    simp only [hold, Operator.isFunction, above] at h ⊢
    simp [h]

/-- A step that succeeds by itself succeeds above a floor, and does the same there. -/
theorem step_above (hf : IsFloor floor) (out : List Token) (h : r.step t = .ok r') :
    (r.above out floor).step t = .ok (r'.above out floor) := by
  have hall : releaseAll (r.above out floor).output (r.above out floor).held =
      (releaseAll r.output r.held).above out floor := releaseAll_above hf r.output out r.held
  cases t with
  | operand x => cases h; rfl
  | operator op =>
    cases h
    exact congrArg _ (hold_above hf r out op)
  | openParen => cases h; rfl
  | separator =>
    simp only [step] at h ⊢
    split at h <;> cases h
    rename_i hne
    have hne' : ((releaseAll r.output r.held).above out floor).held.isEmpty = false := by simp_all [above]
    simp only [hall, hne', Bool.false_eq_true, if_false]
  | closeParen =>
    simp only [step] at h ⊢
    split at h <;> cases h
    rename_i top held e
    have e' : ((releaseAll r.output r.held).above out floor).held = top :: (held ++ floor) := by simp [above, e]
    simp only [hall, e']
    exact congrArg _ (releaseFunction_above hf ⟨_, held⟩ out)
  | unknown => cases h

theorem steps_above (hf : IsFloor floor) (out : List Token) {ts : List Token} (h : r.steps ts = .ok r') :
    (r.above out floor).steps ts = .ok (r'.above out floor) := by
  induction ts generalizing r with
  | nil => cases h; rfl
  | cons t ts ih =>
    rw [steps_cons] at h
    obtain ⟨r₁, ht, h⟩ := bind_eq_ok h
    rw [steps_cons_of_ok (step_above hf out ht), ih h]

/-! ## After other output -/

/-- The output decides nothing. -/
theorem step_after (r : Reordering) (out : List Token) (t : Token) :
    (r.above out []).step t = (r.step t).map (·.above out []) := by
  have hcount : openCount (r.above out []).held = openCount r.held := by simp [above]
  cases h : obstacle (openCount r.held) t with
  | some e => rw [step_of_obstacle h, step_of_obstacle (hcount ▸ h)]; rfl
  | none =>
    obtain ⟨r', hr', -⟩ := step_of_clear h
    rw [hr', step_above .bottom out hr']
    rfl

theorem steps_after (r : Reordering) (out : List Token) (ts : List Token) :
    (r.above out []).steps ts = (r.steps ts).map (·.above out []) := by
  induction ts generalizing r with
  | nil => rfl
  | cons t ts ih =>
    rw [steps_cons, steps_cons, step_after]
    cases r.step t with
    | error e => rfl
    | ok r' => exact ih r'

theorem finish_after (r : Reordering) (out : List Token) :
    (r.above out []).finish = r.finish.map (out.reverse ++ ·) := by
  have hall : releaseAll (r.above out []).output (r.above out []).held = (releaseAll r.output r.held).above out [] :=
    releaseAll_above .bottom r.output out r.held
  have hheld : ((releaseAll r.output r.held).above out []).held.isEmpty = (releaseAll r.output r.held).held.isEmpty := by
    simp [above]
  simp only [finish, hall, hheld]
  split
  · simp [above, Except.map]
  · rfl

/-- What goes out for tokens and for what is held before them. -/
def remaining (held : List Held) (ts : List Token) : Except ExprError (List Token) :=
  steps ⟨[], held⟩ ts >>= finish

theorem finish_steps (out : List Token) (held : List Held) (ts : List Token) :
    (steps ⟨out, held⟩ ts >>= finish) = (remaining held ts).map (out.reverse ++ ·) := by
  have h : (⟨out, held⟩ : Reordering) = above ⟨[], held⟩ out [] := by simp [above]
  rw [h, steps_after, remaining]
  cases steps ⟨[], held⟩ ts with
  | error e => rfl
  | ok r => exact finish_after r out

/-! ## Functions wait under parentheses -/

/-- Does every held function wait under a parenthesis for its operand? -/
inductive Guarded : List Held → Prop
  | bottom : Guarded []
  | openParen {held : List Held} : Guarded held → Guarded (.openParen :: held)
  | call (f : Fn) {held : List Held} : Guarded held → Guarded (.openParen :: .operator (.function f) :: held)
  | binary (op : BinaryOp) {held : List Held} : Guarded held → Guarded (.operator (.binary op) :: held)

theorem Guarded.noFunction (h : Guarded held) : NoFunction held := by
  rintro f rest rfl
  cases h

theorem Guarded.releaseAbove (h : Guarded held) (n : Nat) (out : List Token) :
    Guarded (releaseAbove n out held).held := by
  induction h generalizing out with
  | bottom => exact .bottom
  | openParen h ih => exact .openParen h
  | call f h ih => exact .call f h
  | binary op h ih =>
    rw [Reordering.releaseAbove]
    split
    · exact ih _
    · exact .binary op h

theorem Guarded.releaseAll (h : Guarded held) (out : List Token) : Guarded (releaseAll out held).held := by
  induction h generalizing out with
  | bottom => exact .bottom
  | openParen h ih => exact .openParen h
  | call f h ih => exact .call f h
  | binary op h ih => exact ih _

/-- A parenthesis that closes lets go of the function that waits under it. -/
theorem Guarded.close (h : Guarded (.openParen :: held)) (out : List Token) :
    Guarded (releaseFunction ⟨out, held⟩).held := by
  cases h with
  | openParen h => rwa [releaseFunction_of_noFunction h.noFunction]
  | call f h => exact h

theorem Guarded.step (h : Guarded r.held) (ht : t.isFunction = false) (hs : r.step t = .ok r') : Guarded r'.held := by
  cases t with
  | operand x => cases hs; exact h
  | operator op =>
    cases op with
    | function f => cases ht
    | binary op => cases hs; exact .binary op (h.releaseAbove _ r.output)
  | openParen => cases hs; exact .openParen h
  | separator =>
    simp only [Reordering.step] at hs
    split at hs <;> cases hs
    exact h.releaseAll r.output
  | closeParen =>
    have hall := h.releaseAll r.output
    simp only [Reordering.step] at hs
    rcases held_releaseAll r.output r.held with e | ⟨held, e⟩ <;> rw [e] at hs hall <;> cases hs
    exact hall.close _
  | unknown => cases hs

/-- Where a parenthesis follows every function, none of them is left on top. -/
theorem guarded_steps : ∀ {ts : List Token} {r r' : Reordering},
    Guarded r.held → Called ts → r.steps ts = .ok r' → Guarded r'.held
  | [], _, _, h, _, hs => by cases hs; exact h
  | t :: ts, r, r', h, hc, hs => by
    cases ht : t.isFunction with
    | false =>
      rw [steps_cons] at hs
      obtain ⟨r₁, hr₁, hs⟩ := bind_eq_ok hs
      exact guarded_steps (h.step ht hr₁) hc.2 hs
    | true =>
      -- the function and the parenthesis after it are read together
      obtain ⟨us, rfl⟩ : ∃ us, ts = .openParen :: us := List.head?_eq_some_iff.1 (hc.1 ht)
      obtain ⟨f, rfl⟩ : ∃ f, t = .function f := by
        rcases t with _ | (_ | f) | _ | _ | _ | _ <;> first | exact ⟨f, rfl⟩ | cases ht
      have hcall : r.steps (.function f :: .openParen :: us) =
          steps ⟨r.output, .openParen :: .operator (.function f) :: r.held⟩ us := rfl
      rw [hcall] at hs
      exact guarded_steps (r := ⟨r.output, _⟩) (.call f h) hc.2.2 hs

/-! ## In the place of an operand -/

/-- Where no function waits, the tokens put out `ps` and leave what is held as it was. -/
def PutsOut (ts ps : List Token) : Prop :=
  ∀ out held, NoFunction held → steps ⟨out, held⟩ ts = .ok ⟨ps.reverse ++ out, held⟩

theorem putsOut_operand (x : Operand) : PutsOut [.operand x] [.operand x] := fun _ _ _ => rfl

/-- A list that has a postfix list puts it out in parentheses, and lets go of a function before them. -/
theorem steps_group {ts ps : List Token} (h : toPostfix ts = .ok ps) (out : List Token) (held : List Held) :
    steps ⟨out, held⟩ (.openParen :: (ts ++ [.closeParen])) = .ok (releaseFunction ⟨ps.reverse ++ out, held⟩) := by
  unfold toPostfix at h
  obtain ⟨r, hr, hfin⟩ := bind_eq_ok h
  have hf : IsFloor (.openParen :: held) := .openParen held
  have hrun : steps ⟨out, .openParen :: held⟩ ts = .ok (r.above out (.openParen :: held)) := steps_above hf out hr
  have hempty : (releaseAll r.output r.held).held = [] ∧ (releaseAll r.output r.held).output.reverse = ps := by
    simp only [finish] at hfin
    split at hfin <;> cases hfin
    exact ⟨List.isEmpty_iff.1 ‹_›, rfl⟩
  have hclose : (r.above out (.openParen :: held)).step .closeParen =
      .ok (releaseFunction ⟨ps.reverse ++ out, held⟩) := by
    have hall := releaseAll_above hf r.output out r.held
    simp only [above, hempty.1, List.nil_append] at hall
    simp only [step, above, hall, ← hempty.2, List.reverse_reverse]
  have hopen : step ⟨out, held⟩ .openParen = .ok ⟨out, .openParen :: held⟩ := rfl
  rw [steps_cons_of_ok hopen, steps_append_of_ok hrun, steps_singleton, hclose]

theorem putsOut_group {ts ps : List Token} (h : toPostfix ts = .ok ps) :
    PutsOut (.openParen :: (ts ++ [.closeParen])) ps := by
  intro out held hf
  rw [steps_group h, releaseFunction_of_noFunction hf]

theorem putsOut_call {ts ps : List Token} (h : toPostfix ts = .ok ps) (f : Fn) :
    PutsOut (.function f :: .openParen :: (ts ++ [.closeParen])) (ps ++ [.function f]) := by
  intro out held _
  have hcall : step ⟨out, held⟩ (.function f) = .ok ⟨out, .operator (.function f) :: held⟩ := rfl
  rw [steps_cons_of_ok hcall, steps_group h]
  simp [releaseFunction, Operator.isFunction]

/-- What puts out a list after other tokens puts it out between what these put out and what is left. -/
theorem toPostfix_of_putsOut {pre mid ps : List Token} {r : Reordering} (hr : start.steps pre = .ok r)
    (hf : NoFunction r.held) (h : PutsOut mid ps) (post : List Token) :
    toPostfix (pre ++ (mid ++ post)) = (remaining r.held post).map fun qs => r.output.reverse ++ (ps ++ qs) := by
  have hmid : r.steps mid = .ok ⟨ps.reverse ++ r.output, r.held⟩ := h r.output r.held hf
  show (start.steps _ >>= finish) = _
  rw [steps_append_of_ok hr, steps_append_of_ok hmid, finish_steps]
  simp only [List.reverse_append, List.reverse_reverse, List.append_assoc]

end Reordering

open Reordering

/-- **A group stands for an operand.** Let `pre` and `post` be any tokens, but let a parenthesis follow
every function of `pre`. An operand between them is put out at one and the same place, whatever it is, or
the reordering fails. A list in parentheses in the place of the operand puts out its own postfix list there,
and with a function before them that function after it; all else is as it was, and so is the error. -/
theorem toPostfix_group {pre : List Token} (h : Infix.Called pre) (post : List Token) :
    ∃ (left : List Token) (rest : Except ExprError (List Token)),
      (∀ x, toPostfix (pre ++ .operand x :: post) = rest.map fun qs => left ++ .operand x :: qs) ∧
      ∀ ts ps, toPostfix ts = .ok ps →
        toPostfix (pre ++ .openParen :: (ts ++ .closeParen :: post)) = (rest.map fun qs => left ++ (ps ++ qs)) ∧
        ∀ f, toPostfix (pre ++ .function f :: .openParen :: (ts ++ .closeParen :: post)) =
          rest.map fun qs => left ++ (ps ++ .function f :: qs) := by
  cases hr : start.steps pre with
  | error e =>
    -- what stops before the place stops all three
    have hstop : ∀ us, toPostfix (pre ++ us) = .error e := by
      intro us
      unfold toPostfix
      rw [steps_append, hr]
      rfl
    exact ⟨[], .error e, fun x => hstop _, fun ts ps _ => ⟨hstop _, fun f => hstop _⟩⟩
  | ok r =>
    have hf : NoFunction r.held := (guarded_steps .bottom h hr).noFunction
    refine ⟨r.output.reverse, remaining r.held post, fun x => ?_, fun ts ps hts => ⟨?_, fun f => ?_⟩⟩
    · exact toPostfix_of_putsOut hr hf (putsOut_operand x) post
    · have hgroup := toPostfix_of_putsOut hr hf (putsOut_group hts) post
      simpa using hgroup
    · have hcall := toPostfix_of_putsOut hr hf (putsOut_call hts f) post
      simpa using hcall

/-- A sum as the exponent in a call that is still open and has one argument before. -/
theorem toPostfix_group_exponent :
    let pre : List Token := [.function .abs, .openParen, .var "x", .separator, .var "y", .binary .pow]
    let sum : List Token := [.var "u", .binary .add, .var "v"]
    let post : List Token := [.closeParen, .binary .mul, .var "z"]
    Infix.Called pre ∧ toPostfix sum = .ok [.var "u", .var "v", .binary .add] ∧
    ∃ (left : List Token) (rest : Except ExprError (List Token)),
      (∀ x, toPostfix (pre ++ .operand x :: post) = rest.map fun qs => left ++ .operand x :: qs) ∧
      toPostfix (pre ++ .openParen :: (sum ++ .closeParen :: post)) =
        (rest.map fun qs => left ++ ([.var "u", .var "v", .binary .add] ++ qs)) ∧
      ∀ f, toPostfix (pre ++ .function f :: .openParen :: (sum ++ .closeParen :: post)) =
        rest.map fun qs => left ++ ([.var "u", .var "v", .binary .add] ++ .function f :: qs) := by
  intro pre sum post
  have hpre : Infix.Called pre := by simp [pre, Infix.Called, Token.isFunction]
  have hsum : toPostfix sum = .ok [.var "u", .var "v", .binary .add] := rfl
  obtain ⟨left, rest, hoperand, hgroup⟩ := toPostfix_group hpre post
  exact ⟨hpre, hsum, left, rest, hoperand, hgroup sum _ hsum⟩

end Reckoner
