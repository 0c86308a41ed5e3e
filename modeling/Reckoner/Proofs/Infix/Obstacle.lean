import Reckoner.Proofs.Infix.Conservation
import Reckoner.Proofs.Infix.Sentence

/-!
# Where a reordering stops

Whether a reordering goes on at a token depends on the token and on the count of open parentheses
alone (`step_of_obstacle`, `step_of_clear`). A run therefore stops at the first obstacle in the list,
and where there is none and all parentheses are closed it ends with a postfix list.
-/

namespace Reckoner

namespace Infix

/-- What stops a reordering at a token, with `depth` parentheses open. -/
def obstacle : (depth : Nat) → Token → Option ExprError
  | _, .unknown => some .unknownToken
  | 0, .separator => some .misplacedSeparator
  | 0, .closeParen => some (.parentheses .missingOpen)
  | _, _ => none

def Clear (depth : Nat) (ts : List Token) : Prop :=
  ∀ l t us d, ts = l ++ t :: us → depthAfter depth l = some d → obstacle d t = none

theorem Clear.cons {d d' : Nat} {t : Token} {ts : List Token} (ht : obstacle d t = none)
    (hd : depthAfter d [t] = some d') (h : Clear d' ts) : Clear d (t :: ts) := by
  intro l u us e hts hl
  cases l with
  | nil =>
    cases hts
    cases hl
    exact ht
  | cons v l =>
    obtain ⟨rfl, hrest⟩ := List.cons.inj hts
    rw [depthAfter_cons, hd] at hl
    exact h l u us e hrest hl

theorem Clear.tail {d d' : Nat} {t : Token} {ts : List Token} (h : Clear d (t :: ts))
    (hd : depthAfter d [t] = some d') : Clear d' ts := by
  intro l u us e hts hl
  refine h (t :: l) u us e (by rw [hts]; rfl) ?_
  rw [depthAfter_cons, hd]
  exact hl

/-- Only what is an obstacle has no depth after it. -/
theorem depthAfter_of_clear {d : Nat} {t : Token} (h : obstacle d t = none) : ∃ d', depthAfter d [t] = some d' := by
  rcases t with _ | _ | _ | _ | _ | _ <;> rcases d with _ | d <;> first | exact ⟨_, rfl⟩ | cases h

/-- A clear list closes no parenthesis too many. -/
theorem Clear.exists_depthAfter {d : Nat} {ts : List Token} (h : Clear d ts) : ∃ d', depthAfter d ts = some d' := by
  induction ts generalizing d with
  | nil => exact ⟨d, rfl⟩
  | cons t ts ih =>
    obtain ⟨d₁, hd₁⟩ := depthAfter_of_clear (h [] t ts d rfl rfl)
    obtain ⟨d', hd'⟩ := ih (h.tail hd₁)
    refine ⟨d', ?_⟩
    rw [depthAfter_cons, hd₁]
    exact hd'

/-- A list is clear, or it has a first obstacle. -/
theorem clear_or_obstacle (d : Nat) (ts : List Token) :
    Clear d ts ∨ ∃ l t us d' e, ts = l ++ t :: us ∧ Clear d l ∧ depthAfter d l = some d' ∧ obstacle d' t = some e := by
  induction ts generalizing d with
  | nil => exact Or.inl fun l t us e h => absurd h (by simp)
  | cons t ts ih =>
    cases ht : obstacle d t with
    | some e => exact Or.inr ⟨[], t, ts, d, e, rfl, fun l t us e h => absurd h (by simp), rfl, ht⟩
    | none =>
      obtain ⟨d₁, hd₁⟩ := depthAfter_of_clear ht
      rcases ih d₁ with h | ⟨l, u, us, d', e, rfl, hl, hd', he⟩
      · exact Or.inl (h.cons ht hd₁)
      · refine Or.inr ⟨t :: l, u, us, d', e, rfl, hl.cons ht hd₁, ?_, he⟩
        rw [depthAfter_cons, hd₁]
        exact hd'

end Infix

namespace Reordering

open Infix

/-! ## Open parentheses -/

def openCount (held : List Held) : Nat := held.count .openParen

@[simp] theorem openCount_nil : openCount [] = 0 := rfl

@[simp] theorem openCount_operator (op : Operator) (held : List Held) :
    openCount (.operator op :: held) = openCount held := List.count_cons_of_ne (by simp)

@[simp] theorem openCount_openParen (held : List Held) : openCount (.openParen :: held) = openCount held + 1 :=
  List.count_cons_self

@[simp] theorem openCount_releaseAbove (n : Nat) (out : List Token) (held : List Held) :
    openCount (releaseAbove n out held).held = openCount held := by
  induction held generalizing out with
  | nil => rfl
  | cons h held ih =>
    cases h with
    | openParen => rfl
    | operator op =>
      rw [releaseAbove]
      split
      · rw [ih, openCount_operator]
      · rfl

@[simp] theorem openCount_releaseAll (out : List Token) (held : List Held) :
    openCount (releaseAll out held).held = openCount held := by
  induction held generalizing out with
  | nil => rfl
  | cons h held ih =>
    cases h with
    | openParen => rfl
    | operator op => rw [releaseAll, ih, openCount_operator]

@[simp] theorem openCount_releaseFunction (r : Reordering) : openCount r.releaseFunction.held = openCount r.held := by
  unfold releaseFunction
  split
  · rename_i op held e
    split
    · rw [e, openCount_operator]
    · rfl
  · rfl

@[simp] theorem openCount_hold (r : Reordering) (op : Operator) : openCount (r.hold op).held = openCount r.held := by
  unfold hold
  split <;> simp

/-- After all operators above it have been put out, the topmost parenthesis is on top. -/
theorem held_of_openCount (out : List Token) {held : List Held} :
    (openCount held = 0 → (releaseAll out held).held = []) ∧
    ∀ d, openCount held = d + 1 → ∃ rest, (releaseAll out held).held = .openParen :: rest ∧ openCount rest = d := by
  have hcount := openCount_releaseAll out held
  rcases held_releaseAll out held with e | ⟨rest, e⟩ <;> rw [e] at hcount ⊢
  · exact ⟨fun _ => rfl, fun d hd => absurd (hcount.trans hd) (by simp)⟩
  · rw [openCount_openParen] at hcount
    exact ⟨fun h0 => by omega, fun d hd => ⟨rest, rfl, by omega⟩⟩

/-! ## One step -/

variable {r : Reordering} {t : Token} {e : ExprError}

theorem step_of_obstacle (h : obstacle (openCount r.held) t = some e) : r.step t = .error e := by
  generalize hd : openCount r.held = d at h
  rcases t with _ | _ | _ | _ | _ | _ <;> rcases d with _ | d <;> cases h
  · simp only [step, (held_of_openCount r.output).1 hd]
  · simp [step, (held_of_openCount r.output).1 hd]
  · rfl
  · rfl

theorem step_of_clear (h : obstacle (openCount r.held) t = none) :
    ∃ r', r.step t = .ok r' ∧ depthAfter (openCount r.held) [t] = some (openCount r'.held) := by
  cases t with
  | operand x =>
    refine ⟨_, rfl, ?_⟩
    show depthAfter (openCount r.held) [.operand x] = some (openCount r.held)
    cases openCount r.held <;> rfl
  | operator op =>
    refine ⟨_, rfl, ?_⟩
    rw [openCount_hold]
    cases openCount r.held <;> rfl
  | openParen => exact ⟨_, rfl, by simp [depthAfter]⟩
  | separator =>
    cases hd : openCount r.held with
    | zero => rw [hd] at h; cases h
    | succ d =>
      obtain ⟨rest, hrest, -⟩ := (held_of_openCount r.output).2 d hd
      refine ⟨releaseAll r.output r.held, by simp [step, hrest], ?_⟩
      rw [openCount_releaseAll, hd]
      rfl
  | closeParen =>
    cases hd : openCount r.held with
    | zero => rw [hd] at h; cases h
    | succ d =>
      obtain ⟨rest, hrest, hcount⟩ := (held_of_openCount r.output).2 d hd
      refine ⟨releaseFunction ⟨(releaseAll r.output r.held).output, rest⟩, by simp only [step, hrest], ?_⟩
      rw [openCount_releaseFunction, hcount]
      rfl
  | unknown => cases h

/-! ## A whole list -/

theorem steps_of_clear {ts : List Token} (h : Clear (openCount r.held) ts) :
    ∃ r', r.steps ts = .ok r' ∧ depthAfter (openCount r.held) ts = some (openCount r'.held) := by
  induction ts generalizing r with
  | nil => exact ⟨r, rfl, rfl⟩
  | cons t ts ih =>
    obtain ⟨r₁, hr₁, hd⟩ := step_of_clear (h [] t ts _ rfl rfl)
    obtain ⟨r', hr', hd'⟩ := ih (h.tail hd)
    refine ⟨r', by rw [steps_cons_of_ok hr₁, hr'], ?_⟩
    rw [depthAfter_cons, hd]
    exact hd'

theorem steps_of_obstacle {l us : List Token} {d : Nat} (hl : Clear (openCount r.held) l)
    (hd : depthAfter (openCount r.held) l = some d) (h : obstacle d t = some e) :
    r.steps (l ++ t :: us) = .error e := by
  obtain ⟨r', hr', hd'⟩ := steps_of_clear hl
  obtain rfl : openCount r'.held = d := Option.some.inj (hd'.symm.trans hd)
  rw [steps_append_of_ok hr', steps_cons, step_of_obstacle h]
  rfl

theorem finish_of_closed (h : openCount r.held = 0) : ∃ ps, r.finish = .ok ps := by
  refine ⟨(releaseAll r.output r.held).output.reverse, ?_⟩
  simp [finish, (held_of_openCount r.output).1 h]

theorem finish_of_open {d : Nat} (h : openCount r.held = d + 1) : r.finish = .error (.parentheses .missingClose) := by
  obtain ⟨rest, hrest, -⟩ := (held_of_openCount r.output).2 d h
  simp [finish, hrest]

end Reordering

open Infix

/-- Without obstacles a list whose parentheses are all closed has a postfix list. -/
theorem toPostfix_of_clear {ts : List Token} (h : Clear 0 ts) (hd : depthAfter 0 ts = some 0) :
    ∃ ps, toPostfix ts = .ok ps := by
  obtain ⟨r, hr, hd'⟩ := Reordering.steps_of_clear (r := .start) h
  obtain ⟨ps, hps⟩ := Reordering.finish_of_closed (r := r) (Option.some.inj (hd'.symm.trans hd))
  exact ⟨ps, bind_ok hr hps⟩

/-- A list that leaves parentheses open has none. -/
theorem toPostfix_of_open {ts : List Token} {d : Nat} (h : Clear 0 ts) (hd : depthAfter 0 ts = some (d + 1)) :
    toPostfix ts = .error (.parentheses .missingClose) := by
  obtain ⟨r, hr, hd'⟩ := Reordering.steps_of_clear (r := .start) h
  unfold toPostfix
  rw [hr]
  exact Reordering.finish_of_open (Option.some.inj (hd'.symm.trans hd))

/-- The first obstacle stops the reordering, whatever follows it. -/
theorem toPostfix_of_obstacle {l us : List Token} {t : Token} {d : Nat} {e : ExprError} (hl : Clear 0 l)
    (hd : depthAfter 0 l = some d) (h : obstacle d t = some e) : toPostfix (l ++ t :: us) = .error e := by
  unfold toPostfix
  rw [Reordering.steps_of_obstacle (r := .start) hl hd h]
  rfl

example : toPostfix [.var "x", .separator, .closeParen, .unknown] = .error .misplacedSeparator := rfl

end Reckoner
