import Reckoner.Proofs.Except
import Reckoner.Proofs.Infix.Reordering

/-!
# Reordering keeps operands and operators

Whatever the tokens are, the operands and operators read so far are those put out and those held, in
some order (`pool_steps`); parentheses and separators are all that is lost on the way.
-/

namespace Reckoner

/-- Is the token an operand or an operator? -/
def Token.isKept : Token → Bool
  | .operand _ | .operator _ => true
  | _ => false

def Held.token? : Held → Option Token
  | .operator op => some (.operator op)
  | .openParen => none

namespace Reordering

/-- Everything put out or held. -/
def pool (r : Reordering) : List Token := r.output ++ r.held.filterMap Held.token?

/-- Putting out the topmost held operator moves it within the pool. -/
theorem pool_release (op : Operator) (out : List Token) (held : List Held) :
    (pool ⟨.operator op :: out, held⟩).Perm (pool ⟨out, .operator op :: held⟩) := by
  simp only [pool, List.filterMap_cons, Held.token?, List.cons_append]
  exact List.perm_middle.symm

theorem pool_releaseAbove (n : Nat) (out : List Token) (held : List Held) :
    (releaseAbove n out held).pool.Perm (pool ⟨out, held⟩) := by
  induction held generalizing out with
  | nil => exact .refl _
  | cons h held ih =>
    cases h with
    | openParen => exact .refl _
    | operator op =>
      rw [releaseAbove]
      split
      · exact (ih _).trans (pool_release op out held)
      · exact .refl _

theorem pool_releaseAll (out : List Token) (held : List Held) :
    (releaseAll out held).pool.Perm (pool ⟨out, held⟩) := by
  induction held generalizing out with
  | nil => exact .refl _
  | cons h held ih =>
    cases h with
    | openParen => exact .refl _
    | operator op => exact (ih _).trans (pool_release op out held)

/-- Only a parenthesis is left on top. -/
theorem held_releaseAll (out : List Token) (held : List Held) :
    (releaseAll out held).held = [] ∨ ∃ rest, (releaseAll out held).held = .openParen :: rest := by
  induction held generalizing out with
  | nil => exact Or.inl rfl
  | cons h held ih =>
    cases h with
    | openParen => exact Or.inr ⟨held, rfl⟩
    | operator op => exact ih _

theorem pool_releaseFunction (r : Reordering) : r.releaseFunction.pool.Perm r.pool := by
  obtain ⟨out, held⟩ := r
  unfold releaseFunction
  split
  · rename_i op held' e
    simp only at e
    subst e
    split
    · exact pool_release op out held'
    · exact .refl _
  · exact .refl _

/-- Holding an operator adds it to the pool. -/
theorem pool_held (op : Operator) (out : List Token) (held : List Held) :
    (pool ⟨out, .operator op :: held⟩).Perm (.operator op :: pool ⟨out, held⟩) :=
  (pool_release op out held).symm

theorem pool_hold (r : Reordering) (op : Operator) : (r.hold op).pool.Perm (.operator op :: r.pool) := by
  unfold hold
  split
  · exact pool_held op r.output r.held
  · exact (pool_held op _ _).trans ((pool_releaseAbove op.priority.level r.output r.held).cons _)

theorem pool_step {r r' : Reordering} {t : Token} (h : r.step t = .ok r') :
    r'.pool.Perm ([t].filter Token.isKept ++ r.pool) := by
  cases t with
  | operand x => cases h; exact .refl _
  | operator op => cases h; exact pool_hold r op
  | openParen => cases h; exact .refl _
  | separator =>
    simp only [step] at h
    split at h <;> cases h
    exact pool_releaseAll r.output r.held
  | closeParen =>
    have hr := pool_releaseAll r.output r.held
    simp only [step] at h
    rcases held_releaseAll r.output r.held with e | ⟨held, e⟩ <;> rw [e] at h <;> cases h
    have e' : pool (releaseAll r.output r.held) = pool ⟨(releaseAll r.output r.held).output, held⟩ := by
      simp only [pool, e, List.filterMap_cons, Held.token?]
    rw [e'] at hr
    exact (pool_releaseFunction _).trans hr
  | unknown => cases h

theorem pool_steps {r r' : Reordering} {ts : List Token} (h : r.steps ts = .ok r') :
    r'.pool.Perm (ts.filter Token.isKept ++ r.pool) := by
  induction ts generalizing r with
  | nil => cases h; exact .refl _
  | cons t ts ih =>
    rw [steps_cons] at h
    obtain ⟨r₁, ht, h⟩ := bind_eq_ok h
    have hs : (t :: ts).filter Token.isKept = [t].filter Token.isKept ++ ts.filter Token.isKept :=
      List.filter_append [t] ts
    rw [hs, List.append_assoc]
    exact (ih h).trans (((pool_step ht).append_left _).trans (List.perm_append_comm_assoc _ _ _))

theorem pool_finish {r : Reordering} {ps : List Token} (h : r.finish = .ok ps) : ps.Perm r.pool := by
  have hr := pool_releaseAll r.output r.held
  simp only [finish] at h
  split at h
  · rename_i he
    cases h
    simp only [pool, List.isEmpty_iff.1 he, List.filterMap_nil, List.append_nil] at hr
    exact (List.reverse_perm _).trans hr
  · cases h

end Reordering

/-- The postfix list holds the operands and operators of the infix list. -/
theorem perm_of_toPostfix {ts ps : List Token} (h : toPostfix ts = .ok ps) :
    ps.Perm (ts.filter Token.isKept) := by
  unfold toPostfix at h
  obtain ⟨r, hr, h⟩ := bind_eq_ok h
  have hp := (Reordering.pool_finish h).trans (Reordering.pool_steps hr)
  rwa [show Reordering.start.pool = [] from rfl, List.append_nil] at hp

/-- What is counted among operands and operators is kept. -/
theorem countP_of_toPostfix {ts ps : List Token} (h : toPostfix ts = .ok ps) (p : Token → Bool)
    (hp : ∀ t, p t = true → t.isKept = true) : ps.countP p = ts.countP p := by
  rw [(perm_of_toPostfix h).countP_eq, List.countP_filter]
  refine List.countP_congr fun t _ => ?_
  simp only [Bool.and_eq_true, and_iff_left_iff_imp]
  exact hp t

end Reckoner
