import Reckoner.Proofs.Machine.Frame

/-!
# Numbers in place of bound names

Where nothing is assigned, a bound name may be replaced by its number (`Operand.Read`). An application that
is no assignment gives the same number or the same error (`Application.Read.number_eq`), so that two machines
whose stacks differ in this way go on side by side (`beside_step`), and a list with some of its names replaced
ends in the same way (`evaluatePostfix_read`).
-/

namespace Reckoner

/-! ## Operands and their numbers -/

namespace Operand

/-- An operand, or the number of a bound name in its place. -/
inductive Read (b : Bindings) : Operand → Operand → Prop
  | same (x : Operand) : Read b x x
  | bound {name : String} {v : Binary64} (h : b.get? name = some v) : Read b (.var name) (.real v)

def isUnbound (b : Bindings) : Operand → Bool
  | real _ => false
  | var name => !b.contains name

variable {b : Bindings} {x y : Operand}

theorem Read.value_eq (h : Read b x y) : y.value b = x.value b := by
  cases h with
  | same x => rfl
  | bound h => simp only [value, h]

/-- Names that are not bound are the operands that cannot be read. -/
theorem value_of_isUnbound {name : String} (h : isUnbound b (.var name) = true) :
    (var name).value b = .error (.unbound name) :=
  value_of_not_contains (by simpa [isUnbound] using h)

theorem exists_value (h : x.isUnbound b = false) : ∃ v, x.value b = .ok v := by
  cases x with
  | real v => exact ⟨v, rfl⟩
  | var name =>
    have hbound : (b.get? name).isSome = true := by simpa [isUnbound, Bindings.contains] using h
    obtain ⟨v, hv⟩ := Option.isSome_iff_exists.1 hbound
    exact ⟨v, by simp only [value, hv]⟩

end Operand

/-! ## One application -/

namespace Application

/-- An application with the numbers of some bound names in their places. -/
inductive Read (b : Bindings) : Application → Application → Prop
  | binary (op : BinaryOp) {x x' y y' : Operand} (left : Operand.Read b x x') (right : Operand.Read b y y') :
    Read b (.binary op x y) (.binary op x' y')
  | function (f : Fn) {x x' : Operand} (operand : Operand.Read b x x') : Read b (.function f x) (.function f x')

variable {b : Bindings} {a a' : Application}

theorem Read.operator_eq (h : Read b a a') : a'.operator = a.operator := by
  cases h <;> rfl

/-- An application reads numbers, and does not see where they come from. -/
theorem Read.number_eq (h : Read b a a') (ha : a.operator ≠ .binary .assign) : a'.number b = a.number b := by
  cases h with
  | function f hx => simp only [number, hx.value_eq]
  | binary op hx hy =>
    cases op with
    | assign => exact absurd rfl ha
    | _ => simp only [number, hx.value_eq, hy.value_eq]

theorem Read.run_eq (h : Read b a a') (ha : a.operator ≠ .binary .assign) : a'.run b = a.run b := by
  have ha' : a'.operator ≠ .binary .assign := by rwa [h.operator_eq]
  simp only [Application.run_eq, h.number_eq ha, after_of_ne_assign ha, after_of_ne_assign ha']

/-- Operands are read from left to right, before anything is calculated. -/
theorem number_of_unbound {name : String} (ha : a.operator ≠ .binary .assign)
    (hfirst : a.operands.find? (·.isUnbound b) = some (.var name)) : a.number b = .error (.unbound name) := by
  cases a with
  | function f x =>
    cases hx : x.isUnbound b with
    | false => simp [operands, hx] at hfirst
    | true =>
      obtain rfl : x = .var name := by simpa [operands, hx] using hfirst
      simp only [number, Operand.value_of_isUnbound hx]
      rfl
  | binary op x y =>
    have hnumber : (binary op x y).number b =
        (do let v ← x.value b; let w ← y.value b; op.calculate v w) := by
      cases op with
      | assign => exact absurd rfl ha
      | _ => rfl
    rw [hnumber]
    cases hx : x.isUnbound b with
    | true =>
      obtain rfl : x = .var name := by simpa [operands, hx] using hfirst
      rw [Operand.value_of_isUnbound hx]
      rfl
    | false =>
      obtain ⟨v, hv⟩ := Operand.exists_value hx
      cases hy : y.isUnbound b with
      | false => simp [operands, hx, hy] at hfirst
      | true =>
        obtain rfl : y = .var name := by simpa [operands, hx, hy] using hfirst
        rw [hv, Operand.value_of_isUnbound hy]
        rfl

/-- Operands that are taken from stacks side by side. -/
theorem exists_taken {s l : List Operand} (h : Placewise (Operand.Read b) (a.operands.reverse ++ s) l) :
    ∃ a' s', l = a'.operands.reverse ++ s' ∧ Read b a a' ∧ Placewise (Operand.Read b) s s' := by
  cases a with
  | function f x =>
    obtain _ | ⟨hx, hs⟩ := h
    exact ⟨.function f _, _, rfl, .function f hx, hs⟩
  | binary op x y =>
    obtain _ | ⟨hy, _ | ⟨hx, hs⟩⟩ := h
    exact ⟨.binary op _ _, _, rfl, .binary op hx hy, hs⟩

end Application

/-! ## Two machines side by side -/

/-- A token, or the number of a bound name in its place. -/
inductive Token.Read (b : Bindings) : Token → Token → Prop
  | same (t : Token) : Read b t t
  | bound {name : String} {v : Binary64} (h : b.get? name = some v) : Read b (.var name) (.real v)

namespace Machine

variable {b : Bindings} {m m' : Machine} {t u : Token} {ts us : List Token}

/-- Machines with the bindings `b`, one with the numbers of some bound names in their places on its stack. -/
structure Beside (b : Bindings) (m m' : Machine) : Prop where
  stack : Placewise (Operand.Read b) m.stack m'.stack
  bindings : m.bindings = b
  bindings' : m'.bindings = b

theorem beside_apply {a a' : Application} (h : Beside b m m') (ha : a.Read b a')
    (hne : a.operator ≠ .binary .assign) : Together (Beside b) (m.apply a) (m'.apply a') := by
  have hne' : a'.operator ≠ .binary .assign := by rwa [ha.operator_eq]
  rw [apply_eq, apply_eq, h.bindings, h.bindings', ha.number_eq hne]
  cases a.number b with
  | error e => exact .error e ⟨h.stack, rfl, rfl⟩
  | ok v =>
    refine .ok ⟨.cons (.same _) h.stack, ?_, ?_⟩
    · exact Application.after_of_ne_assign hne v b
    · exact Application.after_of_ne_assign hne' v b

theorem beside_step (h : Beside b m m') (ht : t.Read b u) (hne : t ≠ .binary .assign) :
    Together (Beside b) (m.step t) (m'.step u) := by
  cases ht with
  | bound hv => exact .ok ⟨.cons (.bound hv) h.stack, h.bindings, h.bindings'⟩
  | same t =>
    -- the height of the stack decides the move, so that both machines make the same one
    have hm := m.step_move t
    generalize m.step t = r at hm
    cases hm with
    | push x => exact .ok ⟨.cons (.same x) h.stack, h.bindings, h.bindings'⟩
    | @apply a s taken =>
      obtain ⟨a', s', taken', ha, hs⟩ := Application.exists_taken (taken ▸ h.stack)
      rw [← ha.operator_eq, (Move.apply taken').step_eq]
      exact beside_apply ⟨hs, h.bindings, h.bindings'⟩ ha fun e => hne (by rw [e])
    | @short op few =>
      rw [← h.stack.length_eq] at few
      rw [(Move.short few).step_eq, h.stack.length_eq]
      exact .error _ h
    | stray other =>
      rw [(Move.stray (m := m') other).step_eq]
      exact .error _ h

theorem beside_steps (hts : Placewise (Token.Read b) ts us) (hne : .binary .assign ∉ ts) (h : Beside b m m') :
    Together (Beside b) (m.steps ts) (m'.steps us) :=
  together_placewise (fun _ ht _ hread _ _ h => beside_step h hread fun e => hne (e ▸ ht)) hts h

end Machine

/-! ## Working off a list -/

open Machine

/-- Results that cannot be told apart by reading them: the same error, the same operand or none, or two
operands of one number. -/
inductive Indistinct (b : Bindings) : (r r' : Except ExprError (Option Operand)) → Prop
  | same (r : Except ExprError (Option Operand)) : Indistinct b r r
  | number {x y : Operand} {v : Binary64} (left : x.value b = .ok v) (right : y.value b = .ok v) :
    Indistinct b (.ok (some x)) (.ok (some y))

variable {b : Bindings} {ts us : List Token}

theorem indistinct_of_read {x y : Operand} (h : Operand.Read b x y) : Indistinct b (.ok (some x)) (.ok (some y)) := by
  cases h with
  | same x => exact .same _
  | bound hv => exact .number (by simp only [Operand.value, hv]) rfl

/-- The heights of the stacks decide how the runs end. -/
theorem indistinct_result {m m' : Machine} (h : Beside b m m') :
    Indistinct b (m.result.map some) (m'.result.map some) := by
  have hstack := h.stack
  unfold result
  generalize m.stack = s, m'.stack = s' at hstack
  cases hstack with
  | nil => exact .same _
  | cons hx hs =>
    cases hs with
    | nil => exact indistinct_of_read hx
    | cons => exact .same _

theorem indistinct_evaluatePostfix (h : Placewise (Token.Read b) ts us) (hts : .binary .assign ∉ ts) :
    Indistinct b (evaluatePostfix ts b).result (evaluatePostfix us b).result := by
  have hr : Together (Beside b) ((start b).steps ts) ((start b).steps us) := beside_steps h hts ⟨.nil, rfl, rfl⟩
  unfold evaluatePostfix
  cases h with
  | nil => exact .same _
  | @cons t u ts us =>
    simp only [List.isEmpty_cons, Bool.false_eq_true, if_false]
    generalize (start b).steps (t :: ts) = r, (start b).steps (u :: us) = r' at hr
    cases hr with
    | ok h => exact indistinct_result h
    | error e h => exact .same _

/-- No assignment is put in. -/
theorem Placewise.assign_notMem (h : Placewise (Token.Read b) ts us) (hts : .binary .assign ∉ ts) :
    .binary .assign ∉ us := by
  induction h with
  | nil => exact hts
  | cons ht _ ih =>
    simp only [List.mem_cons, not_or] at hts ⊢
    refine ⟨?_, ih hts.2⟩
    cases ht with
    | same t => exact hts.1
    | bound hv => simp

/-- **Bound names are transparent.** In a list without an assignment any bound names may be replaced by their
numbers: it ends with the same error, with the same operand or none, or with an operand of the same number, and
leaves the same bindings. Every operator but the assignment gives on a bound name what it gives on the number, and
of its operands that are not bound it reports the leftmost. -/
theorem evaluatePostfix_read (h : Placewise (Token.Read b) ts us) (hts : .binary .assign ∉ ts) :
    (Indistinct b (evaluatePostfix ts b).result (evaluatePostfix us b).result ∧
      (evaluatePostfix ts b).bindings = b ∧ (evaluatePostfix us b).bindings = b) ∧
    ∀ a : Application, a.operator ≠ .binary .assign →
      (∀ a', a.Read b a' → a'.run b = a.run b) ∧
      ∀ name, a.operands.find? (·.isUnbound b) = some (.var name) → a.run b = .error (.unbound name) := by
  refine ⟨⟨indistinct_evaluatePostfix h hts, bindings_evaluatePostfix hts b,
    bindings_evaluatePostfix (h.assign_notMem hts) b⟩, fun a ha => ⟨fun a' h => h.run_eq ha, fun name hfirst => ?_⟩⟩
  rw [a.run_eq, Application.number_of_unbound ha hfirst]
  rfl

/-- One of two equal names is replaced, in a power of a name that is not bound. -/
theorem evaluatePostfix_read_unbound :
    let pi : Binary64 := .ofBits 0x400921fb54442d18
    let ts : List Token := [.var "pi", .var "pi", .binary .mul, .var "x", .binary .pow, .var "y", .binary .add]
    let us : List Token := [.var "pi", .real pi, .binary .mul, .var "x", .binary .pow, .var "y", .binary .add]
    Placewise (Token.Read .constants) ts us ∧ .binary .assign ∉ ts ∧
    Indistinct .constants (evaluatePostfix ts .constants).result (evaluatePostfix us .constants).result ∧
    (evaluatePostfix us .constants).result = .error (.unbound "x") := by
  intro pi ts us
  have h : Placewise (Token.Read .constants) ts us :=
    .cons (.same _) (.cons (.bound rfl) (.cons (.same _) (.cons (.same _) (.cons (.same _) (.cons (.same _)
      (.cons (.same _) .nil))))))
  have hts : .binary .assign ∉ ts := by decide
  exact ⟨h, hts, (evaluatePostfix_read h hts).1.1, rfl⟩

end Reckoner
