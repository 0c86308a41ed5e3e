import Reckoner.Proofs.Safety

/-!
# The height of the stack

After a run that has not failed the stack is as high as the list has more operands than binary operators
(`height_steps`). So where every operator can be applied to the operands that it finds, how a run ends can
be counted off the list: it halts at the first operator with too few operands before it (`shortAt_iff`), and
else ends by how many operands are left over (`result_of_not_fallsShort`).
-/

namespace Reckoner

open Machine

/-- How many more operands than binary operators a list has. -/
def balance (ts : List Token) : Int := (ts.countP Token.isOperand : Int) - ts.countP Token.isBinary

theorem balance_append (ts us : List Token) : balance (ts ++ us) = balance ts + balance us := by
  simp only [balance, List.countP_append]
  omega

/-- How many operands a token takes from the stack, if it is an operand or an operator. -/
def Token.arity? : Token → Option Nat
  | .operand _ => some 0
  | .operator op => some op.arity
  | _ => none

theorem Token.isKept_iff_arity? (t : Token) : t.isKept = true ↔ t.arity?.isSome = true := by
  cases t <;> simp [isKept, arity?]

/-- Of a list, the arities decide the balance. -/
theorem balance_congr {ts us : List Token} (h : us.map Token.arity? = ts.map Token.arity?) : balance us = balance ts := by
  have hcount : ∀ vs : List Token,
      balance vs = ((vs.map Token.arity?).count (some 0) : Int) - (vs.map Token.arity?).count (some 2) := by
    intro vs
    have hoperand : Token.isOperand = (· == some 0) ∘ Token.arity? := by
      funext t
      rcases t with _ | (_ | _) | _ | _ | _ | _ <;> rfl
    have hbinary : Token.isBinary = (· == some 2) ∘ Token.arity? := by
      funext t
      rcases t with _ | (_ | _) | _ | _ | _ | _ <;> rfl
    rw [balance, hoperand, hbinary, ← List.countP_map, ← List.countP_map]
    rfl
  rw [hcount us, hcount ts, h]

theorem balance_take_congr {ts us : List Token} (h : us.map Token.arity? = ts.map Token.arity?) (k : Nat) :
    balance (us.take k) = balance (ts.take k) :=
  balance_congr (by rw [List.map_take, List.map_take, h])

namespace Machine

variable {m m' : Machine} {t : Token} {ts : List Token} {b : Bindings} {k : Nat}

/-! ## The height after a run -/

theorem height_apply {a : Application} (h : m.apply a = .ok m') : m'.stack.length = m.stack.length + 1 := by
  obtain ⟨x, hx, -⟩ := settle_of_apply h
  rw [hx]
  rfl

theorem height_step (h : m.step t = .ok m') : (m'.stack.length : Int) = m.stack.length + balance [t] := by
  rcases step_eq_ok h with ⟨x, rfl, rfl⟩ | ⟨op, x, y, s, rfl, hs, ha⟩ | ⟨f, x, s, rfl, hs, ha⟩
  · rfl
  · have hb : balance [.binary op] = -1 := rfl
    rw [height_apply ha, hs, hb]
    simp only [List.length_cons]
    omega
  · have hb : balance [.function f] = 0 := rfl
    rw [height_apply ha, hs, hb]
    simp

theorem height_steps (h : m.steps ts = .ok m') : (m'.stack.length : Int) = m.stack.length + balance ts := by
  induction ts generalizing m with
  | nil => cases h; rfl
  | cons t ts ih =>
    rw [steps_cons] at h
    obtain ⟨m₁, ht, h⟩ := bind_eq_ok h
    have hbalance : balance (t :: ts) = balance [t] + balance ts := balance_append [t] ts
    rw [ih h, height_step ht, hbalance]
    omega

/-- From the beginning the height is the balance. -/
theorem height_of_start (h : (start b).steps ts = .ok m) : (m.stack.length : Int) = balance ts := by
  rw [height_steps h]
  exact Int.zero_add _

/-! ## One operator -/

/-- An operator finds too few operands, or it is applied to exactly as many as it takes. -/
theorem step_operator (m : Machine) (op : Operator) :
    (m.stack.length < op.arity ∧ m.step (.operator op) = .error ⟨.arity op m.stack.length, m⟩) ∨
    (op.check (m.stack.take op.arity).length = .ok () ∧
      ∃ a, Application.ofOperands op (m.stack.take op.arity).reverse = .ok a ∧
        m.step (.operator op) = { m with stack := m.stack.drop op.arity }.apply a) := by
  by_cases few : m.stack.length < op.arity
  · exact Or.inl ⟨few, step_short few⟩
  refine Or.inr ⟨?_, ?_⟩
  · have htaken : (m.stack.take op.arity).length = op.arity := List.length_take_of_le (Nat.le_of_not_lt few)
    simp [Operator.check, htaken]
  · cases op with
    | binary op =>
      rcases hs : m.stack with _ | ⟨y, _ | ⟨x, s⟩⟩
      · simp [hs, Operator.arity] at few
      · simp [hs, Operator.arity] at few
      · exact ⟨.binary op x y, rfl, step_binary op hs⟩
    | function f =>
      rcases hs : m.stack with _ | ⟨x, s⟩
      · simp [hs, Operator.arity] at few
      · exact ⟨.function f x, rfl, step_function f hs⟩

/-! ## Runs in which every application succeeds -/

/-- Can every operator in a run over the list be applied to its operands, if it finds as many as it takes? -/
def AppliesAll (ts : List Token) (b : Bindings) : Prop :=
  ∀ k m op, (start b).steps (ts.take k) = .ok m → ts[k]? = some (.operator op) → op.arity ≤ m.stack.length →
    ∃ m', m.step (.operator op) = .ok m'

/-- An application that fails would show in the result. -/
theorem appliesAll_of_result (h : ∀ e, (evaluatePostfix ts b).result = .error e → e.isApplication = false) :
    AppliesAll ts b := by
  intro k m op hm hop hle
  cases hs : m.step (.operator op) with
  | ok m' => exact ⟨m', rfl⟩
  | error halt =>
    have hk : HaltsAt (start b) ts k m halt := ⟨hm, _, hop, hs⟩
    have he := h _ hk.evaluatePostfix_eq.1
    rcases step_operator m op with ⟨few, -⟩ | ⟨-, a, -, happly⟩
    · omega
    · have hnumber := a.failsWith_number m.bindings
      rw [happly, apply_eq] at hs
      cases hn : a.number m.bindings with
      | ok v => rw [hn] at hs; cases hs
      | error e =>
        rw [hn] at hs hnumber
        cases hs
        exact Bool.noConfusion (hnumber.symm.trans he)

/-- Is the operator at the place the first that has too few operands before it? -/
structure FallsShort (ts : List Token) (k : Nat) (op : Operator) : Prop where
  here : ts[k]? = some (.operator op)
  few : balance (ts.take k) < op.arity
  first : ∀ j < k, ∀ op', ts[j]? = some (.operator op') → op'.arity ≤ balance (ts.take j)

/-- Where no operator falls short, every operator has enough operands before it. -/
theorem enough_of_not_fallsShort (h : ∀ k op, ¬ FallsShort ts k op) (k : Nat) {op : Operator}
    (hop : ts[k]? = some (.operator op)) : op.arity ≤ balance (ts.take k) := by
  induction k using Nat.strongRecOn generalizing op with
  | ind k ih =>
  by_cases few : balance (ts.take k) < op.arity
  · exact absurd ⟨hop, few, fun j hj op' hop' => ih j hj hop'⟩ (h k op)
  · omega

/-- Up to a place before which every operator has enough operands a run goes on. -/
theorem exists_steps_take (hts : ∀ t ∈ ts, t.isKept = true) (happlies : AppliesAll ts b)
    (enough : ∀ j < k, ∀ op, ts[j]? = some (.operator op) → op.arity ≤ balance (ts.take j)) :
    ∃ m, (start b).steps (ts.take k) = .ok m := by
  induction k with
  | zero => exact ⟨start b, rfl⟩
  | succ k ih =>
    obtain ⟨m, hm⟩ := ih fun j hj => enough j (by omega)
    rw [List.take_add_one]
    cases ht : ts[k]? with
    | none => exact ⟨m, by simpa using hm⟩
    | some t =>
      have hstep : ∃ m', m.step t = .ok m' := by
        have hkept := hts t (List.mem_of_getElem? ht)
        cases t with
        | operand x => exact ⟨_, rfl⟩
        | operator op =>
          have hle := enough k (by omega) op ht
          rw [← height_of_start hm] at hle
          exact happlies k m op hm ht (by omega)
        | _ => cases hkept
      obtain ⟨m', hm'⟩ := hstep
      refine ⟨m', ?_⟩
      rw [steps_append, hm]
      show m.steps [t] = .ok m'
      rw [steps_singleton, hm']

/-- The run halts at the operator that falls short, and counts what it has found. -/
theorem haltsAt_of_fallsShort {op : Operator} (hts : ∀ t ∈ ts, t.isKept = true) (happlies : AppliesAll ts b)
    (h : FallsShort ts k op) : ∃ m, HaltsAt (start b) ts k m ⟨.arity op (balance (ts.take k)), m⟩ := by
  obtain ⟨m, hm⟩ := exists_steps_take hts happlies h.first
  have hheight := height_of_start hm
  have hfew : m.stack.length < op.arity := by
    have := h.few
    omega
  refine ⟨m, hm, .operator op, h.here, ?_⟩
  rw [step_short hfew, hheight]

/-- Where no operator falls short, the run goes on to the end. -/
theorem exists_steps (hts : ∀ t ∈ ts, t.isKept = true) (happlies : AppliesAll ts b)
    (h : ∀ k op, ¬ FallsShort ts k op) : ∃ m, (start b).steps ts = .ok m := by
  have hrun := exists_steps_take (k := ts.length) hts happlies fun j _ op => enough_of_not_fallsShort h j
  rwa [List.take_length] at hrun

end Machine

/-! ## How a run ends -/

/-- Does the run halt at the place for want of operands, with `n` of them on the stack? -/
def ShortAt (ts : List Token) (b : Bindings) (k : Nat) (n : Int) : Prop :=
  ∃ op m, ts[k]? = some (.operator op) ∧ HaltsAt (start b) ts k m ⟨.arity op n, m⟩

variable {ts us : List Token} {b c : Bindings}

theorem result_of_steps {m : Machine} (hne : ts ≠ []) (hm : (start b).steps ts = .ok m) :
    (evaluatePostfix ts b).result = m.result.map some := by
  have hempty : ts.isEmpty = false := by simpa using hne
  unfold evaluatePostfix
  simp only [hempty, hm, Bool.false_eq_true, if_false]

/-- More than one operand is too many, and there is at least one. -/
theorem result_of_height {m : Machine} (hne : ts ≠ []) (hm : (start b).steps ts = .ok m) :
    (2 ≤ m.stack.length ∧ (evaluatePostfix ts b).result = .error .tooManyOperands) ∨
    (m.stack.length = 1 ∧ ∃ x, (evaluatePostfix ts b).result = .ok (some x)) := by
  have hstack := stack_ne_nil_of_steps hm (Or.inr hne)
  rw [result_of_steps hne hm]
  rcases hs : m.stack with _ | ⟨x, _ | ⟨y, s⟩⟩
  · exact absurd hs hstack
  · exact Or.inr ⟨rfl, x, by simp [result, hs, Except.map]⟩
  · exact Or.inl ⟨by simp, by simp [result, hs, Except.map]⟩

/-- An operand or more is left over, and none is not. -/
theorem result_of_not_fallsShort (hne : ts ≠ []) (hts : ∀ t ∈ ts, t.isKept = true) (happlies : AppliesAll ts b)
    (h : ∀ k op, ¬ FallsShort ts k op) :
    ((evaluatePostfix ts b).result = .error .tooManyOperands ↔ 2 ≤ balance ts) ∧
    (¬ 2 ≤ balance ts → ∃ x, (evaluatePostfix ts b).result = .ok (some x)) := by
  obtain ⟨m, hm⟩ := exists_steps hts happlies h
  have hheight := height_of_start hm
  rcases result_of_height hne hm with ⟨hmany, hresult⟩ | ⟨hone, x, hresult⟩
  · exact ⟨iff_of_true hresult (by omega), fun hfew => absurd (by omega) hfew⟩
  · refine ⟨iff_of_false ?_ (by omega), fun _ => ⟨x, hresult⟩⟩
    rw [hresult]
    simp

theorem shortAt_iff (hts : ∀ t ∈ ts, t.isKept = true) (happlies : AppliesAll ts b) {k : Nat} {n : Int} :
    ShortAt ts b k n ↔ (∃ op, FallsShort ts k op) ∧ n = balance (ts.take k) := by
  constructor
  · rintro ⟨op, m, hop, hk⟩
    by_cases hshort : ∃ k' op', FallsShort ts k' op'
    · obtain ⟨k', op', h⟩ := hshort
      obtain ⟨m', hk'⟩ := haltsAt_of_fallsShort hts happlies h
      obtain ⟨rfl, rfl, e⟩ := hk.unique hk'
      cases e
      exact ⟨⟨_, h⟩, rfl⟩
    · obtain ⟨m', hm'⟩ := exists_steps hts happlies fun k' op' h => hshort ⟨k', op', h⟩
      rw [hk.steps_eq] at hm'
      cases hm'
  · rintro ⟨⟨op, h⟩, rfl⟩
    obtain ⟨m, hk⟩ := haltsAt_of_fallsShort hts happlies h
    exact ⟨op, m, h.here, hk⟩

theorem tooMany_iff (hne : ts ≠ []) (hts : ∀ t ∈ ts, t.isKept = true) (happlies : AppliesAll ts b) :
    (evaluatePostfix ts b).result = .error .tooManyOperands ↔ (∀ k op, ¬ FallsShort ts k op) ∧ 2 ≤ balance ts := by
  by_cases hshort : ∃ k op, FallsShort ts k op
  · obtain ⟨k, op, h⟩ := hshort
    obtain ⟨m, hk⟩ := haltsAt_of_fallsShort hts happlies h
    refine iff_of_false ?_ fun hnone => hnone.1 k op h
    rw [hk.evaluatePostfix_eq.1]
    simp
  · have hnone : ∀ k op, ¬ FallsShort ts k op := fun k op h => hshort ⟨k, op, h⟩
    rw [(result_of_not_fallsShort hne hts happlies hnone).1]
    exact ⟨fun h => ⟨hnone, h⟩, And.right⟩

/-! ## Lists of the same arities -/

theorem exists_operator_of_arities {k : Nat} {op : Operator} (h : us.map Token.arity? = ts.map Token.arity?)
    (hop : ts[k]? = some (.operator op)) : ∃ op', us[k]? = some (.operator op') ∧ op'.arity = op.arity := by
  have hk := congrArg (·[k]?) h
  simp only [List.getElem?_map, hop, Option.map_some, Token.arity?] at hk
  obtain ⟨t, ht, harity⟩ := Option.map_eq_some_iff.1 hk
  have hpos : op.arity ≠ 0 := by cases op <;> simp [Operator.arity]
  cases t with
  | operand x => exact absurd (Option.some.inj harity).symm hpos
  | operator op' => exact ⟨op', ht, Option.some.inj harity⟩
  | _ => cases harity

theorem fallsShort_of_arities {k : Nat} {op : Operator} (h : us.map Token.arity? = ts.map Token.arity?)
    (hts : FallsShort ts k op) : ∃ op', FallsShort us k op' := by
  obtain ⟨op', hop', harity⟩ := exists_operator_of_arities h hts.here
  refine ⟨op', hop', ?_, fun j hj op₁ hop₁ => ?_⟩
  · rw [balance_take_congr h, harity]
    exact hts.few
  · obtain ⟨op₂, hop₂, harity₂⟩ := exists_operator_of_arities h.symm hop₁
    rw [balance_take_congr h, ← harity₂]
    exact hts.first j hj op₂ hop₂

theorem exists_fallsShort_congr (h : us.map Token.arity? = ts.map Token.arity?) (k : Nat) :
    (∃ op, FallsShort us k op) ↔ ∃ op, FallsShort ts k op :=
  ⟨fun ⟨_, hk⟩ => fallsShort_of_arities h.symm hk, fun ⟨_, hk⟩ => fallsShort_of_arities h hk⟩

theorem isKept_of_arities (h : us.map Token.arity? = ts.map Token.arity?) (hts : ∀ t ∈ ts, t.isKept = true) :
    ∀ t ∈ us, t.isKept = true := by
  intro t ht
  have hmem := List.mem_map_of_mem (f := Token.arity?) ht
  rw [h] at hmem
  obtain ⟨t', ht', e⟩ := List.mem_map.1 hmem
  rw [Token.isKept_iff_arity?, ← e, ← Token.isKept_iff_arity?]
  exact hts t' ht'

/-- Lists of the same arities end alike, whatever their values and bindings, as far as no application fails. -/
theorem shortage_congr (hne : ts ≠ []) (hts : ∀ t ∈ ts, t.isKept = true) (happlies : AppliesAll ts b)
    (h : us.map Token.arity? = ts.map Token.arity?) (happlies' : AppliesAll us c) :
    (∀ k n, ShortAt us c k n ↔ ShortAt ts b k n) ∧
    ((evaluatePostfix us c).result = .error .tooManyOperands ↔
      (evaluatePostfix ts b).result = .error .tooManyOperands) := by
  have hus := isKept_of_arities h hts
  have hne' : us ≠ [] := by
    rintro rfl
    exact hne (List.map_eq_nil_iff.1 h.symm)
  refine ⟨fun k n => ?_, ?_⟩
  · rw [shortAt_iff hus happlies', shortAt_iff hts happlies, exists_fallsShort_congr h, balance_take_congr h]
  · have hnone : (∀ k op, ¬ FallsShort us k op) ↔ ∀ k op, ¬ FallsShort ts k op := by
      simp only [← not_exists, exists_fallsShort_congr h]
    rw [tooMany_iff hne' hus happlies', tooMany_iff hne hts happlies, hnone, balance_congr h]

/-- A list that is not empty does not end with an empty stack. -/
theorem result_ne_noOperands (hne : ts ≠ []) (b : Bindings) : (evaluatePostfix ts b).result ≠ .error .noOperands := by
  cases hs : (start b).steps ts with
  | ok m =>
    rcases result_of_height hne hs with ⟨-, hresult⟩ | ⟨-, x, hresult⟩ <;> rw [hresult] <;> simp
  | error h =>
    obtain ⟨k, m, hk⟩ := exists_haltsAt hs
    rw [hk.evaluatePostfix_eq.1]
    intro e
    obtain ⟨-, t, -, hfails⟩ := hk
    have he : h.error = .noOperands := Except.error.inj e
    rcases error_of_step hfails with ⟨op, -, herror⟩ | ⟨op, -, herror⟩ | ⟨-, herror⟩ <;>
    · rw [he] at herror
      cases herror

/-- **How high the stack is.** An operator that finds too few operands halts the run with their number, and
otherwise it is applied to exactly as many as it takes; a list that is not empty does not end with an empty
stack. If every application in a list of operands and operators succeeds, the run halts at the first operator
before which the balance is less than it takes, with the balance as the number found; where there is none, more
than one operand in balance is too many, and one is the result. So these errors depend on the arities alone. -/
theorem evaluatePostfix_balance {ts : List Token} (hne : ts ≠ []) (b : Bindings) :
    (∀ k m op, (start b).steps (ts.take k) = .ok m → ts[k]? = some (.operator op) →
      (m.stack.length < op.arity ∧ m.step (.operator op) = .error ⟨.arity op m.stack.length, m⟩) ∨
      (op.check (m.stack.take op.arity).length = .ok () ∧
        ∃ a, Application.ofOperands op (m.stack.take op.arity).reverse = .ok a ∧
          m.step (.operator op) = { m with stack := m.stack.drop op.arity }.apply a)) ∧
    (evaluatePostfix ts b).result ≠ .error .noOperands ∧
    ((∀ t ∈ ts, t.isKept = true) → AppliesAll ts b →
      (∀ k op, FallsShort ts k op →
        (evaluatePostfix ts b).result = .error (.arity op (balance (ts.take k))) ∧
        ShortAt ts b k (balance (ts.take k))) ∧
      ((∀ k op, ¬ FallsShort ts k op) →
        ((evaluatePostfix ts b).result = .error .tooManyOperands ↔ 2 ≤ balance ts) ∧
        (¬ 2 ≤ balance ts → ∃ x, (evaluatePostfix ts b).result = .ok (some x))) ∧
      ∀ us c, us.map Token.arity? = ts.map Token.arity? → AppliesAll us c →
        (∀ k n, ShortAt us c k n ↔ ShortAt ts b k n) ∧
        ((evaluatePostfix us c).result = .error .tooManyOperands ↔
          (evaluatePostfix ts b).result = .error .tooManyOperands)) := by
  refine ⟨fun k m op _ _ => step_operator m op, result_ne_noOperands hne b, fun hts happlies =>
    ⟨fun k op h => ?_, result_of_not_fallsShort hne hts happlies, fun us c => shortage_congr hne hts happlies⟩⟩
  obtain ⟨m, hk⟩ := haltsAt_of_fallsShort hts happlies h
  exact ⟨hk.evaluatePostfix_eq.1, op, m, h.here, hk⟩

/-- A sum that finds the value of an assignment and nothing else. -/
theorem evaluatePostfix_balance_short :
    let ts : List Token := [.var "x", .var "pi", .binary .assign, .function .abs, .binary .add, .var "y"]
    FallsShort ts 4 (.binary .add) ∧ AppliesAll ts .constants ∧
    (evaluatePostfix ts .constants).result = .error (.arity (.binary .add) 1) ∧ ShortAt ts .constants 4 1 := by
  intro ts
  have hresult : (evaluatePostfix ts .constants).result = .error (.arity (.binary .add) 1) := rfl
  have hshort : FallsShort ts 4 (.binary .add) := by
    refine ⟨rfl, by decide, fun j hj op hop => ?_⟩
    rcases j with _ | _ | _ | _ | j
    · cases hop
    · cases hop
    · cases hop
      decide
    · cases hop
      decide
    · omega
  have happlies : AppliesAll ts .constants := by
    refine appliesAll_of_result fun e he => ?_
    rw [hresult] at he
    cases he
    rfl
  have hne : ts ≠ [] := by simp [ts]
  obtain ⟨-, -, h⟩ := evaluatePostfix_balance hne .constants
  obtain ⟨hfound, hplace⟩ := (h (by decide) happlies).1 4 _ hshort
  exact ⟨hshort, happlies, hfound, hplace⟩

end Reckoner
