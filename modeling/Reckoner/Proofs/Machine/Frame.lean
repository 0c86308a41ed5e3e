import Reckoner.Proofs.Evaluation
import Reckoner.Proofs.Machine.Step
import Reckoner.Proofs.Scan.Munch

/-!
# What a run reads and writes

A run over tokens reads and writes no names but those of its tokens. Two machines with the same stack,
whose bindings agree on these names, go on alike (`alike_step`); one machine leaves all other names as
they are and keeps every bound name bound (`confined_step`), and without an assignment it leaves all
bindings as they are.
-/

namespace Reckoner

open Bindings (AgreeOn Extends)

namespace Machine

variable {S : String → Prop} {m m' : Machine} {t : Token}

/-! ## Names on the stack -/

/-- Are all names on the stack in `S`? -/
def Holds (S : String → Prop) (m : Machine) : Prop := ∀ name, .var name ∈ m.stack → S name

theorem Holds.push (h : Holds S m) {x : Operand} (hx : ∀ name, x = .var name → S name) :
    Holds S { m with stack := x :: m.stack } := by
  intro name hname
  rcases List.mem_cons.1 hname with e | hname
  · exact hx name e.symm
  · exact h name hname

/-- An operator takes names of `S` only and leaves names of `S` only. -/
theorem Holds.take (h : Holds S m) {xs s : List Operand} (taken : m.stack = xs.reverse ++ s) :
    (∀ name, .var name ∈ xs → S name) ∧ ∀ name, .var name ∈ s → S name := by
  constructor <;>
  · intro name hname
    exact h name (by simp [taken, hname])

/-! ## Two runs -/

/-- Machines that differ in their bindings only, and there only outside `S`, from which all names on
their stack come. -/
structure Alike (S : String → Prop) (m m' : Machine) : Prop where
  stack : m'.stack = m.stack
  applied : m'.applied = m.applied
  bindings : AgreeOn S m.bindings m'.bindings
  holds : Holds S m

theorem alike_apply {a : Application} (h : Alike S m m') (ha : ∀ name, .var name ∈ a.operands → S name) :
    Together (Alike S) (m.apply a) (m'.apply a) := by
  rw [apply_eq, apply_eq, ← Application.number_congr h.bindings ha]
  cases a.number m.bindings with
  | error e => exact .error e ⟨h.stack, by simp [h.applied], h.bindings, h.holds⟩
  | ok v =>
    exact .ok ⟨by simp [h.stack], by simp [h.applied], Application.agreeOn_after h.bindings a v, h.holds.push (by simp)⟩

theorem alike_step (h : Alike S m m') (ht : ∀ name, t = .var name → S name) :
    Together (Alike S) (m.step t) (m'.step t) := by
  -- the stack decides the move, so that both machines make the same one
  have hm := m.step_move t
  generalize m.step t = r at hm
  cases hm with
  | push x =>
    rw [(Move.push (m := m') x).step_eq]
    exact .ok ⟨by simp [h.stack], h.applied, h.bindings, h.holds.push fun name e => ht name (by rw [e])⟩
  | @apply a s taken =>
    rw [(Move.apply (h.stack.trans taken)).step_eq]
    obtain ⟨hxs, hs⟩ := h.holds.take taken
    exact alike_apply ⟨rfl, h.applied, h.bindings, hs⟩ hxs
  | @short op few =>
    rw [← h.stack] at few
    rw [(Move.short few).step_eq, h.stack]
    exact .error _ h
  | stray other =>
    rw [(Move.stray (m := m') other).step_eq]
    exact .error _ h

theorem alike_steps {ts : List Token} (h : Alike (.var · ∈ ts) m m') :
    Together (Alike (.var · ∈ ts)) (m.steps ts) (m'.steps ts) :=
  together_steps (fun _ ht _ _ h => alike_step h fun _ e => e ▸ ht) h

/-! ## One run -/

/-- A machine that has written no names outside `S` since the bindings were `b`. -/
structure Confined (S : String → Prop) (b : Bindings) (m : Machine) : Prop where
  bindings : Extends S b m.bindings
  holds : Holds S m

theorem confined_step {b : Bindings} (h : Confined S b m) (ht : ∀ name, t = .var name → S name) :
    Confined S b (last (m.step t)) := by
  have hm := m.step_move t
  generalize m.step t = r at hm
  cases hm with
  | push x => exact ⟨h.bindings, h.holds.push fun name e => ht name (by rw [e])⟩
  | @apply a s taken =>
    obtain ⟨hxs, hs⟩ := h.holds.take taken
    rw [apply_eq]
    cases a.number m.bindings with
    | error e => exact ⟨h.bindings, hs⟩
    | ok v =>
      have hstack : Holds S ⟨s, a.after v m.bindings, a :: m.applied⟩ := hs
      exact ⟨h.bindings.trans (Application.extends_after hxs v), hstack.push (by simp)⟩
  | short few => exact h
  | stray other => exact h

/-- Only an assignment writes. -/
theorem bindings_step (m : Machine) (ht : t ≠ .binary .assign) : (last (m.step t)).bindings = m.bindings := by
  have hm := m.step_move t
  generalize m.step t = r at hm
  cases hm with
  | push x => rfl
  | @apply a s taken =>
    have ha : a.operator ≠ .binary .assign := fun e => ht (by rw [e])
    rw [apply_eq]
    cases a.number m.bindings with
    | error e => rfl
    | ok v => exact Application.after_of_ne_assign ha v m.bindings
  | short few => rfl
  | stray other => rfl

end Machine

open Machine

/-! ## Working off a list -/

theorem evaluatePostfix_congr {ts : List Token} {b c : Bindings} (h : AgreeOn (.var · ∈ ts) b c) :
    (evaluatePostfix ts b).result = (evaluatePostfix ts c).result ∧
    (evaluatePostfix ts b).applied = (evaluatePostfix ts c).applied ∧
    AgreeOn (.var · ∈ ts) (evaluatePostfix ts b).bindings (evaluatePostfix ts c).bindings := by
  have hr : Together (Alike (.var · ∈ ts)) ((start b).steps ts) ((start c).steps ts) :=
    alike_steps ⟨rfl, rfl, h, fun _ hname => by cases hname⟩
  unfold evaluatePostfix
  split
  · exact ⟨rfl, rfl, h⟩
  generalize (start b).steps ts = r, (start c).steps ts = r' at hr
  cases hr with
  | @ok m m' hm => exact ⟨by simp [result, hm.stack], by simp [hm.applied], hm.bindings⟩
  | error e hm => exact ⟨rfl, by simp [hm.applied], hm.bindings⟩

theorem extends_evaluatePostfix (ts : List Token) (b : Bindings) :
    Extends (.var · ∈ ts) b (evaluatePostfix ts b).bindings := by
  rw [(evaluatePostfix_eq_last ts b).1]
  have hlast : Confined (.var · ∈ ts) b (last ((start b).steps ts)) :=
    last_steps (fun _ ht _ h => confined_step h fun _ e => e ▸ ht) ⟨.refl _ b, fun _ hname => by cases hname⟩
  exact hlast.bindings

theorem bindings_evaluatePostfix {ts : List Token} (h : .binary .assign ∉ ts) (b : Bindings) :
    (evaluatePostfix ts b).bindings = b := by
  rw [(evaluatePostfix_eq_last ts b).1]
  refine last_steps (P := fun m => m.bindings = b) (fun _ ht m hm => ?_) rfl
  rw [m.bindings_step fun e => h (e ▸ ht), hm]

/-- A text without an equals sign assigns nothing. -/
theorem bindings_evaluate {text : String} (h : '=' ∉ text.toList) (b : Bindings) : (evaluate text b).bindings = b := by
  cases hps : postfixOf text with
  | error e => exact (evaluate_of_postfixOf_error hps b).2
  | ok ps =>
    rw [(evaluate_of_postfixOf hps b).2]
    refine bindings_evaluatePostfix (fun hmem => ?_) b
    obtain ⟨ts, hts, hreordered⟩ := postfixOf_eq_ok hps
    have hread := (List.mem_filter.1 ((perm_of_toPostfix hreordered).subset hmem)).1
    have hsign := NormalText.mem_of_mem_ofChars (symbol_mem_of_tokenizeWith hts hread (by decide))
    simp only [BinaryOp.symbol, h, false_or] at hsign
    exact absurd hsign (by decide)

/-- **Noninterference and frame.** Bindings that agree on the names of a list give the same operand or
the same error, begin the same applications, and agree on these names in the end. No run changes
another name or makes a bound name unbound, whether it fails or not, and a run without an assignment
changes nothing, so that an expression without one may be evaluated again with the same outcome. -/
theorem evaluatePostfix_frame (ts : List Token) :
    (∀ b c, AgreeOn (.var · ∈ ts) b c →
      (evaluatePostfix ts b).result = (evaluatePostfix ts c).result ∧
      (evaluatePostfix ts b).applied = (evaluatePostfix ts c).applied ∧
      AgreeOn (.var · ∈ ts) (evaluatePostfix ts b).bindings (evaluatePostfix ts c).bindings) ∧
    (∀ b, Extends (.var · ∈ ts) b (evaluatePostfix ts b).bindings) ∧
    (.binary .assign ∉ ts → ∀ b, (evaluatePostfix ts b).bindings = b ∧
      evaluatePostfix ts (evaluatePostfix ts b).bindings = evaluatePostfix ts b) ∧
    ∀ (text : String) (b : Bindings), '=' ∉ text.toList →
      evaluate text (evaluate text b).bindings = evaluate text b := by
  refine ⟨fun b c h => evaluatePostfix_congr h, extends_evaluatePostfix ts, fun h b => ?_, fun text b h => ?_⟩
  · have hb := bindings_evaluatePostfix h b
    exact ⟨hb, by rw [hb]⟩
  · rw [bindings_evaluate h b]

end Reckoner
