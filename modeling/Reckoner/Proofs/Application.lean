import Reckoner.Application

/-!
# What an application reads and writes

An application gives a number, which depends on the bindings only through the numbers of its operands,
and then writes: an assignment binds its name to this number, and nothing else changes the bindings
(`run_eq`). An application that fails writes nothing, and fails with an error of its own
(`ExprError.isApplication`).
-/

namespace Reckoner

/-! ## Bindings that differ -/

namespace Bindings

/-- Bindings that give every name of `S` the same number, or leave it unbound alike. -/
def AgreeOn (S : String → Prop) (b c : Bindings) : Prop := ∀ name, S name → b.get? name = c.get? name

/-- What bindings may become when no name outside `S` is written: every other name keeps its binding,
and no bound name becomes unbound. -/
structure Extends (S : String → Prop) (b c : Bindings) : Prop where
  others : ∀ name, ¬ S name → c.get? name = b.get? name
  bound : ∀ name, b.contains name = true → c.contains name = true

variable {S : String → Prop} {b c d : Bindings}

theorem AgreeOn.insert (h : AgreeOn S b c) (name : String) (x : Binary64) :
    AgreeOn S (b.insert name x) (c.insert name x) := by
  intro key hkey
  simp [h key hkey]

theorem Extends.refl (S : String → Prop) (b : Bindings) : Extends S b b := ⟨fun _ _ => rfl, fun _ => id⟩

theorem Extends.trans (h : Extends S b c) (h' : Extends S c d) : Extends S b d where
  others name hname := (h'.others name hname).trans (h.others name hname)
  bound name hname := h'.bound name (h.bound name hname)

theorem extends_insert {name : String} (hname : S name) (x : Binary64) : Extends S b (b.insert name x) := by
  constructor
  · intro key hkey
    have hne : key ≠ name := by
      rintro rfl
      exact hkey hname
    simp [hne]
  · intro key hkey
    by_cases hkn : key = name
    · simp [contains, hkn]
    · simpa [contains, hkn] using hkey

end Bindings

open Bindings (AgreeOn Extends)

/-! ## One application -/

theorem Operand.value_congr {S : String → Prop} {b c : Bindings} (h : AgreeOn S b c) {x : Operand}
    (hx : ∀ name, x = .var name → S name) : x.value b = x.value c := by
  cases x with
  | real v => rfl
  | var name => simp only [value, h name (hx name rfl)]

theorem Operand.value_of_not_contains {b : Bindings} {name : String} (h : b.contains name = false) :
    (var name).value b = .error (.unbound name) := by
  have hnone : b.get? name = none := by simpa [Bindings.contains] using h
  simp only [value, hnone]

/-- The value of an operator on two numbers. That of an assignment is the number assigned. -/
def BinaryOp.calculate : BinaryOp → Binary64 → Binary64 → Except ExprError Binary64
  | assign, _, w => .ok w
  | add, v, w => .ok (v.add w)
  | mul, v, w => .ok (v.mul w)
  | div, v, w => .ok (v.div w)
  | pow, v, w => v.power w

namespace Application

def operands : Application → List Operand
  | binary _ x y => [x, y]
  | function _ x => [x]

def operator : Application → Operator
  | binary op _ _ => .binary op
  | function f _ => .function f

/-- The number that an application gives. An assignment does not read its left side. -/
def number (b : Bindings) : Application → Except ExprError Binary64
  | binary .assign (.real _) _ => .error .assignmentTarget
  | binary .assign (.var _) y => y.value b
  | binary op x y => do let v ← x.value b; let w ← y.value b; op.calculate v w
  | function f x => do let v ← x.value b; f.calculate v

/-- The bindings after an application that has given the number `v`. -/
def after (v : Binary64) (b : Bindings) : Application → Bindings
  | binary .assign (.var name) _ => b.insert name v
  | _ => b

/-- An application gives its number and writes it where it is assigned. -/
theorem run_eq (a : Application) (b : Bindings) : a.run b = (a.number b).map fun v => (v, a.after v b) := by
  cases a with
  | binary op x y =>
    cases op with
    | assign => cases x <;> rfl
    | pow =>
      simp only [run, number, BinaryOp.calculate]
      cases x.value b with
      | error e => rfl
      | ok v =>
        cases y.value b with
        | error e => rfl
        | ok w => simp only [bind, Except.bind]; cases v.power w <;> rfl
    | _ =>
      simp only [run, number, BinaryOp.calculate]
      cases x.value b <;> cases y.value b <;> rfl
  | function f x =>
    simp only [run, number]
    cases x.value b with
    | error e => rfl
    | ok v => simp only [bind, Except.bind]; cases f.calculate v <;> rfl

variable {S : String → Prop} {a : Application} {b c : Bindings}

/-- Bindings that agree on the operands give the same number. -/
theorem number_congr (h : AgreeOn S b c) (ha : ∀ name, .var name ∈ a.operands → S name) : a.number b = a.number c := by
  have hx : ∀ x ∈ a.operands, x.value b = x.value c := by
    intro x hx
    refine Operand.value_congr h fun name hname => ha name ?_
    rwa [← hname]
  cases a with
  | binary op x y =>
    have hxv := hx x (by simp [operands])
    have hyv := hx y (by simp [operands])
    unfold number
    split <;> simp_all
  | function f x => simp only [number, hx x (by simp [operands])]

theorem agreeOn_after (h : AgreeOn S b c) (a : Application) (v : Binary64) : AgreeOn S (a.after v b) (a.after v c) := by
  unfold after
  split
  · exact h.insert _ v
  · exact h

theorem extends_after (ha : ∀ name, .var name ∈ a.operands → S name) (v : Binary64) : Extends S b (a.after v b) := by
  unfold after
  split
  · rename_i name y
    exact Bindings.extends_insert (ha name (by simp [operands])) v
  · exact .refl S b

/-- Only an assignment writes. -/
theorem after_of_ne_assign (h : a.operator ≠ .binary .assign) (v : Binary64) (b : Bindings) : a.after v b = b := by
  unfold after
  split
  · exact absurd rfl h
  · rfl

end Application

/-! ## How an application fails -/

/-- Can the error come from applying an operator to as many operands as it takes? -/
def ExprError.isApplication : ExprError → Bool
  | unbound _ | assignmentTarget | negativeRoot | negativeLogarithm | undefinedResult .. | overflow .. => true
  | _ => false

/-- Can the computation fail only with errors of a class? -/
def FailsWith (p : ExprError → Bool) {α : Type} : Except ExprError α → Prop
  | .ok _ => True
  | .error e => p e = true

namespace FailsWith

variable {p : ExprError → Bool} {α β : Type} {x : Except ExprError α}

theorem bind {f : α → Except ExprError β} (hx : FailsWith p x) (hf : ∀ a, FailsWith p (f a)) :
    FailsWith p (x >>= f) := by
  cases x with
  | error e => exact hx
  | ok a => exact hf a

theorem map {f : α → β} (hx : FailsWith p x) : FailsWith p (x.map f) := by
  cases x with
  | error e => exact hx
  | ok a => trivial

end FailsWith

open ExprError (isApplication)

theorem Binary64.failsWith_power (x y : Binary64) : FailsWith isApplication (x.power y) := by
  unfold power
  split
  · split
    · rfl
    · trivial
  · split
    · split <;> rfl
    · trivial
  · trivial

theorem Binary64.failsWith_circular (quantity : Quantity) (f : Binary64 → Binary64) (x : Binary64) :
    FailsWith isApplication (x.circular quantity f) := by
  cases x with
  | infinite negative => rfl
  | nan => trivial
  | finite negative m e h => trivial

theorem BinaryOp.failsWith_calculate (op : BinaryOp) (x y : Binary64) : FailsWith isApplication (op.calculate x y) := by
  cases op with
  | pow => exact x.failsWith_power y
  | _ => trivial

theorem Fn.failsWith_calculate (f : Fn) (x : Binary64) : FailsWith isApplication (f.calculate x) := by
  cases f with
  | abs => trivial
  | sqrt =>
    show FailsWith isApplication x.squareRoot
    unfold Binary64.squareRoot
    split
    · rfl
    · trivial
  | sin => exact Binary64.failsWith_circular _ _ x
  | cos => exact Binary64.failsWith_circular _ _ x
  | tan => exact Binary64.failsWith_circular _ _ x
  | exp =>
    show FailsWith isApplication x.exponential
    unfold Binary64.exponential
    split
    · rfl
    · trivial
  | log =>
    show FailsWith isApplication x.logarithm
    unfold Binary64.logarithm
    split
    · rfl
    · trivial

theorem Operand.failsWith_value (b : Bindings) (x : Operand) : FailsWith isApplication (x.value b) := by
  cases x with
  | real x => trivial
  | var name =>
    simp only [value]
    split
    · trivial
    · rfl

theorem Application.failsWith_number (b : Bindings) (a : Application) : FailsWith isApplication (a.number b) := by
  unfold number
  split
  · rfl
  · exact Operand.failsWith_value b _
  · exact (Operand.failsWith_value b _).bind fun v => (Operand.failsWith_value b _).bind fun w =>
      BinaryOp.failsWith_calculate _ v w
  · exact (Operand.failsWith_value b _).bind fun v => Fn.failsWith_calculate _ v

end Reckoner
