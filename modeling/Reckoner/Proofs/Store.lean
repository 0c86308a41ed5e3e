import Reckoner.Store
import Reckoner.Proofs.Machine.Step

/-!
# What a computation on the store reads and writes

A computation at a table ends as the computation on the bindings in the table ends, leaves in the table
the bindings at the end, and adds its events to the journal: the store at the end is `Store.after` of the one at
the beginning, and no other cell is written (`frame_after`). The run over a postfix list is the machine's
(`run_steps`), token by token (`run_stepAt`).
-/

namespace Reckoner

namespace Store

/-! ## One table and the journal written -/

/-- The store with another table at an address and further events. -/
def after (st : Store) (a : Address) (b : Bindings) (es : List Event) : Store :=
  { st.setTable a b with journal := st.journal ++ es }

variable {st : Store} {a a' : Address} {b c : Bindings} {es : List Event}

@[simp] theorem tables_setTable : (st.setTable a b).tables a = b := by simp [setTable]

theorem tables_setTable_ne (h : a' ≠ a) : (st.setTable a b).tables a' = st.tables a' := by simp [setTable, h]

@[simp] theorem setTable_tables : st.setTable a (st.tables a) = st := by
  have htables : (fun a' => if a' = a then st.tables a else st.tables a') = st.tables := by
    funext a'
    by_cases h : a' = a <;> simp [h]
  simp only [setTable, htables]

@[simp] theorem tables_after : (st.after a b es).tables a = b := tables_setTable

@[simp] theorem after_after (st : Store) (a : Address) (b c : Bindings) (es es' : List Event) :
    (st.after a b es).after a c es' = st.after a c (es ++ es') := by
  simp only [after, setTable, List.append_assoc]
  congr
  funext a'
  by_cases h : a' = a <;> simp [h]

theorem after_nil : st.after a b [] = st.setTable a b := by
  simp only [after, List.append_nil]
  rfl

@[simp] theorem after_tables : st.after a (st.tables a) [] = st := by simp [after]

/-- What a store may become when no table outside `S` is written: every other table is as it was, the journal
has grown at its end, and nothing else has changed. -/
structure Frame (S : Address → Prop) (st st' : Store) : Prop where
  tables : ∀ a, ¬ S a → st'.tables a = st.tables a
  settings : st'.settings = st.settings
  functions : st'.functions = st.functions
  journal : ∃ es, st'.journal = st.journal ++ es
  next : st'.next = st.next

variable {S T : Address → Prop} {st₁ st₂ : Store}

theorem Frame.refl (S : Address → Prop) (st : Store) : Frame S st st :=
  ⟨fun _ _ => rfl, rfl, rfl, ⟨[], by simp⟩, rfl⟩

theorem Frame.trans (h₁ : Frame S st st₁) (h₂ : Frame S st₁ st₂) : Frame S st st₂ where
  tables a ha := (h₂.tables a ha).trans (h₁.tables a ha)
  settings := h₂.settings.trans h₁.settings
  functions := h₂.functions.trans h₁.functions
  journal := by
    obtain ⟨es₁, hes₁⟩ := h₁.journal
    obtain ⟨es₂, hes₂⟩ := h₂.journal
    exact ⟨es₁ ++ es₂, by rw [hes₂, hes₁, List.append_assoc]⟩
  next := h₂.next.trans h₁.next

theorem Frame.mono (h : Frame S st st₁) (hST : ∀ a, S a → T a) : Frame T st st₁ :=
  { h with tables := fun a ha => h.tables a fun hS => ha (hST a hS) }

theorem frame_after (st : Store) (a : Address) (b : Bindings) (es : List Event) :
    Frame (· = a) st (st.after a b es) where
  tables _ ha := tables_setTable_ne ha
  settings := rfl
  functions := rfl
  journal := ⟨es, rfl⟩
  next := rfl

/-- What is written at other tables is lost on a session. -/
theorem Frame.session {h : Handle} (hframe : Frame S st st₁) (hS : ¬ S h.table) :
    st₁.session h = st.session h := by
  simp only [Store.session, hframe.tables h.table hS, hframe.settings]

end Store

/-! ## Computations that may fail -/

namespace Exec

variable {α β : Type}

theorem run_bind (m : Exec α) (f : α → Exec β) (st : Store) :
    (m >>= f).run.run st =
      match m.run.run st with
      | (.ok x, st') => (f x).run.run st'
      | (.error e, st') => (.error e, st') := by
  have hbind : (m >>= f).run.run st =
    match m.run.run st with
    | (r, st') => (ExceptT.bindCont f r).run st' := rfl
  rw [hbind]
  rcases m.run.run st with ⟨_ | x, st'⟩ <;> rfl

theorem run_bind_ok {m : Exec α} {f : α → Exec β} {st st' : Store} {x : α} (h : m.run.run st = (.ok x, st')) :
    (m >>= f).run.run st = (f x).run.run st' := by
  rw [run_bind, h]

theorem run_bind_error {m : Exec α} {f : α → Exec β} {st st' : Store} {e : ExprError}
    (h : m.run.run st = (.error e, st')) : (m >>= f).run.run st = (.error e, st') := by
  rw [run_bind, h]

theorem run_get (f : Store → Exec α) (st : Store) : (get >>= f).run.run st = (f st).run.run st := rfl

theorem run_liftExcept (r : Except ExprError α) (st : Store) : (liftExcept r : Exec α).run.run st = (r, st) := by
  cases r <;> rfl

end Exec

open Exec

theorem run_bind_of {α β : Type} {m : StateM Store α} {f : α → StateM Store β} {st st' : Store} {x : α}
    (h : m.run st = (x, st')) : (m >>= f).run st = (f x).run st' := by
  rw [StateT.run_bind, h]
  rfl

theorem run_record (e : Event) (st : Store) (a : Address) :
    (record e).run st = ((), st.after a (st.tables a) [e]) := by
  show ((), { st with journal := st.journal ++ [e] }) = _
  simp [Store.after]

theorem Exec.run_record (e : Event) (st : Store) (a : Address) :
    (record e : Exec Unit).run.run st = (.ok (), st.after a (st.tables a) [e]) := by
  have hrecord := Reckoner.run_record e st a
  show (Except.ok ((record e).run st).1, ((record e).run st).2) = _
  rw [hrecord]

/-! ## Applications -/

variable {st : Store} {a : Address}

theorem Operand.run_valueAt (x : Operand) (a : Address) (st : Store) :
    (x.valueAt a).run.run st = (x.value (st.tables a), st) := run_liftExcept _ st

theorem run_bindAt (a : Address) (name : String) (x : Operand) (st : Store) :
    (bindAt a name x).run.run st =
      match x.value (st.tables a) with
      | .ok v => (.ok v, st.after a ((st.tables a).insert name v) [])
      | .error e => (.error e, st) := by
  rw [bindAt, run_bind, x.run_valueAt]
  cases x.value (st.tables a) with
  | error e => rfl
  | ok v =>
    show _ = (Except.ok v, st.after a _ [])
    rw [Store.after_nil]
    rfl

/-- An application at a table gives the number it gives on the bindings there, and leaves those after it. -/
theorem Application.run_runAt (a : Address) (application : Application) (st : Store) :
    (application.runAt a).run.run st =
      match application.run (st.tables a) with
      | .ok (v, b) => (.ok v, st.after a b [])
      | .error e => (.error e, st) := by
  unfold runAt
  split
  · rename_i name y
    rw [run_bindAt]
    cases hy : y.value (st.tables a) <;> simp [run, hy, Except.map]
  · rename_i hne
    have hafter : ∀ v, application.after v (st.tables a) = st.tables a := by
      intro v
      unfold Application.after
      split
      · exact absurd rfl (hne _ _)
      · rfl
    rw [run_get, run_bind, run_liftExcept, application.run_eq]
    cases application.number (st.tables a) with
    | error e => rfl
    | ok v =>
      simp only [Except.map, hafter, Store.after_tables]
      rfl

/-! ## A postfix list -/

/-- The store in a run at a table that has come to a machine. -/
def Machine.store (st : Store) (a : Address) (m : Machine) : Store :=
  st.after a m.bindings (m.applied.reverse.map .applying)

/-- The stack at the end of a run, or its error, with the store. -/
def Machine.ended (st : Store) (a : Address) : Except Halt Machine → Except ExprError (List Operand) × Store
  | .ok m => (.ok m.stack, m.store st a)
  | .error h => (.error h.error, h.machine.store st a)

/-- An application that is begun is an event. -/
theorem Machine.run_record_applying (st : Store) (a : Address) (m : Machine) (application : Application) :
    (record (.applying application) : Exec Unit).run.run (m.store st a) =
      (.ok (), { m with applied := application :: m.applied }.store st a) := by
  rw [Exec.run_record _ _ a]
  simp only [store, Store.tables_after, Store.after_after, List.reverse_cons, List.map_append, List.map_cons,
    List.map_nil]

theorem run_stepAt (st : Store) (a : Address) (m : Machine) (t : Token) :
    (stepAt a m.stack t).run.run (m.store st a) = Machine.ended st a (m.step t) := by
  cases t with
  | operand x => rfl
  | operator op =>
    simp only [stepAt, Machine.step]
    split
    · rfl
    · rw [run_bind, run_liftExcept]
      cases Application.ofOperands op (m.stack.take op.arity).reverse with
      | error e => rfl
      | ok application =>
        dsimp only
        rw [run_bind_ok (m.run_record_applying st a application), run_bind, application.run_runAt]
        simp only [Machine.apply, Machine.store, Store.tables_after, Store.after_after, List.append_nil]
        cases application.run m.bindings <;> rfl
  | _ => rfl

/-- The run over a list is the machine's. -/
theorem run_steps (st : Store) (a : Address) (m : Machine) (ts : List Token) :
    (ts.foldlM (stepAt a) m.stack).run.run (m.store st a) = Machine.ended st a (m.steps ts) := by
  induction ts generalizing m with
  | nil => rfl
  | cons t ts ih =>
    have hstep := run_stepAt st a m t
    rw [List.foldlM_cons, run_bind, hstep, Machine.steps_cons]
    cases m.step t with
    | error h => rfl
    | ok m' => exact ih m'

theorem run_evaluatePostfixAt (ts : List Token) (a : Address) (st : Store) :
    (evaluatePostfixAt ts a).run.run st =
      ((evaluatePostfix ts (st.tables a)).result,
        st.after a (evaluatePostfix ts (st.tables a)).bindings
          ((evaluatePostfix ts (st.tables a)).applied.map .applying)) := by
  have hstart : (Machine.start (st.tables a)).store st a = st := Store.after_tables
  have hsteps := run_steps st a (Machine.start (st.tables a)) ts
  rw [hstart] at hsteps
  have hfold : (ts.foldlM (stepAt a) []).run.run st =
      Machine.ended st a ((Machine.start (st.tables a)).steps ts) := hsteps
  unfold evaluatePostfixAt evaluatePostfix
  split
  · simp only [List.map_nil, Store.after_tables]
    rfl
  · rw [run_bind, hfold]
    cases (Machine.start (st.tables a)).steps ts with
    | error h => rfl
    | ok m =>
      simp only [Machine.ended, Machine.result]
      rcases m.stack with _ | ⟨x, _ | ⟨y, xs⟩⟩ <;> rfl

/-! ## An expression -/

/-- An expression is evaluated at a table as it is on the bindings there, if the lexer knows every function. -/
theorem run_evaluateAt (text : String) (a : Address) {st : Store} (hfunctions : st.functions = Fn.all) :
    (evaluateAt text a).run.run st =
      ((evaluate text (st.tables a)).result,
        st.after a (evaluate text (st.tables a)).bindings (evaluate text (st.tables a)).events) := by
  have hread : (liftExcept (tokenizeWith st.functions text) : Exec (List Token)).run.run st = (tokenize text, st) := by
    rw [run_liftExcept, hfunctions, tokenize]
  rw [evaluateAt, run_get]
  unfold evaluate
  cases hts : tokenize text with
  | error e =>
    rw [hts] at hread
    simp only [run_bind_error hread, Store.after_tables]
  | ok ts =>
    rw [hts] at hread
    rw [run_bind_ok hread, run_bind_ok (Exec.run_record _ st a), run_bind, run_liftExcept]
    cases hps : toPostfix ts with
    | error e => simp only [hps]
    | ok ps =>
      dsimp only
      rw [run_bind_ok (Exec.run_record _ _ a), run_evaluatePostfixAt]
      simp [hps]

/-- How reading the operand of an evaluation ends. -/
def Evaluation.number (ev : Evaluation) : Except ExprError (Option (Operand × Binary64)) :=
  match ev.result with
  | .error e => .error e
  | .ok none => .ok none
  | .ok (some x) => (x.value ev.bindings).map fun v => some (x, v)

theorem run_numberAt (text : String) (a : Address) {st : Store} (hfunctions : st.functions = Fn.all) :
    (numberAt text a).run.run st =
      ((evaluate text (st.tables a)).number,
        st.after a (evaluate text (st.tables a)).bindings (evaluate text (st.tables a)).events) := by
  have hevaluate := run_evaluateAt text a hfunctions
  unfold numberAt Evaluation.number
  rw [run_bind, hevaluate]
  cases (evaluate text (st.tables a)).result with
  | error e => rfl
  | ok x =>
    cases x with
    | none => rfl
    | some x =>
      dsimp only
      rw [run_bind, x.run_valueAt, Store.tables_after]
      cases x.value (evaluate text (st.tables a)).bindings <;> rfl

/-! ## A session -/

/-- The calculation of a session whose evaluation has come to `ev`, by its number. -/
def Session.answered (s : Session) (text : String) (ev : Evaluation) : Calculation :=
  let after := { s with bindings := ev.bindings }
  match ev.number with
  | .error e => ⟨.failure e, after, ev.events ++ [.failed text e]⟩
  | .ok none => ⟨.blank, after, ev.events⟩
  | .ok (some (x, v)) => ⟨.value v (after.describe x), after, ev.events ++ [.answered text (after.describe x)]⟩

theorem Session.calculate_eq_answered (s : Session) (text : String) :
    s.calculate text = s.answered text (evaluate text s.bindings) := by
  cases hr : (evaluate text s.bindings).result with
  | error e => simp only [calculate, answered, Evaluation.number, hr]
  | ok x =>
    cases x with
    | none => simp only [calculate, answered, Evaluation.number, hr]
    | some x =>
      cases hx : x.value (evaluate text s.bindings).bindings <;>
        simp only [calculate, answered, Evaluation.number, hr, hx, Except.map]

@[simp] theorem Store.bindings_session (st : Store) (h : Handle) : (st.session h).bindings = st.tables h.table := rfl

@[simp] theorem Store.session_after (st : Store) (h : Handle) (b : Bindings) (es : List Event) :
    (st.after h.table b es).session h = ⟨b, st.settings h.settings⟩ := by
  simp only [session, tables_after]
  rfl

theorem Handle.run_describe (h : Handle) (x : Operand) (st : Store) :
    (h.describe x).run st = ((st.session h).describe x, st) := rfl

/-- A session in the store answers as the session it comes to, and leaves its bindings in its table. -/
theorem Handle.run_calculate (h : Handle) (text : String) {st : Store} (hfunctions : st.functions = Fn.all) :
    (h.calculate text).run st =
      (((st.session h).calculate text).answer,
        st.after h.table ((st.session h).calculate text).session.bindings ((st.session h).calculate text).events) := by
  rw [calculate, run_bind_of (run_numberAt text h.table hfunctions), Session.calculate_eq_answered,
    Store.bindings_session]
  generalize evaluate text (st.tables h.table) = ev
  unfold Session.answered
  cases ev.number with
  | error e =>
    dsimp only
    rw [run_bind_of (run_record _ _ h.table), Store.after_after, Store.tables_after]
    rfl
  | ok x =>
    rcases x with _ | ⟨x, v⟩
    · rfl
    · dsimp only
      rw [run_bind_of (h.run_describe x _), run_bind_of (run_record _ _ h.table), Store.after_after,
        Store.tables_after, Store.session_after]
      rfl

end Reckoner
