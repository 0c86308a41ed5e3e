import Reckoner.Journal
import Reckoner.Proofs.Machine.Progress
import Reckoner.Proofs.Safety
import Reckoner.Proofs.Session

/-!
# What the journal keeps

The level of a journal decides which events are kept and nothing else (`trace_eq_filter`). At the lowest level all are:
each stage that succeeds leaves one event, every application that is begun leaves one, and the answer leaves one at the
end unless it is blank (`logged_calculate`).
-/

namespace Reckoner

/-! ## Levels -/

theorem Event.keptAt_debug (e : Event) : e.keptAt .debug = true := by
  cases e <;> rfl

theorem Event.keptAt_eq (l : Level) (e : Event) :
    e.keptAt l = decide ((if l = .notset then Level.warning else l).severity ≤ e.level.severity) := by
  cases l <;> rfl

namespace Session

def afterAll (s : Session) (texts : List String) : Session := texts.foldl (fun s text => (s.calculate text).session) s

theorem trace_debug_cons (s : Session) (text : String) (texts : List String) :
    s.trace .debug (text :: texts) =
      ((s.calculate text).events, (s.calculate text).answer) :: (s.calculate text).session.trace .debug texts := by
  have hall : (s.calculate text).events.filter (·.keptAt .debug) = (s.calculate text).events :=
    List.filter_eq_self.2 fun e _ => e.keptAt_debug
  rw [trace, hall]

/-- A journal of any level keeps what one of the lowest level does, as far as its threshold goes. -/
theorem trace_eq_filter (l : Level) (s : Session) (texts : List String) :
    s.trace l texts = (s.trace .debug texts).map fun entry => (entry.1.filter (·.keptAt l), entry.2) := by
  induction texts generalizing s with
  | nil => rfl
  | cons text texts ih => rw [trace_debug_cons, List.map_cons, ← ih]; rfl

theorem trace_getElem? {s : Session} {texts : List String} {i : Nat} {text : String} (h : texts[i]? = some text) :
    (s.trace .debug texts)[i]? =
      some (((s.afterAll (texts.take i)).calculate text).events, ((s.afterAll (texts.take i)).calculate text).answer) := by
  induction texts generalizing s i with
  | nil => cases h
  | cons first texts ih =>
    rw [trace_debug_cons]
    cases i with
    | zero => cases h; rfl
    | succ i => exact ih h

theorem length_trace (l : Level) (s : Session) (texts : List String) : (s.trace l texts).length = texts.length := by
  induction texts generalizing s with
  | nil => rfl
  | cons text texts ih => rw [trace, List.length_cons, ih, List.length_cons]

end Session

/-! ## The events of one expression -/

/-- The event of reading, if the expression is read. -/
def reading (text : String) : List Event :=
  match tokenize text with
  | .ok ts => [.tokenized text ts]
  | .error _ => []

/-- The event of reordering, if the expression has a postfix list. -/
def reordering (text : String) : List Event :=
  match postfixOf text with
  | .ok ps => [.reordered ps]
  | .error _ => []

/-- The event of the answer, if it is not blank. -/
def closing (text : String) : Answer → List Event
  | .blank => []
  | .value _ display => [.answered text display]
  | .failure e => [.failed text e]

/-- The events of an expression in order, with its answer: reading, reordering, the applications `as` that a run over
the postfix list begins, and the answer. Only an expression with a postfix list begins any, and without a failure
it begins one for each operator of the list. -/
structure Logged (b : Bindings) (text : String) (events : List Event) (answer : Answer) (as : List Application) : Prop where
  inOrder : events = reading text ++ reordering text ++ as.map .applying ++ closing text answer
  unordered : ∀ e, postfixOf text = .error e → as = []
  begins : ∀ ps, postfixOf text = .ok ps → Machine.Begins b ps (as.map Application.operator)
  complete : ∀ ps, postfixOf text = .ok ps → (answer.report text).ok = true → as.map Application.operator = operators ps

variable {b : Bindings} {text : String} {events : List Event} {answer : Answer} {as : List Application}

/-- An evaluation leaves the events of its stages. -/
theorem events_evaluate (text : String) (b : Bindings) :
    ∃ as, (evaluate text b).events = reading text ++ reordering text ++ as.map .applying ∧
      (∀ e, postfixOf text = .error e → as = []) ∧ ∀ ps, postfixOf text = .ok ps → as = (evaluatePostfix ps b).applied := by
  unfold evaluate reading reordering postfixOf
  cases tokenize text with
  | error e => exact ⟨[], rfl, fun _ _ => rfl, nofun⟩
  | ok ts =>
    cases hps : toPostfix ts with
    | error e => exact ⟨[], by simp [bind, Except.bind, hps], fun _ _ => rfl, by simp [bind, Except.bind, hps]⟩
    | ok ps =>
      refine ⟨(evaluatePostfix ps b).applied, by simp [bind, Except.bind, hps], ?_, ?_⟩
      · simp [bind, Except.bind, hps]
      · rintro ps' h
        simp only [bind, Except.bind, hps] at h
        cases h
        rfl

/-- A calculation adds the event of its answer. -/
theorem events_calculate (s : Session) (text : String) :
    (s.calculate text).events = (evaluate text s.bindings).events ++ closing text (s.calculate text).answer := by
  simp only [Session.calculate]
  split
  · rfl
  · simp [closing]
  · split <;> rfl

theorem logged_calculate (s : Session) (text : String) :
    ∃ as, Logged s.bindings text (s.calculate text).events (s.calculate text).answer as := by
  obtain ⟨as, hevents, hunordered, happlied⟩ := events_evaluate text s.bindings
  refine ⟨as, by rw [events_calculate, hevents], hunordered, fun ps hps => ?_, fun ps hps hok => ?_⟩
  · obtain ⟨ts, -, hreordered⟩ := postfixOf_eq_ok hps
    rw [happlied ps hps]
    exact begins_evaluatePostfix (isKept_of_toPostfix hreordered) s.bindings
  · rw [happlied ps hps]
    cases hr : (evaluate text s.bindings).result with
    | error e =>
      rw [Session.calculate_of_error hr] at hok
      cases hok
    | ok x =>
      rw [(evaluate_of_postfixOf hps s.bindings).1] at hr
      exact operators_of_result hr

/-- All events before the answer are for debugging. -/
theorem level_of_stage {e : Event} (h : e ∈ reading text ++ reordering text ++ as.map .applying) : e.level = .debug := by
  unfold reading reordering at h
  rcases List.mem_append.1 h with h | h
  · rcases List.mem_append.1 h with h | h
    · split at h
      · rw [List.mem_singleton.1 h]; rfl
      · cases h
    · split at h
      · rw [List.mem_singleton.1 h]; rfl
      · cases h
  · obtain ⟨a, -, rfl⟩ := List.mem_map.1 h
    rfl

/-- One event is an error exactly where the answer is a failure, and one informs exactly where there is a value. -/
theorem Logged.countP_level (h : Logged b text events answer as) :
    events.countP (·.level = .error) = (if (answer.report text).ok then 0 else 1) ∧
    events.countP (·.level = .info) = (if (answer.report text).value.isSome then 1 else 0) := by
  have hcount : ∀ l, l ≠ Level.debug → events.countP (·.level = l) = (closing text answer).countP (·.level = l) := by
    intro l hl
    have hnone : (reading text ++ reordering text ++ as.map Event.applying).countP (·.level = l) = 0 := by
      refine List.countP_eq_zero.2 fun e he => ?_
      rw [level_of_stage he]
      simpa using hl.symm
    rw [h.inOrder, List.countP_append, hnone, Nat.zero_add]
  rw [hcount .error (by decide), hcount .info (by decide)]
  cases answer <;> exact ⟨rfl, rfl⟩

/-- **What the journal keeps.** A journal of any level keeps those events of a journal of the lowest level whose severity
reaches that of its own level, where no level stands for warnings, and the answers are the same. At the lowest level an
expression leaves, in order, an event of its tokens if it is read, an event of its postfix list if it is reordered, one
event for each operator that the run begins to apply, and one of its answer unless that is blank: an error exactly for a
failure, and an information exactly for a value. -/
theorem Session.trace_logged (s : Session) (texts : List String) :
    (∀ l, s.trace l texts = (s.trace .debug texts).map fun entry =>
      (entry.1.filter fun e => (if l = .notset then Level.warning else l).severity ≤ e.level.severity, entry.2)) ∧
    (s.trace .debug texts).length = texts.length ∧
    ∀ (i : Nat) (text : String), texts[i]? = some text → ∃ events answer as,
      (s.trace .debug texts)[i]? = some (events, answer) ∧
      answer = ((s.afterAll (texts.take i)).calculate text).answer ∧
      Logged (s.afterAll (texts.take i)).bindings text events answer as ∧
      events.countP (·.level = .error) = (if (answer.report text).ok then 0 else 1) ∧
      events.countP (·.level = .info) = (if (answer.report text).value.isSome then 1 else 0) := by
  refine ⟨fun l => ?_, length_trace .debug s texts, fun i text htext => ?_⟩
  · rw [trace_eq_filter]
    simp only [Event.keptAt_eq]
  · obtain ⟨as, has⟩ := logged_calculate (s.afterAll (texts.take i)) text
    exact ⟨_, _, as, trace_getElem? htext, rfl, has, has.countP_level⟩

end Reckoner
