import Reckoner.Session

/-!
# The journal

The journal keeps the events of calculations that reach the threshold of its level; which events
there are, and what is answered, does not depend on it. It is told its level by name or by number,
and given a place to write to when it is told the first time (`SPEC_FULL.md` 8, 161-164).
-/

namespace Reckoner

/-- Answers expressions one after another, each with the events that a journal of a level keeps. -/
def Session.trace (l : Level) : Session → List String → List (List Event × Answer)
  | _, [] => []
  | s, text :: texts =>
    let c := s.calculate text
    (c.events.filter (·.keptAt l), c.answer) :: c.session.trace l texts

/-- A level as a journal is told it. -/
inductive LevelChoice where
  | named (name : String)
  | numbered (n : Int)
  deriving DecidableEq

structure UnknownLevel where
  name : String
  deriving DecidableEq

def UnknownLevel.message (u : UnknownLevel) : String := "Unknown level: " ++ Text.quoted u.name

/-- The severity of a choice. Names count in capital letters only. -/
def LevelChoice.severity : LevelChoice → Except UnknownLevel Int
  | numbered n => .ok n
  | named name =>
    match Level.ofName? name with
    | some l => .ok l.severity
    | none => .error ⟨name⟩

/-- The severity of a journal and the count of places it writes to. -/
structure Journal where
  severity : Int
  handlers : Nat
  deriving DecidableEq

namespace Journal

def fresh : Journal := ⟨Level.notset.severity, 0⟩

/-- Sets a journal up (`configure_logging(level)`, `SPEC_FULL.md`:163). It gets a place to write to unless it has
one; a name that is no level leaves its severity as it was. -/
def configure (j : Journal) (choice : LevelChoice) : Journal × Option UnknownLevel :=
  let j := if j.handlers = 0 then { j with handlers := 1 } else j
  match choice.severity with
  | .ok n => ({ j with severity := n }, none)
  | .error u => (j, some u)

/-- Sets a journal up several times, with the journal and the fault after each time. -/
def configureAll : Journal → List LevelChoice → List (Journal × Option UnknownLevel)
  | _, [] => []
  | j, choice :: choices =>
    let r := j.configure choice
    r :: r.1.configureAll choices

theorem configure_handlers (j : Journal) (choice : LevelChoice) :
    (j.configure choice).1.handlers = max j.handlers 1 := by
  cases hc : choice.severity <;> by_cases h : j.handlers = 0 <;> simp [configure, hc, h] <;> omega

end Journal
end Reckoner
