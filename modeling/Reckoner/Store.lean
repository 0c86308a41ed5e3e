import Reckoner.Session

/-!
# The store

Sessions run side by side in one store, which keeps in cells what they refer to. A session is the address
of a table of bindings with the address of its settings (`SPEC_FULL.md` 5, 133-135); the journal, the
constants and the functions that the lexer knows are made once and serve every session. Nothing in the types
keeps two sessions from referring to one table: it is `makeTable` that gives each a table of its own.

| here | `SPEC_FULL.md` |
| --- | --- |
| `Store.tables`, `bindAt` | 3 (57-60), an environment: written by assignment only, never rolled back |
| `makeTable` | 3 (58), a new environment is seeded with the constants |
| `Store.functions` | 4.1, the table of functions of the one lexer |
| `Store.journal`, `record` | 8 (161-162), one journal for all |
| `stepAt`, `evaluatePostfixAt` | 4.3 (112-119) |
| `evaluateAt` | 6 (138) |
| `Handle.calculate` | 6 and 7 (139-140, 155-157), where an error becomes an answer |

Binary operators and their symbols are a type, which nothing can write: they have no cell. Neither have the
characters held back in a reading and the stack of an evaluation, which last no longer than these.
-/

namespace Reckoner

abbrev Address := Nat

/-- All that sessions refer to. No session has yet referred to an address from `next` on. -/
structure Store where
  tables : Address → Bindings
  settings : Address → Settings
  functions : List Fn
  journal : List Event
  next : Address

/-- A session in a store: where its bindings and its settings are. -/
structure Handle where
  table : Address
  settings : Address
  deriving DecidableEq

/-- A computation on the store that may fail. A failure undoes nothing that has been written. -/
abbrev Exec := ExceptT ExprError (StateM Store)

namespace Store

/-- The table of constants. Every new table is a copy of it. -/
def constantsAt : Address := 0

/-- The store before the first session, with settings that sessions may refer to. -/
def initial (settings : Address → Settings) : Store where
  tables a := if a = constantsAt then .constants else .empty
  settings := settings
  functions := Fn.all
  journal := []
  next := constantsAt + 1

def setTable (st : Store) (a : Address) (b : Bindings) : Store :=
  { st with tables := fun a' => if a' = a then b else st.tables a' }

/-- The store with one more table, a copy of the constants. -/
def grown (st : Store) : Store := { st.setTable st.next (st.tables constantsAt) with next := st.next + 1 }

/-- What a session in the store comes to. -/
def session (st : Store) (h : Handle) : Session := ⟨st.tables h.table, st.settings h.settings⟩

end Store

def record (e : Event) : StateM Store Unit := modify fun st => { st with journal := st.journal ++ [e] }

/-! ## Evaluation at a table -/

/-- The number that an operand stands for when it is read. -/
def Operand.valueAt (x : Operand) (a : Address) : Exec Binary64 := do
  liftExcept (x.value ((← get).tables a))

/-- Binds a name in a table to the number that an operand stands for. No other computation writes a table
that has been made. -/
def bindAt (a : Address) (name : String) (x : Operand) : Exec Binary64 := do
  let v ← x.valueAt a
  modify fun st => st.setTable a ((st.tables a).insert name v)
  return v

/-- The number that an application gives. Only an assignment to a name writes. -/
def Application.runAt (a : Address) : Application → Exec Binary64
  | binary .assign (.var name) y => bindAt a name y
  | application => do return (← liftExcept (application.run ((← get).tables a))).1

/-- One postfix token, with the operands on the stack, the topmost first. -/
def stepAt (a : Address) (stack : List Operand) : Token → Exec (List Operand)
  | .operand x => return x :: stack
  | .operator op =>
    let taken := stack.take op.arity
    if taken.length < op.arity then throw (.arity op stack.length)
    else do
      let application ← liftExcept (Application.ofOperands op taken.reverse)
      record (.applying application)
      return .real (← application.runAt a) :: stack.drop op.arity
  | t => throw (.strayToken t)

/-- Works off a postfix list at a table. An empty list has no operand. -/
def evaluatePostfixAt (ts : List Token) (a : Address) : Exec (Option Operand) :=
  if ts.isEmpty then return none
  else do
    match ← ts.foldlM (stepAt a) [] with
    | [x] => return some x
    | [] => throw .noOperands
    | _ => throw .tooManyOperands

/-- Evaluates an expression at a table. The lexer is the one of the store. -/
def evaluateAt (text : String) (a : Address) : Exec (Option Operand) := do
  let ts ← liftExcept (tokenizeWith (← get).functions text)
  record (.tokenized text ts)
  let ps ← liftExcept (toPostfix ts)
  record (.reordered ps)
  evaluatePostfixAt ps a

/-- The operand of an expression and the number that it stands for. -/
def numberAt (text : String) (a : Address) : Exec (Option (Operand × Binary64)) := do
  match ← evaluateAt text a with
  | none => return none
  | some x => return some (x, ← x.valueAt a)

/-! ## Sessions -/

namespace Handle

def describe (h : Handle) (x : Operand) : StateM Store String := do
  return (← get).session h |>.describe x

/-- Answers an expression. An error, also that of a name which stands alone and is read only here, is an
answer. -/
def calculate (h : Handle) (text : String) : StateM Store Answer := do
  match ← (numberAt text h.table).run with
  | .error e =>
    record (.failed text e)
    return .failure e
  | .ok none => return .blank
  | .ok (some (x, v)) =>
    let display ← h.describe x
    record (.answered text display)
    return .value v display

end Handle

/-- Makes a table and gives its address. -/
def makeTable : StateM Store Address := modifyGet fun st => (st.next, st.grown)

def openSession (settings : Address) : StateM Store Handle := do
  return ⟨← makeTable, settings⟩

/-- Makes a session for each of several references to settings. -/
def openAll : List Address → StateM Store (List Handle)
  | [] => return []
  | c :: cs => do
    let h ← openSession c
    return h :: (← openAll cs)

end Reckoner
