import Reckoner.CommandLine.Argument
import Reckoner.Console

/-!
# The command line

One expression may be given, before or after the options `--precision` and `--log-level`. An
option takes the next plain argument or what follows an equals sign, and may be repeated; the last
one counts. The mark `--` is no value: an option that has nothing else behind its equals sign is
left empty, which is a misuse unless the option is given again. The expression is answered once;
without one the console is opened (`SPEC_FULL.md` 6, 145-147, and 9, 170-171).
-/

namespace Reckoner

namespace CommandLine

/-- A whole number in digits of any script, with white space around it, a sign in front and single
underscores between digits. -/
def readInt (text : String) : Option Int :=
  let (negative, ds) := Decimal.splitSign (Text.trim Text.isSpace text.toList)
  let ds := if '_' ∈ ds then FieldText.dropUnderscores ds else some ds
  ds.bind fun ds =>
    match ds.mapM Text.digitValue? with
    | some (v :: vs) =>
      if FieldText.mostDigits < ds.length then none
      else
        let n : Nat := (v :: vs).foldl (fun n v => 10 * n + v) 0
        some (if negative then -(n : Int) else n)
    | _ => none

inductive Refusal where
  | help
  | misuse
  deriving DecidableEq

/-- What the arguments read so far say. An option that is left empty has no value, and `surplus`
says that an argument has no place; both are found out only when all are read. -/
structure Reading where
  expression : Option String
  precision : Option Int
  logLevel : Option String
  surplus : Bool
  deriving DecidableEq

namespace Reading

def start : Reading :=
  ⟨none, some Settings.standard.precision, some Settings.standard.level.name, false⟩

def clear (r : Reading) : Setting → Reading
  | .precision => { r with precision := none }
  | .logLevel => { r with logLevel := none }

/-- Gives an option its value; the mark `--` leaves it empty. There are two readings of `--precision=--`: either the
mark is taken out behind an equals sign as it is elsewhere, or it is the text that the option is given. The first is
meant here, so that the option is left empty. -/
def set (r : Reading) (value : String) (s : Setting) : Except Refusal Reading :=
  if value = "--" then .ok (r.clear s)
  else
    match s with
    | .precision =>
      match readInt value with
      | some n => .ok { r with precision := some n }
      | none => .error .misuse
    | .logLevel => .ok { r with logLevel := some value }

/-- Reads arguments. The expression may have the end of the options before or after it. -/
def read (r : Reading) : List Argument → Except Refusal Reading
  | [] => .ok r
  | .setting s (some value) :: rest => do read (← r.set value s) rest
  | .setting s none :: .plain value :: rest => do read (← r.set value s) rest
  | .setting _ none :: _ => .error .misuse
  | .help :: _ => .error .help
  | .ambiguous :: _ | .faulty :: _ => .error .misuse
  | .unknown :: rest => read { r with surplus := true } rest
  | .plain text :: .endOfOptions :: rest =>
    if r.expression.isNone then read { r with expression := some text } rest
    else read { r with surplus := true } rest
  | .plain text :: rest =>
    if r.expression.isNone then read { r with expression := some text } rest
    else read { r with surplus := true } rest
  | .endOfOptions :: rest => read { r with surplus := r.surplus || r.expression.isSome } rest

end Reading

end CommandLine

/-- What a command line asks for. -/
structure CommandLine where
  expression : Option String
  precision : Nat
  logLevel : String
  deriving DecidableEq

namespace CommandLine

/-- Reads a command line. An option shortened too much is found before anything else, and an empty
option or an argument without a place after everything else. -/
def parse (args : List String) : Except Refusal CommandLine := do
  let arguments := classifyAll args
  if .ambiguous ∈ arguments then .error .misuse
  let r ← Reading.start.read arguments
  match r.precision, r.logLevel with
  | some precision, some logLevel =>
    if r.surplus || precision < 0 || Settings.mostPrecision < precision then .error .misuse
    else .ok ⟨r.expression, precision.toNat, logLevel⟩
  | _, _ => .error .misuse

def settings (c : CommandLine) : Except (List FieldFault) Settings :=
  Settings.ofFields [("display_precision", .int c.precision), ("log_level", .text c.logLevel)]

structure Response where
  code : Nat
  output : String
  deriving DecidableEq

/-- How the program answers a command line: with the answer to the expression or, without one,
with a conversation over the input (`SPEC_FULL.md`:145-147). -/
def respond (c : CommandLine) (input : String) : Response :=
  match c.settings with
  | .error _ => ⟨2, ""⟩
  | .ok settings =>
    let session := Session.fresh settings
    match c.expression with
    | none => ⟨0, (Console.run session input).1⟩
    | some text =>
      match (session.calculate text).answer with
      | .failure e => ⟨1, Console.render (.failure e)⟩
      | answer => ⟨0, Console.render answer⟩

def run (args : List String) (input : String) : Response :=
  match parse args with
  | .ok c => c.respond input
  | .error .help => ⟨0, ""⟩
  | .error .misuse => ⟨2, ""⟩

end CommandLine
end Reckoner
