import Reckoner.Session

/-!
# The console

A conversation in lines. Each line is prompted for and answered: `help` prints the help text, a
blank line, `exit` or `quit` ends the conversation, and anything else is an expression. The end of
the input ends it too, with a line break after the last prompt (`SPEC_FULL.md` 6, 141-144).
-/

namespace Reckoner

/-- What a line asks for. -/
inductive Command where
  | stop
  | help
  | calculate (text : String)
  deriving DecidableEq

/-- The command of a line: blanks around it, and the case of a word of command, do not count. -/
def Command.ofLine (line : List Char) : Command :=
  let text := String.ofList (Text.strip line)
  let word := text.map Char.toLower
  if text.isEmpty || word = "exit" || word = "quit" then .stop
  else if word = "help" then .help
  else .calculate text

namespace Console

def helpText : String := "
========== Help Message ==========
 Enter complete expressions on each line.
 Press Return to evaluate.

 Supported operations are +, -, *, /, ^ (exponentiation)
 and = (assignment, e.g. x = 5).
 Some more functions supported are:
 1. Absolute value - abs(x)
 2. Square root - sqrt(x)
 3. Sine - sin(x)
 4. Cosine - cos(x)
 5. Tangent - tan(x)
 6. Exponential - exp(x)
 7. Natural logarithm - log(x)
 Constants pi, e and phi are predefined.

 To display this message again, type 'help'
 in a new line. To exit, type 'exit' or 'quit'.
"

def help : String := helpText ++ "\n"

/-- An answer as it is printed, a line of its own unless it is blank. -/
def render : Answer → String
  | .blank => ""
  | .value _ display => display ++ "\n"
  | .failure e => "ERROR: " ++ e.message ++ "\n"

/-- What is printed for a line, with the session after it and the events; none ends the
conversation (`SPEC_FULL.md`:141-144). -/
def respond (s : Session) (line : List Char) : Option (String × Session × List Event) :=
  match Command.ofLine line with
  | .stop => none
  | .help => some (help, s, [])
  | .calculate text =>
    let c := s.calculate text
    some (render c.answer, c.session, c.events)

/-- The lines of a text, each with its line break; the last one may lack it. -/
def linesOf : List Char → List (List Char)
  | [] => []
  | c :: cs =>
    if c = '\n' then [c] :: linesOf cs
    else
      match linesOf cs with
      | [] => [[c]]
      | line :: lines => (c :: line) :: lines

/-- What is printed from the first prompt on, and the session at the end. -/
def converse (s : Session) : List (List Char) → String × Session
  | [] => (s.settings.prompt ++ "\n", s)
  | line :: lines =>
    match respond s line with
    | none => (s.settings.prompt, s)
    | some (reply, s', _) =>
      let (rest, last) := converse s' lines
      (s.settings.prompt ++ reply ++ rest, last)

/-- A whole conversation: what is printed, and the session at the end. -/
def run (s : Session) (input : String) : String × Session :=
  let (output, last) := converse s (linesOf input.toList)
  (help ++ output, last)

end Console
end Reckoner
