import Reckoner.CommandLine.Basic

/-!
# The program

Reads the arguments and standard input, and writes to standard output what the command line and
the console answer. The events of a calculation, and the end of a conversation, go to standard error, as far
as the level of the journal keeps them; time and place of an event are not written.
-/

namespace Reckoner.Program

/-- Writes the events that a session keeps. -/
def record (s : Session) (events : List Event) : IO Unit :=
  for e in events do
    if e.keptAt s.settings.level then IO.eprintln (e.level.name ++ ": " ++ e.message)

/-- Holds a conversation, line by line. However it ends, the end is an event. -/
partial def converse (s : Session) : IO Unit := do
  IO.print s.settings.prompt
  (← IO.getStdout).flush
  let line ← (← IO.getStdin).getLine
  if line.isEmpty then
    IO.println ""
    record s [.stopped]
  else
    match Console.respond s line.toList with
    | none => record s [.stopped]
    | some (reply, s, events) =>
      record s events
      IO.print reply
      converse s

def reply (r : CommandLine.Response) : IO Nat := do
  IO.print r.output
  pure r.code

/-- Answers the arguments of the program. -/
def answer (args : List String) : IO Nat := do
  match CommandLine.parse args with
  | .error _ => reply (CommandLine.run args "")
  | .ok c =>
    match c.expression, c.settings with
    | none, .ok settings =>
      IO.print Console.help
      converse (.fresh settings)
      pure 0
    | some text, .ok settings =>
      record (.fresh settings) ((Session.fresh settings).calculate text).events
      reply (c.respond "")
    | _, .error _ => reply (c.respond "")

end Reckoner.Program

def main (args : List String) : IO UInt32 := do
  pure (← Reckoner.Program.answer args).toUInt32
