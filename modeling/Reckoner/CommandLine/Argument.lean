import Reckoner.Text.Word

/-!
# Arguments of a command line

An argument is an option, with or without a value after an equals sign, or plain. The name of an
option may be shortened as long as only one option begins so. An argument that begins with a minus
sign is an option unless it is the sign alone, a negative number or holds a space; after `--` every
argument is plain.
-/

namespace Reckoner

namespace CommandLine

inductive Setting where
  | precision
  | logLevel
  deriving DecidableEq

/-- What an argument is, by itself. -/
inductive Argument where
  /-- An expression, or the value of the option before it. -/
  | plain (text : String)
  /-- An option, with its value if that stands in the same argument. -/
  | setting (s : Setting) (value : Option String)
  | help
  /-- The mark after which there are no options. -/
  | endOfOptions
  /-- An option that does not exist. -/
  | unknown
  /-- An option that is shortened too much. -/
  | ambiguous
  /-- The option for help with a value, which it does not take. -/
  | faulty
  deriving DecidableEq

/-- The options with two dashes; help has no setting. -/
def longOptions : List (List Char × Option Setting) :=
  [("--help".toList, none), ("--precision".toList, some .precision),
   ("--log-level".toList, some .logLevel)]

/-- Is the text a run of digits of any script? -/
def allDigits (cs : List Char) : Bool := cs.all fun c => (Text.digitValue? c).isSome

/-- Is the text a negative number: digits, or a point with digits after it, and perhaps a line
break? -/
def isNegativeNumber (cs : List Char) : Bool :=
  let cs := if cs.getLast? = some '\n' then cs.dropLast else cs
  match cs with
  | '-' :: cs =>
    match cs.dropWhile fun c => (Text.digitValue? c).isSome with
    | [] => !cs.isEmpty
    | c :: places => c = '.' && !places.isEmpty && allDigits places
  | _ => false

/-- The part of an argument before an equals sign, and the part after it if there is one. -/
def splitValue (cs : List Char) : List Char × Option String :=
  let isEquals (c : Char) : Bool := c == '='
  match cs.dropWhile (!isEquals ·) with
  | [] => (cs, none)
  | _ :: value => (cs.takeWhile (!isEquals ·), some (.ofList value))

/-- An option found by its name, with its value. -/
def ofOption : Option Setting → Option String → Argument
  | some s, value => .setting s value
  | none, none => .help
  | none, some _ => .faulty

/-- What an argument with one dash and a letter asks for: only help has such a form. -/
def ofShort (cs : List Char) : Option Argument :=
  match cs with
  | '-' :: 'h' :: rest =>
    match rest.dropWhile (· == 'h') with
    | '=' :: _ | '-' :: _ => some .faulty
    | _ => some .help
  | _ => none

/-- What an argument with two dashes asks for: an option whose name is given or begins so. -/
def ofLong (cs : List Char) : Option Argument :=
  let (name, value) := splitValue cs
  match longOptions.filter (·.1 == name), longOptions.filter (name.isPrefixOf ·.1) with
  | (_, s) :: _, _ => some (ofOption s value)
  | [], [] => none
  | [], [(_, s)] => some (ofOption s value)
  | [], _ => some .ambiguous

def classify (arg : String) : Argument :=
  let cs := arg.toList
  match cs with
  | '-' :: c :: _ =>
    match if c = '-' then ofLong cs else ofShort cs with
    | some a => a
    | none => if isNegativeNumber cs || ' ' ∈ cs then .plain arg else .unknown
  | _ => .plain arg

def classifyAll : List String → List Argument
  | [] => []
  | arg :: args =>
    if arg = "--" then .endOfOptions :: args.map .plain else classify arg :: classifyAll args

end CommandLine
end Reckoner
