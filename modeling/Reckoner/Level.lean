/-!
# Levels of the journal

A level is a name for a severity; two severities have two names. What reaches the threshold of a
level is kept. The level without a severity leaves the threshold as it is without a level, at
warnings.
-/

namespace Reckoner

/-- A level by its name. -/
inductive Level where
  | critical
  | fatal
  | error
  | warn
  | warning
  | info
  | debug
  | notset
  deriving DecidableEq

namespace Level

def name : Level → String
  | critical => "CRITICAL"
  | fatal => "FATAL"
  | error => "ERROR"
  | warn => "WARN"
  | warning => "WARNING"
  | info => "INFO"
  | debug => "DEBUG"
  | notset => "NOTSET"

def severity : Level → Nat
  | critical | fatal => 50
  | error => 40
  | warn | warning => 30
  | info => 20
  | debug => 10
  | notset => 0

def all : List Level := [critical, fatal, error, warn, warning, info, debug, notset]

theorem mem_all (l : Level) : l ∈ all := by cases l <;> decide

def ofName? (name : String) : Option Level := all.find? (·.name == name)

/-- The least severity that is kept. -/
def threshold : Level → Nat
  | notset => warning.severity
  | l => l.severity

/-- The capital of a letter, where that is a letter of ASCII. No other character has a capital
that occurs in the name of a level. -/
def capital (c : Char) : Char :=
  if c = 'ı' then 'I' else if c = 'ſ' then 'S' else c.toUpper

def ofAnyCase? (name : String) : Option Level := ofName? (name.map capital)

end Level

end Reckoner
