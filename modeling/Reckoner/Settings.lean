import Reckoner.Field.Reading
import Reckoner.Level

/-!
# Settings

How many decimals are shown, the prompt of the console and the level of the journal. Settings are
made from fields; every field that cannot be read is reported, in the order of declaration
(`SPEC_FULL.md` 9, 168-171).
-/

namespace Reckoner

structure Settings where
  precision : Nat
  prompt : String
  level : Level
  deriving DecidableEq

namespace Settings

/-- The settings where no field is given. -/
def standard : Settings := ⟨2, ">> ", .warning⟩

def mostPrecision : Nat := 15

/-- The count of decimals: a whole number from zero to fifteen. -/
def readPrecision (v : FieldValue) : Except Fault Nat :=
  (v.asWholeWithin 0 mostPrecision).map Int.toNat

/-- The level of the journal: a name in any case. -/
def readLevel (v : FieldValue) : Except Fault Level := do
  let name ← v.asText
  match Level.ofAnyCase? name with
  | some l => .ok l
  | none => .error .valueError

/-- The settings that fields give, or the faults of all the fields (`SPEC_FULL.md`:168-171). -/
def ofFields (fs : Fields) : Except (List FieldFault) Settings :=
  let precision := fs.read "display_precision" readPrecision (.ok standard.precision)
  let prompt := fs.read "prompt" FieldValue.asText (.ok standard.prompt)
  let level := fs.read "log_level" readLevel (.ok standard.level)
  match precision, prompt, level with
  | .ok precision, .ok prompt, .ok level => .ok ⟨precision, prompt, level⟩
  | _, _, _ =>
    .error (FieldFault.ofReading "display_precision" precision ++
      FieldFault.ofReading "prompt" prompt ++ FieldFault.ofReading "log_level" level)

/-- The settings as fields. -/
def toFields (s : Settings) : Fields :=
  [("display_precision", .int s.precision), ("prompt", .text s.prompt),
   ("log_level", .text s.level.name)]

end Settings
end Reckoner
