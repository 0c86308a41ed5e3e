import Reckoner.Error
import Reckoner.Field.Reading

/-!
# Answers and reports

An answer is blank, a value with its display, or a failure. A report lays the answer to an expression out
as a record of the expression and of optional parts; it may also be made from fields (`SPEC_FULL.md` 6,
139-140).
-/

namespace Reckoner

/-- What a session answers to an expression. -/
inductive Answer where
  | blank
  | value (x : Binary64) (display : String)
  | failure (e : ExprError)

/-- An expression and its answer as a record. -/
structure Report where
  expression : String
  value : Option Binary64
  display : Option String
  error : Option String
  errorKind : Option String
  deriving DecidableEq

/-- A report without an error text is good. -/
def Report.ok (r : Report) : Bool := r.error.isNone

/-- The record of the answer to an expression. A blank answer fills no optional part, a failure only the
last two. -/
def Answer.report (text : String) : Answer → Report
  | blank => ⟨text, none, none, none, none⟩
  | value x display => ⟨text, some x, some display, none, none⟩
  | failure e => ⟨text, none, none, some e.message, some e.kind.name⟩

namespace Report

def optionally {α : Type} (read : FieldValue → Except Fault α) : FieldValue → Except Fault (Option α)
  | .null => .ok none
  | v => (read v).map some

/-- The report that fields give, or the faults of all the fields. Only the expression must be given. -/
def ofFields (fs : Fields) : Except (List FieldFault) Report :=
  let text (field : String) : Except Fault (Option String) :=
    fs.read field (optionally FieldValue.asText) (.ok none)
  let expression := fs.read "expression" FieldValue.asText (.error .missing)
  let value := fs.read "result" (optionally FieldValue.asFloat) (.ok none)
  let display := text "display"
  let error := text "error"
  let errorKind := text "error_kind"
  match expression, value, display, error, errorKind with
  | .ok expression, .ok value, .ok display, .ok error, .ok errorKind =>
    .ok ⟨expression, value, display, error, errorKind⟩
  | _, _, _, _, _ =>
    .error (FieldFault.ofReading "expression" expression ++ FieldFault.ofReading "result" value ++
      FieldFault.ofReading "display" display ++ FieldFault.ofReading "error" error ++
      FieldFault.ofReading "error_kind" errorKind)

end Report
end Reckoner
