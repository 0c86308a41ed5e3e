import Reckoner.Field.Reading

/-!
# Fields one at a time

What a field is read as depends on its own value only, so that a field given alone is read as among others
(`read_only`).
-/

namespace Reckoner

namespace Fields

variable {α : Type} {fs : Fields} {field : String} {v : FieldValue}

/-- A field alone, if it is given. -/
def only (fs : Fields) (field : String) : Fields := (fs.lookup field).toList.map (field, ·)

theorem only_of_lookup (h : fs.lookup field = some v) : fs.only field = [(field, v)] := by
  rw [only, h]
  rfl

theorem only_of_not_given (h : fs.lookup field = none) : fs.only field = [] := by
  rw [only, h]
  rfl

theorem lookup_singleton (field other : String) (v : FieldValue) :
    List.lookup field [(other, v)] = if field = other then some v else none := by
  by_cases h : field = other
  · rw [if_pos h, h, List.lookup_cons_self]
  · rw [if_neg h, List.lookup_cons, beq_false_of_ne h, List.lookup_nil]

theorem lookup_only (fs : Fields) (field other : String) :
    (fs.only other).lookup field = if field = other then fs.lookup field else none := by
  cases hother : fs.lookup other with
  | none =>
    rw [only_of_not_given hother, List.lookup_nil]
    split
    · rename_i heq
      rw [heq, hother]
    · rfl
  | some v =>
    rw [only_of_lookup hother, lookup_singleton]
    split
    · rename_i heq
      rw [heq, hother]
    · rfl

theorem read_of_not_given (h : fs.lookup field = none) (read : FieldValue → Except Fault α)
    (default : Except Fault α) : fs.read field read default = default := by
  rw [Fields.read, h]

theorem read_eq_ok_iff {read : FieldValue → Except Fault α} {default a : α} :
    fs.read field read (.ok default) = .ok a ↔
      fs.lookup field = none ∧ a = default ∨ ∃ v, fs.lookup field = some v ∧ read v = .ok a := by
  unfold Fields.read
  cases fs.lookup field <;> simp [eq_comm]

/-- Of the fields where one is given alone, that one is read as it was and the others are not given. -/
theorem read_only (fs : Fields) (field other : String) (read : FieldValue → Except Fault α)
    (default : Except Fault α) :
    (fs.only other).read field read default = if field = other then fs.read field read default else default := by
  have hlookup := lookup_only fs field other
  split
  · rename_i heq
    rw [if_pos heq] at hlookup
    rw [Fields.read, hlookup, Fields.read]
  · rename_i hne
    rw [if_neg hne] at hlookup
    rw [read_of_not_given hlookup]

end Fields

namespace FieldFault

variable {α : Type} {field : String}

/-- A field has no fault exactly if it is read. -/
theorem ofReading_eq_nil_iff {x : Except Fault α} : ofReading field x = [] ↔ ∃ a, x = .ok a := by
  cases x <;> simp [ofReading]

/-- A field has at most one fault, which names it. -/
theorem ofReading_cases (field : String) (x : Except Fault α) :
    ofReading field x = [] ∨ ∃ fault, ofReading field x = [⟨field, fault⟩] := by
  cases x with
  | ok a => exact Or.inl rfl
  | error fault => exact Or.inr ⟨fault, rfl⟩

/-- Where one field is given alone, the others have no fault. -/
theorem ofReading_only (fs : Fields) (field other : String) (read : FieldValue → Except Fault α) (default : α) :
    ofReading field ((fs.only other).read field read (.ok default)) =
      if field = other then ofReading field (fs.read field read (.ok default)) else [] := by
  rw [Fields.read_only]
  split
  · rfl
  · rfl

end FieldFault

namespace FieldValue

theorem asText_eq_ok_iff {v : FieldValue} {text : String} : v.asText = .ok text ↔ v = .text text := by
  cases v <;> simp [asText]

/-- A value is read within bounds where it is a whole number between them, and stays what it is. -/
theorem asWholeWithin_eq_ok_iff {least most n : Int} {v : FieldValue} :
    v.asWholeWithin least most = .ok n ↔ v.asWhole = .ok n ∧ least ≤ n ∧ n ≤ most := by
  cases hv : v.asWhole with
  | error fault => simp [asWholeWithin, hv, bind, Except.bind]
  | ok k =>
    simp only [asWholeWithin, hv, bind, Except.bind, Except.ok.injEq]
    split
    · simp only [reduceCtorEq, false_iff]; omega
    · split
      · simp only [reduceCtorEq, false_iff]; omega
      · simp only [Except.ok.injEq]; omega

end FieldValue

end Reckoner
