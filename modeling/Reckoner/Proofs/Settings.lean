import Reckoner.CommandLine.Basic
import Reckoner.Proofs.Except
import Reckoner.Proofs.Field
import Reckoner.Proofs.Level

/-!
# Checking settings

Fields give settings exactly if the settings are valid and agree with the fields (`ofFields_eq_ok_iff`), so that valid
settings written as fields give themselves again (`ofFields_spelled`). Each field is checked by itself: the faults of
fields are those of the fields one at a time (`faults_eq_flatMap`). A command line has its count of decimals checked
before settings are made of it, and only its level is left to be refused (`settings_of_parse`).
-/

namespace Reckoner

namespace Settings

variable {fs : Fields} {s : Settings}

/-! ## Reading one field -/

/-- A count of decimals is a whole number up to fifteen, and stays what it is. -/
theorem readPrecision_eq_ok_iff {v : FieldValue} {n : Nat} :
    readPrecision v = .ok n ↔ v.asWhole = .ok (n : Int) ∧ n ≤ 15 := by
  have hfifteen : (mostPrecision : Int) = 15 := rfl
  constructor
  · intro h
    obtain ⟨k, hk, rfl⟩ := map_eq_ok h
    obtain ⟨hwhole, hleast, hmost⟩ := FieldValue.asWholeWithin_eq_ok_iff.1 hk
    rw [hwhole, Int.toNat_of_nonneg hleast]
    exact ⟨rfl, by omega⟩
  · rintro ⟨hwhole, hmost⟩
    have hwithin : v.asWholeWithin 0 mostPrecision = .ok (n : Int) :=
      FieldValue.asWholeWithin_eq_ok_iff.2 ⟨hwhole, by omega, by omega⟩
    rw [readPrecision, hwithin]
    rfl

/-- A level is a text whose upper case is the name of the level. -/
theorem readLevel_eq_ok_iff {v : FieldValue} {l : Level} :
    readLevel v = .ok l ↔ ∃ spelling, v = .text spelling ∧ Text.upper? spelling = some l.name := by
  constructor
  · intro h
    obtain ⟨spelling, htext, h⟩ := bind_eq_ok h
    refine ⟨spelling, FieldValue.asText_eq_ok_iff.1 htext, Level.ofAnyCase?_eq_some_iff.1 ?_⟩
    split at h
    · rename_i l' hl'
      cases h
      exact hl'
    · cases h
  · rintro ⟨spelling, rfl, hupper⟩
    refine bind_ok rfl ?_
    rw [Level.ofAnyCase?_eq_some_iff.2 hupper]

theorem readLevel_of_unknown {spelling : String} (h : ¬ ∃ l : Level, Text.upper? spelling = some l.name) :
    readLevel (.text spelling) = .error .valueError := by
  cases hread : readLevel (.text spelling) with
  | ok l =>
    obtain ⟨_, htext, hupper⟩ := readLevel_eq_ok_iff.1 hread
    cases htext
    exact absurd ⟨l, hupper⟩ h
  | error fault =>
    rcases bind_eq_error hread with herror | ⟨name, -, herror⟩
    · cases herror
    · split at herror <;> cases herror
      rfl

/-! ## Field by field -/

/-- The fields that settings have, in the order of declaration. -/
def fieldNames : List String := ["display_precision", "prompt", "log_level"]

def Refused (fs : Fields) : Prop := ∃ faults, ofFields fs = .error faults

/-- The faults of fields; none if they give settings. -/
def faults (fs : Fields) : List FieldFault :=
  match ofFields fs with
  | .ok _ => []
  | .error faults => faults

def precisionOf (fs : Fields) : Except Fault Nat := fs.read "display_precision" readPrecision (.ok standard.precision)

def promptOf (fs : Fields) : Except Fault String := fs.read "prompt" FieldValue.asText (.ok standard.prompt)

def levelOf (fs : Fields) : Except Fault Level := fs.read "log_level" readLevel (.ok standard.level)

/-- Fields give settings if each is read, and are refused with the faults of each if not. -/
theorem ofFields_cases (fs : Fields) :
    (∃ s, ofFields fs = .ok s ∧
      precisionOf fs = .ok s.precision ∧ promptOf fs = .ok s.prompt ∧ levelOf fs = .ok s.level) ∨
    (ofFields fs = .error (FieldFault.ofReading "display_precision" (precisionOf fs) ++
      FieldFault.ofReading "prompt" (promptOf fs) ++ FieldFault.ofReading "log_level" (levelOf fs)) ∧
      ¬ ∃ precision prompt level,
        precisionOf fs = .ok precision ∧ promptOf fs = .ok prompt ∧ levelOf fs = .ok level) := by
  unfold ofFields
  dsimp only
  split
  · rename_i precision prompt level hprecision hprompt hlevel
    exact Or.inl ⟨_, rfl, hprecision, hprompt, hlevel⟩
  · rename_i hno
    refine Or.inr ⟨rfl, ?_⟩
    rintro ⟨precision, prompt, level, hprecision, hprompt, hlevel⟩
    exact hno precision prompt level hprecision hprompt hlevel

theorem ofFields_eq_ok_iff_read :
    ofFields fs = .ok s ↔ precisionOf fs = .ok s.precision ∧ promptOf fs = .ok s.prompt ∧ levelOf fs = .ok s.level := by
  constructor
  · intro h
    rcases ofFields_cases fs with ⟨s', hok, hread⟩ | ⟨herror, -⟩
    · rw [h] at hok
      cases hok
      exact hread
    · rw [h] at herror
      cases herror
  · rintro ⟨hprecision, hprompt, hlevel⟩
    rcases ofFields_cases fs with ⟨s', hok, hprecision', hprompt', hlevel'⟩ | ⟨-, hno⟩
    · rw [hprecision] at hprecision'
      rw [hprompt] at hprompt'
      rw [hlevel] at hlevel'
      obtain ⟨precision, prompt, level⟩ := s'
      cases hprecision'
      cases hprompt'
      cases hlevel'
      exact hok
    · exact absurd ⟨_, _, _, hprecision, hprompt, hlevel⟩ hno

theorem faults_eq (fs : Fields) :
    faults fs = FieldFault.ofReading "display_precision" (precisionOf fs) ++
      FieldFault.ofReading "prompt" (promptOf fs) ++ FieldFault.ofReading "log_level" (levelOf fs) := by
  rcases ofFields_cases fs with ⟨s, hok, hprecision, hprompt, hlevel⟩ | ⟨herror, -⟩
  · rw [faults, hok, hprecision, hprompt, hlevel]
    rfl
  · rw [faults, herror]

/-- Fields are never refused without a fault. -/
theorem refused_iff_faults : Refused fs ↔ faults fs ≠ [] := by
  rcases ofFields_cases fs with ⟨s, hok, -⟩ | ⟨herror, hno⟩
  · rw [Refused, faults, hok]
    simp
  · refine iff_of_true ⟨_, herror⟩ fun hnil => hno ?_
    rw [faults_eq, List.append_eq_nil_iff, List.append_eq_nil_iff] at hnil
    obtain ⟨precision, hprecision⟩ := FieldFault.ofReading_eq_nil_iff.1 hnil.1.1
    obtain ⟨prompt, hprompt⟩ := FieldFault.ofReading_eq_nil_iff.1 hnil.1.2
    obtain ⟨level, hlevel⟩ := FieldFault.ofReading_eq_nil_iff.1 hnil.2
    exact ⟨precision, prompt, level, hprecision, hprompt, hlevel⟩

/-- A field alone has the fault that it has among others. -/
theorem faults_only_eq (fs : Fields) (field : String) :
    faults (fs.only field) =
      (if "display_precision" = field then FieldFault.ofReading "display_precision" (precisionOf fs) else []) ++
      (if "prompt" = field then FieldFault.ofReading "prompt" (promptOf fs) else []) ++
      (if "log_level" = field then FieldFault.ofReading "log_level" (levelOf fs) else []) := by
  rw [faults_eq, precisionOf, promptOf, levelOf, FieldFault.ofReading_only, FieldFault.ofReading_only,
    FieldFault.ofReading_only, precisionOf, promptOf, levelOf]

/-- The faults of fields are those of the fields one at a time. -/
theorem faults_eq_flatMap (fs : Fields) : faults fs = fieldNames.flatMap fun field => faults (fs.only field) := by
  simp [faults_eq fs, fieldNames, faults_only_eq]

example : faults [("log_level", .text "Maße"), ("colour", .null), ("prompt", .null), ("display_precision", .int 16)] =
    [⟨"display_precision", .lessThanEqual⟩, ⟨"prompt", .stringType⟩, ⟨"log_level", .valueError⟩] := by
  decide +kernel

/-- A fault is the only one of the field that it names, given alone. -/
theorem faults_only_of_mem {fault : FieldFault} (h : fault ∈ faults fs) : faults (fs.only fault.field) = [fault] := by
  rw [faults_eq_flatMap] at h
  obtain ⟨field, hfield, hmem⟩ := List.mem_flatMap.1 h
  have hcases : faults (fs.only field) = [] ∨ ∃ fault, faults (fs.only field) = [⟨field, fault⟩] := by
    simp only [fieldNames, List.mem_cons, List.not_mem_nil, or_false] at hfield
    rcases hfield with rfl | rfl | rfl
    · simpa [faults_only_eq] using FieldFault.ofReading_cases "display_precision" (precisionOf fs)
    · simpa [faults_only_eq] using FieldFault.ofReading_cases "prompt" (promptOf fs)
    · simpa [faults_only_eq] using FieldFault.ofReading_cases "log_level" (levelOf fs)
  rcases hcases with hnone | ⟨fault', hone⟩
  · rw [hnone] at hmem
    cases hmem
  · rw [hone] at hmem
    rw [List.mem_singleton.1 hmem]
    exact hone

/-- A field that settings do not have is passed over. -/
theorem ofFields_of_unknown {field : String} (h : field ∉ fieldNames) (v : FieldValue) :
    ofFields [(field, v)] = .ok standard := by
  have hread {α : Type} (read : FieldValue → Except Fault α) (default : Except Fault α) {name : String}
      (hname : name ∈ fieldNames) : Fields.read [(field, v)] name read default = default := by
    have hne : name ≠ field := fun heq => h (heq ▸ hname)
    exact Fields.read_of_not_given (by rw [Fields.lookup_singleton, if_neg hne]) read default
  exact ofFields_eq_ok_iff_read.2 ⟨hread _ _ (by decide), hread _ _ (by decide), hread _ _ (by decide)⟩

theorem faults_of_unknown {field : String} (h : field ∉ fieldNames) (v : FieldValue) : faults [(field, v)] = [] := by
  rw [faults, ofFields_of_unknown h]

/-- Fields are refused exactly if one of them is refused alone. -/
theorem refused_iff (fs : Fields) : Refused fs ↔ ∃ field v, fs.lookup field = some v ∧ Refused [(field, v)] := by
  constructor
  · intro h
    rw [refused_iff_faults, faults_eq_flatMap] at h
    obtain ⟨fault, hfault⟩ := List.exists_mem_of_ne_nil _ h
    obtain ⟨field, -, hmem⟩ := List.mem_flatMap.1 hfault
    cases hv : fs.lookup field with
    | none =>
      rw [Fields.only_of_not_given hv] at hmem
      cases hmem
    | some v =>
      rw [Fields.only_of_lookup hv] at hmem
      exact ⟨field, v, hv, refused_iff_faults.2 (List.ne_nil_of_mem hmem)⟩
  · rintro ⟨field, v, hv, hrefused⟩
    rw [refused_iff_faults] at hrefused ⊢
    have hknown : field ∈ fieldNames := Decidable.byContradiction fun hno => hrefused (faults_of_unknown hno v)
    rw [← Fields.only_of_lookup hv] at hrefused
    obtain ⟨fault, hfault⟩ := List.exists_mem_of_ne_nil _ hrefused
    rw [faults_eq_flatMap]
    exact List.ne_nil_of_mem (List.mem_flatMap.2 ⟨field, hknown, hfault⟩)

/-! ## Settings and fields that agree -/

/-- The settings are what the fields give, and what is standard where a field is not given. -/
structure Agrees (fs : Fields) (s : Settings) : Prop where
  precision : fs.lookup "display_precision" = none ∧ s.precision = 2 ∨
    ∃ v, fs.lookup "display_precision" = some v ∧ v.asWhole = .ok (s.precision : Int)
  prompt : fs.lookup "prompt" = none ∧ s.prompt = ">> " ∨ fs.lookup "prompt" = some (.text s.prompt)
  level : fs.lookup "log_level" = none ∧ s.level = .warning ∨
    ∃ spelling, fs.lookup "log_level" = some (.text spelling) ∧ Text.upper? spelling = some s.level.name

/-- The count of decimals is within its bounds, and the name of the level is known and in capital letters. -/
structure Valid (s : Settings) : Prop where
  least : 0 ≤ (s.precision : Int)
  most : (s.precision : Int) ≤ 15
  known : s.level.name ∈ ["CRITICAL", "FATAL", "ERROR", "WARN", "WARNING", "INFO", "DEBUG", "NOTSET"]
  capital : Text.upper? s.level.name = some s.level.name

theorem valid_iff : s.Valid ↔ s.precision ≤ 15 := by
  constructor
  · intro h
    have hmost := h.most
    omega
  · intro h
    have hknown : s.level.name ∈ ["CRITICAL", "FATAL", "ERROR", "WARN", "WARNING", "INFO", "DEBUG", "NOTSET"] := by
      cases s.level <;> decide
    exact ⟨by omega, by omega, hknown, s.level.upper?_name⟩

theorem precisionOf_eq_ok_iff {n : Nat} :
    precisionOf fs = .ok n ↔
      (fs.lookup "display_precision" = none ∧ n = 2 ∨
        ∃ v, fs.lookup "display_precision" = some v ∧ v.asWhole = .ok (n : Int)) ∧ n ≤ 15 := by
  rw [precisionOf, Fields.read_eq_ok_iff]
  simp only [readPrecision_eq_ok_iff]
  constructor
  · rintro (⟨hnone, rfl⟩ | ⟨v, hv, hwhole, hmost⟩)
    · exact ⟨Or.inl ⟨hnone, rfl⟩, by decide⟩
    · exact ⟨Or.inr ⟨v, hv, hwhole⟩, hmost⟩
  · rintro ⟨⟨hnone, rfl⟩ | ⟨v, hv, hwhole⟩, hmost⟩
    · exact Or.inl ⟨hnone, rfl⟩
    · exact Or.inr ⟨v, hv, hwhole, hmost⟩

theorem promptOf_eq_ok_iff {prompt : String} :
    promptOf fs = .ok prompt ↔
      fs.lookup "prompt" = none ∧ prompt = ">> " ∨ fs.lookup "prompt" = some (.text prompt) := by
  rw [promptOf, Fields.read_eq_ok_iff]
  simp only [FieldValue.asText_eq_ok_iff, exists_eq_right]
  rfl

theorem levelOf_eq_ok_iff {l : Level} :
    levelOf fs = .ok l ↔
      fs.lookup "log_level" = none ∧ l = .warning ∨
        ∃ spelling, fs.lookup "log_level" = some (.text spelling) ∧ Text.upper? spelling = some l.name := by
  rw [levelOf, Fields.read_eq_ok_iff]
  simp only [readLevel_eq_ok_iff]
  refine or_congr Iff.rfl ?_
  constructor
  · rintro ⟨v, hv, spelling, rfl, hupper⟩
    exact ⟨spelling, hv, hupper⟩
  · rintro ⟨spelling, hv, hupper⟩
    exact ⟨_, hv, spelling, rfl, hupper⟩

/-- Fields give settings exactly if these are valid and agree with the fields. -/
theorem ofFields_eq_ok_iff : ofFields fs = .ok s ↔ s.Valid ∧ Agrees fs s := by
  rw [ofFields_eq_ok_iff_read, valid_iff, precisionOf_eq_ok_iff, promptOf_eq_ok_iff, levelOf_eq_ok_iff]
  constructor
  · rintro ⟨⟨hprecision, hmost⟩, hprompt, hlevel⟩
    exact ⟨hmost, hprecision, hprompt, hlevel⟩
  · rintro ⟨hmost, hprecision, hprompt, hlevel⟩
    exact ⟨⟨hprecision, hmost⟩, hprompt, hlevel⟩

/-! ## Settings as fields -/

/-- The settings as fields, with the level spelled in some way. -/
def spelled (s : Settings) (spelling : String) : Fields :=
  [("display_precision", .int s.precision), ("prompt", .text s.prompt), ("log_level", .text spelling)]

theorem agrees_spelled {spelling : String} (h : Text.upper? spelling = some s.level.name) :
    Agrees (s.spelled spelling) s :=
  ⟨Or.inr ⟨_, rfl, rfl⟩, Or.inr rfl, Or.inr ⟨spelling, rfl, h⟩⟩

/-- Valid settings are read again as they were. -/
theorem ofFields_spelled {spelling : String} (hs : s.Valid) (h : Text.upper? spelling = some s.level.name) :
    ofFields (s.spelled spelling) = .ok s :=
  ofFields_eq_ok_iff.2 ⟨hs, agrees_spelled h⟩

end Settings

namespace CommandLine

variable {args : List String} {c : CommandLine}

/-- A command line that is read has a count of decimals within its bounds. -/
theorem precision_le_of_parse (h : parse args = .ok c) : c.precision ≤ 15 := by
  unfold parse at h
  dsimp only at h
  split at h
  · cases h
  · obtain ⟨r, -, h⟩ := bind_eq_ok h
    split at h
    · rename_i precision logLevel _ _
      split at h
      · cases h
      · rename_i hkept
        have hfifteen : (Settings.mostPrecision : Int) = 15 := rfl
        simp only [Bool.or_eq_true, decide_eq_true_eq, not_or] at hkept
        cases h
        show precision.toNat ≤ 15
        omega
    · cases h

/-- Of a command line that is read nothing but the level can be refused. -/
theorem settings_of_parse (h : parse args = .ok c) :
    (∃ l : Level, Text.upper? c.logLevel = some l.name ∧ c.settings = .ok ⟨c.precision, ">> ", l⟩) ∨
    ((¬ ∃ l : Level, Text.upper? c.logLevel = some l.name) ∧ c.settings = .error [⟨"log_level", .valueError⟩]) := by
  let fs : Fields := [("display_precision", .int c.precision), ("log_level", .text c.logLevel)]
  have hprecision : Settings.precisionOf fs = .ok c.precision :=
    Settings.precisionOf_eq_ok_iff.2 ⟨Or.inr ⟨_, rfl, rfl⟩, precision_le_of_parse h⟩
  have hprompt : Settings.promptOf fs = .ok ">> " := Settings.promptOf_eq_ok_iff.2 (Or.inl ⟨rfl, rfl⟩)
  by_cases hl : ∃ l : Level, Text.upper? c.logLevel = some l.name
  · obtain ⟨l, hl⟩ := hl
    have hlevel : Settings.levelOf fs = .ok l := Settings.levelOf_eq_ok_iff.2 (Or.inr ⟨_, rfl, hl⟩)
    exact Or.inl ⟨l, hl, Settings.ofFields_eq_ok_iff_read.2 ⟨hprecision, hprompt, hlevel⟩⟩
  · have hlevel : Settings.levelOf fs = .error .valueError := Settings.readLevel_of_unknown hl
    rcases Settings.ofFields_cases fs with ⟨s, -, -, -, hok⟩ | ⟨herror, -⟩
    · rw [hlevel] at hok
      cases hok
    · rw [hprecision, hprompt, hlevel] at herror
      exact Or.inr ⟨hl, herror⟩

end CommandLine

namespace Settings

/-- **Checking settings.** Fields give settings exactly if these are valid and agree with the fields, and then the
settings written as fields give themselves again, with any spelling of the level whose upper case is its name. Fields
are refused exactly if one of them is refused alone, and their faults are those of the fields alone, in the order of
declaration; each is the only fault of the field that it names, and a field that settings do not have is passed over.
Of a command line that is read, settings are made with its count of decimals unless its level is unknown, and that is
then the one fault. -/
theorem ofFields_fieldwise (fs : Fields) :
    (∀ s, ofFields fs = .ok s ↔ s.Valid ∧ Agrees fs s) ∧
    (∀ s, ofFields fs = .ok s → ofFields s.toFields = .ok s ∧
      ∀ spelling, Text.upper? spelling = some s.level.name → ofFields (s.spelled spelling) = .ok s) ∧
    (Refused fs ↔ ∃ field v, fs.lookup field = some v ∧ Refused [(field, v)]) ∧
    faults fs = fieldNames.flatMap (fun field => faults (fs.only field)) ∧
    (∀ fault ∈ faults fs, faults (fs.only fault.field) = [fault]) ∧
    (∀ field v, field ∉ fieldNames → ofFields [(field, v)] = .ok standard) ∧
    ∀ args c, CommandLine.parse args = .ok c →
      (∃ l : Level, Text.upper? c.logLevel = some l.name ∧ c.settings = .ok ⟨c.precision, ">> ", l⟩) ∨
      ((¬ ∃ l : Level, Text.upper? c.logLevel = some l.name) ∧ c.settings = .error [⟨"log_level", .valueError⟩]) := by
  refine ⟨fun s => ofFields_eq_ok_iff, fun s h => ?_, refused_iff fs, faults_eq_flatMap fs,
    fun fault h => faults_only_of_mem h, fun field v h => ofFields_of_unknown h v,
    fun args c h => CommandLine.settings_of_parse h⟩
  have hvalid := (ofFields_eq_ok_iff.1 h).1
  exact ⟨ofFields_spelled hvalid hvalid.capital, fun spelling hupper => ofFields_spelled hvalid hupper⟩

/-- A level with a long s, a count of decimals between blanks and zeros, and a field that settings do not have; and a
level whose upper case is in ASCII but is no name. -/
theorem ofFields_fieldwise_longS :
    let fs : Fields := [("log_level", .text "notſet"), ("colour", .null), ("display_precision", .text " +07 ")]
    let s : Settings := ⟨7, ">> ", .notset⟩
    let args := ["1/3", "--prec=3", "--log", "Maße"]
    let c : CommandLine := ⟨some "1/3", 3, "Maße"⟩
    ofFields fs = .ok s ∧ s.Valid ∧ ofFields s.toFields = .ok s ∧
    Text.upper? "NotſeT" = some s.level.name ∧ ofFields (s.spelled "NotſeT") = .ok s ∧
    CommandLine.parse args = .ok c ∧ Text.upper? "Maße" = some "MASSE" ∧
    c.settings = .error [⟨"log_level", .valueError⟩] := by
  intro fs s args c
  have hupper : Text.upper? "NotſeT" = some s.level.name := by decide +kernel
  have hwhole : (FieldValue.text " +07 ").asWhole = .ok (s.precision : Int) := by rfl
  have hlevel : Text.upper? "notſet" = some s.level.name := by decide +kernel
  have hagrees : Agrees fs s := ⟨Or.inr ⟨_, rfl, hwhole⟩, Or.inl ⟨rfl, rfl⟩, Or.inr ⟨_, rfl, hlevel⟩⟩
  have hvalid : s.Valid := valid_iff.2 (by decide)
  have hok : ofFields fs = .ok s := ((ofFields_fieldwise fs).1 s).2 ⟨hvalid, hagrees⟩
  obtain ⟨hagain, hspelled⟩ := (ofFields_fieldwise fs).2.1 s hok
  have hparse : CommandLine.parse args = .ok c := by rfl
  have hmasse : Text.upper? "Maße" = some "MASSE" := by decide +kernel
  have hunknown : ∀ l : Level, Text.upper? "Maße" ≠ some l.name := by
    intro l
    cases l <;> decide +kernel
  obtain ⟨l, hl, -⟩ | ⟨-, herror⟩ := (ofFields_fieldwise fs).2.2.2.2.2.2 args c hparse
  · exact absurd hl (hunknown l)
  · exact ⟨hok, hvalid, hagain, hupper, hspelled _ hupper, hparse, hmasse, herror⟩

end Settings
end Reckoner
