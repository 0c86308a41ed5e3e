import Reckoner.Proofs.CommandLine
import Reckoner.Proofs.Failure
import Reckoner.Proofs.Machine.Frame
import Reckoner.Proofs.OneLine.Text

/-!
# Answers on one line

The wording of an error repeats a piece of the normal text or a name (`ExprError.echo`), and everything else in
it is fixed, quoted or the text of a number. A name that cannot be read is one of the postfix list
(`mem_of_unbound`), so that no answer breaks its line, whatever has been entered.
-/

namespace Reckoner

open Text (OneLine IsLine oneLine_append oneLine_cons oneLine_nil oneLine_concat)

variable {text : String} {ps : List Token} {b : Bindings} {e : ExprError}

/-! ## Wordings -/

theorem ParenFault.isLine_message (fault : ParenFault) : IsLine fault.message := by
  cases fault <;> exact ⟨by decide +kernel, by decide⟩

theorem Operator.oneLine_symbol (op : Operator) : OneLine op.symbol.toList := by
  rcases op with op | f
  · cases op <;> decide
  · cases f <;> decide

theorem Quantity.oneLine_name (quantity : Quantity) : OneLine quantity.name.toList := by
  cases quantity <;> decide

/-- The characters of an expression that the wording of an error repeats as they are. -/
def ExprError.echo : ExprError → List Char
  | unrecognizedCharacter c => [c]
  | unrecognizedFunction name | unbound name => name.toList
  | strayToken t => t.text.toList
  | _ => []

/-- The wording of an error is one line if what it repeats is. -/
theorem ExprError.isLine_message (h : OneLine e.echo) : IsLine e.message := by
  cases e with
  | parentheses fault => exact fault.isLine_message
  | unrecognizedCharacter c =>
    exact IsLine.concat ⟨by decide +kernel, by decide⟩ (by rwa [String.toList_singleton])
  | unrecognizedFunction name => exact IsLine.concat ⟨by decide +kernel, by decide⟩ h
  | malformedNumber literal => exact IsLine.concat ⟨by decide +kernel, by decide⟩ (Text.oneLine_quoted literal)
  | arity op found =>
    have hbegins : IsLine "The number of operands expected for " := ⟨by decide +kernel, by decide⟩
    exact (((hbegins.concat op.oneLine_symbol).concat (by decide)).concat (oneLine_natText _)).concat (by decide)
      |>.concat (oneLine_intText found)
  | unbound name =>
    have hbegins : IsLine "Variable " := ⟨by decide, by decide⟩
    exact (hbegins.concat h).concat (by decide)
  | undefinedResult quantity x =>
    have hbegins : IsLine "Cannot calculate " := ⟨by decide, by decide⟩
    exact (((hbegins.concat quantity.oneLine_name).concat (by decide)).concat (Decimal.oneLine_general x)).concat
      (by decide)
  | overflow quantity x =>
    have hbegins : IsLine "Cannot calculate " := ⟨by decide, by decide⟩
    exact (((hbegins.concat quantity.oneLine_name).concat (by decide)).concat (Decimal.oneLine_general x)).concat
      (by decide)
  | strayToken t => exact IsLine.concat ⟨by decide +kernel, by decide⟩ h
  | _ => exact ⟨by decide +kernel, by decide⟩

/-! ## Names that cannot be read -/

theorem BinaryOp.calculate_ne_unbound (op : BinaryOp) (x y : Binary64) (name : String) :
    op.calculate x y ≠ .error (.unbound name) := by
  cases op with
  | pow =>
    show x.power y ≠ _
    unfold Binary64.power
    repeat' split
    all_goals simp
  | _ => exact nofun

theorem Fn.calculate_ne_unbound (f : Fn) (x : Binary64) (name : String) : f.calculate x ≠ .error (.unbound name) := by
  have hcircular : ∀ quantity g, Binary64.circular quantity g x ≠ .error (.unbound name) := by
    intro quantity g
    cases x <;> exact nofun
  cases f with
  | abs => exact nofun
  | sin => exact hcircular _ _
  | cos => exact hcircular _ _
  | tan => exact hcircular _ _
  | sqrt | exp | log =>
    simp only [calculate, Binary64.squareRoot, Binary64.exponential, Binary64.logarithm]
    split <;> exact nofun

theorem Operand.eq_of_unbound {x : Operand} {name : String} (h : x.value b = .error (.unbound name)) :
    x = .var name := by
  cases x with
  | real v => cases h
  | var other =>
    simp only [value] at h
    split at h <;> cases h
    rfl

/-- A name that an application cannot read is one of its operands. -/
theorem Application.mem_operands_of_unbound {a : Application} {name : String}
    (h : a.number b = .error (.unbound name)) : .var name ∈ a.operands := by
  unfold number at h
  split at h
  · cases h
  · simp [operands, Operand.eq_of_unbound h]
  · rcases bind_eq_error h with hx | ⟨v, -, h⟩
    · simp [operands, Operand.eq_of_unbound hx]
    rcases bind_eq_error h with hy | ⟨w, -, h⟩
    · simp [operands, Operand.eq_of_unbound hy]
    · exact absurd h (BinaryOp.calculate_ne_unbound _ v w name)
  · rcases bind_eq_error h with hx | ⟨v, -, h⟩
    · simp [operands, Operand.eq_of_unbound hx]
    · exact absurd h (Fn.calculate_ne_unbound _ v name)

namespace Machine

/-- A name that a token cannot read is on the stack. -/
theorem mem_stack_of_unbound {m : Machine} {t : Token} {h : Halt} {name : String} (hs : m.step t = .error h)
    (he : h.error = .unbound name) : .var name ∈ m.stack := by
  have hm := m.step_move t
  rw [hs] at hm
  generalize hr : (Except.error h : Except Halt Machine) = r at hm
  cases hm with
  | push x => cases hr
  | @apply a s taken =>
    rw [apply_eq] at hr
    cases hn : a.number m.bindings with
    | ok v =>
      rw [hn] at hr
      cases hr
    | error e =>
      rw [hn] at hr
      cases hr
      obtain rfl : e = .unbound name := he
      simp [taken, Application.mem_operands_of_unbound hn]
  | short few =>
    cases hr
    cases he
  | stray other =>
    cases hr
    cases he

/-- The names on the stack are tokens that have been worked off. -/
theorem holds_of_steps {m : Machine} {ts : List Token} (h : (start b).steps ts = .ok m) : Holds (.var · ∈ ts) m := by
  have hlast : Confined (.var · ∈ ts) b (last ((start b).steps ts)) :=
    last_steps (fun _ ht _ h => confined_step h fun _ e => e ▸ ht) ⟨.refl _ b, fun _ hname => by cases hname⟩
  rw [h] at hlast
  exact hlast.holds

end Machine

/-- A name that a run cannot read is one of its tokens. -/
theorem mem_of_unbound {name : String} (h : (evaluatePostfix ps b).result = .error (.unbound name)) :
    .var name ∈ ps := by
  rcases error_of_evaluatePostfix h with ⟨k, m, halt, hk, he⟩ | ⟨he, -⟩
  · obtain ⟨t, -, hfails⟩ := hk.fails
    exact List.mem_of_mem_take (Machine.holds_of_steps hk.before name (Machine.mem_stack_of_unbound hfails he))
  · cases he

/-! ## Characters of the expression -/

/-- Normal text is one line: its only blanks are spaces. -/
theorem NormalText.Tidy.oneLine {before : Option Char} {cs : List Char} (h : Tidy before cs) : OneLine cs := by
  induction h with
  | nil => exact oneLine_nil
  | minus starts h ih => simpa only [oneLine_cons] using ⟨by decide, by decide, by decide, ih⟩
  | plus ended h ih => exact oneLine_cons.2 ⟨by decide, ih⟩
  | space left right h ih =>
    have hjoins := Text.isLineBreak_of_visible (not_isBlank_of_joins right)
    exact oneLine_cons.2 ⟨by decide, oneLine_cons.2 ⟨hjoins, ih⟩⟩
  | char minus plus visible h ih => exact oneLine_cons.2 ⟨Text.isLineBreak_of_visible visible, ih⟩

/-- A fault repeats a piece of the text. -/
theorem Piece.Fault.oneLine_echo {known : List Fn} {cs : List Char} (hcs : OneLine cs) (h : Fault known cs e) :
    OneLine e.echo := by
  have hpiece : ∀ p ∈ cut cs, OneLine p.chars := by
    intro p hp
    refine hcs.subset fun c hc => ?_
    rw [← chars_cut cs]
    exact List.mem_flatMap.2 ⟨p, hp, hc⟩
  cases h with
  | stray found => exact hpiece _ found
  | function found unknown =>
    have hword := hpiece _ (found.subset (List.mem_cons_self ..))
    simpa only [ExprError.echo, String.toList_ofList, chars] using hword
  | _ => exact oneLine_nil

theorem Formula.Name.oneLine_text (n : Formula.Name) : OneLine n.text.toList := by
  rw [Name.text, String.toList_ofList]
  exact fun c hc => Text.isLineBreak_of_visible (not_isBlank_of_isWordChar (Name.isWordChar_of_mem hc))

theorem oneLine_echo_unbound {name : String} (hps : postfixOf text = .ok ps) (hmem : .var name ∈ ps) :
    OneLine (ExprError.unbound name).echo := by
  obtain ⟨n, rfl⟩ := exists_name_of_mem hps hmem
  exact n.oneLine_text

/-- No evaluation fails with an error that repeats a line break. -/
theorem oneLine_echo_of_evaluate (he : (evaluate text b).result = .error e) : OneLine e.echo := by
  cases hps : postfixOf text with
  | error e' =>
    rw [(evaluate_of_postfixOf_error hps b).1] at he
    cases he
    rcases postfixOf_eq_error hps with hts | ⟨ts, hts, hreordered⟩
    · exact (fault_of_tokenizeWith hts).oneLine_echo (NormalText.tidy_ofChars _).oneLine
    · rw [error_of_toPostfix hts hreordered]
      exact oneLine_nil
  | ok ps =>
    rw [(evaluate_of_postfixOf hps b).1] at he
    obtain ⟨ts, -, hreordered⟩ := postfixOf_eq_ok hps
    have hcalculates := calculates_evaluatePostfix (isKept_of_toPostfix hreordered) b
    rw [he] at hcalculates
    cases e with
    | unbound name => exact oneLine_echo_unbound hps (mem_of_unbound he)
    | unrecognizedCharacter c => cases hcalculates
    | unrecognizedFunction name => cases hcalculates
    | strayToken t => cases hcalculates
    | _ => exact oneLine_nil

/-! ## Answers -/

namespace Session

theorem oneLine_display {s : Session} {display : String} {v : Binary64}
    (h : (s.calculate text).answer = .value v display) : OneLine display.toList := by
  rcases display_cases h with rfl | ⟨n, rfl⟩
  · exact Decimal.oneLine_fixed _ _
  · exact oneLine_concat (oneLine_concat n.oneLine_text (by decide)) (Decimal.oneLine_fixed _ _)

theorem isLine_message {s : Session} (h : (s.calculate text).answer = .failure e) : IsLine e.message := by
  refine ExprError.isLine_message ?_
  rcases failure_cases h with he | ⟨name, hps, rfl⟩
  · exact oneLine_echo_of_evaluate he
  · exact oneLine_echo_unbound hps (List.mem_singleton.2 rfl)

end Session

/-- Is the reply empty, or one line with a line break behind it? -/
def Console.IsReply (reply : String) : Prop := reply = "" ∨ ∃ line, OneLine line.toList ∧ reply = line ++ "\n"

theorem Console.isReply_render (s : Session) (text : String) : IsReply (render (s.calculate text).answer) := by
  cases h : (s.calculate text).answer with
  | blank => exact Or.inl rfl
  | value v display => exact Or.inr ⟨display, Session.oneLine_display h, rfl⟩
  | failure e =>
    have hmessage := (Session.isLine_message h).oneLine
    exact Or.inr ⟨"ERROR: " ++ e.message, oneLine_concat (by decide) hmessage, rfl⟩

theorem CommandLine.isReply_respond {c : CommandLine} (h : c.expression.isSome = true) (input : String) :
    Console.IsReply (c.respond input).output := by
  obtain ⟨text, ht⟩ := Option.isSome_iff_exists.1 h
  cases hs : c.settings with
  | error faults => exact Or.inl (by simp only [respond, hs])
  | ok settings =>
    rw [respond_of_expression hs ht]
    exact Console.isReply_render _ text

/-- **Answers are one line.** In the report on an expression neither the display nor the error text holds a
character that ends a line, and the error text is not empty, whatever the expression and the session are. What
the console prints for a line with an expression, and what the program prints for an expression among its
arguments, is therefore nothing or one line with a line break behind it. -/
theorem Session.report_oneLine (s : Session) :
    (∀ text display, ((s.calculate text).answer.report text).display = some display → OneLine display.toList) ∧
    (∀ text error, ((s.calculate text).answer.report text).error = some error → OneLine error.toList ∧ error ≠ "") ∧
    (∀ line text, Command.ofLine line = .calculate text → ∃ reply,
      Console.respond s line = some (reply, (s.calculate text).session, (s.calculate text).events) ∧
      Console.IsReply reply) ∧
    ∀ args c input, CommandLine.parse args = .ok c → c.expression.isSome = true →
      Console.IsReply (CommandLine.run args input).output := by
  refine ⟨fun text display h => ?_, fun text error h => ?_, fun line text h => ?_, fun args c input hparse hsome => ?_⟩
  · cases ha : (s.calculate text).answer <;> rw [ha] at h <;> cases h
    exact oneLine_display ha
  · cases ha : (s.calculate text).answer <;> rw [ha] at h <;> cases h
    have hline := isLine_message ha
    exact ⟨hline.oneLine, hline.ne_empty⟩
  · refine ⟨_, ?_, Console.isReply_render s text⟩
    simp only [Console.respond, h]
  · rw [CommandLine.run_of_parse hparse]
    exact CommandLine.isReply_respond hsome input

end Reckoner
