import Reckoner.CommandLine.Basic
import Reckoner.Proofs.Console.Conversation
import Reckoner.Proofs.Display

/-!
# The command line and the console

The command line prints for an expression what the console prints between two prompts. The console drops
the blanks around the expression first, which changes no answer (`Session.answer_strip`), and the exit code
can be read off the text because no value is shown as an error is (`isError_render_iff`).
-/

namespace Reckoner

namespace Console

/-! ## A conversation of one line -/

theorem strip_concat (line : List Char) : Text.strip (line ++ ['\n']) = Text.strip line :=
  Text.trim_concat (by decide) line

theorem stops_concat (line : List Char) : stops (line ++ ['\n']) = stops line := by
  rw [stops, strip_concat, stops]

theorem response_concat (s : Session) (line : List Char) : response s (line ++ ['\n']) = response s line := by
  have hhelp : asksHelp (line ++ ['\n']) = asksHelp line := by rw [asksHelp, strip_concat, asksHelp]
  have hexpression : expressionOf (line ++ ['\n']) = expressionOf line := by
    rw [expressionOf, strip_concat, expressionOf]
  rw [response, hhelp, hexpression, response]

/-- One line is answered, and the input has run out. -/
theorem run_of_line {line : String} (hbreak : '\n' ∉ line.toList) (hstop : stops line.toList = false) (s : Session) :
    (run s (line ++ "\n")).1 =
      help ++ s.settings.prompt ++ response s line.toList ++ s.settings.prompt ++ "\n" := by
  have hlines : Lines (line ++ "\n").toList ([line.toList ++ ['\n']] ++ []) := by
    rw [String.toList_append]
    exact lines_nil.cons hbreak
  have hparted : Parted (line ++ "\n") [line.toList ++ ['\n']] [] :=
    ⟨hlines, by simpa [stops_concat] using hstop, by simp⟩
  rw [run_of_parted hparted, transcript_cons, response_concat]
  simp [transcript, String.append_assoc]

/-- A line that asks for no help is answered as the session answers it. -/
theorem response_eq_render {line : String} (hhelp : asksHelp line.toList = false) (s : Session) :
    response s line.toList = render (s.calculate line).answer :=
  calc response s line.toList
    _ = render (s.calculate (expressionOf line.toList)).answer := response_of_expression hhelp s
    _ = render (s.calculate line).answer := congrArg render (s.answer_strip line)

end Console

namespace CommandLine

open Console

/-! ## Exit codes -/

/-- Does a text begin as errors are printed? -/
def IsError (text : String) : Prop := "ERROR: ".toList <+: text.toList

instance (text : String) : Decidable (IsError text) := by
  unfold IsError
  infer_instance

/-- Of all answers only a failure is printed as errors are. -/
theorem isError_render_iff (s : Session) (text : String) :
    IsError (render (s.calculate text).answer) ↔ ∃ e, (s.calculate text).answer = .failure e := by
  cases ha : (s.calculate text).answer with
  | blank => exact iff_of_false (by simp [IsError, render]) (by simp)
  | failure e =>
    refine iff_of_true ⟨(e.message ++ "\n").toList, ?_⟩ ⟨e, rfl⟩
    rw [render, String.append_assoc, ← String.toList_append]
  | value v display =>
    refine iff_of_false (fun h => ?_) (by simp)
    have hcolon : ':' ∈ (display ++ "\n").toList := h.subset (by simp)
    rw [String.toList_append, List.mem_append] at hcolon
    exact hcolon.elim (Session.colon_not_mem_display ha) (by decide)

/-- An expression is answered once, with an exit code that tells a failure. -/
theorem respond_of_expression {c : CommandLine} {settings : Settings} {text : String} (hs : c.settings = .ok settings)
    (ht : c.expression = some text) (input : String) :
    let output := render ((Session.fresh settings).calculate text).answer
    c.respond input = ⟨if IsError output then 1 else 0, output⟩ := by
  have herror := isError_render_iff (.fresh settings) text
  simp only [respond, hs, ht]
  cases ha : ((Session.fresh settings).calculate text).answer with
  | failure e =>
    rw [ha] at herror
    rw [if_pos (herror.2 ⟨e, rfl⟩)]
  | blank =>
    rw [ha] at herror
    rw [if_neg (by simp [herror])]
  | value v display =>
    rw [ha] at herror
    rw [if_neg (by simp [herror])]

theorem run_of_parse {args : List String} {c : CommandLine} (h : parse args = .ok c) (input : String) :
    run args input = c.respond input := by
  simp only [run, h]

/-- **The command line agrees with the console.** For arguments that give an expression and valid settings,
the program prints what the console with these settings prints between its first and its second prompt for
the expression on a line, and the exit code is one exactly if that begins as errors are printed. The
expression must be one line that neither ends a conversation nor asks for help. Without an expression the
program is the console. -/
theorem run_agrees {args : List String} {c : CommandLine} {settings : Settings} (hparse : parse args = .ok c)
    (hsettings : c.settings = .ok settings) (input : String) :
    (∀ text, c.expression = some text → '\n' ∉ text.toList → stops text.toList = false → asksHelp text.toList = false →
      ∃ output,
        (Console.run (.fresh settings) (text ++ "\n")).1 =
          help ++ settings.prompt ++ output ++ settings.prompt ++ "\n" ∧
        run args input = ⟨if IsError output then 1 else 0, output⟩) ∧
    (c.expression = none → run args input = ⟨0, (Console.run (.fresh settings) input).1⟩) := by
  rw [run_of_parse hparse]
  refine ⟨fun text htext hbreak hstop hhelp => ⟨_, ?_, respond_of_expression hsettings htext input⟩, fun hnone => ?_⟩
  · rw [run_of_line hbreak hstop, response_eq_render hhelp]
    rfl
  · simp only [respond, hsettings, hnone]

/-- A quotient between blanks, with three decimals. -/
theorem run_agrees_quotient :
    let args := ["--precision=3", " 2/3 "]
    let c : CommandLine := ⟨some " 2/3 ", 3, "WARNING"⟩
    let settings : Settings := ⟨3, ">> ", .warning⟩
    parse args = .ok c ∧ c.settings = .ok settings ∧ '\n' ∉ " 2/3 ".toList ∧ stops " 2/3 ".toList = false ∧
    asksHelp " 2/3 ".toList = false ∧
    ∃ output,
      (Console.run (.fresh settings) (" 2/3 " ++ "\n")).1 =
        help ++ settings.prompt ++ output ++ settings.prompt ++ "\n" ∧
      run args "" = ⟨if IsError output then 1 else 0, output⟩ := by
  intro args c settings
  have hparse : parse args = .ok c := by rfl
  have hsettings : c.settings = .ok settings := by
    have hsome : c.settings.toOption = some settings := by decide +kernel
    cases hread : c.settings with
    | error faults => rw [hread] at hsome; cases hsome
    | ok read => rw [hread] at hsome; exact congrArg _ (Option.some.inj hsome)
  have hbreak : '\n' ∉ " 2/3 ".toList := by decide +kernel
  have hstop : stops " 2/3 ".toList = false := by decide +kernel
  have hhelp : asksHelp " 2/3 ".toList = false := by decide +kernel
  exact ⟨hparse, hsettings, hbreak, hstop, hhelp, (run_agrees hparse hsettings "").1 _ rfl hbreak hstop hhelp⟩

end CommandLine
end Reckoner
