import Reckoner.Proofs.Console.Line
import Reckoner.Proofs.Session

/-!
# A conversation is a session

The console adds nothing to the session that it speaks for. Each line is answered from the session that
the expressions before it have left (`converse_append`), and from the line that ends the conversation on
nothing is heard any more.
-/

namespace Reckoner.Console

/-! ## One line -/

/-- What is printed for a line: the help text, or what the report on its expression holds. -/
def response (s : Session) (line : List Char) : String :=
  if asksHelp line then help
  else
    let r := (s.calculate (expressionOf line)).answer.report (expressionOf line)
    match r.error, r.display with
    | some e, _ => "ERROR: " ++ e ++ "\n"
    | none, some display => display ++ "\n"
    | none, none => ""

/-- The session after lines: the expressions on them have been calculated in order. -/
def after (s : Session) (lines : List (List Char)) : Session :=
  (lines.filter (!asksHelp ·)).foldl (fun s line => (s.calculate (expressionOf line)).session) s

theorem render_eq (text : String) (a : Answer) :
    render a = match (a.report text).error, (a.report text).display with
      | some e, _ => "ERROR: " ++ e ++ "\n"
      | none, some display => display ++ "\n"
      | none, none => "" := by
  cases a <;> rfl

theorem response_of_expression {line : List Char} (h : asksHelp line = false) (s : Session) :
    response s line = render (s.calculate (expressionOf line)).answer := by
  simp only [response, h, render_eq (expressionOf line), Bool.false_eq_true, if_false]

theorem respond_of_stops {line : List Char} (h : stops line = true) (s : Session) : respond s line = none := by
  simp only [respond, ofLine_eq, h, if_true]

theorem respond_of_not_stops {line : List Char} (h : stops line = false) (s : Session) :
    ∃ events, respond s line = some (response s line, after s [line], events) := by
  simp only [respond, ofLine_eq, h, Bool.false_eq_true, if_false]
  cases hhelp : asksHelp line with
  | true => exact ⟨[], by simp [response, after, hhelp]⟩
  | false =>
    rw [response_of_expression hhelp]
    exact ⟨(s.calculate (expressionOf line)).events, by simp [after, hhelp]⟩

theorem after_cons (s : Session) (line : List Char) (lines : List (List Char)) :
    after s (line :: lines) = after (after s [line]) lines := by
  cases h : asksHelp line <;> simp [after, h]

theorem settings_after (s : Session) (lines : List (List Char)) : (after s lines).settings = s.settings := by
  induction lines generalizing s with
  | nil => rfl
  | cons line lines ih =>
    rw [after_cons, ih]
    cases h : asksHelp line <;> simp [after, h, Session.session_calculate]

/-! ## Many lines -/

/-- What is printed for lines, each with the prompt before it and answered from the session that the lines
before it have left. -/
def transcript (s : Session) (lines : List (List Char)) : String :=
  .join (lines.mapIdx fun i line => s.settings.prompt ++ response (after s (lines.take i)) line)

theorem transcript_cons (s : Session) (line : List Char) (lines : List (List Char)) :
    transcript s (line :: lines) = s.settings.prompt ++ response s line ++ transcript (after s [line]) lines := by
  simp only [transcript, List.mapIdx_cons, List.take_zero, List.take_succ_cons, String.join_cons, settings_after,
    ← after_cons]
  rfl

theorem converse_append {before : List (List Char)} (h : ∀ line ∈ before, stops line = false) (s : Session)
    (rest : List (List Char)) :
    converse s (before ++ rest) =
      (transcript s before ++ (converse (after s before) rest).1, (converse (after s before) rest).2) := by
  induction before generalizing s with
  | nil => simp [transcript, after]
  | cons line before ih =>
    obtain ⟨events, hline⟩ := respond_of_not_stops (h line (by simp)) s
    have hrest := ih (fun l hl => h l (by simp [hl])) (after s [line])
    simp only [List.cons_append, converse, hline, hrest, transcript_cons, ← after_cons, String.append_assoc]

/-! ## Up to the stop -/

/-- An input parted where the conversation ends: lines that do not end it, and then nothing more or the
line that does, with whatever follows. -/
structure Parted (input : String) (before rest : List (List Char)) : Prop where
  lines : Lines input.toList (before ++ rest)
  goesOn : ∀ line ∈ before, stops line = false
  stop : ∀ line, rest.head? = some line → stops line = true

theorem exists_parted (input : String) : ∃ before rest, Parted input before rest := by
  refine ⟨(linesOf input.toList).takeWhile (!stops ·), (linesOf input.toList).dropWhile (!stops ·), ?_, ?_, ?_⟩
  · rw [List.takeWhile_append_dropWhile, lines_iff]
  · intro line hline
    simpa using List.all_eq_true.1 List.all_takeWhile line hline
  · intro line hline
    have hstop := List.head?_dropWhile_not (!stops ·) (linesOf input.toList)
    rw [hline] at hstop
    simpa using hstop

/-- From the line that ends the conversation on nothing is heard. -/
theorem converse_of_stop {rest : List (List Char)} (h : ∀ line, rest.head? = some line → stops line = true)
    (s : Session) : converse s rest = (s.settings.prompt ++ if rest = [] then "\n" else "", s) := by
  cases rest with
  | nil => rfl
  | cons line rest =>
    rw [converse, respond_of_stops (h line rfl)]
    simp

theorem run_of_parted {input : String} {before rest : List (List Char)} (h : Parted input before rest) (s : Session) :
    run s input =
      (help ++ transcript s before ++ s.settings.prompt ++ (if rest = [] then "\n" else ""), after s before) := by
  rw [run, ← lines_iff.1 h.lines, converse_append h.goesOn, converse_of_stop h.stop, settings_after]
  simp only [String.append_assoc]

/-- **A conversation is a session.** Every input has a part before the end of the conversation. What is
printed is the help text, then for each line of that part the prompt and the response from the session that
the expressions before have left, then the prompt, and a line break exactly if the input has run out. The
session at the end is the one that the expressions have left. Nothing after the line that ends the
conversation makes a difference. -/
theorem run_eq_transcript (s : Session) (input : String) :
    (∃ before rest, Parted input before rest) ∧
    ∀ before rest, Parted input before rest →
      run s input =
        (help ++
          .join (before.mapIdx fun i line => s.settings.prompt ++ response (after s (before.take i)) line) ++
          s.settings.prompt ++ (if rest = [] then "\n" else ""), after s before) ∧
      ∀ other rest', Parted other before rest' → (rest' = [] ↔ rest = []) → run s other = run s input := by
  refine ⟨exists_parted input, fun before rest h => ⟨run_of_parted h s, fun other rest' h' hend => ?_⟩⟩
  rw [run_of_parted h, run_of_parted h']
  simp only [hend]

end Reckoner.Console
