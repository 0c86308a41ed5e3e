import Reckoner.Console

/-!
# Lines and words of command

`Lines` says what the lines of a text are without saying how they are found; there is one way to part a
text into them, and it is the way the console reads (`lines_iff`). What a line asks for is said by
`stops` and `asksHelp`, the words of command in any case.
-/

namespace Reckoner.Console

/-! ## Lines -/

/-- Is the line ended, by the only line break in it? -/
def Ended (line : List Char) : Prop := ∃ body, '\n' ∉ body ∧ line = body ++ ['\n']

/-- Are these the lines of the text? The last one may lack its line break, but then it is not empty. -/
structure Lines (cs : List Char) (lines : List (List Char)) : Prop where
  flatten : lines.flatten = cs
  ended : ∀ before line after, lines = before ++ line :: after →
    Ended line ∨ after = [] ∧ line ≠ [] ∧ '\n' ∉ line

theorem linesOf_of_not_mem {cs : List Char} (h : '\n' ∉ cs) (hne : cs ≠ []) : linesOf cs = [cs] := by
  induction cs with
  | nil => exact absurd rfl hne
  | cons c cs ih =>
    obtain ⟨hc, hcs⟩ : c ≠ '\n' ∧ '\n' ∉ cs := by simpa [eq_comm] using h
    rw [linesOf, if_neg hc]
    cases cs with
    | nil => rfl
    | cons d ds => rw [ih hcs (by simp)]

theorem linesOf_append {body : List Char} (h : '\n' ∉ body) (cs : List Char) :
    linesOf (body ++ '\n' :: cs) = (body ++ ['\n']) :: linesOf cs := by
  induction body with
  | nil => rfl
  | cons c body ih =>
    obtain ⟨hc, hbody⟩ : c ≠ '\n' ∧ '\n' ∉ body := by simpa [eq_comm] using h
    rw [List.cons_append, linesOf, if_neg hc, ih hbody]
    rfl

theorem Lines.tail {line : List Char} {lines : List (List Char)} {cs : List Char} (h : Lines cs (line :: lines)) :
    Lines lines.flatten lines :=
  ⟨rfl, fun before l after e => h.ended (line :: before) l after (by rw [e]; rfl)⟩

theorem Lines.eq_linesOf {cs : List Char} {lines : List (List Char)} (h : Lines cs lines) : lines = linesOf cs := by
  induction lines generalizing cs with
  | nil => rw [← h.flatten]; rfl
  | cons line lines ih =>
    rw [← h.flatten, List.flatten_cons]
    rcases h.ended [] line lines rfl with ⟨body, hbody, rfl⟩ | ⟨rfl, hne, hline⟩
    · rw [List.append_assoc, List.singleton_append, linesOf_append hbody, ← ih h.tail]
    · rw [List.flatten_nil, List.append_nil, linesOf_of_not_mem hline hne]

theorem lines_nil : Lines [] [] := ⟨rfl, by simp⟩

theorem lines_of_not_mem {cs : List Char} (h : '\n' ∉ cs) (hne : cs ≠ []) : Lines cs [cs] := by
  refine ⟨by simp, fun before line after e => ?_⟩
  obtain ⟨rfl, rfl, rfl⟩ : before = [] ∧ line = cs ∧ after = [] := by
    cases before <;> simp_all
  exact Or.inr ⟨rfl, hne, h⟩

theorem Lines.cons {body cs : List Char} {lines : List (List Char)} (hbody : '\n' ∉ body) (h : Lines cs lines) :
    Lines (body ++ '\n' :: cs) ((body ++ ['\n']) :: lines) := by
  refine ⟨by simp [h.flatten], fun before line after e => ?_⟩
  cases before with
  | nil =>
    obtain ⟨rfl, rfl⟩ := List.cons.inj e
    exact Or.inl ⟨body, hbody, rfl⟩
  | cons first before =>
    exact h.ended before line after (List.cons.inj e).2

/-- The console reads the lines of its input. -/
theorem lines_iff {cs : List Char} {lines : List (List Char)} : Lines cs lines ↔ lines = linesOf cs := by
  refine ⟨Lines.eq_linesOf, ?_⟩
  rintro rfl
  induction hn : cs.length using Nat.strongRecOn generalizing cs with
  | ind n ih =>
  by_cases hmem : '\n' ∈ cs
  · obtain ⟨body, rest, rfl, hbody⟩ := List.eq_append_cons_of_mem hmem
    rw [linesOf_append hbody]
    exact (ih rest.length (by rw [← hn]; simp only [List.length_append, List.length_cons]; omega) rfl).cons hbody
  by_cases hne : cs = []
  · rw [hne]
    exact lines_nil
  · rw [linesOf_of_not_mem hmem hne]
    exact lines_of_not_mem hmem hne

/-! ## Words of command -/

/-- Is the text the word, with any of its letters as capitals? -/
def inAnyCase : (word text : List Char) → Bool
  | [], [] => true
  | w :: word, c :: text => (c == w || c == w.toUpper) && inAnyCase word text
  | _, _ => false

theorem toNat_toLower (c : Char) :
    c.toLower.toNat = if 65 ≤ c.toNat ∧ c.toNat ≤ 90 then c.toNat + 32 else c.toNat := by
  have hval : c.toNat = c.val.toNat := rfl
  have hfirst : 'A'.val.toNat = 65 := rfl
  have hlast : 'Z'.val.toNat = 90 := rfl
  unfold Char.toLower
  simp only [ge_iff_le, UInt32.le_iff_toNat_le]
  split
  · have hstep : ('a'.val - 'A'.val).toNat = 32 := rfl
    rw [if_pos (by omega)]
    show (c.val + _).toNat = _
    rw [UInt32.toNat_add]
    omega
  · rw [if_neg (by omega)]

theorem toNat_toUpper (c : Char) :
    c.toUpper.toNat = if 97 ≤ c.toNat ∧ c.toNat ≤ 122 then c.toNat - 32 else c.toNat := by
  have hval : c.toNat = c.val.toNat := rfl
  have hfirst : 'a'.val.toNat = 97 := rfl
  have hlast : 'z'.val.toNat = 122 := rfl
  delta Char.toUpper
  simp only [UInt32.le_iff_toNat_le]
  split
  · have hstep : ('A'.val - 'a'.val).toNat = 2 ^ 32 - 32 := rfl
    rw [if_pos (by omega)]
    show (c.val + _).toNat = _
    rw [UInt32.toNat_add]
    omega
  · rw [if_neg (by omega)]

/-- What is a small letter in lower case is the letter or its capital. -/
theorem toLower_eq_iff {c w : Char} (hw : w.isLower = true) : c.toLower = w ↔ c = w ∨ c = w.toUpper := by
  have hrange : 97 ≤ w.toNat ∧ w.toNat ≤ 122 := by
    delta Char.isLower at hw
    simp only [Bool.and_eq_true, decide_eq_true_eq, ge_iff_le, UInt32.le_iff_toNat_le] at hw
    exact hw
  rw [← Char.toNat_inj, ← Char.toNat_inj, ← Char.toNat_inj, toNat_toLower, toNat_toUpper, if_pos hrange]
  split <;> omega

theorem map_toLower_eq_iff {word : List Char} (hw : word.all Char.isLower = true) (text : List Char) :
    text.map Char.toLower = word ↔ inAnyCase word text = true := by
  induction word generalizing text with
  | nil => cases text <;> simp [inAnyCase]
  | cons w word ih =>
    rw [List.all_cons, Bool.and_eq_true] at hw
    cases text with
    | nil => simp [inAnyCase]
    | cons c text => simp [inAnyCase, toLower_eq_iff hw.1, ih hw.2]

def stops (line : List Char) : Bool :=
  (Text.strip line).isEmpty || inAnyCase "exit".toList (Text.strip line) || inAnyCase "quit".toList (Text.strip line)

def asksHelp (line : List Char) : Bool := inAnyCase "help".toList (Text.strip line)

def expressionOf (line : List Char) : String := .ofList (Text.strip line)

theorem lower_eq_iff (word : String) (hw : word.toList.all Char.isLower = true) (line : List Char) :
    (expressionOf line).map Char.toLower = word ↔ inAnyCase word.toList (Text.strip line) = true := by
  rw [← map_toLower_eq_iff hw, ← String.toList_inj, String.toList_map, expressionOf, String.toList_ofList]

theorem isEmpty_expressionOf (line : List Char) : (expressionOf line).isEmpty = (Text.strip line).isEmpty := by
  rw [Bool.eq_iff_iff, String.isEmpty_iff, List.isEmpty_iff, expressionOf, ← String.toList_inj, String.toList_ofList]
  rfl

/-- What a line asks for. -/
theorem ofLine_eq (line : List Char) :
    Command.ofLine line =
      if stops line then .stop else if asksHelp line then .help else .calculate (expressionOf line) := by
  refine ite_congr (propext ?_) (fun _ => rfl) fun _ =>
    ite_congr (propext (lower_eq_iff "help" rfl line)) (fun _ => rfl) fun _ => rfl
  simp only [← lower_eq_iff "exit" rfl, ← lower_eq_iff "quit" rfl, ← isEmpty_expressionOf,
    stops, expressionOf, Bool.or_eq_true, decide_eq_true_eq]

end Reckoner.Console
