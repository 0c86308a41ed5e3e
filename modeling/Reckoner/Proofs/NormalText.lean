import Reckoner.NormalText

/-!
# The shape of normal text

`Tidy` says what the three passes leave: a space only between two characters that join, a plus sign
only where an operand has ended, and a minus sign only where one starts and only as the product
with minus one. `Spaced` is the part of it that holds after the first pass.
-/

namespace Reckoner

/-- The last of several, with one to fall back on. -/
theorem getLast?_cons_or {α : Type} (x : α) (xs : List α) (d : Option α) :
    (x :: xs).getLast?.or d = xs.getLast?.or (some x) := by
  simp [List.getLast?_cons]

namespace NormalText

/-- Does an operand start after the character before, or at the beginning of the text? -/
def atOperand (before : Option Char) : Bool := before.all opensOperand

/-- Is there a character before, and does it join? -/
def afterJoining (before : Option Char) : Bool := before.any joins

/-- Text after a character whose blanks are single spaces between characters that join. -/
inductive Spaced : Option Char → List Char → Prop
  | nil {before : Option Char} : Spaced before []
  | space {before : Option Char} {c : Char} {cs : List Char} (left : afterJoining before = true)
      (right : joins c = true) (visible : Text.isBlank c = false) :
      Spaced (some c) cs → Spaced before (' ' :: c :: cs)
  | char {before : Option Char} {c : Char} {cs : List Char} (visible : Text.isBlank c = false) :
      Spaced (some c) cs → Spaced before (c :: cs)

/-- Normal text after a character. -/
inductive Tidy : Option Char → List Char → Prop
  | nil {before : Option Char} : Tidy before []
  | minus {before : Option Char} {cs : List Char} (starts : atOperand before = true) :
      Tidy (some '*') cs → Tidy before ('-' :: '1' :: '*' :: cs)
  | plus {before : Option Char} {cs : List Char} (ended : atOperand before = false) :
      Tidy (some '+') cs → Tidy before ('+' :: cs)
  | space {before : Option Char} {c : Char} {cs : List Char} (left : afterJoining before = true)
      (right : joins c = true) : Tidy (some c) cs → Tidy before (' ' :: c :: cs)
  | char {before : Option Char} {c : Char} {cs : List Char} (minus : c ≠ '-') (plus : c ≠ '+')
      (visible : Text.isBlank c = false) : Tidy (some c) cs → Tidy before (c :: cs)

theorem spaced_squeezeFrom (before : Option Char) (gap : Bool) (cs : List Char) :
    Spaced before (squeezeFrom (afterJoining before) gap cs) := by
  induction cs generalizing before gap with
  | nil => exact .nil
  | cons c cs ih =>
    rw [squeezeFrom]
    split
    · exact ih before true
    rename_i visible
    rw [Bool.not_eq_true] at visible
    split
    · rename_i hjoin
      simp only [Bool.and_eq_true] at hjoin
      have hc : afterJoining (some c) = true := hjoin.2
      rw [← hc]
      exact .space hjoin.1.1 hjoin.2 visible (ih (some c) false)
    · exact .char visible (ih (some c) false)

/-! ## Characters that join -/

/-- The code points of the characters that join. -/
def joiningRanges : Text.Ranges := (0x2e, 0x2e) :: (0x5f, 0x5f) :: (Text.letterRanges ++ Text.numeralRanges)

theorem mem_joiningRanges {c : Char} (h : joins c = true) :
    ∃ p ∈ joiningRanges, p.1 ≤ c.toNat ∧ c.toNat ≤ p.2 := by
  simp only [joins, Text.isWord, Bool.or_eq_true, beq_iff_eq] at h
  rcases h with ((rfl | hl) | hn) | rfl
  · exact ⟨(0x5f, 0x5f), by simp [joiningRanges], by decide⟩
  · obtain ⟨p, hp, hc⟩ := Text.Ranges.mem_of_contains hl
    exact ⟨p, by simp [joiningRanges, hp], hc⟩
  · obtain ⟨p, hp, hc⟩ := Text.Ranges.mem_of_contains hn
    exact ⟨p, by simp [joiningRanges, hp], hc⟩
  · exact ⟨(0x2e, 0x2e), by simp [joiningRanges], by decide⟩

theorem mem_blankRanges {c : Char} (h : Text.isBlank c = true) :
    ∃ q ∈ (0x1c, 0x1f) :: Text.spaceRanges, q.1 ≤ c.toNat ∧ c.toNat ≤ q.2 := by
  simp only [Text.isBlank, Bool.or_eq_true, Bool.and_eq_true, decide_eq_true_eq] at h
  rcases h with hc | hs
  · exact ⟨(0x1c, 0x1f), by simp, hc⟩
  · obtain ⟨q, hq, hc⟩ := Text.Ranges.mem_of_contains hs
    exact ⟨q, by simp [hq], hc⟩

theorem joiningRanges_apart :
    ∀ q ∈ (0x1c, 0x1f) :: Text.spaceRanges, ∀ p ∈ joiningRanges, p.2 < q.1 ∨ q.2 < p.1 := by decide +kernel

theorem not_isBlank_of_joins {c : Char} (h : joins c = true) : Text.isBlank c = false := by
  rw [Bool.eq_false_iff]
  intro hb
  obtain ⟨p, hp, hp₁, hp₂⟩ := mem_joiningRanges h
  obtain ⟨q, hq, hq₁, hq₂⟩ := mem_blankRanges hb
  have := joiningRanges_apart q hq p hp
  omega

/-- A character that joins is none of those that the passes know as symbols. -/
theorem ne_of_joins {c d : Char} (h : joins c = true) (hd : joins d = false) : c ≠ d := by
  rintro rfl
  simp [h] at hd

theorem symbol_of_opensOperand {c : Char} (h : opensOperand c = true) :
    Text.isBlank c = false ∧ joins c = false ∧ c ≠ '-' := by
  simp only [opensOperand, Bool.or_eq_true, beq_iff_eq] at h
  rcases h with (((((rfl | rfl) | rfl) | rfl) | rfl) | rfl) | rfl <;> decide

theorem opensOperand_of_joins {c : Char} (h : joins c = true) : opensOperand c = false := by
  rw [Bool.eq_false_iff]
  intro ho
  rw [(symbol_of_opensOperand ho).2.1] at h
  cases h

/-! ## One character -/

/-- A visible character stays, and a space comes before it only where it joins after a gap. -/
theorem squeezeFrom_visible {a g : Bool} {c : Char} (visible : Text.isBlank c = false)
    (h : (a && g && joins c) = false) (cs : List Char) :
    squeezeFrom a g (c :: cs) = c :: squeezeFrom (joins c) false cs := by
  simp [squeezeFrom, visible, h]

theorem squeezeFrom_symbol {c : Char} (visible : Text.isBlank c = false) (h : joins c = false) (a g : Bool)
    (cs : List Char) : squeezeFrom a g (c :: cs) = c :: squeezeFrom false false cs := by
  rw [squeezeFrom_visible visible (by simp [h]), h]

/-- A space between two characters that join stays. -/
theorem squeezeFrom_space {c : Char} (h : joins c = true) (cs : List Char) :
    squeezeFrom true false (' ' :: c :: cs) = ' ' :: c :: squeezeFrom true false cs := by
  have hspace : Text.isBlank ' ' = true := by decide
  simp [squeezeFrom, hspace, not_isBlank_of_joins h, h]

theorem expandMinus_append (as bs : List Char) : expandMinus (as ++ bs) = expandMinus as ++ expandMinus bs :=
  List.flatMap_append

theorem expandMinus_minus (cs : List Char) :
    expandMinus ('-' :: cs) = '+' :: '-' :: '1' :: '*' :: expandMinus cs := rfl

theorem expandMinus_of_ne {c : Char} (h : c ≠ '-') (cs : List Char) :
    expandMinus (c :: cs) = c :: expandMinus cs := by
  simp [expandMinus, h]

theorem dropPlus_cons (b : Bool) (c : Char) (cs : List Char) :
    dropPlus b (c :: cs) = if (b && c == '+') = true then dropPlus true cs else c :: dropPlus (opensOperand c) cs := rfl

theorem dropPlus_of_ne {c : Char} (h : c ≠ '+') (b : Bool) (cs : List Char) :
    dropPlus b (c :: cs) = c :: dropPlus (opensOperand c) cs := by
  simp [dropPlus_cons, h]

/-! ## Signs -/

/-- A minus sign keeps its plus sign where an operand has ended. -/
theorem tidy_minus {before : Option Char} {cs : List Char} (h : Tidy (some '*') (dropPlus true cs)) :
    Tidy before (dropPlus (atOperand before) ('+' :: '-' :: '1' :: '*' :: cs)) := by
  have hsign : dropPlus true ('-' :: '1' :: '*' :: cs) = '-' :: '1' :: '*' :: dropPlus true cs := rfl
  rw [dropPlus_cons]
  cases hb : atOperand before with
  | true =>
    show Tidy before (dropPlus true ('-' :: '1' :: '*' :: cs))
    rw [hsign]
    exact .minus hb h
  | false =>
    show Tidy before ('+' :: dropPlus true ('-' :: '1' :: '*' :: cs))
    rw [hsign]
    exact .plus hb (.minus rfl h)

theorem tidy_plus {before : Option Char} {cs : List Char}
    (h : ∀ {b : Option Char}, atOperand b = true → Tidy b (dropPlus true cs)) :
    Tidy before (dropPlus (atOperand before) ('+' :: cs)) := by
  rw [dropPlus_cons]
  cases hb : atOperand before with
  | true => exact h hb
  | false => exact .plus hb (h rfl)

/-- The passes over signs keep the spaces: the character before a space joins, so that it is no sign
and stays. -/
theorem tidy_of_spaced {last : Option Char} {cs : List Char} (h : Spaced last cs) (before : Option Char)
    (hlast : afterJoining last = true → afterJoining before = true) :
    Tidy before (dropPlus (atOperand before) (expandMinus cs)) := by
  induction h generalizing before with
  | nil => exact .nil
  | @space last c cs left right visible h ih =>
    have hminus : c ≠ '-' := ne_of_joins right (by decide)
    have hplus : c ≠ '+' := ne_of_joins right (by decide)
    rw [expandMinus_of_ne (by decide), expandMinus_of_ne hminus, dropPlus_of_ne (by decide), dropPlus_of_ne hplus]
    exact .space (hlast left) right (ih (some c) id)
  | @char last c cs visible h ih =>
    by_cases hminus : c = '-'
    · subst hminus
      exact tidy_minus (ih (some '*') (by decide))
    · rw [expandMinus_of_ne hminus]
      by_cases hplus : c = '+'
      · subst hplus
        refine tidy_plus fun {b} hb => ?_
        rw [← hb]
        exact ih b fun hjoin => absurd hjoin (by decide)
      · rw [dropPlus_of_ne hplus]
        exact .char hminus hplus visible (ih (some c) id)

/-- The three passes leave tidy text. -/
theorem tidy_ofChars (cs : List Char) : Tidy none (ofChars cs) :=
  tidy_of_spaced (spaced_squeezeFrom none false cs) none id

/-! ## Neighbours in normal text -/

/-- What follows a space joins. -/
theorem Tidy.joins_after_space {before : Option Char} {c : Char} {cs : List Char} (h : Tidy before cs)
    (hc : [' ', c] <:+: cs) : joins c = true := by
  -- a space is no other character of the text
  have step : ∀ {e : Char} {es : List Char}, e ≠ ' ' → [' ', c] <:+: e :: es → [' ', c] <:+: es := by
    intro e es he hi
    rcases List.infix_cons_iff.1 hi with hp | hi
    · exact absurd (List.cons_prefix_cons.1 hp).1.symm he
    · exact hi
  induction h with
  | nil => simp at hc
  | minus starts h ih => exact ih (step (by decide) (step (by decide) (step (by decide) hc)))
  | plus ended h ih => exact ih (step (by decide) hc)
  | @space before e es left right h ih =>
    rcases List.infix_cons_iff.1 hc with hp | hi
    · have he := (List.cons_prefix_cons.1 (List.cons_prefix_cons.1 hp).2).1
      rw [he]
      exact right
    · exact ih (step (by rintro rfl; exact absurd right (by decide)) hi)
  | char minus plus visible h ih => exact ih (step (by rintro rfl; exact absurd visible (by decide)) hc)

/-! ## Where the characters of normal text come from -/

theorem mem_of_mem_squeezeFrom {a g : Bool} {c : Char} {cs : List Char} (h : c ∈ squeezeFrom a g cs) :
    c ∈ cs ∨ c = ' ' := by
  induction cs generalizing a g with
  | nil => cases h
  | cons d cs ih =>
    rw [squeezeFrom] at h
    split at h
    · exact (ih h).imp_left (List.mem_cons_of_mem d)
    split at h
    · rcases List.mem_cons.1 h with rfl | h
      · exact Or.inr rfl
      rcases List.mem_cons.1 h with rfl | h
      · exact Or.inl (List.mem_cons_self ..)
      · exact (ih h).imp_left (List.mem_cons_of_mem d)
    · rcases List.mem_cons.1 h with rfl | h
      · exact Or.inl (List.mem_cons_self ..)
      · exact (ih h).imp_left (List.mem_cons_of_mem d)

theorem mem_of_mem_expandMinus {c : Char} {cs : List Char} (h : c ∈ expandMinus cs) :
    c ∈ cs ∨ c = '+' ∨ c = '1' ∨ c = '*' := by
  obtain ⟨d, hd, hc⟩ := List.mem_flatMap.1 h
  split at hc
  · rename_i hminus
    subst hminus
    simp only [List.mem_cons, List.not_mem_nil, or_false] at hc
    rcases hc with rfl | rfl | rfl | rfl <;> simp [hd]
  · rw [List.mem_singleton] at hc
    exact Or.inl (hc ▸ hd)

theorem dropPlus_sublist (b : Bool) (cs : List Char) : (dropPlus b cs).Sublist cs := by
  induction cs generalizing b with
  | nil => exact .slnil
  | cons c cs ih =>
    rw [dropPlus_cons]
    split
    · exact (ih true).cons c
    · exact (ih (opensOperand c)).cons_cons c

/-- The passes add no characters but spaces and those of a product with minus one. -/
theorem mem_of_mem_ofChars {c : Char} {cs : List Char} (h : c ∈ ofChars cs) :
    c ∈ cs ∨ c = ' ' ∨ c = '+' ∨ c = '1' ∨ c = '*' := by
  rcases mem_of_mem_expandMinus ((dropPlus_sublist true _).subset h) with hc | hsign
  · exact (mem_of_mem_squeezeFrom hc).imp_right Or.inl
  · exact Or.inr (Or.inr hsign)

/-- A space stands beside characters that join. -/
theorem Tidy.exists_joins {before : Option Char} {cs : List Char} (h : Tidy before cs) (hspace : ' ' ∈ cs) :
    ∃ c ∈ cs, joins c = true := by
  induction h with
  | nil => cases hspace
  | minus starts h ih => exact ⟨'1', by simp, by decide⟩
  | plus ended h ih =>
    obtain ⟨c, hc, hjoins⟩ := ih (by simpa using hspace)
    exact ⟨c, List.mem_cons_of_mem _ hc, hjoins⟩
  | @space before c cs left right h ih => exact ⟨c, by simp, right⟩
  | @char before c cs minus plus visible h ih =>
    have hne : ' ' ≠ c := by
      rintro rfl
      exact absurd visible (by decide)
    obtain ⟨e, he, hjoins⟩ := ih ((List.mem_cons.1 hspace).resolve_left hne)
    exact ⟨e, List.mem_cons_of_mem _ he, hjoins⟩

/-! ## Texts of which nothing stays -/

theorem dropPlus_eq_nil_iff {cs : List Char} : dropPlus true cs = [] ↔ ∀ c ∈ cs, c = '+' := by
  induction cs with
  | nil => simp [dropPlus]
  | cons c cs ih =>
    rw [dropPlus_cons, List.forall_mem_cons, ← ih]
    by_cases hc : c = '+' <;> simp [hc]

theorem expandMinus_all_plus_iff {cs : List Char} : (∀ c ∈ expandMinus cs, c = '+') ↔ ∀ c ∈ cs, c = '+' := by
  refine ⟨fun h c hc => ?_, fun h c hc => ?_⟩
  · by_cases hminus : c = '-'
    · subst hminus
      exact absurd (h '1' (List.mem_flatMap.2 ⟨'-', hc, by simp⟩)) (by decide)
    · exact h c (List.mem_flatMap.2 ⟨c, hc, by simp [hminus]⟩)
  · obtain ⟨d, hd, hmem⟩ := List.mem_flatMap.1 hc
    rw [h d hd] at hmem
    simpa using hmem

theorem squeezeFrom_all_plus_iff {a g : Bool} {cs : List Char} :
    (∀ c ∈ squeezeFrom a g cs, c = '+') ↔ ∀ c ∈ cs, Text.isBlank c = true ∨ c = '+' := by
  induction cs generalizing a g with
  | nil => simp [squeezeFrom]
  | cons c cs ih =>
    rw [squeezeFrom, List.forall_mem_cons]
    split
    · rename_i hblank
      rw [ih]
      exact ⟨fun h => ⟨Or.inl hblank, h⟩, And.right⟩
    rename_i hvisible
    split
    · rename_i hjoin
      refine iff_of_false (fun h => absurd (h ' ' (by simp)) (by decide)) fun h => ?_
      rcases h.1 with hblank | rfl
      · exact hvisible hblank
      · simp [show joins '+' = false by decide] at hjoin
    · rw [List.forall_mem_cons, ih]
      exact and_congr_left fun _ => by simp [hvisible]

/-- Nothing stays of blanks and plus signs, and of no other text. -/
theorem ofChars_eq_nil_iff {cs : List Char} : ofChars cs = [] ↔ ∀ c ∈ cs, Text.isBlank c = true ∨ c = '+' :=
  (dropPlus_eq_nil_iff.trans expandMinus_all_plus_iff).trans squeezeFrom_all_plus_iff

/-! ## Blanks at the ends -/

theorem squeezeFrom_blank {gap : List Char} (h : gap.all Text.isBlank = true) (a g : Bool) (cs : List Char) :
    squeezeFrom a g (gap ++ cs) = squeezeFrom a (g || !gap.isEmpty) cs := by
  induction gap generalizing g with
  | nil => simp
  | cons c gap ih =>
    rw [List.all_cons, Bool.and_eq_true] at h
    simp only [List.cons_append, squeezeFrom, h.1, if_true]
    rw [ih h.2]
    simp

theorem squeezeFrom_append_blank {gap : List Char} (h : gap.all Text.isBlank = true) (a g : Bool) (cs : List Char) :
    squeezeFrom a g (cs ++ gap) = squeezeFrom a g cs := by
  induction cs generalizing a g with
  | nil =>
    rw [List.nil_append, ← List.append_nil gap, squeezeFrom_blank h]
    rfl
  | cons c cs ih => simp only [List.cons_append, squeezeFrom, ih]

/-- Where no character that joins comes before, it does not matter whether blanks do. -/
theorem squeezeFrom_false (g : Bool) (cs : List Char) : squeezeFrom false g cs = squeezeFrom false false cs := by
  cases cs <;> rfl

/-- Blanks at the two ends of a text leave no trace. -/
theorem ofChars_strip (cs : List Char) : ofChars (Text.strip cs) = ofChars cs := by
  obtain ⟨front, back, hcs, hfront, hback⟩ := Text.exists_trim Text.isBlank cs
  have hsqueeze : squeeze cs = squeeze (Text.strip cs) :=
    calc squeeze cs
        _ = squeeze (front ++ (Text.strip cs ++ back)) := congrArg squeeze hcs
        _ = squeezeFrom false false (Text.strip cs ++ back) := by
          rw [squeeze, squeezeFrom_blank hfront, squeezeFrom_false]
        _ = squeeze (Text.strip cs) := squeezeFrom_append_blank hback false false _
  simp only [ofChars, hsqueeze]

end NormalText

end Reckoner
