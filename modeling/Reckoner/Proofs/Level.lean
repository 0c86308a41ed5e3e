import Reckoner.Level
import Reckoner.Proofs.Console.Line

/-!
# Names of levels in any case

The level of a name in any case is the level whose name is the upper case of the text
(`ofAnyCase?_eq_some_iff`). Upper case is that of Unicode, by which ten characters outside ASCII become
letters of ASCII. Two of them, the dotless i and the long s, become one letter and so can stand in the name
of a level; the others become several letters that stand side by side in no name.
-/

namespace Reckoner

namespace Text

/-- The characters outside ASCII whose upper case is in ASCII, each with its upper case. -/
def asciiCapitals : List (Char × List Char) :=
  [('ß', ['S', 'S']), ('ı', ['I']), ('ſ', ['S']), ('ﬀ', ['F', 'F']), ('ﬁ', ['F', 'I']), ('ﬂ', ['F', 'L']),
   ('ﬃ', ['F', 'F', 'I']), ('ﬄ', ['F', 'F', 'L']), ('ﬅ', ['S', 'T']), ('ﬆ', ['S', 'T'])]

/-- The upper case of a character, if it is in ASCII. -/
def upperOf? (c : Char) : Option (List Char) :=
  if c.toNat < 128 then some [c.toUpper] else asciiCapitals.lookup c

def upper? (text : String) : Option String :=
  (text.toList.mapM upperOf?).map fun parts => .ofList parts.flatten

theorem upper?_eq_some_iff {text upper : String} :
    upper? text = some upper ↔ ∃ parts, text.toList.mapM upperOf? = some parts ∧ parts.flatten = upper.toList := by
  simp only [upper?, Option.map_eq_some_iff, ← String.toList_inj, String.toList_ofList]

end Text

namespace Level

open Text

/-! ## One character -/

/-- A capital in ASCII is the upper case of its character. -/
theorem upperOf?_of_capital {c : Char} (h : (capital c).toNat < 128) : upperOf? c = some [capital c] := by
  by_cases hi : c = 'ı'
  · subst hi
    rfl
  by_cases hs : c = 'ſ'
  · subst hs
    rfl
  rw [capital, if_neg hi, if_neg hs] at h ⊢
  have hascii : c.toNat < 128 := by
    rw [Console.toNat_toUpper] at h
    split at h <;> omega
  rw [upperOf?, if_pos hascii]

/-- An upper case in ASCII is one capital, or stands in the table. -/
theorem upperOf?_cases {c : Char} {part : List Char} (h : upperOf? c = some part) :
    part = [capital c] ∨ (c, part) ∈ asciiCapitals := by
  unfold upperOf? at h
  split at h
  · rename_i hascii
    have hne : c ≠ 'ı' ∧ c ≠ 'ſ' := by
      constructor <;> rintro rfl <;> exact absurd hascii (by decide)
    cases h
    exact Or.inl (by rw [capital, if_neg hne.1, if_neg hne.2])
  · obtain ⟨front, back, heq, -⟩ := List.lookup_eq_some_iff.1 h
    exact Or.inr (heq ▸ by simp)

/-! ## A word -/

/-- Is no part of the word the upper case of a character outside ASCII, single capitals apart? -/
def Plain (w : List Char) : Prop :=
  ∀ row ∈ asciiCapitals, row.2 = [capital row.1] ∨ ¬ row.2 <:+: w

theorem Plain.of_suffix {v w : List Char} (h : Plain w) (hv : v <:+ w) : Plain v := fun row hrow =>
  (h row hrow).imp_right fun hout hin => hout (hin.trans hv.isInfix)

theorem mapM_upperOf? {cs : List Char} (h : ∀ c ∈ cs, (capital c).toNat < 128) :
    cs.mapM upperOf? = some (cs.map fun c => [capital c]) := by
  induction cs with
  | nil => rfl
  | cons c cs ih =>
    rw [List.mapM_cons, upperOf?_of_capital (h c (by simp)), ih fun d hd => h d (by simp [hd])]
    rfl

/-- In a plain word every letter is the capital of one character. -/
theorem map_capital_of_mapM {cs : List Char} {parts : List (List Char)} (h : cs.mapM upperOf? = some parts)
    (hplain : Plain parts.flatten) : cs.map capital = parts.flatten := by
  induction cs generalizing parts with
  | nil => cases h; rfl
  | cons c cs ih =>
    rw [List.mapM_cons] at h
    obtain ⟨part, hpart, h⟩ := Option.bind_eq_some_iff.1 h
    obtain ⟨rest, hrest, h⟩ := Option.bind_eq_some_iff.1 h
    cases h
    rw [List.flatten_cons] at hplain ⊢
    have hone : part = [capital c] := by
      rcases upperOf?_cases hpart with hone | hrow
      · exact hone
      · exact (hplain _ hrow).resolve_right fun hout => hout (List.prefix_append part _).isInfix
    rw [List.map_cons, ih hrest (hplain.of_suffix (List.suffix_append part _)), hone, List.singleton_append]

/-! ## Names -/

theorem name_injective {l l' : Level} (h : l.name = l'.name) : l = l' := by
  revert h
  cases l <;> cases l' <;> decide

theorem ofName?_eq_some_iff {name : String} {l : Level} : ofName? name = some l ↔ l.name = name := by
  constructor
  · intro h
    simpa using List.find?_some h
  · rintro rfl
    cases hfound : ofName? l.name with
    | none => simpa using List.find?_eq_none.1 hfound l (mem_all l)
    | some l' => rw [name_injective (l := l') (by simpa using List.find?_some hfound)]

theorem plain_name (l : Level) : Plain l.name.toList := by
  have hall : (asciiCapitals.all fun row => row.2 == [capital row.1] || !decide (row.2 <:+: l.name.toList)) = true := by
    cases l <;> decide +kernel
  intro row hrow
  have hthis := List.all_eq_true.1 hall row hrow
  rw [Bool.or_eq_true, beq_iff_eq, Bool.not_eq_true', decide_eq_false_iff_not] at hthis
  exact hthis

theorem toNat_of_mem_name {l : Level} {c : Char} (h : c ∈ l.name.toList) : c.toNat < 128 := by
  have hall : (l.name.toList.all fun c => decide (c.toNat < 128)) = true := by
    cases l <;> decide
  simpa using List.all_eq_true.1 hall c h

/-- The name of a level is its own upper case. -/
theorem upper?_name (l : Level) : upper? l.name = some l.name := by
  cases l <;> decide

/-- A text names a level in any case exactly if its upper case is the name of the level. -/
theorem ofAnyCase?_eq_some_iff {spelling : String} {l : Level} :
    ofAnyCase? spelling = some l ↔ upper? spelling = some l.name := by
  rw [ofAnyCase?, ofName?_eq_some_iff, ← String.toList_inj, String.toList_map, upper?_eq_some_iff]
  constructor
  · intro h
    have hascii : ∀ c ∈ spelling.toList, (capital c).toNat < 128 := fun c hc =>
      toNat_of_mem_name (h ▸ List.mem_map_of_mem hc)
    refine ⟨_, mapM_upperOf? hascii, ?_⟩
    rw [h, ← List.flatMap_def, List.map_eq_flatMap]
  · rintro ⟨parts, hparts, hflat⟩
    rw [← hflat]
    exact (map_capital_of_mapM hparts (hflat ▸ plain_name l)).symm

end Level

end Reckoner
