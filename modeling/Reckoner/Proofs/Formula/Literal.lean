import Reckoner.Proofs.Formula.NormalText

/-!
# Reading literals

A literal is read as the number that it writes, and nothing else is read but a literal with a minus
sign before it.
-/

namespace Reckoner.Formula

theorem Literal.readUnsigned_chars (l : Literal) :
    Decimal.readUnsigned l.chars =
      some (Decimal.ofDigits (l.whole ++ l.places.getD []), (l.places.getD []).length) := by
  obtain ⟨whole, places, hw, hp, hne⟩ := l
  have hw' := List.all_eq_true.1 hw
  unfold Decimal.readUnsigned chars
  simp only [List.takeWhile_append_of_pos hw', List.dropWhile_append_of_pos hw']
  cases places with
  | none => simpa using hne
  | some ds =>
    have hpoint : ('.' : Char).isDigit = false := by decide
    have hds : ds.all Char.isDigit = true := hp
    have hne' : (whole.isEmpty && ds.isEmpty) = false := by
      cases whole with
      | nil => simpa using hne
      | cons c whole => rfl
    simp [hpoint, hds, hne']

theorem Literal.readLiteral_chars (l : Literal) : Decimal.readLiteral l.chars = some l.value := by
  have hm : Decimal.readLiteral l.chars = Decimal.readMagnitude false l.chars := by
    unfold Decimal.readLiteral
    split
    · rename_i cs hcs
      exact absurd rfl (ne_of_isWordChar (d := '-') (l.isWordChar_of_mem (c := '-') (by simp [hcs])) (by decide))
    · rfl
  rw [hm, Decimal.readMagnitude, l.readUnsigned_chars]
  rfl

/-- What is rounded is packed in the end. -/
theorem ofQuotient_eq_pack (negative : Bool) (n d : Nat) :
    ∃ m e, Binary64.ofQuotient negative n d = .pack negative m e := by
  unfold Binary64.ofQuotient Binary64.ofRounded
  simp only
  split
  · exact ⟨0, -1074, (Binary64.pack_of_canonical negative (by decide)).symm⟩
  split
  · exact ⟨_, _, rfl⟩
  · exact ⟨_, _, rfl⟩

/-- A literal writes a number whose sign bit is clear. -/
theorem Literal.value_nonnegative (l : Literal) : l.value ≠ .nan ∧ l.value.signBit = false := by
  obtain ⟨m, e, h⟩ := ofQuotient_eq_pack false (Decimal.ofDigits (l.whole ++ l.places.getD []))
    (10 ^ (l.places.getD []).length)
  unfold value
  rw [h]
  unfold Binary64.pack
  split
  · exact ⟨by simp, rfl⟩
  · exact ⟨by simp, rfl⟩

/-- Is the text a literal, or one after a minus sign? -/
def IsSigned (cs : List Char) : Prop := ∃ l : Literal, cs = l.chars ∨ cs = '-' :: l.chars

theorem exists_literal_of_readUnsigned {cs : List Char} {r : Nat × Nat} (h : Decimal.readUnsigned cs = some r) :
    ∃ l : Literal, cs = l.chars := by
  have hsplit := List.takeWhile_append_dropWhile (p := Char.isDigit) (l := cs)
  have hwhole : (cs.takeWhile Char.isDigit).all Char.isDigit = true := List.all_takeWhile
  unfold Decimal.readUnsigned at h
  simp only at h
  split at h
  · rename_i hrest
    split at h
    · cases h
    · rename_i hne
      refine ⟨⟨cs.takeWhile Char.isDigit, none, hwhole, rfl, by simpa using hne⟩, ?_⟩
      rw [hrest] at hsplit
      exact hsplit.symm
  · rename_i c places hrest
    split at h
    · rename_i hc
      simp only [Bool.and_eq_true, Bool.not_eq_true', decide_eq_true_eq, Bool.and_eq_false_iff] at hc
      obtain ⟨⟨rfl, hplaces⟩, hne⟩ := hc
      refine ⟨⟨cs.takeWhile Char.isDigit, some places, hwhole, hplaces, ?_⟩, ?_⟩
      · rw [Option.getD_some, List.isEmpty_eq_false_iff]
        intro hnil
        obtain ⟨hw, hp⟩ := List.append_eq_nil_iff.1 hnil
        simp [hw, hp] at hne
      · rw [hrest] at hsplit
        exact hsplit.symm
    · cases h

/-- What is read is a literal, or one after a minus sign. -/
theorem readLiteral_eq_none_iff (cs : List Char) : Decimal.readLiteral cs = none ↔ ¬ IsSigned cs := by
  constructor
  · rintro h ⟨l, rfl | rfl⟩
    · rw [l.readLiteral_chars] at h
      cases h
    · simp [Decimal.readLiteral, Decimal.readMagnitude, l.readUnsigned_chars] at h
  · intro h
    unfold Decimal.readLiteral Decimal.readMagnitude
    split
    · rename_i ds
      rw [Option.map_eq_none_iff, Option.eq_none_iff_forall_ne_some]
      intro r hr
      obtain ⟨l, rfl⟩ := exists_literal_of_readUnsigned hr
      exact h ⟨l, Or.inr rfl⟩
    · rw [Option.map_eq_none_iff, Option.eq_none_iff_forall_ne_some]
      intro r hr
      obtain ⟨l, rfl⟩ := exists_literal_of_readUnsigned hr
      exact h ⟨l, Or.inl rfl⟩

/-- Without a minus sign it is a literal. -/
theorem exists_literal_of_readLiteral {cs : List Char} {x : Binary64} (h : Decimal.readLiteral cs = some x)
    (hcs : '-' ∉ cs) : ∃ l : Literal, l.chars = cs ∧ l.value = x := by
  have hs : IsSigned cs := by
    refine Classical.not_not.1 fun hn => ?_
    rw [(readLiteral_eq_none_iff cs).2 hn] at h
    cases h
  obtain ⟨l, rfl | rfl⟩ := hs
  · rw [l.readLiteral_chars] at h
    exact ⟨l, rfl, Option.some.inj h⟩
  · exact absurd (List.mem_cons_self ..) hcs

end Reckoner.Formula
