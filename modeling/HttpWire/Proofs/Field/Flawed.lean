import HttpWire.Proofs.Field.Line

/-!
# Texts that are no header lines

A text is no header line if it has no colon, if there is no name in front of its first colon, or if
there are control characters in the value behind it (`Field.Flawed`).  It is refused for the first
of these reasons that applies, and for no other (`Field.ofLine_eq_error_iff`).  So every text either
has a field written in it or is flawed (`Field.written_or_flawed`).
-/

namespace HttpWire

/-! ### Names -/

theorem isTokenChar_lower (c : Char) : isTokenChar c.toLower = isTokenChar c := by
  by_cases hc : 65 ≤ c.toNat ∧ c.toNat ≤ 90
  · -- A capital and the small letter that it becomes are both letters.
    have hsmall : c.toLower.isLower = true := by
      rw [Text.isLower_iff, Text.toNat_toLower, if_pos hc]
      omega
    rw [isTokenChar, isTokenChar, Text.isAlphanum_iff.mpr (.inr (.inl hsmall)),
      Text.isAlphanum_iff.mpr (.inl (Text.isUpper_iff.mpr hc)), Bool.true_or, Bool.true_or]
  · have hsame : c.toLower = c := by
      rw [← Char.toNat_inj, Text.toNat_toLower, if_neg hc]
    rw [hsame]

theorem isToken_lower (t : Text) : isToken (Text.lower t) = isToken t := by
  rw [isToken, isToken, Text.lower, List.isEmpty_map, List.all_map]
  congr 2
  exact funext isTokenChar_lower

/-- A text is a name, in whatever letter case. -/
def Text.IsFieldName (t : Text) : Prop :=
  isToken t = true ∧ t.length ≤ 65535

/-- What is a name is read as one. -/
theorem FieldName.ofText?_eq_none_iff {t : Text} : ofText? t = none ↔ ¬ t.IsFieldName := by
  have hupper : ((Text.lower t).all fun c => !c.isUpper) = true := by
    rw [Text.lower, List.all_map, List.all_eq_true]
    intro c _
    have hnone : c.toLower.isUpper = false := by
      rw [Bool.eq_false_iff, ne_eq, Text.isUpper_iff, Text.toNat_toLower]
      split <;> omega
    rw [Function.comp_apply, hnone]
    rfl
  have hlength : (Text.lower t).length = t.length := List.length_map ..
  simp only [ofText?, isToken_lower, hlength, hupper, Text.IsFieldName, Bool.and_true,
    Bool.and_eq_true, decide_eq_true_eq]
  split
  · next h => simp [h]
  · next h => simp [h]

/-! ### Values -/

/-- A control character of ASCII other than the tab. -/
def IsControl (c : Char) : Prop :=
  c ≠ '\t' ∧ (c.toNat < 0x20 ∨ c.toNat = 0x7F)

/-- The octets of a character may stand in a value unless it is a control character. -/
theorem encodeChar_all_iff (c : Char) :
    ((Utf8.encodeChar c).all fun b => b == 0x09 || (0x20 ≤ b && b != 0x7F)) = true ↔
      ¬ IsControl c := by
  by_cases hc : c.toNat < 0x80
  · have hn := Utf8.toNat_ofNat_of_ascii hc
    rw [Utf8.encodeChar_of_ascii hc, List.all_cons, List.all_nil, Bool.and_true, IsControl, ne_eq,
      ← Char.toNat_inj, Bool.or_eq_true, Bool.and_eq_true, beq_iff_eq, bne_iff_ne, ne_eq,
      decide_eq_true_eq, ← UInt8.toNat_inj, ← UInt8.toNat_inj, UInt8.le_iff_toNat_le, hn]
    show c.toNat = 9 ∨ 32 ≤ c.toNat ∧ c.toNat ≠ 127 ↔
      ¬ (c.toNat ≠ 9 ∧ (c.toNat < 32 ∨ c.toNat = 127))
    omega
  · -- All octets of a character beyond ASCII are beyond ASCII.
    have hhigh : ∀ b ∈ Utf8.encodeChar c, 0x80 ≤ b.toNat :=
      fun b hb => Utf8.le_toNat_of_mem_encodeChar (by omega) hb
    refine iff_of_true ?_ ?_
    · rw [List.all_eq_true]
      intro b hb
      have hb' := hhigh b hb
      rw [Bool.or_eq_true, Bool.and_eq_true, bne_iff_ne, ne_eq, decide_eq_true_eq,
        UInt8.le_iff_toNat_le, ← UInt8.toNat_inj]
      show _ ∨ 32 ≤ b.toNat ∧ b.toNat ≠ 127
      omega
    · rintro ⟨-, hlow⟩
      omega

/-- A text without control characters is a value. -/
theorem FieldValue.ofText?_eq_none_iff {t : Text} :
    ofText? t = none ↔ ∃ c ∈ t, IsControl c := by
  have hall : ((Utf8.encode t).all fun b => b == 0x09 || (0x20 ≤ b && b != 0x7F)) = true ↔
      ∀ c ∈ t, ¬ IsControl c := by
    rw [Utf8.encode, List.all_flatMap, List.all_eq_true]
    exact forall₂_congr fun c _ => encodeChar_all_iff c
  rw [ofText?, ofBytes?]
  split
  · next h => simpa using hall.mp h
  · next h =>
    rw [hall] at h
    simpa using h

/-! ### Lines -/

namespace Field

/-- What is wrong with a text that is no header line. -/
inductive Flawed : Text → HeaderFault → Prop
  | missingColon {line} (hno : ':' ∉ line) : Flawed line (.missingColon line)
  | badName {spelling after} (hno : ':' ∉ spelling) (hname : ¬ Text.IsFieldName spelling) :
    Flawed (spelling ++ ':' :: after) (.badName spelling)
  | badValue {spelling after name} (hname : Text.lower spelling = FieldName.text name)
    (hvalue : ∃ c ∈ Text.trim after, IsControl c) :
    Flawed (spelling ++ ':' :: after) (.badValue name)

variable {line : Text} {fault : HeaderFault}

theorem colon_not_mem_spelling {name : FieldName} {spelling : Text}
    (h : Text.lower spelling = name.text) : ':' ∉ spelling :=
  fun hmem => FieldName.ne_of_mem_spelling h hmem (by decide) rfl

/-- **A text is refused for what is wrong with it.** -/
theorem ofLine_eq_error_iff : ofLine line = .error fault ↔ Flawed line fault := by
  constructor
  · intro h
    unfold ofLine at h
    cases hs : splitFirst (· == ':') line with
    | none =>
      rw [hs] at h
      cases h
      exact .missingColon (splitFirst_beq_eq_none_iff.mp hs)
    | some parts =>
      obtain ⟨spelling, sep, after⟩ := parts
      obtain ⟨rfl, rfl, hno⟩ := splitFirst_beq_eq_some_iff.mp hs
      rw [hs] at h
      simp only at h
      cases hname : FieldName.ofText? spelling with
      | none =>
        rw [hname] at h
        cases h
        exact .badName hno (FieldName.ofText?_eq_none_iff.mp hname)
      | some name =>
        rw [hname] at h
        simp only at h
        cases hvalue : FieldValue.ofText? (Text.trim after) with
        | none =>
          rw [hvalue] at h
          cases h
          exact .badValue (FieldName.ofText?_eq_some_iff.mp hname)
            (FieldValue.ofText?_eq_none_iff.mp hvalue)
        | some value =>
          rw [hvalue] at h
          cases h
  · intro h
    cases h with
    | missingColon hno =>
      rw [ofLine, splitFirst_beq_eq_none_iff.mpr hno]
    | badName hno hname =>
      rw [ofLine, splitFirst_beq_append_cons hno]
      simp only [FieldName.ofText?_eq_none_iff.mpr hname]
    | badValue hname hvalue =>
      rw [ofLine, splitFirst_beq_append_cons (colon_not_mem_spelling hname)]
      simp only [FieldName.ofText?_eq_some_iff.mpr hname,
        FieldValue.ofText?_eq_none_iff.mpr hvalue]

/-- A field is written in a text, or something is wrong with it. -/
theorem written_or_flawed (line : Text) :
    (∃ f : Field, f.WrittenIn line) ∨ ∃ fault, Flawed line fault := by
  cases h : ofLine line with
  | ok f => exact .inl ⟨f, ofLine_eq_ok_iff.mp h⟩
  | error fault => exact .inr ⟨fault, ofLine_eq_error_iff.mp h⟩

end Field

end HttpWire
