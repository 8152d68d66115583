import HttpWire.Field.Block
import HttpWire.Proofs.Message.Token
import HttpWire.Proofs.Text.Ascii

/-!
# Laws of header lines

A field is written in a line if its name stands in front of a colon in any letter case, and its
value is what stands behind it, without the white space around it and in UTF-8 (`Field.WrittenIn`).
Such a line is read as the field, and no other is read at all (`Field.ofLine_eq_ok_iff`): the first
colon of the line is the one behind the name, because a name has none in it.
-/

namespace HttpWire

/-! ### Names -/

namespace FieldName

variable {name : FieldName} {spelling : Text} {c : Char}

/-- A name is read from every spelling of it, and from nothing else. -/
theorem ofText?_eq_some_iff :
    ofText? spelling = some name ↔ Text.lower spelling = name.text := by
  unfold ofText?
  constructor
  · intro h
    simp only at h
    split at h
    · obtain rfl := Option.some.inj h
      rfl
    · cases h
  · intro h
    have hvalid := name.valid
    rw [← h] at hvalid
    simp only
    rw [dif_pos hvalid, Option.some.injEq]
    obtain ⟨text, _⟩ := name
    obtain rfl : Text.lower spelling = text := h
    rfl

/-- A character of a spelling may stand in a token, at least in its small form. -/
theorem isTokenChar_toLower (h : Text.lower spelling = name.text) (hc : c ∈ spelling) :
    isTokenChar c.toLower = true := by
  have hvalid := name.valid
  simp only [Bool.and_eq_true] at hvalid
  apply all_of_isToken hvalid.1.1
  rw [← h]
  exact List.mem_map_of_mem hc

/-- What stands in a spelling is no mark that stays as it is in small letters. -/
theorem ne_of_mem_spelling (h : Text.lower spelling = name.text) (hc : c ∈ spelling) {d : Char}
    (hd : isTokenChar d.toLower = false) : c ≠ d := by
  rintro rfl
  rw [isTokenChar_toLower h hc] at hd
  cases hd

end FieldName

/-- The value that a text writes. -/
theorem FieldValue.ofText?_eq_some_iff {t : Text} {v : FieldValue} :
    FieldValue.ofText? t = some v ↔ Utf8.encode t = v.bytes := by
  rw [ofText?, ofBytes?]
  constructor
  · intro h
    split at h
    · obtain rfl := Option.some.inj h
      rfl
    · cases h
  · intro h
    rw [h, dif_pos v.valid]

/-! ### Lines -/

namespace Field

/-- A field is written in a line. -/
def WrittenIn (f : Field) (line : Text) : Prop :=
  ∃ spelling after, line = spelling ++ ':' :: after ∧ Text.lower spelling = f.name.text ∧
    Utf8.encode (Text.trim after) = f.value.bytes

variable {f : Field} {line : Text}

/-- **A field is read from a line if and only if it is written in it.** -/
theorem ofLine_eq_ok_iff : ofLine line = .ok f ↔ f.WrittenIn line := by
  constructor
  · intro h
    unfold ofLine at h
    cases hs : splitFirst (· == ':') line with
    | none =>
      rw [hs] at h
      cases h
    | some parts =>
      obtain ⟨spelling, sep, after⟩ := parts
      obtain ⟨hline, hsep, -⟩ := splitFirst_eq_some_iff.mp hs
      obtain rfl : sep = ':' := beq_iff_eq.mp hsep
      rw [hs] at h
      simp only at h
      cases hname : FieldName.ofText? spelling with
      | none =>
        rw [hname] at h
        cases h
      | some name =>
        cases hvalue : FieldValue.ofText? (Text.trim after) with
        | none =>
          rw [hname, hvalue] at h
          cases h
        | some value =>
          rw [hname, hvalue] at h
          obtain rfl := Except.ok.inj h
          exact ⟨spelling, after, hline, FieldName.ofText?_eq_some_iff.mp hname,
            FieldValue.ofText?_eq_some_iff.mp hvalue⟩
  · rintro ⟨spelling, after, rfl, hname, hvalue⟩
    have hno : ∀ c ∈ spelling, (c == ':') = false := by
      intro c hc
      rw [beq_eq_false_iff_ne]
      exact FieldName.ne_of_mem_spelling hname hc (by decide)
    have hcut : splitFirst (· == ':') (spelling ++ ':' :: after) = some (spelling, ':', after) :=
      splitFirst_append_cons hno rfl
    simp only [ofLine, hcut, FieldName.ofText?_eq_some_iff.mpr hname,
      FieldValue.ofText?_eq_some_iff.mpr hvalue]

namespace WrittenIn

theorem ne_nil (h : f.WrittenIn line) : line ≠ [] := by
  obtain ⟨spelling, after, rfl, -⟩ := h
  simp

/-- A carriage return at the end of a header line is white space around the value. -/
theorem of_concat_return (h : f.WrittenIn (line ++ ['\r'])) : f.WrittenIn line := by
  obtain ⟨spelling, after, hline, hname, hvalue⟩ := h
  have hlast : (spelling ++ ':' :: after).getLast? = some '\r' := by
    rw [← hline, List.getLast?_concat]
  rcases List.eq_nil_or_concat after with rfl | ⟨front, last, rfl⟩
  · rw [List.getLast?_concat] at hlast
    exact absurd (Option.some.inj hlast) (by decide)
  · rw [List.concat_eq_append, ← List.cons_append, ← List.append_assoc] at hlast hline
    rw [List.getLast?_concat] at hlast
    obtain rfl : last = '\r' := Option.some.inj hlast
    refine ⟨spelling, front, List.append_cancel_right hline, hname, ?_⟩
    have hblank : ∀ c ∈ ['\r'], Text.isBlank c = true := List.forall_mem_singleton.mpr (by decide)
    rwa [List.concat_eq_append, Text.trim_append hblank] at hvalue

end WrittenIn

end Field

end HttpWire
