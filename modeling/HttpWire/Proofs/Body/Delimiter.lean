import Mathlib.Data.List.Basic
import HttpWire.Body.Multipart
import HttpWire.Proofs.Reading.CutLines

/-!
# Delimiter lines

A delimiter line is two hyphens and the boundary, two hyphens more if it closes, and spaces and
tabs (`Delimiter.ofLine?_eq_some_iff`).  The lines of a multipart body are read as text with U+FFFD
for whatever is no text, so a boundary without U+FFFD is found where its own octets stand and
nowhere else (`ofLine?_decodeLossy_iff`).
-/

namespace HttpWire

/-! ### As text -/

namespace Delimiter

variable {boundary line padding : Text} {kind : Delimiter}

/-- The hyphens behind the boundary. -/
def marks : Delimiter → Text
  | .opening => []
  | .closing => "--".toList

/-- The text of a delimiter line. -/
def text (kind : Delimiter) (boundary padding : Text) : Text :=
  "--".toList ++ boundary ++ (kind.marks ++ padding)

theorem all_isSpaceOrTab_iff :
    padding.all Text.isSpaceOrTab = true ↔ ∀ c ∈ padding, c = ' ' ∨ c = '\t' := by
  rw [List.all_eq_true]
  constructor
  · intro h c hc
    exact Text.isSpaceOrTab_iff.mp (h c hc)
  · intro h c hc
    exact Text.isSpaceOrTab_iff.mpr (h c hc)

/-- Spaces and tabs do not begin with hyphens. -/
theorem isPrefixOf?_padding (h : ∀ c ∈ padding, c = ' ' ∨ c = '\t') :
    "--".toList.isPrefixOf? padding = none := by
  cases hp : "--".toList.isPrefixOf? padding with
  | none => rfl
  | some rest =>
    have happend := List.isPrefixOf?_eq_some_iff_append_eq.mp hp
    have hmem : '-' ∈ padding := by
      rw [← happend]
      exact List.mem_append_left _ (by decide)
    exact absurd (h _ hmem) (by decide)

theorem ofLine?_eq_some_iff :
    ofLine? boundary line = some kind ↔
      ∃ padding, (∀ c ∈ padding, c = ' ' ∨ c = '\t') ∧ line = kind.text boundary padding := by
  unfold ofLine?
  constructor
  · intro h
    cases hp : ("--".toList ++ boundary).isPrefixOf? line with
    | none =>
      rw [hp] at h
      cases h
    | some rest =>
      rw [hp] at h
      obtain rfl := List.isPrefixOf?_eq_some_iff_append_eq.mp hp
      simp only at h
      cases hm : "--".toList.isPrefixOf? rest with
      | none =>
        rw [hm] at h
        simp only at h
        split at h
        · next hall =>
          obtain rfl := Option.some.inj h
          exact ⟨rest, all_isSpaceOrTab_iff.mp hall, rfl⟩
        · cases h
      | some padding =>
        rw [hm] at h
        simp only at h
        obtain rfl := List.isPrefixOf?_eq_some_iff_append_eq.mp hm
        split at h
        · next hall =>
          obtain rfl := Option.some.inj h
          exact ⟨padding, all_isSpaceOrTab_iff.mp hall, rfl⟩
        · cases h
  · rintro ⟨padding, hpadding, rfl⟩
    have hp : ("--".toList ++ boundary).isPrefixOf? (kind.text boundary padding) =
        some (kind.marks ++ padding) := List.isPrefixOf?_eq_some_iff_append_eq.mpr rfl
    have hall := all_isSpaceOrTab_iff.mpr hpadding
    rw [hp]
    cases kind with
    | opening =>
      simp only [marks, List.nil_append, isPrefixOf?_padding hpadding]
      exact if_pos hall
    | closing =>
      have hm : "--".toList.isPrefixOf? (marks .closing ++ padding) = some padding :=
        List.isPrefixOf?_eq_some_iff_append_eq.mpr rfl
      simp only [hm]
      exact if_pos hall

/-- Apart from the boundary a delimiter line is hyphens, spaces and tabs. -/
theorem mem_text (hpadding : ∀ c ∈ padding, c = ' ' ∨ c = '\t') {c : Char}
    (hc : c ∈ kind.text boundary padding) : c ∈ boundary ∨ c = '-' ∨ c = ' ' ∨ c = '\t' := by
  have hhyphens : ∀ c ∈ "--".toList, c = '-' :=
    List.forall_mem_cons.mpr ⟨rfl, List.forall_mem_singleton.mpr rfl⟩
  have hmarks : ∀ c ∈ kind.marks, c = '-' := by
    cases kind with
    | opening => exact List.forall_mem_nil _
    | closing => exact hhyphens
  rw [text, List.mem_append, List.mem_append, List.mem_append] at hc
  rcases hc with (hc | hc) | hc | hc
  · exact .inr (.inl (hhyphens c hc))
  · exact .inl hc
  · exact .inr (.inl (hmarks c hc))
  · exact .inr (.inr (hpadding c hc))

/-- A character that is not in the boundary, and no hyphen, space or tab, is not in the line. -/
theorem not_mem_text (hpadding : ∀ c ∈ padding, c = ' ' ∨ c = '\t') {c : Char}
    (hc : c ∉ boundary) (hmark : c ≠ '-' ∧ c ≠ ' ' ∧ c ≠ '\t') :
    c ∉ kind.text boundary padding := by
  intro hmem
  rcases mem_text hpadding hmem with h | h | h | h
  · exact hc h
  · exact hmark.1 h
  · exact hmark.2.1 h
  · exact hmark.2.2 h

end Delimiter

/-! ### As octets -/

section

variable {boundary padding : Text} {kind : Delimiter} {line after : Bytes}

/-- Octets are those of a delimiter line, with its end or without. -/
def DelimiterLine (boundary : Text) (kind : Delimiter) (line : Bytes) : Prop :=
  ∃ padding, (∀ c ∈ padding, c = ' ' ∨ c = '\t') ∧
    dropLineBreak line = Utf8.encode (kind.text boundary padding)

/-- No line is a delimiter line. -/
def NoDelimiter (boundary : Text) (bs : Bytes) : Prop :=
  ∀ line ∈ cutLines bs, ∀ kind, ¬ DelimiterLine boundary kind line

/-- **A boundary without U+FFFD is found where its octets stand and nowhere else.** -/
theorem ofLine?_decodeLossy_iff (hb : Utf8.replacement ∉ boundary) :
    Delimiter.ofLine? boundary (Utf8.decodeLossy (dropLineBreak line)) = some kind ↔
      DelimiterLine boundary kind line := by
  rw [Delimiter.ofLine?_eq_some_iff]
  constructor
  · rintro ⟨padding, hpadding, htext⟩
    have hno : Utf8.replacement ∉ kind.text boundary padding :=
      Delimiter.not_mem_text hpadding hb (by decide)
    exact ⟨padding, hpadding, (Utf8.decodeLossy_eq_iff hno).mp htext⟩
  · rintro ⟨padding, hpadding, hoctets⟩
    refine ⟨padding, hpadding, ?_⟩
    rw [hoctets, Utf8.decodeLossy_encode]

theorem ofLine?_eq_none (hb : Utf8.replacement ∉ boundary)
    (hline : ∀ kind, ¬ DelimiterLine boundary kind line) :
    Delimiter.ofLine? boundary (Utf8.decodeLossy (dropLineBreak line)) = none := by
  cases h : Delimiter.ofLine? boundary (Utf8.decodeLossy (dropLineBreak line)) with
  | none => rfl
  | some kind => exact absurd ((ofLine?_decodeLossy_iff hb).mp h) (hline kind)

/-- A delimiter line that has been written is one, and the first line of what it stands in front
of. -/
theorem delimiterLine_ended (hr : '\r' ∉ boundary) (hn : '\n' ∉ boundary)
    (hpadding : ∀ c ∈ padding, c = ' ' ∨ c = '\t') (ending : LineEnd) (after : Bytes) :
    FirstLine (Utf8.encode (kind.text boundary padding) ++ ending.octets) after ∧
      DelimiterLine boundary kind (Utf8.encode (kind.text boundary padding) ++ ending.octets) := by
  have hno : lineFeed ∉ Utf8.encode (kind.text boundary padding) := by
    intro hmem
    exact Delimiter.not_mem_text hpadding hn (by decide)
      ((Utf8.mem_encode_iff (d := '\n') (by decide)).mp hmem)
  have hlast : (Utf8.encode (kind.text boundary padding)).getLast? ≠ some carriageReturn := by
    intro hlast
    have hmem : carriageReturn ∈ Utf8.encode (kind.text boundary padding) :=
      List.mem_of_getLast? hlast
    exact Delimiter.not_mem_text hpadding hr (by decide)
      ((Utf8.mem_encode_iff (d := '\r') (by decide)).mp hmem)
  cases ending with
  | crlf =>
    refine ⟨?_, padding, hpadding, dropLineBreak_crlf _⟩
    have hno' : lineFeed ∉ Utf8.encode (kind.text boundary padding) ++ [carriageReturn] := by
      intro hmem
      rcases List.mem_append.mp hmem with hmem | hmem
      · exact hno hmem
      · exact absurd (List.mem_singleton.mp hmem) (by decide)
    have h : FirstLine (Utf8.encode (kind.text boundary padding) ++ [carriageReturn] ++ [lineFeed])
        after := .ended hno'
    rwa [List.append_assoc] at h
  | lf =>
    refine ⟨.ended hno, padding, hpadding, ?_⟩
    rw [show LineEnd.lf.octets = [lineFeed] from rfl, dropLineBreak_ended, dropReturn, if_neg hlast]

/-- At the very end a delimiter line need not have an end. -/
theorem delimiterLine_last (hn : '\n' ∉ boundary)
    (hpadding : ∀ c ∈ padding, c = ' ' ∨ c = '\t') :
    FirstLine (Utf8.encode (kind.text boundary padding)) [] ∧
      DelimiterLine boundary kind (Utf8.encode (kind.text boundary padding)) := by
  have hno : lineFeed ∉ Utf8.encode (kind.text boundary padding) := by
    intro hmem
    exact Delimiter.not_mem_text hpadding hn (by decide)
      ((Utf8.mem_encode_iff (d := '\n') (by decide)).mp hmem)
  have hne : Utf8.encode (kind.text boundary padding) ≠ [] := by
    intro hnil
    have hmem : UInt8.ofNat '-'.toNat ∈ Utf8.encode (kind.text boundary padding) :=
      (Utf8.mem_encode_iff (by decide)).mpr (by simp [Delimiter.text])
    rw [hnil] at hmem
    cases hmem
  exact ⟨.last hne hno, padding, hpadding, dropLineBreak_of_not_mem hno⟩

/-! ### Octets without delimiter lines -/

theorem noDelimiter_nil : NoDelimiter boundary [] := by
  intro line hline
  cases hline

theorem FirstLine.noDelimiter_iff (h : FirstLine line after) :
    NoDelimiter boundary (line ++ after) ↔
      (∀ kind, ¬ DelimiterLine boundary kind line) ∧ NoDelimiter boundary after := by
  rw [NoDelimiter, h.cutLines_eq, List.forall_mem_cons]
  rfl

/-- Whether there is a delimiter line can be computed. -/
theorem noDelimiter_iff_all (hb : Utf8.replacement ∉ boundary) {bs : Bytes} :
    NoDelimiter boundary bs ↔ ((cutLines bs).all fun line =>
      (Delimiter.ofLine? boundary (Utf8.decodeLossy (dropLineBreak line))).isNone) = true := by
  rw [List.all_eq_true]
  constructor
  · intro h line hline
    rw [ofLine?_eq_none hb (h line hline)]
    rfl
  · intro h line hline kind hkind
    have hnone := h line hline
    rw [(ofLine?_decodeLossy_iff hb).mpr hkind] at hnone
    cases hnone

end

end HttpWire
