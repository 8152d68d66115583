import HttpWire.Proofs.Field.Block
import HttpWire.Proofs.Field.Value
import HttpWire.Proofs.Headers

/-!
# Header blocks on the wire

A header line has a name in any letter case, a colon, and a value of visible ASCII and tabs with
white space around it.  A block is header lines and an empty line.  It is read as the fields
in their order (`HeaderLine.readBlock_eq`), and looking a name up among them finds the value of the
first line that bears the name (`HeaderLine.get?_headers`).

The white space is that of ASCII without the line feed.  A carriage return may be part of it, even
the last one in front of the end of the line, since what is lost there is taken off anyway.
-/

namespace HttpWire

/-- Only white space of ASCII that does not end a line. -/
def Text.IsPadding (t : Text) : Prop :=
  ∀ c ∈ t, isBlank c = true ∧ c.toNat < 0x80 ∧ c ≠ '\n'

instance (t : Text) : Decidable t.IsPadding :=
  List.decidableBAll _ t

/-- A line in which a name is written, in any letter case. -/
structure HeaderLine where
  name : FieldName
  spelling : Text
  spelled : Text.lower spelling = name.text
  /-- What stands between the colon and the value. -/
  before : Text
  value : Text
  /-- What stands behind the value. -/
  after : Text
  padding : Text.IsPadding (before ++ after)
  visible : value.IsVisible
  trimmed : Text.trim value = value
  ending : LineEnd

namespace HeaderLine

variable (l : HeaderLine)

/-! ### The field -/

/-- The value of the field. -/
def fieldValue : FieldValue :=
  .ofVisible l.value l.visible

theorem says_fieldValue : l.fieldValue.Says l.value :=
  ⟨l.visible, rfl⟩

theorem textLossy_fieldValue : l.fieldValue.textLossy = l.value :=
  Utf8.decodeLossy_encode l.value

/-- The field that the line writes. -/
def field : Field :=
  ⟨l.name, l.fieldValue⟩

/-! ### The line -/

/-- The text of the line. -/
def text : Text :=
  l.spelling ++ ':' :: (l.before ++ l.value ++ l.after)

/-- The octets of the line. -/
def octets : Bytes :=
  Utf8.encode l.text ++ l.ending.octets

/-- A character whose small form may stand in a token is one of ASCII. -/
theorem isAscii_spelling {c : Char} (hc : c ∈ l.spelling) : c.toNat < 0x80 := by
  have hlt := toNat_lt_of_isTokenChar (FieldName.isTokenChar_toLower l.spelled hc)
  rw [Text.toNat_toLower] at hlt
  split at hlt <;> omega

theorem lineOf (charset : LineCharset) : LineOf charset l.text l.octets := by
  have hpadding {c : Char} (hc : c ∈ l.before ∨ c ∈ l.after) := l.padding c (List.mem_append.mpr hc)
  have hmem {c : Char} (hc : c ∈ l.text) :
      c ∈ l.spelling ∨ c = ':' ∨ (c ∈ l.before ∨ c ∈ l.after) ∨ c ∈ l.value := by
    simp only [text, List.mem_append, List.mem_cons] at hc
    tauto
  refine .intro l.ending (fun _ c hc => ?_) fun hc => ?_
  · rcases hmem hc with hc | rfl | hc | hc
    · exact l.isAscii_spelling hc
    · decide
    · exact (hpadding hc).2.1
    · exact l.visible.isAscii c hc
  · rcases hmem hc with hc | hc | hc | hc
    · exact FieldName.ne_of_mem_spelling l.spelled hc (by decide) rfl
    · cases hc
    · exact (hpadding hc).2.2 rfl
    · exact absurd (l.visible _ hc) (by decide)

/-- The field is written in the line. -/
theorem writtenIn : l.field.WrittenIn l.text := by
  have htrim : Text.trim (l.before ++ l.value ++ l.after) = l.value :=
    Text.trim_surrounded (fun c hc => (l.padding c (List.mem_append_left _ hc)).1)
      (fun c hc => (l.padding c (List.mem_append_right _ hc)).1) l.trimmed
  exact ⟨l.spelling, _, rfl, l.spelled, congrArg Utf8.encode htrim⟩

/-- A line as it is mostly written, with one space in front of the value and nothing behind it. -/
def spaced (name : FieldName) (spelling value : Text) (ending : LineEnd)
    (spelled : Text.lower spelling = name.text) (visible : value.IsVisible)
    (trimmed : Text.trim value = value) : HeaderLine where
  name
  spelling
  spelled
  before := " ".toList
  value
  after := []
  padding := by decide
  visible
  trimmed
  ending

/-! ### Blocks -/

/-- The octets of header lines and of the empty line behind them. -/
def blockOctets (lines : List HeaderLine) (ending : LineEnd) : Bytes :=
  lines.flatMap octets ++ (WireLine.empty ending).octets

/-- The fields that header lines write. -/
def headers (lines : List HeaderLine) : Headers :=
  ⟨lines.map field⟩

/-- The lines are a block. -/
theorem blockOf (charset : LineCharset) (lines : List HeaderLine) (ending : LineEnd) :
    BlockOf charset (lines.map field) (blockOctets lines ending) := by
  induction lines with
  | nil => exact .done ((WireLine.empty ending).lineOf charset)
  | cons l lines ih =>
    rw [blockOctets, List.flatMap_cons, List.append_assoc, ← blockOctets]
    exact .field (l.lineOf charset) l.writtenIn ih

/-- A block is read to its end, line by line, and adds its fields in their order. -/
theorem readBlock_eq {lines : List HeaderLine} {ending : LineEnd} {y : Bytes} {f : FlatReader}
    (taken : Nat) (h : Headers) (hf : f.rest = blockOctets lines ending ++ y) :
    ∃ length last, Headers.readBlock taken h f =
      (.ok length, ⟨h.fields ++ lines.map field⟩, { f with rest := y, lastTaken := last }) := by
  obtain ⟨last, hread⟩ := readBlock_of_blockOf (blockOf f.charset lines ending) hf taken h
  exact ⟨_, last, hread⟩

/-! ### Looking up -/

/-- The value in the first line that bears a name. -/
def first? (name : FieldName) (lines : List HeaderLine) : Option Text :=
  (lines.find? fun l => l.name = name).map value

/-- The first field of a name is that of the first line that bears it. -/
theorem get?_headers (name : FieldName) (lines : List HeaderLine) :
    (headers lines).get? name = (lines.find? fun l => l.name = name).map fieldValue := by
  rw [headers, Headers.get?_eq_find?, List.find?_map, Option.map_map]
  rfl

theorem get?_eq_none {name : FieldName} {lines : List HeaderLine} (h : first? name lines = none) :
    (headers lines).get? name = none := by
  rw [first?, Option.map_eq_none_iff] at h
  rw [get?_headers, h, Option.map_none]

/-- A name that is found has the value of its line, which reads as text. -/
theorem exists_get?_eq {name : FieldName} {lines : List HeaderLine} {t : Text}
    (h : first? name lines = some t) :
    ∃ v, (headers lines).get? name = some v ∧ v.Says t ∧ v.textLossy = t := by
  rw [first?, Option.map_eq_some_iff] at h
  obtain ⟨l, hl, rfl⟩ := h
  exact ⟨l.fieldValue, by rw [get?_headers, hl, Option.map_some], l.says_fieldValue,
    l.textLossy_fieldValue⟩

end HeaderLine

end HttpWire
