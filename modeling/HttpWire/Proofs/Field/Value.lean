import HttpWire.Field.Value
import HttpWire.Proofs.Text.Ascii
import HttpWire.Proofs.Text.Split

/-!
# What field values say

A value says a text if the text is visible ASCII and the value has its octets (`FieldValue.Says`).
Such a value reads as its text, and no other value reads as one (`text?_eq_some_iff`).  White space
in it is spaces and tabs, and trimming takes off what surrounds a word (`Text.Surrounds`).

Values are often lists with a separator between the items (`Separated`).  There is one such way to
read a list (`separated_iff`).
-/

namespace HttpWire

/-- Only visible ASCII, spaces and tabs. -/
def Text.IsVisible (t : Text) : Prop :=
  ∀ c ∈ t, c = '\t' ∨ 0x20 ≤ c.toNat ∧ c.toNat ≤ 0x7E

instance (t : Text) : Decidable t.IsVisible :=
  List.decidableBAll _ t

theorem Text.IsVisible.isAscii {t : Text} (h : t.IsVisible) : t.IsAscii := by
  intro c hc
  rcases h c hc with rfl | ⟨-, hhigh⟩
  · decide
  · omega

/-- A value consists of the octets of a visible text. -/
def FieldValue.Says (v : FieldValue) (t : Text) : Prop :=
  t.IsVisible ∧ v.bytes = Utf8.encode t

namespace FieldValue

variable {v : FieldValue} {t : Text}

/-- An octet of visible text is the tab or between the space and the tilde. -/
theorem isVisible_octet_iff {b : UInt8} :
    (b == 0x09 || (0x20 ≤ b && b ≤ 0x7E)) = true ↔
      b.toNat = 0x09 ∨ 0x20 ≤ b.toNat ∧ b.toNat ≤ 0x7E := by
  rw [Bool.or_eq_true, Bool.and_eq_true, beq_iff_eq, decide_eq_true_eq, decide_eq_true_eq,
    UInt8.le_iff_toNat_le, UInt8.le_iff_toNat_le, ← UInt8.toNat_inj]
  rfl

/-- The octets of a visible text are visible. -/
theorem visible_encode (ht : t.IsVisible) {b : UInt8} (hb : b ∈ Utf8.encode t) :
    b.toNat = 0x09 ∨ 0x20 ≤ b.toNat ∧ b.toNat ≤ 0x7E := by
  rw [Utf8.encode_of_ascii ht.isAscii, List.mem_map] at hb
  obtain ⟨c, hc, rfl⟩ := hb
  rw [Utf8.toNat_ofNat_of_ascii (ht.isAscii c hc)]
  rcases ht c hc with rfl | h
  · exact .inl rfl
  · exact .inr h

/-- The value that says a visible text. -/
def ofVisible (t : Text) (ht : t.IsVisible) : FieldValue where
  bytes := Utf8.encode t
  valid := by
    rw [List.all_eq_true]
    intro b hb
    have hb := visible_encode ht hb
    rw [Bool.or_eq_true, Bool.and_eq_true, beq_iff_eq, decide_eq_true_eq, bne_iff_ne, Ne,
      ← UInt8.toNat_inj, ← UInt8.toNat_inj, UInt8.le_iff_toNat_le]
    simp only [UInt8.reduceToNat]
    omega

/-- **A value reads as the text that it says**, and as none if it says none. -/
theorem text?_eq_some_iff : v.text? = some t ↔ v.Says t := by
  constructor
  · intro h
    rw [text?, Option.ite_none_right_eq_some] at h
    obtain ⟨hvisible, hread⟩ := h
    rw [Utf8.decodeAscii?, Option.ite_none_right_eq_some] at hread
    obtain ⟨hlow, hread⟩ := hread
    obtain rfl := Option.some.inj hread
    have hlow' : ∀ b ∈ v.bytes, b < 0x80 := fun b hb =>
      of_decide_eq_true (List.all_eq_true.mp hlow b hb)
    refine ⟨fun c hc => ?_, (Utf8.encode_of_octets hlow').2.symm⟩
    obtain ⟨b, hb, rfl⟩ := List.mem_map.mp hc
    have hlt : b.toNat < 0x80 := UInt8.lt_iff_toNat_lt.mp (hlow' b hb)
    have hchar : (Char.ofNat b.toNat).toNat = b.toNat := Utf8.toNat_ofNat (.inl (by omega))
    rw [← Char.toNat_inj, hchar]
    exact isVisible_octet_iff.mp (List.all_eq_true.mp hvisible b hb)
  · rintro ⟨hvisible, hbytes⟩
    rw [text?, hbytes, if_pos, Utf8.decodeAscii?_encode hvisible.isAscii]
    rw [List.all_eq_true]
    intro b hb
    exact isVisible_octet_iff.mpr (visible_encode hvisible hb)

end FieldValue

/-! ### Words -/

/-- A text is a word with spaces and tabs around it, none of them at an end of the word. -/
structure Text.Surrounds (word t : Text) : Prop where
  written : ∃ before after, t = before ++ word ++ after ∧
    ∀ c ∈ before ++ after, c = ' ' ∨ c = '\t'
  first : ∀ c ∈ word.head?, c ≠ ' ' ∧ c ≠ '\t'
  last : ∀ c ∈ word.getLast?, c ≠ ' ' ∧ c ≠ '\t'

namespace Text

variable {word t : Text}

/-- Visible white space is a space or a tab. -/
theorem IsVisible.isBlank_iff (ht : t.IsVisible) {c : Char} (hc : c ∈ t) :
    isBlank c = true ↔ c = ' ' ∨ c = '\t' := by
  rw [← Char.toNat_inj, ← Char.toNat_inj]
  show _ ↔ c.toNat = 0x20 ∨ c.toNat = 0x09
  have hvisible := ht c hc
  rw [← Char.toNat_inj] at hvisible
  change c.toNat = 0x09 ∨ _ at hvisible
  simp only [isBlank, Bool.or_eq_true, Bool.and_eq_true, decide_eq_true_eq, beq_iff_eq]
  omega

/-- **Trimming a visible text leaves the word in it.** -/
theorem IsVisible.trim_eq_iff (ht : t.IsVisible) : trim t = word ↔ Surrounds word t := by
  rw [Text.trim_eq_iff, trim_eq_self_iff]
  have hbare {c : Char} (hc : c ∈ t) : isBlank c = false ↔ c ≠ ' ' ∧ c ≠ '\t' := by
    rw [← Bool.not_eq_true, ht.isBlank_iff hc, not_or]
  have hmem {before after : Text} {c : Char} (h : t = before ++ word ++ after)
      (hc : c ∈ before ∨ c ∈ word ∨ c ∈ after) : c ∈ t := by
    rw [h, List.append_assoc, List.mem_append, List.mem_append]
    exact hc
  constructor
  · rintro ⟨⟨hfirst, hlast⟩, before, after, hwritten, hbefore, hafter⟩
    refine ⟨⟨before, after, hwritten, fun c hc => ?_⟩, fun c hc => ?_, fun c hc => ?_⟩
    · rcases List.mem_append.mp hc with hc | hc
      · exact (ht.isBlank_iff (hmem hwritten (.inl hc))).mp (hbefore c hc)
      · exact (ht.isBlank_iff (hmem hwritten (.inr (.inr hc)))).mp (hafter c hc)
    · exact (hbare (hmem hwritten (.inr (.inl (List.mem_of_head? hc))))).mp (hfirst c hc)
    · exact (hbare (hmem hwritten (.inr (.inl (List.mem_of_getLast? hc))))).mp (hlast c hc)
  · rintro ⟨⟨before, after, hwritten, hpadding⟩, hfirst, hlast⟩
    refine ⟨⟨fun c hc => ?_, fun c hc => ?_⟩, before, after, hwritten, fun c hc => ?_,
      fun c hc => ?_⟩
    · exact (hbare (hmem hwritten (.inr (.inl (List.mem_of_head? hc))))).mpr (hfirst c hc)
    · exact (hbare (hmem hwritten (.inr (.inl (List.mem_of_getLast? hc))))).mpr (hlast c hc)
    · exact (ht.isBlank_iff (hmem hwritten (.inl hc))).mpr
        (hpadding c (List.mem_append_left _ hc))
    · exact (ht.isBlank_iff (hmem hwritten (.inr (.inr hc)))).mpr
        (hpadding c (List.mem_append_right _ hc))

end Text

/-! ### Items between separators -/

/-- Items stand in a list with a separator between them. -/
inductive Separated {α : Type} (sep : α) : List (List α) → List α → Prop
  | last {item : List α} (h : sep ∉ item) : Separated sep [item] item
  | more {item l : List α} {items : List (List α)} (h : sep ∉ item) (hl : Separated sep items l) :
    Separated sep (item :: items) (item ++ sep :: l)

section

variable {α : Type} [BEq α] [LawfulBEq α] {sep : α} {items : List (List α)} {l : List α}

theorem separated_splitOn (sep : α) (l : List α) : Separated sep (l.splitOn sep) l := by
  induction l with
  | nil => exact .last List.not_mem_nil
  | cons a l ih =>
    rw [List.splitOn_cons_eq_if_modifyHead]
    by_cases ha : a = sep
    · rw [ha, if_pos (BEq.refl sep)]
      exact .more List.not_mem_nil ih
    · rw [if_neg (by simpa using ha)]
      -- The first item of the rest becomes longer by one.
      have hcons {item : List α} (h : sep ∉ item) : sep ∉ a :: item := by
        rw [List.mem_cons, not_or]
        exact ⟨Ne.symm ha, h⟩
      generalize l.splitOn sep = items at ih
      cases ih with
      | last h => exact .last (hcons h)
      | more h hl => exact .more (hcons h) hl

omit [BEq α] [LawfulBEq α] in
/-- An item has elements of the list only. -/
theorem Separated.mem_of_mem (h : Separated sep items l) {item : List α} (hitem : item ∈ items)
    {a : α} (ha : a ∈ item) : a ∈ l := by
  induction h with
  | last _ =>
    obtain rfl := List.mem_singleton.mp hitem
    exact ha
  | more _ _ ih =>
    rcases List.mem_cons.mp hitem with rfl | hitem
    · exact List.mem_append_left _ ha
    · exact List.mem_append_right _ (List.mem_cons_of_mem _ (ih hitem))

/-- **A list is cut into the items that stand in it**, and into no others. -/
theorem separated_iff : Separated sep items l ↔ l.splitOn sep = items := by
  constructor
  · intro h
    induction h with
    | last h => exact List.splitOn_eq_singleton h
    | more h _ ih => rw [List.splitOn_append_cons_self_of_not_mem h, ih]
  · rintro rfl
    exact separated_splitOn sep l

end

end HttpWire
