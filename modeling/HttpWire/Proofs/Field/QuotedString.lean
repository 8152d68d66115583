import Mathlib.Data.List.TakeWhile
import HttpWire.Field.QuotedString
import HttpWire.Proofs.Text.Utf8

/-!
# What is read as a quoted string

`Spells` is what may stand between the quotes: characters, each of which may have a backslash in
front of it, and a quote and a backslash must.  A reader passes over it and goes on with what stands
behind (`readInside_append`), and every text is such an inside up to a quote, to a backslash at its
end, or to its end (`exists_spells`).  So there are three ways in which the inside of a quoted
string can end, and a text with white space in front of its quote has one of them
(`readIndexed_classifies`).
-/

namespace HttpWire.QuotedString

variable {t inside said behind blank text : Text} {index : Nat} {fault : HeaderFault}

/-! ### The inside -/

/-- The inside of a quoted string, and what it says: any characters, a quote and a backslash behind
a backslash, and the others with or without one. -/
inductive Spells : Text → Text → Prop
  | nil : Spells [] []
  | plain {c : Char} {inside said : Text} (hquote : c ≠ '"') (hbackslash : c ≠ '\\')
    (h : Spells inside said) : Spells (c :: inside) (c :: said)
  | escaped (c : Char) {inside said : Text} (h : Spells inside said) :
    Spells ('\\' :: c :: inside) (c :: said)

theorem readInside_plain {c : Char} (hquote : c ≠ '"') (hbackslash : c ≠ '\\') (rest : Text) :
    readInside (c :: rest) =
      (readInside rest).map fun (said, behind) => (c :: said, behind) := by
  rw [readInside]
  · exact hquote
  · intro h _
    exact hbackslash h
  · intro _ _ h _
    exact hbackslash h

/-- What has been spelled is read, and then what stands behind it. -/
theorem readInside_append (h : Spells inside said) (rest : Text) :
    readInside (inside ++ rest) =
      (readInside rest).map fun (more, behind) => (said ++ more, behind) := by
  induction h with
  | nil =>
    rw [List.nil_append]
    cases readInside rest <;> rfl
  | plain hquote hbackslash h ih =>
    rw [List.cons_append, readInside_plain hquote hbackslash, ih]
    cases readInside rest <;> rfl
  | escaped c h ih =>
    rw [List.cons_append, List.cons_append, readInside, ih]
    cases readInside rest <;> rfl

/-- What may stand behind an inside that cannot go on: nothing, a backslash with nothing behind it,
or a quote. -/
inductive Ending : Text → Prop
  | unclosed : Ending []
  | dangling : Ending ['\\']
  | closed (behind : Text) : Ending ('"' :: behind)

/-- Every text is an inside as far as it can go. -/
theorem exists_spells (t : Text) :
    ∃ inside said rest, Spells inside said ∧ Ending rest ∧ t = inside ++ rest := by
  fun_induction readInside t with
  | case1 => exact ⟨[], [], [], .nil, .unclosed, rfl⟩
  | case2 behind => exact ⟨[], [], _, .nil, .closed behind, rfl⟩
  | case3 => exact ⟨[], [], _, .nil, .dangling, rfl⟩
  | case4 c rest ih =>
    obtain ⟨inside, said, ending, hinside, hending, rfl⟩ := ih
    exact ⟨_, _, ending, .escaped c hinside, hending, rfl⟩
  | case5 c rest hquote hdangling hescape ih =>
    obtain ⟨inside, said, ending, hinside, hending, rfl⟩ := ih
    have hbackslash : c ≠ '\\' := by
      rintro rfl
      cases hr : inside ++ ending with
      | nil => exact hdangling rfl hr
      | cons b rest => exact hescape b rest rfl hr
    exact ⟨_, _, ending, .plain hquote hbackslash hinside, hending, rfl⟩

/-- What is written for a text is an inside that says it. -/
theorem spells_escaped (t : Text) :
    Spells (t.flatMap fun c => if c = '"' || c = '\\' then ['\\', c] else [c]) t := by
  induction t with
  | nil => exact .nil
  | cons c t ih =>
    rw [List.flatMap_cons]
    by_cases hc : c = '"' ∨ c = '\\'
    · rw [if_pos (by simpa using hc)]
      exact .escaped c ih
    · obtain ⟨hquote, hbackslash⟩ := not_or.mp hc
      rw [if_neg (by simpa using hc)]
      exact .plain hquote hbackslash ih

/-! ### White space in front -/

theorem read_append (hblank : ∀ c ∈ blank, Text.isBlank c = true) (t : Text) :
    read (blank ++ t) = read t := by
  rw [read, read, List.dropWhile_append_of_pos hblank]

/-- Behind a quote the inside is read. -/
theorem read_quote (t : Text) :
    read ('"' :: t) = (readInside t).map fun (said, behind) => .quoted said behind := by
  have hquote : Text.isBlank '"' = false := by decide
  rw [read, List.dropWhile_cons_of_neg (by simp [hquote])]
  rfl

/-- There is no quoted string at the start of a text if something else than a quote comes first. -/
theorem read_eq_plain (h : (t.dropWhile Text.isBlank).head? ≠ some '"') : read t = .ok .plain := by
  rw [read]
  split
  · next hq => simp [hq] at h
  · rfl

/-- **A quoted string is read back from what is written for it**, and what stands behind it is
left. -/
theorem read_encode (t rest : Text) : read (encode t ++ rest) = .ok (.quoted t rest) := by
  rw [encode, List.append_assoc, List.cons_append, read_quote, readInside_append (spells_escaped t)]
  show Except.ok (Opening.quoted (t ++ []) rest) = _
  rw [List.append_nil]

/-! ### What stands at the start of a text -/

/-- A text begins, behind white space, with a quoted string that says `said` and has its closing
quote at the octet `index`. -/
inductive BeginsQuoted : Text → Text → Nat → Prop
  | intro {blank inside said : Text} (hblank : ∀ c ∈ blank, Text.isBlank c = true)
    (hinside : Spells inside said) (behind : Text) :
    BeginsQuoted (blank ++ '"' :: inside ++ '"' :: behind) said (Utf8.size (blank ++ '"' :: inside))

/-- A text begins, behind white space, with a quoted string that has no closing quote. -/
inductive BreaksOff : Text → HeaderFault → Prop
  | unclosed {blank inside said : Text} (hblank : ∀ c ∈ blank, Text.isBlank c = true)
    (hinside : Spells inside said) : BreaksOff (blank ++ '"' :: inside) .unclosedQuote
  | dangling {blank inside said : Text} (hblank : ∀ c ∈ blank, Text.isBlank c = true)
    (hinside : Spells inside said) : BreaksOff (blank ++ '"' :: inside ++ ['\\']) .danglingEscape

/-- A text begins with a quoted string, with one that has no closing quote, or with none. -/
theorem beginning_cases (text : Text) :
    text.find? (!Text.isBlank ·) ≠ some '"' ∨ (∃ said index, BeginsQuoted text said index) ∨
      ∃ fault, BreaksOff text fault := by
  by_cases hquote : text.find? (!Text.isBlank ·) = some '"'
  · right
    obtain ⟨-, blank, rest, rfl, hblank⟩ := List.find?_eq_some_iff_append.mp hquote
    have hblank : ∀ c ∈ blank, Text.isBlank c = true := fun c hc => by simpa using hblank c hc
    obtain ⟨inside, said, ending, hinside, hending, rfl⟩ := exists_spells rest
    rw [← List.cons_append, ← List.append_assoc]
    cases hending with
    | unclosed =>
      rw [List.append_nil]
      exact .inr ⟨_, .unclosed hblank hinside⟩
    | dangling => exact .inr ⟨_, .dangling hblank hinside⟩
    | closed behind => exact .inl ⟨said, _, .intro hblank hinside behind⟩
  · exact .inl hquote

/-- Without a quoted string the text is handed out as it is. -/
theorem readIndexed_of_unquoted (h : text.find? (!Text.isBlank ·) ≠ some '"') :
    readIndexed text = .ok (text, none) := by
  rw [List.find?_not_eq_head?_dropWhile] at h
  rw [readIndexed, read_eq_plain h]
  rfl

/-- What a quoted string says is handed out with the place of its closing quote. -/
theorem readIndexed_of_beginsQuoted (h : BeginsQuoted text said index) :
    readIndexed text = .ok (said, some index) := by
  obtain @⟨blank, inside, said, hblank, hinside, behind⟩ := h
  have hread : read (blank ++ '"' :: inside ++ '"' :: behind) = .ok (.quoted said behind) := by
    rw [List.append_assoc, read_append hblank, List.cons_append, read_quote,
      readInside_append hinside]
    show Except.ok (Opening.quoted (said ++ []) behind) = _
    rw [List.append_nil]
  -- The closing quote is one octet, and what stands behind it is the rest.
  have hplace : Utf8.size (blank ++ '"' :: inside ++ '"' :: behind) - Utf8.size behind - 1 =
      Utf8.size (blank ++ '"' :: inside) := by
    have hquote : Utf8.size ('"' :: behind) = 1 + Utf8.size behind := Utf8.size_append ['"'] behind
    rw [Utf8.size_append _ ('"' :: behind), hquote]
    omega
  rw [readIndexed, hread]
  exact congrArg (fun place => Except.ok (said, some place)) hplace

/-- Without a closing quote there is no answer. -/
theorem readIndexed_of_breaksOff (h : BreaksOff text fault) :
    readIndexed text = .error fault := by
  cases h with
  | @unclosed blank inside said hblank hinside =>
    rw [readIndexed, read_append hblank, read_quote, ← List.append_nil inside,
      readInside_append hinside]
    rfl
  | @dangling blank inside said hblank hinside =>
    rw [readIndexed, List.append_assoc, read_append hblank, List.cons_append, read_quote,
      readInside_append hinside]
    rfl

/-- What is made of a text by its beginning. -/
inductive ReadAs (text : Text) : Except HeaderFault (Text × Option Nat) → Prop
  | unquoted (h : text.find? (!Text.isBlank ·) ≠ some '"') : ReadAs text (.ok (text, none))
  | quoted {said : Text} {index : Nat} (h : BeginsQuoted text said index) :
    ReadAs text (.ok (said, some index))
  | refused {fault : HeaderFault} (h : BreaksOff text fault) : ReadAs text (.error fault)

theorem readIndexed_eq_iff {answer : Except HeaderFault (Text × Option Nat)} :
    readIndexed text = answer ↔ ReadAs text answer := by
  have hread {answer} (h : ReadAs text answer) : readIndexed text = answer := by
    cases h with
    | unquoted h => exact readIndexed_of_unquoted h
    | quoted h => exact readIndexed_of_beginsQuoted h
    | refused h => exact readIndexed_of_breaksOff h
  refine ⟨?_, hread⟩
  rintro rfl
  -- A text begins in one of the three ways, and is read accordingly.
  obtain ⟨answer, h⟩ : ∃ answer, ReadAs text answer := by
    rcases beginning_cases text with h | ⟨said, index, h⟩ | ⟨fault, h⟩
    · exact ⟨_, .unquoted h⟩
    · exact ⟨_, .quoted h⟩
    · exact ⟨_, .refused h⟩
  rw [hread h]
  exact h

/-- A quoted string that is written behind white space is one. -/
theorem beginsQuoted_encode (hblank : ∀ c ∈ blank, Text.isBlank c = true) (said behind : Text) :
    BeginsQuoted (blank ++ encode said ++ behind) said (Utf8.size (blank ++ encode said) - 1) := by
  have hquote : Utf8.size ['"'] = 1 := by decide
  have h := BeginsQuoted.intro hblank (spells_escaped said) behind
  rw [encode, ← List.append_assoc, Utf8.size_append _ ['"'], hquote, Nat.add_sub_cancel]
  rwa [List.append_assoc _ ['"'], List.singleton_append]

/-- **What is read as a quoted string, and what is written as one.**  A text is read as a quoted
string, with the place of its closing quote, if and only if it begins with one behind white space;
it is left as it is if and only if its first character other than white space is missing or is not a
quote; and otherwise, where a quoted string begins and does not end, it is refused.  A quoted string
that is written for a text is read as that text, with its last octet as the place of its closing
quote, whatever white space stands in front of it and whatever text behind. -/
theorem readIndexed_classifies :
    (∀ text said index,
        readIndexed text = .ok (said, some index) ↔ BeginsQuoted text said index) ∧
      (∀ text said, readIndexed text = .ok (said, none) ↔
        said = text ∧ text.find? (!Text.isBlank ·) ≠ some '"') ∧
      (∀ text fault, readIndexed text = .error fault ↔ BreaksOff text fault) ∧
      (∀ text, (∃ fault, readIndexed text = .error fault) ↔
        text.find? (!Text.isBlank ·) = some '"' ∧ ∀ said index, ¬ BeginsQuoted text said index) ∧
      ∀ said blank behind, (∀ c ∈ blank, Text.isBlank c = true) →
        readIndexed (blank ++ encode said ++ behind) =
          .ok (said, some (Utf8.size (blank ++ encode said) - 1)) := by
  refine ⟨?_, ?_, ?_, ?_, ?_⟩
  · intro text said index
    rw [readIndexed_eq_iff]
    constructor
    · intro h
      cases h with
      | quoted h => exact h
    · exact .quoted
  · intro text said
    rw [readIndexed_eq_iff]
    constructor
    · intro h
      cases h with
      | unquoted h => exact ⟨rfl, h⟩
    · rintro ⟨rfl, h⟩
      exact .unquoted h
  · intro text fault
    rw [readIndexed_eq_iff]
    constructor
    · intro h
      cases h with
      | refused h => exact h
    · exact .refused
  · intro text
    constructor
    · rintro ⟨fault, h⟩
      refine ⟨?_, ?_⟩
      · by_contra hplain
        rw [readIndexed_of_unquoted hplain] at h
        cases h
      · intro said index hbegins
        rw [readIndexed_of_beginsQuoted hbegins] at h
        cases h
    · rintro ⟨hquote, hno⟩
      rcases beginning_cases text with hplain | ⟨said, index, hbegins⟩ | ⟨fault, hbreaks⟩
      · exact absurd hquote hplain
      · exact absurd hbegins (hno said index)
      · exact ⟨fault, readIndexed_of_breaksOff hbreaks⟩
  · intro said blank behind hblank
    exact readIndexed_of_beginsQuoted (beginsQuoted_encode hblank said behind)

/-- White space of three octets, an escape that is not needed, one that is, a character of two
octets and a quote behind the closing one; and a text with a quote and a backslash, written behind
the same white space and read back. -/
theorem readIndexed_classifies_awkward :
    let blank : Text := ['\u3000']
    let text : Text := "\u3000\"\\a\\\"é\" \"".toList
    let said : Text := "\\ é\"".toList
    (BeginsQuoted text "a\"é".toList 10 ∧ readIndexed text = .ok ("a\"é".toList, some 10)) ∧
      (∀ c ∈ blank, Text.isBlank c = true) ∧
        readIndexed (blank ++ encode said ++ ['"']) = .ok (said, some 11) := by
  intro blank text said
  have hblank : ∀ c ∈ blank, Text.isBlank c = true := List.forall_mem_singleton.mpr rfl
  have hinside : Spells "\\a\\\"é".toList "a\"é".toList :=
    .escaped 'a' (.escaped '"' (.plain (by decide) (by decide) .nil))
  have hbegins : BeginsQuoted text "a\"é".toList 10 := .intro hblank hinside " \"".toList
  have hplace : Utf8.size (blank ++ encode said) - 1 = 11 := by decide
  refine ⟨⟨hbegins, (readIndexed_classifies.1 ..).mpr hbegins⟩, hblank, ?_⟩
  rw [← hplace]
  exact readIndexed_classifies.2.2.2.2 said blank ['"'] hblank

end HttpWire.QuotedString
