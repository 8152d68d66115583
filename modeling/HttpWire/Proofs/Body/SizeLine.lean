import HttpWire.Body.Chunked
import HttpWire.Proofs.Text.Ascii
import HttpWire.Proofs.Text.Hexadecimal

/-!
# Size lines

The line in front of a chunk says in hexadecimal digits how many octets the chunk has.
`AnnouncesSize` is the form of such a line, and `chunkSize_eq_ok_iff` says that the lines of this
form are read as the number that they write, and no others are read at all.

The number is built digit by digit, and each step checks that it still has 64 bits.  Since no number
so far is larger than the whole number, checking the steps is checking the whole.
-/

namespace HttpWire

/-! ### Digits -/

/-- One step adds a digit, as long as the number has 64 bits. -/
theorem chunkDigit_eq_ok_iff {line : Text} {start n : Nat} {c : Char} :
    chunkDigit line start c = .ok n ↔
      ∃ d, Text.hexValue? c = some d ∧ start * 16 + d = n ∧ n < UInt64.size := by
  unfold chunkDigit
  cases Text.hexValue? c with
  | none => simp
  | some d =>
    simp only [Option.some.injEq, exists_eq_left']
    by_cases hlt : start * 16 + d < UInt64.size
    · rw [if_pos hlt, Except.ok.injEq]
      constructor
      · rintro rfl
        exact ⟨rfl, hlt⟩
      · exact And.left
    · rw [if_neg hlt]
      constructor
      · intro h
        cases h
      · rintro ⟨rfl, h⟩
        exact absurd h hlt

/-- Digits are read, digit by digit, as the number that they write, if it has 64 bits. -/
theorem foldlM_chunkDigit_eq_ok_iff {line digits : Text} {start n : Nat}
    (hstart : start < UInt64.size) :
    digits.foldlM (chunkDigit line) start = .ok n ↔
      Text.hexNumberFrom? start digits = some n ∧ n < UInt64.size := by
  induction digits generalizing start with
  | nil =>
    constructor
    · intro h
      obtain rfl : start = n := Except.ok.inj h
      exact ⟨rfl, hstart⟩
    · rintro ⟨h, -⟩
      exact congrArg Except.ok (Option.some.inj h)
  | cons c digits ih =>
    rw [List.foldlM_cons, Text.hexNumberFrom?_cons_iff]
    constructor
    · intro h
      cases hc : chunkDigit line start c with
      | error e =>
        rw [hc] at h
        cases h
      | ok next =>
        rw [hc] at h
        obtain ⟨d, hd, rfl, hlt⟩ := chunkDigit_eq_ok_iff.mp hc
        obtain ⟨hrest, hn⟩ := (ih hlt).mp h
        exact ⟨⟨d, hd, hrest⟩, hn⟩
    · rintro ⟨⟨d, hd, hrest⟩, hn⟩
      -- The number so far is at most the whole number, so this step does not overflow.
      have hlt : start * 16 + d < UInt64.size :=
        Nat.lt_of_le_of_lt (Text.le_of_hexNumberFrom? hrest) hn
      rw [chunkDigit_eq_ok_iff.mpr ⟨d, hd, rfl, hlt⟩]
      exact (ih hlt).mpr ⟨hrest, hn⟩

/-! ### Lines -/

/-- A text that announces a size: hexadecimal digits, at least one, that write it; spaces and tabs;
and perhaps a semicolon with anything behind it. -/
inductive AnnouncesSize (size : Nat) : Text → Prop
  | intro {digits padding tail : Text} (hne : digits ≠ [])
    (hnumber : Text.hexNumberFrom? 0 digits = some size) (hsize : size < UInt64.size)
    (hpadding : ∀ c ∈ padding, c = ' ' ∨ c = '\t')
    (htail : tail = [] ∨ ∃ extension, tail = ';' :: extension) :
    AnnouncesSize size (digits ++ padding ++ tail)

/-- The part in front of the first semicolon. -/
theorem cutFirst_of_tail {head tail : Text} (hno : ∀ c ∈ head, (c == ';') = false)
    (htail : tail = [] ∨ ∃ extension, tail = ';' :: extension) :
    (cutFirst (· == ';') (head ++ tail)).1 = head := by
  rw [cutFirst]
  rcases htail with rfl | ⟨extension, rfl⟩
  · rw [List.append_nil, splitFirst_eq_none_iff.mpr hno]
  · rw [splitFirst_append_cons hno rfl]

theorem exists_tail_of_cutFirst (line : Text) :
    ∃ tail, line = (cutFirst (· == ';') line).1 ++ tail ∧
      (tail = [] ∨ ∃ extension, tail = ';' :: extension) := by
  rw [cutFirst]
  cases hs : splitFirst (· == ';') line with
  | none => exact ⟨[], (List.append_nil line).symm, .inl rfl⟩
  | some parts =>
    obtain ⟨before, sep, after⟩ := parts
    obtain ⟨hline, hsep, -⟩ := splitFirst_eq_some_iff.mp hs
    obtain rfl : sep = ';' := beq_iff_eq.mp hsep
    exact ⟨';' :: after, hline, .inr ⟨after, rfl⟩⟩

/-- Nothing in front of a semicolon is one. -/
theorem no_semicolon_of_digits {digits padding : Text} {size : Nat}
    (hnumber : Text.hexNumberFrom? 0 digits = some size)
    (hpadding : ∀ c ∈ padding, c = ' ' ∨ c = '\t') :
    ∀ c ∈ digits ++ padding, (c == ';') = false := by
  intro c hc
  rw [beq_eq_false_iff_ne]
  rcases List.mem_append.mp hc with hc | hc
  · obtain ⟨d, hd⟩ := Text.exists_hexValue?_of_mem hc hnumber
    exact (Text.hexDigit_ne hd).2.2.2.1
  · rcases hpadding c hc with rfl | rfl <;> decide

/-- The last digit is no padding, so trimming stops at it. -/
theorem trimPadding_digits {digits padding : Text} {size : Nat} (hne : digits ≠ [])
    (hnumber : Text.hexNumberFrom? 0 digits = some size)
    (hpadding : ∀ c ∈ padding, c = ' ' ∨ c = '\t') :
    Text.trimPadding (digits ++ padding) = digits := by
  have hspace : ∀ c ∈ padding, Text.isSpaceOrTab c = true :=
    fun c hc => Text.isSpaceOrTab_iff.mpr (hpadding c hc)
  rw [Text.trimPadding, Text.dropTrailing_append hspace]
  obtain ⟨front, last, rfl⟩ : ∃ front last, digits = front ++ [last] :=
    ⟨_, _, (List.dropLast_concat_getLast hne).symm⟩
  obtain ⟨d, hd⟩ := Text.exists_hexValue?_of_mem (c := last) (by simp) hnumber
  exact Text.dropTrailing_eq_self (Text.hexDigit_ne hd).2.2.2.2 front

/-- **A size is read from a line if and only if the line announces it.** -/
theorem chunkSize_eq_ok_iff {line : Text} {size : Nat} :
    chunkSize line = .ok size ↔ AnnouncesSize size line := by
  have hzero : 0 < UInt64.size := by decide
  constructor
  · intro h
    obtain ⟨tail, hline, htail⟩ := exists_tail_of_cutFirst line
    obtain ⟨padding, hhead, hpadding⟩ :=
      Text.exists_dropTrailing_append (p := Text.isSpaceOrTab) (cutFirst (· == ';') line).1
    obtain ⟨digits, hdigits⟩ :
        ∃ digits, digits = Text.trimPadding (cutFirst (· == ';') line).1 := ⟨_, rfl⟩
    have hwhole : line = digits ++ padding ++ tail := by
      rw [hdigits, Text.trimPadding, ← hhead]
      exact hline
    simp only [chunkSize, ← hdigits] at h
    by_cases hempty : digits.isEmpty = true
    · rw [if_pos hempty] at h
      cases h
    · rw [if_neg hempty, foldlM_chunkDigit_eq_ok_iff hzero] at h
      have hne : digits ≠ [] := fun hnil => hempty (List.isEmpty_iff.mpr hnil)
      rw [hwhole]
      exact .intro hne h.1 h.2 (fun c hc => Text.isSpaceOrTab_iff.mp (hpadding c hc)) htail
  · rintro ⟨hne, hnumber, hsize, hpadding, htail⟩
    have hno := no_semicolon_of_digits hnumber hpadding
    rw [chunkSize, cutFirst_of_tail hno htail, trimPadding_digits hne hnumber hpadding,
      if_neg (by simpa using hne)]
    exact (foldlM_chunkDigit_eq_ok_iff hzero).mpr ⟨hnumber, hsize⟩

namespace AnnouncesSize

variable {size : Nat} {t : Text}

/-- A carriage return at the end of such a line belongs to what stands behind the semicolon, and the
line announces the same without it. -/
theorem of_concat_return (h : AnnouncesSize size (t ++ ['\r'])) : AnnouncesSize size t := by
  generalize hu : t ++ ['\r'] = u at h
  obtain ⟨hne, hnumber, hsize, hpadding, htail⟩ := h
  next digits padding tail =>
  have hno : '\r' ∉ digits ++ padding := by
    intro hmem
    rcases List.mem_append.mp hmem with hmem | hmem
    · obtain ⟨d, hd⟩ := Text.exists_hexValue?_of_mem hmem hnumber
      exact (Text.hexDigit_ne hd).2.1 rfl
    · exact absurd (hpadding _ hmem) (by decide)
  rcases htail with rfl | ⟨extension, rfl⟩
  · refine absurd ?_ hno
    rw [List.append_nil] at hu
    rw [← hu]
    exact List.mem_append_right _ (List.mem_singleton.mpr rfl)
  · have hlast : (';' :: extension).getLast? = some '\r' := by
      have h := congrArg List.getLast? hu
      rw [List.getLast?_concat, List.getLast?_append] at h
      cases hext : (';' :: extension).getLast? with
      | none => exact absurd (List.getLast?_eq_none_iff.mp hext) (List.cons_ne_nil _ _)
      | some last =>
        rw [hext] at h
        exact h.symm
    obtain ⟨front, hfront⟩ := List.getLast?_eq_some_iff.mp hlast
    rw [hfront, ← List.append_assoc] at hu
    obtain rfl := List.append_cancel_right hu
    refine .intro hne hnumber hsize hpadding ?_
    cases front with
    | nil => exact absurd (List.cons.inj hfront).1 (by decide)
    | cons c front =>
      obtain rfl : ';' = c := (List.cons.inj hfront).1
      exact .inr ⟨front, rfl⟩

end AnnouncesSize

end HttpWire
