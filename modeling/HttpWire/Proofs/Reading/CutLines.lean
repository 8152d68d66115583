import HttpWire.Proofs.Message.Line

/-!
# Octets cut into lines

`cutLines` cuts octets behind every line feed, so nothing is lost, and the last line is the only one
that may be without an end.  Behind some of the lines there are the others (`cutLines_behind`).  A
reader in UTF-8 takes one line after the other (`FirstLine.readLine_eq`), and what may be said of
octets line by line is proved line by line (`line_induction`).

Octets that are empty or end in a line feed (`EndsLine`) are whole lines: what follows them changes
none of them (`FirstLine.append`), and begins a line of its own.
-/

namespace HttpWire

/-- The octets cut behind every line feed. -/
def cutLines : Bytes → List Bytes
  | [] => []
  | b :: bs =>
    if b = lineFeed then [b] :: cutLines bs
    else
      match cutLines bs with
      | [] => [[b]]
      | line :: lines => (b :: line) :: lines

/-- Octets are the first line of those that they stand in front of. -/
inductive FirstLine : Bytes → Bytes → Prop
  | ended {before after} (hno : lineFeed ∉ before) : FirstLine (before ++ [lineFeed]) after
  /-- Without a line feed the line is all that there is. -/
  | last {line} (hne : line ≠ []) (hno : lineFeed ∉ line) : FirstLine line []

/-- Octets are whole lines. -/
def EndsLine (bs : Bytes) : Prop :=
  bs = [] ∨ ∃ before, bs = before ++ [lineFeed]

section

variable {a b bs line before after : Bytes} {lines rest : List Bytes}

/-! ### Cutting -/

theorem cutLines_ended (hno : lineFeed ∉ before) (after : Bytes) :
    cutLines (before ++ lineFeed :: after) = (before ++ [lineFeed]) :: cutLines after := by
  induction before with
  | nil => rfl
  | cons b before ih =>
    obtain ⟨hb, hno⟩ := not_or.mp (mt List.mem_cons.mpr hno)
    rw [List.cons_append, cutLines, if_neg (Ne.symm hb), ih hno]
    rfl

theorem cutLines_last (hno : lineFeed ∉ line) (hne : line ≠ []) : cutLines line = [line] := by
  induction line with
  | nil => exact absurd rfl hne
  | cons b line ih =>
    obtain ⟨hb, hno⟩ := not_or.mp (mt List.mem_cons.mpr hno)
    rw [cutLines, if_neg (Ne.symm hb)]
    cases line with
    | nil => rfl
    | cons c line => rw [ih hno (List.cons_ne_nil c line)]

theorem FirstLine.cutLines_eq (h : FirstLine line after) :
    cutLines (line ++ after) = line :: cutLines after := by
  cases h with
  | ended hno =>
    rw [List.append_assoc]
    exact cutLines_ended hno after
  | last hne hno =>
    rw [List.append_nil]
    exact cutLines_last hno hne

theorem FirstLine.ne_nil (h : FirstLine line after) : line ≠ [] := by
  cases h with
  | ended hno => simp
  | last hne hno => exact hne

/-- Octets begin with a line. -/
theorem exists_firstLine (hne : bs ≠ []) :
    ∃ line after, bs = line ++ after ∧ FirstLine line after := by
  cases hs : splitFirst (· == lineFeed) bs with
  | none =>
    have hno : lineFeed ∉ bs := splitFirst_beq_eq_none_iff.mp hs
    exact ⟨bs, [], (List.append_nil bs).symm, .last hne hno⟩
  | some parts =>
    obtain ⟨before, sep, after⟩ := parts
    obtain ⟨rfl, rfl, hno⟩ := splitFirst_beq_eq_some_iff.mp hs
    refine ⟨before ++ [lineFeed], after, ?_, .ended hno⟩
    rw [List.append_assoc, List.singleton_append]

/-- What holds of no octets, and of octets if it holds of those behind their first line, holds. -/
theorem line_induction {P : Bytes → Prop} (nil : P [])
    (line : ∀ line after, FirstLine line after → P after → P (line ++ after)) (bs : Bytes) :
    P bs := by
  induction hn : bs.length using Nat.strongRecOn generalizing bs with
  | ind n ih =>
    by_cases hne : bs = []
    · rw [hne]
      exact nil
    · obtain ⟨first, after, rfl, hfirst⟩ := exists_firstLine hne
      have hpos : 0 < first.length := List.length_pos_iff.mpr hfirst.ne_nil
      have hlt : after.length < n := by
        rw [← hn, List.length_append]
        omega
      exact line first after hfirst (ih after.length hlt after rfl)

/-- Cutting loses nothing. -/
theorem flatten_cutLines (bs : Bytes) : (cutLines bs).flatten = bs := by
  induction bs using line_induction with
  | nil => rfl
  | line line after hfirst ih => rw [hfirst.cutLines_eq, List.flatten_cons, ih]

/-- The first of the lines is the first line. -/
theorem exists_of_cutLines_cons (h : cutLines bs = line :: lines) :
    bs = line ++ lines.flatten ∧ FirstLine line lines.flatten ∧ cutLines lines.flatten = lines := by
  have hne : bs ≠ [] := by
    rintro rfl
    cases h
  obtain ⟨line', after, rfl, hfirst⟩ := exists_firstLine hne
  obtain ⟨rfl, rfl⟩ := List.cons.inj (hfirst.cutLines_eq.symm.trans h)
  rw [flatten_cutLines]
  exact ⟨rfl, hfirst, rfl⟩

/-- What is left behind some of the lines is the other lines. -/
theorem cutLines_behind (h : cutLines bs = lines ++ rest) :
    cutLines rest.flatten = rest := by
  induction lines generalizing bs with
  | nil => rw [← show cutLines bs = rest from h, flatten_cutLines]
  | cons line lines ih => exact ih (exists_of_cutLines_cons h).2.2

/-! ### Whole lines -/

theorem EndsLine.append (ha : EndsLine a) (hb : EndsLine b) : EndsLine (a ++ b) := by
  rcases hb with rfl | ⟨before, rfl⟩
  · rw [List.append_nil]
    exact ha
  · exact .inr ⟨a ++ before, (List.append_assoc ..).symm⟩

theorem EndsLine.of_append (h : EndsLine (a ++ b)) : EndsLine b := by
  rcases List.eq_nil_or_concat b with rfl | ⟨front, last, rfl⟩
  · exact .inl rfl
  · rw [List.concat_eq_append] at h ⊢
    rcases h with h | ⟨before, h⟩
    · simp at h
    · rw [← List.append_assoc] at h
      have hlast : last = lineFeed := (List.append_inj' h rfl).2 |> List.singleton_inj.mp
      exact .inr ⟨front, by rw [hlast]⟩

/-- A line that others follow has an end. -/
theorem FirstLine.endsLine (h : FirstLine line after) (hne : after ≠ []) : EndsLine line := by
  cases h with
  | ended hno => exact .inr ⟨_, rfl⟩
  | last => exact absurd rfl hne

theorem not_endsLine_of_last (hne : line ≠ []) (hno : lineFeed ∉ line) : ¬ EndsLine line := by
  rintro (rfl | ⟨before, rfl⟩)
  · exact hne rfl
  · exact hno (List.mem_append_right _ (List.mem_singleton.mpr rfl))

/-- What follows whole lines does not change their first line. -/
theorem FirstLine.append (h : FirstLine line after) (hends : EndsLine (line ++ after) ∨ b = []) :
    FirstLine line (after ++ b) := by
  cases h with
  | ended hno => exact .ended hno
  | last hne hno =>
    rcases hends with hends | rfl
    · rw [List.append_nil] at hends
      exact absurd hends (not_endsLine_of_last hne hno)
    · exact .last hne hno

/-! ### The ends of lines -/

/-- The octets without one line break at their end. -/
def dropLineBreak (bs : Bytes) : Bytes :=
  if bs.getLast? = some lineFeed then dropReturn bs.dropLast else bs

/-- One line break at most. -/
def AtMostLineBreak (bs : Bytes) : Prop :=
  bs = [] ∨ ∃ ending : LineEnd, bs = ending.octets

theorem dropLineBreak_ended (before : Bytes) :
    dropLineBreak (before ++ [lineFeed]) = dropReturn before := by
  rw [dropLineBreak, List.getLast?_concat, if_pos rfl, List.dropLast_concat]

theorem dropLineBreak_of_not_mem (hno : lineFeed ∉ line) : dropLineBreak line = line := by
  rw [dropLineBreak, if_neg]
  intro h
  exact hno (List.mem_of_getLast? h)

theorem dropLineBreak_crlf (bs : Bytes) : dropLineBreak (bs ++ LineEnd.crlf.octets) = bs := by
  have h := dropLineBreak_ended (bs ++ [carriageReturn])
  rwa [dropReturn_concat, List.append_assoc] at h

theorem endsLine_crlf (bs : Bytes) : EndsLine (bs ++ LineEnd.crlf.octets) := by
  refine .inr ⟨bs ++ [carriageReturn], ?_⟩
  rw [List.append_assoc]
  rfl

/-- What `dropLineBreak` takes off is one line break at most. -/
theorem exists_dropLineBreak_append (bs : Bytes) :
    ∃ lineBreak, bs = dropLineBreak bs ++ lineBreak ∧ AtMostLineBreak lineBreak := by
  by_cases h : bs.getLast? = some lineFeed
  · obtain ⟨before, rfl⟩ := List.getLast?_eq_some_iff.mp h
    rw [dropLineBreak_ended]
    rcases dropReturn_cases before with hreturn | ⟨hsame, -⟩
    · refine ⟨LineEnd.crlf.octets, ?_, .inr ⟨.crlf, rfl⟩⟩
      conv => lhs; rw [hreturn]
      rw [List.append_assoc]
      rfl
    · exact ⟨LineEnd.lf.octets, by rw [hsame]; rfl, .inr ⟨.lf, rfl⟩⟩
  · refine ⟨[], ?_, .inl rfl⟩
    rw [dropLineBreak, if_neg h, List.append_nil]

/-! ### Reading in UTF-8 -/

/-- A reader in UTF-8 over octets. -/
def FlatReader.utf8 (rest : Bytes) (lastTaken : Nat) : FlatReader :=
  { rest, charset := .utf8, lastTaken }

@[simp] theorem FlatReader.lastTaken_utf8 (rest : Bytes) (n : Nat) :
    ByteReader.lastTaken (FlatReader.utf8 rest n) = n :=
  rfl

/-- A reader in UTF-8 takes the first line. -/
theorem FirstLine.readLine_eq (h : FirstLine line after) (i : Nat) :
    ByteReader.readLine (FlatReader.utf8 (line ++ after) i) =
      (.ok (some (Utf8.decodeLossy (dropLineBreak line))), .utf8 after line.length) := by
  rw [show ByteReader.readLine (FlatReader.utf8 (line ++ after) i) =
    (FlatReader.utf8 (line ++ after) i).readLine from rfl]
  cases h with
  | @ended before after hno =>
    have hread := FlatReader.readLine_eq (f := .utf8 (before ++ lineFeed :: after) i) hno rfl
    rw [List.append_assoc, dropLineBreak_ended, List.length_append]
    exact hread
  | last hne hno =>
    have hcut : splitFirst (· == lineFeed) line = none := splitFirst_beq_eq_none_iff.mpr hno
    rw [List.append_nil, dropLineBreak_of_not_mem hno, FlatReader.readLine]
    simp only [FlatReader.utf8, hcut, List.isEmpty_eq_false_iff.mpr hne, Bool.false_eq_true,
      if_false]
    rfl

/-- Where nothing is left no line is read. -/
theorem FlatReader.readLine_nil (i : Nat) :
    ByteReader.readLine (FlatReader.utf8 [] i) = (.ok none, .utf8 [] 0) :=
  rfl

end

end HttpWire
