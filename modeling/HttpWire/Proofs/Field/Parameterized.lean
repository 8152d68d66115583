import Mathlib.Data.List.Basic
import HttpWire.Field.Parameterized
import HttpWire.Proofs.Field.QuotedString
import HttpWire.Proofs.Text.Ascii
import HttpWire.Proofs.Text.Split

/-!
# Values with parameters, written and read

A quoted string is read back from what is written for it, whatever it says and whatever stands
behind it (`QuotedString.read_encode`).  So a value whose base and names cannot be taken for
anything else (`IsWritable`) is read back as it was written: the readers move through the text from
one semicolon to the next, and the semicolons inside quotes are never looked at
(`readParams_paramsText`).

What has been read from a text with a base without quotes is such a value (`isWritable_of_ofText`),
so writing it and reading it again changes nothing (`ofText_toText`).
-/

namespace HttpWire

namespace Parameterized

variable {v : Parameterized} {t : Text} {params : List (Text × Text)}

/-! ### Values that can be written -/

/-- A name that is not taken for anything else: without white space around it, and without the
characters that end a name. -/
structure IsName (name : Text) : Prop where
  trimmed : Text.trim name = name
  no_equals : '=' ∉ name
  no_semicolon : ';' ∉ name

/-- A value whose base and names are not taken for anything else.  The values of its parameters may
be any texts. -/
structure IsWritable (v : Parameterized) : Prop where
  base_trimmed : Text.trim v.base = v.base
  base_no_semicolon : ';' ∉ v.base
  base_unquoted : v.base.head? ≠ some '"'
  names : ∀ param ∈ v.params, IsName param.1

/-! ### Writing and reading -/

/-- Nothing is read where nothing is written. -/
theorem readParams_nil : readParams [] = .ok [] := by
  rw [readParams]
  rfl

/-- A name with a value is read, and then what stands behind them. -/
theorem readParams_of_equals {before after value behind : Text}
    (hcut : splitFirst (fun c => c == '=' || c == ';') t = some (before, '=', after))
    (hitem : readItem after = .ok (value, behind)) :
    readParams t = (readParams behind).map ((Text.trim before, value) :: ·) := by
  rw [readParams]
  split
  · next h => rw [hcut] at h; cases h
  · next h => rw [hcut] at h; cases h
  · next h =>
    rw [hcut] at h
    cases h
    split
    · next h => rw [hitem] at h; cases h
    · next h => rw [hitem] at h; cases h; rfl

/-- A quoted value is read, and what stands behind its semicolon is left. -/
theorem readItem_encode (value rest : Text) :
    readItem (QuotedString.encode value ++ rest) = .ok (value, (cutSemicolon rest).2) := by
  rw [readItem, QuotedString.read_encode]

/-- What does not start with a quote is read up to its semicolon. -/
theorem readItem_plain (h : (t.dropWhile Text.isBlank).head? ≠ some '"') :
    readItem t = .ok (Text.trim (cutSemicolon t).1, (cutSemicolon t).2) := by
  rw [readItem, QuotedString.read_eq_plain h]

theorem cutSemicolon_append {front : Text} (h : ';' ∉ front) (behind : Text) :
    cutSemicolon (front ++ ';' :: behind) = (front, behind) := by
  rw [cutSemicolon, cutFirst, splitFirst_beq_append_cons h]

/-- What the first part of a cut at a semicolon is made of. -/
theorem cutSemicolon_fst (t : Text) :
    ';' ∉ (cutSemicolon t).1 ∧ ∃ behind, t = (cutSemicolon t).1 ++ behind := by
  cases hcut : splitFirst (· == ';') t with
  | none =>
    rw [cutSemicolon, cutFirst, hcut]
    exact ⟨splitFirst_beq_eq_none_iff.mp hcut, [], (List.append_nil t).symm⟩
  | some parts =>
    obtain ⟨before, sep, after⟩ := parts
    rw [cutSemicolon, cutFirst, hcut]
    obtain ⟨rfl, ht, hno⟩ := splitFirst_beq_eq_some_iff.mp hcut
    exact ⟨hno, ';' :: after, ht⟩

/-- A text without a semicolon is not cut. -/
theorem cutSemicolon_of_not_mem (h : ';' ∉ t) : cutSemicolon t = (t, []) := by
  rw [cutSemicolon, cutFirst, splitFirst_beq_eq_none_iff.mpr h]

/-- The parameters as they are written behind a base. -/
def paramsText (params : List (Text × Text)) : Text :=
  params.flatMap fun (name, value) => paramText name value

/-- A parameter begins with a semicolon. -/
theorem paramsText_cons (name value : Text) (params : List (Text × Text)) :
    paramsText ((name, value) :: params) =
      ';' :: ((' ' :: name) ++ '=' :: (QuotedString.encode value ++ paramsText params)) := by
  simp [paramsText, paramText]

/-- Whatever stands in front of the parameters, the same is behind the first semicolon. -/
theorem cutSemicolon_paramsText {front : Text} (h : ';' ∉ front) (params : List (Text × Text)) :
    cutSemicolon (front ++ paramsText params) = (front, (cutSemicolon (paramsText params)).2) := by
  cases params with
  | nil =>
    show cutSemicolon (front ++ []) = _
    rw [List.append_nil, cutSemicolon_of_not_mem h]
    rfl
  | cons param params =>
    rw [paramsText_cons, cutSemicolon_append h, ← List.nil_append (';' :: _),
      cutSemicolon_append List.not_mem_nil]

/-- **Parameters are read back from what is written for them.** -/
theorem readParams_paramsText (h : ∀ param ∈ params, IsName param.1) :
    readParams (cutSemicolon (paramsText params)).2 = .ok params := by
  induction params with
  | nil => exact readParams_nil
  | cons param params ih =>
    obtain ⟨name, value⟩ := param
    have hname : IsName name := h (name, value) (List.mem_cons_self ..)
    have htrim : Text.trim (' ' :: name) = name :=
      (Text.append_trim (List.forall_mem_singleton.mpr rfl) name).trans hname.trimmed
    -- The first separator is the equals sign behind the name.
    have hcut : splitFirst (fun c => c == '=' || c == ';')
        ((' ' :: name) ++ '=' :: (QuotedString.encode value ++ paramsText params)) =
          some (' ' :: name, '=', QuotedString.encode value ++ paramsText params) := by
      apply splitFirst_append_cons
      · intro c hc
        rw [Bool.or_eq_false_iff, beq_eq_false_iff_ne, beq_eq_false_iff_ne]
        rcases List.mem_cons.mp hc with rfl | hc
        · decide
        · exact ⟨fun heq => hname.no_equals (heq ▸ hc), fun heq => hname.no_semicolon (heq ▸ hc)⟩
      · rfl
    rw [paramsText_cons, ← List.nil_append (';' :: _), cutSemicolon_append List.not_mem_nil,
      readParams_of_equals hcut (readItem_encode ..),
      ih fun param hparam => h param (List.mem_cons_of_mem _ hparam), htrim]
    rfl

/-- The base of a value that can be written is not taken for a quoted string. -/
theorem IsWritable.toText_unquoted (h : IsWritable v) :
    (v.toText.dropWhile Text.isBlank).head? ≠ some '"' := by
  have hbase : v.base.dropWhile Text.isBlank = v.base := Text.dropWhile_of_trim h.base_trimmed
  have hsemicolon : Text.isBlank ';' = false := by decide
  show ((v.base ++ paramsText v.params).dropWhile Text.isBlank).head? ≠ some '"'
  rw [List.dropWhile_append, hbase]
  have hunquoted := h.base_unquoted
  cases hb : v.base with
  | nil =>
    cases hp : v.params with
    | nil => simp [paramsText]
    | cons param params =>
      rw [paramsText_cons]
      simp [hsemicolon]
  | cons c base =>
    rw [hb] at hunquoted
    simpa using hunquoted

/-- **A value is read back as it was written.** -/
theorem IsWritable.read_back (h : IsWritable v) : ofText v.toText = .ok v := by
  have hcut : cutSemicolon v.toText = (v.base, (cutSemicolon (paramsText v.params)).2) :=
    cutSemicolon_paramsText h.base_no_semicolon v.params
  rw [ofText, readItem_plain h.toText_unquoted, hcut, h.base_trimmed]
  show (readParams _).map _ = _
  rw [readParams_paramsText h.names]
  rfl

/-! ### What has been read can be written -/

/-- A name in front of a separator cannot be taken for anything else. -/
theorem isName_trim (h : ∀ c ∈ t, (c == '=' || c == ';') = false) : IsName (Text.trim t) where
  trimmed := Text.trim_trim t
  no_equals hmem := by simpa using h _ (Text.mem_of_mem_trim hmem)
  no_semicolon hmem := by simpa using h _ (Text.mem_of_mem_trim hmem)

theorem isName_of_mem_flag (h : ∀ c ∈ t, (c == '=' || c == ';') = false) :
    ∀ param ∈ flag t, IsName param.1 := by
  intro param hmem
  rw [flag] at hmem
  split at hmem
  · cases hmem
  · rw [List.mem_singleton.mp hmem]
    exact isName_trim h

theorem exists_of_map_eq_ok {α β ε : Type} {f : α → β} {answer : Except ε α} {b : β}
    (h : answer.map f = .ok b) : ∃ a, answer = .ok a ∧ f a = b := by
  cases answer with
  | error e => cases h
  | ok a => exact ⟨a, rfl, Except.ok.inj h⟩

/-- The names of the parameters that are read from a text. -/
theorem isName_of_readParams (h : readParams t = .ok params) :
    ∀ param ∈ params, IsName param.1 := by
  fun_induction readParams t generalizing params with
  | case1 t hcut =>
    cases h
    exact isName_of_mem_flag (splitFirst_eq_none_iff.mp hcut)
  | case2 t before after hcut ih =>
    obtain ⟨rest, hrest, rfl⟩ := exists_of_map_eq_ok h
    intro param hmem
    rcases List.mem_append.mp hmem with hmem | hmem
    · exact isName_of_mem_flag (splitFirst_eq_some_iff.mp hcut).2.2 param hmem
    · exact ih hrest param hmem
  | case3 => cases h
  | case4 t before _ after _ hcut value behind hitem ih =>
    obtain ⟨rest, hrest, rfl⟩ := exists_of_map_eq_ok h
    intro param hmem
    rcases List.mem_cons.mp hmem with rfl | hmem
    · exact isName_trim (splitFirst_eq_some_iff.mp hcut).2.2
    · exact ih hrest param hmem

/-- **What is read from a text whose base is not quoted can be written.** -/
theorem isWritable_of_ofText (ht : (t.dropWhile Text.isBlank).head? ≠ some '"')
    (h : ofText t = .ok v) : IsWritable v := by
  rw [ofText, readItem_plain ht] at h
  obtain ⟨params, hparams, rfl⟩ := exists_of_map_eq_ok h
  obtain ⟨hsemicolon, behind, hbehind⟩ := cutSemicolon_fst t
  refine ⟨Text.trim_trim _, fun hmem => hsemicolon (Text.mem_of_mem_trim hmem), ?_,
    isName_of_readParams hparams⟩
  -- The base begins as the text does behind its white space.
  intro hquote
  apply ht
  obtain ⟨b, hb, -⟩ :=
    Text.exists_dropTrailing_append (p := Text.isBlank) ((cutSemicolon t).1.dropWhile Text.isBlank)
  obtain ⟨base, (hbase : Text.trim (cutSemicolon t).1 = _)⟩ := List.head?_eq_some_iff.mp hquote
  rw [← Text.trim, hbase] at hb
  rw [hbehind, List.dropWhile_append, hb]
  rfl

/-- **Writing and reading values with parameters.**  A value whose base and names cannot be taken
for anything else is read back as it was written.  What is read from a text whose base is not quoted
is such a value, so it is the same after it has been written and read again. -/
theorem ofText_toText :
    (∀ v : Parameterized, IsWritable v → ofText v.toText = .ok v) ∧
      ∀ (t : Text) (v : Parameterized), (t.dropWhile Text.isBlank).head? ≠ some '"' →
        ofText t = .ok v → ofText v.toText = .ok v :=
  ⟨fun _ hv => hv.read_back, fun _ _ ht h => (isWritable_of_ofText ht h).read_back⟩

/-- A value with quotes, backslashes, separators and white space in its parameters, two of one name,
and a text with a flag, a name without characters and values without quotes. -/
theorem ofText_toText_awkward :
    let v : Parameterized := ⟨"form-data".toList, [("name".toList, []),
      ("f".toList, "a \"b\" = c; \\".toList), ("f".toList, " \t".toList)]⟩
    let t : Text := " a\"b ; x = 1 ;flag;; =\"=\" ignored; y=2 3".toList
    let read : Parameterized := ⟨"a\"b".toList, [("x".toList, "1".toList), ("flag".toList, []),
      ([], "=".toList), ("y".toList, "2 3".toList)]⟩
    (IsWritable v ∧ ofText v.toText = .ok v) ∧
      (t.dropWhile Text.isBlank).head? ≠ some '"' ∧ ofText t = .ok read ∧
      ofText read.toText = .ok read := by
  intro v t read
  have hname : IsName "name".toList := ⟨by decide, by decide, by decide⟩
  have hf : IsName "f".toList := ⟨by decide, by decide, by decide⟩
  have hv : IsWritable v := by
    refine ⟨by decide, by decide, by decide, ?_⟩
    simp only [v, List.forall_mem_cons]
    exact ⟨hname, hf, hf, List.forall_mem_nil _⟩
  have ht : (t.dropWhile Text.isBlank).head? ≠ some '"' := by decide
  have hread : ofText t = .ok read := by decide +kernel
  exact ⟨⟨hv, ofText_toText.1 v hv⟩, ht, hread, ofText_toText.2 t read ht hread⟩

end Parameterized

end HttpWire
