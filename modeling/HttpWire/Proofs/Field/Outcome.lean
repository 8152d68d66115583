import HttpWire.Proofs.Field.Flawed
import HttpWire.Proofs.Reading.CutLines
import HttpWire.Proofs.Reading.Settled
import Mathlib.Data.List.Forall2

/-!
# What becomes of a header block

Reading a header block stops at the first line that is empty or is no header line, and otherwise
where the octets end (`BlockOutcome`).  The lines in front of that have given their fields, whatever
stops the reading.  Octets leave no other possibility (`exists_blockOutcome`), and a reader in
either character set does what is said of the lines (`BufferedReader.readBlock_outcome`): behind
header lines it is where it would be if it had started there, with their fields and their octets
counted (`FlatReader.readBlock_behind`).
-/

namespace HttpWire

/-! ### Lines of a block -/

/-- A field is written in the octets of a line. -/
def LineCharset.Carries (charset : LineCharset) (f : Field) (line : Bytes) : Prop :=
  ∃ t, charset.Reads (dropLineBreak line) (.ok (some t)) ∧ f.WrittenIn t

/-- The octets of a line are refused: they are no text, or something is wrong with the text and it
is not the empty one. -/
inductive LineCharset.Refuses (charset : LineCharset) (line : Bytes) : ReceiveError → Prop
  | undecodable {e} (hreads : charset.Reads (dropLineBreak line) (.error (.fault e))) :
    Refuses charset line e
  | flawed {t fault} (hreads : charset.Reads (dropLineBreak line) (.ok (some t))) (hne : t ≠ [])
    (hflawed : Field.Flawed t fault) : Refuses charset line (.header fault)

/-- What becomes of a header block at the beginning of octets: its fields, the answer, and the
octets that are left. -/
inductive BlockOutcome (charset : LineCharset) (octets : Bytes) :
    List Field → Except (Stop ReceiveError) Nat → Bytes → Prop
  /-- Behind header lines there is an empty line. -/
  | complete {fields lines blank rest} (hcut : cutLines octets = lines ++ blank :: rest)
    (hlines : List.Forall₂ charset.Carries fields lines) (hblank : dropLineBreak blank = []) :
    BlockOutcome charset octets fields (.ok (lines.flatten.length + blank.length)) rest.flatten
  /-- Behind header lines there is a line that is neither empty nor a header line. -/
  | refused {fields lines bad rest e} (hcut : cutLines octets = lines ++ bad :: rest)
    (hlines : List.Forall₂ charset.Carries fields lines) (hbad : charset.Refuses bad e) :
    BlockOutcome charset octets fields (.error (.fault e)) rest.flatten
  /-- There are header lines only. -/
  | unfinished {fields} (hlines : List.Forall₂ charset.Carries fields (cutLines octets)) :
    BlockOutcome charset octets fields
      (.error (.fault (.truncated (octets.length + 2) octets.length))) []

/-- A line is empty, carries a field or is refused. -/
theorem LineCharset.line_cases (charset : LineCharset) (line : Bytes) :
    dropLineBreak line = [] ∨ (∃ f, charset.Carries f line) ∨ ∃ e, charset.Refuses line e := by
  rcases hcontent : dropLineBreak line with _ | ⟨b, bs⟩
  · exact .inl rfl
  · refine .inr ?_
    cases hdecode : charset.decode (dropLineBreak line) with
    | error e =>
      refine .inr ⟨e, .undecodable (LineCharset.reads_iff.mpr ?_)⟩
      rw [LineCharset.answer, hdecode]
    | ok t =>
      have hanswer : charset.answer (dropLineBreak line) = .ok (some t) := by
        rw [LineCharset.answer, hdecode]
      have hreads := LineCharset.reads_iff.mpr hanswer
      have hne : t ≠ [] := by
        rintro rfl
        rw [hcontent] at hanswer
        exact charset.ne_answer_nil b bs hanswer
      rcases Field.written_or_flawed t with ⟨f, hf⟩ | ⟨fault, hflawed⟩
      · exact .inl ⟨f, t, hreads, hf⟩
      · exact .inr ⟨_, .flawed hreads hne hflawed⟩

/-- Something becomes of every header block. -/
theorem exists_blockOutcome (charset : LineCharset) (octets : Bytes) :
    ∃ fields answer rest, BlockOutcome charset octets fields answer rest := by
  induction octets using line_induction with
  | nil => exact ⟨[], _, _, .unfinished .nil⟩
  | line line after hfirst ih =>
    have hcut := hfirst.cutLines_eq
    have hfront : cutLines (line ++ after) = [] ++ line :: cutLines after := hcut
    rcases charset.line_cases line with hblank | ⟨f, hf⟩ | ⟨e, hbad⟩
    · exact ⟨[], _, _, .complete hfront .nil hblank⟩
    · -- Behind a header line the block goes on.
      obtain ⟨fields, answer, rest, h⟩ := ih
      cases h with
      | complete hcut' hlines hblank =>
        rw [hcut', ← List.cons_append] at hcut
        exact ⟨_, _, _, .complete hcut (.cons hf hlines) hblank⟩
      | refused hcut' hlines hbad =>
        rw [hcut', ← List.cons_append] at hcut
        exact ⟨_, _, _, .refused hcut (.cons hf hlines) hbad⟩
      | unfinished hlines =>
        have hlines' : List.Forall₂ charset.Carries (f :: fields) (cutLines (line ++ after)) := by
          rw [hcut]
          exact .cons hf hlines
        exact ⟨_, _, _, .unfinished hlines'⟩
    · exact ⟨[], _, _, .refused hfront .nil hbad⟩

/-! ### Reading a block -/

namespace FlatReader

variable {f : FlatReader} {line after : Bytes} {lines rest : List Bytes} {fields : List Field}
  {e : ReceiveError} {taken : Nat}

/-- The reader once only such octets are left to it, behind a line of so many. -/
def behind (f : FlatReader) (after : Bytes) (count : Nat) : FlatReader :=
  { f with rest := after, lastTaken := count }

/-- The first line is read as what its octets are in the character set. -/
theorem readLine_firstLine (h : FirstLine line after) (hf : f.rest = line ++ after) :
    ByteReader.readLine f =
      (f.charset.answer (dropLineBreak line), f.behind after line.length) := by
  cases h with
  | @ended before after hno =>
    rw [List.append_assoc] at hf
    rw [readLine_eq hno hf, dropLineBreak_ended, List.length_append]
    rfl
  | last hne hno =>
    rw [List.append_nil] at hf
    have hcut : splitFirst (· == lineFeed) f.rest = none := by
      rw [hf]
      exact splitFirst_beq_eq_none_iff.mpr hno
    rw [show ByteReader.readLine f = f.readLine from rfl, readLine, hcut, hf,
      dropLineBreak_of_not_mem hno, if_neg (by simpa using hne)]
    rfl

/-- The count of the line before has no part in what becomes of a block. -/
theorem readBlock_behind_eq (h : Headers) (i j : Nat) :
    Headers.readBlock taken h (f.behind after i) =
      Headers.readBlock taken h (f.behind after j) := by
  rw [Headers.readBlock_eq, Headers.readBlock_eq taken h (f.behind after j)]
  rfl

/-- An empty line ends a block. -/
theorem readBlock_blank (hfirst : FirstLine line after) (hf : f.rest = line ++ after)
    (hblank : dropLineBreak line = []) (h : Headers) :
    Headers.readBlock taken h f = (.ok (taken + line.length), h, f.behind after line.length) := by
  have hanswer : f.charset.answer [] = .ok (some []) := by cases f.charset <;> rfl
  rw [Headers.readBlock_eq, readLine_firstLine hfirst hf, hblank, hanswer]
  rfl

/-- A line that is refused ends a block. -/
theorem readBlock_refused (hfirst : FirstLine line after) (hf : f.rest = line ++ after)
    (hbad : f.charset.Refuses line e) (h : Headers) :
    Headers.readBlock taken h f = (.error (.fault e), h, f.behind after line.length) := by
  rw [Headers.readBlock_eq, readLine_firstLine hfirst hf]
  cases hbad with
  | undecodable hreads => rw [LineCharset.reads_iff.mp hreads]
  | @flawed t fault hreads hne hflawed =>
    rw [LineCharset.reads_iff.mp hreads]
    obtain ⟨c, cs, rfl⟩ := List.exists_cons_of_ne_nil hne
    simp only [Field.ofLine_eq_error_iff.mpr hflawed]

/-- A header line gives its field, and the block goes on. -/
theorem readBlock_carried {field : Field} (hfirst : FirstLine line after)
    (hf : f.rest = line ++ after) (hline : f.charset.Carries field line) (h : Headers) :
    Headers.readBlock taken h f =
      Headers.readBlock (taken + line.length) (h.append field) (f.behind after line.length) := by
  obtain ⟨t, hreads, hwritten⟩ := hline
  rw [Headers.readBlock_eq, readLine_firstLine hfirst hf, LineCharset.reads_iff.mp hreads]
  obtain ⟨c, cs, rfl⟩ := List.exists_cons_of_ne_nil hwritten.ne_nil
  simp only [Field.ofLine_eq_ok_iff.mpr hwritten]
  rfl

/-- Behind header lines a block is read on with their fields and the count of their octets. -/
theorem readBlock_behind (hcut : cutLines f.rest = lines ++ rest)
    (hlines : List.Forall₂ f.charset.Carries fields lines) (h : Headers) (taken : Nat) :
    Headers.readBlock taken h f = Headers.readBlock (taken + lines.flatten.length)
      ⟨h.fields ++ fields⟩ (f.behind rest.flatten 0) := by
  -- By induction on the lines, each of which is the first when its turn comes.
  generalize hcharset : f.charset = charset at hlines
  induction hlines generalizing f h taken with
  | nil =>
    have hrest : rest.flatten = f.rest := by rw [← flatten_cutLines f.rest, hcut]; rfl
    rw [List.append_nil, hrest]
    exact readBlock_behind_eq h f.lastTaken 0
  | @cons field line fields lines hline hlines ih =>
    subst hcharset
    rw [List.cons_append] at hcut
    obtain ⟨hf, hfirst, hcut'⟩ := exists_of_cutLines_cons hcut
    rw [readBlock_carried hfirst hf hline,
      ih (f := f.behind (lines ++ rest).flatten line.length) hcut' _ _ rfl, Headers.append,
      List.append_assoc, List.singleton_append, List.flatten_cons, List.length_append,
      Nat.add_assoc]
    rfl

/-- **What becomes of a block is what reading it comes to.** -/
theorem readBlock_of_outcome {answer : Except (Stop ReceiveError) Nat} {left : Bytes}
    (houtcome : BlockOutcome f.charset f.rest fields answer left) (h : Headers) :
    ∃ count, Headers.readBlock 0 h f = (answer, ⟨h.fields ++ fields⟩, f.behind left count) := by
  cases houtcome with
  | @complete lines blank rest hcut hlines hblank =>
    obtain ⟨-, hfirst, -⟩ := exists_of_cutLines_cons (cutLines_behind hcut)
    rw [readBlock_behind hcut hlines, Nat.zero_add,
      readBlock_blank (f := f.behind (blank :: rest).flatten 0) hfirst rfl hblank]
    exact ⟨_, rfl⟩
  | @refused lines bad rest e hcut hlines hbad =>
    obtain ⟨-, hfirst, -⟩ := exists_of_cutLines_cons (cutLines_behind hcut)
    rw [readBlock_behind hcut hlines,
      readBlock_refused (f := f.behind (bad :: rest).flatten 0) hfirst rfl hbad]
    exact ⟨_, rfl⟩
  | unfinished hlines =>
    have hcut : cutLines f.rest = cutLines f.rest ++ [] := (List.append_nil _).symm
    rw [readBlock_behind hcut hlines, Nat.zero_add, flatten_cutLines, Headers.readBlock_eq]
    exact ⟨_, rfl⟩

end FlatReader

/-! ### Over a connection -/

namespace BufferedReader

variable {σ : Type} [ByteSource σ] [StreamSource σ] {r : BufferedReader σ}

/-- **A reader reads a header block up to the line that ends it.**  Over a source that never fails,
in either character set and whatever headers there are, something becomes of the block in front of
the reader, and that is what reading it comes to: the answer; the fields of the header lines in
their order behind the headers that there were, also where the block is refused or unfinished; and
the octets behind the last line that was looked at. -/
theorem readBlock_outcome (hr : r.NeverFails) (h : Headers) :
    (∃ fields answer rest, BlockOutcome r.charset r.pending fields answer rest) ∧
      ∀ fields answer rest, BlockOutcome r.charset r.pending fields answer rest →
        ∃ r', Headers.readBlock 0 h r = (answer, ⟨h.fields ++ fields⟩, r') ∧ r'.pending = rest ∧
          r'.NeverFails := by
  refine ⟨exists_blockOutcome r.charset r.pending, ?_⟩
  intro fields answer rest houtcome
  obtain ⟨g, hm, hg⟩ := hr
  obtain ⟨count, hflat⟩ := FlatReader.readBlock_of_outcome (f := r.flatten) houtcome h
  have hag := (lockstep_flatten g).readBlock 0 h (flattensTo hg)
  rw [hflat] at hag
  obtain ⟨hanswer, hheaders, hg', hflat'⟩ := hag.eq_of_not_lost fun e _ he => hm he.1
  exact ⟨_, Prod.ext hanswer (Prod.ext hheaders rfl), congrArg FlatReader.rest hflat',
    g, hm, hg'⟩

/-- A line that is cut in two and one whose name has a blank in it, behind a header. -/
theorem readBlock_outcome_pieces :
    let r := ofSource (Pieces.mk [Utf8.encode "A: b \r".toList, Utf8.encode "\nc d:\n\n".toList])
      3 .ascii
    let host : Field := ⟨⟨"host".toList, by decide⟩, ⟨[0x68], by decide⟩⟩
    let a : Field := ⟨⟨"a".toList, by decide⟩, ⟨[0x62], by decide⟩⟩
    ∃ r', Headers.readBlock 0 ⟨[host]⟩ r =
        (.error (.fault (.header (.badName "c d".toList))), ⟨[host, a]⟩, r') ∧
      r'.pending = [lineFeed] := by
  intro r host a
  have hcut : cutLines r.pending = [Utf8.encode "A: b \r\n".toList] ++
      Utf8.encode "c d:\n".toList :: [[lineFeed]] := by decide
  have hline : LineCharset.ascii.Carries a (Utf8.encode "A: b \r\n".toList) :=
    ⟨"A: b ".toList, LineCharset.reads_iff.mpr (by decide), ['A'], " b ".toList, rfl, by decide,
      by decide⟩
  have hname : Field.Flawed ("c d".toList ++ [':']) (.badName "c d".toList) :=
    .badName (by decide) fun h => absurd h.1 (by decide)
  have hbad : LineCharset.ascii.Refuses (Utf8.encode "c d:\n".toList)
      (.header (.badName "c d".toList)) :=
    .flawed (LineCharset.reads_iff.mpr (by decide)) (by decide) hname
  obtain ⟨r', h, hrest, -⟩ := (readBlock_outcome (Pieces.neverFails _ 3 .ascii) ⟨[host]⟩).2 _ _ _
    (.refused hcut (.cons hline .nil) hbad)
  exact ⟨r', h, hrest⟩

end BufferedReader

end HttpWire
