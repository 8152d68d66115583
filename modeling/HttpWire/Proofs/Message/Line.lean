import HttpWire.Field.Block
import HttpWire.Proofs.Reading.Operations
import HttpWire.Proofs.Text.Ascii

/-!
# Lines on the wire

A line is a text without line feeds in it and either end of a line behind it (`LineOf`).  What a
sender has written a reader reads (`readLine_of_lineOf`), and in ASCII whatever is read has been
written as a line, unless it is the unfinished one at the very end (`lineOf_of_readLine`).  The one
thing that gets lost is a carriage return at the end of the text: it may be taken for the beginning
of the end of the line.

Messages are made of lines in which that cannot happen: ASCII without ends of lines in it
(`WireLine`).
-/

namespace HttpWire

/-! ### Lines -/

/-- How a line ends. -/
inductive LineEnd
  | crlf
  | lf
deriving DecidableEq

/-- The octets of the end of a line. -/
def LineEnd.octets : LineEnd → Bytes
  | .crlf => [carriageReturn, lineFeed]
  | .lf => [lineFeed]

/-- Octets are those of a text without line feeds and of the end of a line. -/
inductive LineOf (charset : LineCharset) (t : Text) : Bytes → Prop
  | intro (ending : LineEnd) (hadmits : charset.Admits t) (hno : '\n' ∉ t) :
    LineOf charset t (Utf8.encode t ++ ending.octets)

section

variable {f f' : FlatReader} {t : Text} {before octets y : Bytes}

/-- The octets in front of the first line feed are the line, without a carriage return at their
end. -/
theorem FlatReader.readLine_eq (hno : lineFeed ∉ before) (hf : f.rest = before ++ lineFeed :: y) :
    ByteReader.readLine f =
      (f.charset.answer (dropReturn before),
        { f with rest := y, lastTaken := before.length + 1 }) := by
  rw [show ByteReader.readLine f = f.readLine from rfl, readLine, hf, splitFirst_beq_append_cons hno]

/-- A line that has been sent is read, and perhaps a carriage return at its end is lost. -/
theorem readLine_of_lineOf (h : LineOf f.charset t octets) (hf : f.rest = octets ++ y) :
    ∃ u, (u = t ∨ t = u ++ ['\r']) ∧
      ByteReader.readLine f = (.ok (some u), { f with rest := y, lastTaken := octets.length }) := by
  obtain ⟨ending, hadmits, hno⟩ := h
  have hno' : lineFeed ∉ Utf8.encode t := by
    intro hmem
    exact hno ((Utf8.mem_encode_iff (d := '\n') (by decide)).mp hmem)
  have hanswer {u : Text} (hu : ∀ c ∈ u, c ∈ t) :
      f.charset.answer (Utf8.encode u) = .ok (some u) :=
    LineCharset.answer_encode fun hascii c hc => hadmits hascii c (hu c hc)
  cases ending with
  | crlf =>
    have hno'' : lineFeed ∉ Utf8.encode t ++ [carriageReturn] := by
      intro hmem
      rcases List.mem_append.mp hmem with hmem | hmem
      · exact hno' hmem
      · exact absurd (List.mem_singleton.mp hmem) (by decide)
    have hf' : f.rest = Utf8.encode t ++ [carriageReturn] ++ lineFeed :: y := by
      rw [hf, List.append_assoc, List.append_assoc]
      rfl
    refine ⟨t, .inl rfl, ?_⟩
    rw [FlatReader.readLine_eq hno'' hf', dropReturn_concat, hanswer fun _ hc => hc]
    simp only [LineEnd.octets, List.length_append, List.length_cons, List.length_nil]
  | lf =>
    have hf' : f.rest = Utf8.encode t ++ lineFeed :: y := by
      rw [hf, List.append_assoc]
      rfl
    have hread := FlatReader.readLine_eq hno' hf'
    have hlength : (Utf8.encode t ++ LineEnd.lf.octets).length = (Utf8.encode t).length + 1 :=
      List.length_append
    rw [hlength, hread]
    by_cases hlast : (Utf8.encode t).getLast? = some carriageReturn
    · obtain ⟨u, rfl⟩ := Utf8.exists_concat_of_getLast? (d := '\r') (by decide) hlast
      have hencode : Utf8.encode (u ++ ['\r']) = Utf8.encode u ++ [carriageReturn] :=
        Utf8.encode_append u ['\r']
      refine ⟨u, .inr rfl, ?_⟩
      rw [hencode, dropReturn_concat, hanswer fun _ hc => List.mem_append_left _ hc]
    · refine ⟨t, .inl rfl, ?_⟩
      rw [dropReturn, if_neg hlast, hanswer fun _ hc => hc]

/-- The empty line is read as such. -/
theorem readLine_of_empty (h : LineOf f.charset [] octets) (hf : f.rest = octets ++ y) :
    ByteReader.readLine f = (.ok (some []), { f with rest := y, lastTaken := octets.length }) := by
  obtain ⟨u, rfl | hu, hread⟩ := readLine_of_lineOf h hf
  · exact hread
  · exact absurd hu (by simp)

@[simp] theorem FlatReader.charset_readLine (f : FlatReader) :
    (ByteReader.readLine f).2.charset = f.charset :=
  Operation.charset_perform .line f

/-- A line that reads as ASCII is that text. -/
theorem exists_encode_of_reads (h : LineCharset.ascii.Reads before (.ok (some t))) :
    t.IsAscii ∧ Utf8.encode t = before := by
  cases h with
  | ascii hlow => exact Utf8.encode_of_octets hlow

/-- A line of ASCII that is read has been sent, or it has used everything up and is not the empty
line. -/
theorem lineOf_of_readLine (hascii : f.charset = .ascii)
    (h : ByteReader.readLine f = (.ok (some t), f')) :
    (∃ octets, LineOf .ascii t octets ∧ f.rest = octets ++ f'.rest ∧
      f'.lastTaken = octets.length) ∨ f'.rest = [] ∧ t ≠ [] := by
  have hline (before : Bytes) (hno : lineFeed ∉ before)
      (hreads : LineCharset.ascii.Reads before (.ok (some t))) (ending : LineEnd) :
      LineOf .ascii t (before ++ ending.octets) := by
    obtain ⟨ht, rfl⟩ := exists_encode_of_reads hreads
    refine .intro ending (fun _ => ht) ?_
    intro hmem
    exact hno ((Utf8.mem_encode_iff (d := '\n') (by decide)).mpr hmem)
  have htakes := takes_readLine f
  rw [show f.readLine = _ from h, hascii] at htakes
  generalize hrest : f.rest = rest at htakes
  generalize hcount : f'.lastTaken = taken at htakes
  generalize hleft : f'.rest = left at htakes
  cases htakes with
  | crlf hno hreads =>
    refine .inl ⟨_, hline _ hno hreads .crlf, ?_, ?_⟩
    · rw [List.append_assoc]
      rfl
    · rw [List.length_append]
      rfl
  | lf hno hend hreads =>
    refine .inl ⟨_, hline _ hno hreads .lf, ?_, ?_⟩
    · rw [List.append_assoc]
      rfl
    · rw [List.length_append]
      rfl
  | lastLine hne hno hreads =>
    refine .inr ⟨rfl, ?_⟩
    rintro rfl
    exact hne (exists_encode_of_reads hreads).2.symm

end

/-! ### Lines of messages -/

/-- An ASCII text without ends of lines. -/
def Text.IsPlain (t : Text) : Prop :=
  ∀ c ∈ t, c.toNat < 0x80 ∧ c ≠ '\r' ∧ c ≠ '\n'

instance (t : Text) : Decidable t.IsPlain :=
  List.decidableBAll _ t

/-- A line as it is sent. -/
structure WireLine where
  text : Text
  plain : text.IsPlain
  ending : LineEnd

namespace Text.IsPlain

variable {t u : Text}

theorem isAscii (h : t.IsPlain) : t.IsAscii :=
  fun c hc => (h c hc).1

theorem append (ht : t.IsPlain) (hu : u.IsPlain) : Text.IsPlain (t ++ u) := by
  intro c hc
  rcases List.mem_append.mp hc with hc | hc
  · exact ht c hc
  · exact hu c hc

theorem cons {c : Char} (hc : c.toNat < 0x80 ∧ c ≠ '\r' ∧ c ≠ '\n') (ht : t.IsPlain) :
    Text.IsPlain (c :: t) := by
  intro d hd
  rcases List.mem_cons.mp hd with rfl | hd
  · exact hc
  · exact ht d hd

end Text.IsPlain

namespace WireLine

/-- The octets of the line. -/
def octets (l : WireLine) : Bytes :=
  Utf8.encode l.text ++ l.ending.octets

/-- The empty line. -/
def empty (ending : LineEnd) : WireLine :=
  { text := [], plain := by simp [Text.IsPlain], ending }

variable (l : WireLine) {f : FlatReader} {y : Bytes}

theorem octets_ne_nil : l.octets ≠ [] := by
  rw [octets]
  cases l.ending <;> simp [LineEnd.octets]

theorem lineOf (charset : LineCharset) : LineOf charset l.text l.octets := by
  refine .intro l.ending (fun _ => l.plain.isAscii) ?_
  intro hmem
  exact (l.plain _ hmem).2.2 rfl

/-- A line that has been sent is read. -/
theorem readLine_eq (hf : f.rest = l.octets ++ y) :
    ByteReader.readLine f =
      (.ok (some l.text), { f with rest := y, lastTaken := l.octets.length }) := by
  obtain ⟨u, rfl | hu, hread⟩ := readLine_of_lineOf (l.lineOf f.charset) hf
  · exact hread
  · have hmem : '\r' ∈ l.text := by
      rw [hu]
      exact List.mem_append_right _ (List.mem_singleton.mpr rfl)
    exact absurd rfl (l.plain _ hmem).2.1

/-- Empty lines in front of another line are passed over. -/
theorem firstLine_eq_of_blanks {t : Text} {f' : FlatReader} (blanks : List LineEnd) (ht : t ≠ [])
    (hf : f.rest = blanks.flatMap (fun e => (empty e).octets) ++ y)
    (hread : ∀ count, ByteReader.readLine { f with rest := y, lastTaken := count } =
      (.ok (some t), f')) : firstLine f = (.ok (some t), f') := by
  -- Each empty line is read by itself and passed over.
  induction blanks generalizing f with
  | nil =>
    obtain ⟨rest, charset, lastTaken⟩ := f
    obtain rfl : rest = y := hf
    obtain ⟨c, cs, rfl⟩ := List.exists_cons_of_ne_nil ht
    rw [firstLine_eq, hread lastTaken]
  | cons e blanks ih =>
    rw [List.flatMap_cons, List.append_assoc] at hf
    rw [firstLine_eq, (empty e).readLine_eq hf]
    exact ih rfl hread

/-- Empty lines in front of a request line are passed over. -/
theorem firstLine_eq_of_empty (blanks : List LineEnd) (hl : l.text ≠ [])
    (hf : f.rest = blanks.flatMap (fun e => (empty e).octets) ++ (l.octets ++ y)) :
    firstLine f = (.ok (some l.text), { f with rest := y, lastTaken := l.octets.length }) :=
  firstLine_eq_of_blanks blanks hl hf fun _ => l.readLine_eq rfl

end WireLine

end HttpWire
