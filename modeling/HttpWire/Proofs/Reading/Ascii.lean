import HttpWire.Proofs.Message.Line
import HttpWire.Proofs.Reading.Operations

/-!
# Readers in front of octets of ASCII

Of ASCII every line is read (`IsAsciiReader.exists_readLine`).  In which character set the lines are
read makes no difference to anything that is written over readers (`lockstep_inAscii`).
-/

namespace HttpWire

/-! ### Lines -/

section

variable {f : FlatReader} {octets left : Bytes}

/-- Octets of ASCII, and lines that are read as such. -/
structure IsAsciiReader (f : FlatReader) : Prop where
  charset : f.charset = .ascii
  octets : ∀ b ∈ f.rest, b < 0x80

/-- Octets of ASCII read as a text. -/
theorem exists_text_of_reads {line : Bytes} {answer : Except (Stop ReceiveError) (Option Text)}
    (h : LineCharset.ascii.Reads line answer) (hline : ∀ b ∈ line, b < 0x80) :
    ∃ x, answer = .ok x := by
  cases h with
  | ascii _ => exact ⟨_, rfl⟩
  | noAscii hhigh =>
    obtain ⟨b, hb, hb'⟩ := hhigh
    exact absurd (hline b hb) (UInt8.not_lt.mpr hb')

/-- Of ASCII every line is read. -/
theorem exists_ok_of_takes {answer : Except (Stop ReceiveError) (Option Text)} {taken : Nat}
    (h : Takes .ascii .line octets (.line answer) taken left) (hoctets : ∀ b ∈ octets, b < 0x80) :
    ∃ x, answer = .ok x := by
  cases h with
  | noLine => exact ⟨_, rfl⟩
  | crlf _ hreads =>
    exact exists_text_of_reads hreads fun b hb => hoctets b (List.mem_append_left _ hb)
  | lf _ _ hreads =>
    exact exists_text_of_reads hreads fun b hb => hoctets b (List.mem_append_left _ hb)
  | lastLine _ _ hreads => exact exists_text_of_reads hreads hoctets

/-- Without a line nothing is left. -/
theorem eq_nil_of_takes_none {taken : Nat}
    (h : Takes .ascii .line octets (.line (.ok none)) taken left) : octets = [] ∧ left = [] := by
  cases h with
  | noLine => exact ⟨rfl, rfl⟩
  | crlf _ hreads => cases hreads
  | lf _ _ hreads => cases hreads
  | lastLine _ _ hreads => cases hreads

theorem IsAsciiReader.exists_readLine (h : IsAsciiReader f) :
    ∃ x g, ByteReader.readLine f = (.ok x, g) ∧ IsAsciiReader g ∧
      Takes .ascii .line f.rest (.line (.ok x)) g.lastTaken g.rest := by
  have htakes := takes_readLine f
  rw [h.charset] at htakes
  obtain ⟨x, hx⟩ := exists_ok_of_takes htakes h.octets
  rw [hx] at htakes
  refine ⟨x, f.readLine.2, Prod.ext hx rfl, ⟨?_, ?_⟩, htakes⟩
  · exact (FlatReader.charset_readLine f).trans h.charset
  · intro b hb
    exact h.octets b (f.suffix_readLine.subset hb)

end

/-! ### In any character set -/

section

variable {f g : FlatReader} {line : Bytes}

theorem mem_of_mem_dropReturn {b : UInt8} (h : b ∈ dropReturn line) : b ∈ line := by
  rw [dropReturn] at h
  split at h
  · exact List.dropLast_subset line h
  · exact h

/-- Octets of ASCII read alike in every character set. -/
theorem LineCharset.answer_of_ascii (hline : ∀ b ∈ line, b < 0x80) (charset : LineCharset) :
    charset.answer line = ascii.answer line := by
  obtain ⟨hascii, hencode⟩ := Utf8.encode_of_octets hline
  rw [← hencode, answer_encode fun _ => hascii, answer_encode fun _ => hascii]

/-- A reader in front of octets of ASCII, and the same reader with lines in ASCII. -/
def InAscii (f g : FlatReader) : Prop :=
  g = { f with charset := .ascii } ∧ IsAsciiReader g

/-- A line of ASCII is the same in every character set. -/
theorem readLine_inAscii (hoctets : ∀ b ∈ f.rest, b < 0x80) :
    FlatReader.readLine { f with charset := .ascii } =
      (f.readLine.1, { f.readLine.2 with charset := .ascii }) := by
  rw [FlatReader.readLine, FlatReader.readLine]
  cases hcut : splitFirst (· == lineFeed) f.rest with
  | none => simp only [LineCharset.answer_of_ascii hoctets f.charset]
  | some parts =>
    obtain ⟨before, sep, after⟩ := parts
    have hbefore : ∀ b ∈ dropReturn before, b < 0x80 := by
      intro b hb
      apply hoctets
      rw [splitFirst_eq_some hcut]
      exact List.mem_append_left _ (mem_of_mem_dropReturn hb)
    simp only [LineCharset.answer_of_ascii hbefore f.charset]

/-- **In front of octets of ASCII the character set of the lines makes no difference.** -/
theorem lockstep_inAscii : Lockstep (fun _ => False) InAscii where
  readLine := by
    rintro f g ⟨rfl, hascii⟩
    obtain ⟨_, _, hread, hascii', -⟩ := hascii.exists_readLine
    have heq : ByteReader.readLine { f with charset := .ascii } =
        (f.readLine.1, { f.readLine.2 with charset := .ascii }) :=
      readLine_inAscii hascii.octets
    obtain ⟨-, rfl⟩ := Prod.mk.inj (hread.symm.trans heq)
    rw [heq]
    exact .same ⟨rfl, hascii'⟩
  readExact n := by
    rintro f g ⟨rfl, hascii⟩
    refine .same ⟨rfl, hascii.charset, ?_⟩
    intro b hb
    exact hascii.octets b (List.mem_of_mem_drop hb)
  lastTaken := by
    rintro f g ⟨rfl, -⟩
    rfl

end

end HttpWire
