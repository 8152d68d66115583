import HttpWire.Proofs.Reading.Flatten
import HttpWire.Reading.Pieces

/-!
# Operations in a row

A reader is used by one operation after the other, also behind one that has failed.  What each of
them does to the octets that are left is said here once, without a reader: `Takes` has a rule for
each way in which a line, a block or the rest of the octets is taken, and `TakesAll` chains the
rules.

The flat reader follows the rules and nothing else does (`Operation.perform_flat_iff`), and a
buffered reader whose source never fails follows them on the octets of its source, in whatever
pieces they come (`performAll_ofSource`).
-/

namespace HttpWire

/-- An operation of a reader. -/
inductive Operation
  | line
  | exact (count : Nat)
  | toEnd
deriving DecidableEq

/-- What an operation answers. -/
inductive Outcome
  | line (answer : Except (Stop ReceiveError) (Option Text))
  | octets (answer : Except (Stop ReceiveError) Bytes)

section

variable {ρ : Type} [ByteReader ρ]

/-- Performs an operation. -/
def Operation.perform (op : Operation) (r : ρ) : Outcome × ρ :=
  match op with
  | .line => (.line (ByteReader.readLine r).1, (ByteReader.readLine r).2)
  | .exact count => (.octets (ByteReader.readExact count r).1, (ByteReader.readExact count r).2)
  | .toEnd => (.octets (ByteReader.readToEnd r).1, (ByteReader.readToEnd r).2)

/-- Performs operations one after the other.  Each answer comes with the number of octets that the
reader says it took. -/
def performAll (ops : List Operation) (r : ρ) : List (Outcome × Nat) × ρ :=
  match ops with
  | [] => ([], r)
  | op :: ops =>
    (((op.perform r).1, ByteReader.lastTaken (op.perform r).2) ::
        (performAll ops (op.perform r).2).1,
      (performAll ops (op.perform r).2).2)

end

/-! ### The rules -/

/-- What the octets of a line read as: in ASCII their text, unless there is an octet that is none;
in UTF-8 their text with whatever is none replaced. -/
inductive LineCharset.Reads : LineCharset → Bytes → Except (Stop ReceiveError) (Option Text) → Prop
  | ascii {line} (h : ∀ b ∈ line, b < 0x80) :
    Reads .ascii line (.ok (some (line.map fun b => Char.ofNat b.toNat)))
  | noAscii {line} (h : ∃ b ∈ line, 0x80 ≤ b) :
    Reads .ascii line (.error (.fault (.undecodable .ascii)))
  | utf8 {line} : Reads .utf8 line (.ok (some (Utf8.decodeLossy line)))

/-- From octets an operation takes so many, answers, and leaves others. -/
inductive Takes (charset : LineCharset) : Operation → Bytes → Outcome → Nat → Bytes → Prop
  /-- Where nothing is left there is no line. -/
  | noLine : Takes charset .line [] (.line (.ok none)) 0 []
  /-- A line goes to the first line feed.  One carriage return in front of it is no part of it. -/
  | crlf {line after answer} (hno : lineFeed ∉ line) (hreads : charset.Reads line answer) :
    Takes charset .line (line ++ carriageReturn :: lineFeed :: after) (.line answer)
      (line.length + 2) after
  | lf {line after answer} (hno : lineFeed ∉ line) (hend : line.getLast? ≠ some carriageReturn)
    (hreads : charset.Reads line answer) :
    Takes charset .line (line ++ lineFeed :: after) (.line answer) (line.length + 1) after
  /-- Without a line feed all that is left is the line, a carriage return at its end included. -/
  | lastLine {line answer} (hne : line ≠ []) (hno : lineFeed ∉ line)
    (hreads : charset.Reads line answer) : Takes charset .line line (.line answer) line.length []
  | exact {block after} :
    Takes charset (.exact block.length) (block ++ after) (.octets (.ok block)) block.length after
  /-- A block that is not all there is lost. -/
  | tooShort {count rest} (h : rest.length < count) :
    Takes charset (.exact count) rest (.octets (.error (.fault (.truncated count rest.length))))
      rest.length []
  | toEnd {rest} : Takes charset .toEnd rest (.octets (.ok rest)) rest.length []

/-- Operations one after the other, each on what the one before it has left. -/
inductive TakesAll (charset : LineCharset) :
    List Operation → Bytes → List (Outcome × Nat) → Bytes → Prop
  | nil {rest} : TakesAll charset [] rest [] rest
  | cons {op ops outcome taken outcomes rest rest' rest''}
    (h : Takes charset op rest outcome taken rest')
    (hs : TakesAll charset ops rest' outcomes rest'') :
    TakesAll charset (op :: ops) rest ((outcome, taken) :: outcomes) rest''

/-! ### Lines -/

theorem LineCharset.reads_iff {charset : LineCharset} {line : Bytes}
    {answer : Except (Stop ReceiveError) (Option Text)} :
    charset.Reads line answer ↔ charset.answer line = answer := by
  constructor
  · intro h
    cases h with
    | ascii h =>
      have hall : line.all (· < 0x80) = true := by simpa using h
      simp only [LineCharset.answer, decode, Utf8.decodeAscii?, hall, if_true]
    | noAscii h =>
      obtain ⟨b, hb, hhigh⟩ := h
      have hall : ¬ line.all (· < 0x80) = true := by
        intro hall
        have hlow : b < 0x80 := of_decide_eq_true (List.all_eq_true.mp hall b hb)
        exact absurd hlow (UInt8.not_lt.mpr hhigh)
      simp only [LineCharset.answer, decode, Utf8.decodeAscii?, if_neg hall]
    | utf8 => rfl
  · rintro rfl
    cases charset with
    | utf8 => exact .utf8
    | ascii =>
      by_cases hall : line.all (· < 0x80) = true
      · have h : Reads .ascii line _ := .ascii (by simpa using hall)
        simpa only [LineCharset.answer, decode, Utf8.decodeAscii?, hall, if_true] using h
      · have hhigh : ∃ b ∈ line, 0x80 ≤ b := by simpa using hall
        have h := Reads.noAscii hhigh
        simpa only [LineCharset.answer, decode, Utf8.decodeAscii?, if_neg hall] using h

theorem dropReturn_concat (line : Bytes) : dropReturn (line ++ [carriageReturn]) = line := by
  rw [dropReturn, List.getLast?_concat, if_pos rfl, List.dropLast_concat]

/-- In front of a line feed there is a line with a carriage return behind it, or one that does not
end in any. -/
theorem dropReturn_cases (before : Bytes) :
    before = dropReturn before ++ [carriageReturn] ∨
      dropReturn before = before ∧ before.getLast? ≠ some carriageReturn := by
  by_cases h : before.getLast? = some carriageReturn
  · obtain ⟨line, rfl⟩ := List.getLast?_eq_some_iff.mp h
    rw [dropReturn_concat]
    exact .inl rfl
  · rw [dropReturn, if_neg h]
    exact .inr ⟨rfl, h⟩

/-! ### The flat reader -/

section

variable {charset : LineCharset}

/-- A line is taken by one of the rules for lines. -/
theorem takes_readLine (f : FlatReader) :
    Takes f.charset .line f.rest (.line f.readLine.1) f.readLine.2.lastTaken f.readLine.2.rest := by
  obtain ⟨rest, charset, i⟩ := f
  rw [FlatReader.readLine]
  cases hs : splitFirst (· == lineFeed) rest with
  | none =>
    have hno : lineFeed ∉ rest := splitFirst_beq_eq_none_iff.mp hs
    cases rest with
    | nil => exact .noLine
    | cons b bs => exact .lastLine (List.cons_ne_nil b bs) hno (LineCharset.reads_iff.mpr rfl)
  | some parts =>
    obtain ⟨before, sep, after⟩ := parts
    obtain ⟨rfl, rfl, hno⟩ := splitFirst_beq_eq_some_iff.mp hs
    have hreads : charset.Reads (dropReturn before) (charset.answer (dropReturn before)) :=
      LineCharset.reads_iff.mpr rfl
    show Takes charset .line (before ++ lineFeed :: after)
      (.line (charset.answer (dropReturn before))) (before.length + 1) after
    rcases dropReturn_cases before with hreturn | ⟨hsame, hlast⟩
    · generalize dropReturn before = line at hreturn hreads ⊢
      subst hreturn
      have hno' : lineFeed ∉ line := fun h => hno (List.mem_append_left _ h)
      rw [List.append_assoc, List.length_append]
      exact .crlf hno' hreads
    · rw [hsame] at hreads ⊢
      exact .lf hno hlast hreads

/-- A block is taken by one of the rules for blocks. -/
theorem takes_readExact (count : Nat) (f : FlatReader) :
    Takes f.charset (.exact count) f.rest (.octets (f.readExact count).1)
      (f.readExact count).2.lastTaken (f.readExact count).2.rest := by
  obtain ⟨rest, charset, i⟩ := f
  rw [FlatReader.readExact]
  by_cases hle : count ≤ rest.length
  · have hlen : (rest.take count).length = count := List.length_take_of_le hle
    have h : Takes charset (.exact (rest.take count).length) (rest.take count ++ rest.drop count)
        _ _ _ := .exact
    rw [List.take_append_drop, hlen] at h
    simp only [if_pos hle, Nat.min_eq_left hle]
    exact h
  · have hlt : rest.length < count := Nat.lt_of_not_le hle
    simp only [if_neg hle, Nat.min_eq_right (Nat.le_of_lt hlt),
      List.drop_eq_nil_of_le (Nat.le_of_lt hlt)]
    exact .tooShort hlt

/-- A block that is there is taken. -/
theorem FlatReader.readExact_eq {f : FlatReader} {bs y : Bytes} (hf : f.rest = bs ++ y) :
    ByteReader.readExact bs.length f =
      (.ok bs, { f with rest := y, lastTaken := bs.length }) := by
  have hle : bs.length ≤ f.rest.length := by
    rw [hf, List.length_append]
    omega
  rw [show ByteReader.readExact bs.length f = f.readExact bs.length from rfl, readExact,
    if_pos hle, Nat.min_eq_left hle, hf, List.take_left, List.drop_left]

/-- A block that is taken was there. -/
theorem FlatReader.rest_of_readExact {f f' : FlatReader} {count : Nat} {bs : Bytes}
    (h : ByteReader.readExact count f = (.ok bs, f')) :
    bs.length = count ∧ f.rest = bs ++ f'.rest ∧ f'.charset = f.charset := by
  simp only [show ByteReader.readExact count f = f.readExact count from rfl, readExact,
    Prod.mk.injEq] at h
  obtain ⟨hbs, rfl⟩ := h
  by_cases hle : count ≤ f.rest.length
  · rw [if_pos hle] at hbs
    cases hbs
    exact ⟨List.length_take_of_le hle, (List.take_append_drop count f.rest).symm, rfl⟩
  · rw [if_neg hle] at hbs
    cases hbs

end

namespace Operation

variable {charset : LineCharset} {rest rest' : Bytes} {op : Operation} {outcome : Outcome}
  {taken : Nat}

/-- What an operation of the flat reader does is one of the rules. -/
theorem takes_perform (op : Operation) (f : FlatReader) :
    Takes f.charset op f.rest (op.perform f).1 (op.perform f).2.lastTaken
      (op.perform f).2.rest := by
  cases op with
  | line => exact takes_readLine f
  | exact count => exact takes_readExact count f
  | toEnd => exact .toEnd

/-- Of each rule the flat reader knows what to do, so the rules leave no choice. -/
theorem perform_of_takes (h : Takes charset op rest outcome taken rest') (i : Nat) :
    op.perform (FlatReader.mk rest charset i) =
      (outcome, FlatReader.mk rest' charset taken) := by
  have hline (r : FlatReader) : perform .line r = (.line r.readLine.1, r.readLine.2) := rfl
  have hexact (count : Nat) (r : FlatReader) :
      perform (.exact count) r = (.octets (r.readExact count).1, (r.readExact count).2) := rfl
  cases h with
  | noLine => rfl
  | @crlf line _ answer hno hreads =>
    have hno' : lineFeed ∉ line ++ [carriageReturn] := by
      intro hmem
      rcases List.mem_append.mp hmem with hmem | hmem
      · exact hno hmem
      · exact absurd (List.mem_singleton.mp hmem) (by decide)
    have hcut : splitFirst (· == lineFeed) (line ++ [carriageReturn] ++ lineFeed :: rest') = _ :=
      splitFirst_beq_append_cons hno'
    rw [List.append_assoc, List.singleton_append] at hcut
    rw [hline, FlatReader.readLine]
    simp only [hcut, dropReturn_concat, LineCharset.reads_iff.mp hreads, List.length_append,
      List.length_singleton]
  | lf hno hend hreads =>
    rw [hline, FlatReader.readLine]
    simp only [splitFirst_beq_append_cons hno, dropReturn, if_neg hend, LineCharset.reads_iff.mp hreads]
  | lastLine hne hno hreads =>
    have hcut : splitFirst (· == lineFeed) rest = none := splitFirst_beq_eq_none_iff.mpr hno
    rw [hline, FlatReader.readLine]
    simp only [hcut, List.isEmpty_eq_false_iff.mpr hne, LineCharset.reads_iff.mp hreads,
      Bool.false_eq_true, if_false]
  | @exact block =>
    have hle : block.length ≤ (block ++ rest').length := by
      rw [List.length_append]
      omega
    rw [hexact, FlatReader.readExact]
    simp only [if_pos hle, Nat.min_eq_left hle, List.take_left, List.drop_left]
  | tooShort hlt =>
    rw [hexact, FlatReader.readExact]
    simp only [if_neg (Nat.not_le.mpr hlt), Nat.min_eq_right (Nat.le_of_lt hlt),
      List.drop_eq_nil_of_le (Nat.le_of_lt hlt)]
  | toEnd => rfl

@[simp] theorem charset_perform (op : Operation) (f : FlatReader) :
    (op.perform f).2.charset = f.charset :=
  congrArg (fun x => x.2.charset) (perform_of_takes (op.takes_perform f) f.lastTaken)

/-- **The flat reader is the rules.** -/
theorem perform_flat_iff (f : FlatReader) :
    (op.perform f).1 = outcome ∧ (op.perform f).2.lastTaken = taken ∧ (op.perform f).2.rest = rest ↔
      Takes f.charset op f.rest outcome taken rest := by
  constructor
  · rintro ⟨rfl, rfl, rfl⟩
    exact op.takes_perform f
  · intro h
    have heq := perform_of_takes h f.lastTaken
    exact ⟨congrArg Prod.fst heq, congrArg (·.2.lastTaken) heq, congrArg (·.2.rest) heq⟩

end Operation

/-- A line that a rule takes is read. -/
theorem FlatReader.readLine_of_takes {f : FlatReader} {left : Bytes} {taken : Nat}
    {answer : Except (Stop ReceiveError) (Option Text)}
    (h : Takes f.charset .line f.rest (.line answer) taken left) :
    ByteReader.readLine f = (answer, { f with rest := left, lastTaken := taken }) := by
  have hperform : Operation.perform .line f =
      (.line answer, { f with rest := left, lastTaken := taken }) :=
    Operation.perform_of_takes h f.lastTaken
  have hreader : (Operation.perform .line f).2 = _ := congrArg Prod.snd hperform
  exact Prod.ext (Outcome.line.inj (congrArg Prod.fst hperform)) hreader

/-- A line is taken from the front. -/
theorem FlatReader.suffix_readLine (r : FlatReader) : r.readLine.2.rest <:+ r.rest := by
  unfold readLine
  cases hs : splitFirst (· == lineFeed) r.rest with
  | none => exact List.nil_suffix
  | some parts =>
    obtain ⟨before, sep, after⟩ := parts
    refine ⟨before ++ [sep], ?_⟩
    rw [splitFirst_eq_some hs, List.append_assoc, List.singleton_append]

/-- A flat reader only moves forward. -/
theorem FlatReader.preserved_suffix (y : Bytes) : Preserved fun r : FlatReader => r.rest <:+ y where
  readLine r h := r.suffix_readLine.trans h
  readExact n r h := (List.drop_suffix n r.rest).trans h

/-- Operations in a row on the flat reader follow the rules one after the other. -/
theorem performAll_flat_iff {ops : List Operation} {f : FlatReader}
    {outcomes : List (Outcome × Nat)} {rest : Bytes} :
    (performAll ops f).1 = outcomes ∧ (performAll ops f).2.rest = rest ↔
      TakesAll f.charset ops f.rest outcomes rest := by
  induction ops generalizing f outcomes with
  | nil =>
    constructor
    · rintro ⟨rfl, rfl⟩
      exact .nil
    · intro h
      cases h
      exact ⟨rfl, rfl⟩
  | cons op ops ih =>
    constructor
    · rintro ⟨rfl, rfl⟩
      have hs := ih.mp ⟨rfl, rfl⟩
      rw [Operation.charset_perform] at hs
      exact .cons (op.takes_perform f) hs
    · intro h
      cases h with
      | @cons _ _ outcome taken outcomes _ rest' _ h hs =>
        obtain ⟨houtcome, htaken, hrest⟩ := (Operation.perform_flat_iff f).mpr h
        obtain ⟨houtcomes, hrest'⟩ := ih.mpr (show TakesAll (op.perform f).2.charset _ _ _ _ by
          rw [Operation.charset_perform, hrest]
          exact hs)
        refine ⟨?_, hrest'⟩
        show ((op.perform f).1, (op.perform f).2.lastTaken) ::
          (performAll ops (op.perform f).2).1 = _
        rw [houtcome, htaken, houtcomes]

/-! ### The buffered reader -/

namespace BufferedReader

variable {σ : Type} [ByteSource σ] [StreamSource σ]

/-- In a regime that admits no stop, an operation does what it does on the flat reader. -/
theorem perform_flatten {g : Regime σ} {r : BufferedReader σ} (hm : ¬ g.mayStop) (hg : r.Under g)
    (op : Operation) :
    (op.perform r).1 = (op.perform r.flatten).1 ∧ (op.perform r).2.Under g ∧
      (op.perform r).2.flatten = (op.perform r.flatten).2 := by
  have hlost {e} : ¬ g.lost e := fun h => hm h.1
  cases op with
  | line =>
    obtain ⟨heq, hg', hf⟩ :=
      ((lockstep_flatten g).readLine (flattensTo hg)).eq_of_not_lost fun _ _ => hlost
    exact ⟨congrArg Outcome.line heq, hg', hf⟩
  | exact count =>
    obtain ⟨heq, hg', hf⟩ :=
      ((lockstep_flatten g).readExact count (flattensTo hg)).eq_of_not_lost fun _ _ => hlost
    exact ⟨congrArg Outcome.octets heq, hg', hf⟩
  | toEnd =>
    have hag : Agree g.lost (FlattensTo g) (takeToEnd [] { r with lastTaken := 0 }) _ :=
      takeToEnd_flatten hg
    obtain ⟨heq, hg', hf⟩ := hag.eq_of_not_lost fun _ _ => hlost
    exact ⟨congrArg Outcome.octets heq, hg', hf⟩

theorem performAll_flatten {g : Regime σ} {r : BufferedReader σ} (hm : ¬ g.mayStop)
    (hg : r.Under g) (ops : List Operation) :
    (performAll ops r).1 = (performAll ops r.flatten).1 ∧
      (performAll ops r).2.flatten = (performAll ops r.flatten).2 := by
  induction ops generalizing r with
  | nil => exact ⟨rfl, rfl⟩
  | cons op ops ih =>
    obtain ⟨houtcome, hg', hflat⟩ := perform_flatten hm hg op
    obtain ⟨houtcomes, hrest⟩ := ih hg'
    rw [hflat] at houtcomes hrest
    refine ⟨?_, hrest⟩
    show ((op.perform r).1, (op.perform r).2.flatten.lastTaken) ::
        (performAll ops (op.perform r).2).1 =
      ((op.perform r.flatten).1, (op.perform r.flatten).2.lastTaken) :: _
    rw [houtcome, hflat, houtcomes]

/-- A reader whose source never fails follows the rules on the octets that are pending. -/
theorem performAll_iff {r : BufferedReader σ} (hr : r.NeverFails) {ops : List Operation}
    {outcomes : List (Outcome × Nat)} {rest : Bytes} :
    (performAll ops r).1 = outcomes ∧ (performAll ops r).2.pending = rest ↔
      TakesAll r.charset ops r.pending outcomes rest := by
  obtain ⟨g, hm, hg⟩ := hr
  obtain ⟨houtcomes, hflat⟩ := performAll_flatten hm hg ops
  rw [houtcomes, show (performAll ops r).2.pending = (performAll ops r).2.flatten.rest from rfl,
    hflat]
  exact performAll_flat_iff (f := r.flatten)

/-- **A buffered reader is a string of octets.**  Whatever operations are performed on it, also
behind failed ones, the answers, the counts and the octets left are those that the rules give for
what its source delivers.  Neither the pieces in which the octets come nor the capacity have a part
in that. -/
theorem performAll_ofSource {s : σ} {capacity : Nat} {charset : LineCharset}
    (hs : (ofSource s capacity charset).NeverFails) (ops : List Operation) :
    (∀ outcomes rest,
        (performAll ops (ofSource s capacity charset)).1 = outcomes ∧
            (performAll ops (ofSource s capacity charset)).2.pending = rest ↔
          TakesAll charset ops (StreamSource.upcoming s) outcomes rest) ∧
      ∀ {τ : Type} [ByteSource τ] [StreamSource τ] {s' : τ} {capacity' : Nat},
        (ofSource s' capacity' charset).NeverFails →
          StreamSource.upcoming s' = StreamSource.upcoming s →
            (performAll ops (ofSource s' capacity' charset)).1 =
              (performAll ops (ofSource s capacity charset)).1 := by
  refine ⟨fun _ _ => performAll_iff hs, ?_⟩
  intro τ _ _ s' capacity' hs' hsame
  -- The rules know only of the octets, and those are the same.
  have hall : TakesAll charset ops (StreamSource.upcoming s')
      (performAll ops (ofSource s capacity charset)).1
      (performAll ops (ofSource s capacity charset)).2.pending := by
    rw [hsame]
    exact (performAll_iff hs).mp ⟨rfl, rfl⟩
  exact ((performAll_iff hs').mpr hall).1

end BufferedReader

/-! ### Sources of pieces -/

namespace Pieces

/-- The octets of the pieces up to the first that has none. -/
def upcoming (s : Pieces) : Bytes :=
  (s.pieces.takeWhile (· ≠ [])).flatten

theorem upcoming_of_read {n : Nat} {s s' : Pieces} {b : UInt8} {bs : Bytes}
    (h : read n s = (.ok (b :: bs), s')) : s.upcoming = b :: bs ++ s'.upcoming := by
  obtain ⟨pieces⟩ := s
  cases pieces with
  | nil => cases h
  | cons piece rest =>
    simp only [read, Prod.mk.injEq, Except.ok.injEq] at h
    obtain ⟨htake, rfl⟩ := h
    have hne : piece ≠ [] := by
      rintro rfl
      simp at htake
    rw [← htake, upcoming, List.takeWhile_cons_of_pos (by simpa using hne), List.flatten_cons]
    by_cases hle : piece.length ≤ n
    · rw [if_pos hle, List.take_of_length_le hle]
      rfl
    · have hne' : piece.drop n ≠ [] := by
        rw [ne_eq, List.drop_eq_nil_iff]
        exact hle
      rw [if_neg hle, upcoming, List.takeWhile_cons_of_pos (by simpa using hne'),
        List.flatten_cons, ← List.append_assoc, List.take_append_drop]

/-- One piece is the octets as they are. -/
theorem upcoming_singleton (piece : Bytes) : upcoming ⟨[piece]⟩ = piece := by
  cases piece with
  | nil => rfl
  | cons b bs => simp [upcoming]

theorem upcoming_of_end {n : Nat} {s s' : Pieces} (hn : 0 < n) (h : read n s = (.ok [], s')) :
    s.upcoming = [] := by
  obtain ⟨pieces⟩ := s
  cases pieces with
  | nil => rfl
  | cons piece rest =>
    simp only [read, Prod.mk.injEq, Except.ok.injEq, List.take_eq_nil_iff] at h
    rcases h.1 with h0 | rfl
    · omega
    · rfl

instance : StreamSource Pieces where
  upcoming := upcoming
  upcoming_of_read := upcoming_of_read
  upcoming_of_end := upcoming_of_end

/-- The regime of pieces: no read is stopped. -/
def regime : Regime Pieces where
  isOpen _ := True
  isSpent _ := True
  mayStop := False
  read {n s} _ _ := by
    rcases hr : ByteSource.read n s with ⟨e | _ | ⟨b, bs⟩, s'⟩
    · exact absurd hr ne_error_read
    · exact .inr (.inl ⟨s', rfl, trivial⟩)
    · exact .inl ⟨b, bs, s', rfl, trivial⟩

theorem neverFails (s : Pieces) (capacity : Nat) (charset : LineCharset) :
    (BufferedReader.ofSource s capacity charset).NeverFails :=
  ⟨regime, id, trivial⟩

end Pieces

/-- A line whose end is cut in two, one with an octet that is no ASCII, a block that is not all
there, and what is asked for behind it.  What comes after the read of nothing is never seen. -/
theorem BufferedReader.performAll_ofSource_pieces :
    (performAll [.line, .line, .exact 3, .toEnd, .line]
      (ofSource (Pieces.mk [[0x61, 0x0D], [0x0A, 0xFF], [0x0A, 0x0D], [], [0x7A]]) 0 .ascii)).1 =
        [(.line (.ok (some "a".toList)), 3), (.line (.error (.fault (.undecodable .ascii))), 2),
          (.octets (.error (.fault (.truncated 3 1))), 1), (.octets (.ok []), 0),
          (.line (.ok none), 0)] := by
  have hanswers := (performAll_ofSource (Pieces.neverFails
    ⟨[[0x61, 0x0D], [0x0A, 0xFF], [0x0A, 0x0D], [], [0x7A]]⟩ 0 .ascii)
    [.line, .line, .exact 3, .toEnd, .line]).1
  refine ((hanswers _ []).mpr ?_).1
  show TakesAll .ascii _
    ([0x61] ++ carriageReturn :: lineFeed :: ([0xFF] ++ lineFeed :: [0x0D])) _ []
  refine .cons (.crlf (by decide) (.ascii (List.forall_mem_singleton.mpr (by decide)))) ?_
  refine .cons (.lf (by decide) (by decide) (.noAscii (by decide))) ?_
  exact .cons (.tooShort (by decide)) (.cons .toEnd (.cons .noLine .nil))

end HttpWire
