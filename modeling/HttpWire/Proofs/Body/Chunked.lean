import HttpWire.Proofs.Body.SizeLine
import HttpWire.Proofs.Field.Block

/-!
# The chunked coding on the wire

`ChunkedCoding` says which octets carry a payload: chunks, each a line that announces a size, so
many octets and an empty line; then a line that announces the size zero, and a block of trailers.

A reader of chunks that starts in front of such octets reads the payload and stops right behind them
(`takeToEnd_of_coding`), and in ASCII it reads nothing else (`coding_of_takeToEnd`): wherever the
octets break off or do not fit, the answer is an error.  Behind the trailers it leaves its inner
reader alone (`inner_performAll`).  All of that holds of a reader over a connection as it does of
one over a string of octets (`readToEnd_iff_coding`).
-/

namespace HttpWire

/-- Octets carry a payload in chunks, with trailers behind it. -/
inductive ChunkedCoding (charset : LineCharset) : Bytes → List Field → Bytes → Prop
  | last {t line trailers block} (hline : LineOf charset t line) (hsize : AnnouncesSize 0 t)
      (hblock : BlockOf charset trailers block) :
      ChunkedCoding charset [] trailers (line ++ block)
  | chunk {t line data empty payload trailers rest} (hline : LineOf charset t line)
      (hsize : AnnouncesSize data.length t) (hne : data ≠ []) (hempty : LineOf charset [] empty)
      (hrest : ChunkedCoding charset payload trailers rest) :
      ChunkedCoding charset (data ++ payload) trailers (line ++ (data ++ (empty ++ rest)))

namespace ChunkedReader

/-! ### What is sent is read -/

section

variable {c : ChunkedReader FlatReader} {t : Text} {line empty data octets block payload y : Bytes}
  {trailers : List Field} {size : Nat}

/-- The reader once its inner reader is elsewhere and so many octets more have been taken. -/
def moved (c : ChunkedReader FlatReader) (taken : Nat) (inner : FlatReader) :
    ChunkedReader FlatReader :=
  { c with inner, lastTaken := c.lastTaken + taken }

/-- The reader once the trailers have been read as well. -/
def ended (c : ChunkedReader FlatReader) (trailers : List Field) (taken : Nat)
    (inner : FlatReader) : ChunkedReader FlatReader :=
  { c.moved taken inner with
    trailers := if c.keepTrailers then ⟨c.trailers.fields ++ trailers⟩ else c.trailers
    finished := true }

theorem nextChunk_of_announced (hc : c.finished = false)
    (hline : LineOf c.inner.charset t line) (hsize : AnnouncesSize size t)
    (hrest : c.inner.rest = line ++ y) :
    c.nextChunk = readBehind size
      (c.moved line.length { c.inner with rest := y, lastTaken := line.length }) := by
  obtain ⟨u, hu, hread⟩ := readLine_of_lineOf hline hrest
  have hsize' : AnnouncesSize size u := by
    rcases hu with rfl | rfl
    · exact hsize
    · exact hsize.of_concat_return
  rw [nextChunk_of_sizeLine hc (congrArg Prod.fst hread) (chunkSize_eq_ok_iff.mpr hsize'), hread]
  rfl

theorem moved_moved (m n : Nat) (f g : FlatReader) :
    (c.moved m f).moved n g = c.moved (m + n) g := by
  simp only [moved, Nat.add_assoc]

theorem ended_moved (m n : Nat) (f g : FlatReader) :
    (c.moved m f).ended trailers n g = c.ended trailers (m + n) g := by
  rw [ended, moved_moved]
  rfl

/-- The data of a chunk are read with the empty line behind them. -/
theorem readChunkData_of_rest (hempty : LineOf c.inner.charset [] empty)
    (hrest : c.inner.rest = data ++ (empty ++ y)) :
    readChunkData data.length c = (.ok (some data),
      c.moved (data.length + empty.length)
        { c.inner with rest := y, lastTaken := empty.length }) := by
  have hread := readLine_of_empty (y := y)
    (f := { c.inner with rest := empty ++ y, lastTaken := data.length }) hempty rfl
  rw [readChunkData, FlatReader.readExact_eq hrest]
  show readChunkEnd data (c.counted _) = _
  rw [readChunkEnd, counted, hread]
  exact congrArg (Prod.mk _) (moved_moved data.length empty.length _ _)

/-- A block of trailers is read to its end. -/
theorem readTrailers_of_block (hblock : BlockOf c.inner.charset trailers block)
    (hrest : c.inner.rest = block ++ y) :
    ∃ last, c.readTrailers = (.ok none,
      c.ended trailers block.length { c.inner with rest := y, lastTaken := last }) := by
  obtain ⟨last, hread⟩ := readBlock_of_blockOf hblock hrest 0
    (if c.keepTrailers then c.trailers else {})
  refine ⟨last, ?_⟩
  rw [readTrailers, hread]
  simp only [ended, moved, Nat.zero_add]
  cases c.keepTrailers <;> rfl

/-- A chunk is read where it stands. -/
theorem nextChunk_of_chunk (hc : c.finished = false) (hline : LineOf c.inner.charset t line)
    (hsize : AnnouncesSize data.length t) (hne : data ≠ [])
    (hempty : LineOf c.inner.charset [] empty)
    (hrest : c.inner.rest = line ++ (data ++ (empty ++ y))) :
    c.nextChunk = (.ok (some data),
      c.moved (line.length + (data.length + empty.length))
        { c.inner with rest := y, lastTaken := empty.length }) := by
  let f : FlatReader := { c.inner with rest := data ++ (empty ++ y), lastTaken := line.length }
  have hread := readChunkData_of_rest (c := c.moved line.length f) hempty rfl
  rw [moved_moved] at hread
  rw [nextChunk_of_announced hc hline hsize hrest, readBehind_of_pos (List.length_pos_iff.mpr hne)]
  exact hread

/-- The last size line and the trailers are read where they stand. -/
theorem nextChunk_of_last (hc : c.finished = false) (hline : LineOf c.inner.charset t line)
    (hsize : AnnouncesSize 0 t) (hblock : BlockOf c.inner.charset trailers block)
    (hrest : c.inner.rest = line ++ (block ++ y)) :
    ∃ last, c.nextChunk = (.ok none,
      c.ended trailers (line.length + block.length)
        { c.inner with rest := y, lastTaken := last }) := by
  let f : FlatReader := { c.inner with rest := block ++ y, lastTaken := line.length }
  obtain ⟨last, hread⟩ := readTrailers_of_block (c := c.moved line.length f) hblock rfl
  rw [ended_moved] at hread
  rw [nextChunk_of_announced hc hline hsize hrest]
  exact ⟨last, hread⟩

/-- **What carries a payload is read as the payload**, up to the octet behind it. -/
theorem takeToEnd_of_coding (hcoding : ChunkedCoding c.inner.charset payload trailers octets)
    (hc : c.finished = false) (hrest : c.inner.rest = octets ++ y) (got : Bytes) :
    ∃ last, takeToEnd got c = (.ok (got ++ payload),
      c.ended trailers octets.length { c.inner with rest := y, lastTaken := last }) := by
  -- By induction on the chunks; what has been got so far is in front of what they carry.
  generalize hcharset : c.inner.charset = charset at hcoding
  induction hcoding generalizing c got with
  | last hline hsize hblock =>
    subst hcharset
    rw [List.append_assoc] at hrest
    obtain ⟨last, hread⟩ := nextChunk_of_last hc hline hsize hblock hrest
    refine ⟨last, ?_⟩
    rw [takeToEnd_eq, hread, List.append_nil, List.length_append]
  | @chunk t line data empty payload trailers rest hline hsize hne hempty hcoding ih =>
    subst hcharset
    simp only [List.append_assoc] at hrest
    have hread := nextChunk_of_chunk hc hline hsize hne hempty hrest
    let f : FlatReader := { c.inner with rest := rest ++ y, lastTaken := empty.length }
    obtain ⟨last, hrest'⟩ :=
      ih (c := c.moved (line.length + (data.length + empty.length)) f) hc rfl (got ++ data) rfl
    refine ⟨last, ?_⟩
    rw [ended_moved] at hrest'
    rw [takeToEnd_eq, hread, ← List.append_assoc]
    simp only [List.length_append, ← Nat.add_assoc] at hrest' ⊢
    exact hrest'

end

/-! ### What is read was sent -/

section

variable {c c' : ChunkedReader FlatReader} {got all : Bytes}

/-- A line that announces a size is there, and what it announces is read behind it. -/
theorem exists_announced (hascii : c.inner.charset = .ascii) (hc : c.finished = false)
    {x : Option Bytes} (h : c.nextChunk = (.ok x, c')) :
    ∃ size t line f, LineOf .ascii t line ∧ AnnouncesSize size t ∧
      c.inner.rest = line ++ f.rest ∧ f.charset = .ascii ∧
        readBehind size (c.counted f) = (.ok x, c') := by
  obtain ⟨t, size, hl, hsize⟩ := exists_sizeLine hc h
  rw [nextChunk_of_sizeLine hc hl hsize] at h
  have hcharset := FlatReader.charset_readLine c.inner
  rcases hread : ByteReader.readLine c.inner with ⟨answer, f⟩
  rw [hread] at hl h hcharset
  obtain rfl : answer = _ := hl
  rcases lineOf_of_readLine hascii hread with ⟨line, hline, hrest, -⟩ | ⟨hend, -⟩
  · exact ⟨size, t, line, f, hline, chunkSize_eq_ok_iff.mp hsize, hrest, hcharset.trans hascii, h⟩
  -- A size line that has used everything up has neither data nor trailers behind it.
  · exact absurd (congrArg Prod.fst h) (ne_ok_readBehind_of_exhausted hend size x)

/-- What is read as the data of a chunk is there, with an empty line behind it. -/
theorem rest_of_readChunkData (hascii : c.inner.charset = .ascii) {size : Nat} {x : Option Bytes}
    (h : readChunkData size c = (.ok x, c')) :
    ∃ data empty, x = some data ∧ data.length = size ∧ LineOf .ascii [] empty ∧
      c.inner.rest = data ++ (empty ++ c'.inner.rest) ∧ c'.inner.charset = .ascii ∧
        c'.finished = c.finished := by
  rw [readChunkData] at h
  rcases hread : ByteReader.readExact size c.inner with ⟨e | data, f⟩
  · rw [hread] at h
    cases h
  · obtain ⟨hlength, hrest, hcharset⟩ := FlatReader.rest_of_readExact hread
    rw [hread] at h
    simp only [readChunkEnd, counted] at h
    have hcharset' := FlatReader.charset_readLine f
    rcases hl : ByteReader.readLine f with ⟨e | _ | _ | ⟨d, ds⟩, f'⟩
    all_goals
      rw [hl] at h
      cases h
    rw [hl] at hcharset'
    have hascii' : f.charset = .ascii := hcharset.trans hascii
    rcases lineOf_of_readLine hascii' hl with ⟨empty, hempty, hrest', -⟩ | ⟨-, hne⟩
    · exact ⟨data, empty, rfl, hlength, hempty, hrest.trans (congrArg (data ++ ·) hrest'),
        hcharset'.trans hascii', rfl⟩
    · exact absurd rfl hne

/-- What is read as trailers is a block of fields. -/
theorem rest_of_readTrailers (hascii : c.inner.charset = .ascii) {x : Option Bytes}
    (h : c.readTrailers = (.ok x, c')) :
    ∃ trailers block, x = none ∧ BlockOf .ascii trailers block ∧
      c.inner.rest = block ++ c'.inner.rest := by
  rw [readTrailers] at h
  rcases hread : Headers.readBlock 0 (if c.keepTrailers then c.trailers else {}) c.inner with
    ⟨e | length, trailers, f⟩
  · rw [hread] at h
    cases h
  · rw [hread] at h
    obtain ⟨fields, block, hblock, hrest, -⟩ := blockOf_of_readBlock hascii hread
    cases h
    exact ⟨fields, block, rfl, hblock, hrest⟩

/-- **What is read as a payload carries it.** -/
theorem coding_of_takeToEnd (hascii : c.inner.charset = .ascii) (hc : c.finished = false)
    (h : takeToEnd got c = (.ok all, c')) :
    ∃ payload trailers octets, all = got ++ payload ∧
      ChunkedCoding .ascii payload trailers octets ∧ c.inner.rest = octets ++ c'.inner.rest := by
  fun_induction takeToEnd got c with
  | case1 => cases h
  | case2 got c chunk c₁ hnext ih =>
    obtain ⟨size, t, line, f, hline, hsize, hrest, hascii', hbehind⟩ :=
      exists_announced hascii hc hnext
    cases size with
    | zero =>
      obtain ⟨_, _, hnone, -⟩ := rest_of_readTrailers (c := c.counted f) hascii' hbehind
      cases hnone
    | succ size =>
      obtain ⟨data, empty, hsome, hlength, hempty, hrest', hascii₁, hc₁⟩ :=
        rest_of_readChunkData (c := c.counted f) hascii' hbehind
      obtain rfl := Option.some.inj hsome
      obtain ⟨payload, trailers, octets, rfl, hcoding, hrest₁⟩ := ih hascii₁ (hc₁.trans hc) h
      have hne : chunk ≠ [] := by
        rintro rfl
        cases hlength
      refine ⟨chunk ++ payload, trailers, line ++ (chunk ++ (empty ++ octets)),
        List.append_assoc .., .chunk hline (hlength ▸ hsize) hne hempty hcoding, ?_⟩
      rw [hrest, show f.rest = _ from hrest', hrest₁]
      simp only [List.append_assoc]
  | case3 got c c₁ hnext =>
    cases h
    obtain ⟨size, t, line, f, hline, hsize, hrest, hascii', hbehind⟩ :=
      exists_announced hascii hc hnext
    cases size with
    | zero =>
      obtain ⟨trailers, block, -, hblock, hrest'⟩ :=
        rest_of_readTrailers (c := c.counted f) hascii' hbehind
      refine ⟨[], trailers, line ++ block, (List.append_nil _).symm, .last hline hsize hblock, ?_⟩
      rw [hrest, show f.rest = _ from hrest', List.append_assoc]
    | succ size =>
      obtain ⟨_, _, hsome, -⟩ := rest_of_readChunkData (c := c.counted f) hascii' hbehind
      cases hsome

end

/-! ### Behind the trailers -/

section

variable {ρ : Type} [ByteReader ρ] {c : ChunkedReader ρ}

theorem nextChunk_of_finished (hc : c.finished = true) : c.nextChunk = (.ok none, c) := by
  rw [nextChunk, if_pos hc]

theorem takeToEnd_of_finished (hc : c.finished = true) (got : Bytes) :
    takeToEnd got c = (.ok got, c) := by
  rw [takeToEnd_eq, nextChunk_of_finished hc]

/-- Behind the trailers lines come from the payload at hand. -/
theorem inner_takeLine (hc : c.finished = true) :
    c.takeLine.2.inner = c.inner ∧ c.takeLine.2.finished = true := by
  rw [takeLine]
  split
  · exact ⟨rfl, hc⟩
  · split
    · next h =>
      rw [nextChunk_of_finished hc] at h
      cases h
    · next h =>
      rw [nextChunk_of_finished hc] at h
      cases h
    · next h =>
      rw [nextChunk_of_finished hc] at h
      cases h
      split <;> exact ⟨rfl, hc⟩

/-- Behind the trailers an operation leaves the inner reader alone. -/
theorem inner_perform (hc : c.finished = true) (op : Operation) :
    (op.perform c).2.inner = c.inner ∧ (op.perform c).2.finished = true := by
  cases op with
  | line => exact inner_takeLine (c := { c with lastTaken := 0 }) hc
  | exact count => exact ⟨rfl, hc⟩
  | toEnd =>
    have hread : c.readToEnd = (.ok c.pending, { c with pending := [], lastTaken := 0 }) :=
      takeToEnd_of_finished (c := { c with pending := [], lastTaken := 0 }) hc c.pending
    show c.readToEnd.2.inner = c.inner ∧ c.readToEnd.2.finished = true
    rw [hread]
    exact ⟨rfl, hc⟩

/-- Behind the trailers nothing more is taken from the inner reader. -/
theorem inner_performAll (hc : c.finished = true) (ops : List Operation) :
    (performAll ops c).2.inner = c.inner := by
  induction ops generalizing c with
  | nil => rfl
  | cons op ops ih =>
    obtain ⟨hinner, hfinished⟩ := inner_perform hc op
    exact (ih hfinished).trans hinner

end

/-! ### Over a connection -/

section

variable {ρ σ : Type} [ByteReader ρ] [ByteSource σ] [StreamSource σ] {r : BufferedReader σ}

/-- A reader of chunks that has not read anything yet. -/
def start (keepTrailers : Bool) (inner : ρ) : ChunkedReader ρ :=
  { inner, keepTrailers }

/-- The reader is behind a body of so many octets with such trailers, and stays there. -/
structure IsBehind (keepTrailers : Bool) (trailers : List Field) (taken : Nat)
    (c : ChunkedReader ρ) : Prop where
  finished : c.finished = true
  lastTaken : c.lastTaken = taken
  trailers : c.releaseTrailers.1 = ⟨if keepTrailers then trailers else []⟩
  inner : ∀ ops, (performAll ops c).2.inner = c.inner

theorem isBehind_ended {f g : FlatReader} (keepTrailers : Bool) (trailers : List Field)
    (taken : Nat) : IsBehind keepTrailers trailers taken
      ((start keepTrailers f).ended trailers taken g) where
  finished := rfl
  lastTaken := Nat.zero_add taken
  trailers := by cases keepTrailers <;> rfl
  inner ops := inner_performAll rfl ops

/-- A reader over a source that never fails reads what a reader over its octets reads. -/
theorem readToEnd_flatten (hr : r.NeverFails) (keepTrailers : Bool) :
    (start keepTrailers r).readToEnd.1 = (start keepTrailers r.flatten).readToEnd.1 ∧
      Over (fun r f => r.flatten = f) (start keepTrailers r).readToEnd.2
        (start keepTrailers r.flatten).readToEnd.2 := by
  obtain ⟨g, hm, hg⟩ := hr
  have hag := (BufferedReader.lockstep_flatten g).takeToEnd [] (c := start keepTrailers r)
    (d := start keepTrailers r.flatten)
    ⟨BufferedReader.flattensTo hg, rfl, rfl, rfl, rfl, rfl⟩
  obtain ⟨heq, hover⟩ := hag.eq_of_not_lost fun _ _ hlost => hm hlost.1
  exact ⟨heq, { hover with inner := hover.inner.2 }⟩

theorem isBehind_of_over {taken : Nat} {trailers : List Field} {keepTrailers : Bool}
    {c : ChunkedReader (BufferedReader σ)} {d : ChunkedReader FlatReader}
    (h : Over (fun r f => r.flatten = f) c d) (hd : IsBehind keepTrailers trailers taken d) :
    IsBehind keepTrailers trailers taken c where
  finished := h.finished.trans hd.finished
  lastTaken := h.lastTaken.trans hd.lastTaken
  trailers := h.trailers.trans hd.trailers
  inner ops := inner_performAll (h.finished.trans hd.finished) ops

/-- What carries a payload is read as the payload over a source that never fails. -/
theorem exists_readToEnd_of_coding (hr : r.NeverFails) (keepTrailers : Bool)
    {payload octets rest : Bytes} {trailers : List Field}
    (hcoding : ChunkedCoding r.charset payload trailers octets)
    (hrest : r.pending = octets ++ rest) :
    ∃ c, (start keepTrailers r).readToEnd = (.ok payload, c) ∧ c.inner.pending = rest ∧
      IsBehind keepTrailers trailers octets.length c := by
  obtain ⟨heq, hover⟩ := readToEnd_flatten hr keepTrailers
  obtain ⟨last, hread⟩ :=
    takeToEnd_of_coding (c := start keepTrailers r.flatten) hcoding rfl hrest []
  have hflat : (start keepTrailers r.flatten).readToEnd = _ := hread
  rw [hflat] at heq hover
  refine ⟨_, Prod.ext heq rfl, congrArg FlatReader.rest hover.inner, ?_⟩
  exact isBehind_of_over hover (isBehind_ended keepTrailers trailers octets.length)

/-- What is read as a payload over a source that never fails carries it. -/
theorem exists_coding_of_readToEnd (hr : r.NeverFails) (hascii : r.charset = .ascii)
    {keepTrailers : Bool} {payload : Bytes} {c : ChunkedReader (BufferedReader σ)}
    (h : (start keepTrailers r).readToEnd = (.ok payload, c)) :
    ∃ trailers octets, ChunkedCoding .ascii payload trailers octets ∧
      r.pending = octets ++ c.inner.pending := by
  obtain ⟨heq, hover⟩ := readToEnd_flatten hr keepTrailers
  rw [h] at heq hover
  have hflat : takeToEnd [] (start keepTrailers r.flatten) = (.ok payload, _) :=
    Prod.ext heq.symm rfl
  obtain ⟨_, trailers, octets, rfl, hcoding, hrest⟩ := coding_of_takeToEnd hascii rfl hflat
  refine ⟨trailers, octets, hcoding, hrest.trans ?_⟩
  exact congrArg (fun f => octets ++ f.rest) hover.inner.symm

/-- **A chunked body is read if and only if it is there, and it is read up to its end.**  Over a
source that never fails a fresh reader of chunks answers with a payload and leaves certain octets
exactly if what the source delivers carries the payload in chunks, with those octets behind it.  It
has then taken as many octets as carry the payload, holds the trailers if they are kept, and takes
nothing more, whatever it is asked for. -/
theorem readToEnd_iff_coding (hr : r.NeverFails) (hascii : r.charset = .ascii)
    (keepTrailers : Bool) :
    (∀ payload rest,
        (∃ c, (start keepTrailers r).readToEnd = (.ok payload, c) ∧ c.inner.pending = rest) ↔
          ∃ trailers octets, ChunkedCoding .ascii payload trailers octets ∧
            r.pending = octets ++ rest) ∧
      ∀ payload trailers octets c, (start keepTrailers r).readToEnd = (.ok payload, c) →
        ChunkedCoding .ascii payload trailers octets → r.pending = octets ++ c.inner.pending →
          IsBehind keepTrailers trailers octets.length c := by
  constructor
  · intro payload rest
    constructor
    · rintro ⟨c, h, rfl⟩
      exact exists_coding_of_readToEnd hr hascii h
    · rintro ⟨trailers, octets, hcoding, hrest⟩
      rw [← hascii] at hcoding
      obtain ⟨c, h, hleft, -⟩ := exists_readToEnd_of_coding hr keepTrailers hcoding hrest
      exact ⟨c, h, hleft⟩
  · intro payload trailers octets c h hcoding hrest
    rw [← hascii] at hcoding
    obtain ⟨c', h', -, hbehind⟩ := exists_readToEnd_of_coding hr keepTrailers hcoding hrest
    obtain rfl : c' = c := congrArg Prod.snd (h'.symm.trans h)
    exact hbehind

/-- A chunk with an extension, its data cut in two by the source, a trailer, and the beginning of
the next message behind it. -/
theorem readToEnd_iff_coding_pieces :
    ∃ c, (start true (BufferedReader.ofSource (Pieces.mk
        [Utf8.encode "3;x\r\na\n".toList, Utf8.encode "c\n0 \r\na:b \n\r\nGET".toList]) 4
          .ascii)).readToEnd = (.ok (Utf8.encode "a\nc".toList), c) ∧
      c.inner.pending = Utf8.encode "GET".toList ∧
        c.lastTaken = 20 ∧
        c.releaseTrailers.1 = ⟨[⟨⟨"a".toList, by decide⟩, ⟨[0x62], by decide⟩⟩]⟩ := by
  have hline (t : String) (ending : LineEnd) (h : Text.IsPlain t.toList) :
      LineOf .ascii t.toList (Utf8.encode t.toList ++ ending.octets) :=
    WireLine.lineOf ⟨t.toList, h, ending⟩ .ascii
  have hblock : BlockOf .ascii [⟨⟨"a".toList, by decide⟩, ⟨[0x62], by decide⟩⟩] _ :=
    .field (hline "a:b " .lf (by decide)) ⟨['a'], "b ".toList, rfl, by decide, by decide⟩
      (.done (hline "" .crlf (by decide)))
  have hlast : AnnouncesSize 0 (['0'] ++ [' '] ++ []) :=
    .intro (by decide) rfl (by decide) (List.forall_mem_singleton.mpr (.inl rfl)) (.inl rfl)
  have hthree : AnnouncesSize 3 (['3'] ++ [] ++ [';', 'x']) :=
    .intro (by decide) rfl (by decide) (List.forall_mem_nil _) (.inr ⟨_, rfl⟩)
  have hcoding : ChunkedCoding .ascii (Utf8.encode "a\nc".toList ++ []) _ _ :=
    .chunk (hline "3;x" .crlf (by decide)) hthree (by decide) (hline "" .lf (by decide))
      (.last (hline "0 " .crlf (by decide)) hlast hblock)
  obtain ⟨hread, hbehind⟩ := readToEnd_iff_coding (Pieces.neverFails
    ⟨[Utf8.encode "3;x\r\na\n".toList, Utf8.encode "c\n0 \r\na:b \n\r\nGET".toList]⟩ 4 .ascii)
      rfl true
  obtain ⟨c, h, hrest⟩ :=
    (hread _ (Utf8.encode "GET".toList)).mpr ⟨_, _, hcoding, by decide⟩
  have hc := hbehind _ _ _ c h hcoding (by rw [hrest]; decide)
  exact ⟨c, h, hrest, hc.lastTaken, hc.trailers⟩

end

end ChunkedReader

end HttpWire
