import HttpWire.Proofs.Body.Chunked

/-!
# A chunked body is its payload

A reader of chunks answers lines and reads to the end just as a reader of the payload does, wherever
the chunks are cut (`performAll_start`).  A block of a given length it refuses, and is then where it
was before.

What the reader still has to hand out is the payload at hand and the payload in the chunks that are
left (`Holds`).  Every operation takes from that what the plain reader takes from its octets
(`Holds.perform`), and counts the octets that it has taken from the chunks (`Moves`).
-/

namespace HttpWire

/-! ### Answers beside answers -/

/-- Whether readers of chunks offer an operation.  They refuse a block of a given length. -/
def Operation.isOffered : Operation → Bool
  | .exact _ => false
  | .line | .toEnd => true

/-- The number of octets that operations in a row say they took. -/
def takenInAll : List (Outcome × Nat) → Nat
  | [] => 0
  | (_, taken) :: answers => taken + takenInAll answers

/-- The answers to operations beside those to the operations among them that readers of chunks
offer: these are answered alike, and the others are refused. -/
inductive AnswersAs : List Operation → List (Outcome × Nat) → List (Outcome × Nat) → Prop
  | nil : AnswersAs [] [] []
  | offered {op ops outcome taken taken' answers answers'} (hop : op.isOffered = true)
    (h : AnswersAs ops answers answers') :
    AnswersAs (op :: ops) ((outcome, taken) :: answers) ((outcome, taken') :: answers')
  | refused {count ops answers answers'} (h : AnswersAs ops answers answers') :
    AnswersAs (.exact count :: ops)
      ((.octets (.error (.fault (.unsupported (.exactlyOfChunked count)))), 0) :: answers) answers'

namespace ChunkedReader

/-! ### What is left to hand out -/

/-- In front of `rest` the reader still has to hand out a payload, of which the octets `left` carry
what is not at hand. -/
inductive Holds (rest : Bytes) : ChunkedReader FlatReader → Bytes → Bytes → Prop
  | chunks {c payload trailers left} (hc : c.finished = false)
    (hcoding : ChunkedCoding c.inner.charset payload trailers left)
    (hrest : c.inner.rest = left ++ rest) : Holds rest c (c.pending ++ payload) left
  | ended {c} (hc : c.finished = true) (hrest : c.inner.rest = rest) : Holds rest c c.pending []

/-- From where `left` was left the reader has moved on, has counted what it took, and holds a
payload there. -/
def Moves (rest left : Bytes) (c c' : ChunkedReader FlatReader) (payload : Bytes) : Prop :=
  ∃ taken left', left = taken ++ left' ∧ c'.lastTaken = c.lastTaken + taken.length ∧
    Holds rest c' payload left'

section

variable {c : ChunkedReader FlatReader} {payload left rest : Bytes}

theorem Holds.moves (h : Holds rest c payload left) : Moves rest left c c payload :=
  ⟨[], left, rfl, rfl, h⟩

theorem Moves.trans {c₁ c₂ c₃ : ChunkedReader FlatReader} {taken left left' : Bytes}
    (hleft : left = taken ++ left') (htaken : c₂.lastTaken = c₁.lastTaken + taken.length)
    (h : Moves rest left' c₂ c₃ payload) : Moves rest left c₁ c₃ payload := by
  obtain ⟨taken', left'', rfl, htaken', hholds⟩ := h
  refine ⟨taken ++ taken', left'', hleft.trans (List.append_assoc ..).symm, ?_, hholds⟩
  rw [htaken', htaken, List.length_append, Nat.add_assoc]

/-- What is at hand is in front of the payload, and may be replaced. -/
theorem Holds.exists_append (h : Holds rest c payload left) :
    ∃ more, payload = c.pending ++ more ∧
      ∀ pending, Holds rest { c with pending } (pending ++ more) left := by
  cases h with
  | chunks hc hcoding hrest => exact ⟨_, rfl, fun _ => .chunks hc hcoding hrest⟩
  | ended hc hrest =>
    refine ⟨[], (List.append_nil _).symm, fun pending => ?_⟩
    rw [List.append_nil]
    exact .ended hc hrest

/-- Counting starts again before every operation. -/
theorem Holds.restart (h : Holds rest c payload left) :
    Holds rest { c with lastTaken := 0 } payload left := by
  cases h with
  | chunks hc hcoding hrest => exact .chunks hc hcoding hrest
  | ended hc hrest => exact .ended hc hrest

theorem Holds.inner_rest (h : Holds rest c payload left) : c.inner.rest = left ++ rest := by
  cases h with
  | chunks _ _ hrest => exact hrest
  | ended _ hrest => exact hrest

/-- The next chunk is the next octets of the payload, and without one all of it is at hand. -/
theorem Holds.nextChunk (h : Holds rest c payload left) :
    (∃ chunk c' taken left', c.nextChunk = (.ok (some chunk), c') ∧ left = taken ++ left' ∧
      c'.lastTaken = c.lastTaken + taken.length ∧
        Holds rest { c' with pending := c'.pending ++ chunk } payload left') ∨
      ∃ c', c.nextChunk = (.ok none, c') ∧ payload = c.pending ∧ c'.pending = c.pending ∧
        c'.lastTaken = c.lastTaken + left.length ∧ c'.finished = true ∧ c'.inner.rest = rest := by
  cases h with
  | ended hc hrest =>
    exact .inr ⟨c, nextChunk_of_finished hc, rfl, rfl, rfl, hc, hrest⟩
  | chunks hc hcoding hrest =>
    generalize hcharset : c.inner.charset = charset at hcoding
    subst hcharset
    cases hcoding with
    | last hline hsize hblock =>
      rw [List.append_assoc] at hrest
      obtain ⟨last, hread⟩ := nextChunk_of_last hc hline hsize hblock hrest
      refine .inr ⟨_, hread, List.append_nil _, rfl, ?_, rfl, rfl⟩
      rw [List.length_append]
      rfl
    | @chunk t line data empty payload trailers left hline hsize hne hempty hcoding =>
      simp only [List.append_assoc] at hrest
      have hread := nextChunk_of_chunk hc hline hsize hne hempty hrest
      refine .inl ⟨data, _, line ++ (data ++ empty), left, hread, ?_, ?_, ?_⟩
      · simp only [List.append_assoc]
      · simp only [List.length_append]
        rfl
      · rw [← List.append_assoc]
        exact .chunks hc hcoding rfl

/-! ### Operations beside those of a plain reader -/

/-- **A line of the chunks is a line of the payload.** -/
theorem Holds.takeLine (h : Holds rest c payload left) {f : FlatReader} (hutf8 : f.charset = .utf8)
    (hf : f.rest = payload) :
    c.takeLine.1 = f.readLine.1 ∧ Moves rest left c c.takeLine.2 f.readLine.2.rest := by
  -- By induction on the chunks that are read until a line feed is at hand.
  fun_induction ChunkedReader.takeLine c generalizing left with
  | case1 c before _ after hcut =>
    obtain ⟨more, rfl, hholds⟩ := h.exists_append
    have hcut' : splitFirst (· == lineFeed) f.rest = some (before, _, after ++ more) :=
      hf ▸ splitFirst_append_of_some hcut more
    rw [FlatReader.readLine, hcut', hutf8]
    exact ⟨rfl, (hholds after).moves⟩
  | case2 c _ e c' hnext =>
    rcases h.nextChunk with ⟨_, _, _, _, hchunk, -⟩ | ⟨_, hend, -⟩
    · rw [hnext] at hchunk
      cases hchunk
    · rw [hnext] at hend
      cases hend
  | case3 c _ chunk c' hnext ih =>
    rcases h.nextChunk with ⟨_, _, _, _, hchunk, hleft, htaken, hholds⟩ | ⟨_, hend, -⟩
    · rw [hnext] at hchunk
      cases hchunk
      obtain ⟨hanswer, hmoves⟩ := ih hholds
      exact ⟨hanswer, .trans hleft htaken hmoves⟩
    · rw [hnext] at hend
      cases hend
  | case4 c hcut c' hnext hempty =>
    rcases h.nextChunk with ⟨_, _, _, _, hchunk, -⟩ | ⟨_, hend, rfl, hpending, htaken, hc, hrest⟩
    · rw [hnext] at hchunk
      cases hchunk
    · rw [hnext] at hend
      cases hend
      rw [← hf] at hcut
      rw [FlatReader.readLine, hcut, hf, ← hpending, hempty]
      have hholds : Holds rest c' c'.pending [] := .ended hc hrest
      rw [List.isEmpty_iff.mp hempty] at hholds
      exact ⟨rfl, left, [], (List.append_nil left).symm, htaken, hholds⟩
  | case5 c hcut c' hnext hne =>
    rcases h.nextChunk with ⟨_, _, _, _, hchunk, -⟩ | ⟨_, hend, rfl, hpending, htaken, hc, hrest⟩
    · rw [hnext] at hchunk
      cases hchunk
    · rw [hnext] at hend
      cases hend
      rw [← hf] at hcut
      rw [FlatReader.readLine, hcut, hf, ← hpending, if_neg hne, hutf8]
      exact ⟨rfl, left, [], (List.append_nil left).symm, htaken, .ended hc hrest⟩

/-- The rest of the chunks is the rest of the payload. -/
theorem Holds.readToEnd (h : Holds rest c payload left) :
    c.readToEnd.1 = .ok payload ∧ Moves rest left { c with lastTaken := 0 } c.readToEnd.2 [] := by
  let d : ChunkedReader FlatReader := { c with pending := [], lastTaken := 0 }
  cases h with
  | chunks hc hcoding hrest =>
    obtain ⟨last, hread⟩ := takeToEnd_of_coding (c := d) hcoding hc hrest c.pending
    rw [ChunkedReader.readToEnd, hread]
    exact ⟨rfl, left, [], (List.append_nil left).symm, rfl, .ended rfl rfl⟩
  | ended hc hrest =>
    have hread := takeToEnd_of_finished (c := d) hc c.pending
    rw [ChunkedReader.readToEnd, hread]
    exact ⟨rfl, [], [], rfl, rfl, .ended hc hrest⟩

/-- **One operation.**  What readers of chunks offer is answered as the plain reader answers it, and
takes the same of the payload. -/
theorem Holds.perform (h : Holds rest c payload left) {f : FlatReader} (hutf8 : f.charset = .utf8)
    (hf : f.rest = payload) {op : Operation} (hop : op.isOffered = true) :
    (op.perform c).1 = (op.perform f).1 ∧
      Moves rest left { c with lastTaken := 0 } (op.perform c).2 (op.perform f).2.rest := by
  cases op with
  | exact count => cases hop
  | line =>
    obtain ⟨hanswer, hmoves⟩ := h.restart.takeLine hutf8 hf
    exact ⟨congrArg Outcome.line hanswer, hmoves⟩
  | toEnd =>
    obtain ⟨hanswer, hmoves⟩ := h.readToEnd
    subst hf
    exact ⟨congrArg Outcome.octets hanswer, hmoves⟩

/-- **Operations in a row.** -/
theorem Holds.performAll (h : Holds rest c payload left) {f : FlatReader}
    (hutf8 : f.charset = .utf8) (hf : f.rest = payload) (ops : List Operation) :
    AnswersAs ops (performAll ops c).1 (HttpWire.performAll (ops.filter Operation.isOffered) f).1 ∧
      ∃ taken left', left = taken ++ left' ∧
        takenInAll (HttpWire.performAll ops c).1 = taken.length ∧
          (HttpWire.performAll ops c).2.inner.rest = left' ++ rest := by
  induction ops generalizing c f payload left with
  | nil => exact ⟨.nil, [], left, rfl, rfl, h.inner_rest⟩
  | cons op ops ih =>
    cases hop : op.isOffered with
    | true =>
      obtain ⟨hanswer, taken, left₁, rfl, htaken, hholds⟩ := h.perform hutf8 hf hop
      obtain ⟨hanswers, taken', left', rfl, htaken', hleft⟩ :=
        ih hholds ((op.charset_perform f).trans hutf8) rfl
      rw [List.filter_cons_of_pos hop]
      refine ⟨?_, taken ++ taken', left', (List.append_assoc ..).symm, ?_, hleft⟩
      · show AnswersAs _ (((op.perform c).1, _) :: _) (((op.perform f).1, _) :: _)
        rw [hanswer]
        exact .offered hop hanswers
      · show ByteReader.lastTaken (op.perform c).2 + takenInAll _ = _
        rw [List.length_append, htaken']
        congr 1
        exact htaken.trans (Nat.zero_add _)
    | false =>
      cases op with
      | line => cases hop
      | toEnd => cases hop
      | exact count =>
        obtain ⟨hanswers, taken, left', hleft, htaken, hrest⟩ := ih h.restart hutf8 hf
        rw [List.filter_cons_of_neg (by simp [hop])]
        refine ⟨.refused hanswers, taken, left', hleft, ?_, hrest⟩
        exact (Nat.zero_add _).trans htaken

end

/-! ### Over a connection -/

section

variable {ρ₁ ρ₂ : Type} [ByteReader ρ₁] [ByteReader ρ₂] {lost : Stop ReceiveError → Prop}
  {R : ρ₁ → ρ₂ → Prop} {c : ChunkedReader ρ₁} {d : ChunkedReader ρ₂}

/-- An operation on readers of chunks over related readers, of which none is stopped. -/
theorem Over.perform (hR : Lockstep lost R) (hlost : ∀ e, ¬ lost e) (h : Over R c d)
    (op : Operation) :
    (op.perform c).1 = (op.perform d).1 ∧ Over R (op.perform c).2 (op.perform d).2 := by
  have hnot {α : Type} (answer : Except (Stop ReceiveError) α) :
      ∀ e, answer = .error e → ¬ lost e :=
    fun e _ => hlost e
  cases op with
  | line =>
    have hag := hR.takeLine (c := { c with lastTaken := 0 }) (d := { d with lastTaken := 0 })
      { h with lastTaken := rfl }
    obtain ⟨heq, hover⟩ := hag.eq_of_not_lost (hnot _)
    exact ⟨congrArg Outcome.line heq, hover⟩
  | exact count => exact ⟨rfl, { h with lastTaken := rfl }⟩
  | toEnd =>
    have hag := hR.takeToEnd c.pending (c := { c with pending := [], lastTaken := 0 })
      (d := { d with pending := [], lastTaken := 0 }) { h with pending := rfl, lastTaken := rfl }
    obtain ⟨heq, hover⟩ := hag.eq_of_not_lost (hnot _)
    have hd : Operation.perform .toEnd d =
        (.octets (takeToEnd c.pending { d with pending := [], lastTaken := 0 }).1,
          (takeToEnd c.pending { d with pending := [], lastTaken := 0 }).2) := by
      rw [h.pending]
      rfl
    rw [hd]
    exact ⟨congrArg Outcome.octets heq, hover⟩

theorem Over.performAll (hR : Lockstep lost R) (hlost : ∀ e, ¬ lost e) (h : Over R c d)
    (ops : List Operation) :
    (performAll ops c).1 = (HttpWire.performAll ops d).1 ∧
      Over R (HttpWire.performAll ops c).2 (HttpWire.performAll ops d).2 := by
  induction ops generalizing c d with
  | nil => exact ⟨rfl, h⟩
  | cons op ops ih =>
    obtain ⟨hanswer, hover⟩ := h.perform hR hlost op
    obtain ⟨hanswers, hover'⟩ := ih hover
    refine ⟨?_, hover'⟩
    show ((op.perform c).1, (op.perform c).2.lastTaken) :: _ =
      ((op.perform d).1, (op.perform d).2.lastTaken) :: _
    rw [hanswer, hover.lastTaken, hanswers]

end

section

variable {σ τ : Type} [ByteSource σ] [StreamSource σ] [ByteSource τ] [StreamSource τ]
  {r : BufferedReader σ} {plain : BufferedReader τ}

/-- **Reading a chunked body is reading its payload.**  A fresh reader of chunks over a source that
never fails stands in front of octets that carry what is pending in another reader, whose lines are
in UTF-8.  Whatever operations are performed, it answers lines and reads to the end as the other
reader does, refuses blocks of a given length, and has taken as many of the octets as it says. -/
theorem performAll_start (hr : r.NeverFails) (hplain : plain.NeverFails)
    (hutf8 : plain.charset = .utf8) {octets rest : Bytes} {trailers : List Field}
    (hcoding : ChunkedCoding r.charset plain.pending trailers octets)
    (hrest : r.pending = octets ++ rest) (keepTrailers : Bool) (ops : List Operation) :
    AnswersAs ops (performAll ops (start keepTrailers r)).1
        (performAll (ops.filter Operation.isOffered) plain).1 ∧
      ∃ taken left, octets = taken ++ left ∧
        takenInAll (performAll ops (start keepTrailers r)).1 = taken.length ∧
          (performAll ops (start keepTrailers r)).2.inner.pending = left ++ rest := by
  obtain ⟨g, hm, hg⟩ := hr
  obtain ⟨g', hm', hg'⟩ := hplain
  have hover : Over (BufferedReader.FlattensTo g) (start keepTrailers r)
      (start keepTrailers r.flatten) :=
    ⟨BufferedReader.flattensTo hg, rfl, rfl, rfl, rfl, rfl⟩
  obtain ⟨hanswers, hbehind⟩ :=
    hover.performAll (BufferedReader.lockstep_flatten g) (fun _ hlost => hm hlost.1) ops
  have hholds : Holds rest (start keepTrailers r.flatten) plain.pending octets :=
    .chunks rfl hcoding hrest
  obtain ⟨hanswers', hleft⟩ := hholds.performAll (f := plain.flatten) hutf8 rfl ops
  rw [← hanswers, ← (BufferedReader.performAll_flatten hm' hg' _).1] at hanswers'
  rw [← hanswers, ← hbehind.inner.2] at hleft
  exact ⟨hanswers', hleft⟩

/-- A character and a line end that are cut in two by the chunks, a size line with an extension, a
trailer, and the beginning of the next message.  The block of two octets is refused. -/
theorem performAll_start_pieces :
    let octets : Bytes := Utf8.encode "1;x\r\n".toList ++ 0xC3 :: Utf8.encode "\r\n2\n".toList ++
      0xA9 :: 0x0D :: Utf8.encode "\n2\r\n".toList ++
        0x0A :: 0x62 :: Utf8.encode "\r\n0\r\na:b \n\r\n".toList
    let c := start true
      (BufferedReader.ofSource (Pieces.mk [octets, Utf8.encode "GET".toList]) 3 .ascii)
    let ops : List Operation := [.line, .exact 2, .toEnd, .line]
    AnswersAs ops (performAll ops c).1
        [(.line (.ok (some ['é'])), 4), (.octets (.ok [0x62]), 1), (.line (.ok none), 0)] ∧
      ∃ taken left, octets = taken ++ left ∧ takenInAll (performAll ops c).1 = taken.length ∧
        (performAll ops c).2.inner.pending = left ++ Utf8.encode "GET".toList := by
  intro octets c ops
  let payload : Bytes := [0xC3] ++ ([0xA9, 0x0D] ++ ([0x0A, 0x62] ++ []))
  have hplain : (performAll (ops.filter Operation.isOffered)
      (BufferedReader.ofSource (Pieces.mk [payload]) 2 .utf8)).1 =
        [(.line (.ok (some ['é'])), 4), (.octets (.ok [0x62]), 1), (.line (.ok none), 0)] := by
    have hread : LineCharset.Reads .utf8 [0xC3, 0xA9] (.ok (some ['é'])) :=
      LineCharset.reads_iff.mpr rfl
    have htakes : TakesAll .utf8 (ops.filter Operation.isOffered)
        ([0xC3, 0xA9] ++ carriageReturn :: lineFeed :: [0x62])
        [(.line (.ok (some ['é'])), 4), (.octets (.ok [0x62]), 1), (.line (.ok none), 0)] [] :=
      .cons (.crlf (by decide) hread) (.cons .toEnd (.cons .noLine .nil))
    exact ((BufferedReader.performAll_iff (Pieces.neverFails ⟨[payload]⟩ 2 .utf8)).mpr htakes).1
  have hline (t : String) (ending : LineEnd) (h : Text.IsPlain t.toList) :
      LineOf .ascii t.toList (Utf8.encode t.toList ++ ending.octets) :=
    WireLine.lineOf ⟨t.toList, h, ending⟩ .ascii
  have hblock : BlockOf .ascii [⟨⟨"a".toList, by decide⟩, ⟨[0x62], by decide⟩⟩] _ :=
    .field (hline "a:b " .lf (by decide)) ⟨['a'], "b ".toList, rfl, by decide, by decide⟩
      (.done (hline "" .crlf (by decide)))
  have hone : AnnouncesSize 1 (['1'] ++ [] ++ [';', 'x']) :=
    .intro (by decide) rfl (by decide) (List.forall_mem_nil _) (.inr ⟨_, rfl⟩)
  have htwo : AnnouncesSize 2 (['2'] ++ [] ++ []) :=
    .intro (by decide) rfl (by decide) (List.forall_mem_nil _) (.inl rfl)
  have hlast : AnnouncesSize 0 (['0'] ++ [] ++ []) :=
    .intro (by decide) rfl (by decide) (List.forall_mem_nil _) (.inl rfl)
  obtain ⟨coded, trailers, rfl, hcoding⟩ : ∃ coded trailers, coded = octets ∧
      ChunkedCoding .ascii payload trailers coded :=
    ⟨_, _, by decide,
      .chunk (hline "1;x" .crlf (by decide)) hone (by decide) (hline "" .crlf (by decide))
        (.chunk (hline "2" .lf (by decide)) htwo (by decide) (hline "" .lf (by decide))
          (.chunk (hline "2" .crlf (by decide)) htwo (by decide) (hline "" .crlf (by decide))
            (.last (hline "0" .crlf (by decide)) hlast hblock)))⟩
  have hrest : c.inner.pending = octets ++ Utf8.encode "GET".toList := by decide
  obtain ⟨hanswers, htaken⟩ := performAll_start (Pieces.neverFails _ 3 .ascii)
    (Pieces.neverFails ⟨[payload]⟩ 2 .utf8) rfl hcoding hrest true ops
  rw [hplain] at hanswers
  exact ⟨hanswers, htaken⟩

end

end ChunkedReader

end HttpWire
